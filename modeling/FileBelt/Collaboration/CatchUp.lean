import FileBelt.Collaboration.History

/-!
# Catching up with the journal

A room that replays durable groups goes through the documents of the journal: it
fails, or it holds the document of the sequence at which it ends.
-/

namespace FileBelt.Collaboration

section

variable {blake3 : List UInt8 → Write.Digest} {chunks : List (List UInt8)}

theorem exists_mem_manifestFrom (blake3 : List UInt8 → Write.Digest)
    {chunk : List UInt8} (h : chunk ∈ chunks) (index offset : ℕ) :
    ∃ row ∈ manifestFrom blake3 index offset chunks, row.sizeBytes = chunk.length := by
  induction chunks generalizing index offset with
  | nil => cases h
  | cons first chunks ih =>
    rcases List.mem_cons.mp h with rfl | hrest
    · exact ⟨_, List.mem_cons_self, rfl⟩
    · obtain ⟨row, hrow, hsize⟩ := ih hrest (index + 1) (offset + first.length)
      exact ⟨row, List.mem_cons_of_mem _ hrow, hsize⟩

theorem splitFrom_manifestFrom (before : List UInt8)
    (hsize : ∀ chunk ∈ chunks, 0 < chunk.length ∧ chunk.length ≤ maxSyncChunkBytes) (index : ℕ) :
    splitFrom blake3 (before ++ chunks.flatten) index before.length
      (manifestFrom blake3 index before.length chunks) = .ok chunks := by
  induction chunks generalizing before index with
  | nil =>
    rw [manifestFrom, splitFrom, List.flatten_nil, List.append_nil, if_neg (not_not.mpr rfl)]
  | cons chunk chunks ih =>
    obtain ⟨hpos, hmax⟩ := hsize chunk List.mem_cons_self
    have hrest := ih (before ++ chunk)
      (List.forall_mem_cons.mp hsize).2 (index + 1)
    have hvalue : ((before ++ (chunk :: chunks).flatten).drop before.length).take
        chunk.length = chunk := by
      rw [List.drop_left, List.flatten_cons, List.take_left]
    rw [manifestFrom, splitFrom]
    rw [hvalue, if_neg]
    · rw [List.length_append] at hrest
      rw [List.flatten_cons, ← List.append_assoc, hrest]
      rfl
    · rw [List.length_append, List.flatten_cons, List.length_append]
      simp only [ne_eq, not_true_eq_false, false_or, or_false]
      omega

theorem splitReplayChunks_manifestChunks
    (hsize : ∀ chunk ∈ chunks, 0 < chunk.length ∧ chunk.length ≤ maxSyncChunkBytes) :
    splitReplayChunks blake3 chunks.flatten (manifestChunks blake3 chunks) = .ok chunks :=
  splitFrom_manifestFrom [] hsize 0

end

variable {Y : Yjs} {config : RoomConfig Y} {epoch : Epoch} {journal : List UpdateRequest}
  {request : UpdateRequest} {room : RoomDocument Y}

theorem Insertable.chunk_size {receipt : ApplyReceipt}
    (h : Insertable config request receipt) {chunk : List UInt8} (hchunk : chunk ∈ request.chunks) :
    0 < chunk.length ∧ chunk.length ≤ maxSyncChunkBytes := by
  obtain ⟨row, hrow, hsize⟩ := exists_mem_manifestFrom config.blake3 hchunk 0 0
  have hacceptable := of_decide_eq_true (h.acceptable 0 0)
  have hrowSize := of_decide_eq_true (List.all_eq_true.mp hacceptable.2.2.2.1 row hrow)
  rw [hsize] at hrowSize
  exact hrowSize

variable {n m after : ℕ} {row : UpdateGroupRow} {object : CollaborationObject} {doc : Y.Doc}

theorem RowOf.split (h : RowOf config epoch journal m request row)
    (hobject : epoch.object row.objectId = some object) :
    splitReplayChunks config.blake3 object.bytes row.chunks = .ok request.chunks := by
  obtain ⟨_, hstored, hbytes⟩ := h.object
  obtain ⟨_, _, -, -, hinsertable, hrow⟩ := h.staged
  rw [hobject] at hstored
  rw [Option.some.inj hstored, hbytes, hrow]
  exact splitReplayChunks_manifestChunks fun chunk hchunk =>
    hinsertable.chunk_size hchunk

theorem applyReplayGroup_next (h : RowOf config epoch journal n request row)
    (hobject : epoch.object row.objectId = some object) (hrequest : journal[n]? = some request)
    (hdoc : config.docAt journal n = some doc) (hn : n < 2 ^ 63) :
    ∃ doc', applyReplayGroup config (config.roomAt doc n) (row, object) =
        (config.roomAt doc' (n + 1), .ok ()) ∧ config.docAt journal (n + 1) = some doc' := by
  obtain ⟨found, staged, hfound, hstaged, -, -⟩ := h.staged
  obtain rfl : doc = found := Option.some.inj (hdoc.symm.trans hfound)
  obtain ⟨hfirst, hlast, -⟩ := h.sequence
  obtain ⟨hreceiptFirst, hreceiptLast, hcommit⟩ := RoomConfig.stageGroup_roomAt hn hstaged
  refine ⟨staged.doc, ?_, RoomConfig.docAt_succ hrequest hdoc (stageGroup_spec hstaged).1⟩
  rw [applyReplayGroup]
  rw [h.split hobject]
  dsimp only
  rw [RoomDocument.applyGroup, hstaged, ok_bind, hcommit]
  dsimp only
  rw [hreceiptFirst, hreceiptLast, hfirst, hlast, if_neg (by simp)]

theorem eq_of_applyReplayGroup (h : RowOf config epoch journal m request row) (hn : n < 2 ^ 63)
    (hok : (applyReplayGroup config (config.roomAt doc n) (row, object)).2 = .ok ()) : n = m := by
  have hfirst := h.sequence.1
  rw [applyReplayGroup] at hok
  split at hok
  · cases hok
  · split at hok
    · cases hok
    · next room' receipt happly =>
      obtain ⟨restaged, hrestaged, hcommit⟩ := bind_eq_ok happly
      obtain ⟨hreceipt, -, heq⟩ := RoomConfig.stageGroup_roomAt hn hrestaged
      rw [heq] at hcommit
      obtain ⟨-, rfl⟩ := Prod.mk.inj (Except.ok.inj hcommit)
      split at hok
      · cases hok
      · next hsame =>
        rw [hfirst] at hsame
        omega

theorem mem_replayGroups : (row, object) ∈ epoch.replayGroups after ↔
      row ∈ epoch.groups ∧ epoch.object row.objectId = some object ∧
        after < row.lastSequence ∧ object.state = .durable := by
  rw [Epoch.replayGroups, List.mem_insertionSort, List.mem_filterMap]
  constructor
  · rintro ⟨_, hother, heq⟩
    obtain ⟨_, hfound, hif⟩ := Option.bind_eq_some_iff.mp heq
    obtain ⟨hcond, hif⟩ := Option.ite_none_right_eq_some.mp hif
    obtain ⟨rfl, rfl⟩ := Prod.mk.inj (Option.some.inj hif)
    exact ⟨hother, hfound, hcond⟩
  · rintro ⟨hrow, hobject, hcond⟩
    refine ⟨row, hrow, ?_⟩
    rw [hobject, Option.bind_some, if_pos hcond]

/-- The groups of a list are rows of the epoch with their objects. -/
def RowsOf (epoch : Epoch) (groups : List (UpdateGroupRow × CollaborationObject)) : Prop :=
  ∀ group ∈ groups, group.1 ∈ epoch.groups ∧ epoch.object group.1.objectId = some group.2

theorem Recorded.replayAll_current (h : Recorded config epoch journal)
    {groups : List (UpdateGroupRow × CollaborationObject)} (hgroups : RowsOf epoch groups)
    (hroom : config.Current journal room) (hok : (replayAll config room groups).2 = .ok ()) :
    config.Current journal (replayAll config room groups).1 := by
  induction groups generalizing room with
  | nil => exact hroom
  | cons group groups ih =>
    obtain ⟨row, object⟩ := group
    obtain ⟨hrow, hobject⟩ := hgroups _ List.mem_cons_self
    obtain ⟨m, request, hrequest, hlt, hrowOf⟩ := h.exists_entry hrow
    obtain ⟨doc, n, rfl, hdoc, hn⟩ := hroom
    have hbounded := h.bounded
    rw [replayAll] at hok ⊢
    -- a first group of another sequence fails, so it is the next one
    by_cases hnm : n = m
    · subst hnm
      obtain ⟨doc', happly, hdoc'⟩ := applyReplayGroup_next hrowOf hobject hrequest hdoc (by omega)
      rw [happly] at hok ⊢
      exact ih (List.forall_mem_cons.mp hgroups).2
        ⟨doc', n + 1, rfl, hdoc', hlt⟩ hok
    · split at hok
      · next room' happly =>
        have hsecond : (applyReplayGroup config (config.roomAt doc n)
            (row, object)).2 = .ok () := by
          rw [happly]
        exact absurd (eq_of_applyReplayGroup hrowOf (by omega) hsecond) hnm
      · cases hok

/-- What a catch-up can come to: the room is current, or the epoch is frozen. -/
theorem Recorded.catchUpRoom_cases (h : Recorded config epoch journal)
    (hroom : epoch.active → config.Current journal room) :
    (∃ room', catchUpRoom config true epoch room = (epoch, room', .ok ()) ∧
        (epoch.active → config.Current journal room')) ∨
      ∃ room' error, catchUpRoom config true epoch room = (epoch.freeze, room', .error error) := by
  rw [catchUpRoom]
  split
  · next room' hreplay =>
    refine .inl ⟨room', rfl, fun hactive => ?_⟩
    have hrows : RowsOf epoch (epoch.replayGroups room.serverSequence) := by
      rintro ⟨_, _⟩ hgroup
      obtain ⟨hrow, hobject, -⟩ := mem_replayGroups.mp hgroup
      exact ⟨hrow, hobject⟩
    have hcurrent := h.replayAll_current hrows (hroom hactive) (by rw [hreplay])
    rw [hreplay] at hcurrent
    exact hcurrent
  · next room' error hreplay => exact .inr ⟨room', error, rfl⟩

end FileBelt.Collaboration
