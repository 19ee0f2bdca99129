import FileBelt.Collaboration.CatchUp
import FileBelt.Collaboration.Replicas

/-!
# The chunks of a durable group

A manifest is accepted with the bytes of an object exactly when it is the manifest of
the chunks that it gives back.  Every durable group is stored with the bytes and the
manifest of the chunks that its client sent.
-/

namespace FileBelt.Collaboration

open Support

variable {request : UpdateRequest}

section

variable {blake3 : List UInt8 → Write.Digest} {bytes : List UInt8}
  {manifest : List UpdateChunkRow} {chunks : List (List UInt8)}

theorem eq_of_splitFrom {index offset : ℕ} (hoffset : offset ≤ bytes.length)
    (h : splitFrom blake3 bytes index offset manifest = .ok chunks) :
    bytes.drop offset = chunks.flatten ∧ manifest = manifestFrom blake3 index offset chunks ∧
      ∀ chunk ∈ chunks, 0 < chunk.length ∧ chunk.length ≤ maxSyncChunkBytes := by
  induction manifest generalizing index offset chunks with
  | nil =>
    obtain ⟨hend, hchunks⟩ := else_of_ok h
    obtain rfl := Except.ok.inj hchunks
    rw [not_not.mp hend, List.drop_length]
    exact ⟨rfl, rfl, fun _ hchunk => by cases hchunk⟩
  | cons row manifest ih =>
    obtain ⟨hrow, hrest⟩ := else_of_ok h
    obtain ⟨rest, hsplit, hchunks⟩ := bind_eq_ok hrest
    obtain rfl := Except.ok.inj hchunks
    simp only [not_or, not_not, Nat.not_lt] at hrow
    obtain ⟨rfl, rfl, hpos, hmax, hfits, hdigest⟩ := hrow
    obtain ⟨hbytes, rfl, hsizes⟩ := ih hfits hsplit
    have hlength : ((bytes.drop row.objectOffset).take row.sizeBytes).length =
        row.sizeBytes := by
      rw [List.length_take, List.length_drop]
      omega
    refine ⟨?_, ?_, ?_⟩
    · rw [List.flatten_cons, ← hbytes, ← List.drop_drop, List.take_append_drop]
    · rw [manifestFrom, hlength, hdigest]
    · rw [List.forall_mem_cons, hlength]
      exact ⟨⟨Nat.pos_of_ne_zero hpos, hmax⟩, hsizes⟩

/-- `split_replay_chunks` accepts the manifests of the chunks that tile the bytes. -/
theorem splitReplayChunks_eq_ok : splitReplayChunks blake3 bytes manifest = .ok chunks ↔
      bytes = chunks.flatten ∧ manifest = manifestChunks blake3 chunks ∧
      ∀ chunk ∈ chunks, 0 < chunk.length ∧ chunk.length ≤ maxSyncChunkBytes := by
  constructor
  · exact eq_of_splitFrom (Nat.zero_le _)
  · rintro ⟨rfl, rfl, hsizes⟩
    exact splitReplayChunks_manifestChunks hsizes

end

variable {Y : Yjs} (config : RoomConfig Y)

/-- The row is the group of the request, and its object and manifest give back the
chunks. -/
def StoredAs (epoch : Epoch) (request : UpdateRequest) (row : UpdateGroupRow) : Prop :=
  (row.clientId, row.clientUpdateId) = request.key ∧
    ∃ object, epoch.object row.objectId = some object ∧
      splitReplayChunks config.blake3 object.bytes row.chunks = .ok request.chunks

/-- The rows are those of the durable requests, in their order. -/
structure Stored (epoch : Epoch) (journal : List UpdateRequest) : Prop where
  fresh : epoch.Fresh
  groups : List.Forall₂ (StoredAs config epoch) journal epoch.groups

abbrev Stores (server : Server Y) : Prop := Stored config server.epoch server.journal

variable {config} {epoch epoch' : Epoch} {journal : List UpdateRequest}

theorem StoredAs.mono {row : UpdateGroupRow} (h : StoredAs config epoch request row)
    (hbytes : epoch.KeepsBytes epoch') : StoredAs config epoch' request row := by
  obtain ⟨hkey, object, hobject, hsplit⟩ := h
  obtain ⟨object', hobject', heq⟩ := hbytes _ object hobject
  exact ⟨hkey, object', hobject', heq ▸ hsplit⟩

namespace Stored

section

variable (h : Stored config epoch journal)
include h

theorem keep (hfresh : epoch'.Fresh) (hbytes : epoch.KeepsBytes epoch')
    (hgroups : epoch'.groups = epoch.groups) : Stored config epoch' journal :=
  ⟨hfresh, hgroups ▸ h.groups.imp fun _ _ hrow => hrow.mono hbytes⟩

theorem sameRows (hsame : epoch.SameRows epoch') : Stored config epoch' journal :=
  h.keep (hsame.fresh h.fresh) (hsame.keepsBytes h.fresh) hsame.groups

theorem freeze : Stored config epoch.freeze journal := ⟨h.fresh, h.groups⟩

theorem insertGroup {receipt : ApplyReceipt} (hinsertable : Insertable config request receipt) :
    Stored config (epoch.insertGroup config request receipt) (journal ++ [request]) := by
  have hstored := h.sameRows (.store epoch .updateGroup request.chunks.flatten)
  refine ⟨hstored.fresh, List.rel_append hstored.groups (.cons ?_ .nil)⟩
  exact ⟨rfl, _, Epoch.object_store h.fresh _ _,
    splitReplayChunks_manifestChunks fun _ => hinsertable.chunk_size⟩

end

variable {server server' : Server Y} (verdicts : Verdicts)

theorem attemptUpdate_epoch (room : RoomDocument Y) (task : UpdateTask) :
    (attemptUpdate config verdicts epoch room task).1 = epoch ∨
      ∃ receipt base, (attemptUpdate config verdicts epoch room task).1 =
        (ioPersistUpdateGroup config verdicts epoch task.request receipt base).1 := by
  rw [attemptUpdate]
  split
  · exact .inl rfl
  split
  · exact .inl rfl
  split
  · exact .inl rfl
  · next staged hstaged =>
    refine .inr ⟨staged.receipt, room.serverSequence, ?_⟩
    dsimp only
    repeat' split
    all_goals rfl

variable (h : Stores config server) (room : RoomDocument Y)
include h

omit room in
theorem tryFreeze (freezes : Bool) :
    Stores config { server with epoch := server.epoch.tryFreeze freezes } := by
  cases freezes with
  | false => exact h
  | true => exact h.freeze

theorem catchUp (replica : ℕ) (freezes : Bool) :
    Stores config (server.catchUp config replica room freezes).1 := by
  change Stored config (catchUpRoom config freezes server.epoch room).1 _
  rw [catchUpRoom]
  split
  · exact h
  · exact h.tryFreeze freezes

theorem receive (replica : ℕ) (request : UpdateRequest) (freezes : Bool) :
    Stores config (server.receive config replica room request freezes) := by
  have hafter := h.catchUp room replica freezes
  rw [Server.receive]
  generalize server.catchUp config replica room freezes = caught at hafter ⊢
  obtain ⟨_, answer⟩ := caught
  split
  · exact h
  · cases answer with
    | ok _ | error _ => exact hafter

theorem resume (position : ℕ) (task : UpdateTask) (freezes : Bool) :
    Stores config (server.resume config position task room freezes) := by
  have hafter := h.catchUp room task.replica freezes
  rw [Server.resume]
  generalize server.catchUp config task.replica room freezes = caught at hafter ⊢
  obtain ⟨_, answer⟩ := caught
  cases answer with
  | ok _ | error _ => exact hafter

theorem attempt (position : ℕ) (task : UpdateTask) :
    Stores config (server.attempt config position task room verdicts) := by
  have hepoch := @attemptUpdate_epoch Y config server.epoch verdicts room task
  rw [Server.attempt]
  generalize attemptUpdate config verdicts server.epoch room task = attempted at hepoch ⊢
  suffices hafter : Stored config attempted.1
      (if attempted.1.groups.length = server.epoch.groups.length then server.journal
        else server.journal ++ [task.request]) by
    cases attempted.2.2 with
    | acknowledged _ | stale | failed _ => exact hafter
  rcases hepoch with heq | ⟨receipt, base, heq⟩
  · rw [heq, if_pos rfl]
    exact h
  · rw [heq]
    have hpersisted : Persisted config server.epoch task.request receipt base
        (ioPersistUpdateGroup config verdicts server.epoch task.request receipt base) :=
      persisted_ioPersistUpdateGroup h.fresh
    generalize ioPersistUpdateGroup config verdicts server.epoch task.request
      receipt base = persisted at hpersisted ⊢
    cases hpersisted with
    | failed hsame | found hsame =>
      rw [if_pos (congrArg List.length hsame.groups)]
      exact h.sameRows hsame
    | inserted _ _ _ _ hinsertable =>
      rw [if_neg (by simp [Epoch.insertGroup])]
      exact h.insertGroup hinsertable

omit room in
theorem persistSnapshot (index : ℕ) (snapshot : PendingSnapshot) :
    Stores config (server.persistSnapshot index snapshot verdicts) := by
  have hstored := Epoch.SameRows.store server.epoch .snapshot snapshot.snapshot
  rw [Server.persistSnapshot]
  cases verdicts.storage with
  | error => exact h
  | ok =>
    dsimp only
    split
    · exact h
    · split
      · exact h.sameRows hstored.abandon
      · next hcommitted =>
        obtain ⟨_, rfl⟩ := eq_of_commitSnapshot hcommitted
        have hkept := h.sameRows hstored
        exact hkept.keep (hkept.fresh.supersedeCovered _ _)
          (Epoch.keepsBytes_supersedeCovered _ _) rfl

theorem step {event : ServerEvent} (hstep : server.step config event = .ok server') :
    Stores config server' := by
  cases event with
  | load freezes =>
    rw [Server.step] at hstep
    split at hstep
    · cases hstep
      exact h
    · cases hstep
      exact h.tryFreeze freezes
  | unload =>
    cases hstep
    exact h
  | catchUp replica freezes =>
    obtain ⟨room, -, heq⟩ := bind_eq_ok hstep
    cases heq
    exact h.catchUp room replica freezes
  | receive replica request freezes =>
    obtain ⟨room, -, heq⟩ := bind_eq_ok hstep
    cases heq
    exact h.receive room replica request freezes
  | attempt position verdicts =>
    obtain ⟨task, -, hstep⟩ := bind_eq_ok hstep
    obtain ⟨room, -, hstep⟩ := bind_eq_ok hstep
    split at hstep
    · cases hstep
      exact h.attempt verdicts room position task
    · cases hstep
      exact h.resume room position task verdicts.freezes
  | commitSnapshot index verdicts =>
    obtain ⟨snapshot, -, heq⟩ := bind_eq_ok hstep
    cases heq
    exact h.persistSnapshot verdicts index snapshot
  | freeze =>
    cases hstep
    exact h.freeze

end Stored

theorem stored_run (events : List ServerEvent) :
    Stores config (run (Server.step config) (Server.start Y) events) := by
  have hstart : Stores config (Server.start Y) := ⟨fun _ h => (by cases h), .nil⟩
  exact run_invariant (fun _ _ _ h _ hstep => Stored.step h hstep) hstart (meets_true _ events)

/-- In every run, the object and the manifest of each durable group are accepted
and give back the chunks of its request, and only the manifests of chunks that
tile the bytes are ever accepted. -/
theorem durable_chunks_are_replayed (config : RoomConfig Y)
    (events : List ServerEvent) :
    let server := run (Server.step config) (Server.start Y) events
    List.Forall₂ (StoredAs config server.epoch) server.journal server.epoch.groups ∧
      ∀ bytes manifest chunks, splitReplayChunks config.blake3 bytes manifest = .ok chunks ↔
          bytes = chunks.flatten ∧ manifest = manifestChunks config.blake3 chunks ∧
          ∀ chunk ∈ chunks, 0 < chunk.length ∧ chunk.length ≤ maxSyncChunkBytes :=
  ⟨(stored_run events).groups, fun _ _ _ => splitReplayChunks_eq_ok⟩

end FileBelt.Collaboration
