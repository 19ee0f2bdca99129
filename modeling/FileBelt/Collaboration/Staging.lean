import FileBelt.Collaboration.Resubmission

/-!
# Staged updates of one room

Calls on one room document, with any number of staged updates outstanding.  As
long as every commit finds an open room below the largest sequence, a committed
update was staged on the document that it replaces.
-/

namespace FileBelt.Collaboration

open Support

variable {Y : Yjs}

def RoomDocument.freeze (room : RoomDocument Y) (reason : RoomFreezeReason) : RoomDocument Y :=
  { room with frozen := some reason }

/-- A staged update with the chunks, the document and the sequence it comes from. -/
structure HeldUpdate (Y : Yjs) where
  update : StagedUpdate Y
  chunks : List (List UInt8)
  origin : Y.Doc
  sequence : ℕ

/-- The group of a commit, the document it was staged on and the one it replaced. -/
structure Commit (Y : Yjs) where
  chunks : List (List UInt8)
  origin : Y.Doc
  replaced : Y.Doc

/-- A room, the outstanding updates, and what has happened so far. -/
structure Staging (Y : Yjs) where
  room : RoomDocument Y
  held : List (HeldUpdate Y)
  commits : List (Commit Y)
  /-- The document and the sequence when the room was first frozen. -/
  frozenAt : Option (Y.Doc × ℕ)

inductive RoomCall
  | stageGroup (chunks : List (List UInt8))
  /-- The outstanding update at a position is used up. -/
  | commitStaged (position : ℕ)
  | applyGroup (chunks : List (List UInt8))
  | freeze (reason : RoomFreezeReason)

namespace Staging

def start (room : RoomDocument Y) : Staging Y :=
  ⟨room, [], [], room.frozen.map fun _ => (room.doc, room.serverSequence)⟩

def hold (s : Staging Y) (chunks : List (List UInt8)) (update : StagedUpdate Y) : HeldUpdate Y :=
  ⟨update, chunks, s.room.doc, s.room.serverSequence⟩

def commit (s : Staging Y) (held : HeldUpdate Y) : Except RoomDocumentError (Staging Y) := do
  let (room, _) ← s.room.commitStaged held.update
  return { s with
    room := room
    commits := s.commits ++ [⟨held.chunks, held.origin, s.room.doc⟩] }

variable (blake3 : List UInt8 → Write.Digest)

def step (s : Staging Y) : RoomCall → Except RoomDocumentError (Staging Y)
  | .stageGroup chunks => do
      let update ← s.room.stageGroup blake3 chunks
      return { s with held := s.held ++ [s.hold chunks update] }
  | .commitStaged position => do
      let held ← okOr (s.held[position]?) .staleSequence
      let s := { s with held := s.held.eraseIdx position }
      match s.commit held with
      | .ok s' => return s'
      | .error _ => return s
  | .applyGroup chunks => do
      let update ← s.room.stageGroup blake3 chunks
      s.commit (s.hold chunks update)
  | .freeze reason => .ok { s with
      room := s.room.freeze reason
      frozenAt := s.frozenAt.or (some (s.room.doc, s.room.serverSequence)) }

/-- A commit finds the room open, and the next sequence is representable. -/
def Committable (s : Staging Y) : RoomCall → Prop
  | .commitStaged _ => s.room.frozen = none ∧ s.room.serverSequence < 2 ^ 64 - 1
  | .applyGroup _ => s.room.serverSequence < 2 ^ 64 - 1
  | .stageGroup _ | .freeze _ => True

instance (s : Staging Y) : ∀ call, Decidable (Committable s call)
  | .commitStaged _ => inferInstanceAs (Decidable (_ ∧ _))
  | .applyGroup _ => inferInstanceAs (Decidable (_ < _))
  | .stageGroup _ | .freeze _ => isTrue trivial

/-- The update was staged on its origin, which is the present document unless the
room has moved on. -/
structure Held (room : RoomDocument Y) (held : HeldUpdate Y) : Prop where
  applied : Y.applyEncoded held.origin held.chunks.flatten = some held.update.doc
  first : held.update.receipt.firstSequence = saturatingAddU64 held.sequence 1
  last : held.update.receipt.lastSequence = saturatingAddU64 held.sequence 1
  past : held.sequence ≤ room.serverSequence
  current : held.sequence = room.serverSequence → held.origin = room.doc

structure Coherent (room : RoomDocument Y) (s : Staging Y) : Prop where
  /-- The document has every committed group. -/
  applied : s.commits.foldlM (fun doc commit => Y.applyEncoded doc commit.chunks.flatten)
    room.doc = some s.room.doc
  sequence : s.room.serverSequence = room.serverSequence + s.commits.length
  origins : ∀ commit ∈ s.commits, commit.origin = commit.replaced
  frozen : ∀ place, s.frozenAt = some place →
    s.room.frozen.isSome ∧ place = (s.room.doc, s.room.serverSequence)
  held : ∀ held ∈ s.held, Held s.room held

variable {blake3} {room : RoomDocument Y} {s s' : Staging Y} {chunks : List (List UInt8)}
  {held : HeldUpdate Y}

theorem held_of_stageGroup {update : StagedUpdate Y}
    (h : s.room.stageGroup blake3 chunks = .ok update) : Held s.room (s.hold chunks update) := by
  obtain ⟨happlied, hfirst, hlast⟩ := stageGroup_spec h
  exact ⟨happlied, hfirst, hlast, le_rfl, fun _ => rfl⟩

theorem Coherent.commit (h : Coherent room s) (hheld : Held s.room held)
    (hopen : s.room.frozen = none) (hbound : s.room.serverSequence < 2 ^ 64 - 1)
    (hcommit : s.commit held = .ok s') : Coherent room s' := by
  obtain ⟨⟨room', _⟩, hroom, hs'⟩ := bind_eq_ok hcommit
  obtain rfl := Except.ok.inj hs'
  obtain ⟨hfirst, hroom⟩ := then_of_ok hroom
  obtain ⟨rfl, -⟩ := Prod.mk.inj (Except.ok.inj hroom)
  have hpast := hheld.past
  rw [hheld.first, saturatingAddU64, saturatingAddU64] at hfirst
  -- below the largest sequence the numbers differ after every commit
  have hsequence : held.sequence = s.room.serverSequence := by omega
  have hlast : held.update.receipt.lastSequence = s.room.serverSequence + 1 := by
    rw [hheld.last, saturatingAddU64]
    omega
  have horigin := hheld.current hsequence
  constructor
  · rw [List.foldlM_append, h.applied]
    change (Y.applyEncoded s.room.doc held.chunks.flatten).bind _ = _
    rw [← horigin, hheld.applied]
    rfl
  · rw [hlast, h.sequence, List.length_append, List.length_singleton, Nat.add_assoc]
  · exact List.forall_mem_append.mpr ⟨h.origins, List.forall_mem_singleton.mpr horigin⟩
  · intro place hplace
    have hfrozen := (h.frozen place hplace).1
    rw [hopen] at hfrozen
    cases hfrozen
  · intro other hother
    have hother := h.held other hother
    refine ⟨hother.applied, hother.first, hother.last, ?_, fun heq => ?_⟩
    · exact (hother.past.trans (Nat.le_succ _)).trans_eq hlast.symm
    · have hlater := heq.trans hlast
      have := hother.past
      omega

theorem Coherent.step {call : RoomCall} (h : Coherent room s) (hcall : Committable s call)
    (hstep : s.step blake3 call = .ok s') : Coherent room s' := by
  cases call with
  | stageGroup =>
    obtain ⟨update, hupdate, hs'⟩ := bind_eq_ok hstep
    obtain rfl := Except.ok.inj hs'
    refine ⟨h.applied, h.sequence, h.origins, h.frozen, ?_⟩
    exact List.forall_mem_append.mpr
      ⟨h.held, List.forall_mem_singleton.mpr (held_of_stageGroup hupdate)⟩
  | commitStaged position =>
    obtain ⟨held, hheld, hstep⟩ := bind_eq_ok hstep
    have hmem := List.mem_of_getElem? (okOr_eq_ok hheld)
    have hrest : Coherent room { s with held := s.held.eraseIdx position } :=
      ⟨h.applied, h.sequence, h.origins, h.frozen, fun other hother =>
        h.held other (List.mem_of_mem_eraseIdx hother)⟩
    dsimp only at hstep
    split at hstep
    · next hcommit =>
      obtain rfl := Except.ok.inj hstep
      exact hrest.commit (h.held held hmem) hcall.1 hcall.2 hcommit
    · obtain rfl := Except.ok.inj hstep
      exact hrest
  | applyGroup chunks =>
    obtain ⟨update, hupdate, hcommit⟩ := bind_eq_ok hstep
    have hopen : s.room.frozen = none := by
      obtain ⟨_, hcheck, -⟩ := bind_eq_ok hupdate
      rw [RoomDocument.checkGroup] at hcheck
      split at hcheck
      · cases hcheck
      · assumption
    exact h.commit (held_of_stageGroup hupdate) hopen hcall hcommit
  | freeze =>
    obtain rfl := Except.ok.inj hstep
    refine ⟨h.applied, h.sequence, h.origins, fun place hplace => ⟨rfl, ?_⟩, fun other hother => ?_⟩
    · cases hfrozen : s.frozenAt with
      | none =>
        rw [hfrozen] at hplace
        exact (Option.some.inj hplace).symm
      | some first =>
        rw [hfrozen] at hplace
        rw [← Option.some.inj hplace]
        exact (h.frozen first hfrozen).2
    · obtain ⟨happlied, hfirst, hlast, hpast, hcurrent⟩ := h.held other hother
      exact ⟨happlied, hfirst, hlast, hpast, hcurrent⟩

/-- Every committed update was staged on the document that it replaces, each commit
takes the sequence one further, and a frozen room does not change. -/
theorem committed_updates_are_kept (room : RoomDocument Y) {calls : List RoomCall}
    (hcalls : Meets (Staging.step blake3) Committable (start room) calls) :
    Coherent room (run (Staging.step blake3) (start room) calls) := by
  refine run_invariant (fun _ _ _ h hcall hstep => h.step hcall hstep) ?_ hcalls
  refine ⟨rfl, rfl, fun _ => (absurd · List.not_mem_nil), fun place hplace => ?_,
    fun _ => (absurd · List.not_mem_nil)⟩
  obtain ⟨_, hreason, rfl⟩ := Option.map_eq_some_iff.mp hplace
  exact ⟨Option.isSome_of_eq_some hreason, rfl⟩

def letterDocument : RoomDocument growOnly := ⟨[97], letterRoom.limits, 0, none⟩

/-- Two updates are staged on one document; the second is stale. -/
theorem letterDocument_committed : Coherent letterDocument
    (run (Staging.step letterRoom.blake3) (start letterDocument)
      [.stageGroup [[0, 98]], .stageGroup [[0, 99]], .commitStaged 0, .commitStaged 0,
        .freeze .quota, .applyGroup [[0, 99]]]) :=
  committed_updates_are_kept letterDocument (by decide +kernel)

/-- An update that was staged before the room was frozen is committed afterwards. -/
theorem frozen_room_is_changed :
    let s := run (Staging.step letterRoom.blake3) (start letterDocument)
      [.stageGroup [[0, 98]], .freeze .quota, .commitStaged 0]
    s.frozenAt = some ([97], 0) ∧ s.room.frozen = some .quota ∧ s.room.doc = [97, 98] ∧
      s.room.serverSequence = 1 :=
  ⟨rfl, rfl, rfl, rfl⟩

end Staging

end FileBelt.Collaboration
