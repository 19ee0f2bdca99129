import FileBelt.Collaboration.Durable

/-!
# What making a group durable can come to

A group that is persisted fails, is found, or becomes the next row of its epoch.  In
the first two cases the rows and the bytes of earlier objects stay as they are.
-/

namespace FileBelt.Collaboration

/-! ## What a persisted group changes -/

/-- The rows are the same, and so are the objects that existed before. -/
structure Epoch.SameRows (epoch epoch' : Epoch) : Prop where
  active : epoch'.active = epoch.active
  durableSequence : epoch'.durableSequence = epoch.durableSequence
  groups : epoch'.groups = epoch.groups
  snapshots : epoch'.snapshots = epoch.snapshots
  nextObject : epoch.nextObject ≤ epoch'.nextObject
  fresh : epoch.Fresh → epoch'.Fresh
  object : ∀ id < epoch.nextObject, epoch'.object id = epoch.object id

namespace Epoch.SameRows

variable {epoch epoch' epoch'' : Epoch}

theorem refl (epoch : Epoch) : epoch.SameRows epoch :=
  ⟨rfl, rfl, rfl, rfl, le_rfl, id, fun _ _ => rfl⟩

theorem store (epoch : Epoch) (purpose : ObjectPurpose) (bytes : List UInt8) :
    epoch.SameRows (epoch.store purpose bytes) where
  active := rfl
  durableSequence := rfl
  groups := rfl
  snapshots := rfl
  nextObject := Nat.le_succ _
  fresh hfresh := hfresh.store purpose bytes
  object _ hid := object_store_of_ne (Nat.ne_of_lt hid)

theorem supersede (h : epoch.SameRows epoch') :
    epoch.SameRows (epoch'.supersede epoch.nextObject) where
  active := h.active
  durableSequence := h.durableSequence
  groups := h.groups
  snapshots := h.snapshots
  nextObject := h.nextObject
  fresh hfresh := (h.fresh hfresh).setDurable _ _
  object id hid := by
    have hne : id ≠ epoch.nextObject := Nat.ne_of_lt hid
    rw [Epoch.supersede, object_setDurable_of_not (by simpa using hne)]
    exact h.object id hid

theorem abandon (h : epoch.SameRows epoch') : epoch.SameRows (epoch'.abandon epoch.nextObject) where
  active := h.active
  durableSequence := h.durableSequence
  groups := h.groups
  snapshots := h.snapshots
  nextObject := h.nextObject
  fresh hfresh := (h.fresh hfresh).abandon _
  object id hid := by
    rw [object_abandon_of_ne (Nat.ne_of_lt hid)]
    exact h.object id hid

end Epoch.SameRows

section

variable {Y : Yjs} (config : RoomConfig Y)

def Epoch.insertGroup (epoch : Epoch) (request : UpdateRequest) (receipt : ApplyReceipt) : Epoch :=
  let stored := epoch.store .updateGroup request.chunks.flatten
  let input := persistInput config request receipt epoch.durableSequence
    epoch.nextObject
  { stored with
    groups := epoch.groups ++ [input.row (epoch.durableSequence + 1)]
    durableSequence := epoch.durableSequence + 1 }

/-- The group passes the checks of the database. -/
structure Insertable (request : UpdateRequest) (receipt : ApplyReceipt) : Prop where
  acceptable : ∀ base objectId,
    (persistInput config request receipt base objectId).acceptable
  invocation : ∀ id, request.mcpInvocationId = some id →
    config.invocation id receipt.sourceBeforeDigest receipt.sourceAfterDigest

/-- What `persist_update_group` can come to: it fails, it finds the group, or it
makes the group durable. -/
inductive Persisted (epoch : Epoch) (request : UpdateRequest) (receipt : ApplyReceipt) (base : ℕ) :
    Epoch × Except IoClientError (Uuid × ℕ × ℕ) → Prop
  | failed {epoch' : Epoch} {error : IoClientError} (h : epoch.SameRows epoch') :
      Persisted epoch request receipt base (epoch', .error error)
  | found {epoch' : Epoch} {row : UpdateGroupRow} (h : epoch.SameRows epoch')
      (hactive : epoch.active)
      (hrow : epoch.existing request.clientId request.clientUpdateId = some row)
      (hbytes : ∀ object, epoch.object row.objectId = some object →
        config.blake3 object.bytes = config.blake3 request.chunks.flatten) :
      Persisted epoch request receipt base
        (epoch', .ok (row.objectId, row.firstSequence, row.lastSequence))
  | inserted (hactive : epoch.active)
      (hnone : epoch.existing request.clientId request.clientUpdateId = none)
      (hbase : base = epoch.durableSequence)
      (hbound : epoch.durableSequence + 1 < 2 ^ 63)
      (hinsertable : Insertable config request receipt) :
      Persisted epoch request receipt base (epoch.insertGroup config request receipt,
          .ok (epoch.nextObject, epoch.durableSequence + 1,
            epoch.durableSequence + 1))

variable {config} {epoch : Epoch} {request : UpdateRequest}
  {receipt : ApplyReceipt} {base : ℕ} {verdicts : Verdicts}

theorem persistUpdateGroup_cases (authorization : Except DatabaseError Unit)
    (input : PersistInput) :
    (∃ epoch' error, (epoch' = epoch ∨ epoch' = epoch.supersede input.objectId) ∧
        persistUpdateGroup config authorization epoch input = (epoch', .error error)) ∨
      (∃ epoch' row incoming, (epoch' = epoch ∨ epoch' = epoch.supersede input.objectId) ∧
        epoch.active ∧ epoch.object input.objectId = some incoming ∧
        epoch.existing input.clientId input.clientUpdateId = some row ∧
        sameGroup config.blake3 epoch row input incoming ∧
        persistUpdateGroup config authorization epoch input =
          (epoch', .ok (row.objectId, row.firstSequence, row.lastSequence))) ∨
      (input.acceptable ∧ epoch.active ∧
        (input.mcpInvocationId.any fun id => config.invocation id
          input.sourceBeforeDigest input.sourceAfterDigest = false) = false ∧
        epoch.existing input.clientId input.clientUpdateId = none ∧
        epoch.durableSequence = input.expectedBaseSequence ∧ epoch.durableSequence + 1 < 2 ^ 63 ∧
        persistUpdateGroup config authorization epoch input = ({ epoch with
              groups := epoch.groups ++ [input.row (epoch.durableSequence + 1)]
              durableSequence := epoch.durableSequence + 1 },
            .ok (input.objectId, epoch.durableSequence + 1, epoch.durableSequence + 1))) := by
  rw [persistUpdateGroup.eq_def]
  by_cases hacceptable : input.acceptable = false
  · rw [if_pos hacceptable]
    exact .inl ⟨_, _, .inl rfl, rfl⟩
  rw [if_neg hacceptable]
  cases authorization with
  | error => exact .inl ⟨_, _, .inl rfl, rfl⟩
  | ok =>
    dsimp only
    split
    · exact .inl ⟨_, _, .inl rfl, rfl⟩
    · next hopen =>
      rw [not_or, Bool.not_eq_false, Bool.not_eq_true] at hopen
      split
      · exact .inl ⟨_, _, .inl rfl, rfl⟩
      · next incoming hincoming =>
        split
        · next row hrow =>
          split
          · next hsame =>
            refine .inr (.inl ⟨_, row, incoming, ?_, hopen.1,
              (Option.filter_eq_some_iff.mp hincoming).1, hrow, hsame, rfl⟩)
            split
            · exact .inr rfl
            · exact .inl rfl
          · exact .inl ⟨_, _, .inl rfl, rfl⟩
        · next hnone =>
          split
          · exact .inl ⟨_, _, .inr rfl, rfl⟩
          · next hbase =>
            split
            · exact .inl ⟨_, _, .inl rfl, rfl⟩
            · next hbound =>
              exact .inr (.inr ⟨Bool.eq_true_of_not_eq_false hacceptable,
                hopen.1, hopen.2, hnone, not_not.mp hbase,
                Nat.not_le.mp hbound, rfl⟩)

theorem persistUpdateGroup_found {input : PersistInput} {row : UpdateGroupRow}
    {incoming : CollaborationObject} (hacceptable : input.acceptable) (hactive : epoch.active)
    (hinvocation : (input.mcpInvocationId.any fun id => config.invocation id
      input.sourceBeforeDigest input.sourceAfterDigest = false) = false)
    (hincoming : epoch.object input.objectId = some incoming) (hdurable : incoming.state = .durable)
    (hrow : epoch.existing input.clientId input.clientUpdateId = some row)
    (hsame : sameGroup config.blake3 epoch row input incoming) :
    (persistUpdateGroup config (.ok ()) epoch input).2 =
      .ok (row.objectId, row.firstSequence, row.lastSequence) := by
  have hfilter : (epoch.object input.objectId).filter
      (fun object => object.state = .durable) = some incoming := by
    rw [hincoming, Option.filter_some, if_pos (decide_eq_true hdurable)]
  rw [persistUpdateGroup.eq_def, hacceptable, hactive, hinvocation, hfilter]
  rw [if_neg (by simp), if_neg (by simp)]
  rw [hrow]
  dsimp only
  rw [if_pos hsame]

theorem persisted_ioPersistUpdateGroup (hfresh : epoch.Fresh) :
    Persisted config epoch request receipt base
      (ioPersistUpdateGroup config verdicts epoch request receipt base) := by
  rw [ioPersistUpdateGroup]
  split
  · exact .failed (.refl epoch)
  · cases verdicts.storage with
    | error => exact .failed (.refl epoch)
    | ok =>
      have hstored := Epoch.SameRows.store epoch .updateGroup request.chunks.flatten
      rcases @persistUpdateGroup_cases Y config (epoch.store .updateGroup request.chunks.flatten)
          verdicts.authorization
          (persistInput config request receipt base epoch.nextObject) with
        ⟨epoch', error, hepoch', heq⟩ |
        ⟨epoch', row, incoming, hepoch', hactive, hincoming, hrow, hsame, heq⟩ |
        ⟨hacceptable, hactive, hinvocation, hnone, hbase, hbound, heq⟩
      · rw [heq]
        rcases hepoch' with rfl | rfl
        · exact .failed hstored.abandon
        · exact .failed hstored.supersede.abandon
      · have hbytes : ∀ object, epoch.object row.objectId = some object →
            config.blake3 object.bytes = config.blake3 request.chunks.flatten := by
          intro object hobject
          have hnew : incoming = ⟨epoch.nextObject, .updateGroup, .durable,
              request.chunks.flatten⟩ :=
            Option.some.inj (hincoming.symm.trans (Epoch.object_store hfresh _ _))
          have hlt := hfresh object (Epoch.mem_of_object hobject)
          rw [Epoch.id_of_object hobject] at hlt
          have hdigest := (of_decide_eq_true hsame).2.1
          rw [hstored.object _ hlt, hobject, hnew] at hdigest
          exact Option.some.inj hdigest
        rw [heq]
        rcases hepoch' with rfl | rfl
        · exact .found hstored hactive hrow hbytes
        · exact .found hstored.supersede hactive hrow hbytes
      · have hinsertable : Insertable config request receipt := by
          refine ⟨fun _ _ => hacceptable, fun id hid => ?_⟩
          change request.mcpInvocationId.any _ = false at hinvocation
          rw [hid, Option.any_some, decide_eq_false_iff_not, Bool.not_eq_false] at hinvocation
          exact hinvocation
        rw [heq]
        subst hbase
        exact .inserted hactive hnone rfl hbound hinsertable

end

/-! ## Staging -/

variable {Y : Yjs} {room : RoomDocument Y} {chunks : List (List UInt8)}
  {staged : StagedUpdate Y} {blake3 : List UInt8 → Write.Digest}

section

variable (h : room.stageGroup blake3 chunks = .ok staged)
include h

/-- A staged group is the update of its chunks on the document itself. -/
theorem stageGroup_spec : Y.applyEncoded room.doc chunks.flatten = some staged.doc ∧
      staged.receipt.firstSequence = saturatingAddU64 room.serverSequence 1 ∧
      staged.receipt.lastSequence = saturatingAddU64 room.serverSequence 1 := by
  have hcopy : Y.applyEncoded Y.new room.snapshot = some room.doc := Y.apply_encodeState room.doc
  obtain ⟨_, -, h⟩ := bind_eq_ok h
  obtain ⟨_, -, h⟩ := bind_eq_ok h
  rw [hcopy, okOr_some, ok_bind] at h
  obtain ⟨_, hdoc, h⟩ := bind_eq_ok h
  obtain ⟨_, -, h⟩ := bind_eq_ok h
  rw [← Except.ok.inj h]
  exact ⟨okOr_eq_ok hdoc, rfl, rfl⟩

theorem commitStaged_eq : room.commitStaged staged = .ok ({ room with
              serverSequence := saturatingAddU64 room.serverSequence 1
              doc := staged.doc }, staged.receipt) := by
  obtain ⟨-, hfirst, hlast⟩ := stageGroup_spec h
  rw [RoomDocument.commitStaged, if_pos hfirst, hlast]

end

theorem saturatingAddU64_one {n : ℕ} (h : n < 2 ^ 63) : saturatingAddU64 n 1 = n + 1 := by
  rw [saturatingAddU64]
  omega

end FileBelt.Collaboration
