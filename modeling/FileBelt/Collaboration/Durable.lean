import FileBelt.Collaboration.Sync
import FileBelt.Domain.Identity
import Mathlib.Data.List.Sort

/-!
# Durable groups of a room

The epoch of a room in the database: its objects, the groups that became durable, the
snapshots that cover them.  Server replicas stage a group on their copy of the
document, store its bytes as an object, and make it durable in one transaction; they
catch up with other replicas by replaying.

Transactions are serializable, so each is one function on the epoch.  Nothing refers
to the object of a group before its transaction, so it comes into being durable here.
The epoch's fencing token changes only when it is frozen.
-/

namespace FileBelt.Collaboration

open Write (Digest)

/-! ## Rows -/

inductive ObjectPurpose
  | updateGroup | snapshot
  deriving DecidableEq, Repr

inductive ObjectState
  | durable | superseded | deleteIntent
  deriving DecidableEq, Repr

/-- A row of `objects` with the bytes that the storage keeps for it. -/
structure CollaborationObject where
  id : Uuid
  purpose : ObjectPurpose
  state : ObjectState
  bytes : List UInt8
  deriving DecidableEq, Repr

structure UpdateChunkRow where
  (chunkIndex objectOffset sizeBytes : ℕ)
  blake3 : Digest
  deriving DecidableEq

/-- A row of `update_groups` with its chunks. -/
structure UpdateGroupRow where
  clientId : Uuid
  clientUpdateId : Uuid
  mcpInvocationId : Option Uuid
  sourceBeforeDigest : Digest
  sourceAfterDigest : Digest
  objectId : Uuid
  chunks : List UpdateChunkRow
  firstSequence : ℕ
  lastSequence : ℕ
  stateVector : List UInt8
  stateDigest : Digest
  deriving DecidableEq

structure SnapshotRow where
  objectId : Uuid
  coveredSequence : ℕ
  stateVector : List UInt8
  superseded : Bool
  deriving DecidableEq

structure Epoch where
  active : Bool
  durableSequence : ℕ
  objects : List CollaborationObject
  groups : List UpdateGroupRow
  snapshots : List SnapshotRow
  /-- The next identifier of an object. -/
  nextObject : Uuid
  deriving DecidableEq

namespace Epoch

def object (epoch : Epoch) (id : Uuid) : Option CollaborationObject :=
  epoch.objects.find? fun object => object.id = id

variable (epoch : Epoch)

/-- Changes the state of the durable objects that `p` selects. -/
def setDurable (p : Uuid → Bool) (state : ObjectState) : Epoch :=
  { epoch with
    objects := epoch.objects.map fun object =>
      if p object.id ∧ object.state = .durable then { object with state := state }
      else object }

def supersede (id : Uuid) : Epoch :=
  epoch.setDurable (fun other => other = id) .superseded

/-- `collaboration_reserve_object`, the write and the finalization of an
object. -/
def store (purpose : ObjectPurpose) (bytes : List UInt8) : Epoch :=
  { epoch with
    objects := epoch.objects ++ [⟨epoch.nextObject, purpose, .durable, bytes⟩]
    nextObject := epoch.nextObject + 1 }

/-- `collaboration_abandon_object`, for an object that no row refers to. -/
def abandon (id : Uuid) : Epoch :=
  { epoch with
    objects := epoch.objects.map fun object =>
      if object.id = id then { object with state := .deleteIntent } else object }

/-- `collaboration_freeze`. -/
def freeze : Epoch := { epoch with active := false }

/-- `freeze_claimed_room`: the room stays active if the database does not answer. -/
def tryFreeze (freezes : Bool) : Epoch := if freezes then epoch.freeze else epoch

end Epoch

/-! ## Looking objects up -/

namespace Epoch

variable {epoch : Epoch} {id other : Uuid} {object : CollaborationObject}

/-- The identifiers of the objects have been handed out. -/
def Fresh (epoch : Epoch) : Prop := ∀ object ∈ epoch.objects, object.id < epoch.nextObject

theorem object_eq_none (hfresh : epoch.Fresh) (h : epoch.nextObject ≤ id) :
    epoch.object id = none := by
  apply List.find?_eq_none.mpr
  intro object hobject heq
  have hlt := hfresh object hobject
  have hid : object.id = id := of_decide_eq_true heq
  rw [hid] at hlt
  exact Nat.not_lt.mpr h hlt

theorem object_store_of_ne {purpose : ObjectPurpose} {bytes : List UInt8}
    (h : id ≠ epoch.nextObject) : (epoch.store purpose bytes).object id = epoch.object id := by
  rw [object, store, List.find?_append, List.find?_singleton, if_neg (by simpa using h.symm),
    Option.or_none]
  rfl

theorem object_store (hfresh : epoch.Fresh) (purpose : ObjectPurpose) (bytes : List UInt8) :
    (epoch.store purpose bytes).object epoch.nextObject =
      some ⟨epoch.nextObject, purpose, .durable, bytes⟩ := by
  have hnone : epoch.objects.find? (fun object => object.id = epoch.nextObject) =
      none := object_eq_none hfresh le_rfl
  rw [object, store, List.find?_append, hnone, List.find?_singleton, if_pos (by simp),
    Option.none_or]

theorem Fresh.store (hfresh : epoch.Fresh) (purpose : ObjectPurpose)
    (bytes : List UInt8) : (epoch.store purpose bytes).Fresh := by
  refine List.forall_mem_append.mpr ⟨fun object hold => ?_, ?_⟩
  · exact (hfresh object hold).trans (Nat.lt_succ_self _)
  · exact List.forall_mem_singleton.mpr (Nat.lt_succ_self _)

theorem find?_map_of_id {objects : List CollaborationObject}
    {f : CollaborationObject → CollaborationObject} (hf : ∀ object, (f object).id = object.id) :
    (objects.map f).find? (fun object => object.id = id) =
      (objects.find? fun object => object.id = id).map f := by
  rw [List.find?_map]
  refine congrArg (Option.map f) (congrArg (fun p => objects.find? p) ?_)
  funext object
  rw [Function.comp_apply, hf]

theorem object_setDurable (p : Uuid → Bool) (state : ObjectState) :
    (epoch.setDurable p state).object id = (epoch.object id).map fun object =>
        if p object.id ∧ object.state = .durable then { object with state := state }
        else object := by
  apply find?_map_of_id
  intro object
  split
  · rfl
  · rfl

theorem id_of_object (h : epoch.object id = some object) : object.id = id := by
  have hfound := List.find?_some h
  exact of_decide_eq_true hfound

theorem mem_of_object (h : epoch.object id = some object) : object ∈ epoch.objects :=
  List.mem_of_find?_eq_some h

theorem object_setDurable_of_not {p : Uuid → Bool} {state : ObjectState}
    (h : p id = false) : (epoch.setDurable p state).object id = epoch.object id := by
  rw [object_setDurable]
  cases hobject : epoch.object id with
  | none => rfl
  | some =>
    rw [Option.map_some, id_of_object hobject, h, if_neg (by simp)]

theorem object_abandon_of_ne (h : id ≠ other) :
    (epoch.abandon other).object id = epoch.object id := by
  rw [object, abandon, find?_map_of_id]
  · cases hobject : epoch.object id with
    | none =>
      rw [object] at hobject
      rw [hobject]
      rfl
    | some =>
      have hid := id_of_object hobject
      rw [Epoch.object] at hobject
      rw [hobject, Option.map_some, if_neg (by rw [hid]; exact h)]
  · intro object
    split
    · rfl
    · rfl

theorem Fresh.setDurable (hfresh : epoch.Fresh) (p : Uuid → Bool)
    (state : ObjectState) : (epoch.setDurable p state).Fresh := by
  intro object hobject
  obtain ⟨old, hold, rfl⟩ := List.mem_map.mp hobject
  split
  · exact hfresh old hold
  · exact hfresh old hold

theorem Fresh.abandon (hfresh : epoch.Fresh) (other : Uuid) : (epoch.abandon other).Fresh := by
  intro object hobject
  obtain ⟨old, hold, rfl⟩ := List.mem_map.mp hobject
  split
  · exact hfresh old hold
  · exact hfresh old hold

end Epoch

/-! ## Manifests -/

/-- The manifest of chunks from an index and an offset on. -/
def manifestFrom (blake3 : List UInt8 → Digest) : ℕ → ℕ → List (List UInt8) → List UpdateChunkRow
  | _, _, [] => []
  | index, offset, chunk :: chunks =>
    ⟨index, offset, chunk.length, blake3 chunk⟩ ::
      manifestFrom blake3 (index + 1) (offset + chunk.length) chunks

variable (blake3 : List UInt8 → Digest)

def manifestChunks (chunks : List (List UInt8)) : List UpdateChunkRow :=
  manifestFrom blake3 0 0 chunks

/-- The loop of `split_replay_chunks`. -/
def splitFrom (blake3 : List UInt8 → Digest) (bytes : List UInt8) :
    ℕ → ℕ → List UpdateChunkRow → Except SessionError (List (List UInt8))
  | _, offset, [] =>
    if offset ≠ bytes.length then .error .conflict else .ok []
  | index, offset, chunk :: manifest =>
    let value := (bytes.drop offset).take chunk.sizeBytes
    if chunk.chunkIndex ≠ index ∨ chunk.objectOffset ≠ offset ∨
        chunk.sizeBytes = 0 ∨ maxSyncChunkBytes < chunk.sizeBytes ∨
        bytes.length < offset + chunk.sizeBytes ∨
        blake3 value ≠ chunk.blake3 then .error .conflict
    else do
      let rest ← splitFrom blake3 bytes (index + 1) (offset + chunk.sizeBytes)
        manifest
      return value :: rest

def splitReplayChunks (bytes : List UInt8)
    (manifest : List UpdateChunkRow) : Except SessionError (List (List UInt8)) :=
  splitFrom blake3 bytes 0 0 manifest

/-! ## Making a group durable -/

/-- A group that a client sends. -/
structure UpdateRequest where
  clientId : Uuid
  clientUpdateId : Uuid
  mcpInvocationId : Option Uuid
  baseSequence : ℕ
  chunks : List (List UInt8)
  deriving DecidableEq, Repr

/-- What is fixed for the epoch of a room. -/
structure RoomConfig (Y : Yjs) where
  blake3 : List UInt8 → Digest
  limits : CollaborationLimitConfig
  /-- The normalized source of the base version. -/
  source : List UInt8
  /-- `deterministic_base_client_id`. -/
  baseClientId : ℕ
  /-- Whether an invocation succeeded with these source digests. -/
  invocation : Uuid → Digest → Digest → Bool

/-- The input of `collaboration_persist_update_group`. -/
structure PersistInput where
  clientId : Uuid
  clientUpdateId : Uuid
  mcpInvocationId : Option Uuid
  expectedBaseSequence : ℕ
  sourceBeforeDigest : Digest
  sourceAfterDigest : Digest
  objectId : Uuid
  chunks : List UpdateChunkRow
  stateVector : List UInt8
  stateDigest : Digest

/-- The checks before the transaction.  Indices and offsets of the manifest are those of
its chunks. -/
def PersistInput.acceptable (input : PersistInput) : Bool :=
  input.chunks ≠ [] ∧ input.chunks.length ≤ 16 ∧
    input.stateVector.length ≤ 1048576 ∧
    (input.chunks.all fun chunk =>
      0 < chunk.sizeBytes ∧ chunk.sizeBytes ≤ 262144) ∧
    input.chunks.foldl (fun total chunk => total + chunk.sizeBytes) 0 ≤ 2097152

def PersistInput.row (input : PersistInput) (sequence : ℕ) : UpdateGroupRow where
  clientId := input.clientId
  clientUpdateId := input.clientUpdateId
  mcpInvocationId := input.mcpInvocationId
  sourceBeforeDigest := input.sourceBeforeDigest
  sourceAfterDigest := input.sourceAfterDigest
  objectId := input.objectId
  chunks := input.chunks
  firstSequence := sequence
  lastSequence := sequence
  stateVector := input.stateVector
  stateDigest := input.stateDigest

def Epoch.existing (epoch : Epoch) (clientId clientUpdateId : Uuid) : Option UpdateGroupRow :=
  epoch.groups.find? fun row =>
    row.clientId = clientId ∧ row.clientUpdateId = clientUpdateId

/-- The comparison of a submitted group with the existing one. -/
def sameGroup (epoch : Epoch)
    (row : UpdateGroupRow) (input : PersistInput) (incoming : CollaborationObject) : Bool :=
  row.stateDigest = input.stateDigest ∧
    ((epoch.object row.objectId).map fun object => blake3 object.bytes) =
      some (blake3 incoming.bytes) ∧
    row.mcpInvocationId = input.mcpInvocationId ∧
    row.sourceBeforeDigest = input.sourceBeforeDigest ∧
    row.sourceAfterDigest = input.sourceAfterDigest

section

variable {Y : Yjs} (config : RoomConfig Y)

/-- `collaboration_persist_update_group`.  A stale base commits the change of its object
and fails all the same. -/
def persistUpdateGroup (authorization : Except DatabaseError Unit)
    (epoch : Epoch) (input : PersistInput) : Epoch × Except DatabaseError (Uuid × ℕ × ℕ) :=
  if input.acceptable = false then (epoch, .error .invalidPersistedValue)
  else
    match authorization with
    | .error error => (epoch, .error error)
    | .ok () =>
      if epoch.active = false ∨
          (input.mcpInvocationId.any fun id => config.invocation id
            input.sourceBeforeDigest input.sourceAfterDigest = false) then
        (epoch, .error .conflict)
      else
        match (epoch.object input.objectId).filter fun object => object.state = .durable with
        | none => (epoch, .error .conflict)
        | some incoming =>
          match epoch.existing input.clientId input.clientUpdateId with
          | some row =>
            if sameGroup config.blake3 epoch row input incoming then
              (if row.objectId ≠ input.objectId then
                  epoch.supersede input.objectId
                else epoch,
                .ok (row.objectId, row.firstSequence, row.lastSequence))
            else (epoch, .error .conflict)
          | none =>
            if epoch.durableSequence ≠ input.expectedBaseSequence then
              (epoch.supersede input.objectId, .error .staleGeneration)
            else if 2 ^ 63 ≤ epoch.durableSequence + 1 then
              (epoch, .error .invalidPersistedValue)
            else
              ({ epoch with
                  groups := epoch.groups ++ [input.row (epoch.durableSequence + 1)]
                  durableSequence := epoch.durableSequence + 1 },
                .ok (input.objectId, epoch.durableSequence + 1, epoch.durableSequence + 1))

inductive IoClientError
  | invalidContext | invalidCapability | rejected | unavailable | sourceTooLarge
  | database (error : DatabaseError)
  deriving DecidableEq, Repr

def ioSessionError : IoClientError → SessionError
  | .invalidContext | .invalidCapability => .authorization
  | .rejected => .conflict
  | .unavailable | .database _ => .unavailable
  | .sourceTooLarge => .capacity

/-- The rate limiter, the storage worker with its quota, the authorization fence, and whether
a freeze succeeds. -/
structure Verdicts where
  admitted : Bool
  storage : Except IoClientError Unit
  authorization : Except DatabaseError Unit
  freezes : Bool

/-- The input that `persist_update_group` makes of a staged group. -/
def persistInput (request : UpdateRequest) (receipt : ApplyReceipt)
    (expectedBaseSequence : ℕ) (objectId : Uuid) : PersistInput where
  clientId := request.clientId
  clientUpdateId := request.clientUpdateId
  mcpInvocationId := request.mcpInvocationId
  expectedBaseSequence := expectedBaseSequence
  sourceBeforeDigest := receipt.sourceBeforeDigest
  sourceAfterDigest := receipt.sourceAfterDigest
  objectId := objectId
  chunks := manifestChunks config.blake3 request.chunks
  stateVector := receipt.stateVector
  stateDigest := receipt.stateDigest

/-- `IoClient::persist_update_group`. -/
def ioPersistUpdateGroup (verdicts : Verdicts) (epoch : Epoch)
    (request : UpdateRequest) (receipt : ApplyReceipt) (expectedBaseSequence : ℕ) :
    Epoch × Except IoClientError (Uuid × ℕ × ℕ) :=
  if epoch.active = false then (epoch, .error .invalidContext)
  else
    match verdicts.storage with
    | .error error => (epoch, .error error)
    | .ok () =>
      let persisted := persistUpdateGroup config verdicts.authorization
        (epoch.store .updateGroup request.chunks.flatten)
        (persistInput config request receipt expectedBaseSequence epoch.nextObject)
      match persisted.2 with
      | .ok result => (persisted.1, .ok result)
      | .error error =>
        (persisted.1.abandon epoch.nextObject, .error (.database error))

/-- `collaboration_current_snapshot`. -/
def Epoch.currentSnapshot (epoch : Epoch) : Option (SnapshotRow × CollaborationObject) := do
  let row ← epoch.snapshots.find? fun row => row.superseded = false
  let object ← epoch.object row.objectId
  if object.state = .durable then some (row, object) else none

/-- The objects of the current snapshot and of the groups up to a sequence are
superseded. -/
def Epoch.supersedeCovered (epoch : Epoch) (current : Option SnapshotRow)
    (coveredSequence : ℕ) : Epoch :=
  (epoch.setDurable (fun id => current.any fun row => row.objectId = id) .superseded).setDurable
      (fun id => epoch.groups.any fun row =>
        row.objectId = id ∧ row.lastSequence ≤ coveredSequence)
      .superseded

/-- The updates of `collaboration_commit_snapshot`: the snapshot takes the place
of the current one. -/
def Epoch.coverBy (epoch : Epoch) (current : Option SnapshotRow) (snapshot : SnapshotRow) : Epoch :=
  { epoch.supersedeCovered current snapshot.coveredSequence with
    snapshots := (epoch.snapshots.map fun row => { row with superseded := true }) ++
      [snapshot] }

/-- `collaboration_commit_snapshot`, with an object that has just been stored. -/
def commitSnapshot (authorization : Except DatabaseError Unit) (epoch : Epoch)
    (objectId : Uuid) (coveredSequence : ℕ) (stateVector : List UInt8) :
    Except DatabaseError Epoch :=
  if 1048576 < stateVector.length then .error .invalidPersistedValue
  else
    match authorization with
    | .error error => .error error
    | .ok () =>
      if epoch.active = false then .error .conflict
      else if epoch.durableSequence < coveredSequence then
        .error .staleGeneration
      else
        let current := epoch.snapshots.find? fun row => row.superseded = false
        if current.any fun row => coveredSequence < row.coveredSequence then
          .error .staleGeneration
        else if current.any fun row => row.coveredSequence = coveredSequence then
          .error .conflict
        else
          .ok (epoch.coverBy current ⟨objectId, coveredSequence, stateVector, false⟩)

end

/-! ## Catching up -/

/-- `collaboration_replay_groups`. -/
def Epoch.replayGroups (epoch : Epoch) (after : ℕ) : List (UpdateGroupRow × CollaborationObject) :=
  (epoch.groups.filterMap fun row =>
    (epoch.object row.objectId).bind fun object =>
      if after < row.lastSequence ∧ object.state = .durable then
        some (row, object)
      else none).insertionSort
    fun a b => a.1.firstSequence ≤ b.1.firstSequence

variable {Y : Yjs} (config : RoomConfig Y)

/-- `apply_replay_group`.  The sequence is compared after the group has become
part of the document. -/
def applyReplayGroup (room : RoomDocument Y) (group : UpdateGroupRow × CollaborationObject) :
    RoomDocument Y × Except SessionError Unit :=
  match splitReplayChunks config.blake3 group.2.bytes group.1.chunks with
  | .error error => (room, .error error)
  | .ok chunks =>
    match room.applyGroup config.blake3 chunks with
    | .error error => (room, .error (documentSessionError error))
    | .ok (room', receipt) =>
      if receipt.firstSequence ≠ group.1.firstSequence ∨
          receipt.lastSequence ≠ group.1.lastSequence then
        (room', .error .conflict)
      else (room', .ok ())

/-- The loop over the groups, up to the first that fails. -/
def replayAll (room : RoomDocument Y) : List (UpdateGroupRow × CollaborationObject) →
      RoomDocument Y × Except SessionError Unit
  | [] => (room, .ok ())
  | group :: groups =>
    match applyReplayGroup config room group with
    | (room', .ok ()) => replayAll room' groups
    | (room', .error error) => (room', .error error)

/-- `catch_up_room`: after a group that cannot be replayed it tries to freeze the room. -/
def catchUpRoom (freezes : Bool) (epoch : Epoch) (room : RoomDocument Y) :
    Epoch × RoomDocument Y × Except SessionError Unit :=
  match replayAll config room (epoch.replayGroups room.serverSequence) with
  | (room', .ok ()) => (epoch, room', .ok ())
  | (room', .error error) => (epoch.tryFreeze freezes, room', .error error)

/-- `load_room_after_lock` before the replay. -/
def loadRoom (epoch : Epoch) : Except RoomDocumentError (RoomDocument Y) :=
  match epoch.currentSnapshot with
  | some (row, object) =>
    RoomDocument.fromSnapshot object.bytes row.coveredSequence config.limits
  | none =>
    .ok (RoomDocument.fromSourceWithClientId config.source config.limits config.baseClientId)

end FileBelt.Collaboration
