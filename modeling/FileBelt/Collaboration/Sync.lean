import FileBelt.Collaboration.Document
import FileBelt.Support.Chunks
import FileBelt.Support.ScriptArray

/-!
# The initial synchronization of a room

The server sends the state of a room in chunks of 256 KiB, each in a frame of its own.
The browser client decodes the frames with its own protobuf reader, collects the
chunks in an array and applies their concatenation when the array is complete.
-/

namespace FileBelt.Collaboration

open Support Support.Protobuf

/-- `MAX_FRAME_BYTES`, and `MaximumFrameBytes` of the client. -/
def maxFrameBytes : ℕ := 2 * 1024 * 1024 + 64 * 1024

/-- `MAX_SYNC_CHUNK_BYTES`, and `MaximumChunkBytes` of the client. -/
def maxSyncChunkBytes : ℕ := 256 * 1024

inductive FrameError
  | tooLarge | invalid | empty | invalidAwareness
  deriving DecidableEq, Repr

structure SyncChunk where
  (sequence chunkIndex chunkCount : ℕ)
  update : List UInt8
  snapshot : Bool
  deriving DecidableEq, Repr

def SyncChunk.slots (chunk : SyncChunk) : List Slot :=
  [(1, uint chunk.sequence), (2, uint chunk.chunkIndex),
    (3, uint chunk.chunkCount), (4, blob chunk.update), (5, flag chunk.snapshot)]

/-- `encode_frame`: the frame is the member of the union with its number. -/
def encodeFrame (number : ℕ) (message : List Slot) : Except FrameError (List UInt8) :=
  let bytes := encode [⟨number, .bytes (encode (fields message))⟩]
  if maxFrameBytes < bytes.length then .error .tooLarge else .ok bytes

def SyncChunk.frame (chunk : SyncChunk) : Except FrameError (List UInt8) :=
  encodeFrame 3 chunk.slots

/-- The frames of a list of chunks that belong together. -/
def syncFrames (sequence : ℕ) (snapshot : Bool) (chunks : List (List UInt8)) :
    Except SessionError (List (List UInt8)) :=
  if chunks.length < 2 ^ 32 then
    chunks.zipIdx.mapM fun (chunk, index) =>
      (SyncChunk.frame ⟨sequence, index, chunks.length, chunk, snapshot⟩).mapError
        fun _ => .internal
  else .error .internal

/-- The chunks of a state; an empty one is sent as one empty chunk. -/
def syncChunks (state : List UInt8) : List (List UInt8) :=
  if state = [] then [[]] else slices maxSyncChunkBytes state

def initialSyncFrames {Y : Yjs} (room : RoomDocument Y) : Except SessionError (List (List UInt8)) :=
  syncFrames room.serverSequence true (syncChunks room.snapshot)

/-- Errors of the client with their text, of a built-in function given undefined, of Yjs. -/
inductive Thrown
  | error (message : String)
  | typeError | malformedUpdate
  deriving DecidableEq, Repr

def maxSafeInteger : ℕ := 2 ^ 53 - 1

/-- The loop of `ReadVarint` with the turns that are left, on the bytes from the offset on. -/
def readGroups : ℕ → ℕ → ℕ → List UInt8 → Except Thrown (ℕ × List UInt8)
  | 0, _, _, _ => .error (.error "Invalid protobuf integer.")
  | _ + 1, _, _, [] => .error (.error "Truncated protobuf integer.")
  | n + 1, result, multiplier, byte :: rest =>
    -- sums past the safe integers may be rounded, but not back below them
    let result := result + byte.toNat % 128 * multiplier
    if maxSafeInteger < result then
      .error (.error "Oversized protobuf integer.")
    else if byte.toNat < 128 then .ok (result, rest)
    else readGroups n result (multiplier * 128) rest

def readVarint (bytes : List UInt8) : Except Thrown (ℕ × List UInt8) := readGroups 10 0 1 bytes

/-- The payload of one turn of the loop in `Fields`. -/
def readPayload (wire : ℕ) (bytes : List UInt8) : Except Thrown (Payload × List UInt8) :=
  if wire = 0 then do
    let (value, rest) ← readVarint bytes
    return (.varint value, rest)
  else if wire = 2 then do
    let (length, rest) ← readVarint bytes
    if length ≤ rest.length then
      return (.bytes (rest.take length), rest.drop length)
    else .error (.error "Truncated protobuf field.")
  else .error (.error "Unsupported protobuf wire type.")

/-- One turn of the loop in `Fields`. -/
def readField (bytes : List UInt8) : Except Thrown (Field × List UInt8) := do
  let (key, rest) ← readVarint bytes
  if key / 8 < 1 then .error (.error "Invalid protobuf field.")
  else do
    let (payload, rest) ← readPayload (key % 8) rest
    return (⟨key / 8, payload⟩, rest)

/-- The loop of `Fields`; every turn takes at least one byte. -/
def readFields : ℕ → List UInt8 → Except Thrown (List Field)
  | _, [] => .ok []
  | 0, _ :: _ => .error (.error "Truncated protobuf field.")
  | n + 1, byte :: bytes => do
      let (field, rest) ← readField (byte :: bytes)
      let others ← readFields n rest
      return field :: others

/-- `Fields`. -/
def wireFields (bytes : List UInt8) : Except Thrown (List Field) := readFields bytes.length bytes

/-- `NumberField`: the first such field counts, and a missing one is zero. -/
def numberField : List Field → ℕ → ℕ
  | [], _ => 0
  | ⟨number, .varint value⟩ :: values, n =>
    if number = n then value else numberField values n
  | ⟨_, .bytes _⟩ :: values, n => numberField values n

def bytesField : List Field → ℕ → List UInt8
  | [], _ => []
  | ⟨number, .bytes value⟩ :: values, n =>
    if number = n then value else bytesField values n
  | ⟨_, .varint _⟩ :: values, n => bytesField values n

/-- `Outer.find`: the first length-delimited field. -/
def activeField : List Field → Option (ℕ × List UInt8)
  | [] => none
  | ⟨number, .bytes value⟩ :: _ => some (number, value)
  | ⟨_, .varint _⟩ :: values => activeField values

structure ChunkAccumulator where
  chunks : ScriptArray (List UInt8)
  sequence : ℕ
  snapshot : Bool
  deriving DecidableEq, Repr

/-- The fields of `MarkdownRealtimeSession` that a synchronization uses. -/
structure RealtimeSession (δ : Type) where
  document : δ
  ready : Bool
  acknowledgedSequence : ℕ
  initialSync : Option ChunkAccumulator

/-- The fields of a chunk that the client reads. -/
def syncChunkOf (values : List Field) : SyncChunk where
  sequence := numberField values 1
  chunkIndex := numberField values 2
  chunkCount := numberField values 3
  update := bytesField values 4
  snapshot := numberField values 5 = 1

def hasAllChunks (chunks : ScriptArray (List UInt8)) : Bool := chunks.every Option.isSome

/-- `Concatenate`: undefined cannot be copied into the result. -/
def concatenate (chunks : ScriptArray (List UInt8)) : Except Thrown (List UInt8) :=
  chunks.forOf (fun result value =>
    match value with
    | none => .error .typeError
    | some value => .ok (result ++ value)) []

/-- The group of chunks that is under way, or a new one. -/
def currentGroup (current : Option ChunkAccumulator) (chunk : SyncChunk) :
    Except Thrown ChunkAccumulator :=
  match current with
  | none =>
    .ok ⟨ScriptArray.ofLength chunk.chunkCount, chunk.sequence, chunk.snapshot⟩
  | some group =>
    if group.sequence = chunk.sequence ∧ group.snapshot = chunk.snapshot then
      .ok group
    else
      .error (.error "Interleaved collaboration sync groups are not permitted.")

/-- The checks of `#ReceiveSync` and the assignment of the chunk. -/
def placeChunk (current : Option ChunkAccumulator) (chunk : SyncChunk) :
    Except Thrown ChunkAccumulator :=
  if chunk.chunkCount < 1 ∨ 16 < chunk.chunkCount ∨
      chunk.chunkCount ≤ chunk.chunkIndex ∨
      maxSyncChunkBytes < chunk.update.length then
    .error (.error "Invalid collaboration sync group.")
  else do
    let group ← currentGroup current chunk
    if group.chunks.length ≠ chunk.chunkCount ∨ (group.chunks.get chunk.chunkIndex).isSome then
      .error (.error "Invalid collaboration sync ordering.")
    else
      return { group with
        chunks := group.chunks.set chunk.chunkIndex chunk.update }

section

variable {δ : Type} (applyUpdate : δ → List UInt8 → Except Thrown δ)

/-- An update without bytes is not applied. -/
def applyComplete (document : δ) (complete : List UInt8) : Except Thrown δ :=
  if complete = [] then .ok document else applyUpdate document complete

/-- The last part of `#ReceiveSync`, with a complete group. -/
def finishSync (session : RealtimeSession δ) (chunk : SyncChunk)
    (complete : List UInt8) : Except Thrown (RealtimeSession δ) :=
  if 2 * 1024 * 1024 < complete.length then
    .error (.error "Collaboration sync group exceeds the supported limit.")
  else if session.ready = false then
    if chunk.snapshot = false then
      .error (.error "Initial collaboration sync must be a snapshot.")
    else do
      let document ← applyComplete applyUpdate session.document complete
      return { session with
        document := document
        acknowledgedSequence := chunk.sequence
        ready := true }
  else if chunk.snapshot then
    .error (.error "Unexpected collaboration snapshot.")
  else if chunk.sequence ≤ session.acknowledgedSequence then .ok session
  else if chunk.sequence ≠ session.acknowledgedSequence + 1 then
    .error (.error "Collaboration sync sequence skipped a durable group.")
  else do
    let document ← applyComplete applyUpdate session.document complete
    return { session with
      document := document
      acknowledgedSequence := chunk.sequence }

def receiveSync (session : RealtimeSession δ) (chunk : SyncChunk) :
    Except Thrown (RealtimeSession δ) := do
  let group ← placeChunk session.initialSync chunk
  if hasAllChunks group.chunks then do
    let complete ← concatenate group.chunks
    finishSync applyUpdate { session with initialSync := none } chunk complete
  else return { session with initialSync := some group }

variable (receiveOther : ℕ → List UInt8 → RealtimeSession δ → Except Thrown (RealtimeSession δ))

/-- `#Receive`; the handlers of the other frames are a parameter. -/
def receive (session : RealtimeSession δ) (bytes : List UInt8) :
    Except Thrown (RealtimeSession δ) :=
  if bytes.length = 0 ∨ maxFrameBytes < bytes.length then
    .error (.error "Invalid collaboration frame.")
  else do
    let outer ← wireFields bytes
    match activeField outer with
    | none => .error (.error "Empty collaboration frame.")
    | some (number, value) =>
      if number = 3 then do
        let values ← wireFields value
        receiveSync applyUpdate session (syncChunkOf values)
      else receiveOther number value session

/-- The frames that arrive, up to the first one that is refused. -/
def receiveAll (session : RealtimeSession δ) (frames : List (List UInt8)) :
    Except Thrown (RealtimeSession δ) :=
  frames.foldlM (receive applyUpdate receiveOther) session

end

/-- `Y.applyUpdate` of the client. -/
def Yjs.applyOrThrow (Y : Yjs) (document : Y.Doc) (bytes : List UInt8) : Except Thrown Y.Doc :=
  okOr (Y.applyEncoded document bytes) .malformedUpdate

def RealtimeSession.new (Y : Yjs) : RealtimeSession Y.Doc where
  document := Y.new
  ready := false
  acknowledgedSequence := 0
  initialSync := none

end FileBelt.Collaboration
