import FileBelt.Support.Protobuf
import FileBelt.Write.Extents

/-!
# The document of a collaboration room

A room keeps one Yjs document.  Groups of update chunks are staged on a copy before
they become part of it.  The library is a parameter, `Yjs`, with the laws the server
and its clients rely on.
-/

namespace FileBelt.Collaboration

open Write (Digest)

/-- The operations of the Yjs library.  Identities of replicas are not part of a document. -/
structure Yjs where
  Doc : Type
  Update : Type
  new : Doc
  /-- A client appends to the text of a document. -/
  push : Doc → ℕ → List UInt8 → Doc
  (getString encodeStateAsUpdate encodeStateVector : Doc → List UInt8)
  /-- A malformed update, or one whose decoding panics, has no value. -/
  decodeUpdate : List UInt8 → Option Update
  applyUpdate : Doc → Update → Option Doc
  /-- The state of a document is an update that takes a new document to it. -/
  apply_encodeState : ∀ doc,
    (decodeUpdate (encodeStateAsUpdate doc)).bind (applyUpdate new) = some doc
  /-- It starts with the number of its clients, which may be zero. -/
  encodeState_ne_nil : ∀ doc, encodeStateAsUpdate doc ≠ []

def Yjs.applyEncoded (Y : Yjs) (doc : Y.Doc) (bytes : List UInt8) : Option Y.Doc :=
  (Y.decodeUpdate bytes).bind (Y.applyUpdate doc)

/-- Limits of the configuration that a room document reads. -/
structure CollaborationLimitConfig where
  (maxUpdateBytes maxOperationGroupBytes maxStateBytes : ℕ)
  deriving DecidableEq, Repr

/-- `validate_collaboration_limits`, for the limits above. -/
def CollaborationLimitConfig.Valid (limits : CollaborationLimitConfig) : Prop :=
  (16384 ≤ limits.maxUpdateBytes ∧ limits.maxUpdateBytes ≤ 262144) ∧
    limits.maxUpdateBytes ≤ limits.maxOperationGroupBytes ∧
    limits.maxOperationGroupBytes ≤ 2097152 ∧
    2097152 ≤ limits.maxStateBytes ∧ limits.maxStateBytes ≤ 67108864

instance (limits : CollaborationLimitConfig) : Decidable limits.Valid :=
  inferInstanceAs (Decidable (_ ∧ _))

inductive RoomFreezeReason
  | externalHead | quota | stateLimit | retainedPayloadLimit | corruptState | authorizationUncertain
  | expired
  deriving DecidableEq, Repr

inductive RoomDocumentError
  | frozen (reason : RoomFreezeReason)
  | emptyGroup | updateTooLarge | groupTooLarge | invalidUpdate | staleSequence | stateTooLarge
  | sourceTooLarge | sourceContainsNul | invalidSnapshot
  deriving DecidableEq, Repr

def documentSessionError : RoomDocumentError → SessionError
  | .frozen _ => .authorization
  | .updateTooLarge | .groupTooLarge | .stateTooLarge | .sourceTooLarge =>
    .capacity
  | .emptyGroup | .invalidUpdate | .invalidSnapshot | .sourceContainsNul =>
    .protocol
  | .staleSequence => .conflict

def maxMarkdownSourceBytes : ℕ := 16 * 1024 * 1024

inductive MarkdownSourceError
  | tooLarge | invalidUtf8 | containsNul
  deriving DecidableEq, Repr

/-- The loop of `MarkdownSource::decode`, which turns `\r\n` into `\n`. -/
def normalizeLineEndings : List UInt8 → List UInt8
  | [] => []
  | [byte] => [byte]
  | byte :: next :: rest =>
    if byte = 13 ∧ next = 10 then 10 :: normalizeLineEndings rest
    else byte :: normalizeLineEndings (next :: rest)

/-- `MarkdownSource::decode`: the text of a file. -/
def decodeMarkdownSource (bytes : List UInt8) : Except MarkdownSourceError (List UInt8) :=
  if maxMarkdownSourceBytes < bytes.length then .error .tooLarge
  else
    let content := if bytes.take 3 = [0xef, 0xbb, 0xbf] then bytes.drop 3 else bytes
    if 0 ∈ content then .error .containsNul
    else if Support.Protobuf.utf8Valid content then
      .ok (normalizeLineEndings content)
    else .error .invalidUtf8

def normalizedMarkdownSourceDigestDomain : List UInt8 :=
  ("filebelt.markdown.normalized-source.v1".toList.map fun c =>
    UInt8.ofNat c.toNat) ++ [0]

def normalizedMarkdownSourceDigest (blake3 : List UInt8 → Digest) (source : List UInt8) : Digest :=
  blake3 (normalizedMarkdownSourceDigestDomain ++ source)

structure ApplyReceipt where
  firstSequence : ℕ
  lastSequence : ℕ
  stateVector : List UInt8
  (stateDigest sourceBeforeDigest sourceAfterDigest : Digest)
  deriving DecidableEq

structure RoomDocument (Y : Yjs) where
  doc : Y.Doc
  limits : CollaborationLimitConfig
  serverSequence : ℕ
  frozen : Option RoomFreezeReason

/-- A validated update that is not visible yet. -/
structure StagedUpdate (Y : Yjs) where
  doc : Y.Doc
  receipt : ApplyReceipt

structure ValidatedDocument where
  source : List UInt8
  snapshot : List UInt8

def saturatingAddU64 (a b : ℕ) : ℕ := min (a + b) (2 ^ 64 - 1)

variable {Y : Yjs}

def normalizedSource (doc : Y.Doc) : Except RoomDocumentError (List UInt8) :=
  let source := Y.getString doc
  if maxMarkdownSourceBytes < source.length then .error .sourceTooLarge
  else if 0 ∈ source then .error .sourceContainsNul
  else .ok source

def validateDocument (doc : Y.Doc) (limits : CollaborationLimitConfig) :
    Except RoomDocumentError ValidatedDocument :=
  let snapshot := Y.encodeStateAsUpdate doc
  if limits.maxStateBytes < snapshot.length then .error .stateTooLarge
  else do
    let source ← normalizedSource doc
    return ⟨source, snapshot⟩

namespace RoomDocument

/-- `from_source_with_client_id`: no limit is checked here. -/
def fromSourceWithClientId (source : List UInt8)
    (limits : CollaborationLimitConfig) (clientId : ℕ) : RoomDocument Y where
  doc := Y.push Y.new clientId source
  limits := limits
  serverSequence := 0
  frozen := none

def fromSnapshot (snapshot : List UInt8) (serverSequence : ℕ) (limits : CollaborationLimitConfig) :
    Except RoomDocumentError (RoomDocument Y) :=
  if limits.maxStateBytes < snapshot.length then .error .stateTooLarge
  else do
    let doc ← okOr (Y.applyEncoded Y.new snapshot) .invalidSnapshot
    let _ ← validateDocument doc limits
    return ⟨doc, limits, serverSequence, none⟩

def snapshot (room : RoomDocument Y) : List UInt8 := Y.encodeStateAsUpdate room.doc

def checkGroup (room : RoomDocument Y) (chunks : List (List UInt8)) :
    Except RoomDocumentError Unit :=
  match room.frozen with
  | some reason => .error (.frozen reason)
  | none =>
    if chunks = [] then .error .emptyGroup
    else if chunks.any fun chunk => room.limits.maxUpdateBytes < chunk.length
      then .error .updateTooLarge
    else if room.limits.maxOperationGroupBytes <
        chunks.foldl (fun total chunk => total + chunk.length) 0
      then .error .groupTooLarge
    else .ok ()

/-- `stage_group`: the chunks are one update, applied to a copy of the
document. -/
def stageGroup (blake3 : List UInt8 → Digest) (room : RoomDocument Y) (chunks : List (List UInt8)) :
    Except RoomDocumentError (StagedUpdate Y) := do
  room.checkGroup chunks
  let sourceBefore ← normalizedSource room.doc
  let copy ← okOr (Y.applyEncoded Y.new room.snapshot) .invalidSnapshot
  let staged ← okOr (Y.applyEncoded copy chunks.flatten) .invalidUpdate
  let validated ← validateDocument staged room.limits
  let sequence := saturatingAddU64 room.serverSequence 1
  return {
    doc := staged
    receipt := {
      firstSequence := sequence
      lastSequence := sequence
      stateVector := Y.encodeStateVector staged
      stateDigest := blake3 validated.snapshot
      sourceBeforeDigest := normalizedMarkdownSourceDigest blake3 sourceBefore
      sourceAfterDigest :=
        normalizedMarkdownSourceDigest blake3 validated.source } }

def commitStaged (room : RoomDocument Y) (staged : StagedUpdate Y) :
    Except RoomDocumentError (RoomDocument Y × ApplyReceipt) :=
  if staged.receipt.firstSequence = saturatingAddU64 room.serverSequence 1 then
    .ok ({ room with
            serverSequence := staged.receipt.lastSequence
            doc := staged.doc }, staged.receipt)
  else .error .staleSequence

def applyGroup (blake3 : List UInt8 → Digest) (room : RoomDocument Y) (chunks : List (List UInt8)) :
    Except RoomDocumentError (RoomDocument Y × ApplyReceipt) := do
  let staged ← room.stageGroup blake3 chunks
  room.commitStaged staged

/-- The rooms a server can come to hold: from a source or a snapshot, and by groups. -/
inductive Admitted (blake3 : List UInt8 → Digest)
    (limits : CollaborationLimitConfig) : RoomDocument Y → Prop
  | source {bytes source : List UInt8} {clientId : ℕ}
      (h : decodeMarkdownSource bytes = .ok source) :
      Admitted blake3 limits (fromSourceWithClientId source limits clientId)
  | snapshot {bytes : List UInt8} {sequence : ℕ} {room : RoomDocument Y}
      (h : fromSnapshot bytes sequence limits = .ok room) :
      Admitted blake3 limits room
  | group {room room' : RoomDocument Y} {chunks : List (List UInt8)}
      {receipt : ApplyReceipt} (hroom : Admitted blake3 limits room)
      (h : room.applyGroup blake3 chunks = .ok (room', receipt)) :
      Admitted blake3 limits room'

end RoomDocument

end FileBelt.Collaboration
