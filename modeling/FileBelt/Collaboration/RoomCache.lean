import FileBelt.Domain.Errors
import Mathlib.Data.Finset.Basic
import Mathlib.Data.Finset.Card

/-!
# The room cache of the collaboration server

One server process keeps its rooms in a map from room keys to reference-counted room
objects.  A session looks its room up, loads it when the map has none, registers its
client, and removes the room from the map when it was the last to leave.  A session is
a program counter, one `Phase` for each suspension point; a step is one critical
section of one session.  What the process reads from the database and from storage is
the outcome carried by the event.
-/

namespace FileBelt.Collaboration

structure RoomKey where
  roomId : ℕ
  epoch : ℕ
  deriving DecidableEq, Repr

/-- Address of a room object; `Arc::ptr_eq` is equality of addresses. -/
abbrev RoomRef := ℕ

/-- Address of a load lock. -/
abbrev LockRef := ℕ

/-- Position of a session in the order of connection. -/
abbrev SessionId := ℕ

/-- The claims of a join grant that the room functions read. -/
structure CollaborationGrantClaims where
  (roomId roomEpoch clientId : ℕ)
  deriving DecidableEq, Repr

def CollaborationGrantClaims.roomKey (claims : CollaborationGrantClaims) : RoomKey :=
  ⟨claims.roomId, claims.roomEpoch⟩

def broadcastCapacity : ℕ := 2048

/-- The frames not yet received, and whether the channel has overwritten one of them. -/
structure Receiver (φ : Type) where
  pending : List φ
  lagged : Bool
  deriving DecidableEq, Repr

/-- A frame arrives; a full channel overwrites its oldest frame. -/
def Receiver.push {φ : Type} (receiver : Receiver φ) (frame : φ) : Receiver φ :=
  if receiver.pending.length < broadcastCapacity then
    { receiver with pending := receiver.pending ++ [frame] }
  else
    { pending := receiver.pending.tail ++ [frame], lagged := true }

/-- `LiveRoom`: the registered clients and the receivers subscribed to its
sender. -/
structure LiveRoom (φ : Type) where
  clients : Finset ℕ
  receivers : SessionId → Option (Receiver φ)

def LiveRoom.empty (φ : Type) : LiveRoom φ where
  clients := ∅
  receivers := fun _ => none

def LiveRoom.send {φ : Type} (live : LiveRoom φ) (frame : φ) : LiveRoom φ :=
  { live with
    receivers := fun session =>
      (live.receivers session).map fun receiver => receiver.push frame }

/-- A session's receiver is replaced, or dropped. -/
def LiveRoom.setReceiver {φ : Type} (live : LiveRoom φ) (session : SessionId)
    (receiver : Option (Receiver φ)) : LiveRoom φ :=
  { live with receivers := Function.update live.receivers session receiver }

/-- The client is registered and its session subscribes to the sender. -/
def LiveRoom.join {φ : Type} (live : LiveRoom φ) (session : SessionId)
    (clientId : ℕ) : LiveRoom φ :=
  { live.setReceiver session (some ⟨[], false⟩) with
    clients := insert clientId live.clients }

def LiveRoom.leave {φ : Type} (live : LiveRoom φ) (clientId : ℕ) : LiveRoom φ :=
  { live with clients := live.clients.erase clientId }

/-- Where a session is suspended. -/
inductive Phase
  /-- In `authenticate_grant`, before `load_room`. -/
  | authenticating
  /-- In `load_room`, before the first look at the cache. -/
  | loading
  /-- The cache had no room; before `room_load_lock`. -/
  | missed
  | awaitingLock (lock : LockRef)
  /-- Holding the load lock, before the second look at the cache. -/
  | locked (lock : LockRef)
  /-- Holding the load lock and building a candidate. -/
  | initializing (lock : LockRef)
  /-- The load lock is dropped; before `release_room_load_lock`. -/
  | releasing (lock : LockRef) (result : Except SessionError RoomRef)
  /-- `load_room` has returned; before `collaboration_join_participant`. -/
  | joining (room : RoomRef)
  /-- Waiting for the room, to register in it. -/
  | registering (room : RoomRef) (connection : ℕ)
  /-- Registered; the initial synchronisation and the session loop. -/
  | joined (room : RoomRef) (connection : ℕ)
  /-- The session loop has ended; before `leave_room` locks the room. -/
  | stopping (room : RoomRef) (connection : ℕ)
  /-- The room was left empty; before `leave_room` locks the cache. -/
  | evicting (room : RoomRef) (connection : ℕ)
  /-- Before `collaboration_leave_participant`; the receiver is still alive. -/
  | leaving (room : RoomRef) (connection : ℕ)
  /-- The session is over, with an error if the join failed. -/
  | closed (error : Option SessionError)
  deriving DecidableEq

/-- The room of a session that has looked it up and not yet registered. -/
def Phase.heldRoom : Phase → Option RoomRef
  | .releasing _ (.ok room) => some room
  | .joining room => some room
  | .registering room _ => some room
  | _ => none

def Phase.registeredRoom : Phase → Option RoomRef
  | .joined room _ => some room
  | .stopping room _ => some room
  | _ => none

def Phase.loadLock : Phase → Option LockRef
  | .awaitingLock lock => some lock
  | .locked lock => some lock
  | .initializing lock => some lock
  | .releasing lock _ => some lock
  | _ => none

/-- The load lock a session holds. -/
def Phase.loadGuard : Phase → Option LockRef
  | .locked lock => some lock
  | .initializing lock => some lock
  | _ => none

def Phase.inAuthentication : Phase → Bool
  | .authenticating | .loading | .missed | .awaitingLock _ | .locked _
  | .initializing _ | .releasing _ _ | .joining _ | .registering _ _ => true
  | _ => false

structure Session where
  claims : CollaborationGrantClaims
  phase : Phase
  deriving DecidableEq

/-- `CollaborationServerState`: the two maps, the objects they point to, and the
sessions of the process. -/
structure CollaborationServer (φ : Type) where
  rooms : RoomKey → Option RoomRef
  roomLoads : RoomKey → Option LockRef
  live : List (LiveRoom φ)
  nextLock : LockRef
  sessions : List Session

namespace CollaborationServer

variable {φ : Type}

def new (φ : Type) : CollaborationServer φ where
  rooms := fun _ => none
  roomLoads := fun _ => none
  live := []
  nextLock := 0
  sessions := []

variable (s : CollaborationServer φ)

/-- A session proceeds to its next suspension point. -/
def suspend (i : SessionId) (phase : Phase) : CollaborationServer φ :=
  { s with
    sessions := s.sessions.modify i fun session =>
      { session with phase := phase } }

def updateRoom (room : RoomRef) (f : LiveRoom φ → LiveRoom φ) : CollaborationServer φ :=
  { s with live := s.live.modify room f }

variable (key : RoomKey)

def cachedRoom : Option RoomRef := s.rooms key

def roomLoadLock : LockRef × CollaborationServer φ :=
  match s.roomLoads key with
  | some lock => (lock, s)
  | none =>
    (s.nextLock,
      { s with
        roomLoads := Function.update s.roomLoads key (some s.nextLock)
        nextLock := s.nextLock + 1 })

/-- `Arc::strong_count` of the load lock of a key: the reference in the map and
those of the sessions. -/
def strongCount (lock : LockRef) : ℕ :=
  (if s.roomLoads key = some lock then 1 else 0) +
    s.sessions.countP fun session => session.phase.loadLock = some lock

def releaseRoomLoadLock (lock : LockRef) : CollaborationServer φ :=
  if s.roomLoads key = some lock ∧ s.strongCount key lock = 2 then
    { s with roomLoads := Function.update s.roomLoads key none }
  else s

def loadLockHeld (lock : LockRef) : Bool :=
  s.sessions.any fun session => session.phase.loadGuard = some lock

/-- `cache_loaded_room`; a candidate that is not published is dropped. -/
def cacheLoadedRoom (candidate : LiveRoom φ) : RoomRef × CollaborationServer φ :=
  match s.rooms key with
  | some room => (room, s)
  | none =>
    (s.live.length,
      { s with
        rooms := Function.update s.rooms key (some s.live.length)
        live := s.live ++ [candidate] })

/-- The registration of `authenticate_grant`, under the lock of the room. -/
def register (maxParticipants : ℕ) (s : CollaborationServer φ) (i : SessionId)
    (clientId : ℕ) (room : RoomRef) (connection : ℕ) : Option (CollaborationServer φ) :=
  match s.live[room]? with
  | none => none
  | some live =>
    if maxParticipants ≤ live.clients.card ∨ clientId ∈ live.clients then
      some (s.suspend i (.closed (some .capacity)))
    else
      let registered := s.updateRoom room fun live => live.join i clientId
      some (registered.suspend i (.joined room connection))

/-- The first critical section of `leave_room`, under the lock of the room. -/
def unregister (i : SessionId) (clientId : ℕ)
    (room : RoomRef) (connection : ℕ) : Option (CollaborationServer φ) :=
  match s.live[room]? with
  | none => none
  | some live =>
    let left := s.updateRoom room fun live => live.leave clientId
    if (live.leave clientId).clients = ∅ then
      some (left.suspend i (.evicting room connection))
    else
      some (left.suspend i (.leaving room connection))

def roomEmpty (room : RoomRef) : Bool :=
  s.live[room]?.any fun live => live.clients = ∅

/-- The second critical section of `leave_room`, under the lock of the cache. -/
def evict (room : RoomRef) : CollaborationServer φ :=
  if s.rooms key = some room ∧ s.roomEmpty room then
    { s with rooms := Function.update s.rooms key none }
  else s

/-- The session loop takes a frame of the broadcast channel. -/
def receive (i : SessionId) (room : RoomRef) (connection : ℕ) : Option (CollaborationServer φ) :=
  match s.live[room]?.bind fun live => live.receivers i with
  | none => none
  | some receiver =>
    if receiver.lagged then some (s.suspend i (.stopping room connection))
    else
      match receiver.pending with
      | [] => none
      | _ :: rest =>
        some (s.updateRoom room fun live =>
          live.setReceiver i (some { receiver with pending := rest }))

end CollaborationServer

/-- What one session does next, with the outcome of its database and storage accesses. -/
inductive Action (φ : Type)
  | authenticate (outcome : Except SessionError Unit)
  | cachedRoom | roomLoadLock | lockLoad
  | buildRoom (outcome : Except SessionError Unit)
  | releaseLoadLock
  | joinParticipant (outcome : Except DatabaseError ℕ)
  | register | timeout
  | broadcast (frame : φ)
  | receive | stop | unregister | evict | leaveParticipant

inductive Event (φ : Type)
  | connect (claims : CollaborationGrantClaims)
  | act (session : SessionId) (action : Action φ)

namespace CollaborationServer

variable {φ : Type}

/-- One critical section of a session; nothing for an action that its phase does
not have next. -/
def act (maxParticipants : ℕ) (s : CollaborationServer φ) (i : SessionId)
    (claims : CollaborationGrantClaims) : Phase → Action φ → Option (CollaborationServer φ)
  | .authenticating, .authenticate (.ok _) => some (s.suspend i .loading)
  | .authenticating, .authenticate (.error error) =>
    some (s.suspend i (.closed (some error)))
  | .loading, .cachedRoom =>
    match s.cachedRoom claims.roomKey with
    | some room => some (s.suspend i (.joining room))
    | none => some (s.suspend i .missed)
  | .missed, .roomLoadLock =>
    let (lock, s) := s.roomLoadLock claims.roomKey
    some (s.suspend i (.awaitingLock lock))
  | .awaitingLock lock, .lockLoad =>
    if s.loadLockHeld lock then none else some (s.suspend i (.locked lock))
  | .locked lock, .cachedRoom =>
    match s.cachedRoom claims.roomKey with
    | some room => some (s.suspend i (.releasing lock (.ok room)))
    | none => some (s.suspend i (.initializing lock))
  | .initializing lock, .buildRoom (.ok _) =>
    let (room, s) := s.cacheLoadedRoom claims.roomKey (LiveRoom.empty φ)
    some (s.suspend i (.releasing lock (.ok room)))
  | .initializing lock, .buildRoom (.error error) =>
    some (s.suspend i (.releasing lock (.error error)))
  | .releasing lock (.ok room), .releaseLoadLock =>
    let s := s.releaseRoomLoadLock claims.roomKey lock
    some (s.suspend i (.joining room))
  | .releasing lock (.error error), .releaseLoadLock =>
    let s := s.releaseRoomLoadLock claims.roomKey lock
    some (s.suspend i (.closed (some error)))
  | .joining room, .joinParticipant (.ok connection) =>
    some (s.suspend i (.registering room connection))
  | .joining _, .joinParticipant (.error error) =>
    some (s.suspend i (.closed (some (databaseSessionError error))))
  | .registering room connection, .register =>
    s.register maxParticipants i claims.clientId room connection
  | .joined room _, .broadcast frame =>
    some (s.updateRoom room fun live => live.send frame)
  | .joined room connection, .receive => s.receive i room connection
  | .joined room connection, .stop =>
    some (s.suspend i (.stopping room connection))
  | .stopping room connection, .unregister =>
    s.unregister i claims.clientId room connection
  | .evicting room connection, .evict =>
    let s := s.evict claims.roomKey room
    some (s.suspend i (.leaving room connection))
  | .leaving room _, .leaveParticipant =>
    -- the receiver is dropped when the session function returns
    let s := s.updateRoom room fun live => live.setReceiver i none
    some (s.suspend i (.closed none))
  | phase, .timeout =>
    if phase.inAuthentication then
      some (s.suspend i (.closed (some .authentication)))
    else none
  | _, _ => none

/-- One event; an event that cannot happen is an error. -/
def step (maxParticipants : ℕ) (s : CollaborationServer φ) :
    Event φ → Except Unit (CollaborationServer φ)
  | .connect claims =>
    .ok { s with sessions := s.sessions ++ [⟨claims, .authenticating⟩] }
  | .act i action =>
    match s.sessions[i]? with
    | none => .error ()
    | some session =>
      okOr (s.act maxParticipants i session.claims session.phase action) ()

end CollaborationServer

end FileBelt.Collaboration
