import FileBelt.Collaboration.Durable
import FileBelt.Support.Run

/-!
# Server replicas of one room

`apply_update` is a task on one of the server processes: it catches up, tries to make
its group durable while it holds the room, and catches up again when another replica
was first.  The events are the sections in which a task holds the lock of its room,
each up to its transaction.

`journal` is no part of the program: it lists the groups in the order in which they
became durable.
-/

namespace FileBelt.Collaboration

/-- Where `apply_update` stands: about to try, or about to catch up after a
stale base. -/
inductive TaskPhase
  | attempting | behind
  deriving DecidableEq, Repr

/-- A call of `apply_update` after its first catch-up. -/
structure UpdateTask where
  replica : ℕ
  request : UpdateRequest
  phase : TaskPhase
  persistenceAttempts : ℕ
  deriving DecidableEq, Repr

/-- A snapshot on its way to `persist_snapshot`. -/
structure PendingSnapshot where
  snapshot : List UInt8
  coveredSequence : ℕ
  stateVector : List UInt8
  deriving DecidableEq, Repr

structure Server (Y : Yjs) where
  epoch : Epoch
  /-- The rooms in memory; `none` after a restart or an eviction. -/
  replicas : List (Option (RoomDocument Y))
  tasks : List UpdateTask
  pending : List PendingSnapshot
  /-- The sequence of each acknowledgement, or the error that ends a session. -/
  replies : List (UpdateRequest × Except SessionError ℕ)
  journal : List UpdateRequest

/-- A room epoch that has just been opened. -/
def Server.start (Y : Yjs) : Server Y where
  epoch := ⟨true, 0, [], [], [], 0⟩
  replicas := []
  tasks := []
  pending := []
  replies := []
  journal := []

inductive ServerEvent
  | load (freezes : Bool)
  /-- A server process stops or evicts the room. -/
  | unload (replica : ℕ)
  /-- `catch_up_room` from the poll timer, or the replay of a loaded room. -/
  | catchUp (replica : ℕ) (freezes : Bool)
  | receive (replica : ℕ) (request : UpdateRequest) (freezes : Bool)
  | attempt (task : ℕ) (verdicts : Verdicts)
  | commitSnapshot (index : ℕ) (verdicts : Verdicts)
  /-- The room is frozen for another reason. -/
  | freeze

inductive AttemptOutcome
  | acknowledged (lastSequence : ℕ)
  | stale
  | failed (error : SessionError)
  deriving DecidableEq, Repr

def snapshotIntervalGroups : ℕ := 64

section

variable {Y : Yjs} (config : RoomConfig Y)

/-- The part of `apply_update` that holds the room. -/
def attemptUpdate (verdicts : Verdicts) (epoch : Epoch) (room : RoomDocument Y)
    (task : UpdateTask) : Epoch × RoomDocument Y × AttemptOutcome :=
  if task.persistenceAttempts = 0 ∧ room.serverSequence < task.request.baseSequence then
    (epoch, room, .failed .conflict)
  else if task.persistenceAttempts = 0 ∧ verdicts.admitted = false then
    (epoch, room, .failed .rateLimited)
  else
    match room.stageGroup config.blake3 task.request.chunks with
    | .error error => (epoch, room, .failed (documentSessionError error))
    | .ok staged =>
      let persisted := ioPersistUpdateGroup config verdicts epoch task.request
        staged.receipt room.serverSequence
      match persisted.2 with
      | .ok (_, first, last) =>
        if staged.receipt.firstSequence ≠ first ∨ staged.receipt.lastSequence ≠ last then
          (persisted.1, room, .failed .conflict)
        else
          match room.commitStaged staged with
          | .error error =>
            (persisted.1, room, .failed (documentSessionError error))
          | .ok (room', receipt) =>
            (persisted.1, room', .acknowledged receipt.lastSequence)
      | .error (.database .staleGeneration) =>
        if 3 ≤ task.persistenceAttempts + 1 then
          (persisted.1, room, .failed .conflict)
        else (persisted.1, room, .stale)
      | .error error => (persisted.1, room, .failed (ioSessionError error))

end

namespace Server

variable {Y : Yjs} (config : RoomConfig Y) (server : Server Y) (replica : ℕ)

def room : Option (RoomDocument Y) :=
  (server.replicas[replica]?).join

variable (room : RoomDocument Y)

def setRoom : Server Y :=
  { server with replicas := server.replicas.set replica (some room) }

def reply (request : UpdateRequest) (answer : Except SessionError ℕ) : Server Y :=
  { server with replies := server.replies ++ [(request, answer)] }

/-- `catch_up_room` on a replica. -/
def catchUp (freezes : Bool) : Server Y × Except SessionError Unit :=
  let caught := catchUpRoom config freezes server.epoch room
  ({ server with epoch := caught.1 }.setRoom replica caught.2.1, caught.2.2)

/-- The snapshot that an acknowledged group asks for. -/
def snapshotDue : List PendingSnapshot :=
  if room.serverSequence % snapshotIntervalGroups = 0 then
    [⟨room.snapshot, room.serverSequence, Y.encodeStateVector room.doc⟩]
  else []

def attempt (position : ℕ) (task : UpdateTask)
    (room : RoomDocument Y) (verdicts : Verdicts) : Server Y :=
  let attempted := attemptUpdate config verdicts server.epoch room task
  let after : Server Y :=
    { server with
      epoch := attempted.1
      journal :=
        if attempted.1.groups.length = server.epoch.groups.length then
          server.journal
        else server.journal ++ [task.request] }.setRoom task.replica attempted.2.1
  match attempted.2.2 with
  | .acknowledged lastSequence =>
    { after with
      tasks := after.tasks.eraseIdx position
      pending := after.pending ++ snapshotDue attempted.2.1 }.reply
        task.request (.ok lastSequence)
  | .stale =>
    { after with
      tasks := after.tasks.set position
        { task with
          phase := .behind
          persistenceAttempts := task.persistenceAttempts + 1 } }
  | .failed error =>
    { after with tasks := after.tasks.eraseIdx position }.reply task.request (.error error)

/-- A task that is behind catches up. -/
def resume (position : ℕ) (task : UpdateTask) (room : RoomDocument Y) (freezes : Bool) : Server Y :=
  match server.catchUp config task.replica room freezes with
  | (after, .ok ()) =>
    { after with
      tasks := after.tasks.set position { task with phase := .attempting } }
  | (after, .error error) =>
    { after with tasks := after.tasks.eraseIdx position }.reply task.request (.error error)

/-- The first part of `apply_update`. -/
def receive (request : UpdateRequest) (freezes : Bool) : Server Y :=
  if request.chunks = [] ∨ 16 < request.chunks.length then
    server.reply request (.error .protocol)
  else
    match server.catchUp config replica room freezes with
    | (after, .ok ()) =>
      { after with tasks := after.tasks ++ [⟨replica, request, .attempting, 0⟩] }
    | (after, .error error) => after.reply request (.error error)

/-- `persist_snapshot`; one that fails is given up. -/
def persistSnapshot (index : ℕ) (snapshot : PendingSnapshot) (verdicts : Verdicts) : Server Y :=
  let dropped := { server with pending := server.pending.eraseIdx index }
  match verdicts.storage with
  | .error _ => dropped
  | .ok () =>
    if server.epoch.active = false then dropped
    else
      let stored := server.epoch.store .snapshot snapshot.snapshot
      match Collaboration.commitSnapshot verdicts.authorization stored
          server.epoch.nextObject snapshot.coveredSequence
          snapshot.stateVector with
      | .error _ =>
        { dropped with epoch := stored.abandon server.epoch.nextObject }
      | .ok epoch => { dropped with epoch := epoch }

/-- One event; one that cannot happen changes nothing. -/
def step (event : ServerEvent) : Except SessionError (Server Y) :=
  match event with
  | .load freezes =>
    match loadRoom config server.epoch with
    | .ok room => .ok { server with replicas := server.replicas ++ [some room] }
    | .error _ => .ok { server with epoch := server.epoch.tryFreeze freezes }
  | .unload replica =>
    .ok { server with replicas := server.replicas.set replica none }
  | .catchUp replica freezes => do
      let room ← okOr (server.room replica) .unavailable
      return (server.catchUp config replica room freezes).1
  | .receive replica request freezes => do
      let room ← okOr (server.room replica) .unavailable
      return server.receive config replica room request freezes
  | .attempt position verdicts => do
      let task ← okOr (server.tasks[position]?) .unavailable
      let room ← okOr (server.room task.replica) .unavailable
      match task.phase with
      | .attempting => return server.attempt config position task room verdicts
      | .behind => return server.resume config position task room verdicts.freezes
  | .commitSnapshot index verdicts => do
      let snapshot ← okOr (server.pending[index]?) .unavailable
      return server.persistSnapshot index snapshot verdicts
  | .freeze => .ok { server with epoch := server.epoch.freeze }

end Server

end FileBelt.Collaboration
