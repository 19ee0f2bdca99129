import FileBelt.Mount.Handles
import FileBelt.Support.Run

/-!
# Share modes under concurrent transactions

The transactions that open, use and close handles run statement by statement at the
isolation level `READ COMMITTED`: a statement sees what is committed when it starts,
and a row lock is held until the end of its transaction.

An open locks the node `FOR SHARE`, looks for a conflicting handle and inserts its own.
Share locks do not exclude each other, so the check and the insert are not one step.
-/

namespace FileBelt.Mount

open Support

/-! ## Transactions -/

/-- The two transactions that open a handle. -/
inductive Opening
  | mount (request : OpenRequest)
  | nfs (open' : NfsOpenRequest)

namespace Opening

def request : Opening → OpenRequest
  | mount request => request
  | nfs open' => open'.request

/-- The statements before the conflict check. -/
def lock (db : Database.State) : Opening → Except DatabaseError (Option Uuid)
  | mount request => lockForOpen db request
  | nfs open' => lockForNfsOpen db open'

def replayed : Opening → Bool
  | mount _ => false
  | nfs open' => open'.replayed

def conflict (s : MountState) : Opening → Bool
  | mount request => openConflict s request
  | nfs open' => nfsOpenConflict s open'.request

def expiry (s : MountState) : Opening → ℕ
  | mount _ => s.now + handleLifetime
  | nfs open' => nfsExpiry s open'.request.fence.sessionId

end Opening

/-- A transaction by the statements it has executed. -/
inductive Transaction
  | begun (opening : Opening)
  /-- The node is locked `FOR SHARE`. -/
  | locked (opening : Opening) (version : Option Uuid)
  /-- The conflict check has found nothing. -/
  | cleared (opening : Opening) (version : Option Uuid)
  | inserted (row : HandleRow)
  /-- The stored handle is locked and has a new version. -/
  | renewing (row : HandleRow)
  /-- As `renewing`; the NFS path has locked the node as well. -/
  | closing (row : HandleRow) (nodeLocked : Bool)
  | ended (error : Option DatabaseError)

namespace Transaction

/-- The node that is locked `FOR SHARE`. -/
def sharedNode : Transaction → Option Target
  | locked opening _ => some opening.request.target
  | cleared opening _ => some opening.request.target
  | inserted row => some row.target
  | _ => none

/-- The node that is locked `FOR UPDATE`. -/
def exclusiveNode : Transaction → Option Target
  | closing row true => some row.target
  | _ => none

def lockedHandle : Transaction → Option Uuid
  | renewing row => some row.id
  | closing row _ => some row.id
  | _ => none

/-- The node of an open that has passed its conflict check. -/
def clearedNode : Transaction → Option Target
  | cleared opening _ => some opening.request.target
  | inserted row => some row.target
  | _ => none

end Transaction

/-- The committed tables and the transactions. -/
structure Machine where
  s : MountState
  txs : List Transaction

inductive TxEvent
  | tick (duration : ℕ)
  /-- Any other transaction commits. -/
  | other (db : Database.State) (authority : Authority) (sessions : Table MountSessionRow.id)
  | beginOpen (opening : Opening)
  | lockNode (tx : ℕ)
  | checkConflict (tx : ℕ)
  | insert (tx : ℕ)
  | use (fence : MountSessionFence) (handleId : Uuid) (action : HandleAction)
  | close (sessionId handleId : Uuid)
  | closeNfs (sessionId handleId : Uuid) (admitted : Bool)
  | commit (tx : ℕ)
  | abort (tx : ℕ)

namespace Machine

def empty : Machine where
  s := .empty
  txs := []

variable (m : Machine) (i : ℕ)

def put (tx : Transaction) : Machine := { m with txs := m.txs.set i tx }

def start (tx : Transaction) : Machine := { m with txs := m.txs ++ [tx] }

def nodeShared (target : Target) : Bool :=
  m.txs.any fun tx => tx.sharedNode = some target

def nodeExclusive (target : Target) : Bool :=
  m.txs.any fun tx => tx.exclusiveNode = some target

def handleLocked (id : Uuid) : Bool := m.txs.any fun tx => tx.lockedHandle = some id

/-! ## Statements -/

def lockNode : Except Unit Machine :=
  match m.txs[i]? with
  | some (.begun opening) =>
    if m.nodeExclusive opening.request.target then .error ()
    else
      match opening.lock m.s.db with
      | .ok version => .ok (m.put i (.locked opening version))
      | .error error => .ok (m.put i (.ended (some error)))
  | _ => .error ()

def checkConflict : Except Unit Machine :=
  match m.txs[i]? with
  | some (.locked opening version) =>
    if opening.replayed then .ok (m.put i (.ended none))
    else if opening.conflict m.s then
      .ok (m.put i (.ended (some .conflict)))
    else .ok (m.put i (.cleared opening version))
  | _ => .error ()

def insert : Except Unit Machine :=
  match m.txs[i]? with
  | some (.cleared opening version) =>
    if (m.s.handles.get opening.request.handleId).isSome then
      .ok (m.put i (.ended (some .conflict)))
    else
      .ok (m.put i (.inserted (opening.request.row version (opening.expiry m.s))))
  | _ => .error ()

/-- The update of `admit_mount_handle`. -/
def use (fence : MountSessionFence) (handleId : Uuid)
    (action : HandleAction) : Except Unit Machine :=
  match (m.s.handles.get handleId).filter (admitsHandle m.s fence action) with
  | some handle =>
    if m.handleLocked handleId then .error ()
    else .ok (m.start (.renewing (handle.renew m.s.now)))
  | none => .error ()

/-- The update of `close_mount_handle`. -/
def close (sessionId handleId : Uuid) : Except Unit Machine :=
  match (m.s.handles.get handleId).filter fun handle =>
    handle.sessionId = sessionId ∧ handle.closed = false with
  | some handle =>
    if m.handleLocked handleId then .error ()
    else .ok (m.start (.closing { handle with closed := true } false))
  | none => .error ()

/-- The statements of `close_nfs_mount_handle`. -/
def closeNfs (sessionId handleId : Uuid) (admitted : Bool) : Except Unit Machine :=
  match admitNfsHandle m.s sessionId handleId none false admitted with
  | .ok handle =>
    if m.handleLocked handleId ∨ m.nodeShared handle.target ∨
        m.nodeExclusive handle.target then .error ()
    else .ok (m.start (.closing { handle with closed := true } true))
  | .error _ => .error ()

def commit : Except Unit Machine :=
  match m.txs[i]? with
  | some (.inserted row) =>
    match insertHandle m.s row with
    | .ok s => .ok ({ m with s := s }.put i (.ended none))
    | .error _ => .error ()
  | some (.renewing row) =>
    .ok ({ m with s := writeHandle m.s row }.put i (.ended none))
  | some (.closing row _) =>
    let s := releaseHandleLocks (writeHandle m.s row) row.id
    .ok ({ m with s := s }.put i (.ended none))
  | _ => .error ()

def abort : Except Unit Machine :=
  match m.txs[i]? with
  | some (.ended _) => .error ()
  | some _ => .ok (m.put i (.ended (some .sql)))
  | none => .error ()

/-- One statement, commit or passage of time. -/
def step : TxEvent → Except Unit Machine
  | .tick duration => .ok { m with s := { m.s with now := m.s.now + duration } }
  | .other db authority sessions =>
    .ok { m with s :=
      { m.s with db := db, authority := authority, sessions := sessions } }
  | .beginOpen opening => .ok (m.start (.begun opening))
  | .lockNode i => m.lockNode i
  | .checkConflict i => m.checkConflict i
  | .insert i => m.insert i
  | .use fence handleId action => m.use fence handleId action
  | .close sessionId handleId => m.close sessionId handleId
  | .closeNfs sessionId handleId admitted =>
    m.closeNfs sessionId handleId admitted
  | .commit i => m.commit i
  | .abort i => m.abort i

end Machine

end FileBelt.Mount
