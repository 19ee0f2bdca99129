import FileBelt.Vfs.Policy
import FileBelt.Mount.Moves

/-!
# Opening a handle through the virtual file system

An open is admitted on its session, authorized action by action and stored, each in a
transaction of its own.  The gateway for SMB and FTPS stores the drive's namespace
generation of the grant where the handle keeps that of the node; the NFS path stores
that of the node.
-/

namespace FileBelt.Vfs

open Support Mount

/-- The common action behind an access of the SMB and FTPS gateway; an open for
writing is refused. -/
def commonAction : HandleAction → Option Action
  | .readMetadata => some .readMetadata
  | .readContent => some .readContent
  | .manageLock => some .readContent
  | _ => none

/-- The common action behind an access of the NFS gateway. -/
def nfsCommonAction : HandleAction → Option Action
  | .readMetadata => some .readMetadata
  | .readContent => some .readContent
  | _ => none

/-- The parts of an open request that later transactions use. -/
structure OpenCall where
  nfs : Bool
  handleId : Uuid
  target : Target
  expectedVersionId : Option Uuid
  requestedActions : List HandleAction
  (shareRead shareWrite shareDelete : Bool)

/-- An open that asks for its actions one by one. -/
structure OpenTask where
  call : OpenCall
  fence : MountSessionFence
  requested : List HandleAction
  actions : List HandleAction
  grant : Option AuthorizationGrant

/-- The mount tables and the opens under way. -/
structure VfsState where
  mount : MountState
  tasks : List OpenTask

def VfsState.empty : VfsState where
  mount := .empty
  tasks := []

/-- The policy action behind a requested one. -/
def OpenCall.action (call : OpenCall) (action : HandleAction) : Option Action :=
  if call.nfs then nfsCommonAction action else commonAction action

/-- The first statement of an open: the session is admitted. -/
def beginOpen (s : VfsState) (call : OpenCall) (sessionId : Uuid)
    (admitted : Bool) : Except Unit VfsState := do
  let (fence, mount) ← denied (admitMountSession s.mount sessionId admitted)
  .ok
    { mount := mount
      tasks := s.tasks ++
        [{ call := call, fence := fence, requested := call.requestedActions
           actions := [], grant := none }] }

/-- One more authorized action; nothing when it is refused or the generations differ. -/
def OpenTask.authorize (task : OpenTask) (db : Database.State)
    (admitted : Bool) : Option OpenTask :=
  match task.requested with
  | [] => none
  | action :: rest => do
      let common ← task.call.action action
      if task.call.nfs ∧ admitted = false then none
      else
        let grant ← (Vfs.authorize db task.fence.userPrincipalId
          task.call.target.driveId task.call.target.nodeId common).toOption
        if task.grant.any fun existing => existing ≠ grant then none
        else
          some
            { task with
              requested := rest
              actions := task.actions ++ [action]
              grant := some grant }

/-- The next action of a task; a denial ends it. -/
def authorizeNext (s : VfsState) (i : ℕ) (admitted : Bool) : Except Unit VfsState :=
  match s.tasks[i]? with
  | none => .error ()
  | some task =>
    match task.authorize s.mount.db admitted with
    | some task => .ok { s with tasks := s.tasks.set i task }
    | none => .ok { s with tasks := s.tasks.eraseIdx i }

/-- The request that a task stores; `namespaceGeneration` is the one that the
gateway passes on. -/
def OpenTask.request (task : OpenTask) (grant : AuthorizationGrant)
    (namespaceGeneration : ℕ) : OpenRequest where
  fence := task.fence
  handleId := task.call.handleId
  target := task.call.target
  expectedVersionId := task.call.expectedVersionId
  accessActions := task.actions
  shareRead := task.call.shareRead
  shareWrite := task.call.shareWrite
  shareDelete := task.call.shareDelete
  driveAclGeneration := grant.driveAclGeneration
  namespaceGeneration := namespaceGeneration
  resourceAclGeneration := grant.resourceAclGeneration

/-- What the NFS transaction finds outside this model. -/
structure NfsVerdict where
  (admitted readOnly replayed : Bool)

/-- The arguments of the NFS open. -/
def OpenTask.nfsRequest (task : OpenTask) (grant : AuthorizationGrant)
    (verdict : NfsVerdict) : NfsOpenRequest where
  request := task.request grant grant.resourceNamespaceGeneration
  mount :=
    { userPrincipalId := task.fence.userPrincipalId
      membershipGeneration := task.fence.membershipGeneration
      admitted := verdict.admitted }
  readOnly := verdict.readOnly
  membershipGeneration := grant.membershipGeneration
  driveNamespaceGeneration := grant.namespaceGeneration
  replayed := verdict.replayed

/-- The transaction that stores the handle. -/
def OpenTask.store (task : OpenTask) (grant : AuthorizationGrant)
    (verdict : NfsVerdict) (s : MountState) : Except DatabaseError MountState :=
  if task.call.nfs then openNfsMountHandle s (task.nfsRequest grant verdict)
  else openMountHandle s (task.request grant grant.namespaceGeneration)

/-- The end of a task with all its actions granted. -/
def finishOpen (s : VfsState) (i : ℕ) (verdict : NfsVerdict) : Except Unit VfsState :=
  match s.tasks[i]? with
  | none => .error ()
  | some task =>
    match task.requested, task.grant with
    | [], some grant =>
      match task.store grant verdict s.mount with
      | .ok mount => .ok { mount := mount, tasks := s.tasks.eraseIdx i }
      | .error _ => .ok { s with tasks := s.tasks.eraseIdx i }
    | _, _ => .error ()

inductive VfsEvent
  | beginOpen (call : OpenCall) (sessionId : Uuid) (admitted : Bool)
  | authorizeNext (task : ℕ) (admitted : Bool)
  | finishOpen (task : ℕ) (verdict : NfsVerdict)
  /-- Any other transaction. -/
  | mount (op : MountOperation)

def vfsStep (s : VfsState) : VfsEvent → Except Unit VfsState
  | .beginOpen call sessionId admitted => beginOpen s call sessionId admitted
  | .authorizeNext task admitted => authorizeNext s task admitted
  | .finishOpen task verdict => finishOpen s task verdict
  | .mount op =>
    -- handles are opened by tasks
    if op.opensHandle then .error ()
    else do
      let mount ← denied (mountStep s.mount op)
      .ok { s with mount := mount }

/-- The state after a run from the migrated, empty database. -/
def vfsReached (events : List VfsEvent) : VfsState := run vfsStep .empty events

end FileBelt.Vfs
