import FileBelt.Database.Policy
import FileBelt.Support.Run

/-!
# Runs of the control database

The transactions as one operation type.  Row locks make the transactions on
one drive serial, so a run is a list of operations.
-/

namespace FileBelt.Database

open Support

inductive Operation
  | linkOidcIdentity (request : LinkIdentity)
  | createSession (request : CreateSession)
  | resolveSession (now idleSeconds : ℕ) (session : Uuid)
  | revokeSession (session : Uuid)
  | revokeAllSessions (user : Uuid) (exceptSession : Option Uuid)
  | createGroup (group : GroupRow)
  | insertMembership (row : MembershipRow)
  | deleteMembership (group : GroupId) (user : PrincipalId) (primary : Bool)
  | updateMembership (group : GroupId) (user : PrincipalId) (row : MembershipRow) (primary : Bool)
  | setUserStatus (user : Uuid) (status : UserStatus)
  | setPrincipalDisabled (principal : PrincipalId) (disabled : Bool)
  | invalidateServicePolicy (principal : PrincipalId) (active : Bool)
  | replaceAdvancedAclEntries (request : ReplaceAdvancedAclEntries)
  | createDirectShare (request : CreateDirectShare)
  | revokeDirectShare (request : RevokeDirectShare)
  | repairDescendantShares (selected : List Uuid)
  | nfsSetAcl (request : NfsSetAcl)
  | createDirectory (request : CreateDirectory)
  | beginUpload (request : BeginUpload)
  | claimUploadFinalization (upload : Uuid) (fencingToken : ℕ) (owner : Uuid) (complete : Bool)
  | markUploadFinalized (upload : Uuid) (fencingToken : ℕ) (owner : Uuid)
  | commitUpload (request : CommitUpload)
  | restoreFileVersion (request : RestoreFileVersion)
  | commitDocumentRevision (request : CommitDocumentRevision)
  | createDocumentConflictCopy (request : ConflictCopy)
  | copyNfsWriteConflict (request : ConflictCopy)
  | setContentClassPolicy (request : SetContentClassPolicy)
  | setNodeTrashState (request : SetNodeTrashState)
  | nfsCreate (request : NfsCreate)
  | nfsRename (request : NfsRename)
  | nfsRemove (request : NfsRemove)
  | nfsSetAttributes (request : NfsSetAttributes)
  | commitNfsWrite (request : CommitNfsWrite)

def step (db : State) : Operation → Except DatabaseError State
  | .linkOidcIdentity request => linkOidcIdentity db request
  | .createSession request => createSession db request
  | .resolveSession now idleSeconds session =>
    resolveSession db now idleSeconds session
  | .revokeSession session => .ok (revokeSession db session)
  | .revokeAllSessions user exceptSession =>
    .ok (revokeAllSessions db user exceptSession)
  | .createGroup group => createGroup db group
  | .insertMembership row => insertMembership db row
  | .deleteMembership group user primary =>
    deleteMembership db group user primary
  | .updateMembership group user row primary =>
    updateMembership db group user row primary
  | .setUserStatus user status => .ok (setUserStatus db user status)
  | .setPrincipalDisabled principal disabled =>
    .ok (setPrincipalDisabled db principal disabled)
  | .invalidateServicePolicy principal active =>
    .ok (invalidateServicePolicy db principal active)
  | .replaceAdvancedAclEntries request => replaceAdvancedAclEntries db request
  | .createDirectShare request => createDirectShare db request
  | .revokeDirectShare request => revokeDirectShare db request
  | .repairDescendantShares selected => .ok (repairDescendantShares db selected)
  | .nfsSetAcl request => nfsSetAcl db request
  | .createDirectory request => createDirectory db request
  | .beginUpload request => beginUpload db request
  | .claimUploadFinalization upload fencingToken owner complete =>
    claimUploadFinalization db upload fencingToken owner complete
  | .markUploadFinalized upload fencingToken owner =>
    markUploadFinalized db upload fencingToken owner
  | .commitUpload request => commitUpload db request
  | .restoreFileVersion request => restoreFileVersion db request
  | .commitDocumentRevision request => commitDocumentRevision db request
  | .createDocumentConflictCopy request => createDocumentConflictCopy db request
  | .copyNfsWriteConflict request => copyNfsWriteConflict db request
  | .setContentClassPolicy request => setContentClassPolicy db request
  | .setNodeTrashState request => setNodeTrashState db request
  | .nfsCreate request => nfsCreate db request
  | .nfsRename request => nfsRename db request
  | .nfsRemove request => nfsRemove db request
  | .nfsSetAttributes request => nfsSetAttributes db request
  | .commitNfsWrite request => commitNfsWrite db request

/-- The database after a run from the migrated, empty one. -/
def reached (ops : List Operation) : State := run step State.empty ops

end FileBelt.Database
