import FileBelt.Database.Schema

/-!
# Mount sessions, handles and byte-range locks

The tables of the mount schema that handle admission, share modes and byte-range
locks read or write.  Times are microseconds of the database clock.
-/

namespace FileBelt.Mount

open Support

inductive Protocol
  | smb | ftps | nfs
  deriving DecidableEq, Repr

inductive MountSessionState
  | active | draining | revoked | expired | closed
  deriving DecidableEq, Repr

structure MountSessionRow where
  id : Uuid
  userPrincipalId : PrincipalId
  credentialId : Uuid
  protocol : Protocol
  gatewayId : Uuid
  (gatewayEpoch credentialGeneration authorizationGeneration membershipGeneration : ℕ)
  state : MountSessionState
  idleExpiresAt : ℕ
  absoluteExpiresAt : ℕ
  deriving DecidableEq, Repr

structure CredentialRow where
  id : Uuid
  principalId : PrincipalId
  protocol : Protocol
  revoked : Bool
  (expiresAt credentialGeneration authorizationGeneration : ℕ)
  allowedDriveIds : List DriveId
  boundDeviceId : Option Uuid
  deriving DecidableEq, Repr

structure PolicyRow where
  principalId : PrincipalId
  protocol : Protocol
  enabled : Bool
  allowedDriveIds : List DriveId
  deriving DecidableEq, Repr

def PolicyRow.key (row : PolicyRow) : PrincipalId × Protocol := (row.principalId, row.protocol)

structure GatewayRow where
  protocol : Protocol
  gatewayId : Uuid
  epoch : ℕ
  draining : Bool
  drainDeadline : ℕ
  leaseExpiresAt : ℕ
  deriving DecidableEq, Repr

structure DeviceRow where
  id : Uuid
  principalId : PrincipalId
  revoked : Bool
  observedAt : ℕ
  deriving DecidableEq, Repr

/-- What the administrative transactions of the mount schema maintain. -/
structure Authority where
  credentials : Table CredentialRow.id
  policies : Table PolicyRow.key
  gateways : List GatewayRow
  devices : Table DeviceRow.id

/-- The persisted names of handle access. -/
inductive HandleAction
  | readMetadata | readContent | writeContent | createVersion | delete | manageLock
  deriving DecidableEq, Repr

/-- The node a handle or a lock is about. -/
structure Target where
  driveId : DriveId
  nodeId : NodeId
  deriving DecidableEq, Repr

structure HandleRow where
  id : Uuid
  sessionId : Uuid
  target : Target
  versionId : Option Uuid
  accessActions : List HandleAction
  (shareRead shareWrite shareDelete : Bool)
  (credentialGeneration authorizationGeneration membershipGeneration driveAclGeneration
    namespaceGeneration resourceAclGeneration gatewayEpoch expiresAt : ℕ)
  closed : Bool
  deriving DecidableEq, Repr

def HandleRow.live (now : ℕ) (handle : HandleRow) : Bool :=
  handle.closed = false ∧ now < handle.expiresAt

def HandleRow.holds (handle : HandleRow) (action : HandleAction) : Bool :=
  handle.accessActions.contains action

structure ByteLockRow where
  id : Uuid
  handleId : Uuid
  target : Target
  ownerKey : String
  offset : ℤ
  length : ℤ
  exclusive : Bool
  gatewayEpoch : ℕ
  expiresAt : ℕ
  released : Bool
  deriving DecidableEq, Repr

structure MountState where
  now : ℕ
  db : Database.State
  authority : Authority
  sessions : Table MountSessionRow.id
  handles : Table HandleRow.id
  byteLocks : Table ByteLockRow.id

/-- The database after the migrations. -/
def MountState.empty : MountState where
  now := 0
  db := .empty
  authority :=
    { credentials := .empty, policies := .empty, gateways := []
      devices := .empty }
  sessions := .empty
  handles := .empty
  byteLocks := .empty

def second : ℕ := 1000000

def minute : ℕ := 60 * second

def hour : ℕ := 60 * minute

/-- `MountSessionFence`: what a request carries of its admitted session. -/
structure MountSessionFence where
  sessionId : Uuid
  userPrincipalId : PrincipalId
  (credentialGeneration authorizationGeneration membershipGeneration gatewayEpoch : ℕ)
  deriving DecidableEq, Repr

end FileBelt.Mount
