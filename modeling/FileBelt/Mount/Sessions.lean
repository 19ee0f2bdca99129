import FileBelt.Mount.Tables

/-!
# Mount sessions

A session is created for a credential, kept alive by its use and ended by its user, by
a revocation or by a drain of its gateway.  The conditions on tables outside this model
are the verdict `admitted` of a request.
-/

namespace FileBelt.Mount

def idleLifetime : ℕ := 15 * minute

def sessionOpen (now : ℕ) (session : MountSessionRow) : Bool :=
  (session.state = .active ∨ session.state = .draining) ∧
    now < session.idleExpiresAt ∧ now < session.absoluteExpiresAt

variable (s : MountState)

/-- `UPDATE sessions SET f WHERE p`. -/
def updateSessions (p : MountSessionRow → Bool)
    (f : MountSessionRow → MountSessionRow) (hf : ∀ row, (f row).id = row.id) : MountState :=
  { s with sessions := s.sessions.update p f hf }

structure SessionRequest where
  sessionId : Uuid
  credentialId : Uuid
  deviceId : Option Uuid
  protocol : Protocol
  gatewayId : Uuid
  gatewayEpoch : ℕ

variable (request : SessionRequest)

/-- The credential, its principal and the policy that a new session locks. -/
def credentialForSession : Except DatabaseError (CredentialRow × Database.PrincipalRow) := do
  let credential ← okOr
    ((s.authority.credentials.get request.credentialId).filter fun c =>
      c.protocol = request.protocol ∧ c.revoked = false ∧ s.now < c.expiresAt ∧
        (c.boundDeviceId = none ∨ c.boundDeviceId = request.deviceId))
    .staleGeneration
  let principal ← okOr
    ((s.db.principals.get credential.principalId).filter fun p =>
      p.disabled = false) .staleGeneration
  let _ ← okOr
    ((s.authority.policies.get (principal.id, request.protocol)).filter
      fun policy => policy.enabled) .staleGeneration
  .ok (credential, principal)

variable (protocol : Protocol) (gatewayId : Uuid)

def gatewayAdmits (epoch : ℕ) : Bool :=
  s.authority.gateways.any fun gateway =>
    gateway.protocol = protocol ∧ gateway.gatewayId = gatewayId ∧
      gateway.epoch = epoch ∧ gateway.draining = false ∧
      s.now < gateway.leaseExpiresAt

def SessionRequest.row (credential : CredentialRow)
    (principal : Database.PrincipalRow) (idleExpiresAt absoluteExpiresAt : ℕ) :
    MountSessionRow where
  id := request.sessionId
  userPrincipalId := principal.id
  credentialId := credential.id
  protocol := request.protocol
  gatewayId := request.gatewayId
  gatewayEpoch := request.gatewayEpoch
  credentialGeneration := credential.credentialGeneration
  authorizationGeneration := credential.authorizationGeneration
  membershipGeneration := principal.generation
  state := .active
  idleExpiresAt := idleExpiresAt
  absoluteExpiresAt := absoluteExpiresAt

def insertSession (row : MountSessionRow) : Except DatabaseError MountState := do
  let sessions ← okOr (s.sessions.insert row) .conflict
  .ok { s with sessions := sessions }

/-- The life of a session of each protocol, whatever its use. -/
def absoluteLifetime : Protocol → ℕ
  | .smb => 12 * hour
  | _ => 4 * hour

def createMountSession : Except DatabaseError MountState := do
  if request.protocol = .nfs ∨ request.gatewayEpoch = 0 then
    .error .invalidPersistedValue
  else
    let (credential, principal) ← credentialForSession s request
    if gatewayAdmits s request.protocol request.gatewayId request.gatewayEpoch
    then
      insertSession s (request.row credential principal (s.now + idleLifetime)
        (s.now + absoluteLifetime request.protocol))
    else .error .staleGeneration

structure NfsSessionRequest where
  request : SessionRequest
  gssExpiresAt : ℕ
  /-- The session of the same binding and source address. -/
  existing : Option Uuid
  admitted : Bool

variable (auth : NfsSessionRequest)

/-- The session that an authentication may use again. -/
def reusableSession : Option MountSessionRow := do
  let id ← auth.existing
  (s.sessions.get id).filter fun session =>
    session.credentialId = auth.request.credentialId ∧
      session.protocol = .nfs ∧ session.gatewayId = auth.request.gatewayId ∧
      session.gatewayEpoch = auth.request.gatewayEpoch ∧
      (session.state = .active ∨ session.state = .draining)

/-- The authentication context of a session is that of the credential. -/
def contextCurrent (now : ℕ) (credential : CredentialRow)
    (principal : Database.PrincipalRow) (session : MountSessionRow) : Bool :=
  session.state = .active ∧
    session.credentialGeneration = credential.credentialGeneration ∧
    session.authorizationGeneration = credential.authorizationGeneration ∧
    session.membershipGeneration = principal.generation ∧
    now < session.idleExpiresAt ∧ now < session.absoluteExpiresAt

def closeSession (id : Uuid) : MountState :=
  updateSessions s (fun row => row.id = id) (fun row => { row with state := .closed }) fun _ => rfl

def insertNfsSession (credential : CredentialRow) (principal : Database.PrincipalRow) :
    Except DatabaseError MountState :=
  let expiresAt := min (s.now + 4 * hour) auth.gssExpiresAt
  insertSession s (auth.request.row credential principal
    (min (s.now + idleLifetime) expiresAt) expiresAt)

/-- The session is kept alive until the end of the security context at most. -/
def reuseSession (session : MountSessionRow) : MountState :=
  let expiresAt := min session.absoluteExpiresAt (min (s.now + 4 * hour) auth.gssExpiresAt)
  updateSessions s (fun row => row.id = session.id) (fun row =>
      { row with
        absoluteExpiresAt := expiresAt
        idleExpiresAt := min (s.now + idleLifetime) expiresAt })
    fun _ => rfl

def createNfsSession : Except DatabaseError MountState := do
  if auth.gssExpiresAt ≤ s.now ∨ auth.request.protocol ≠ .nfs then
    .error .invalidPersistedValue
  else if auth.admitted = false ∨ gatewayAdmits s .nfs auth.request.gatewayId
      auth.request.gatewayEpoch = false then .error .staleGeneration
  else
    let (credential, principal) ← credentialForSession s auth.request
    match reusableSession s auth with
    | none => insertNfsSession s auth credential principal
    | some session =>
      if contextCurrent s.now credential principal session then
        .ok (reuseSession s auth session)
      else
        insertNfsSession (closeSession s session.id) auth credential principal

/-- `SET idle_expires_at=LEAST(absolute_expires_at,...)` of an open session. -/
def touchSession (id : Uuid) : MountState :=
  updateSessions s (fun row => row.id = id ∧ sessionOpen s.now row) (fun row =>
      { row with
        idleExpiresAt := min row.absoluteExpiresAt (s.now + idleLifetime) })
    fun _ => rfl

def admitMountSession (id : Uuid) (admitted : Bool) :
    Except DatabaseError (MountSessionFence × MountState) := do
  let session ← okOr
    ((s.sessions.get id).filter fun session =>
      sessionOpen s.now session ∧ admitted ∧
        (s.db.principals.get session.userPrincipalId).any fun principal =>
          principal.disabled = false ∧ principal.generation = session.membershipGeneration)
    .staleGeneration
  .ok
    ({ sessionId := session.id
       userPrincipalId := session.userPrincipalId
       credentialGeneration := session.credentialGeneration
       authorizationGeneration := session.authorizationGeneration
       membershipGeneration := session.membershipGeneration
       gatewayEpoch := session.gatewayEpoch }, touchSession s id)

/-- `UPDATE sessions SET state=... WHERE state IN ('active','draining')`. -/
def endSessions (state : MountSessionState) (p : MountSessionRow → Bool) : MountState :=
  updateSessions s (fun row => (row.state = .active ∨ row.state = .draining) ∧ p row)
    (fun row => { row with state := state }) fun _ => rfl

def endMountSession (id : Uuid) : Except DatabaseError MountState := do
  let _ ← okOr
    ((s.sessions.get id).filter fun session =>
      session.state = .active ∨ session.state = .draining) .staleGeneration
  .ok (endSessions s .closed fun row => row.id = id)

/-- What the end of sessions is decided by. -/
inductive SessionSelector
  | policy (principal : PrincipalId) (protocol : Protocol)
  | credential (id : Uuid)
  | mapping (principal : PrincipalId) (credentialId : Uuid)
  | nfsFeature
  deriving DecidableEq

def SessionSelector.selects : SessionSelector → MountSessionRow → Bool
  | policy principal protocol, row =>
    row.userPrincipalId = principal ∧ row.protocol = protocol
  | credential id, row => row.credentialId = id
  | mapping principal credentialId, row =>
    row.userPrincipalId = principal ∧ row.credentialId = credentialId ∧ row.protocol = .nfs
  | nfsFeature, row => row.protocol = .nfs

/-- A changed policy or credential revokes, a changed mapping or feature closes. -/
def SessionSelector.state : SessionSelector → MountSessionState
  | policy _ _ => .revoked
  | credential _ => .revoked
  | mapping _ _ => .closed
  | nfsFeature => .closed

def revokeSessions (selector : SessionSelector) : MountState :=
  endSessions s selector.state selector.selects

/-- The sessions of a draining gateway end by its deadline. -/
def drainSessions (epoch deadline : ℕ) : MountState :=
  updateSessions s (fun row => row.protocol = protocol ∧ row.gatewayId = gatewayId ∧
      row.gatewayEpoch = epoch ∧ row.state = .active)
    (fun row =>
      { row with
        state := .draining
        idleExpiresAt := min row.idleExpiresAt deadline
        absoluteExpiresAt := min row.absoluteExpiresAt deadline })
    fun _ => rfl

/-- The gateway epoch drains until the deadline. -/
def drainGateway (epoch deadline : ℕ) : MountState :=
  let gateways := s.authority.gateways.map fun gateway =>
    if gateway.protocol = protocol ∧ gateway.gatewayId = gatewayId ∧
        gateway.epoch = epoch ∧ gateway.draining = false ∧
        s.now < gateway.leaseExpiresAt
    then { gateway with draining := true, drainDeadline := deadline }
    else gateway
  { s with authority := { s.authority with gateways := gateways } }

def drainMountGatewayEpoch (epoch : ℕ) : Except DatabaseError MountState :=
  if gatewayAdmits s protocol gatewayId epoch then
    let deadline := s.now + 5 * minute
    .ok (drainSessions (drainGateway s protocol gatewayId epoch deadline)
      protocol gatewayId epoch deadline)
  else .error .staleGeneration

end FileBelt.Mount
