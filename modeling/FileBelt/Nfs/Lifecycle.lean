import FileBelt.Domain.Identity
import FileBelt.Nfs.Gateway
import FileBelt.Support.Run

/-!
# The lease of the gateway

The serving process handles calls and renews its lease in a second thread; both hold
the lock of the gateway, here for each method, while they use it.  The drain command is
a process of its own.  The two share the state file: each reads it, checks it and puts
another file in its place.  A step is what happens between two accesses to the file or
to the VFS, so the drain command can come between a check of the serving process and
what it does next.
-/

namespace FileBelt.Nfs

open Support Support.Protobuf

structure RenewalFence where
  tenantId : Uuid
  (gatewayEpoch featureGeneration exportGeneration : UInt64)
  deriving DecidableEq, Repr

/-- The state of an admission with the fence that it was granted for. -/
structure AdmittedLease where
  fence : RenewalFence
  refreshAt : ℕ
  leaseExpiresAt : ℕ
  deriving DecidableEq, Repr

/-- What a call sees of the admission. -/
def AdmittedLease.admittedState (lease : AdmittedLease) : AdmittedState where
  featureGeneration := lease.fence.featureGeneration
  leaseExpiresAt := lease.leaseExpiresAt

structure PendingRenewal where
  expected : RenewalFence
  candidate : RenewalFence
  deriving DecidableEq, Repr

/-- A state file that `read_state` accepts. -/
structure GatewayStateFile where
  bootId : Uuid
  tenantId : Uuid
  (gatewayEpoch featureGeneration exportGeneration : UInt64)
  leaseExpiresAtUnixSeconds : ℤ
  draining : Bool
  deriving DecidableEq, Repr

def GatewayStateFile.fence (state : GatewayStateFile) : RenewalFence where
  tenantId := state.tenantId
  gatewayEpoch := state.gatewayEpoch
  featureGeneration := state.featureGeneration
  exportGeneration := state.exportGeneration

/-- The comparison of `disk_state_matches`. -/
def GatewayStateFile.Matches (state : GatewayStateFile) (bootId : Uuid)
    (fence : RenewalFence) (requireLiveLease : Bool) (now : ℤ) : Prop :=
  state.bootId = bootId ∧ state.fence = fence ∧ state.draining = false ∧
    (requireLiveLease → now < state.leaseExpiresAtUnixSeconds)

instance (state : GatewayStateFile) (bootId : Uuid) (fence : RenewalFence)
    (requireLiveLease : Bool) (now : ℤ) :
    Decidable (state.Matches bootId fence requireLiveLease now) :=
  inferInstanceAs (Decidable (_ ∧ _))

/-- `LEASE_REFRESH_AFTER`, in nanoseconds. -/
def leaseRefreshAfter : ℕ := 20 * 10 ^ 9

def nfsGatewayLeaseSeconds : ℕ := 30

/-- `LEASE_DURATION`, in nanoseconds. -/
def leaseDuration : ℕ := nfsGatewayLeaseSeconds * 10 ^ 9

/-- A request of the bridge to the gateway. -/
inductive Call
  | filesystem (a : FsalAuthentication)
  | authenticate (a : FsalAuthentication)

namespace Call

def handle (g : Gateway) (m : Moment) : Call → VfsResponse × Gateway
  | .filesystem a => g.handleFilesystem m a
  | .authenticate a => g.handleAuthenticate m a

/-- The session whose identifier and generations go with the request. -/
def session (g : Gateway) (m : Moment) : Call → Option SessionFence
  | .filesystem a => (g.removeExpiredSessions m.unixSeconds).sessions.get a.gssBindingDigest
  | .authenticate _ => none

/-- The checks that a request has to pass before it is forwarded. -/
def passes (g : Gateway) (m : Moment) (call : Call) : Bool :=
  match call with
  | .filesystem a => (call.session g m).any (fun session => session.boundTo a) && m.requestValid
  | .authenticate a =>
    validPrincipalForRealm a.kerberosPrincipal g.kerberosRealm &&
      m.unixSeconds < a.contextExpiresAtUnixSeconds && m.requestValid

end Call

/-- The VFS opened a session under a fence. -/
structure Opening where
  fence : RenewalFence
  gssBinding : List Byte
  answer : VfsAnswer

/-- A request that went to the VFS, with what the checks before it found. -/
structure Forwarded where
  lease : AdmittedLease
  call : Call
  session : Option SessionFence
  instant : ℕ
  unixSeconds : ℤ
  state : GatewayStateFile

/-! ## Processes -/

/-- The gateway in the memory of the serving process. -/
structure Bridge where
  bootId : Uuid
  kerberosRealm : List Byte
  admitted : Option AdmittedLease
  pendingRenewal : Option PendingRenewal
  sessions : Table SessionFence.gssBinding

namespace Bridge

/-- What a call uses of the bridge. -/
def gateway (b : Bridge) : Gateway where
  kerberosRealm := b.kerberosRealm
  admitted := b.admitted.map AdmittedLease.admittedState
  sessions := b.sessions

def setGateway (b : Bridge) (g : Gateway) : Bridge :=
  { b with
    admitted := if g.admitted.isSome then b.admitted else none
    sessions := g.sessions }

def revoke (b : Bridge) : Bridge := { b with admitted := none, sessions := .empty }

def fence (b : Bridge) : Option RenewalFence := b.admitted.map AdmittedLease.fence

end Bridge

/-- The second thread; `starting` is the bootstrap before it, `exited` its failure. -/
inductive Worker
  | starting | idle
  | offering (expected : RenewalFence)
  | applying (expected candidate : RenewalFence)
  | exited
  deriving DecidableEq, Repr

/-- What `expire_state` is called for: by `prepare_renewal`, or by
`fail_renewal`. -/
inductive Expiry
  | prepare (expected candidate : RenewalFence)
  | fail
  deriving DecidableEq, Repr

/-- What the holder of the gateway's lock does next. -/
inductive Phase
  | idle
  /-- The checks on a request have passed, and it will be sent. -/
  | forwarding (call : Call) (m : Moment) (lease : AdmittedLease) (state : GatewayStateFile)
  /-- The checks of `apply_renewal` have passed, and it will write. -/
  | renewing (expected : Option RenewalFence) (lease : AdmittedLease) (state : GatewayStateFile)
  /-- `expire_state` will read. -/
  | fenced (expiry : Expiry)
  /-- `expire_state` has read a state and will write. -/
  | expiring (expiry : Expiry) (state : GatewayStateFile)

/-- Nothing is renamed, the renaming is not synced, or `write_state` succeeds. -/
inductive WriteOutcome
  | failed | unsynced | written
  deriving DecidableEq, Repr

/-- The processes on one host and the file they share. -/
structure Host where
  /-- The monotonic clock, in nanoseconds. -/
  clock : ℕ
  unixSeconds : ℤ
  disk : Option GatewayStateFile
  bridge : Bridge
  phase : Phase
  worker : Worker
  /-- The state that the drain command has read and will write. -/
  drain : Option GatewayStateFile
  /-- The drain command has persisted its marker; no part of the program, like the
  two lists that follow. -/
  drained : Bool
  opened : List Opening
  forwarded : List Forwarded

/-- A process that has just started. -/
def Host.start (bootId : Uuid) (kerberosRealm : List Byte)
    (disk : Option GatewayStateFile) (clock : ℕ) (unixSeconds : ℤ) : Host where
  clock := clock
  unixSeconds := unixSeconds
  disk := disk
  bridge := ⟨bootId, kerberosRealm, none, none, .empty⟩
  phase := .idle
  worker := .starting
  drain := none
  drained := false
  opened := []
  forwarded := []

inductive HostEvent
  | tick (nanoseconds : ℕ)
  | setUnixSeconds (unixSeconds : ℤ)
  /-- The offer and its application succeed. -/
  | bootstrap (candidate : RenewalFence)
  | request (call : Call) (requestId : UuidText) (requestValid : Bool)
  | answer (answer : Option VfsAnswer)
  | bindFsalSession (a : FsalAuthentication)
  | fsalProjection
  /-- The second thread asks whether the lease has to be renewed. -/
  | wake
  /-- `offer` of the second thread and what follows under the lock. -/
  | offer (candidate : Option RenewalFence)
  /-- `apply` of the second thread and what follows under the lock. -/
  | apply (succeeds : Bool)
  | renewalWrite (outcome : WriteOutcome)
  | expiryRead
  | expiryWrite (outcome : WriteOutcome)
  | drainRead
  | drainWrite (outcome : WriteOutcome)

/-! ## Steps -/

namespace Host

variable (host : Host)

def diskStateMatches (fence : RenewalFence) (requireLiveLease : Bool) : Bool :=
  host.disk.any fun state =>
    state.Matches host.bridge.bootId fence requireLiveLease host.unixSeconds

/-- `write_state` on the file. -/
def write (state : GatewayStateFile) : WriteOutcome → Host
  | .failed => host
  | .unsynced | .written => { host with disk := some state }

def moment (lease : AdmittedLease) (requestId : UuidText) (requestValid : Bool) : Moment where
  requestId := requestId
  instant := host.clock
  unixSeconds := host.unixSeconds
  diskStateMatches := host.diskStateMatches lease.fence true
  requestValid := requestValid
  answer := none

/-- `handle` up to the request to the VFS, or to its end if there is none. -/
def request (call : Call) (requestId : UuidText) (requestValid : Bool) : Host :=
  match host.bridge.admitted, host.disk with
  | some lease, some state =>
    let m := host.moment lease requestId requestValid
    if host.bridge.gateway.admits m && call.passes host.bridge.gateway m then
      { host with phase := .forwarding call m lease state }
    else
      { host with
        bridge := host.bridge.setGateway (call.handle host.bridge.gateway m).2 }
  | _, _ => { host with bridge := host.bridge.revoke }

/-- The session that an answer to an authentication opens. -/
def openings (lease : AdmittedLease) : Call → Option VfsAnswer → List Opening
  | .authenticate a, some answer =>
    if answer.response.error = .ok then
      [⟨lease.fence, a.gssBindingDigest, answer⟩]
    else []
  | _, _ => []

/-- The request to the VFS and the rest of `handle`. -/
def answer (host : Host) (call : Call) (m : Moment) (lease : AdmittedLease)
    (state : GatewayStateFile) (answer : Option VfsAnswer) : Host :=
  let g := host.bridge.gateway
  { host with
    bridge := host.bridge.setGateway (call.handle g { m with answer := answer }).2
    phase := .idle
    opened := host.opened ++ openings lease call answer
    forwarded := host.forwarded ++
      [⟨lease, call, call.session g m, m.instant, m.unixSeconds, state⟩] }

def renewalFence : Option RenewalFence :=
  (host.bridge.admitted.filter fun lease => lease.refreshAt ≤ host.clock).map AdmittedLease.fence

/-- `fail_renewal`, up to `expire_state`. -/
def failRenewal (expected : RenewalFence) : Host :=
  if host.bridge.pendingRenewal.any fun pending => pending.expected = expected then
    { host with
      bridge := { host.bridge.revoke with pendingRenewal := none }
      phase := .idle
      worker := .idle }
  else if host.bridge.admitted.any fun lease =>
      lease.fence = expected ∧ lease.leaseExpiresAt ≤ host.clock then
    { host with
      bridge := host.bridge.revoke
      phase := .fenced .fail
      worker := .idle }
  else { host with phase := .idle, worker := .idle }

/-- `prepare_renewal`, up to `expire_state`. -/
def prepareRenewal (expected candidate : RenewalFence) : Host :=
  if host.bridge.fence ≠ some expected then { host with worker := .idle }
  else if host.diskStateMatches expected true = false then
    { host with bridge := host.bridge.revoke }.failRenewal expected
  else if candidate = expected then
    { host with worker := .applying expected candidate }
  else
    { host with
      bridge :=
        { host.bridge.revoke with
          pendingRenewal := some ⟨expected, candidate⟩ }
      phase := .fenced (.prepare expected candidate) }

variable (expected : Option RenewalFence) (candidate : RenewalFence)

/-- The attempt that `apply_renewal` accepts. -/
def validAttempt : Bool :=
  match expected with
  | none => host.bridge.admitted.isNone && host.bridge.pendingRenewal.isNone
  | some previous =>
    if previous = candidate then
      host.bridge.fence = some previous && host.bridge.pendingRenewal.isNone &&
        host.diskStateMatches previous true
    else
      host.bridge.admitted.isNone &&
        host.bridge.pendingRenewal = some ⟨previous, candidate⟩ &&
        host.diskStateMatches previous false

/-- What follows a failed `apply_renewal`. -/
def abandonRenewal : Option RenewalFence → Host
  | none => { host with phase := .idle, worker := .exited }
  | some expected => host.failRenewal expected

def renewedLease : AdmittedLease where
  fence := candidate
  refreshAt := host.clock + leaseRefreshAfter
  leaseExpiresAt := host.clock + leaseDuration

def renewedState : GatewayStateFile where
  bootId := host.bridge.bootId
  tenantId := candidate.tenantId
  gatewayEpoch := candidate.gatewayEpoch
  featureGeneration := candidate.featureGeneration
  exportGeneration := candidate.exportGeneration
  leaseExpiresAtUnixSeconds := host.unixSeconds + nfsGatewayLeaseSeconds
  draining := false

/-- `apply_renewal`, up to `write_state`. -/
def applyRenewal : Host :=
  if host.validAttempt expected candidate then
    { host with
      bridge :=
        if expected = some candidate then host.bridge
        else { host.bridge with sessions := .empty }
      phase := .renewing expected (host.renewedLease candidate)
        (host.renewedState candidate) }
  else host.abandonRenewal expected

def grant (lease : AdmittedLease) : Host :=
  { host with
    bridge :=
      { host.bridge with
        admitted := some lease
        pendingRenewal := none }
    phase := .idle
    worker := .idle }

/-- `write_state` of a renewal and the rest of `apply_renewal`. -/
def renewalWrite
    (lease : AdmittedLease) (state : GatewayStateFile) (outcome : WriteOutcome) : Host :=
  if outcome = .written then (host.write state outcome).grant lease
  else (host.write state outcome).abandonRenewal expected

/-- What follows `expire_state`. -/
def finishExpiry (succeeded : Bool) : Expiry → Host
  | .prepare expected candidate =>
    if succeeded then
      { host with phase := .idle, worker := .applying expected candidate }
    else host.failRenewal expected
  | .fail => { host with phase := .idle }

/-- `expire_state`, up to `write_state`. -/
def expiryRead (expiry : Expiry) : Host :=
  match host.disk.filter fun state =>
      state.bootId = host.bridge.bootId ∧ state.draining = false with
  | none => host.finishExpiry false expiry
  | some state => { host with phase := .expiring expiry state }

def expiryWrite (expiry : Expiry) (state : GatewayStateFile) (outcome : WriteOutcome) : Host :=
  (host.write { state with leaseExpiresAtUnixSeconds := 0 } outcome).finishExpiry
    (outcome = .written) expiry

/-- `drain`, up to `write_state`. -/
def drainRead : Host :=
  match host.disk.filter fun state => state.draining = false with
  | none => host
  | some state => { host with drain := some { state with draining := true } }

def drainWrite (state : GatewayStateFile) (outcome : WriteOutcome) : Host :=
  { host.write state outcome with
    drain := none
    drained := host.drained || outcome ≠ .failed }

/-- The serving process is up, and nobody holds the lock of the gateway. -/
def unlocked : Bool :=
  match host.phase, host.worker with
  | .idle, .starting | .idle, .exited => false
  | .idle, _ => true
  | _, _ => false

theorem phase_of_unlocked {host : Host} (h : host.unlocked) : host.phase = .idle := by
  rw [unlocked] at h
  split at h
  · cases h
  · cases h
  · assumption
  · cases h

def bindFsalSession (host : Host) (a : FsalAuthentication) : Host :=
  let bound := host.bridge.gateway.bindFsalSession host.unixSeconds a
  { host with bridge := host.bridge.setGateway bound.2 }

/-- `fsal_projection`, for what it leaves. -/
def fsalProjection : Host :=
  let kept := host.bridge.gateway.removeExpiredSessions host.unixSeconds
  { host with bridge := host.bridge.setGateway kept }

/-- One step; the error means that the event cannot happen. -/
def step (event : HostEvent) : Except Unit Host :=
  match event with
  | .tick nanoseconds => .ok { host with clock := host.clock + nanoseconds }
  | .setUnixSeconds unixSeconds => .ok { host with unixSeconds := unixSeconds }
  | .bootstrap candidate =>
    match host.phase, host.worker with
    | .idle, .starting => .ok (host.applyRenewal none candidate)
    | _, _ => .error ()
  | .request call requestId requestValid =>
    if host.unlocked then .ok (host.request call requestId requestValid)
    else .error ()
  | .answer answer =>
    match host.phase with
    | .forwarding call m lease state =>
      .ok (host.answer call m lease state answer)
    | _ => .error ()
  | .bindFsalSession a =>
    if host.unlocked then .ok (host.bindFsalSession a) else .error ()
  | .fsalProjection =>
    if host.unlocked then .ok host.fsalProjection else .error ()
  | .wake =>
    match host.phase, host.worker, host.renewalFence with
    | .idle, .idle, some expected => .ok { host with worker := .offering expected }
    | _, _, _ => .error ()
  | .offer candidate =>
    match host.phase, host.worker, candidate with
    | .idle, .offering expected, none => .ok (host.failRenewal expected)
    | .idle, .offering expected, some candidate =>
      .ok (host.prepareRenewal expected candidate)
    | _, _, _ => .error ()
  | .apply succeeds =>
    match host.phase, host.worker with
    | .idle, .applying expected candidate =>
      if succeeds then .ok (host.applyRenewal (some expected) candidate)
      else .ok (host.failRenewal expected)
    | _, _ => .error ()
  | .renewalWrite outcome =>
    match host.phase with
    | .renewing expected lease state =>
      .ok (host.renewalWrite expected lease state outcome)
    | _ => .error ()
  | .expiryRead =>
    match host.phase with
    | .fenced expiry => .ok (host.expiryRead expiry)
    | _ => .error ()
  | .expiryWrite outcome =>
    match host.phase with
    | .expiring expiry state => .ok (host.expiryWrite expiry state outcome)
    | _ => .error ()
  | .drainRead => .ok host.drainRead
  | .drainWrite outcome =>
    match host.drain with
    | some state => .ok (host.drainWrite state outcome)
    | none => .error ()

end Host

/-! ## What stays -/

theorem Bridge.fence_setGateway (b : Bridge) (g : Gateway) :
    (b.setGateway g).fence = b.fence ∨ (b.setGateway g).fence = none := by
  rw [Bridge.setGateway]
  split
  · exact .inl rfl
  · exact .inr rfl

/-- Nothing is written or forwarded, and the fence is kept or given up. -/
structure Host.Frame (host host' : Host) : Prop where
  disk : host'.disk = host.disk
  drain : host'.drain = host.drain
  drained : host'.drained = host.drained
  forwarded : host'.forwarded = host.forwarded
  fence : host'.bridge.fence = host.bridge.fence ∨ host'.bridge.fence = none

namespace Host.Frame

variable (host : Host)
include host

theorem setGateway (g : Gateway) : host.Frame { host with bridge := host.bridge.setGateway g } :=
  ⟨rfl, rfl, rfl, rfl, host.bridge.fence_setGateway g⟩

theorem failRenewal (expected : RenewalFence) : host.Frame (host.failRenewal expected) := by
  rw [Host.failRenewal]
  split
  · exact ⟨rfl, rfl, rfl, rfl, .inr rfl⟩
  split
  · exact ⟨rfl, rfl, rfl, rfl, .inr rfl⟩
  · exact ⟨rfl, rfl, rfl, rfl, .inl rfl⟩

theorem abandonRenewal (expected : Option RenewalFence) :
    host.Frame (host.abandonRenewal expected) := by
  cases expected with
  | none => exact ⟨rfl, rfl, rfl, rfl, .inl rfl⟩
  | some expected => exact failRenewal host expected

theorem prepareRenewal (expected candidate : RenewalFence) :
    host.Frame (host.prepareRenewal expected candidate) := by
  rw [Host.prepareRenewal]
  split
  · exact ⟨rfl, rfl, rfl, rfl, .inl rfl⟩
  split
  · have h := failRenewal { host with bridge := host.bridge.revoke } expected
    exact ⟨h.disk, h.drain, h.drained, h.forwarded, .inr (h.fence.elim id id)⟩
  split
  · exact ⟨rfl, rfl, rfl, rfl, .inl rfl⟩
  · exact ⟨rfl, rfl, rfl, rfl, .inr rfl⟩

theorem applyRenewal (expected : Option RenewalFence) (candidate : RenewalFence) :
    host.Frame (host.applyRenewal expected candidate) := by
  rw [Host.applyRenewal]
  split
  · refine ⟨rfl, rfl, rfl, rfl, .inl ?_⟩
    split
    · rfl
    · rfl
  · exact abandonRenewal host expected

theorem request (call : Call) (requestId : UuidText) (requestValid : Bool) :
    host.Frame (host.request call requestId requestValid) := by
  rw [Host.request]
  split
  · dsimp only
    split
    · exact ⟨rfl, rfl, rfl, rfl, .inl rfl⟩
    · exact setGateway host _
  · exact ⟨rfl, rfl, rfl, rfl, .inr rfl⟩

theorem finishExpiry (succeeded : Bool) (expiry : Expiry) :
    host.Frame (host.finishExpiry succeeded expiry) := by
  cases expiry with
  | prepare expected =>
    rw [Host.finishExpiry]
    split
    · exact ⟨rfl, rfl, rfl, rfl, .inl rfl⟩
    · exact failRenewal host expected
  | fail => exact ⟨rfl, rfl, rfl, rfl, .inl rfl⟩

theorem expiryRead (expiry : Expiry) : host.Frame (host.expiryRead expiry) := by
  rw [Host.expiryRead]
  split
  · exact finishExpiry host false expiry
  · exact ⟨rfl, rfl, rfl, rfl, .inl rfl⟩

end Host.Frame

namespace Host

variable (host : Host)

theorem write_eq (state : GatewayStateFile) (outcome : WriteOutcome) :
    host.write state outcome = { host with disk := (host.write state outcome).disk } := by
  cases outcome with
  | failed => rfl
  | unsynced => rfl
  | written => rfl

theorem bridge_write (state : GatewayStateFile)
    (outcome : WriteOutcome) : (host.write state outcome).bridge = host.bridge := by
  rw [write_eq]

theorem forwarded_write (state : GatewayStateFile) (outcome : WriteOutcome) :
    (host.write state outcome).forwarded = host.forwarded := by
  rw [write_eq]

theorem drainRead_eq : host.drainRead = { host with drain := host.drainRead.drain } := by
  rw [drainRead]
  split
  · rfl
  · rfl

/-- What each event that can happen does. -/
inductive Takes (host : Host) : HostEvent → Host → Prop
  | tick (nanoseconds : ℕ) : Takes host (.tick nanoseconds)
        { host with clock := host.clock + nanoseconds }
  | setUnixSeconds (unixSeconds : ℤ) : Takes host (.setUnixSeconds unixSeconds)
        { host with unixSeconds := unixSeconds }
  | bootstrap (candidate : RenewalFence) (hphase : host.phase = .idle)
      (hworker : host.worker = .starting) :
      Takes host (.bootstrap candidate) (host.applyRenewal none candidate)
  | request (call : Call) (requestId : UuidText) (requestValid : Bool)
      (hunlocked : host.unlocked) :
      Takes host (.request call requestId requestValid) (host.request call requestId requestValid)
  | answer {call : Call} {m : Moment} {lease : AdmittedLease}
      {state : GatewayStateFile} (reply : Option VfsAnswer)
      (hphase : host.phase = .forwarding call m lease state) :
      Takes host (.answer reply) (host.answer call m lease state reply)
  | bindFsalSession (a : FsalAuthentication) (hunlocked : host.unlocked) :
      Takes host (.bindFsalSession a) (host.bindFsalSession a)
  | fsalProjection (hunlocked : host.unlocked) :
      Takes host .fsalProjection host.fsalProjection
  | wake {expected : RenewalFence} (hphase : host.phase = .idle) (hworker : host.worker = .idle) :
      Takes host .wake { host with worker := .offering expected }
  | offerFailed {expected : RenewalFence} (hphase : host.phase = .idle)
      (hworker : host.worker = .offering expected) :
      Takes host (.offer none) (host.failRenewal expected)
  | offered {expected : RenewalFence} (candidate : RenewalFence)
      (hphase : host.phase = .idle) (hworker : host.worker = .offering expected) :
      Takes host (.offer (some candidate)) (host.prepareRenewal expected candidate)
  | applied {expected candidate : RenewalFence} (hphase : host.phase = .idle)
      (hworker : host.worker = .applying expected candidate) :
      Takes host (.apply true) (host.applyRenewal (some expected) candidate)
  | applyFailed {expected candidate : RenewalFence} (hphase : host.phase = .idle)
      (hworker : host.worker = .applying expected candidate) :
      Takes host (.apply false) (host.failRenewal expected)
  | renewalWrite {expected : Option RenewalFence} {lease : AdmittedLease}
      {state : GatewayStateFile} (outcome : WriteOutcome)
      (hphase : host.phase = .renewing expected lease state) :
      Takes host (.renewalWrite outcome) (host.renewalWrite expected lease state outcome)
  | expiryRead {expiry : Expiry} (hphase : host.phase = .fenced expiry) :
      Takes host .expiryRead (host.expiryRead expiry)
  | expiryWrite {expiry : Expiry} {state : GatewayStateFile}
      (outcome : WriteOutcome) (hphase : host.phase = .expiring expiry state) :
      Takes host (.expiryWrite outcome) (host.expiryWrite expiry state outcome)
  | drainRead : Takes host .drainRead host.drainRead
  | drainWrite {state : GatewayStateFile} (outcome : WriteOutcome)
      (hdrain : host.drain = some state) :
      Takes host (.drainWrite outcome) (host.drainWrite state outcome)

theorem takes_of_step {host host' : Host} {event : HostEvent}
    (h : host.step event = .ok host') : host.Takes event host' := by
  rw [step.eq_def] at h
  cases event with dsimp only at h
  | tick nanoseconds =>
    cases h
    exact .tick nanoseconds
  | setUnixSeconds unixSeconds =>
    cases h
    exact .setUnixSeconds unixSeconds
  | bootstrap candidate =>
    split at h
    · cases h
      exact .bootstrap candidate (by assumption) (by assumption)
    · cases h
  | request call requestId requestValid =>
    split at h
    · next hunlocked =>
      cases h
      exact .request call requestId requestValid hunlocked
    · cases h
  | answer reply =>
    split at h
    · next hphase =>
      cases h
      exact .answer reply hphase
    · cases h
  | bindFsalSession a =>
    split at h
    · next hunlocked =>
      cases h
      exact .bindFsalSession a hunlocked
    · cases h
  | fsalProjection =>
    split at h
    · next hunlocked =>
      cases h
      exact .fsalProjection hunlocked
    · cases h
  | wake =>
    split at h
    · next hphase hworker _ =>
      cases h
      exact .wake hphase hworker
    · cases h
  | offer candidate =>
    split at h
    · next hphase hworker =>
      cases h
      exact .offerFailed hphase hworker
    · next hphase hworker =>
      cases h
      exact .offered _ hphase hworker
    · cases h
  | apply succeeds =>
    split at h
    · next hphase hworker =>
      cases succeeds with
      | false =>
        cases h
        exact .applyFailed hphase hworker
      | true =>
        cases h
        exact .applied hphase hworker
    · cases h
  | renewalWrite outcome =>
    split at h
    · next hphase =>
      cases h
      exact .renewalWrite outcome hphase
    · cases h
  | expiryRead =>
    split at h
    · next hphase =>
      cases h
      exact .expiryRead hphase
    · cases h
  | expiryWrite outcome =>
    split at h
    · next hphase =>
      cases h
      exact .expiryWrite outcome hphase
    · cases h
  | drainRead =>
    cases h
    exact .drainRead
  | drainWrite outcome =>
    split at h
    · next hdrain =>
      cases h
      exact .drainWrite outcome hdrain
    · cases h

end Host

/-- The event forwards nothing, grants no fence and is not one of the drain command. -/
def HostEvent.framed : HostEvent → Bool
  | .answer _ | .renewalWrite .written | .drainRead | .drainWrite _ => false
  | _ => true

theorem Host.frame_step {host host' : Host} {event : HostEvent}
    (hstep : host.step event = .ok host') (hframed : event.framed) :
    { host with disk := host'.disk }.Frame host' := by
  have hkept : ∀ {after}, host.Frame after → { host with disk := after.disk }.Frame after :=
    fun h => ⟨rfl, h.drain, h.drained, h.forwarded, h.fence⟩
  have hwritten : ∀ {state outcome after}, (host.write state outcome).Frame after →
      { host with disk := after.disk }.Frame after := by
    intro state outcome after h
    rw [write_eq] at h
    exact ⟨rfl, h.drain, h.drained, h.forwarded, h.fence⟩
  cases takes_of_step hstep with
  | answer => cases hframed
  | bootstrap candidate => exact hkept (.applyRenewal host none candidate)
  | request call requestId requestValid => exact hkept (.request host call requestId requestValid)
  | bindFsalSession => exact hkept (.setGateway host _)
  | fsalProjection => exact hkept (.setGateway host _)
  | offerFailed => exact hkept (.failRenewal host _)
  | offered candidate => exact hkept (.prepareRenewal host _ candidate)
  | applied => exact hkept (.applyRenewal host _ _)
  | applyFailed => exact hkept (.failRenewal host _)
  | @renewalWrite expected lease state outcome =>
    cases outcome with
    | written => cases hframed
    | _ => exact hwritten (.abandonRenewal (host.write state _) expected)
  | expiryRead => exact hkept (.expiryRead host _)
  | expiryWrite outcome => exact hwritten (.finishExpiry (host.write _ outcome) _ _)
  | drainRead => cases hframed
  | drainWrite => cases hframed
  | _ => exact ⟨rfl, rfl, rfl, rfl, .inl rfl⟩

end FileBelt.Nfs
