import FileBelt.Nfs.Lifecycle

/-!
# The drain command

The drain command puts its marker into the state file, which the serving process finds
whenever it checks the file.  A renewal that has already passed its check puts a file
without the marker in its place.
-/

namespace FileBelt.Nfs

open Support Support.Protobuf

/-- A check of the state file has passed, and something follows from it. -/
def Phase.committed : Phase → Bool
  | .forwarding _ _ _ _ | .renewing _ _ _ | .expiring _ _ => true
  | .idle | .fenced _ => false

variable {event : HostEvent}

namespace Host

variable {host host' : Host}

/-- The state file carries the marker of the drain command. -/
def draining (host : Host) : Bool := host.disk.any GatewayStateFile.draining

/-- The serving process is up and has no passed check to follow up. -/
structure Settled (host : Host) : Prop where
  phase : host.phase.committed = false
  worker : host.worker ≠ .starting

theorem settled_failRenewal (host : Host) (expected : RenewalFence) :
    (host.failRenewal expected).Settled := by
  rw [failRenewal]
  split
  · exact ⟨rfl, by rintro ⟨⟩⟩
  split
  · exact ⟨rfl, by rintro ⟨⟩⟩
  · exact ⟨rfl, by rintro ⟨⟩⟩

theorem settled_finishExpiry (h : host.worker ≠ .starting) (succeeded : Bool)
    (expiry : Expiry) : (host.finishExpiry succeeded expiry).Settled := by
  cases expiry with
  | prepare expected =>
    rw [finishExpiry]
    split
    · exact ⟨rfl, by rintro ⟨⟩⟩
    · exact host.settled_failRenewal expected
  | fail => exact ⟨rfl, h⟩

theorem Settled.prepareRenewal (h : host.Settled) (expected candidate : RenewalFence) :
    (host.prepareRenewal expected candidate).Settled := by
  rw [Host.prepareRenewal]
  split
  · exact ⟨h.phase, by rintro ⟨⟩⟩
  split
  · exact settled_failRenewal _ expected
  split
  · exact ⟨h.phase, by rintro ⟨⟩⟩
  · exact ⟨rfl, h.worker⟩

/-! ## A file with the marker -/

theorem diskStateMatches_of_draining (h : host.draining) (fence : RenewalFence)
    (requireLiveLease : Bool) : host.diskStateMatches fence requireLiveLease = false := by
  rw [diskStateMatches]
  cases hdisk : host.disk with
  | none => rfl
  | some =>
    rw [draining, hdisk, Option.any_some] at h
    rw [Option.any_some, decide_eq_false_iff_not]
    rintro ⟨-, -, hopen, -⟩
    rw [h] at hopen
    cases hopen

theorem Settled.request (h : host.Settled) (hdraining : host.draining)
    (call : Call) (requestId : UuidText) (requestValid : Bool) :
    (host.request call requestId requestValid).Settled := by
  rw [Host.request]
  split
  · next lease state hlease hstate =>
    have hadmits : host.bridge.gateway.admits
        (host.moment lease requestId requestValid) = false := by
      have hmatches : (host.moment lease requestId requestValid).diskStateMatches = false :=
        diskStateMatches_of_draining hdraining lease.fence true
      rw [Gateway.admits, Gateway.admittedAt, hmatches]
      simp
    dsimp only
    rw [hadmits]
    exact ⟨h.phase, h.worker⟩
  · exact ⟨h.phase, h.worker⟩

theorem settled_applyRenewal (hdraining : host.draining) (expected candidate : RenewalFence) :
    (host.applyRenewal (some expected) candidate).Settled := by
  have hinvalid : host.validAttempt (some expected) candidate = false := by
    rw [validAttempt]
    split
    · rw [diskStateMatches_of_draining hdraining, Bool.and_false]
    · rw [diskStateMatches_of_draining hdraining, Bool.and_false]
  rw [applyRenewal, hinvalid]
  exact host.settled_failRenewal expected

theorem settled_expiryRead (h : host.worker ≠ .starting)
    (hdraining : host.draining) (expiry : Expiry) : (host.expiryRead expiry).Settled := by
  have hnone : (host.disk.filter fun state =>
      state.bootId = host.bridge.bootId ∧ state.draining = false) = none := by
    apply Option.filter_eq_none_iff.mpr
    intro state hstate hopen
    rw [draining, hstate, Option.any_some] at hdraining
    have hfalse := (of_decide_eq_true hopen).2
    rw [hdraining] at hfalse
    cases hfalse
  rw [expiryRead, hnone]
  exact settled_finishExpiry h false expiry

/-! ## Runs -/

/-- The marker is in the file, and nothing will take it away. -/
structure Final (host : Host) : Prop extends host.Settled where
  draining : host.draining
  drain : host.drain.all GatewayStateFile.draining

theorem Final.frame (h : host.Final) (hframe : host.Frame host')
    (hsettled : host'.Settled) : host'.Final ∧ host'.forwarded = host.forwarded := by
  refine ⟨⟨hsettled, ?_, ?_⟩, hframe.forwarded⟩
  · rw [Host.draining, hframe.disk]
    exact h.draining
  · rw [hframe.drain]
    exact h.drain

/-- The drain command writes its marker while nothing follows from a check. -/
theorem Settled.drainWrite (h : host.Settled) {state : GatewayStateFile} (hmarker : state.draining)
    {outcome : WriteOutcome} (hdraining : outcome = .failed → host.draining) :
    (host.drainWrite state outcome).Final := by
  cases outcome with
  | failed => exact ⟨⟨h.phase, h.worker⟩, hdraining rfl, rfl⟩
  | unsynced => exact ⟨⟨h.phase, h.worker⟩, hmarker, rfl⟩
  | written => exact ⟨⟨h.phase, h.worker⟩, hmarker, rfl⟩

theorem drain_drainRead (h : host.drain.all GatewayStateFile.draining) :
    host.drainRead.drain.all GatewayStateFile.draining := by
  rw [drainRead]
  split
  · exact h
  · rfl

/-- Once the marker is there, no step removes it or forwards anything. -/
theorem Final.step (h : host.Final) (hstep : host.step event = .ok host') :
    host'.Final ∧ host'.forwarded = host.forwarded := by
  have hsame : ∀ {phase : Phase}, host.phase = phase → phase.committed = false :=
    fun heq => heq ▸ h.phase
  cases takes_of_step hstep with
  | tick => exact ⟨⟨⟨h.phase, h.worker⟩, h.draining, h.drain⟩, rfl⟩
  | setUnixSeconds => exact ⟨⟨⟨h.phase, h.worker⟩, h.draining, h.drain⟩, rfl⟩
  | bootstrap candidate hphase hworker => exact absurd hworker h.worker
  | request call requestId requestValid =>
    exact h.frame (.request host call requestId requestValid)
      (h.request h.draining call requestId requestValid)
  | answer reply hphase => cases hsame hphase
  | bindFsalSession =>
    exact h.frame (.setGateway host _) ⟨h.phase, h.worker⟩
  | fsalProjection => exact h.frame (.setGateway host _) ⟨h.phase, h.worker⟩
  | wake => exact ⟨⟨⟨h.phase, by rintro ⟨⟩⟩, h.draining, h.drain⟩, rfl⟩
  | offerFailed => exact h.frame (.failRenewal host _) (host.settled_failRenewal _)
  | offered candidate =>
    exact h.frame (.prepareRenewal host _ candidate) (h.prepareRenewal _ candidate)
  | applied =>
    exact h.frame (.applyRenewal host _ _) (settled_applyRenewal h.draining _ _)
  | applyFailed => exact h.frame (.failRenewal host _) (host.settled_failRenewal _)
  | renewalWrite outcome hphase => cases hsame hphase
  | expiryRead =>
    exact h.frame (.expiryRead host _) (settled_expiryRead h.worker h.draining _)
  | expiryWrite outcome hphase => cases hsame hphase
  | drainRead =>
    have hdrain := drain_drainRead h.drain
    rw [host.drainRead_eq]
    exact ⟨⟨⟨h.phase, h.worker⟩, h.draining, hdrain⟩, rfl⟩
  | @drainWrite state outcome hdrain =>
    have hmarker := h.drain
    rw [hdrain] at hmarker
    exact ⟨h.drainWrite hmarker fun _ => h.draining, host.forwarded_write _ _⟩

theorem Final.run (h : host.Final) (events : List HostEvent) :
    (run Host.step host events).Final ∧ (run Host.step host events).forwarded = host.forwarded :=
  run_invariant
    (I := fun after => after.Final ∧ after.forwarded = host.forwarded) (C := fun _ _ => True)
    (fun _ _ _ ⟨hbefore, hsame⟩ _ hstep =>
      have ⟨hafter, hforwarded⟩ := hbefore.step hstep
      ⟨hafter, hforwarded.trans hsame⟩)
    ⟨h, rfl⟩ (meets_true host events)

/-- The drain command writes only while the serving process is up and has no
passed check to follow up. -/
def Undisturbed (host : Host) : HostEvent → Prop
  | .drainWrite _ => host.Settled
  | _ => True

/-- What the drain command has persisted is final. -/
structure Orderly (host : Host) : Prop where
  drain : host.drain.all GatewayStateFile.draining
  final : host.drained → host.Final

theorem Orderly.step (h : host.Orderly) (hevent : host.Undisturbed event)
    (hstep : host.step event = .ok host') : host'.Orderly := by
  cases hdrained : host.drained with
  | true =>
    have hfinal := ((h.final hdrained).step hstep).1
    exact ⟨hfinal.drain, fun _ => hfinal⟩
  | false =>
    have hkept : host'.drain = host.drain → host'.drained = host.drained → host'.Orderly := by
      intro hdrain hsame
      refine ⟨hdrain ▸ h.drain, ?_⟩
      rw [hsame, hdrained]
      rintro ⟨⟩
    cases takes_of_step hstep with
    | answer => exact hkept rfl rfl
    | @renewalWrite expected lease state outcome =>
      cases outcome with
      | written => exact hkept rfl rfl
      | _ => exact hkept (frame_step hstep rfl).drain (frame_step hstep rfl).drained
    | drainRead =>
      refine ⟨drain_drainRead h.drain, ?_⟩
      rw [drainRead_eq, hdrained]
      rintro ⟨⟩
    | @drainWrite state outcome hdrain =>
      have hmarker := h.drain
      rw [hdrain] at hmarker
      refine ⟨rfl, fun hmarked => hevent.drainWrite hmarker ?_⟩
      rintro rfl
      rw [Host.drainWrite, hdrained] at hmarked
      cases hmarked
    | _ => exact hkept (frame_step hstep rfl).drain (frame_step hstep rfl).drained

end Host

/-- Where the drain command has persisted its marker while the serving process had
no passed check to follow up, the marker stays, and no operation is forwarded any
more. -/
theorem drain_is_final (bootId : Uuid) (kerberosRealm : List Byte)
    (disk : Option GatewayStateFile) (clock : ℕ) (unixSeconds : ℤ)
    {before : List HostEvent}
    (hbefore : Meets Host.step Host.Undisturbed
      (Host.start bootId kerberosRealm disk clock unixSeconds) before)
    (hdrained : (run Host.step
      (Host.start bootId kerberosRealm disk clock unixSeconds) before).drained =
        true) (after : List HostEvent) :
    let drained := run Host.step
      (Host.start bootId kerberosRealm disk clock unixSeconds) before
    (run Host.step drained after).draining ∧
      (run Host.step drained after).forwarded = drained.forwarded := by
  have horderly : (run Host.step
      (Host.start bootId kerberosRealm disk clock unixSeconds) before).Orderly :=
    run_invariant (fun _ _ _ h hevent hstep => h.step hevent hstep) ⟨rfl, by rintro ⟨⟩⟩ hbefore
  obtain ⟨hfinal, hforwarded⟩ := (horderly.final hdrained).run after
  exact ⟨hfinal.draining, hforwarded⟩

/-! ## A drain during a renewal -/

def drainFence : RenewalFence := ⟨1, 9, 1, 4⟩

def drainStart : Host := Host.start 5 (ascii "EXAMPLE.COM") none 0 1800000000

/-- An authentication, which the gateway forwards if it is admitted. -/
def drainCall : List HostEvent :=
  [.request (.authenticate aliceAuthentication) sampleUuid true, .answer none]

/-- A renewal of the lease, up to its write. -/
def drainRenewal : List HostEvent :=
  [.tick leaseRefreshAfter, .wake, .offer (some drainFence), .apply true]

/-- The drain command runs while the gateway is admitted. -/
def drainAdmitted : List HostEvent :=
  [.bootstrap drainFence, .renewalWrite .written, .drainRead, .drainWrite .written]

/-- Neither a renewal nor a call gets through after that. -/
theorem drain_before_renewal :
    (run Host.step drainStart (drainAdmitted ++
      (drainRenewal ++ [.renewalWrite .written] ++ drainCall))).forwarded = [] := by
  have hbefore : Meets Host.step Host.Undisturbed drainStart drainAdmitted :=
    ⟨trivial, trivial, trivial, ⟨rfl, by rintro ⟨⟩⟩, trivial⟩
  exact (drain_is_final 5 (ascii "EXAMPLE.COM") none 0 1800000000 hbefore rfl
    (drainRenewal ++ [.renewalWrite .written] ++ drainCall)).2

/-- The drain command runs between the check of a renewal and its write. -/
theorem drain_is_overwritten :
    let host := run Host.step drainStart
      ([.bootstrap drainFence, .renewalWrite .written] ++ drainRenewal ++
        [.drainRead, .drainWrite .written, .renewalWrite .written] ++ drainCall)
    host.drained ∧ host.draining = false ∧ host.forwarded.length = 1 := by
  decide +kernel

end FileBelt.Nfs
