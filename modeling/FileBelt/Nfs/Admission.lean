import FileBelt.Nfs.Lifecycle

/-!
# Sessions and their fence

What the gateway keeps for a context was opened by the VFS in answer to an
authentication that was forwarded under the fence of the present admission, and
what it forwards has passed the checks on the lease and the state file.
-/

namespace FileBelt.Nfs

open Support Support.Protobuf

/-! ## Sessions that a call leaves -/

/-- The session that the answer grants, whatever NFS session it has been bound to since. -/
structure VfsAnswer.Grants (answer : VfsAnswer) (featureGeneration : UInt64)
    (binding : List Byte) (s : SessionFence) : Prop where
  granted : answer.response.error = .ok
  gssBinding : s.gssBinding = binding
  sessionId : s.sessionId = answer.response.sessionId
  credentialGeneration : s.credentialGeneration = answer.response.credentialGeneration
  authorizationGeneration : s.authorizationGeneration = answer.response.authorizationGeneration
  projection : answer.response.nfsSessionProjection = some s.projection
  featureGeneration : s.projection.featureGeneration = featureGeneration

def Opening.Opens (o : Opening) (s : SessionFence) : Prop :=
  o.answer.Grants o.fence.featureGeneration o.gssBinding s

section

variable {g : Gateway} {m : Moment} {a : FsalAuthentication}

theorem mem_removeExpiredSessions {now : ℤ} {s : SessionFence}
    (h : s ∈ (g.removeExpiredSessions now).sessions.rows) : s ∈ g.sessions.rows :=
  List.mem_of_mem_filter h

theorem handleFilesystem_leaves (g : Gateway) (m : Moment) (a : FsalAuthentication) :
    (g.handleFilesystem m a).2 = g.close ∨ ((g.handleFilesystem m a).2.admitted = g.admitted ∧
        ∀ s ∈ (g.handleFilesystem m a).2.sessions.rows, s ∈ g.sessions.rows) := by
  have hkept : ∀ s ∈ (g.removeExpiredSessions m.unixSeconds).sessions.rows,
      s ∈ g.sessions.rows := fun _ => mem_removeExpiredSessions
  rcases handleFilesystem_cases g m a with ⟨-, heq⟩ | ⟨-, -, heq⟩ | ⟨-, -, heq⟩
  · rw [heq]
    exact .inl rfl
  · rw [heq]
    exact .inr ⟨rfl, hkept⟩
  · rw [heq]
    refine .inr ?_
    dsimp only
    split
    · exact ⟨rfl, hkept⟩
    · exact ⟨rfl, fun s hs => hkept s (List.mem_of_mem_filter hs)⟩

theorem admitSession_cases (state : AdmittedState) (now : ℤ) {answer : VfsAnswer}
    (hok : answer.response.error = .ok) :
    (g.admitSession state now a answer).2.admitted = g.admitted ∧
      ∀ s ∈ (g.admitSession state now a answer).2.sessions.rows, s ∈ g.sessions.rows ∨
          answer.Grants state.featureGeneration a.gssBindingDigest s := by
  unfold Gateway.admitSession
  split
  · exact ⟨rfl, fun s hs => .inl hs⟩
  next p hp =>
  split
  · exact ⟨rfl, fun s hs => .inl hs⟩
  next haccepts =>
  dsimp only
  split
  · exact ⟨rfl, fun s hs => .inl (mem_removeExpiredSessions hs)⟩
  refine ⟨rfl, fun s hs => ?_⟩
  rcases List.mem_append.mp hs with hold | hnew
  · exact .inl (mem_removeExpiredSessions (List.mem_of_mem_filter hold))
  · right
    rw [List.mem_singleton.mp hnew]
    have hgeneration : p.featureGeneration = state.featureGeneration := by
      rw [not_not, AdmittedState.accepts, Bool.and_eq_true] at haccepts
      exact beq_iff_eq.mp haccepts.2
    exact ⟨hok, rfl, rfl, rfl, rfl, hp, hgeneration⟩

/-- An authentication opens the session that the VFS grants. -/
theorem handleAuthenticate_cases (g : Gateway) (m : Moment) (a : FsalAuthentication) :
    (g.handleAuthenticate m a).2 = g.close ∨ ((g.handleAuthenticate m a).2.admitted = g.admitted ∧
        ∀ s ∈ (g.handleAuthenticate m a).2.sessions.rows, s ∈ g.sessions.rows ∨
          ∃ answer state, m.answer = some answer ∧ g.admitted = some state ∧
            answer.Grants state.featureGeneration a.gssBindingDigest s) := by
  unfold Gateway.handleAuthenticate
  split
  · exact .inl rfl
  next state hstate =>
  have hadmitted : g.admitted = some state := (Option.filter_eq_some_iff.mp hstate).1
  right
  split
  · exact ⟨rfl, fun s hs => .inl hs⟩
  split
  · exact ⟨rfl, fun s hs => .inl hs⟩
  split
  · exact ⟨rfl, fun s hs => .inl hs⟩
  next answer hanswer =>
  split
  · next hok =>
    obtain ⟨hsame, hrows⟩ := @admitSession_cases g a state m.unixSeconds answer hok
    have hgoal : (g.admitSession state m.unixSeconds a answer).2.admitted = g.admitted ∧
        ∀ s ∈ (g.admitSession state m.unixSeconds a answer).2.sessions.rows,
          s ∈ g.sessions.rows ∨ ∃ answer state, m.answer = some answer ∧ g.admitted = some state ∧
              answer.Grants state.featureGeneration a.gssBindingDigest s := by
      refine ⟨hsame, fun s hs => (hrows s hs).imp_right fun hgrants => ?_⟩
      exact ⟨answer, state, hanswer, hadmitted, hgrants⟩
    generalize g.admitSession state m.unixSeconds a answer = admitted at hgoal ⊢
    obtain ⟨accepted, _⟩ := admitted
    cases accepted with
    | false => exact hgoal
    | true => exact hgoal
  · exact ⟨rfl, fun s hs => .inl hs⟩

theorem bindFsalSession_cases (g : Gateway) (now : ℤ) (a : FsalAuthentication) :
    (g.bindFsalSession now a).2.admitted = g.admitted ∧
      ∀ s ∈ (g.bindFsalSession now a).2.sessions.rows, ∃ old ∈ g.sessions.rows, ∃ client session,
          s = { old with nfsClientId := client, nfsSessionId := session } := by
  have hkept : ∀ s ∈ (g.removeExpiredSessions now).sessions.rows,
      ∃ old ∈ g.sessions.rows, ∃ client session,
        s = { old with nfsClientId := client, nfsSessionId := session } :=
    fun s hs => ⟨s, mem_removeExpiredSessions hs, _, _, rfl⟩
  unfold Gateway.bindFsalSession
  dsimp only
  split
  · exact ⟨rfl, hkept⟩
  split
  · refine ⟨rfl, fun s hs => ?_⟩
    obtain ⟨old, hold, rfl⟩ := List.mem_map.mp hs
    refine ⟨old, mem_removeExpiredSessions hold, ?_⟩
    split
    · exact ⟨_, _, rfl⟩
    · exact ⟨_, _, rfl⟩
  · exact ⟨rfl, hkept⟩
  · exact ⟨rfl, hkept⟩

end

/-! ## The invariant -/

/-- Every session was opened under the fence of the admission. -/
def Bridge.Bound (b : Bridge) (opened : List Opening) : Prop :=
  ∀ s ∈ b.sessions.rows, ∃ lease, b.admitted = some lease ∧
    ∃ o ∈ opened, o.fence = lease.fence ∧ o.Opens s

namespace Bridge.Bound

variable {b b' : Bridge} {opened : List Opening}

theorem of_empty (h : b.sessions = .empty) : b.Bound opened := by
  intro s hs
  rw [h] at hs
  cases hs

/-- The sessions stay, or become fewer, under the same fence. -/
theorem mono (h : b.Bound opened) (hfence : b'.fence = b.fence)
    (hsessions : ∀ s ∈ b'.sessions.rows, s ∈ b.sessions.rows) : b'.Bound opened := by
  intro s hs
  obtain ⟨_, hlease, o, ho, hsame, hopens⟩ := h s (hsessions s hs)
  rw [Bridge.fence, Bridge.fence, hlease] at hfence
  obtain ⟨lease', hlease', hfence'⟩ := Option.map_eq_some_iff.mp hfence
  exact ⟨lease', hlease', o, ho, hsame.trans hfence'.symm, hopens⟩

theorem append (h : b.Bound opened) (more : List Opening) : b.Bound (opened ++ more) := by
  intro s hs
  obtain ⟨lease, hlease, o, ho, hopens⟩ := h s hs
  exact ⟨lease, hlease, o, List.mem_append_left more ho, hopens⟩

end Bridge.Bound

theorem Bridge.setGateway_admitted {b : Bridge} {g : Gateway}
    (h : g.admitted = b.gateway.admitted) : (b.setGateway g).admitted = b.admitted := by
  rw [Bridge.setGateway, h, Bridge.gateway]
  cases b.admitted with
  | none => rfl
  | some => rfl

/-- What a call leaves, with the session that it may have opened. -/
theorem Bridge.Bound.handle {b : Bridge} {opened : List Opening}
    {lease : AdmittedLease} (h : b.Bound opened) (hlease : b.admitted = some lease)
    (m : Moment) (call : Call) (answer : Option VfsAnswer) :
    (b.setGateway (call.handle b.gateway { m with answer := answer }).2).Bound
      (opened ++ Host.openings lease call answer) := by
  have hclosed : ∀ g : Gateway, (b.setGateway g.close).Bound
      (opened ++ Host.openings lease call answer) := fun g => .of_empty rfl
  cases call with
  | filesystem a =>
    rcases handleFilesystem_leaves b.gateway { m with answer := answer } a with
      heq | ⟨hadmitted, hrows⟩
    · rw [Call.handle, heq]
      exact hclosed b.gateway
    · refine (h.mono ?_ hrows).append _
      exact congrArg (Option.map AdmittedLease.fence) (Bridge.setGateway_admitted hadmitted)
  | authenticate a =>
    rcases handleAuthenticate_cases b.gateway { m with answer := answer } a with
      heq | ⟨hadmitted, hrows⟩
    · rw [Call.handle, heq]
      exact hclosed b.gateway
    · have hadmitted' := Bridge.setGateway_admitted hadmitted
      intro s hs
      rcases hrows s hs with hold | ⟨answer', state, hanswer, hstate, hgrants⟩
      · obtain ⟨lease', hlease', o, ho, hopens⟩ := h s hold
        exact ⟨lease', hadmitted'.trans hlease', o, List.mem_append_left _ ho, hopens⟩
      · refine ⟨lease, hadmitted'.trans hlease,
          ⟨lease.fence, a.gssBindingDigest, answer'⟩, ?_, rfl, ?_⟩
        · apply List.mem_append_right
          change answer = some answer' at hanswer
          rw [hanswer, Host.openings, if_pos hgrants.granted]
          exact List.mem_singleton_self _
        · rw [Bridge.gateway, hlease] at hstate
          obtain rfl := Option.some.inj hstate
          exact hgrants

/-- A request was forwarded as it should be: when it was checked, the lease had
not expired, the state file was not draining and agreed with the admission, and
the session of a file-system operation had been opened under the same fence. -/
structure Forwarded.Sound (f : Forwarded) (bootId : Uuid) (opened : List Opening) : Prop where
  unexpired : f.instant < f.lease.leaseExpiresAt
  state : f.state.Matches bootId f.lease.fence true f.unixSeconds
  session : ∀ a, f.call = .filesystem a → ∃ s, f.session = some s ∧
    s.boundTo a ∧ ∃ o ∈ opened, o.fence = f.lease.fence ∧ o.Opens s

theorem Forwarded.Sound.append {f : Forwarded} {bootId : Uuid} {opened : List Opening}
    (h : f.Sound bootId opened) (more : List Opening) : f.Sound bootId (opened ++ more) where
  unexpired := h.unexpired
  state := h.state
  session a hcall := by
    obtain ⟨s, hs, hbound, o, ho, hopens⟩ := h.session a hcall
    exact ⟨s, hs, hbound, o, List.mem_append_left more ho, hopens⟩

/-- What a phase has checked still holds of the memory of the process. -/
def Phase.Sound (host : Host) : Phase → Prop
  | .forwarding call m lease state =>
    host.bridge.admitted = some lease ∧
      Forwarded.Sound ⟨lease, call, call.session host.bridge.gateway m, m.instant,
        m.unixSeconds, state⟩ host.bridge.bootId host.opened
  | .renewing _ lease _ =>
    host.bridge.sessions = .empty ∨ host.bridge.fence = some lease.fence
  | .idle | .fenced _ | .expiring _ _ => True

structure Host.Faithful (host : Host) : Prop where
  bound : host.bridge.Bound host.opened
  forwarded : ∀ f ∈ host.forwarded, f.Sound host.bridge.bootId host.opened

structure Host.Consistent (host : Host) : Prop extends Host.Faithful host where
  phase : host.phase.Sound host

namespace Host.Faithful

variable {host : Host} (h : host.Faithful)
include h

/-- Admission is revoked, whatever else changes in the memory of the process. -/
theorem revoke {b : Bridge} (hboot : b.bootId = host.bridge.bootId)
    (hempty : b.sessions = .empty) : { host with bridge := b }.Faithful where
  bound := .of_empty hempty
  forwarded f hf := by
    rw [hboot]
    exact h.forwarded f hf

theorem failRenewal (expected : RenewalFence) : (host.failRenewal expected).Consistent := by
  rw [Host.failRenewal]
  split
  · exact ⟨⟨.of_empty rfl, h.forwarded⟩, trivial⟩
  split
  · exact ⟨⟨.of_empty rfl, h.forwarded⟩, trivial⟩
  · exact ⟨⟨h.bound, h.forwarded⟩, trivial⟩

theorem abandonRenewal (expected : Option RenewalFence) :
    (host.abandonRenewal expected).Consistent := by
  cases expected with
  | none => exact ⟨⟨h.bound, h.forwarded⟩, trivial⟩
  | some expected => exact h.failRenewal expected

theorem write (state : GatewayStateFile)
    (outcome : WriteOutcome) : (host.write state outcome).Faithful := by
  cases outcome with
  | failed => exact h
  | unsynced => exact ⟨h.bound, h.forwarded⟩
  | written => exact ⟨h.bound, h.forwarded⟩

theorem finishExpiry (succeeded : Bool) (expiry : Expiry) :
    (host.finishExpiry succeeded expiry).Consistent := by
  cases expiry with
  | prepare expected candidate =>
    rw [Host.finishExpiry]
    split
    · exact ⟨⟨h.bound, h.forwarded⟩, trivial⟩
    · exact h.failRenewal expected
  | fail => exact ⟨⟨h.bound, h.forwarded⟩, trivial⟩

theorem prepareRenewal (hphase : host.phase = .idle)
    (expected candidate : RenewalFence) : (host.prepareRenewal expected candidate).Consistent := by
  have hrevoked : { host with bridge := host.bridge.revoke }.Faithful := h.revoke rfl rfl
  rw [Host.prepareRenewal]
  split
  · exact ⟨⟨h.bound, h.forwarded⟩, by rw [hphase]; trivial⟩
  split
  · exact hrevoked.failRenewal expected
  split
  · exact ⟨⟨h.bound, h.forwarded⟩, by rw [hphase]; trivial⟩
  · exact ⟨⟨.of_empty rfl, h.forwarded⟩, trivial⟩

/-- A valid attempt keeps the sessions only under the fence that it renews. -/
theorem applyRenewal (expected : Option RenewalFence)
    (candidate : RenewalFence) : (host.applyRenewal expected candidate).Consistent := by
  rw [Host.applyRenewal]
  split
  · next hvalid =>
    by_cases hsame : expected = some candidate
    · subst hsame
      rw [if_pos rfl]
      refine ⟨⟨h.bound, h.forwarded⟩, .inr ?_⟩
      rw [Host.validAttempt, if_pos rfl] at hvalid
      simp only [Bool.and_eq_true, decide_eq_true_eq] at hvalid
      exact hvalid.1.1
    · rw [if_neg hsame]
      exact ⟨⟨.of_empty rfl, h.forwarded⟩, .inl rfl⟩
  · exact h.abandonRenewal expected

theorem expiryRead (expiry : Expiry) : (host.expiryRead expiry).Consistent := by
  rw [Host.expiryRead]
  split
  · exact h.finishExpiry false expiry
  · exact ⟨⟨h.bound, h.forwarded⟩, trivial⟩

end Host.Faithful

namespace Host.Consistent

variable {host host' : Host} {lease : AdmittedLease} {state : GatewayStateFile}

theorem start (bootId : Uuid) (kerberosRealm : List Byte)
    (disk : Option GatewayStateFile) (clock : ℕ) (unixSeconds : ℤ) :
    (Host.start bootId kerberosRealm disk clock unixSeconds).Consistent where
  bound _ hs := by cases hs
  forwarded _ hf := by cases hf
  phase := trivial

theorem unexpired_of_admits {requestId : UuidText} {requestValid : Bool}
    (hlease : host.bridge.admitted = some lease) (hstate : host.disk = some state)
    (hadmits : host.bridge.gateway.admits (host.moment lease requestId requestValid)) :
    host.clock < lease.leaseExpiresAt ∧
      state.Matches host.bridge.bootId lease.fence true host.unixSeconds := by
  obtain ⟨_, hadmitted⟩ := Option.isSome_iff_exists.mp hadmits
  obtain ⟨hsome, hchecks⟩ := Option.filter_eq_some_iff.mp hadmitted
  rw [Bridge.gateway, hlease] at hsome
  obtain rfl := Option.some.inj hsome
  rw [Bool.and_eq_true, decide_eq_true_eq] at hchecks
  refine ⟨hchecks.1, ?_⟩
  have hmatches : host.diskStateMatches lease.fence true := hchecks.2
  rw [Host.diskStateMatches, hstate, Option.any_some, decide_eq_true_eq] at hmatches
  exact hmatches

variable (h : host.Consistent)
include h

theorem request (hphase : host.phase = .idle) (call : Call) (requestId : UuidText)
    (requestValid : Bool) : (host.request call requestId requestValid).Consistent := by
  rw [Host.request]
  split
  · next lease state hlease hstate =>
    dsimp only
    split
    · next hpasses =>
      rw [Bool.and_eq_true] at hpasses
      obtain ⟨hunexpired, hmatches⟩ := unexpired_of_admits hlease hstate hpasses.1
      refine ⟨⟨h.bound, h.forwarded⟩, hlease, hunexpired, hmatches, ?_⟩
      rintro a rfl
      have hsession := (Bool.and_eq_true_iff.mp hpasses.2).1
      obtain ⟨s, hs, hbound⟩ := (Option.any_eq_true _ _).mp hsession
      obtain ⟨lease', hlease', hopened⟩ := h.bound s
        (mem_removeExpiredSessions (Table.get_eq_some.mp hs).1)
      obtain rfl := Option.some.inj (hlease.symm.trans hlease')
      exact ⟨s, hs, hbound, hopened⟩
    · have hbound := h.bound.handle hlease (host.moment lease requestId requestValid) call none
      have hnone : Host.openings lease call none = [] := by
        cases call with
        | filesystem => rfl
        | authenticate => rfl
      rw [hnone, List.append_nil] at hbound
      refine ⟨⟨hbound, h.forwarded⟩, ?_⟩
      rw [hphase]
      trivial
  · refine ⟨h.revoke rfl rfl, ?_⟩
    rw [hphase]
    trivial

theorem answer {call : Call} {m : Moment} (hphase : host.phase = .forwarding call m lease state)
    (reply : Option VfsAnswer) : (host.answer call m lease state reply).Consistent := by
  have hsound := h.phase
  rw [hphase] at hsound
  obtain ⟨hlease, hsound⟩ := hsound
  refine ⟨⟨h.bound.handle hlease m call reply, ?_⟩, trivial⟩
  exact List.forall_mem_append.mpr ⟨fun f hold => (h.forwarded f hold).append _,
    List.forall_mem_singleton.mpr (hsound.append _)⟩

/-- A method that keeps the admission and changes the sessions only in what they
are bound to. -/
theorem setGateway (hphase : host.phase = .idle) {g : Gateway}
    (hadmitted : g.admitted = host.bridge.gateway.admitted)
    (hsessions : ∀ s ∈ g.sessions.rows, ∃ old ∈ host.bridge.sessions.rows,
      ∃ client session, s = { old with nfsClientId := client, nfsSessionId := session }) :
    { host with bridge := host.bridge.setGateway g }.Consistent := by
  refine ⟨⟨?_, h.forwarded⟩, ?_⟩
  · intro s hs
    obtain ⟨old, hold, client, session, rfl⟩ := hsessions s hs
    obtain ⟨lease, hlease, o, ho, hfence, hopens⟩ := h.bound old hold
    exact ⟨lease, (Bridge.setGateway_admitted hadmitted).trans hlease, o, ho, hfence,
      ⟨hopens.granted, hopens.gssBinding, hopens.sessionId,
        hopens.credentialGeneration, hopens.authorizationGeneration,
        hopens.projection, hopens.featureGeneration⟩⟩
  · rw [hphase]
    trivial

theorem renewalWrite {expected : Option RenewalFence}
    (hphase : host.phase = .renewing expected lease state) (outcome : WriteOutcome) :
    (host.renewalWrite expected lease state outcome).Consistent := by
  have hsound := h.phase
  rw [hphase] at hsound
  have hwritten := h.write state outcome
  rw [Host.renewalWrite]
  split
  · next heq =>
    subst heq
    refine ⟨⟨?_, hwritten.forwarded⟩, trivial⟩
    rcases hsound with hempty | hfence
    · exact .of_empty hempty
    · exact hwritten.bound.mono hfence.symm fun s hs => hs
  · exact hwritten.abandonRenewal expected

theorem drainRead : host.drainRead.Consistent := by
  rw [Host.drainRead]
  split
  · exact h
  · exact ⟨⟨h.bound, h.forwarded⟩, h.phase⟩

theorem drainWrite (state : GatewayStateFile)
    (outcome : WriteOutcome) : (host.drainWrite state outcome).Consistent := by
  cases outcome with
  | failed => exact ⟨⟨h.bound, h.forwarded⟩, h.phase⟩
  | unsynced => exact ⟨⟨h.bound, h.forwarded⟩, h.phase⟩
  | written => exact ⟨⟨h.bound, h.forwarded⟩, h.phase⟩

theorem step {event : HostEvent} (hstep : host.step event = .ok host') : host'.Consistent := by
  cases takes_of_step hstep with
  | tick => exact ⟨⟨h.bound, h.forwarded⟩, h.phase⟩
  | setUnixSeconds => exact ⟨⟨h.bound, h.forwarded⟩, h.phase⟩
  | bootstrap candidate => exact h.applyRenewal none candidate
  | request call requestId requestValid hunlocked =>
    exact h.request (phase_of_unlocked hunlocked) call requestId requestValid
  | answer reply hphase => exact h.answer hphase reply
  | bindFsalSession a hunlocked =>
    obtain ⟨hadmitted, hsessions⟩ := bindFsalSession_cases host.bridge.gateway host.unixSeconds a
    exact h.setGateway (phase_of_unlocked hunlocked) hadmitted hsessions
  | fsalProjection hunlocked =>
    exact h.setGateway (phase_of_unlocked hunlocked) rfl fun s hs =>
      ⟨s, mem_removeExpiredSessions hs, _, _, rfl⟩
  | wake hphase =>
    refine ⟨⟨h.bound, h.forwarded⟩, ?_⟩
    rw [hphase]
    trivial
  | offerFailed => exact h.failRenewal _
  | offered candidate hphase => exact h.prepareRenewal hphase _ candidate
  | applied => exact h.applyRenewal _ _
  | applyFailed => exact h.failRenewal _
  | renewalWrite outcome hphase => exact h.renewalWrite hphase outcome
  | expiryRead => exact h.expiryRead _
  | expiryWrite outcome => exact (h.write _ outcome).finishExpiry _ _
  | drainRead => exact h.drainRead
  | drainWrite outcome => exact h.drainWrite _ outcome

theorem run (events : List HostEvent) : (Support.run Host.step host events).Consistent :=
  run_invariant (C := fun _ _ => True)
    (fun _ _ _ hbefore _ hstep => hbefore.step hstep) h (meets_true host events)

end Host.Consistent

/-! ## Fences that are given up -/

namespace Host

variable {host host' : Host} {fence candidate : RenewalFence} {event : HostEvent}

/-- A renewal is granted for the fence. -/
def Admits (host : Host) (fence : RenewalFence) : HostEvent → Prop
  | .renewalWrite .written => ∃ expected lease state,
      host.phase = .renewing expected lease state ∧ lease.fence = fence
  | _ => False

/-- A step keeps the fence or gives it up, unless it admits another one. -/
theorem fence_step (hstep : host.step event = .ok host') (hevent : ¬host.Admits fence event)
    (hfence : host.bridge.fence ≠ some fence) : host'.bridge.fence ≠ some fence := by
  have hkeeps : ∀ {after : Bridge}, after.fence = host.bridge.fence ∨
      after.fence = none → after.fence ≠ some fence := by
    rintro after (heq | heq)
    · rw [heq]
      exact hfence
    · rw [heq]
      rintro ⟨⟩
  cases takes_of_step hstep with
  | answer => exact hkeeps (host.bridge.fence_setGateway _)
  | @renewalWrite expected lease state outcome hphase =>
    cases outcome with
    | written =>
      intro hsome
      exact hevent ⟨expected, lease, state, hphase, Option.some.inj hsome⟩
    | _ => exact hkeeps (frame_step hstep rfl).fence
  | drainRead =>
    rw [drainRead_eq]
    exact hfence
  | @drainWrite state outcome =>
    have hbridge : (host.drainWrite state outcome).bridge = host.bridge :=
      host.bridge_write state outcome
    rw [hbridge]
    exact hfence
  | _ => exact hkeeps (frame_step hstep rfl).fence

/-- What is forwarded goes under the fence of the admission. -/
theorem forwarded_step (h : host.Consistent) (hstep : host.step event = .ok host')
    (hfence : host.bridge.fence ≠ some fence) :
    ∃ more, host'.forwarded = host.forwarded ++ more ∧ ∀ f ∈ more, f.lease.fence ≠ fence := by
  have hnone : ∀ {after : List Forwarded}, after = host.forwarded →
      ∃ more, after = host.forwarded ++ more ∧ ∀ f ∈ more, f.lease.fence ≠ fence :=
    fun heq => ⟨[], by rw [heq, List.append_nil], fun _ hf => by cases hf⟩
  cases takes_of_step hstep with
  | answer reply hphase =>
    refine ⟨_, rfl, ?_⟩
    intro f hf
    have hsound := h.phase
    rw [hphase] at hsound
    rw [List.mem_singleton.mp hf]
    intro heq
    rw [Bridge.fence, hsound.1, Option.map_some, heq] at hfence
    exact hfence rfl
  | @renewalWrite expected lease state outcome =>
    cases outcome with
    | written => exact hnone rfl
    | _ => exact hnone (frame_step hstep rfl).forwarded
  | drainRead =>
    rw [drainRead_eq]
    exact hnone rfl
  | drainWrite outcome => exact hnone (host.forwarded_write _ outcome)
  | _ => exact hnone (frame_step hstep rfl).forwarded

/-- As long as a fence is not admitted again, nothing is forwarded under it. -/
theorem forwarded_run (h : host.Consistent)
    (hfence : host.bridge.fence ≠ some fence) {events : List HostEvent}
    (hevents : Meets Host.step (fun host event => ¬host.Admits fence event) host events) :
    ∃ more, (run Host.step host events).forwarded = host.forwarded ++ more ∧
      ∀ f ∈ more, f.lease.fence ≠ fence := by
  have hinvariant := run_invariant
    (I := fun after => after.Consistent ∧ after.bridge.fence ≠ some fence ∧
      ∃ more, after.forwarded = host.forwarded ++ more ∧ ∀ f ∈ more, f.lease.fence ≠ fence)
    (fun before event after ⟨hbefore, hold, more, hmore, hfences⟩ hevent hstep => by
      obtain ⟨new, hnew, hnewFences⟩ := forwarded_step hbefore hstep hold
      refine ⟨hbefore.step hstep, fence_step hstep hevent hold, more ++ new, ?_,
        List.forall_mem_append.mpr ⟨hfences, hnewFences⟩⟩
      rw [hnew, hmore, List.append_assoc])
    ⟨h, hfence, [], (List.append_nil _).symm, fun _ hf => by cases hf⟩ hevents
  exact hinvariant.2.2

/-- The fence was to be replaced by another one, or the lease has expired. -/
def Lapsed (host : Host) (fence : RenewalFence) : Prop :=
  (host.bridge.pendingRenewal.any fun pending => pending.expected = fence) ∨
    (host.bridge.admitted.any fun lease =>
      lease.fence = fence ∧ lease.leaseExpiresAt ≤ host.clock)

/-- The event changes the fence, or fails to renew one that has lapsed. -/
def Revokes (host : Host) (fence : RenewalFence) : HostEvent → Prop
  | .offer (some candidate) =>
    host.phase = .idle ∧ host.worker = .offering fence ∧ candidate ≠ fence
  | .offer none =>
    host.phase = .idle ∧ host.worker = .offering fence ∧ host.Lapsed fence
  | .apply succeeds => host.phase = .idle ∧ host.Lapsed fence ∧
      ∃ candidate, host.worker = .applying fence candidate ∧
        (succeeds → host.validAttempt (some fence) candidate = false)
  | .renewalWrite outcome => outcome ≠ .written ∧ host.Lapsed fence ∧
      ∃ lease state, host.phase = .renewing (some fence) lease state
  | _ => False

theorem failRenewal_lapsed (h : host.Lapsed fence) :
    (host.failRenewal fence).bridge.fence ≠ some fence ∧
      (host.failRenewal fence).forwarded = host.forwarded := by
  refine ⟨?_, (Frame.failRenewal _ _).forwarded⟩
  rw [failRenewal]
  split
  · rintro ⟨⟩
  split
  · rintro ⟨⟩
  · next hpending hadmitted => exact absurd h (not_or.mpr ⟨hpending, hadmitted⟩)

theorem prepareRenewal_changed (h : candidate ≠ fence) :
    (host.prepareRenewal fence candidate).bridge.fence ≠ some fence := by
  rw [prepareRenewal]
  split
  · assumption
  split
  · have hnone := (Frame.failRenewal { host with bridge := host.bridge.revoke } fence).fence
    rw [hnone.elim id id]
    rintro ⟨⟩
  · rintro ⟨⟩

theorem Revokes.step (h : host.Revokes fence event) :
    ∃ after, host.step event = .ok after ∧ after.bridge.fence ≠ some fence ∧
      after.forwarded = host.forwarded := by
  cases event with
  | offer candidate =>
    cases candidate with
    | none =>
      obtain ⟨hphase, hworker, hlapsed⟩ := h
      refine ⟨host.failRenewal fence, ?_, failRenewal_lapsed hlapsed⟩
      rw [Host.step.eq_def, hphase, hworker]
    | some candidate =>
      obtain ⟨hphase, hworker, hchanged⟩ := h
      refine ⟨host.prepareRenewal fence candidate, ?_,
        prepareRenewal_changed hchanged, (Frame.prepareRenewal _ _ _).forwarded⟩
      rw [Host.step.eq_def, hphase, hworker]
  | apply succeeds =>
    obtain ⟨hphase, hlapsed, _, hworker, hinvalid⟩ := h
    refine ⟨host.failRenewal fence, ?_, failRenewal_lapsed hlapsed⟩
    rw [Host.step.eq_def, hphase, hworker]
    cases succeeds with
    | false => rfl
    | true => simp [applyRenewal, hinvalid rfl, abandonRenewal]
  | renewalWrite outcome =>
    obtain ⟨hfailed, hlapsed, _, state, hphase⟩ := h
    have hwritten : (host.write state outcome).Lapsed fence := by
      rw [write_eq]
      exact hlapsed
    obtain ⟨hfence, hforwarded⟩ := failRenewal_lapsed hwritten
    refine ⟨_, ?_, hfence, hforwarded.trans (host.forwarded_write _ _)⟩
    simp only [Host.step, hphase, renewalWrite, if_neg hfailed, abandonRenewal]
  | _ => cases h

end Host

/-- In every state that the processes reach, each session was opened under the
fence of the admission, and each request that was forwarded had passed the checks
under that fence.  After a change of the fence, or a failed renewal of one that has
lapsed, nothing is forwarded under it unless it is admitted again. -/
theorem gateway_forwards_under_its_fence (bootId : Uuid)
    (kerberosRealm : List Byte) (disk : Option GatewayStateFile) (clock : ℕ)
    (unixSeconds : ℤ) (events : List HostEvent) :
    let host := run Host.step
      (Host.start bootId kerberosRealm disk clock unixSeconds) events
    host.bridge.Bound host.opened ∧ (∀ f ∈ host.forwarded, f.Sound host.bridge.bootId host.opened) ∧
      ∀ fence event later, host.Revokes fence event →
        Meets Host.step (fun host event => ¬host.Admits fence event)
          (advance Host.step host event) later →
        ∃ more, (run Host.step host (event :: later)).forwarded =
            host.forwarded ++ more ∧ ∀ f ∈ more, f.lease.fence ≠ fence := by
  intro host
  have h : host.Consistent :=
    (Host.Consistent.start bootId kerberosRealm disk clock unixSeconds).run events
  refine ⟨h.bound, h.forwarded, ?_⟩
  intro fence event later hrevokes hlater
  obtain ⟨_, hstep, hfence, hforwarded⟩ := hrevokes.step
  rw [advance_of_ok hstep] at hlater
  obtain ⟨more, hmore, hfences⟩ := Host.forwarded_run (h.step hstep) hfence hlater
  rw [hforwarded] at hmore
  rw [run_cons, advance_of_ok hstep]
  exact ⟨more, hmore, hfences⟩

/-! ## Two renewals -/

def sampleFence : RenewalFence := ⟨1, 9, 1, 4⟩

/-- The VFS opens a session. -/
def aliceAnswer : VfsAnswer where
  response :=
    { protocolVersion := 1
      requestId := sampleUuid.1
      error := .ok
      sessionId := ascii "00000000-0000-4000-8000-000000000001"
      credentialGeneration := 1
      authorizationGeneration := 1
      nfsSessionProjection := some aliceProjection }
  envelopeValid := by decide +kernel
  attributesValid := by decide +kernel
  projectionValid := by decide +kernel
  bounded := by decide +kernel

def bridgeStart : Host := Host.start 5 (ascii "EXAMPLE.COM") none 0 1800000000

/-- The gateway is admitted, a context gets a session, and after twenty seconds the
lease is to be renewed. -/
def untilRenewal : List HostEvent :=
  [.bootstrap sampleFence, .renewalWrite .written,
    .request (.authenticate aliceAuthentication) sampleUuid true,
    .answer (some aliceAnswer), .bindFsalSession aliceAuthentication,
    .tick leaseRefreshAfter, .wake]

/-- A file-system operation of the context. -/
def listCall : List HostEvent :=
  [.request (.filesystem aliceAuthentication) sampleUuid true, .answer none]

/-- The VFS offers another export generation; nothing more is forwarded under the old one. -/
theorem changed_fence_forwards_nothing :
    ∃ more, (run Host.step bridgeStart (untilRenewal ++
        .offer (some { sampleFence with exportGeneration := 5 }) :: listCall)).forwarded =
        (run Host.step bridgeStart untilRenewal).forwarded ++ more ∧
      ∀ f ∈ more, f.lease.fence ≠ sampleFence := by
  have hfences := (gateway_forwards_under_its_fence 5 (ascii "EXAMPLE.COM") none 0
    1800000000 untilRenewal).2.2 sampleFence
    (.offer (some { sampleFence with exportGeneration := 5 })) listCall
    ⟨rfl, rfl, by decide⟩
    ⟨id, id, trivial⟩
  exact hfences

/-- The offer cannot be had, and the gateway goes on under the fence whose renewal
has failed. -/
theorem failed_renewal_goes_on :
    (run Host.step bridgeStart
      (untilRenewal ++ .offer none :: listCall)).forwarded.map
        (fun f => (f.lease.fence, f.instant)) =
      [(sampleFence, 0), (sampleFence, leaseRefreshAfter)] := by
  decide +kernel

end FileBelt.Nfs
