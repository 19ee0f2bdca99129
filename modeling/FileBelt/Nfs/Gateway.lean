import FileBelt.Nfs.Reply
import FileBelt.Nfs.Uuid
import FileBelt.Support.Table

/-!
# The gateway behind the bridge

`execute` answers one packet of the module: it hands the operation to the gateway,
authenticates a context that the gateway does not know, and returns the response of
the VFS with the projection of the session.  The clocks, the state file and the
answers of the VFS are inputs of a call.
-/

namespace FileBelt.Nfs

open Support Support.Protobuf

def maxResponseBytes : ℕ := 1114112

/-- A response that `decode_response` accepted. -/
structure VfsAnswer where
  response : VfsResponse
  envelopeValid : response.envelopeValid
  attributesValid : response.attributes.all NodeAttributes.valid
  projectionValid : response.nfsSessionProjection.all NfsSessionProjection.valid
  bounded : response.encodeToVec.length ≤ maxResponseBytes

abbrev UuidText := { text : List Byte // text.length = 36 }

/-! ## Sessions -/

structure SessionFence where
  gssBinding : List Byte
  sessionId : List Byte
  credentialGeneration : UInt64
  authorizationGeneration : UInt64
  expiresAtUnixSeconds : ℤ
  nfsClientId : Option (List Byte)
  nfsSessionId : Option (List Byte)
  projection : NfsSessionProjection
  projectionValid : projection.valid

structure AdmittedState where
  featureGeneration : UInt64
  leaseExpiresAt : ℕ

structure Gateway where
  kerberosRealm : List Byte
  admitted : Option AdmittedState
  sessions : Table SessionFence.gssBinding

/-- What the gateway finds when it handles one request. -/
structure Moment where
  requestId : UuidText
  instant : ℕ
  unixSeconds : ℤ
  diskStateMatches : Bool
  requestValid : Bool
  answer : Option VfsAnswer

def maxSessions : ℕ := 4096

def Gateway.admittedAt (g : Gateway) (m : Moment) : Option AdmittedState :=
  g.admitted.filter fun state =>
    m.instant < state.leaseExpiresAt && m.diskStateMatches

/-- Without admission there are no sessions. -/
def Gateway.close (g : Gateway) : Gateway := { g with admitted := none, sessions := .empty }

def Gateway.removeExpiredSessions (g : Gateway) (now : ℤ) : Gateway :=
  { g with sessions := g.sessions.delete fun s => s.expiresAtUnixSeconds ≤ now }

def Gateway.removeSession (g : Gateway) (binding : List Byte) : Gateway :=
  { g with sessions := g.sessions.delete fun s => s.gssBinding = binding }

/-- The session belongs to the NFS client and session of the call. -/
def SessionFence.boundTo (s : SessionFence) (a : FsalAuthentication) : Bool :=
  s.nfsClientId == some a.clientId && s.nfsSessionId == some a.nfsSessionId

def Moment.reject (m : Moment) (error : VfsError) : VfsResponse :=
  .failure m.requestId.1 error (ascii "nfs_gateway_rejected")

/-- `handle` of a file-system operation. -/
def Gateway.handleFilesystem (g : Gateway) (m : Moment)
    (a : FsalAuthentication) : VfsResponse × Gateway :=
  match g.admittedAt m with
  | none => (m.reject .unavailable, g.close)
  | some _ =>
    let g := g.removeExpiredSessions m.unixSeconds
    match g.sessions.get a.gssBindingDigest with
    | none => (m.reject .unauthenticated, g)
    | some session =>
      if ¬session.boundTo a then (m.reject .unauthenticated, g)
      else if ¬m.requestValid then (m.reject .invalidRequest, g)
      else
        match m.answer with
        | none => (m.reject .unavailable, g)
        | some answer =>
          if answer.response.error = .unauthenticated ∨
              answer.response.error = .staleGeneration then
            (answer.response, g.removeSession a.gssBindingDigest)
          else (answer.response, g)

def validPrincipalForRealm (principal expectedRealm : List Byte) : Bool :=
  let user := principal.takeWhile (· != 0x40)
  let realm := principal.drop (user.length + 1)
  let lowered := user.map fun b => if 0x41 ≤ b ∧ b ≤ 0x5A then b + 0x20 else b
  principal ≠ [] && principal.length ≤ 512 && user ≠ [] &&
    lowered ≠ ascii "root" && realm == expectedRealm && !realm.contains 0x40 &&
    user.all fun b => 0x21 ≤ b && b ≤ 0x7E && b != 0x2F && b != 0x5C && b != 0x40

/-- When the session that an answer opens ends. -/
def sessionExpiry (a : FsalAuthentication) (p : NfsSessionProjection) : ℤ :=
  min p.absoluteExpiresAtUnixSeconds.toInt a.contextExpiresAtUnixSeconds

/-- The checks of `admit_session` on the answer. -/
def AdmittedState.accepts (state : AdmittedState) (now : ℤ)
    (a : FsalAuthentication) (r : VfsResponse) (p : NfsSessionProjection) : Bool :=
  now < sessionExpiry a p && (parseUuid r.sessionId).isSome &&
    r.credentialGeneration ≠ 0 && r.authorizationGeneration ≠ 0 &&
    p.featureGeneration == state.featureGeneration

def Gateway.hasRoom (g : Gateway) (binding : List Byte) : Bool :=
  g.sessions.rows.length < maxSessions || (g.sessions.get binding).isSome

def VfsAnswer.session (answer : VfsAnswer) (a : FsalAuthentication) {p : NfsSessionProjection}
    (hp : answer.response.nfsSessionProjection = some p) : SessionFence where
  gssBinding := a.gssBindingDigest
  sessionId := answer.response.sessionId
  credentialGeneration := answer.response.credentialGeneration
  authorizationGeneration := answer.response.authorizationGeneration
  expiresAtUnixSeconds := sessionExpiry a p
  nfsClientId := none
  nfsSessionId := none
  projection := p
  projectionValid := by
    have hvalid := answer.projectionValid
    rw [hp] at hvalid
    exact hvalid

def Gateway.admitSession (g : Gateway) (state : AdmittedState) (now : ℤ)
    (a : FsalAuthentication) (answer : VfsAnswer) : Bool × Gateway :=
  match hp : answer.response.nfsSessionProjection with
  | none => (false, g)
  | some p =>
    if ¬state.accepts now a answer.response p then (false, g)
    else
      let g := g.removeExpiredSessions now
      if ¬g.hasRoom a.gssBindingDigest then (false, g)
      else (true, { g with sessions := g.sessions.put (answer.session a hp) })

/-- `handle` of the authentication of a context. -/
def Gateway.handleAuthenticate (g : Gateway) (m : Moment)
    (a : FsalAuthentication) : VfsResponse × Gateway :=
  match g.admittedAt m with
  | none => (m.reject .unavailable, g.close)
  | some state =>
    if ¬validPrincipalForRealm a.kerberosPrincipal g.kerberosRealm ∨
        a.contextExpiresAtUnixSeconds ≤ m.unixSeconds then
      (m.reject .unauthenticated, g)
    else if ¬m.requestValid then (m.reject .invalidRequest, g)
    else
      match m.answer with
      | none => (m.reject .unavailable, g)
      | some answer =>
        if answer.response.error = .ok then
          match g.admitSession state m.unixSeconds a answer with
          | (false, g) => (m.reject .unauthenticated, g)
          | (true, g) => (answer.response, g)
        else (answer.response, g)

/-- The session of the binding gets the NFS client and session of the call. -/
def Gateway.setNfsSession (g : Gateway) (a : FsalAuthentication) : Gateway :=
  { g with
    sessions := g.sessions.update (fun s => s.gssBinding = a.gssBindingDigest)
      (fun s => { s with
        nfsClientId := some a.clientId, nfsSessionId := some a.nfsSessionId })
      fun _ => rfl }

def Gateway.bindFsalSession (g : Gateway) (now : ℤ) (a : FsalAuthentication) : Bool × Gateway :=
  let g := g.removeExpiredSessions now
  match g.sessions.get a.gssBindingDigest with
  | none => (false, g)
  | some session =>
    match session.nfsClientId, session.nfsSessionId with
    | none, none =>
      (true, g.setNfsSession a)
    | some client, some nfsSession =>
      (client == a.clientId && nfsSession == a.nfsSessionId, g)
    | _, _ => (false, g)

def Gateway.fsalProjection (g : Gateway) (now : ℤ) (a : FsalAuthentication) :
    Option NfsSessionProjection :=
  ((g.removeExpiredSessions now).sessions.get a.gssBindingDigest).bind
    fun session => if session.boundTo a then some session.projection else none

/-! ## Calls -/

/-- The inputs of one call besides the packet. -/
structure Visit where
  requestId : UuidText
  operationDecodes : Bool
  first : Moment
  authentication : Moment
  boundAt : ℤ
  second : Moment
  projectedAt : ℤ

/-- The checks of `execute` on a call. -/
def FsalCall.acceptable (call : FsalCall) (a : FsalAuthentication) : Bool :=
  call.format == wireFormat && a.gssBindingDigest.length == 32 &&
    a.kerberosPrincipal ≠ [] && a.sourceAddress ≠ [] &&
    0 < a.contextExpiresAtUnixSeconds && a.clientId ≠ [] && a.nfsSessionId ≠ [] &&
    a.slotId ≤ 1023 && a.sequenceId ≠ 0 && a.operationIndex ≤ 63

/-- What `execute` is about to encode. -/
structure Outcome where
  response : VfsResponse
  projection : Option NfsSessionProjection
  gateway : Gateway

def Outcome.reply (response : VfsResponse) (gateway : Gateway) : Outcome where
  response := response
  projection := none
  gateway := gateway

def Outcome.encode (outcome : Outcome) : FsalReply where
  vfsResponse := outcome.response.encodeToVec
  projection := outcome.projection

/-- The end of `execute`: the response with the projection of its session. -/
def Outcome.project (visit : Visit) (a : FsalAuthentication)
    (result : VfsResponse × Gateway) : Outcome where
  response := result.1
  projection := result.2.fsalProjection visit.projectedAt a
  gateway := result.2.removeExpiredSessions visit.projectedAt

def serve (g : Gateway) (visit : Visit) (a : FsalAuthentication) : Outcome :=
  let first := g.handleFilesystem visit.first a
  if first.1.error = .unauthenticated then
    let authenticated := first.2.handleAuthenticate visit.authentication a
    if authenticated.1.error ≠ .ok then .reply authenticated.1 authenticated.2
    else
      let bound := authenticated.2.bindFsalSession visit.boundAt a
      if bound.1 then
        .project visit a (bound.2.handleFilesystem visit.second a)
      else
        .reply (.failure visit.requestId.1 .unauthenticated
          (ascii "nfs_fsal_session_binding")) bound.2
  else .project visit a first

def execute (g : Gateway) (visit : Visit) (encoded : List Byte) : Outcome :=
  let refuse error :=
    Outcome.reply (.failure visit.requestId.1 error (ascii "nfs_fsal_wire")) g
  match FsalCall.decodeExact encoded with
  | none => refuse .invalidRequest
  | some call =>
    match call.authentication with
    | none => refuse .unauthenticated
    | some a =>
      if ¬(operationSupported call.operationTag ∧ visit.operationDecodes) ∨ ¬call.acceptable a then
        refuse .invalidRequest
      else serve g visit a

/-! ## Sessions that serve a call -/

def Gateway.admits (g : Gateway) (m : Moment) : Bool := (g.admittedAt m).isSome

/-- The response to a request of an open session. -/
def Moment.response (m : Moment) : VfsResponse :=
  if m.requestValid then m.answer.elim (m.reject .unavailable) VfsAnswer.response
  else m.reject .invalidRequest

def Moment.keepsSession (m : Moment) : Bool :=
  ¬(m.response.error = .unauthenticated ∨ m.response.error = .staleGeneration)

/-- The entries of a successful response can be parsed. -/
def VfsResponse.complete (r : VfsResponse) : Bool :=
  r.error ≠ .ok || r.entries.all DirectoryEntry.complete

/-- The session of a context is open for a call at a time. -/
def SessionFence.serves (s : SessionFence) (a : FsalAuthentication) (now : ℤ) : Bool :=
  s.boundTo a && now < s.expiresAtUnixSeconds

def Gateway.knows (g : Gateway) (m : Moment) (a : FsalAuthentication) : Bool :=
  (g.sessions.get a.gssBindingDigest).any fun s => s.serves a m.unixSeconds

/-- The context has an open session, which a request does not end and which lasts until a
later time. -/
def Gateway.keeps (g : Gateway) (m : Moment) (a : FsalAuthentication) (now : ℤ) : Bool :=
  g.admits m && m.keepsSession && (g.sessions.get a.gssBindingDigest).any fun s =>
    s.serves a m.unixSeconds && s.serves a now

/-- There is room for a context among the sessions that are left when it is authenticated: they
have not expired, and its own is removed if the VFS has refused it. -/
def Gateway.room (g : Gateway) (visit : Visit) (a : FsalAuthentication) : Bool :=
  let live := g.sessions.rows.filter fun s =>
    visit.first.unixSeconds < s.expiresAtUnixSeconds &&
      visit.authentication.unixSeconds < s.expiresAtUnixSeconds &&
      !(g.knows visit.first a && s.gssBinding = a.gssBindingDigest)
  live.length < maxSessions || live.any fun s => s.gssBinding = a.gssBindingDigest

/-- The authentication of a context gets an answer that opens a session. -/
structure Gateway.Authenticates (g : Gateway) (m : Moment) (a : FsalAuthentication)
    (answer : VfsAnswer) (p : NfsSessionProjection) : Prop where
  accepted : ∃ state, g.admittedAt m = some state ∧
    state.accepts m.unixSeconds a answer.response p
  principal : validPrincipalForRealm a.kerberosPrincipal g.kerberosRealm
  context : m.unixSeconds < a.contextExpiresAtUnixSeconds
  requestValid : m.requestValid
  answered : m.answer = some answer
  ok : answer.response.error = .ok
  projected : answer.response.nfsSessionProjection = some p

/-- The context has no open session, or the VFS does not accept it; it is authenticated anew,
and the new session outlasts the call. -/
structure Gateway.Renews (g : Gateway) (visit : Visit) (a : FsalAuthentication) : Prop where
  unknown : g.admits visit.first ∧
    (g.knows visit.first a = false ∨ visit.first.response.error = .unauthenticated)
  room : g.room visit a
  opened : ∃ answer p, g.Authenticates visit.authentication a answer p ∧
    visit.boundAt < sessionExpiry a p ∧ visit.second.unixSeconds < sessionExpiry a p ∧
    visit.projectedAt < sessionExpiry a p
  admits : g.admits visit.second
  keeps : visit.second.keepsSession

variable {error : VfsError} {g g' : Gateway} {m : Moment} {visit : Visit}
  {a : FsalAuthentication} {now : ℤ} {session : SessionFence} {answer : VfsAnswer}
  {p : NfsSessionProjection} {reasonCode requestId binding : List Byte}

/-! ## Responses -/

/-- A response whose envelope and attributes can be parsed. -/
structure VfsResponse.Valid (r : VfsResponse) : Prop where
  envelope : r.envelopeValid
  attributes : r.attributes.all NodeAttributes.valid
  bounded : r.encodeToVec.length < 2 ^ 63

theorem fields_failure (hid : requestId ≠ []) (hreason : reasonCode ≠ [])
    (herror : error ≠ .unspecified) :
    fields (VfsResponse.failure requestId error reasonCode).slots =
      [⟨1, .varint 1⟩, ⟨2, .bytes requestId⟩, ⟨3, .varint error.code⟩, ⟨4, .bytes reasonCode⟩] := by
  have hcode := VfsError.code_ne_zero herror
  simp [fields, VfsResponse.slots, VfsResponse.failure, protocolVersion, uint,
    blob, flag, message, repeated, packed, hid, hreason, hcode]

theorem failure_valid (requestId : UuidText) (hreason : reasonCode ≠ [])
    (hlength : reasonCode.length ≤ 128) (herror : error ≠ .unspecified) :
    (VfsResponse.failure requestId.1 error reasonCode).Valid := by
  have hid : requestId.1 ≠ [] := by
    intro hnil
    have hlen := requestId.2
    rw [hnil] at hlen
    cases hlen
  have hfields := fields_failure hid hreason herror
  constructor
  · refine Bool.and_eq_true_iff.mpr ⟨?_, decide_eq_true herror⟩
    exact Bool.and_eq_true_iff.mpr ⟨rfl, beq_iff_eq.mpr requestId.2⟩
  · rfl
  · rw [VfsResponse.encodeToVec, hfields]
    refine Nat.lt_of_le_of_lt (encode_length_le _) ?_
    simp only [Protobuf.room, Payload.size, requestId.2]
    omega

theorem reject_valid (m : Moment) (herror : error ≠ .unspecified) : (m.reject error).Valid :=
  failure_valid m.requestId (by decide) (by decide) herror

theorem VfsAnswer.valid (answer : VfsAnswer) : answer.response.Valid :=
  ⟨answer.envelopeValid, answer.attributesValid, Nat.lt_of_le_of_lt answer.bounded (by decide)⟩

theorem Moment.response_valid (m : Moment) : m.response.Valid := by
  rw [response]
  split
  · cases m.answer with
    | none => exact reject_valid m (by decide)
    | some answer => exact answer.valid
  · exact reject_valid m (by decide)

theorem handleAuthenticate_valid : (g.handleAuthenticate m a).1.Valid := by
  unfold Gateway.handleAuthenticate
  split
  · exact reject_valid m (by decide)
  split
  · exact reject_valid m (by decide)
  split
  · exact reject_valid m (by decide)
  split
  · exact reject_valid m (by decide)
  next answer _ =>
  split
  · split
    · exact reject_valid m (by decide)
    · exact answer.valid
  · exact answer.valid

/-! ## Requests -/

theorem Gateway.get_removeExpiredSessions (g : Gateway) (now : ℤ) (binding : List Byte) :
    (g.removeExpiredSessions now).sessions.get binding =
      (g.sessions.get binding).filter fun s => now < s.expiresAtUnixSeconds := by
  refine (Table.get_delete _ _ _).trans (congrArg (fun p => Option.filter p _) ?_)
  funext s
  rw [← decide_not, decide_eq_decide, Int.not_le]

theorem fsalProjection_isSome (g : Gateway) (now : ℤ) (a : FsalAuthentication) :
    (g.fsalProjection now a).isSome =
      (g.sessions.get a.gssBindingDigest).any fun s => s.serves a now := by
  rw [Gateway.fsalProjection, Gateway.get_removeExpiredSessions]
  cases g.sessions.get a.gssBindingDigest with
  | none => rfl
  | some s => grind [SessionFence.serves]

/-- What a request of a file-system operation can come to. -/
theorem handleFilesystem_cases (g : Gateway) (m : Moment) (a : FsalAuthentication) :
    (g.admits m = false ∧ g.handleFilesystem m a = (m.reject .unavailable, g.close)) ∨
    (g.admits m ∧ g.knows m a = false ∧ g.handleFilesystem m a =
      (m.reject .unauthenticated, g.removeExpiredSessions m.unixSeconds)) ∨
    (g.admits m ∧ g.knows m a ∧ g.handleFilesystem m a =
      (m.response, if m.keepsSession then g.removeExpiredSessions m.unixSeconds
        else (g.removeExpiredSessions m.unixSeconds).removeSession a.gssBindingDigest)) := by
  have hget := g.get_removeExpiredSessions m.unixSeconds a.gssBindingDigest
  unfold Gateway.handleFilesystem
  rw [Gateway.admits, Gateway.knows]
  cases g.admittedAt m with
  | none => exact .inl ⟨rfl, rfl⟩
  | some =>
    refine .inr ?_
    dsimp only
    rw [hget]
    cases g.sessions.get a.gssBindingDigest with
    | none => exact .inl ⟨rfl, rfl, rfl⟩
    | some s =>
      by_cases hserves : s.serves a m.unixSeconds = true
      · obtain ⟨hbound, hlive⟩ := Bool.and_eq_true_iff.mp hserves
        refine .inr ⟨rfl, hserves, ?_⟩
        rw [Option.filter_some, if_pos hlive, Moment.keepsSession, Moment.response]
        dsimp only
        rw [if_neg (not_not.mpr hbound)]
        cases m.requestValid with
        | false => rfl
        | true =>
          cases m.answer with
          | none => rfl
          | some answer =>
            by_cases hend : answer.response.error = .unauthenticated ∨
                answer.response.error = .staleGeneration
            · exact (if_pos hend).trans
                (congrArg _ (if_neg fun hkeeps => absurd hend (of_decide_eq_true hkeeps)).symm)
            · exact (if_neg hend).trans (congrArg _ (if_pos (decide_eq_true hend)).symm)
      · refine .inl ⟨rfl, Bool.eq_false_iff.mpr hserves, ?_⟩
        by_cases hlive : m.unixSeconds < s.expiresAtUnixSeconds
        · rw [Option.filter_some, if_pos (decide_eq_true hlive)]
          refine if_pos fun hbound => hserves ?_
          exact Bool.and_eq_true_iff.mpr ⟨hbound, decide_eq_true hlive⟩
        · rw [Option.filter_some, if_neg (by simpa using hlive)]

theorem handleFilesystem_valid : (g.handleFilesystem m a).1.Valid := by
  rcases handleFilesystem_cases g m a with ⟨-, heq⟩ | ⟨-, -, heq⟩ | ⟨-, -, heq⟩
  · rw [heq]
    exact reject_valid m (by decide)
  · rw [heq]
    exact reject_valid m (by decide)
  · rw [heq]
    exact m.response_valid

theorem handleFilesystem_unauthenticated :
    (g.handleFilesystem m a).1.error = .unauthenticated ↔ g.admits m ∧
      (g.knows m a = false ∨ m.response.error = .unauthenticated) := by
  rcases handleFilesystem_cases g m a with
    ⟨hadmits, heq⟩ | ⟨hadmits, hknows, heq⟩ | ⟨hadmits, hknows, heq⟩
  · simp [heq, hadmits, Moment.reject, VfsResponse.failure]
  · simp [heq, hadmits, hknows, Moment.reject, VfsResponse.failure]
  · simp [heq, hadmits, hknows]

/-- The projection is there if and only if the session outlasts the request. -/
theorem projection_handleFilesystem (now : ℤ) :
    ((g.handleFilesystem m a).2.fsalProjection now a).isSome = g.keeps m a now := by
  have hopen : (((g.removeExpiredSessions m.unixSeconds).sessions.get a.gssBindingDigest).any
      fun s => s.serves a now) = (g.sessions.get a.gssBindingDigest).any fun s =>
        s.serves a m.unixSeconds && s.serves a now := by
    rw [Gateway.get_removeExpiredSessions]
    cases g.sessions.get a.gssBindingDigest with
    | none => rfl
    | some s => grind [SessionFence.serves]
  rw [fsalProjection_isSome, Gateway.keeps, ← hopen]
  rcases handleFilesystem_cases g m a with
    ⟨hadmits, heq⟩ | ⟨hadmits, hknows, heq⟩ | ⟨hadmits, -, heq⟩
  · rw [heq, hadmits]
    rfl
  · have hclosed : (((g.removeExpiredSessions m.unixSeconds).sessions.get
        a.gssBindingDigest).any fun s => s.serves a now) = false := by
      rw [Gateway.knows] at hknows
      rw [hopen]
      cases hget : g.sessions.get a.gssBindingDigest with
      | none => rfl
      | some s =>
        rw [hget, Option.any_some] at hknows
        rw [Option.any_some, hknows, Bool.false_and]
    rw [heq, hclosed, Bool.and_false]
  · rw [heq, hadmits]
    cases m.keepsSession with
    | true => rfl
    | false =>
      have hnone : ((g.removeExpiredSessions m.unixSeconds).removeSession
          a.gssBindingDigest).sessions.get a.gssBindingDigest = none :=
        (Table.get_delete_key _ _ _).trans (if_pos rfl)
      rw [if_neg Bool.false_ne_true, hnone]
      rfl

theorem response_handleFilesystem (h : g.keeps m a now) :
    (g.handleFilesystem m a).1 = m.response ∧ m.response.error ≠ .unauthenticated := by
  rw [Gateway.keeps, Bool.and_eq_true, Bool.and_eq_true, Option.any_eq_true] at h
  obtain ⟨⟨hadmits, hkeeps⟩, s, hget, hserves⟩ := h
  refine ⟨?_, fun herror => of_decide_eq_true hkeeps (.inl herror)⟩
  rcases handleFilesystem_cases g m a with ⟨hrefused, -⟩ | ⟨-, hknows, -⟩ | ⟨-, -, heq⟩
  · rw [hadmits] at hrefused
    cases hrefused
  · rw [Gateway.knows, hget, Option.any_some, (Bool.and_eq_true_iff.mp hserves).1] at hknows
    cases hknows
  · rw [heq]

/-! ## Authentication -/

section

variable (h : (g.handleFilesystem visit.first a).1.error = .unauthenticated)
include h

theorem handleFilesystem_keeps_admission :
    (g.handleFilesystem visit.first a).2.admitted = g.admitted ∧
      (g.handleFilesystem visit.first a).2.kerberosRealm = g.kerberosRealm := by
  rcases handleFilesystem_cases g visit.first a with ⟨-, heq⟩ | ⟨-, -, heq⟩ | ⟨-, -, heq⟩
  · rw [heq] at h
    cases h
  · rw [heq]
    exact ⟨rfl, rfl⟩
  · rw [heq]
    split
    · exact ⟨rfl, rfl⟩
    · exact ⟨rfl, rfl⟩

/-- Whether there is room for the session of the context once the request has failed. -/
theorem hasRoom_handleFilesystem : ((g.handleFilesystem visit.first a).2.removeExpiredSessions
    visit.authentication.unixSeconds).hasRoom a.gssBindingDigest = g.room visit a := by
  have hrows : ((g.handleFilesystem visit.first a).2.removeExpiredSessions
      visit.authentication.unixSeconds).sessions.rows = g.sessions.rows.filter fun s =>
        visit.first.unixSeconds < s.expiresAtUnixSeconds &&
          visit.authentication.unixSeconds < s.expiresAtUnixSeconds &&
          !(g.knows visit.first a && s.gssBinding = a.gssBindingDigest) := by
    rcases handleFilesystem_cases g visit.first a with
      ⟨-, heq⟩ | ⟨-, hknows, heq⟩ | ⟨-, hknows, heq⟩
    · rw [heq] at h
      cases h
    · rw [heq, hknows]
      change List.filter _ (List.filter _ _) = _
      rw [List.filter_filter]
      exact List.filter_congr fun s _ => by grind
    · have hends : visit.first.keepsSession = false := by
        rw [heq] at h
        exact decide_eq_false fun hkeeps => hkeeps (.inl h)
      rw [heq, hknows, hends]
      change List.filter _ (List.filter _ (List.filter _ _)) = _
      rw [List.filter_filter, List.filter_filter]
      exact List.filter_congr fun s _ => by grind
  rw [Gateway.hasRoom, Gateway.room, Table.get, List.isSome_find?, hrows]

end

theorem admittedAt_congr (h : g'.admitted = g.admitted) (m : Moment) :
    g'.admittedAt m = g.admittedAt m := by
  rw [Gateway.admittedAt, h]
  rfl

theorem Gateway.Authenticates.congr (h : g.Authenticates m a answer p)
    (hadmitted : g'.admitted = g.admitted) (hrealm : g'.kerberosRealm = g.kerberosRealm) :
    g'.Authenticates m a answer p :=
  { h with
    accepted := admittedAt_congr hadmitted m ▸ h.accepted
    principal := hrealm ▸ h.principal }

theorem Gateway.Authenticates.opened (h : g.Authenticates m a answer p)
    (hroom : (g.removeExpiredSessions m.unixSeconds).hasRoom a.gssBindingDigest) :
    (g.handleAuthenticate m a).1 = answer.response ∧
      (g.handleAuthenticate m a).2.admitted = g.admitted ∧
      (g.handleAuthenticate m a).2.sessions.get a.gssBindingDigest =
        some (answer.session a h.projected) := by
  obtain ⟨state, hstate, haccepts⟩ := h.accepted
  have hp := h.projected
  have hopen : g.admitSession state m.unixSeconds a answer =
      (true, { g.removeExpiredSessions m.unixSeconds with
        sessions := (g.removeExpiredSessions m.unixSeconds).sessions.put
          (answer.session a hp) }) := by
    unfold Gateway.admitSession
    split
    · next hnone =>
      rw [hp] at hnone
      cases hnone
    next q hq =>
    obtain rfl : q = p := Option.some.inj (hq.symm.trans hp)
    rw [if_neg (not_not.mpr haccepts)]
    rw [if_neg (not_not.mpr hroom)]
  have hcontext := h.context
  unfold Gateway.handleAuthenticate
  rw [hstate]
  dsimp only
  rw [if_neg (by rw [h.principal]; simpa using hcontext), if_neg (not_not.mpr h.requestValid),
    h.answered]
  dsimp only
  rw [if_pos h.ok, hopen]
  exact ⟨rfl, rfl, Table.get_put_self _ _⟩

theorem handleAuthenticate_ok (h : (g.handleAuthenticate m a).1.error = .ok) :
    ∃ answer p, g.Authenticates m a answer p ∧
      (g.removeExpiredSessions m.unixSeconds).hasRoom a.gssBindingDigest := by
  unfold Gateway.handleAuthenticate at h
  split at h
  · cases h
  next state hstate =>
  split at h
  · cases h
  next hcontext =>
  split at h
  · cases h
  next hvalid =>
  split at h
  · cases h
  next answer hanswer =>
  split at h
  · next hok =>
    cases hopen : g.admitSession state m.unixSeconds a answer with
    | mk opened g' =>
      rw [hopen] at h
      cases opened with
      | false => cases h
      | true =>
        unfold Gateway.admitSession at hopen
        split at hopen
        · cases hopen
        next p hp =>
        split at hopen
        · cases hopen
        next haccepts =>
        dsimp only at hopen
        split at hopen
        · cases hopen
        next hroom =>
        rw [not_or, not_not, Int.not_le] at hcontext
        exact ⟨answer, p, ⟨⟨state, hstate, not_not.mp haccepts⟩, hcontext.1, hcontext.2,
          not_not.mp hvalid, hanswer, hok, hp⟩, not_not.mp hroom⟩
  · next hfailed => exact absurd h hfailed

theorem bindFsalSession_fresh (hget : g.sessions.get a.gssBindingDigest = some session)
    (hclient : session.nfsClientId = none) (hsession : session.nfsSessionId = none) :
    (g.bindFsalSession now a).1 = decide (now < session.expiresAtUnixSeconds) ∧
      (now < session.expiresAtUnixSeconds → (g.bindFsalSession now a).2.admitted = g.admitted ∧
        (g.bindFsalSession now a).2.sessions.get a.gssBindingDigest = some { session with
          nfsClientId := some a.clientId, nfsSessionId := some a.nfsSessionId }) := by
  have hkey := Table.get_key hget
  have hget' := g.get_removeExpiredSessions now a.gssBindingDigest
  rw [hget, Option.filter_some] at hget'
  unfold Gateway.bindFsalSession
  dsimp only
  by_cases hlive : now < session.expiresAtUnixSeconds
  · rw [if_pos (decide_eq_true hlive)] at hget'
    rw [hget']
    dsimp only
    rw [hclient, hsession]
    refine ⟨(decide_eq_true hlive).symm, fun _ => ⟨rfl, ?_⟩⟩
    simp only [Gateway.setNfsSession, Table.get_update, hget', Option.map_some,
      hkey, decide_true, if_true]
  · rw [if_neg (by simpa using hlive)] at hget'
    rw [hget']
    exact ⟨(decide_eq_false hlive).symm, fun h => absurd h hlive⟩

/-! ## Calls that reach the module -/

/-- The new session outlasts the call if and only if it has not expired at the end. -/
theorem Gateway.Authenticates.keeps_iff (h : g.Authenticates visit.authentication a answer p)
    (hroom : (g.removeExpiredSessions visit.authentication.unixSeconds).hasRoom
      a.gssBindingDigest) :
    let bound := (g.handleAuthenticate visit.authentication a).2.bindFsalSession visit.boundAt a
    bound.1 ∧ bound.2.keeps visit.second a visit.projectedAt ↔
      (visit.boundAt < sessionExpiry a p ∧ visit.second.unixSeconds < sessionExpiry a p ∧
        visit.projectedAt < sessionExpiry a p) ∧
      g.admits visit.second ∧ visit.second.keepsSession := by
  intro bound
  obtain ⟨-, hadmitted, hget⟩ := h.opened hroom
  obtain ⟨hbound, hfresh⟩ : bound.1 = _ ∧ _ := bindFsalSession_fresh hget rfl rfl
  have hexpiry : (answer.session a h.projected).expiresAtUnixSeconds = sessionExpiry a p := rfl
  rw [hbound, decide_eq_true_eq, and_assoc]
  refine and_congr_right fun hlive => ?_
  obtain ⟨hadmitted', hget'⟩ := hfresh hlive
  have hadmits : bound.2.admits visit.second = g.admits visit.second :=
    congrArg Option.isSome (admittedAt_congr (hadmitted'.trans hadmitted) _)
  rw [Gateway.keeps, hadmits, hget']
  simp [SessionFence.serves, SessionFence.boundTo, hexpiry]
  tauto

/-- A first answer that has lost the session leads to an authentication and a second one. -/
theorem serve_of_unauthenticated
    (herror : (g.handleFilesystem visit.first a).1.error = .unauthenticated) :
    ((serve g visit a).projection.isSome ∧ (serve g visit a).response.complete) ↔
      g.Renews visit a ∧ visit.second.response.complete := by
  obtain ⟨hadmitted, hrealm⟩ := handleFilesystem_keeps_admission herror
  have hroom := hasRoom_handleFilesystem herror
  have hadmits : (g.handleFilesystem visit.first a).2.admits visit.second =
      g.admits visit.second := congrArg Option.isSome (admittedAt_congr hadmitted _)
  rw [serve]
  dsimp only
  rw [if_pos herror]
  constructor
  · rintro ⟨hprojected, hcomplete⟩
    split at hprojected
    · cases hprojected
    next hok =>
    rw [if_neg hok] at hcomplete
    split at hprojected
    · next hbound =>
      rw [if_pos hbound] at hcomplete
      have hkeeps := (projection_handleFilesystem _).symm.trans hprojected
      obtain ⟨answer, p, hauthenticates, hroom'⟩ := handleAuthenticate_ok (not_not.mp hok)
      obtain ⟨hlive, hadmitted', hkept⟩ := (hauthenticates.keeps_iff hroom').mp ⟨hbound, hkeeps⟩
      refine ⟨⟨handleFilesystem_unauthenticated.mp herror, hroom.symm.trans hroom', ⟨answer, p,
        hauthenticates.congr hadmitted.symm hrealm.symm, hlive⟩,
        hadmits.symm.trans hadmitted', hkept⟩, ?_⟩
      rw [← (response_handleFilesystem hkeeps).1]
      exact hcomplete
    · cases hprojected
  · rintro ⟨h, hcomplete⟩
    obtain ⟨answer, p, hauthenticates, hlive⟩ := h.opened
    have hauthenticates := hauthenticates.congr hadmitted hrealm
    have hroom' := hroom.trans h.room
    obtain ⟨hbound, hkeeps⟩ := (hauthenticates.keeps_iff hroom').mpr
      ⟨hlive, hadmits.trans h.admits, h.keeps⟩
    have hok := hauthenticates.ok
    rw [← (hauthenticates.opened hroom').1] at hok
    rw [if_neg (not_not.mpr hok), if_pos hbound]
    refine ⟨(projection_handleFilesystem _).trans hkeeps, ?_⟩
    rw [Outcome.project, (response_handleFilesystem hkeeps).1]
    exact hcomplete

theorem serve_iff : ((serve g visit a).projection.isSome ∧ (serve g visit a).response.complete) ↔
    (g.keeps visit.first a visit.projectedAt ∧ visit.first.response.complete) ∨
      (g.Renews visit a ∧ visit.second.response.complete) := by
  by_cases herror : (g.handleFilesystem visit.first a).1.error = .unauthenticated
  · rw [serve_of_unauthenticated herror]
    refine (or_iff_right ?_).symm
    rintro ⟨hkeeps, -⟩
    obtain ⟨hresponse, hne⟩ := response_handleFilesystem hkeeps
    rw [hresponse] at herror
    exact hne herror
  · have hnot : ¬g.Renews visit a := fun h =>
      herror (handleFilesystem_unauthenticated.mpr h.unknown)
    have hresponse : g.keeps visit.first a visit.projectedAt →
        (g.handleFilesystem visit.first a).1 = visit.first.response :=
      fun h => (response_handleFilesystem h).1
    rw [serve, if_neg herror, Outcome.project, projection_handleFilesystem,
      or_iff_left fun h => hnot h.1]
    refine and_congr_right fun hkeeps => ?_
    rw [hresponse hkeeps]

/-- What the module has to read of an outcome: the response with its error and, if it is
successful, the attributes and the directory entries in their order. -/
structure Outcome.Delivered (outcome : Outcome) : Prop where
  reply : ∃ p, outcome.projection = some p ∧ parsePrivateReply outcome.encode.encodeToVec =
    some (outcome.response.encodeToVec, .ofMessage p)
  response : filebeltResponseParse outcome.response.encodeToVec =
    some (.ofMessage outcome.response)
  attributes : outcome.response.error = .ok →
    filebeltAttributesParse (FilebeltResponse.ofMessage outcome.response).attributes =
      outcome.response.attributes.map FilebeltNodeAttributes.ofMessage
  count : outcome.response.error = .ok →
    filebeltResponseEntryCount (.ofMessage outcome.response) = outcome.response.entries.length
  entries : outcome.response.error = .ok → ∀ i e, outcome.response.entries[i]? = some e →
    ∃ entry, filebeltResponseEntry (.ofMessage outcome.response) i = some entry ∧
      FilebeltDirectoryEntry.ofMessage e = some entry

theorem Outcome.delivered_iff {outcome : Outcome} (hvalid : outcome.response.Valid)
    (hprojection : outcome.projection.all NfsSessionProjection.valid) :
    outcome.Delivered ↔ outcome.projection.isSome ∧ outcome.response.complete := by
  have hbounded := hvalid.bounded
  have hlength : outcome.response.encodeToVec.length < 2 ^ 64 := Nat.lt_trans hbounded (by decide)
  have hparse := filebeltResponseParse_encodeToVec hlength hvalid.envelope
  have hresponse : outcome.response.encodeToVec ≠ [] := by
    intro hnil
    rw [hnil] at hparse
    cases hparse
  have hreply : parsePrivateReply outcome.encode.encodeToVec = _ :=
    parsePrivateReply_encodeToVec hresponse hbounded hprojection
  have hcomplete : outcome.response.complete ↔ (outcome.response.error = .ok →
      outcome.response.entries.all DirectoryEntry.complete) := by
    rw [VfsResponse.complete, Bool.or_eq_true, decide_eq_true_eq, imp_iff_not_or]
  rw [hcomplete, ← filebeltResponseEntry_ofMessage hlength]
  constructor
  · intro h
    obtain ⟨p, hp, -⟩ := h.reply
    exact ⟨Option.isSome_iff_exists.mpr ⟨p, hp⟩, h.entries⟩
  · rintro ⟨hsome, hentries⟩
    obtain ⟨p, hp⟩ := Option.isSome_iff_exists.mp hsome
    rw [hp] at hreply
    exact ⟨⟨p, hp, hreply⟩, hparse, fun _ => filebeltAttributesParse_ofMessage hlength
      hvalid.attributes, fun _ => filebeltResponseEntryCount_ofMessage hlength, hentries⟩

theorem fsalProjection_valid (g : Gateway) (now : ℤ) (a : FsalAuthentication) :
    (g.fsalProjection now a).all NfsSessionProjection.valid := by
  rw [Gateway.fsalProjection]
  cases (g.removeExpiredSessions now).sessions.get a.gssBindingDigest with
  | none => rfl
  | some session =>
    rw [Option.bind_some]
    split
    · exact session.projectionValid
    · rfl

theorem serve_valid : (serve g visit a).response.Valid ∧
    (serve g visit a).projection.all NfsSessionProjection.valid := by
  rw [serve]
  dsimp only
  split
  · split
    · exact ⟨handleAuthenticate_valid, rfl⟩
    split
    · exact ⟨handleFilesystem_valid, fsalProjection_valid _ _ _⟩
    · exact ⟨failure_valid visit.requestId (by decide) (by decide) (by decide), rfl⟩
  · exact ⟨handleFilesystem_valid, fsalProjection_valid _ _ _⟩

/-- The module reads what the bridge answers to a packet if and only if the bridge accepts the
call, the context has a session that outlasts it, or gets one, and the entries of a successful
response are complete. -/
theorem bridge_reply_parsed_iff (g : Gateway) (visit : Visit) (encoded : List Byte) :
    (execute g visit encoded).Delivered ↔
      ∃ call a, FsalCall.decodeExact encoded = some call ∧ call.authentication = some a ∧
        (operationSupported call.operationTag ∧ visit.operationDecodes) ∧
        call.acceptable a ∧
        ((g.keeps visit.first a visit.projectedAt ∧
            visit.first.response.complete) ∨
          (g.Renews visit a ∧ visit.second.response.complete)) := by
  have hrefused : ∀ {error}, ¬(Outcome.reply (.failure visit.requestId.1 error
      (ascii "nfs_fsal_wire")) g).Delivered := by
    rintro error ⟨⟨p, hp, -⟩, -⟩
    cases hp
  rw [execute]
  cases FsalCall.decodeExact encoded with
  | none => simp [hrefused]
  | some call =>
    simp only [Option.some.injEq, exists_and_left, exists_eq_left']
    cases call.authentication with
    | none => simp [hrefused]
    | some a =>
      simp only [Option.some.injEq, exists_eq_left']
      split
      · next hrefuse =>
        refine iff_of_false hrefused fun ⟨hoperation, hacceptable, _⟩ => ?_
        exact hrefuse.elim (fun h => h hoperation) fun h => h hacceptable
      · next haccept =>
        rw [not_or, not_not, not_not] at haccept
        rw [Outcome.delivered_iff serve_valid.1 serve_valid.2, serve_iff]
        exact ⟨fun h => ⟨haccept.1, haccept.2, h⟩, fun h => h.2.2⟩

/-! ## A gateway with one session -/

def aliceProjection : NfsSessionProjection where
  posixName := ascii "alice"
  primaryGroupName := ascii "users"
  projectedUid := 1000
  projectedGid := 1000
  mappingGeneration := 1
  featureGeneration := 1
  absoluteExpiresAtUnixSeconds := 1900000000
  allowedExportIds := [1]

def aliceAuthentication : FsalAuthentication := (lookupContext 1 3).authentication

def aliceCall : List Byte := ((lookupContext 1 3).call 53 lookupOperation).encodeToVec

def aliceGateway : Gateway where
  kerberosRealm := ascii "EXAMPLE.COM"
  admitted := some ⟨1, 100⟩
  sessions :=
    { rows := [
        { gssBinding := aliceAuthentication.gssBindingDigest
          sessionId := List.replicate 36 0x61
          credentialGeneration := 1
          authorizationGeneration := 1
          expiresAtUnixSeconds := 1900000000
          nfsClientId := some aliceAuthentication.clientId
          nfsSessionId := some aliceAuthentication.nfsSessionId
          projection := aliceProjection
          projectionValid := by decide +kernel }]
      nodup := List.nodup_singleton _ }

def sampleUuid : UuidText := ⟨List.replicate 36 0x62, by decide⟩

/-- An answer without anything but an error. -/
def staleAnswer : VfsAnswer where
  response := .failure sampleUuid.1 .staleGeneration (ascii "nfs_generation")
  envelopeValid := by decide +kernel
  attributesValid := by decide +kernel
  projectionValid := by decide +kernel
  bounded := by decide +kernel

def quietMoment (answer : Option VfsAnswer) : Moment where
  requestId := sampleUuid
  instant := 1
  unixSeconds := 1800000000
  diskStateMatches := true
  requestValid := true
  answer := answer

def quietVisit (first : Option VfsAnswer) : Visit where
  requestId := sampleUuid
  operationDecodes := true
  first := quietMoment first
  authentication := quietMoment none
  boundAt := 1800000000
  second := quietMoment first
  projectedAt := 1800000000

/-- A packet that cannot be decoded, a context that is not authenticated and an
error that ends the session. -/
def lostOutcomes : List Outcome :=
  [execute aliceGateway (quietVisit none) [0xFF],
    execute { aliceGateway with kerberosRealm := ascii "OTHER.ORG", sessions := .empty }
      (quietVisit none) aliceCall,
    execute aliceGateway (quietVisit (some staleAnswer)) aliceCall]

/-- Each has its response, but the module refuses the reply. -/
theorem bridge_reply_refused :
    lostOutcomes.map (fun outcome => (outcome.response.error,
      parsePrivateReply outcome.encode.encodeToVec)) =
        [(.invalidRequest, none), (.unauthenticated, none), (.staleGeneration, none)] := by
  decide +kernel

end FileBelt.Nfs
