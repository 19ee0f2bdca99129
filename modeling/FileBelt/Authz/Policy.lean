import FileBelt.Domain.Identity
import Mathlib.Data.List.Sort
import Mathlib.Data.List.Dedup

/-!
# Virtual ACL facts and the plain evaluator

ACL entries resolved against the ancestry of a target, principal contexts, and the
decision of `evaluate` with owner rights and global deny precedence.  The loop that
distributes the applicable entries over vectors is written as filters.
-/

namespace FileBelt.Authz

/-- Whether an ACL entry grants or rejects an action. -/
inductive Effect
  | allow | deny
  deriving DecidableEq, Repr

/-- How an ACL entry propagates below the resource where it is attached. -/
inductive Inheritance
  | thisResource | children | descendants
  deriving DecidableEq, Repr

/-- Whether the entry applies at an ancestry distance. -/
def Inheritance.appliesAt (inheritance : Inheritance) (distance : ℕ) : Bool :=
  distance == 0 ||
    match inheritance with
    | .thisResource => false
    | .children => distance == 1
    | .descendants => true

/-- One explicit Virtual ACL rule attached to a resource. -/
structure AclEntry where
  id : AclEntryId
  resource : ResourceId
  principal : PrincipalId
  action : Action
  effect : Effect
  inheritance : Inheritance
  generation : ℕ
  createdBy : PrincipalId
  deriving DecidableEq, Repr

/-- An ACL entry paired with its ancestry distance to the target. -/
structure ResolvedAclEntry where
  entry : AclEntry
  distance : ℕ
  deriving DecidableEq, Repr

variable {ids : List AclEntryId} {entries : List ResolvedAclEntry} {effect : Effect}

namespace ResolvedAclEntry

def direct (entry : AclEntry) : ResolvedAclEntry := { entry := entry, distance := 0 }

def inherited (entry : AclEntry) (distance : ℕ) : Option ResolvedAclEntry :=
  if distance = 0 then none else some { entry := entry, distance := distance }

def isDirect (resolved : ResolvedAclEntry) : Bool := resolved.distance == 0

def applies (resolved : ResolvedAclEntry) : Bool :=
  resolved.entry.inheritance.appliesAt resolved.distance

end ResolvedAclEntry

/-- One flat-group membership of a principal. -/
structure GroupMembership where
  groupId : GroupId
  groupPrincipalId : PrincipalId
  role : GroupRole
  deriving DecidableEq, Repr

/-- Resolved principal facts needed by the evaluator. -/
structure PrincipalContext where
  principalId : PrincipalId
  memberships : List GroupMembership
  deriving DecidableEq, Repr

def PrincipalContext.includesPrincipal
    (context : PrincipalContext) (candidate : PrincipalId) : Bool :=
  candidate == context.principalId ||
    context.memberships.any fun membership =>
      membership.groupPrincipalId == candidate

def PrincipalContext.managesGroup (context : PrincipalContext) (groupId : GroupId) : Bool :=
  context.memberships.any fun membership =>
    membership.groupId == groupId && membership.role == .manager

/-- Stable reason for an allow or deny decision. -/
inductive DecisionReason
  | owner | groupOwnerManager | explicitAllow | inheritedAllow | explicitDeny | inheritedDeny
  | noMatchingGrant
  deriving DecidableEq, Repr

/-- The generations that qualify an authorization decision. -/
structure GenerationSnapshot where
  (resourceAcl membership namespaceGeneration : ℕ)
  deriving DecidableEq, Repr

/-- Authorization result, its reason and the entries that determined it. -/
structure AuthorizationDecision where
  allowed : Bool
  reason : DecisionReason
  sourceEntries : List AclEntryId
  generations : GenerationSnapshot
  deriving DecidableEq, Repr

/-- Sorted, without repeats.  The source drops consecutive repeats of a sorted vector. -/
def canonicalizeIds (ids : List AclEntryId) : List AclEntryId := (ids.insertionSort (· ≤ ·)).dedup

@[simp]
theorem mem_canonicalizeIds {id : AclEntryId} : id ∈ canonicalizeIds ids ↔ id ∈ ids := by
  simp [canonicalizeIds]

@[simp]
theorem canonicalizeIds_eq_nil : canonicalizeIds ids = [] ↔ ids = [] := by
  simp [List.eq_nil_iff_forall_not_mem]

/-- Drive owners hold every action except the repository bypass. -/
def implicitOwnerReason (principal : PrincipalContext) (driveOwner : DriveOwner)
    (action : Action) : Option DecisionReason :=
  if action = .bypassRepositoryRules then none
  else
    match driveOwner with
    | .user owner | .organization owner | .service owner =>
      if owner = principal.principalId then some .owner else none
    | .group groupId =>
      if principal.managesGroup groupId then some .groupOwnerManager
      else none

/-- The guard of both evaluation loops. -/
def entryApplicable (principal : PrincipalContext) (resource : ResourceId) (action : Action)
    (resolved : ResolvedAclEntry) : Bool :=
  resolved.entry.action == action &&
    principal.includesPrincipal resolved.entry.principal &&
    resolved.applies &&
    (resolved.isDirect == (resolved.entry.resource == resource))

/-- Identifiers of the entries with one effect and one directness. -/
def entryIds (entries : List ResolvedAclEntry) (effect : Effect) (direct : Bool) :
    List AclEntryId :=
  (entries.filter fun resolved =>
    resolved.entry.effect == effect && resolved.isDirect == direct).map
      fun resolved => resolved.entry.id

theorem entryIds_eq_nil {direct : Bool} : entryIds entries effect direct = [] ↔
      ∀ resolved ∈ entries, resolved.entry.effect = effect → resolved.isDirect ≠ direct := by
  simp [entryIds]

/-- Direct evidence gives the first reason, inherited evidence alone the second. -/
def entryVerdict (entries : List ResolvedAclEntry) (effect : Effect)
    (explicitReason inheritedReason : DecisionReason) : Option (DecisionReason × List AclEntryId) :=
  let directIds := canonicalizeIds (entryIds entries effect true)
  let inheritedIds := canonicalizeIds (entryIds entries effect false)
  if directIds.isEmpty && inheritedIds.isEmpty then none
  else
    some (if directIds.isEmpty then inheritedReason else explicitReason,
        canonicalizeIds (directIds ++ inheritedIds))

theorem entryVerdict_isSome {explicitReason inheritedReason : DecisionReason} :
    (entryVerdict entries effect explicitReason inheritedReason).isSome ↔
      ∃ resolved ∈ entries, resolved.entry.effect = effect := by
  simp only [entryVerdict, List.isEmpty_iff, Bool.and_eq_true,
    canonicalizeIds_eq_nil, entryIds_eq_nil]
  constructor
  · intro h
    by_contra hnone
    push Not at hnone
    rw [if_pos] at h
    · simp at h
    · exact ⟨fun resolved hmem heffect => absurd heffect (hnone resolved hmem),
        fun resolved hmem heffect => absurd heffect (hnone resolved hmem)⟩
  · rintro ⟨resolved, hmem, heffect⟩
    rw [if_neg]
    · simp
    · rintro ⟨hdirect, hinherited⟩
      cases h : resolved.isDirect <;> simp_all

structure AuthorizationRequest where
  principal : PrincipalContext
  resource : ResourceId
  driveOwner : DriveOwner
  action : Action
  entries : List ResolvedAclEntry
  generations : GenerationSnapshot

/-- Evaluates one action with owner rights and global deny precedence. -/
def evaluate (request : AuthorizationRequest) : AuthorizationDecision :=
  match implicitOwnerReason request.principal request.driveOwner request.action with
  | some reason =>
    { allowed := true, reason := reason, sourceEntries := [],
      generations := request.generations }
  | none =>
    let applicable := request.entries.filter
      (entryApplicable request.principal request.resource request.action)
    match entryVerdict applicable .deny .explicitDeny .inheritedDeny with
    | some (reason, sources) =>
      { allowed := false, reason := reason, sourceEntries := sources,
        generations := request.generations }
    | none =>
      match entryVerdict applicable .allow .explicitAllow .inheritedAllow with
      | some (reason, sources) =>
        { allowed := true, reason := reason, sourceEntries := sources,
          generations := request.generations }
      | none =>
        { allowed := false, reason := .noMatchingGrant,
          sourceEntries := [], generations := request.generations }

end FileBelt.Authz
