import FileBelt.Authz.RecursiveShare
import FileBelt.Database.Schema
import FileBelt.Support.RecursiveQuery

/-!
# Authorization snapshots

The facts that `authorization_snapshot` reads in one transaction, and the decision of
the API on them.  Rows come in the order of the tables; the recursive query over
share creators takes as many rounds as there are ACL rows.
-/

namespace FileBelt.Database

open Support

structure GroupInputRow where
  groupId : GroupId
  principalId : PrincipalId
  role : GroupRole
  generation : ℕ
  deriving DecidableEq, Repr

structure AclInputRow where
  id : AclEntryId
  resourceId : NodeId
  principalId : PrincipalId
  action : Action
  effect : Authz.Effect
  inheritance : AclInheritance
  depth : ℕ
  direct : Bool
  generation : ℕ
  createdBy : PrincipalId
  directShareId : Option Uuid
  directShareActive : Bool
  deriving DecidableEq, Repr

structure AuthorizationPrincipalFact where
  principalId : PrincipalId
  groups : List GroupInputRow
  entries : List AclInputRow
  deriving DecidableEq, Repr

structure AuthorizationSnapshot where
  driveId : DriveId
  resourceId : NodeId
  ownerPrincipalId : PrincipalId
  ownerKind : PrincipalKind
  ownerGroupId : Option GroupId
  actorPrincipalId : PrincipalId
  actorGroups : List GroupInputRow
  entries : List AclInputRow
  creatorFacts : List AuthorizationPrincipalFact
  (membershipGeneration driveAclGeneration namespaceGeneration resourceNamespaceGeneration
    resourceAclGeneration : ℕ)
  deriving DecidableEq, Repr

/-- The memberships of a principal joined with their groups. -/
def groupsOf (db : State) (principal : PrincipalId) : List GroupInputRow :=
  (db.memberships.rows.filter fun m => m.userPrincipalId = principal).filterMap
    fun m => (db.groups.get m.groupId).map fun g =>
      { groupId := g.id, principalId := g.principalId, role := m.role,
        generation := m.generation }

/-- The principal is not disabled, and its user, if it has one, is active. -/
def principalEnabled (db : State) (principal : PrincipalId) : Bool :=
  let users := db.users.rows.filter fun u => u.principalId = principal
  (db.principals.get principal).any (fun p => p.disabled = false) ∧
    (users = [] ∨ users.any fun u => u.status = .active)

def directShareActive (db : State) (share : Option Uuid) : Bool :=
  share.any fun id => (db.directShares.get id).any fun s => s.revoked = false

/-- The ACL rows on the ancestors of a resource, with their distance. -/
def ancestorEntries (db : State) (drive : DriveId) (resource : NodeId) : List (ℕ × AclEntryRow) :=
  (db.space.ancestry.rows.filter fun r =>
    r.driveId = drive ∧ r.descendantId = resource).flatMap fun r =>
      ((db.aclEntries.rows.filter fun a => a.driveId = drive).filter fun a =>
        a.resourceId = r.ancestorId).map fun a => (r.depth, a)

/-- The recursive term over share creators. -/
def shareCreators (db : State) (drive : DriveId) (resource : NodeId)
    (principal : PrincipalId) : List PrincipalId :=
  if principalEnabled db principal then
    ((ancestorEntries db drive resource).filter fun entry =>
      directShareActive db entry.2.directShareId ∧
        (entry.2.principalId = principal ∨
          (groupsOf db principal).any fun g =>
            entry.2.principalId = g.principalId) ∧
        entry.2.effect = .allow ∧
        entry.2.inheritance = .selfAndDescendants).map
      fun entry => entry.2.createdBy
  else []

/-- The recursive query with its final filter. -/
def graphPrincipals (db : State) (actor : PrincipalId) (drive : DriveId)
    (resource : NodeId) : List PrincipalId :=
  (recursiveUnion (shareCreators db drive resource)
    (ancestorEntries db drive resource).length [actor]).filter (principalEnabled db)

/-- Which ACL rows a query over the ancestry returns. -/
def entryReaches (resource : NodeId) (depth : ℕ) (entry : AclEntryRow) : Bool :=
  entry.resourceId = resource ∨
    (depth = 1 ∧ (entry.inheritance = .children ∨
      entry.inheritance = .descendants ∨
      entry.inheritance = .selfAndDescendants)) ∨
    (1 < depth ∧ (entry.inheritance = .descendants ∨ entry.inheritance = .selfAndDescendants))

def factEntries (db : State) (drive : DriveId) (resource : NodeId)
    (principal : PrincipalId) : List AclInputRow :=
  let subjects := (principal ::
    (groupsOf db principal).map GroupInputRow.principalId).dedup
  subjects.flatMap fun subject =>
    ((ancestorEntries db drive resource).filter fun entry =>
      entry.2.principalId = subject ∧ entryReaches resource entry.1 entry.2).map fun entry =>
      { id := entry.2.id
        resourceId := entry.2.resourceId
        principalId := entry.2.principalId
        action := entry.2.action
        effect := entry.2.effect
        inheritance := entry.2.inheritance
        depth := entry.1
        direct := entry.2.resourceId = resource
        generation := entry.2.generation
        createdBy := entry.2.createdBy
        directShareId := entry.2.directShareId
        directShareActive := directShareActive db entry.2.directShareId }

/-- The values of the map of creator facts, in the order of its keys. -/
def creatorFacts (db : State) (actor : PrincipalId) (drive : DriveId)
    (resource : NodeId) : List AuthorizationPrincipalFact :=
  ((graphPrincipals db actor drive resource).insertionSort (· ≤ ·)).map fun principal =>
      { principalId := principal
        groups := groupsOf db principal
        entries := factEntries db drive resource principal }

/-- The snapshot that is made of the rows of the drive, its owner, the node and the actor. -/
def snapshotOf (db : State) (actor : PrincipalId) (drive : DriveId)
    (resource : NodeId) (driveRow : DriveRow) (owner : PrincipalRow)
    (node : NodeRow) (principal : PrincipalRow) : AuthorizationSnapshot where
  driveId := drive
  resourceId := resource
  ownerPrincipalId := driveRow.ownerPrincipalId
  ownerKind := owner.kind
  ownerGroupId := (db.groups.rows.find? fun g =>
    g.principalId = owner.id).map GroupRow.id
  actorPrincipalId := actor
  actorGroups := groupsOf db actor
  entries := factEntries db drive resource actor
  creatorFacts := creatorFacts db actor drive resource
  membershipGeneration := principal.generation
  driveAclGeneration := driveRow.aclGeneration
  namespaceGeneration := driveRow.namespaceGeneration
  resourceNamespaceGeneration := node.namespaceGeneration
  resourceAclGeneration := node.aclGeneration

def authorizationSnapshot (db : State) (actor : PrincipalId) (drive : DriveId)
    (resource : NodeId) : Except DatabaseError AuthorizationSnapshot := do
  let driveRow ← okOr (db.drives.get drive) .notFound
  let owner ← okOr (db.principals.get driveRow.ownerPrincipalId) .notFound
  let node ← okOr (db.node drive resource) .notFound
  let principal ← okOr ((db.principals.get actor).filter fun p =>
    p.disabled = false) .notFound
  -- An empty result and one without the actor have the same error.
  if actor ∉ graphPrincipals db actor drive resource then .error .notFound
  else .ok (snapshotOf db actor drive resource driveRow owner node principal)

end FileBelt.Database

namespace FileBelt.Api

open Authz Database

structure AuthorizationGrant where
  (membershipGeneration driveAclGeneration namespaceGeneration resourceAclGeneration : ℕ)
  deriving DecidableEq, Repr

def positiveU64 (value : ℕ) : Except ApiError ℕ := if value = 0 then .error .internal else .ok value

def principalContext (principal : PrincipalId) (groups : List GroupInputRow) :
    PrincipalContext where
  principalId := principal
  memberships := groups.map fun group =>
    { groupId := group.groupId, groupPrincipalId := group.principalId,
      role := group.role }

def aclInheritance : AclInheritance → Inheritance
  | .self => .thisResource
  | .children => .children
  | .descendants | .selfAndDescendants => .descendants

/-- Direct entries have no distance; an inherited one needs a positive
distance. -/
def resolveRow (row : AclInputRow) (entry : AclEntry) : Except ApiError ResolvedAclEntry :=
  if row.direct then .ok (.direct entry)
  else okOr (ResolvedAclEntry.inherited entry row.depth) .internal

def recursiveShareEntry (row : AclInputRow) : Except ApiError RecursiveShareResolvedAclEntry :=
  if row.directShareId.isSome ∧ ¬row.directShareActive then .error .internal
  else do
    let generation ← positiveU64 row.generation
    let resolved ← resolveRow row
      { id := row.id
        resource := .node row.resourceId
        principal := row.principalId
        action := row.action
        effect := row.effect
        inheritance := aclInheritance row.inheritance
        generation := generation
        createdBy := row.createdBy }
    .ok
      { resolved := resolved
        provenance :=
          if row.directShareActive ∧ row.inheritance = .selfAndDescendants then
            .recursiveDirectShare row.createdBy
          else .independent }

def driveOwner (snapshot : AuthorizationSnapshot) : Except ApiError DriveOwner :=
  match snapshot.ownerKind with
  | .user => .ok (.user snapshot.ownerPrincipalId)
  | .group => do
      let group ← okOr snapshot.ownerGroupId .internal
      .ok (.group group)
  | .service => .ok (.service snapshot.ownerPrincipalId)
  | .shareLink | .mountSession | .documentSession => .error .internal

def principalFacts (facts : AuthorizationPrincipalFact) :
    Except ApiError PrincipalAuthorizationFacts := do
  let entries ← facts.entries.mapM recursiveShareEntry
  .ok
    { principal := principalContext facts.principalId facts.groups
      entries := entries }

/-- A limit is reported as a missing resource; the `expect` calls would unwind. -/
def evaluationFault : RecursiveShareFault → ApiError
  | .limit _ => .notFound
  | .missingDepth | .missingRoot => .internal

/-- The request that the API puts to the evaluator. -/
def snapshotRequest (snapshot : AuthorizationSnapshot) (action : Action) :
    Except ApiError RecursiveShareAuthorizationRequest := do
  let entries ← snapshot.entries.mapM recursiveShareEntry
  let facts ← snapshot.creatorFacts.mapM principalFacts
  let resourceAcl ← positiveU64 snapshot.resourceAclGeneration
  let membership ← positiveU64 snapshot.membershipGeneration
  let namespaceGeneration ← positiveU64 snapshot.namespaceGeneration
  let owner ← driveOwner snapshot
  .ok
    { principal := principalContext snapshot.actorPrincipalId
        snapshot.actorGroups
      resource := .node snapshot.resourceId
      driveOwner := owner
      action := action
      entries := entries
      creatorFacts := facts
      generations :=
        { resourceAcl := resourceAcl
          membership := membership
          namespaceGeneration := namespaceGeneration } }

def evaluateSnapshot (snapshot : AuthorizationSnapshot) (action : Action) :
    Except ApiError AuthorizationGrant := do
  let request ← snapshotRequest snapshot action
  let decision ← (evaluateRecursiveDirectShares request).mapError evaluationFault
  if ¬decision.allowed then .error .notFound
  else
    let driveAcl ← positiveU64 snapshot.driveAclGeneration
    .ok
      { membershipGeneration := request.generations.membership
        driveAclGeneration := driveAcl
        namespaceGeneration := request.generations.namespaceGeneration
        resourceAclGeneration := request.generations.resourceAcl }

def authorize (db : State) (actor : PrincipalId) (drive : DriveId)
    (resource : NodeId) (action : Action) : Except ApiError AuthorizationGrant := do
  let snapshot ← (authorizationSnapshot db actor drive resource).mapError
    .fromDatabase
  evaluateSnapshot snapshot action

end FileBelt.Api
