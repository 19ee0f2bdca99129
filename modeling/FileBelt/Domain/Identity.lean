import Mathlib.Order.Basic
import Mathlib.Order.Compare

/-!
# Stable identities of the FileBelt domain

Identifiers are version-4 UUIDs in the source.  The programs modelled here
only compare them, for equality and in the order of their 128-bit value, so
they are represented by natural numbers.
-/

namespace FileBelt

abbrev Uuid := ℕ
abbrev PrincipalId := Uuid
abbrev GroupId := Uuid
abbrev NodeId := Uuid
abbrev DriveId := Uuid
abbrev AclEntryId := Uuid

/-- The Virtual ACL action vocabulary, in policy order. -/
inductive Action
  | readMetadata | listChildren | readContent | createChild | writeContent
  | createVersion | rename | move | delete | restore | setAttributes | share
  | manageAcl | manageDrive | transcode | useExternalEditor | comment | review
  | useMcp | mount | export | traverse | readRepository | writeRepository
  | manageRepository | bypassRepositoryRules
  deriving DecidableEq, Repr

/-- Position of an action in the policy order; the derived order of the source
enumeration compares these. -/
def Action.rank (action : Action) : ℕ := action.ctorIdx

theorem Action.rank_injective : Function.Injective Action.rank := by
  intro a b h
  cases a <;> cases b <;> first | rfl | exact absurd h (by decide)

inductive ResourceId
  | tenant (id : Uuid)
  | group (id : GroupId)
  | drive (id : DriveId)
  | node (id : NodeId)
  | fileVersion (id : Uuid)
  | uploadSession (id : Uuid)
  | shareLink (id : Uuid)
  deriving DecidableEq, Repr

inductive DriveOwner
  | user (owner : PrincipalId)
  | group (owner : GroupId)
  | organization (owner : PrincipalId)
  | service (owner : PrincipalId)
  deriving DecidableEq, Repr

inductive GroupRole
  | member | manager
  deriving DecidableEq, Repr

end FileBelt
