import FileBelt.Authz.Snapshot
import FileBelt.Tree.Ancestry

/-!
# Facts behind an authorization decision

A decision depends on the ACL rows and direct shares of the drive, on the groups of
the actor and of the creators of active recursive shares, and on whether these are
enabled.  Every edit of the policy tables that changes one of these facts advances
the generation of the actor or the ACL generation of the drive.
-/

namespace FileBelt.Database

open Support

/-- The foreign keys that the decision relies on; an ACL row of a share agrees
with the unrevoked share. -/
structure State.PolicyInvariant (db : State) : Prop where
  sessions : ∀ s ∈ db.sessions.rows,
    ∃ u, db.users.get s.userId = some u ∧ u.principalId = s.principalId
  users : ∀ u ∈ db.users.rows, db.principals.get u.principalId ≠ none
  owners : ∀ d ∈ db.drives.rows, db.principals.get d.ownerPrincipalId ≠ none
  members : ∀ m ∈ db.memberships.rows, db.groups.get m.groupId ≠ none
  shares : ∀ row ∈ db.aclEntries.rows, ∀ id, row.directShareId = some id →
    ∃ share, db.directShares.get id = some share ∧ row.OfShare share
  creators : ∀ s ∈ db.directShares.rows, db.principals.get s.createdBy ≠ none

/-- A principal later: its generation does not decrease. -/
def PrincipalRow.Later (p p' : PrincipalRow) : Prop :=
  p.generation ≤ p'.generation ∧ p'.kind = p.kind

/-- A drive later: its generations do not decrease. -/
def DriveRow.Later (d d' : DriveRow) : Prop :=
  d.aclGeneration ≤ d'.aclGeneration ∧
    d.namespaceGeneration ≤ d'.namespaceGeneration ∧
    d'.ownerPrincipalId = d.ownerPrincipalId

variable {principals : Table PrincipalRow.id} {changed : List AclEntryRow}
  {principal row : PrincipalRow} {q id : PrincipalId}

theorem PrincipalRow.Later.refl (p : PrincipalRow) : p.Later p := ⟨le_rfl, rfl⟩

theorem PrincipalRow.Later.trans {p p' p'' : PrincipalRow} (h : p.Later p')
    (h' : p'.Later p'') : p.Later p'' :=
  ⟨h.1.trans h'.1, h'.2.trans h.2⟩

theorem DriveRow.Later.refl (d : DriveRow) : d.Later d := ⟨le_rfl, le_rfl, rfl⟩

theorem DriveRow.Later.trans {d d' d'' : DriveRow} (h : d.Later d')
    (h' : d'.Later d'') : d.Later d'' :=
  ⟨h.1.trans h'.1, h.2.1.trans h'.2.1, h'.2.2.trans h.2.2⟩

/-- Principals and drives stay, and their generations do not decrease. -/
structure State.Advances (db db' : State) : Prop where
  principals : Table.Advances PrincipalRow.Later db.principals db'.principals
  drives : Table.Advances DriveRow.Later db.drives db'.drives

theorem State.Advances.refl (db : State) : db.Advances db :=
  ⟨Table.advances_refl .refl _, Table.advances_refl .refl _⟩

variable {db db' db'' : State} {ρ κ : Type}

theorem State.Advances.trans (h : db.Advances db') (h' : db'.Advances db'') : db.Advances db'' :=
  ⟨h.principals.trans .trans h'.principals, h.drives.trans .trans h'.drives⟩

theorem State.Advances.principal_ne_none (h : db.Advances db') (hid : db.principals.get id ≠ none) :
    db'.principals.get id ≠ none := by
  obtain ⟨p, hp⟩ := Option.ne_none_iff_exists'.mp hid
  obtain ⟨_, hp', -⟩ := h.principals id p hp
  rw [hp']
  simp

theorem drives_bump (drives : Table DriveRow.id) (p : DriveRow → Bool) :
    Table.Advances DriveRow.Later drives
      (drives.update p (fun d => { d with aclGeneration := d.aclGeneration + 1 }) fun _ => rfl) :=
  Table.advances_update .refl _ _ _ _ fun _ => ⟨Nat.le_succ _, le_rfl, rfl⟩

theorem writePrincipalDisabled_principals (db : State)
    (principal : PrincipalId) (disabled : Bool) (extra : ℕ) :
    (writePrincipalDisabled db principal disabled extra).principals =
      (db.principals.update (fun r => r.id = principal) (fun r => { r with
          disabled := disabled, generation := r.generation + extra })
        (fun _ => rfl)).update
        (fun r => (db.principals.rows.filter fun r =>
          r.id = principal ∧ r.disabled ≠ disabled).any fun s => s.id = r.id)
        (fun r => { r with generation := r.generation + 1 })
        (fun _ => rfl) := rfl

theorem policyEdit_advances (h : PolicyEdit db db') : db.Advances db' := by
  have hprincipals : Table.Advances PrincipalRow.Later db.principals
      db.principals := Table.advances_refl .refl _
  have hdrives : Table.Advances DriveRow.Later db.drives db.drives := Table.advances_refl .refl _
  cases h with
  | frame _ hframe =>
    refine ⟨by rw [hframe.principals]; exact hprincipals, ?_⟩
    rcases hframe.drives with hsame | ⟨drive, hbump⟩
    · rw [hsame]
      exact hdrives
    · rw [hbump]
      apply Table.advances_update .refl
      · exact fun _ => rfl
      · exact fun _ => ⟨le_rfl, Nat.le_succ _, rfl⟩
  | account _ _ _ _ hprincipal _ hdrive =>
      exact ⟨Table.advances_insert .refl hprincipal, Table.advances_insert .refl hdrive⟩
  | group _ _ _ _ hprincipal =>
    exact ⟨Table.advances_insert .refl hprincipal, hdrives⟩
  | members =>
    refine ⟨?_, drives_bump _ _⟩
    apply Table.advances_update .refl
    · exact fun _ => rfl
    · exact fun _ => ⟨Nat.le_succ _, rfl⟩
  | email => exact ⟨hprincipals, hdrives⟩
  | status => exact ⟨hprincipals, drives_bump _ _⟩
  | disabled =>
    refine ⟨?_, drives_bump _ _⟩
    rw [writePrincipalDisabled_principals]
    refine Table.Advances.trans .trans (Table.advances_update .refl db.principals _ _ _ fun _ => ?_)
      (Table.advances_update .refl _ _ _ _ fun _ => ?_)
    · exact ⟨Nat.le_add_right _ _, rfl⟩
    · exact ⟨Nat.le_succ _, rfl⟩
  | deleteEntries => exact ⟨hprincipals, drives_bump _ _⟩
  | insertEntry => exact ⟨hprincipals, drives_bump _ _⟩
  | insertShare => exact ⟨hprincipals, hdrives⟩
  | revokeShares => exact ⟨hprincipals, hdrives⟩

/-! ## References are kept -/

theorem get_of_insert [DecidableEq κ] {key : ρ → κ} {t t' : Table key} {row r : ρ} {k : κ}
    (h : t.insert row = some t') (hk : t.get k = some r) : t'.get k = some r := by
  obtain ⟨r', hr', heq⟩ := Table.advances_insert (fun _ => rfl) h k r hk
  rw [hr', heq]

theorem get_insert_ne_none [DecidableEq κ] {key : ρ → κ} {t t' : Table key}
    {row : ρ} {k : κ} (h : t.insert row = some t') (hk : t.get k ≠ none) : t'.get k ≠ none := by
  obtain ⟨_, hr⟩ := Option.ne_none_iff_exists'.mp hk
  rw [get_of_insert h hr]
  simp

theorem mem_insert [DecidableEq κ] {key : ρ → κ} {t t' : Table key} {row r : ρ}
    (h : t.insert row = some t') : r ∈ t'.rows ↔ r ∈ t.rows ∨ r = row := by
  rw [(Table.insert_eq_some h).2, List.mem_append, List.mem_singleton]

theorem owners_update (hinv : db.PolicyInvariant) (hadvances : db.Advances db')
    {p : DriveRow → Bool} {f : DriveRow → DriveRow}
    (hdrives : db'.drives.rows = db.drives.rows.map fun d => if p d then f d else d)
    (howner : ∀ d, (f d).ownerPrincipalId = d.ownerPrincipalId) :
    ∀ d ∈ db'.drives.rows, db'.principals.get d.ownerPrincipalId ≠ none := by
  intro d' hd'
  rw [hdrives] at hd'
  obtain ⟨d, hd, rfl⟩ := List.mem_map.mp hd'
  rw [apply_ite DriveRow.ownerPrincipalId, howner, ite_self]
  exact hadvances.principal_ne_none (hinv.owners d hd)

theorem State.Frame.invariant (h : db.Frame db') (hinv : db.PolicyInvariant) :
    db'.PolicyInvariant := by
  have hadvances := policyEdit_advances (.frame db' h)
  refine ⟨?_, ?_, ?_, ?_, ?_, ?_⟩
  · intro s' hs'
    rw [h.users]
    rcases h.sessions s' hs' with ⟨s, hs, huser, hprincipal⟩ | hnew
    · obtain ⟨u, hu, heq⟩ := hinv.sessions s hs
      exact ⟨u, by rw [← huser]; exact hu, heq.trans hprincipal⟩
    · exact hnew
  · rw [h.users, h.principals]
    exact hinv.users
  · rcases h.drives with hsame | ⟨drive, hbump⟩
    · rw [hsame, h.principals]
      exact hinv.owners
    · refine owners_update hinv hadvances (congrArg Table.rows hbump) ?_
      exact fun _ => rfl
  · rw [h.memberships, h.groups]
    exact hinv.members
  · rw [h.aclEntries, h.directShares]
    exact hinv.shares
  · rw [h.directShares, h.principals]
    exact hinv.creators

/-- A share with an ACL row is not revoked. -/
theorem get_revokeShares {p : DirectShareRow → Bool} {row : AclEntryRow} {share : DirectShareRow}
    {id : Uuid} (hrows : ∀ row ∈ db.aclEntries.rows, ∀ s ∈ db.directShares.rows,
      row.directShareId = some s.id → p s = false)
    (hrow : row ∈ db.aclEntries.rows) (hid : row.directShareId = some id)
    (hshare : db.directShares.get id = some share) :
    (db.revokeShares p).directShares.get id = some share := by
  obtain ⟨hmem, hkey⟩ := Table.get_eq_some.mp hshare
  have hkept : p share = false := hrows row hrow share hmem (hid.trans (congrArg some hkey.symm))
  rw [State.revokeShares, Table.get_update, hshare]
  simp [hkept]

/-- The users keep their principals. -/
theorem State.PolicyInvariant.updateUsers (hinv : db.PolicyInvariant) (p : UserRow → Bool)
    (f : UserRow → UserRow) (hf : ∀ u, (f u).id = u.id)
    (hprincipal : ∀ u, (f u).principalId = u.principalId) :
    { db with users := db.users.update p f hf }.PolicyInvariant := by
  have hkeep : ∀ u, (if p u then f u else u).principalId = u.principalId := fun u => by
    rw [apply_ite UserRow.principalId, hprincipal, ite_self]
  refine { hinv with sessions := ?_, users := ?_ }
  · intro s hs
    obtain ⟨u, hu, heq⟩ := hinv.sessions s hs
    exact ⟨_, (Table.get_update _ _ _ hf _).trans (congrArg _ hu), (hkeep u).trans heq⟩
  · intro u' hu'
    obtain ⟨u, hu, rfl⟩ := List.mem_map.mp hu'
    rw [hkeep]
    exact hinv.users u hu

theorem policyEdit_invariant (hinv : db.PolicyInvariant) (h : PolicyEdit db db') :
    db'.PolicyInvariant := by
  have hadvances := policyEdit_advances h
  have hcreators : db'.directShares = db.directShares →
      ∀ s ∈ db'.directShares.rows, db'.principals.get s.createdBy ≠ none := by
    intro hshares s hs
    rw [hshares] at hs
    exact hadvances.principal_ne_none (hinv.creators s hs)
  have husers : db'.users = db.users →
      ∀ u ∈ db'.users.rows, db'.principals.get u.principalId ≠ none := by
    intro hsame u hu
    rw [hsame] at hu
    exact hadvances.principal_ne_none (hinv.users u hu)
  cases h with
  | frame _ hframe => exact hframe.invariant hinv
  | account _ principal _ _ hprincipal huser hdrive huserPrincipal howner hgroups hmemberships
      haclEntries hshares hsessions =>
      have hnew : db'.principals.get principal.id ≠ none := by
        rw [Table.get_insert hprincipal]
        simp
      refine ⟨?_, ?_, ?_, ?_, ?_, hcreators hshares⟩
      · intro s hs
        rw [hsessions] at hs
        obtain ⟨u, hu, heq⟩ := hinv.sessions s hs
        exact ⟨u, get_of_insert huser hu, heq⟩
      · intro u hu
        rcases (mem_insert huser).mp hu with hu | rfl
        · exact hadvances.principal_ne_none (hinv.users u hu)
        · rw [huserPrincipal]
          exact hnew
      · intro d hd
        rcases (mem_insert hdrive).mp hd with hd | rfl
        · exact hadvances.principal_ne_none (hinv.owners d hd)
        · rw [howner]
          exact hnew
      · rw [hmemberships, hgroups]
        exact hinv.members
      · rw [haclEntries, hshares]
        exact hinv.shares
  | group _ _ _ _ _ hgroup =>
    refine ⟨hinv.sessions, husers rfl, ?_, ?_, hinv.shares, hcreators rfl⟩
    · intro d hd
      exact hadvances.principal_ne_none (hinv.owners d hd)
    · intro m hm
      exact get_insert_ne_none hgroup (hinv.members m hm)
  | members memberships p hother hgroups =>
    refine ⟨hinv.sessions, husers rfl,
      owners_update hinv hadvances rfl fun _ => rfl, ?_, hinv.shares,
      hcreators rfl⟩
    intro m hm
    rcases hgroups m hm with hm | hgroup
    · exact hinv.members m hm
    · exact hgroup
  | email => exact hinv.updateUsers _ _ _ fun _ => rfl
  | status user status =>
    have hkept := hinv.updateUsers (fun u => u.id = user)
      (fun u => { u with status := status }) (fun _ => rfl) fun _ => rfl
    exact { hkept with owners := owners_update hinv hadvances rfl fun _ => rfl }
  | disabled =>
    exact ⟨hinv.sessions, husers rfl, owners_update hinv hadvances rfl fun _ => rfl, hinv.members,
      hinv.shares, hcreators rfl⟩
  | deleteEntries =>
    refine ⟨hinv.sessions, hinv.users,
      owners_update hinv hadvances rfl fun _ => rfl, hinv.members, ?_,
      hinv.creators⟩
    intro row hrow
    exact hinv.shares row (List.mem_of_mem_filter hrow)
  | insertEntry row entries hinsert hshare =>
    refine ⟨hinv.sessions, hinv.users,
      owners_update hinv hadvances rfl fun _ => rfl, hinv.members, ?_,
      hinv.creators⟩
    intro r hr
    rcases (mem_insert hinsert).mp hr with hr | rfl
    · exact hinv.shares r hr
    · exact hshare
  | insertShare share shares hinsert hcreator =>
    refine ⟨hinv.sessions, hinv.users, hinv.owners, hinv.members, ?_, ?_⟩
    · intro row hrow id hid
      obtain ⟨s, hs, hof⟩ := hinv.shares row hrow id hid
      exact ⟨s, get_of_insert hinsert hs, hof⟩
    · intro s hs
      rcases (mem_insert hinsert).mp hs with hs | rfl
      · exact hinv.creators s hs
      · exact hcreator
  | revokeShares p hrows =>
    refine { hinv with shares := ?_, creators := ?_ }
    · intro row hrow id hid
      obtain ⟨s, hs, hof⟩ := hinv.shares row hrow id hid
      exact ⟨s, get_revokeShares hrows hrow hid hs, hof⟩
    · intro s' hs'
      obtain ⟨s, hs, rfl⟩ := List.mem_map.mp hs'
      rw [apply_ite DirectShareRow.createdBy, ite_self]
      exact hinv.creators s hs

theorem policyInvariant_empty : State.empty.PolicyInvariant := by
  refine ⟨?_, ?_, ?_, ?_, ?_, ?_⟩ <;> exact fun _ h => absurd h List.not_mem_nil

/-! ## The facts of a decision -/

theorem groupsOf_congr (hmembers : db'.memberships.rows.filter (fun m => m.userPrincipalId = q) =
      db.memberships.rows.filter fun m => m.userPrincipalId = q)
    (hgroups : ∀ m ∈ db.memberships.rows, db'.groups.get m.groupId = db.groups.get m.groupId) :
    groupsOf db' q = groupsOf db q := by
  rw [groupsOf, hmembers]
  refine List.filterMap_congr fun m hm => ?_
  rw [hgroups m (List.mem_of_mem_filter hm)]

theorem principalEnabled_congr
    (husers : (db'.users.rows.filter (fun u => u.principalId = q)).map UserRow.status =
      (db.users.rows.filter fun u => u.principalId = q).map UserRow.status)
    (hprincipal : (db'.principals.get q).map PrincipalRow.disabled =
      (db.principals.get q).map PrincipalRow.disabled) :
    principalEnabled db' q = principalEnabled db q := by
  have henabled : ∀ db : State, principalEnabled db q =
      (((db.principals.get q).map PrincipalRow.disabled).any (· = false) &&
        decide ((db.users.rows.filter fun u => u.principalId = q).map UserRow.status = [] ∨
          ((db.users.rows.filter fun u => u.principalId = q).map UserRow.status).any
            (· = .active))) := by
    intro db
    simp [principalEnabled, Option.any_map, Function.comp_def]
  rw [henabled, henabled, husers, hprincipal]

theorem principalEnabled_updateUsers {p : UserRow → Bool} {f : UserRow → UserRow}
    (hrows : db'.users.rows = db.users.rows.map fun u => if p u then f u else u)
    (hprincipal : ∀ u, (f u).principalId = u.principalId)
    (hstatus : ∀ u ∈ db.users.rows, u.principalId = q → p u → (f u).status = u.status)
    (hprincipals : db'.principals = db.principals) :
    principalEnabled db' q = principalEnabled db q := by
  have hkey : ((fun u : UserRow => decide (u.principalId = q)) ∘ fun u => if p u then f u else u) =
      fun u => decide (u.principalId = q) := by
    funext u
    rw [Function.comp_apply, apply_ite UserRow.principalId, hprincipal, ite_self]
  refine principalEnabled_congr ?_ (by rw [hprincipals])
  rw [hrows, List.filter_map, hkey, List.map_map]
  refine List.map_congr_left fun u hu => ?_
  obtain ⟨hmem, hq⟩ := List.mem_filter.mp hu
  rw [Function.comp_apply]
  split
  · next hp => exact hstatus u hmem (of_decide_eq_true hq) hp
  · rfl

variable (actor : PrincipalId) (drive : DriveId) {db db' : State}
  {q : PrincipalId} {p : PrincipalId → Bool} {d d' : DriveRow}

/-- The actor and the creators of active recursive shares on the drive. -/
def Relevant (db : State) (q : PrincipalId) : Prop :=
  q = actor ∨ ∃ row ∈ db.aclEntries.rows, row.driveId = drive ∧
    directShareActive db row.directShareId ∧
    row.inheritance = .selfAndDescendants ∧ row.createdBy = q

/-- The facts of a decision of the actor on the drive are the same, up to the
account state of the actor. -/
structure SamePolicy (db db' : State) : Prop where
  entries : db'.aclEntries.rows.filter (fun a => a.driveId = drive) =
    db.aclEntries.rows.filter fun a => a.driveId = drive
  shares : ∀ row ∈ db.aclEntries.rows, row.driveId = drive →
    directShareActive db' row.directShareId = directShareActive db row.directShareId
  groups : ∀ q, Relevant actor drive db q → groupsOf db' q = groupsOf db q
  enabled : ∀ q, Relevant actor drive db q → q ≠ actor →
    principalEnabled db' q = principalEnabled db q
  ownerGroup : ∀ owner, db.principals.get owner ≠ none →
    db'.groups.rows.find? (fun g => g.principalId = owner) =
      db.groups.rows.find? fun g => g.principalId = owner

variable {actor drive}

theorem SamePolicy.mem_entries (h : SamePolicy actor drive db db') {row : AclEntryRow}
    (hdrive : row.driveId = drive) : row ∈ db'.aclEntries.rows ↔ row ∈ db.aclEntries.rows := by
  have hmem : ∀ rows : List AclEntryRow,
      row ∈ rows ↔ row ∈ rows.filter fun a => a.driveId = drive := by
    simp [hdrive]
  rw [hmem, h.entries, ← hmem]

theorem SamePolicy.relevant (h : SamePolicy actor drive db db')
    (hq : Relevant actor drive db q) : Relevant actor drive db' q := by
  refine hq.imp_right ?_
  rintro ⟨row, hrow, hdrive, hactive, hinheritance, hcreator⟩
  refine ⟨row, (h.mem_entries hdrive).mpr hrow, hdrive, ?_, hinheritance, hcreator⟩
  rw [h.shares row hrow hdrive]
  exact hactive

theorem SamePolicy.refl (db : State) : SamePolicy actor drive db db :=
  ⟨rfl, fun _ _ _ => rfl, fun _ _ => rfl, fun _ _ _ => rfl, fun _ _ => rfl⟩

theorem SamePolicy.trans (hadvances : db.Advances db') (h : SamePolicy actor drive db db')
    (h' : SamePolicy actor drive db' db'') : SamePolicy actor drive db db'' := by
  refine ⟨h'.entries.trans h.entries, ?_, ?_, ?_, ?_⟩
  · intro row hrow hdrive
    rw [h'.shares row ((h.mem_entries hdrive).mpr hrow) hdrive, h.shares row hrow hdrive]
  · intro q hq
    rw [h'.groups q (h.relevant hq), h.groups q hq]
  · intro q hq hne
    rw [h'.enabled q (h.relevant hq) hne, h.enabled q hq hne]
  · intro owner howner
    rw [h'.ownerGroup owner (hadvances.principal_ne_none howner), h.ownerGroup owner howner]

/-- Changes of a creator of an active recursive share advance the ACL generation. -/
theorem not_of_sharesFrom (hinv : db.PolicyInvariant) (hq : Relevant actor drive db q)
    (hne : q ≠ actor) (hcreators : sharesFrom db p drive = false) : p q = false := by
  obtain ⟨row, hrow, hdrive, hactive, hinheritance, hcreator⟩ := hq.resolve_left hne
  obtain ⟨id, hid, -⟩ := (Option.any_eq_true _ _).mp hactive
  obtain ⟨share, hshare, hof⟩ := hinv.shares row hrow id hid
  have hnone := List.any_eq_false.mp hcreators share (Table.get_eq_some.mp hshare).1
  rw [hof.createdBy, hcreator] at hnone
  exact Bool.eq_false_iff.mpr fun hp => hnone (decide_eq_true ⟨hof.driveId.trans hdrive, hp,
    hof.revoked, hof.inheritance.trans hinheritance⟩)

theorem relevant_principal (hinv : db.PolicyInvariant) (hactor : db.principals.get actor ≠ none)
    (hq : Relevant actor drive db q) : db.principals.get q ≠ none := by
  rcases hq with rfl | ⟨row, hrow, -, hactive, -, rfl⟩
  · exact hactor
  · obtain ⟨id, hid, -⟩ := (Option.any_eq_true _ _).mp hactive
    obtain ⟨share, hshare, hof⟩ := hinv.shares row hrow id hid
    rw [← hof.createdBy]
    exact hinv.creators share (Table.get_eq_some.mp hshare).1

/-! ## Unchanged generations mean that no trigger fired -/

theorem not_sharesFrom_of_same (db : State) (hd : db.drives.get drive = some d)
    (hd' : (db.bumpCreatorDrives p).drives.get drive = some d')
    (hacl : d'.aclGeneration = d.aclGeneration) : sharesFrom db p drive = false := by
  simp only [State.bumpCreatorDrives, Table.get_update] at hd'
  have hkept := Table.not_updated DriveRow.aclGeneration hd hd' hacl fun _ => Nat.succ_ne_self _
  rwa [Table.get_key hd] at hkept

theorem not_changed_of_same (db : State)
    (hd : db.drives.get drive = some d) (hd' : (db.bumpAcl changed).drives.get drive = some d')
    (hacl : d'.aclGeneration = d.aclGeneration) : ∀ row ∈ changed, row.driveId ≠ drive := by
  simp only [State.bumpAcl, Table.get_update] at hd'
  have hkept := Table.not_updated DriveRow.aclGeneration hd hd' hacl fun _ => Nat.succ_ne_self _
  rw [Table.get_key hd] at hkept
  simpa using hkept

theorem not_bumped_of_same (db : State) {r r' : PrincipalRow}
    (hr : db.principals.get actor = some r)
    (hr' : (db.bumpPrincipals p).principals.get actor = some r')
    (hgeneration : r'.generation = r.generation) : p actor = false := by
  simp only [State.bumpPrincipals, Table.get_update] at hr'
  have hkept := Table.not_updated PrincipalRow.generation hr hr' hgeneration
    fun _ => Nat.succ_ne_self _
  rwa [Table.get_key hr] at hkept

/-! ## Each edit -/

theorem State.Frame.same (h : db.Frame db') : SamePolicy actor drive db db' := by
  refine ⟨by rw [h.aclEntries], ?_, ?_, ?_, ?_⟩
  · intro row _ _
    rw [directShareActive, directShareActive, h.directShares]
  · intro q _
    exact groupsOf_congr (by rw [h.memberships]) fun m _ => by rw [h.groups]
  · intro q _ _
    exact principalEnabled_congr (by rw [h.users]) (by rw [h.principals])
  · intro owner _
    rw [h.groups]

/-- A fresh principal is no principal of the facts. -/
theorem map_disabled_insert {t t' : Table PrincipalRow.id} (h : t.insert row = some t')
    (hq : t.get q ≠ none) :
    (t'.get q).map PrincipalRow.disabled = (t.get q).map PrincipalRow.disabled := by
  obtain ⟨_, hr⟩ := Option.ne_none_iff_exists'.mp hq
  rw [get_of_insert h hr, hr]

theorem ne_of_insert {t t' : Table PrincipalRow.id} (h : t.insert row = some t')
    (hq : t.get q ≠ none) : row.id ≠ q := by
  rintro rfl
  exact hq (Table.insert_eq_some h).1

section

variable (hinv : db.PolicyInvariant)
include hinv

theorem same_account (hactor : db.principals.get actor ≠ none) {user : UserRow}
    (hprincipal : db.principals.insert principal = some db'.principals)
    (huser : db.users.insert user = some db'.users)
    (huserPrincipal : user.principalId = principal.id) (hgroups : db'.groups = db.groups)
    (hmemberships : db'.memberships = db.memberships) (haclEntries : db'.aclEntries = db.aclEntries)
    (hshares : db'.directShares = db.directShares) : SamePolicy actor drive db db' := by
  refine ⟨by rw [haclEntries], ?_, ?_, ?_, ?_⟩
  · intro row _ _
    rw [directShareActive, directShareActive, hshares]
  · intro q _
    exact groupsOf_congr (by rw [hmemberships]) fun m _ => by rw [hgroups]
  · intro q hq _
    have hexists := relevant_principal hinv hactor hq
    have hfresh : user.principalId ≠ q := by
      rw [huserPrincipal]
      exact ne_of_insert hprincipal hexists
    refine principalEnabled_congr ?_ (map_disabled_insert hprincipal hexists)
    rw [(Table.insert_eq_some huser).2]
    simp [hfresh]
  · intro owner _
    rw [hgroups]

theorem same_group (hactor : db.principals.get actor ≠ none) {groups : Table GroupRow.id}
    {group : GroupRow} (hprincipal : db.principals.insert principal = some principals)
    (hgroup : db.groups.insert group = some groups)
    (hgroupPrincipal : group.principalId = principal.id) :
    SamePolicy actor drive db { db with principals := principals, groups := groups } := by
  refine ⟨rfl, fun _ _ _ => rfl, ?_, ?_, ?_⟩
  · intro q _
    refine groupsOf_congr rfl fun m hm => ?_
    obtain ⟨_, hg⟩ := Option.ne_none_iff_exists'.mp (hinv.members m hm)
    rw [hg]
    exact get_of_insert hgroup hg
  · intro q hq _
    exact principalEnabled_congr rfl
      (map_disabled_insert hprincipal (relevant_principal hinv hactor hq))
  · intro owner howner
    have hfresh : group.principalId ≠ owner := by
      rw [hgroupPrincipal]
      exact ne_of_insert hprincipal howner
    rw [(Table.insert_eq_some hgroup).2]
    simp [hfresh]

theorem same_members {memberships : Table MembershipRow.key}
    (hother : ∀ q, p q = false → memberships.rows.filter (fun m => m.userPrincipalId =
      q) = db.memberships.rows.filter fun m => m.userPrincipalId = q)
    (hactor : p actor = false) (hcreators : sharesFrom db p drive = false) :
    SamePolicy actor drive db ({ db with memberships := memberships }.bumpMembers p) := by
  refine ⟨rfl, fun _ _ _ => rfl, ?_, ?_, fun _ _ => rfl⟩
  · intro q hq
    refine groupsOf_congr (hother q ?_) fun _ _ => rfl
    by_cases hne : q = actor
    · rw [hne]
      exact hactor
    · exact not_of_sharesFrom hinv hq hne hcreators
  · intro q _ _
    refine principalEnabled_congr rfl ?_
    dsimp only [State.bumpMembers, State.bumpCreatorDrives, State.bumpPrincipals]
    rw [Table.get_update, Option.map_map]
    congr 1
    funext r
    exact (apply_ite PrincipalRow.disabled _ _ _).trans (ite_self _)

theorem same_status {user : Uuid} {status : UserStatus}
    (hcreators : sharesFrom db (fun p => (db.users.rows.filter fun u => u.id = user ∧
      u.status ≠ status).any fun u => u.principalId = p) drive = false) :
    SamePolicy actor drive db (setUserStatus db user status) := by
  refine ⟨rfl, fun _ _ _ => rfl, fun _ _ => rfl, ?_, fun _ _ => rfl⟩
  intro q hq hne
  refine principalEnabled_updateUsers rfl (fun _ => rfl) ?_ rfl
  -- No user of a creator has changed.
  intro u hu hprincipal hid
  have hnone := List.any_eq_false.mp (not_of_sharesFrom hinv hq hne hcreators) u
  by_contra hchanged
  exact hnone (List.mem_filter.mpr ⟨hu, decide_eq_true ⟨of_decide_eq_true hid, Ne.symm hchanged⟩⟩)
    (decide_eq_true hprincipal)

theorem same_disabled {principal : PrincipalId} {disabled : Bool} {extra : ℕ}
    (hcreators : sharesFrom db (fun id => (db.principals.rows.filter fun r => r.id =
      principal ∧ r.disabled ≠ disabled).any fun r => r.id = id) drive = false) :
    SamePolicy actor drive db (writePrincipalDisabled db principal disabled extra) := by
  refine ⟨rfl, fun _ _ _ => rfl, fun _ _ => rfl, ?_, fun _ _ => rfl⟩
  intro q hq hne
  refine principalEnabled_congr rfl ?_
  rw [writePrincipalDisabled_principals, Table.get_update, Table.get_update]
  cases hget : db.principals.get q with
  | none => rfl
  | some r =>
    obtain ⟨hmem, hid⟩ := Table.get_eq_some.mp hget
    have hsame : r.id = principal → r.disabled = disabled := by
      intro hprincipal
      have hnone := List.any_eq_false.mp (not_of_sharesFrom hinv hq hne hcreators) r
      by_contra hchanged
      exact hnone (List.mem_filter.mpr ⟨hmem, decide_eq_true ⟨hprincipal, hchanged⟩⟩)
        (decide_eq_true hid)
    simp only [Option.map_some, decide_eq_true_eq]
    rw [apply_ite PrincipalRow.disabled, ite_self]
    split
    · next hprincipal => rw [hsame hprincipal]
    · rfl

end

theorem same_entries {entries : Table AclEntryRow.id}
    (hentries : entries.rows.filter (fun a => a.driveId = drive) =
      db.aclEntries.rows.filter fun a => a.driveId = drive) :
    SamePolicy actor drive db ({ db with aclEntries := entries }.bumpAcl changed) :=
  ⟨hentries, fun _ _ _ => rfl, fun _ _ => rfl, fun _ _ _ => rfl, fun _ _ => rfl⟩

theorem same_shares {shares : Table DirectShareRow.id}
    (hshares : ∀ row ∈ db.aclEntries.rows, ∀ id, row.directShareId = some id →
      shares.get id = db.directShares.get id) :
    SamePolicy actor drive db { db with directShares := shares } := by
  refine ⟨rfl, ?_, fun _ _ => rfl, fun _ _ _ => rfl, fun _ _ => rfl⟩
  intro row hrow _
  cases hid : row.directShareId with
  | none => rfl
  | some id =>
    simp only [directShareActive, Option.any_some]
    rw [hshares row hrow id hid]

theorem policyEdit_same (hinv : db.PolicyInvariant) (h : PolicyEdit db db') {r r' : PrincipalRow}
    (hr : db.principals.get actor = some r) (hr' : db'.principals.get actor = some r')
    (hd : db.drives.get drive = some d) (hd' : db'.drives.get drive = some d')
    (hgeneration : r'.generation = r.generation) (hacl : d'.aclGeneration = d.aclGeneration) :
    SamePolicy actor drive db db' := by
  have hactor : db.principals.get actor ≠ none := by simp [hr]
  cases h with
  | frame _ hframe => exact hframe.same
  | account _ _ _ _ hprincipal huser _ huserPrincipal _ hgroups hmemberships haclEntries hshares =>
      exact same_account hinv hactor hprincipal huser huserPrincipal hgroups
        hmemberships haclEntries hshares
  | group _ _ _ _ hprincipal hgroup hgroupPrincipal =>
    exact same_group hinv hactor hprincipal hgroup hgroupPrincipal
  | members memberships p hother =>
    have hbumped : p actor = false :=
      not_bumped_of_same { db with memberships := memberships } hr hr' hgeneration
    have hcreators : sharesFrom db p drive = false :=
      not_sharesFrom_of_same (State.bumpPrincipals { db with memberships := memberships } p) hd hd'
        hacl
    exact same_members hinv hother hbumped hcreators
  | email =>
    exact ⟨rfl, fun _ _ _ => rfl, fun _ _ => rfl, fun _ _ _ =>
      principalEnabled_updateUsers rfl (fun _ => rfl) (fun _ _ _ _ => rfl) rfl, fun _ _ => rfl⟩
  | status user status =>
    exact same_status hinv (not_sharesFrom_of_same { db with
      users := db.users.update (fun u => u.id = user)
        (fun u => { u with status := status }) (fun _ => rfl) } hd hd' hacl)
  | disabled =>
    exact same_disabled hinv (not_sharesFrom_of_same _ hd hd' hacl)
  | deleteEntries p =>
    have hkept := not_changed_of_same { db with aclEntries := db.aclEntries.delete p } hd hd' hacl
    refine same_entries ?_
    change (db.aclEntries.rows.filter _).filter _ = _
    rw [List.filter_filter]
    refine List.filter_congr fun row hrow => ?_
    by_cases hdrive : row.driveId = drive
    · have hp : p row = false := by
        by_contra hp
        rw [Bool.not_eq_false] at hp
        exact hkept row (List.mem_filter.mpr ⟨hrow, hp⟩) hdrive
      simp [hp]
    · simp [hdrive]
  | insertEntry row entries hinsert =>
    have hother := not_changed_of_same { db with aclEntries := entries } hd
      hd' hacl row (List.mem_singleton_self row)
    refine same_entries ?_
    rw [(Table.insert_eq_some hinsert).2]
    simp [hother]
  | insertShare share shares hinsert =>
    refine same_shares fun row hrow id hid => ?_
    obtain ⟨s, hs, -⟩ := hinv.shares row hrow id hid
    rw [hs]
    exact get_of_insert hinsert hs
  | revokeShares _ hrows =>
    refine same_shares fun row hrow id hid => ?_
    obtain ⟨s, hs, -⟩ := hinv.shares row hrow id hid
    rw [hs]
    exact get_revokeShares hrows hrow hid hs

end FileBelt.Database
