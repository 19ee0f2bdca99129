import FileBelt.Cow.Sizes

/-!
# Recovery of a session

`recover_cow_under_lock` removes the initialization directories of the session and
the files that were being written, and keeps the chunks.  It fails exactly if it
finds a name it does not know.
-/

namespace FileBelt.Cow

open Support Support.Proc Support.FileSystem

variable {b n : ℕ} {session operation : Uuid} {s t u : Disk b} {place : Place} {x : EntryName}
  {r : Unit} {d : Directory EntryName} {l : Link EntryName} {rest : List (Link EntryName)}

/-- Changes to the directories of the session and to new files only. -/
abbrev OnlySession (session : Uuid) (s t : Disk b) : Prop :=
  Confined (fun place _ => place = Place.cow session ∨ isInitOf session place) s t

/-- Names of chunks were removed in one directory. -/
structure Shrunk (place : Place) (s t : Disk b) : Prop where
  confined : Confined (fun place' _ => place' = place) s t
  lookup_eq : ∀ x, (t.lookup place x).isSome → t.lookup place x = s.lookup place x
  removed : ∀ x, t.lookup place x = none → (s.lookup place x).isSome →
    ∃ n, parseCowChunkName x = .ok n

theorem Shrunk.refl (place : Place) (s : Disk b) : Shrunk place s s where
  confined := Confined.refl s
  lookup_eq _ _ := rfl
  removed x hnone hsome := by
    rw [hnone] at hsome
    cases hsome

theorem Shrunk.trans (h : Shrunk place s t) (h' : Shrunk place t u) : Shrunk place s u where
  confined := h.confined.trans h'.confined
  lookup_eq x hx := by
    have heq := h'.lookup_eq x hx
    rw [heq] at hx ⊢
    exact h.lookup_eq x hx
  removed x hnone hsome := by
    cases hmid : t.lookup place x with
    | none => exact h.removed x hmid hsome
    | some => exact h'.removed x hnone (by rw [hmid]; rfl)

theorem unlink_names (h : FileSystem.unlink place x s = .ok (r, t)) :
    Confined (fun place' _ => place' = place) s t ∧
      (∀ y, (t.lookup place y).isSome → t.lookup place y = s.lookup place y) ∧
      ∀ y, t.lookup place y = none → (s.lookup place y).isSome → y = x := by
  have hlinks := unlink_ok h
  refine ⟨hlinks.confined_all fun _ => rfl, fun y hy => ?_, fun y hnone hsome => ?_⟩
  · rw [hlinks.lookup_eq] at hy ⊢
    split at hy
    · cases hy
    · next hne => rw [if_neg hne]
  · by_contra hne
    rw [hlinks.lookup_eq, if_neg hne] at hnone
    rw [hnone] at hsome
    cases hsome

theorem shrunk_unlink (hx : parseCowChunkName x = .ok n)
    (h : FileSystem.unlink place x s = .ok (r, t)) : Shrunk place s t := by
  obtain ⟨hconfined, hkept, hremoved⟩ := unlink_names h
  refine ⟨hconfined, hkept, fun y hnone hsome => ?_⟩
  obtain rfl := hremoved y hnone hsome
  exact ⟨n, hx⟩

theorem shrunk_rmdir (hempty : ∀ x, s.lookup place x = none)
    (h : FileSystem.rmdir place s = .ok (r, t)) : Shrunk place s t ∧ t.dir place = none := by
  have hdirs := rmdir_ok h
  have hnone : t.dir place = none := by
    rw [hdirs.dir_eq, Function.update_self]
  refine ⟨⟨hdirs.confined (update_eq_or _ _ fun _ => rfl), fun x hx => ?_, fun x _ hx => ?_⟩, hnone⟩
  · rw [FileSystem.lookup, hnone] at hx
    cases hx
  · rw [hempty] at hx
    cases hx

theorem rows_eq_nil (hd : s.dir place = some d) (h : ∀ x, s.lookup place x = none) :
    d.rows = [] := by
  apply List.eq_nil_iff_forall_not_mem.mpr
  intro l hl
  have hsome := lookup_isSome_of_link hd hl
  rw [h] at hsome
  cases hsome

/-- What the loop that empties a directory has still to remove. -/
structure Emptying (place : Place) (d : Directory EntryName) (s : Disk b)
    (rest : List (Link EntryName)) (t : Disk b) : Prop where
  shrunk : Shrunk place s t
  present : (t.dir place).isSome
  names : ∀ x, (t.lookup place x).isSome ↔ x ∈ rest.map Link.name
  nodup : (rest.map Link.name).Nodup
  visited : ∀ l ∈ d.rows, l ∈ rest ∨ ∃ n, parseCowChunkName l.name = .ok n

theorem emptying_start (hd : s.dir place = some d) : Emptying place d s d.rows s where
  shrunk := Shrunk.refl place s
  present := by rw [hd]; rfl
  names x := by
    constructor
    · intro hx
      obtain ⟨l, hl, rfl⟩ := exists_row hd hx
      exact List.mem_map_of_mem hl
    · intro hx
      obtain ⟨_, hl, rfl⟩ := List.mem_map.mp hx
      exact lookup_isSome_of_link hd hl
  nodup := d.nodup
  visited _ hl := .inl hl

theorem visited_next {parse : EntryName → Except StorageError ℕ}
    (h : ∀ l' ∈ d.rows, l' ∈ l :: rest ∨ ∃ n, parse l'.name = .ok n) (hl : parse l.name = .ok n) :
    ∀ l' ∈ d.rows, l' ∈ rest ∨ ∃ n, parse l'.name = .ok n := by
  intro l' hl'
  rcases h l' hl' with hmem | hdone
  · rcases List.mem_cons.mp hmem with rfl | hrest
    · exact .inr ⟨n, hl⟩
    · exact .inl hrest
  · exact .inr hdone

theorem spec_removeEntry (ht : Emptying place d s (l :: rest) t) :
    Spec (removeEntry parseCowChunkName place l) t (Shrunk place s)
      (fun _ u => Emptying place d s rest u)
      (fun _ u => Shrunk place s u ∧ ¬ChunkNames place s) := by
  have hhere : (t.lookup place l.name).isSome := (ht.names l.name).mpr (List.mem_cons_self ..)
  refine spec_checked (fun n hn => ?_) fun e he => ⟨ht.shrunk, fun hnames => ?_⟩
  · obtain ⟨_, hunlink⟩ := exists_unlink hhere
    have hlinks := unlink_ok hunlink
    have hshrunk := ht.shrunk.trans (shrunk_unlink hn hunlink)
    refine spec_called (fsCall_eq hunlink) hshrunk ⟨hshrunk, hlinks.present',
      fun x => ?_, ht.nodup.of_cons, visited_next ht.visited hn⟩
    rw [hlinks.lookup_eq]
    by_cases hx : x = l.name
    · rw [if_pos hx]
      refine ⟨fun h => (by cases h), fun h => ?_⟩
      exact absurd (hx ▸ h) (List.nodup_cons.mp ht.nodup).1
    · rw [if_neg hx, ht.names, List.map_cons, List.mem_cons]
      exact ⟨fun h => h.resolve_left hx, .inr⟩
  · rw [ht.shrunk.lookup_eq _ hhere] at hhere
    obtain ⟨_, hn⟩ := hnames l.name hhere
    rw [hn] at he
    cases he

/-- Removing a directory fails exactly if it has a name that is not of a chunk. -/
theorem spec_removeDirectory (place : Place) (s : Disk b) :
    Spec (removeDirectory parseCowChunkName place) s (Shrunk place s)
      (fun _ t => Shrunk place s t ∧ t.dir place = none ∧ ChunkNames place s)
      (fun _ t => Shrunk place s t ∧ ¬ChunkNames place s) := by
  apply spec_look_bind
  cases hd : s.dir place with
  | none =>
    refine spec_pure ⟨Shrunk.refl place s, hd, fun x hx => ?_⟩
    rw [FileSystem.lookup, hd] at hx
    cases hx
  | some d =>
    refine spec_bind (spec_forEach
      (emptying_start hd) fun l rest t ht => spec_removeEntry ht) ?_
    intro _ t ht
    have hempty : ∀ x, t.lookup place x = none := fun x =>
      Option.not_isSome_iff_eq_none.mp fun h => absurd ((ht.names x).mp h) List.not_mem_nil
    have hnames : ChunkNames place s := by
      intro x hx
      obtain ⟨l, hl, rfl⟩ := exists_row hd hx
      exact (ht.visited l hl).resolve_left List.not_mem_nil
    obtain ⟨_, hd'⟩ := Option.isSome_iff_exists.mp ht.present
    obtain ⟨_, hu⟩ := exists_rmdir hd' (rows_eq_nil hd' hempty)
    obtain ⟨hshrunk, hnone⟩ := shrunk_rmdir hempty hu
    exact spec_called (fsCall_eq hu) (ht.shrunk.trans hshrunk)
      ⟨ht.shrunk.trans hshrunk, hnone, hnames⟩

/-- Every name in the directories of the session is one that recovery knows. -/
structure Tidy (session : Uuid) (disk : Disk b) : Prop where
  init : ∀ place, isInitOf session place → ChunkNames place disk
  cow : ∀ x, (disk.lookup (.cow session) x).isSome → ∃ n, parseCowEntryName x = .ok n

/-- A name that recovery knows, if it is in a directory of the session. -/
structure Known (session : Uuid) (place : Place) (x : EntryName) : Prop where
  init : isInitOf session place → ∃ n, parseCowChunkName x = .ok n
  cow : place = .cow session → ∃ n, parseCowEntryName x = .ok n

/-- Names that recovery knows were removed, but no chunk of the session directory. -/
structure Pruned (session : Uuid) (s t : Disk b) : Prop where
  confined : OnlySession session s t
  lookup_eq : ∀ place x, (t.lookup place x).isSome → t.lookup place x = s.lookup place x
  part_eq : ∀ n, t.lookup (.cow session) (.part n) = s.lookup (.cow session) (.part n)
  present_eq : (t.dir (.cow session)).isSome = (s.dir (.cow session)).isSome
  removed : ∀ place x, t.lookup place x = none → (s.lookup place x).isSome → Known session place x

theorem Pruned.refl (session : Uuid) (s : Disk b) : Pruned session s s where
  confined := Confined.refl s
  lookup_eq _ _ _ := rfl
  part_eq _ := rfl
  present_eq := rfl
  removed place x hnone hsome := by
    rw [hnone] at hsome
    cases hsome

section

variable (h : Pruned session s t)
include h

theorem Pruned.trans (h' : Pruned session t u) : Pruned session s u where
  confined := h.confined.trans h'.confined
  lookup_eq place x hx := by
    have heq := h'.lookup_eq place x hx
    rw [heq] at hx ⊢
    exact h.lookup_eq place x hx
  part_eq n := (h'.part_eq n).trans (h.part_eq n)
  present_eq := h'.present_eq.trans h.present_eq
  removed place x hnone hsome := by
    cases hmid : t.lookup place x with
    | none => exact h.removed place x hmid hsome
    | some => exact h'.removed place x hnone (by rw [hmid]; rfl)

theorem Pruned.file_eq (n : ℕ) :
    t.file (.cow session) (.part n) = s.file (.cow session) (.part n) := by
  rw [FileSystem.file, FileSystem.file, h.part_eq]
  cases hlook : s.lookup (.cow session) (.part n) with
  | none => rfl
  | some i => exact congrArg some (h.confined.inode_eq i (lookup_lt hlook))

theorem Pruned.tidy (hs : Tidy session s) : Tidy session t where
  init place hplace x hx := by
    rw [h.lookup_eq place x hx] at hx
    exact hs.init place hplace x hx
  cow x hx := by
    rw [h.lookup_eq _ x hx] at hx
    exact hs.cow x hx

theorem Pruned.tidy_of (ht : Tidy session t) : Tidy session s where
  init place hplace x hx := by
    cases hlook : t.lookup place x with
    | none => exact (h.removed place x hlook hx).init hplace
    | some => exact ht.init place hplace x (by rw [hlook]; rfl)
  cow x hx := by
    cases hlook : t.lookup (.cow session) x with
    | none => exact (h.removed _ x hlook hx).cow rfl
    | some => exact ht.cow x (by rw [hlook]; rfl)

end

theorem Shrunk.lookup_eq_of_isSome (h : Shrunk place s t) (place' : Place)
    (x : EntryName) (hx : (t.lookup place' x).isSome) : t.lookup place' x = s.lookup place' x := by
  by_cases hplace : place' = place
  · subst hplace
    exact h.lookup_eq x hx
  · exact h.confined.lookup_eq place' x hplace

theorem Shrunk.pruned (h : Shrunk place s t) (hplace : isInitOf session place) :
    Pruned session s t := by
  have hne : Place.cow session ≠ place := by
    rintro rfl
    cases hplace
  refine ⟨h.confined.mono fun place' _ heq => .inr (heq ▸ hplace),
    h.lookup_eq_of_isSome, fun n => h.confined.lookup_eq _ _ hne, ?_, ?_⟩
  · rw [h.confined.dir_eq _ fun _ => hne]
  · intro place' x hnone hsome
    by_cases heq : place' = place
    · subst heq
      exact ⟨fun _ => h.removed x hnone hsome, fun hcow => absurd hcow.symm hne⟩
    · rw [h.confined.lookup_eq place' x heq] at hnone
      rw [hnone] at hsome
      cases hsome

theorem parseCowWritingName_ok (h : parseCowWritingName x = .ok n) :
    ∃ operation, x = .writing n operation ∧ n < maxChunkCount := by
  cases x with
  | writing m operation =>
    have hpart : parseCowChunkName (.part m) = .ok n := h
    obtain ⟨hname, hlimit⟩ := parseCowChunkName_ok hpart
    obtain rfl := EntryName.part.inj hname
    exact ⟨operation, rfl, hlimit⟩
  | part => cases h
  | object => cases h

theorem spec_removeInits (session : Uuid) (s : Disk b) :
    Spec (Proc.forEach (s.directories (isInitOf session))
        removeInterruptedCowDirectory) s (Pruned session s)
      (fun _ t => Pruned session s t ∧ t.dir (.cow session) = s.dir (.cow session) ∧
        ∀ place, isInitOf session place → t.dir place = none ∧ ChunkNames place s)
      (fun _ t => Pruned session s t ∧ ¬Tidy session s) := by
  refine spec_mono (spec_forEach (I := fun rest t => Pruned session s t ∧
      t.dir (.cow session) = s.dir (.cow session) ∧
      (∀ place ∈ rest, isInitOf session place) ∧ ∀ place, isInitOf session place →
        (t.dir place = none ∧ ChunkNames place s) ∨
          (place ∈ rest ∧ t.dir place = s.dir place)) ?_ ?_)
    (fun _ ht => ht) ?_ (fun _ _ he => he)
  · refine ⟨Pruned.refl session s, rfl, fun place hplace => ?_, fun place hplace => ?_⟩
    · obtain ⟨-, hkind⟩ := List.mem_filter.mp hplace
      exact (Bool.and_eq_true_iff.mp hkind).1
    · cases hd : s.dir place with
      | none =>
        refine .inl ⟨rfl, fun x hx => ?_⟩
        rw [FileSystem.lookup, hd] at hx
        cases hx
      | some d =>
        refine .inr ⟨List.mem_filter.mpr ⟨s.mem_created place d hd, ?_⟩, rfl⟩
        rw [hplace, hd]
        rfl
  · rintro place rest t ⟨hpruned, hcow, hrest, hinits⟩
    have hplace := hrest place (List.mem_cons_self ..)
    refine spec_mono (spec_removeDirectory place t) ?_ ?_ ?_
    · exact fun u hu => hpruned.trans (hu.pruned hplace)
    · rintro _ u ⟨hshrunk, hnone, hnames⟩
      refine ⟨hpruned.trans (hshrunk.pruned hplace), ?_,
        fun place' hplace' => hrest place' (List.mem_cons_of_mem place hplace'),
        fun place' hplace' => ?_⟩
      · rw [← hcow]
        apply hshrunk.confined.dir_eq
        rintro _ rfl
        cases hplace
      by_cases heq : place' = place
      · subst heq
        refine .inl ⟨hnone, ?_⟩
        rcases hinits place' hplace' with ⟨-, hdone⟩ | ⟨-, hsame⟩
        · exact hdone
        · intro x hx
          apply hnames x
          rw [FileSystem.lookup, hsame]
          exact hx
      · rw [hshrunk.confined.dir_eq place' fun _ => heq]
        rcases hinits place' hplace' with hdone | ⟨hmem, hsame⟩
        · exact .inl hdone
        · exact .inr ⟨(List.mem_cons.mp hmem).resolve_left heq, hsame⟩
    · rintro e u ⟨hshrunk, hnames⟩
      exact ⟨hpruned.trans (hshrunk.pruned hplace), fun htidy =>
        hnames ((hpruned.tidy htidy).init place hplace)⟩
  · rintro _ t ⟨hpruned, hcow, -, hinits⟩
    refine ⟨hpruned, hcow, fun place hplace => ?_⟩
    exact (hinits place hplace).resolve_right fun h => absurd h.1 List.not_mem_nil

theorem pruned_unlink_writing (hn : n < maxChunkCount)
    (h : FileSystem.unlink (.cow session) (.writing n operation) s = .ok (r, t)) :
    Pruned session s t := by
  obtain ⟨hconfined, hkept, hremoved⟩ := unlink_names h
  have hlinks := unlink_ok h
  have hother : ∀ place x, place ≠ .cow session → t.lookup place x = s.lookup place x :=
    fun place x hne => hconfined.lookup_eq place x hne
  refine ⟨hconfined.mono fun _ _ heq => .inl heq, fun place x hx => ?_, fun m => ?_,
    by rw [hlinks.present, hlinks.present'], fun place x hnone hsome => ?_⟩
  · by_cases hplace : place = .cow session
    · subst hplace
      exact hkept x hx
    · exact hother place x hplace
  · rw [hlinks.lookup_eq, if_neg (by rintro ⟨⟩)]
  · by_cases hplace : place = .cow session
    · subst hplace
      obtain rfl := hremoved x hnone hsome
      refine ⟨fun hinit => ?_, fun _ => ⟨n, parse_writing hn operation⟩⟩
      cases hinit
    · rw [hother place x hplace] at hnone
      rw [hnone] at hsome
      cases hsome

/-- What the loop over the session directory has still to visit. -/
structure Recovering (session : Uuid) (d : Directory EntryName) (s : Disk b)
    (rest : List (Link EntryName)) (t : Disk b) : Prop where
  pruned : Pruned session s t
  inits : ∀ place, isInitOf session place → t.dir place = s.dir place
  names : ∀ x, (t.lookup (.cow session) x).isSome →
    x ∈ rest.map Link.name ∨ ∃ n, parseCowChunkName x = .ok n
  here : ∀ l ∈ rest, (t.lookup (.cow session) l.name).isSome
  nodup : (rest.map Link.name).Nodup
  visited : ∀ l ∈ d.rows, l ∈ rest ∨ ∃ n, parseCowEntryName l.name = .ok n

theorem recovering_start (hd : s.dir (.cow session) = some d) :
    Recovering session d s d.rows s where
  pruned := Pruned.refl session s
  inits _ _ := rfl
  names x hx := by
    obtain ⟨_, hl, rfl⟩ := exists_row hd hx
    exact .inl (List.mem_map_of_mem hl)
  here _ hl := lookup_isSome_of_link hd hl
  nodup := d.nodup
  visited _ hl := .inl hl

/-- One iteration: a chunk stays, a file that was being written goes. -/
theorem spec_recoverEntry (ht : Recovering session d s (l :: rest) t) :
    Spec (recoverEntry session l) t (Pruned session s) (fun _ u => Recovering session d s rest u)
      (fun _ u => Pruned session s u ∧ ¬Tidy session s) := by
  have hhere := ht.here l (List.mem_cons_self ..)
  have hfresh := (List.nodup_cons.mp ht.nodup).1
  unfold recoverEntry
  cases hparse : parseCowChunkName l.name with
  | ok n =>
    refine spec_pure ⟨ht.pruned, ht.inits, fun x hx => ?_, fun l' hl' =>
      ht.here l' (List.mem_cons_of_mem l hl'), ht.nodup.of_cons,
      visited_next ht.visited (parse_entry hparse)⟩
    rcases ht.names x hx with hmem | hchunk
    · rcases List.mem_cons.mp hmem with rfl | hrest
      · exact .inr ⟨n, hparse⟩
      · exact .inl hrest
    · exact .inr hchunk
  | error =>
    have hentry : parseCowEntryName l.name = parseCowWritingName l.name := by
      rw [parseCowEntryName, hparse]
    refine spec_checked (fun n hn => ?_) fun e' he => ⟨ht.pruned, fun htidy => ?_⟩
    · obtain ⟨_, hname, hlimit⟩ := parseCowWritingName_ok hn
      obtain ⟨_, hunlink⟩ := exists_unlink hhere
      have hlinks := unlink_ok hunlink
      have hpruned := ht.pruned.trans (pruned_unlink_writing hlimit (hname ▸ hunlink))
      refine spec_called (fsCall_eq hunlink) hpruned ⟨hpruned,
        fun place hplace => ?_, fun x hx => ?_, fun l' hl' => ?_, ht.nodup.of_cons,
        visited_next ht.visited (hentry.trans hn)⟩
      · rw [← ht.inits place hplace]
        apply hlinks.dir_eq
        rintro rfl
        cases hplace
      · rw [hlinks.lookup_eq] at hx
        split at hx
        · cases hx
        · next hne =>
          rcases ht.names x hx with hmem | hchunk
          · exact .inl ((List.mem_cons.mp hmem).resolve_left hne)
          · exact .inr hchunk
      · have hne : l'.name ≠ l.name := fun heq =>
          hfresh (heq ▸ List.mem_map_of_mem hl')
        rw [hlinks.lookup_eq, if_neg hne]
        exact ht.here l' (List.mem_cons_of_mem l hl')
    · obtain ⟨_, hn⟩ := (ht.pruned.tidy htidy).cow l.name hhere
      rw [hentry, he] at hn
      cases hn

/-- Recovery fails exactly on names it does not know, and otherwise leaves the chunks of
the session and nothing else. -/
theorem spec_recoverCowUnderLock (session : Uuid) (s : Disk b) :
    Spec (recoverCowUnderLock session) s (Pruned session s)
      (fun _ t => Pruned session s t ∧ Clean session t ∧ Tidy session s ∧
        ∀ place, isInitOf session place → t.dir place = none)
      (fun _ t => Pruned session s t ∧ ¬Tidy session s) := by
  apply spec_look_bind
  refine spec_bind (spec_removeInits session s) ?_
  rintro _ t ⟨hpruned, hcow, hinits⟩
  have hinit : ∀ place, isInitOf session place → ChunkNames place s :=
    fun place hplace => (hinits place hplace).2
  have hback : Tidy session s → Tidy session t := hpruned.tidy
  apply spec_look_bind
  cases hd : t.dir (.cow session) with
  | none =>
    have hnothing : ∀ x, ¬(t.lookup (.cow session) x).isSome := by
      intro x hx
      rw [FileSystem.lookup, hd] at hx
      cases hx
    refine spec_pure ⟨hpruned, fun x hx => absurd hx (hnothing x),
      ⟨hinit, fun x hx => absurd ?_ (hnothing x)⟩,
      fun place hplace => (hinits place hplace).1⟩
    rw [FileSystem.lookup, hcow]
    exact hx
  | some d =>
    refine spec_mono (spec_forEach (I := fun rest u =>
        Recovering session d t rest u) (recovering_start hd) fun l rest u hu =>
          spec_recoverEntry hu) ?_ ?_ ?_
    · exact fun u hu => hpruned.trans hu
    · intro _ u hu
      refine ⟨hpruned.trans hu.pruned, fun x hx => ?_, ⟨hinit, fun x hx => ?_⟩,
        fun place hplace => ?_⟩
      · exact (hu.names x hx).resolve_left List.not_mem_nil
      · rw [FileSystem.lookup, ← hcow] at hx
        obtain ⟨l, hl, rfl⟩ := exists_row hd hx
        exact (hu.visited l hl).resolve_left List.not_mem_nil
      · rw [hu.inits place hplace]
        exact (hinits place hplace).1
    · exact fun e u he => ⟨hpruned.trans he.1, fun htidy => he.2 (hback htidy)⟩

end FileBelt.Cow
