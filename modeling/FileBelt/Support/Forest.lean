import Mathlib.Data.Nat.Basic
import Mathlib.Logic.Function.Basic
import Mathlib.Order.Basic
import Mathlib.Tactic.WLOG

/-!
# Parent functions and their closure relation

`ancestorAt parent k x` is the node `k` steps above `x`.  A closure relation lists, for
every node of a domain, all its ancestors with their distance.  A fresh leaf and the
move of a subtree are both the redirection of one parent pointer.
-/

namespace FileBelt.Support

variable {ι : Type} {parent other : ι → Option ι} {j k s : ℕ} {x y z n p : ι} {dom : ι → Prop}

/-- The node `k` steps above `x`. -/
def ancestorAt (parent : ι → Option ι) : ℕ → ι → Option ι
  | 0, x => some x
  | k + 1, x => (parent x).bind (ancestorAt parent k)

@[simp]
theorem ancestorAt_zero (parent : ι → Option ι) (x : ι) : ancestorAt parent 0 x = some x := rfl

theorem ancestorAt_succ (parent : ι → Option ι) (k : ℕ) (x : ι) :
    ancestorAt parent (k + 1) x = (parent x).bind (ancestorAt parent k) := rfl

theorem ancestorAt_add (parent : ι → Option ι) (j k : ℕ) (x : ι) :
    ancestorAt parent (j + k) x = (ancestorAt parent j x).bind (ancestorAt parent k) := by
  induction j generalizing x with
  | zero => simp
  | succ j ih =>
    rw [Nat.add_right_comm, ancestorAt_succ, ancestorAt_succ]
    cases parent x with
    | none => rfl
    | some y => exact ih y

theorem ancestorAt_trans (hxy : ancestorAt parent j x = some y)
    (hyz : ancestorAt parent k y = some z) : ancestorAt parent (j + k) x = some z := by
  rw [ancestorAt_add, hxy]
  exact hyz

/-- A domain closed under parents contains all ancestors. -/
theorem dom_of_ancestorAt (hdom : ∀ x, dom x → ∀ y, parent x = some y → dom y) (hx : dom x)
    (hat : ancestorAt parent k x = some y) : dom y := by
  induction k generalizing x with
  | zero => exact Option.some.inj hat ▸ hx
  | succ k ih =>
    obtain ⟨z, hz, hat⟩ := Option.bind_eq_some_iff.mp hat
    exact ih (hdom x hx z hz) hat

/-- No node is its own proper ancestor. -/
def Acyclic (parent : ι → Option ι) : Prop := ∀ k x, ancestorAt parent (k + 1) x ≠ some x

/-- In a forest the distance to an ancestor is unique. -/
theorem Acyclic.depth_unique (h : Acyclic parent)
    (hj : ancestorAt parent j x = some y) (hk : ancestorAt parent k x = some y) : j = k := by
  wlog hle : j ≤ k generalizing j k
  · exact (this hk hj (Nat.le_of_not_le hle)).symm
  · obtain ⟨d, rfl⟩ := Nat.exists_eq_add_of_le hle
    rw [ancestorAt_add, hj] at hk
    cases d with
    | zero => rfl
    | succ d => exact absurd hk (h d y)

theorem ancestorAt_of_le (hle : j ≤ k) (hj : ancestorAt parent j x = some y)
    (hk : ancestorAt parent k x = some z) : ancestorAt parent (k - j) y = some z := by
  obtain ⟨_, rfl⟩ := Nat.exists_eq_add_of_le hle
  rw [ancestorAt_add, hj] at hk
  rw [Nat.add_sub_cancel_left]
  exact hk

/-! ## Redirecting one parent pointer -/

section

variable [DecidableEq ι] {parent : ι → Option ι} {v t x : ι}

/-- The forest in which `v` hangs below `t`. -/
def graft (parent : ι → Option ι) (v t : ι) : ι → Option ι := Function.update parent v (some t)

theorem graft_self (parent : ι → Option ι) (v t : ι) : graft parent v t v = some t := by
  rw [graft, Function.update_self]

theorem graft_of_ne (hx : x ≠ v) : graft parent v t x = parent x := by
  rw [graft, Function.update_of_ne hx]

theorem eq_graft (h : ∀ x, other x = if x = v then some t else parent x) :
    other = graft parent v t := by
  funext x
  rw [h, graft, Function.update_apply]

theorem parent_graft (ht : dom t) (hdom : ∀ x y, parent x = some y → dom y)
    (h : graft parent v t x = some y) : dom y := by
  rw [graft, Function.update_apply] at h
  split at h
  · exact Option.some.inj h ▸ ht
  · exact hdom x y h

/-- Outside the subtree of `v` nothing changes. -/
theorem ancestorAt_graft_of_not_below (k : ℕ) (hx : ∀ s, ancestorAt parent s x ≠ some v) :
    ancestorAt (graft parent v t) k x = ancestorAt parent k x := by
  induction k generalizing x with
  | zero => rfl
  | succ k ih =>
    have hne : x ≠ v := fun heq => hx 0 (heq ▸ ancestorAt_zero parent x)
    rw [ancestorAt_succ, ancestorAt_succ, graft_of_ne hne]
    cases hparent : parent x with
    | none => rfl
    | some =>
      apply ih
      intro s hs
      apply hx (s + 1)
      rw [ancestorAt_succ, hparent]
      exact hs

theorem ancestorAt_graft_of_le (hacyclic : Acyclic parent) {k : ℕ}
    (hx : ancestorAt parent s x = some v) (hk : k ≤ s) :
    ancestorAt (graft parent v t) k x = ancestorAt parent k x := by
  induction k generalizing x s with
  | zero => rfl
  | succ k ih =>
    obtain ⟨s, rfl⟩ : ∃ s', s = s' + 1 := ⟨s - 1, by omega⟩
    have hne : x ≠ v := by
      rintro rfl
      exact hacyclic s x hx
    rw [ancestorAt_succ, ancestorAt_succ, graft_of_ne hne]
    cases hparent : parent x with
    | none => rfl
    | some =>
      rw [ancestorAt_succ, hparent] at hx
      exact ih hx (Nat.le_of_succ_le_succ hk)

theorem ancestorAt_graft_above (hacyclic : Acyclic parent)
    (ht : ∀ s, ancestorAt parent s t ≠ some v) (hx : ancestorAt parent s x = some v) (i : ℕ) :
    ancestorAt (graft parent v t) (s + (i + 1)) x = ancestorAt parent i t := by
  have hv : ancestorAt (graft parent v t) s x = some v := by
    rw [ancestorAt_graft_of_le hacyclic hx le_rfl, hx]
  rw [ancestorAt_add, hv, Option.bind_some, ancestorAt_succ, graft_self,
    Option.bind_some, ancestorAt_graft_of_not_below i ht]

theorem acyclic_graft (hacyclic : Acyclic parent) (ht : ∀ s, ancestorAt parent s t ≠ some v) :
    Acyclic (graft parent v t) := by
  intro k x hcycle
  by_cases hx : ∃ s, ancestorAt parent s x = some v
  · obtain ⟨s, hs⟩ := hx
    by_cases hle : k + 1 ≤ s
    · rw [ancestorAt_graft_of_le hacyclic hs hle] at hcycle
      exact hacyclic k x hcycle
    · obtain ⟨i, hi⟩ : ∃ i, k + 1 = s + (i + 1) := ⟨k - s, by omega⟩
      rw [hi, ancestorAt_graft_above hacyclic ht hs] at hcycle
      exact ht (i + s) (ancestorAt_trans hcycle hs)
  · rw [ancestorAt_graft_of_not_below (k + 1) (not_exists.mp hx)] at hcycle
    exact hacyclic k x hcycle

end

/-! ## Closure relations -/

/-- `R a d k` lists the ancestors of every node of `dom` with their
distance. -/
def IsClosure (parent : ι → Option ι) (dom : ι → Prop) (R : ι → ι → ℕ → Prop) : Prop :=
  ∀ a d k, R a d k ↔ dom d ∧ ancestorAt parent k d = some a

variable (R : ι → ι → ℕ → Prop)

/-- The rows of a fresh leaf `n` below `p`. -/
def leafRows (n p a d : ι) (k : ℕ) : Prop :=
  R a d k ∨ (d = n ∧ ∃ j, R a p j ∧ k = j + 1) ∨ (a = n ∧ d = n ∧ k = 0)

/-- The rows left after the proper ancestors of `v` are cut from its
subtree. -/
def cutRows (v a d : ι) (k : ℕ) : Prop :=
  R a d k ∧ ¬((∃ j, R a v j ∧ a ≠ v) ∧ ∃ s, R v d s)

/-- The rows after the subtree of `v` was cut and hung below `t`. -/
def movedRows (v t a d : ι) (k : ℕ) : Prop :=
  cutRows R v a d k ∨ ∃ i s, cutRows R v a t i ∧ cutRows R v v d s ∧ k = i + 1 + s

/-- The rows of a fresh root `n`. -/
def rootRows (n a d : ι) (k : ℕ) : Prop := R a d k ∨ (a = n ∧ d = n ∧ k = 0)

variable [DecidableEq ι] {parent : ι → Option ι} {dom : ι → Prop}
  {R : ι → ι → ℕ → Prop} (hR : IsClosure parent dom R)
include hR

omit [DecidableEq ι] in
theorem isClosure_rootRows (hn : ¬dom n) (hroot : parent n = none) :
    IsClosure parent (fun x => dom x ∨ x = n) (rootRows R n) := by
  intro a d k
  constructor
  · rintro (h | ⟨rfl, rfl, rfl⟩)
    · obtain ⟨hd, hat⟩ := (hR _ _ _).mp h
      exact ⟨.inl hd, hat⟩
    · exact ⟨.inr rfl, rfl⟩
  · rintro ⟨hd | rfl, hat⟩
    · exact .inl ((hR _ _ _).mpr ⟨hd, hat⟩)
    · cases k with
      | zero =>
        exact .inr ⟨(Option.some.inj hat).symm, rfl, rfl⟩
      | succ =>
        rw [ancestorAt_succ, hroot] at hat
        cases hat

theorem isClosure_leafRows (hn : ¬dom n) (hp : dom p)
    (hdom : ∀ x, dom x → ∀ y, parent x = some y → dom y) :
    IsClosure (graft parent n p) (fun x => dom x ∨ x = n) (leafRows R n p) := by
  have hbelow : ∀ x, dom x → ∀ s, ancestorAt parent s x ≠ some n :=
    fun x hx s hs => hn (dom_of_ancestorAt hdom hx hs)
  intro a d k
  by_cases hd : d = n
  · subst hd
    have hnone : ∀ a' k', ¬R a' d k' := fun a' k' h => hn ((hR _ _ _).mp h).1
    have hchain : ∀ j, ancestorAt (graft parent d p) (j + 1) d =
        ancestorAt parent j p := by
      intro j
      rw [ancestorAt_succ, graft_self, Option.bind_some,
        ancestorAt_graft_of_not_below j (hbelow p hp)]
    constructor
    · rintro (h | ⟨-, j, hj, rfl⟩ | ⟨rfl, -, rfl⟩)
      · exact absurd h (hnone a k)
      · refine ⟨.inr rfl, ?_⟩
        rw [hchain]
        exact ((hR _ _ _).mp hj).2
      · exact ⟨.inr rfl, rfl⟩
    · rintro ⟨-, h⟩
      cases k with
      | zero =>
        exact .inr (.inr ⟨(Option.some.inj h).symm, rfl, rfl⟩)
      | succ j =>
        rw [hchain] at h
        exact .inr (.inl ⟨rfl, j, (hR _ _ _).mpr ⟨hp, h⟩, rfl⟩)
  · constructor
    · rintro (h | ⟨rfl, -⟩ | ⟨-, rfl, -⟩)
      · obtain ⟨hdomd, hat⟩ := (hR _ _ _).mp h
        refine ⟨.inl hdomd, ?_⟩
        rw [ancestorAt_graft_of_not_below k (hbelow d hdomd)]
        exact hat
      · exact absurd rfl hd
      · exact absurd rfl hd
    · rintro ⟨hdomd | rfl, hat⟩
      · rw [ancestorAt_graft_of_not_below k (hbelow d hdomd)] at hat
        exact .inl ((hR _ _ _).mpr ⟨hdomd, hat⟩)
      · exact absurd rfl hd

variable (hacyclic : Acyclic parent) {v t : ι}
include hacyclic

omit [DecidableEq ι] in
/-- Cutting the subtree of `v` removes exactly the rows that leave it. -/
theorem cutRows_iff {a d : ι} {k : ℕ} (hv : dom v) :
    cutRows R v a d k ↔ R a d k ∧ ∀ s, ancestorAt parent s d = some v → k ≤ s := by
  constructor
  · rintro ⟨hrow, hkept⟩
    refine ⟨hrow, ?_⟩
    intro s hs
    by_contra hlt
    obtain ⟨hd, hat⟩ := (hR _ _ _).mp hrow
    have habove := ancestorAt_of_le (Nat.le_of_not_le hlt) hs hat
    apply hkept
    refine ⟨⟨k - s, (hR _ _ _).mpr ⟨hv, habove⟩, ?_⟩, s, (hR _ _ _).mpr ⟨hd, hs⟩⟩
    rintro rfl
    have hsame := hacyclic.depth_unique hat hs
    omega
  · rintro ⟨hrow, hinside⟩
    refine ⟨hrow, ?_⟩
    rintro ⟨⟨j, hj, hne⟩, s, hs⟩
    obtain ⟨-, hat⟩ := (hR _ _ _).mp hrow
    have hsv := ((hR _ _ _).mp hs).2
    have hjv := ((hR _ _ _).mp hj).2
    -- `a` lies `s + j` above `d`, hence above `v`, but inside the subtree.
    have hdepth := hacyclic.depth_unique hat (ancestorAt_trans hsv hjv)
    have hle := hinside s hsv
    have hj0 : j = 0 := by omega
    rw [hj0] at hjv
    exact hne (Option.some.inj hjv).symm

theorem isClosure_movedRows (hv : dom v) (ht : dom t)
    (houtside : ∀ s, ancestorAt parent s t ≠ some v) :
    IsClosure (graft parent v t) dom (movedRows R v t) := by
  have hcut : ∀ a d k, cutRows R v a d k ↔ R a d k ∧ ∀ s, ancestorAt parent s d = some v → k ≤ s :=
    fun a d k => cutRows_iff hR hacyclic hv
  have htarget : ∀ a i, cutRows R v a t i ↔ ancestorAt parent i t = some a := by
    intro a i
    rw [hcut, hR]
    constructor
    · rintro ⟨⟨-, h⟩, -⟩
      exact h
    · intro h
      exact ⟨⟨ht, h⟩, fun s hs => absurd hs (houtside s)⟩
  have hsubtree : ∀ d s, cutRows R v v d s ↔ dom d ∧ ancestorAt parent s d = some v := by
    intro d s
    rw [hcut, hR]
    constructor
    · rintro ⟨h, -⟩
      exact h
    · intro h
      exact ⟨h, fun s' hs' => (hacyclic.depth_unique h.2 hs').le⟩
  intro a d k
  by_cases hd : ∃ s, ancestorAt parent s d = some v
  · obtain ⟨s, hs⟩ := hd
    rcases Nat.lt_or_ge s k with hlt | hle
    · obtain ⟨i, rfl⟩ : ∃ i, k = s + (i + 1) := ⟨k - s - 1, by omega⟩
      rw [ancestorAt_graft_above hacyclic houtside hs]
      constructor
      · rintro (h | ⟨i', s', hi', hs', hk⟩)
        · have hle := ((hcut _ _ _).mp h).2 s hs
          omega
        · obtain ⟨hdom, hs''⟩ := (hsubtree _ _).mp hs'
          have hss := hacyclic.depth_unique hs'' hs
          have hii : i' = i := by omega
          rw [hii] at hi'
          exact ⟨hdom, (htarget _ _).mp hi'⟩
      · rintro ⟨hdom, hat⟩
        exact .inr ⟨i, s, (htarget _ _).mpr hat, (hsubtree _ _).mpr ⟨hdom, hs⟩, by omega⟩
    · rw [ancestorAt_graft_of_le hacyclic hs hle]
      constructor
      · rintro (h | ⟨i', s', -, hs', hk⟩)
        · exact (hR _ _ _).mp ((hcut _ _ _).mp h).1
        · have hss := hacyclic.depth_unique ((hsubtree _ _).mp hs').2 hs
          omega
      · intro h
        refine .inl ((hcut _ _ _).mpr ⟨(hR _ _ _).mpr h, ?_⟩)
        intro s' hs'
        rw [hacyclic.depth_unique hs' hs]
        exact hle
  · have hnot : ∀ s, ancestorAt parent s d ≠ some v := not_exists.mp hd
    rw [ancestorAt_graft_of_not_below k hnot]
    constructor
    · rintro (h | ⟨_, s', -, hs', -⟩)
      · exact (hR _ _ _).mp ((hcut _ _ _).mp h).1
      · exact absurd ((hsubtree _ _).mp hs').2 (hnot s')
    · intro h
      exact .inl ((hcut _ _ _).mpr ⟨(hR _ _ _).mpr h, fun s hs => absurd hs (hnot s)⟩)

end FileBelt.Support
