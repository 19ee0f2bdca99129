import Mathlib.Data.List.Sort
import Mathlib.Order.Defs.LinearOrder

/-!
# Reading a sorted list page by page

A server returns at most `limit` elements and, if there are more, a cursor that stands
for the last of them.  A client that follows the cursors reads the whole list, provided
that a cursor is taken as the position behind the element that it was made of.
-/

namespace FileBelt.Support.Paging

variable {α β γ ε : Type*}

structure Page (α γ : Type*) where
  items : List α
  next : Option γ
  deriving DecidableEq, Repr

/-- The first elements of a list, and the cursor of the last one if there are
more. -/
def cut (limit : ℕ) (cursorOf : α → γ) (rest : List α) : Page α γ :=
  if limit < rest.length then
    ⟨rest.take limit, (rest.take limit).getLast?.map cursorOf⟩
  else ⟨rest, none⟩

/-- The page of a server that has looked for one element more than it returns. -/
def popped (limit : ℕ) (cursorOf : α → γ) (found : List α) : Page α γ :=
  if limit < found.length then
    ⟨found.dropLast, found.dropLast.getLast?.map cursorOf⟩
  else ⟨found, none⟩

theorem popped_take (limit : ℕ) (cursorOf : α → γ) (rest : List α) :
    popped limit cursorOf (rest.take (limit + 1)) = cut limit cursorOf rest := by
  rw [popped, cut, List.length_take]
  by_cases hmore : limit < rest.length
  · have hpopped : (rest.take (limit + 1)).dropLast = rest.take limit := by
      rw [List.dropLast_eq_take, List.take_take, List.length_take]
      congr 1
      omega
    rw [if_pos (by omega), if_pos hmore, hpopped]
  · rw [if_neg (by omega), if_neg hmore, List.take_of_length_le (by omega)]

theorem popped_next {limit : ℕ} {cursorOf : α → γ} {found : List α} {next : γ}
    (h : (popped limit cursorOf found).next = some next) :
    ∃ x, (popped limit cursorOf found).items.getLast? = some x ∧ x ∈ found ∧ cursorOf x = next := by
  rw [popped] at h ⊢
  by_cases hmore : limit < found.length
  · rw [if_pos hmore] at h ⊢
    obtain ⟨x, hlast, hnext⟩ := Option.map_eq_some_iff.mp h
    have hmem : x ∈ found.dropLast := List.mem_of_getLast? hlast
    exact ⟨x, hlast, (List.dropLast_subset found) hmem, hnext⟩
  · rw [if_neg hmore] at h
    cases h

/-- What a client reads that starts with a cursor and follows the next ones to the
end. -/
inductive Walk (fetch : Option γ → Except ε (Page α γ)) : Option γ → List α → Prop
  | last {cursor items} (hfetch : fetch cursor = .ok ⟨items, none⟩) : Walk fetch cursor items
  | more {cursor items next rest} (hfetch : fetch cursor = .ok ⟨items, some next⟩)
      (hrest : Walk fetch (some next) rest) : Walk fetch cursor (items ++ rest)

section

variable {fetch : Option γ → Except ε (Page α γ)} {cursor : Option γ}

theorem Walk.unique {xs ys : List α} (hxs : Walk fetch cursor xs)
    (hys : Walk fetch cursor ys) : xs = ys := by
  induction hxs generalizing ys with
  | last hfetch =>
    cases hys with
    | last hfetch' =>
      cases hfetch.symm.trans hfetch'
      rfl
    | more hfetch' => cases hfetch.symm.trans hfetch'
  | more hfetch _ ih =>
    cases hys with
    | last hfetch' => cases hfetch.symm.trans hfetch'
    | more hfetch' hrest' =>
      cases hfetch.symm.trans hfetch'
      rw [ih hrest']

/-- The client reads every element, and each as often as it is in the list. -/
def Complete (fetch : Option γ → Except ε (Page α γ)) (xs : List α) : Prop :=
  ∃ items, (∀ walked, Walk fetch none walked ↔ walked = items) ∧ items.Perm xs

theorem complete_iff_walk {xs : List α} :
    Complete fetch xs ↔ ∃ items, Walk fetch none items ∧ items.Perm xs := by
  constructor
  · rintro ⟨items, hwalk, hperm⟩
    exact ⟨items, (hwalk items).mpr rfl, hperm⟩
  · rintro ⟨items, hwalk, hperm⟩
    refine ⟨items, fun walked => ⟨fun hwalked => hwalked.unique hwalk, ?_⟩, hperm⟩
    rintro rfl
    exact hwalk

variable {limit k : ℕ} {cursorOf : α → γ} {xs : List α}

theorem mem_of_mem_cut {x : α} (h : x ∈ (cut limit cursorOf xs).items) : x ∈ xs := by
  rw [cut] at h
  split at h
  · exact List.mem_of_mem_take h
  · exact h

theorem cut_next {next : γ} (h : (cut limit cursorOf xs).next = some next) :
    ∃ x ∈ xs, cursorOf x = next := by
  rw [← popped_take] at h
  obtain ⟨x, -, hx, hnext⟩ := popped_next h
  exact ⟨x, List.mem_of_mem_take hx, hnext⟩

/-- The first element behind a cursor is read. -/
theorem Walk.mem_head {x : α} {items : List α} (hlimit : 0 < limit)
    (hwalk : Walk fetch cursor items) (hfetch : fetch cursor = .ok (cut limit cursorOf (x :: xs))) :
    x ∈ items := by
  have hpage : x ∈ (cut limit cursorOf (x :: xs)).items := by
    rw [cut]
    split
    · exact List.mem_take_iff_getElem.mpr ⟨0, by simp [hlimit], rfl⟩
    · exact List.mem_cons_self
  cases hwalk with
  | last hlast =>
    rw [Except.ok.inj (hfetch.symm.trans hlast)] at hpage
    exact hpage
  | more hmore _ =>
    rw [Except.ok.inj (hfetch.symm.trans hmore)] at hpage
    exact List.mem_append_left _ hpage

theorem getLast?_take_drop (hlimit : 0 < limit) (hmore : limit < (xs.drop k).length) :
    ((xs.drop k).take limit).getLast? = xs[k + limit - 1]? := by
  rw [List.getLast?_eq_getElem?, List.length_take, Nat.min_eq_left hmore.le,
    List.getElem?_take_of_lt (Nat.sub_lt hlimit Nat.one_pos), List.getElem?_drop]
  congr 1
  omega

end

/-! ## Cursors that are compared by another order -/

variable [LinearOrder β] {fetch : Option γ → Except ε (Page α γ)} {limit k : ℕ}
  {cursorOf : α → γ} {xs : List α} {f : α → β} {x : α}

section

variable (hnext : ∀ x ∈ xs, fetch (some (cursorOf x)) =
  .ok (cut limit cursorOf (xs.filter fun a => f x < f a)))
include hnext

/-- Whatever is read after a cursor is behind it. -/
theorem Walk.lt {cursor : Option γ} {items : List α} (hwalk : Walk fetch cursor items)
    (hx : x ∈ xs) (hcursor : cursor = some (cursorOf x)) : ∀ a ∈ items, f x < f a := by
  have hpage : ∀ {x : α} {page : Page α γ}, x ∈ xs → fetch (some (cursorOf x)) = .ok page →
      ∀ a ∈ page.items, f x < f a := by
    intro x page hx hfetch a ha
    rw [← Except.ok.inj ((hnext x hx).symm.trans hfetch)] at ha
    exact of_decide_eq_true (List.mem_filter.mp (mem_of_mem_cut ha)).2
  induction hwalk generalizing x with
  | last hfetch =>
    rw [hcursor] at hfetch
    exact hpage hx hfetch
  | @more _ items next rest hfetch _ ih =>
    rw [hcursor] at hfetch
    intro a ha
    rcases List.mem_append.mp ha with ha | ha
    · exact hpage hx hfetch a ha
    · have hcut := congrArg Page.next (Except.ok.inj ((hnext x hx).symm.trans hfetch))
      obtain ⟨y, hy, rfl⟩ := cut_next hcut
      obtain ⟨hy, hlt⟩ := List.mem_filter.mp hy
      exact lt_trans (of_decide_eq_true hlt) (ih hy rfl a ha)

variable (hlimit : 0 < limit) (hnodup : xs.Nodup)
include hlimit hnodup

/-- If what is left is read after a cursor, exactly that is behind it. -/
theorem filter_eq_drop_of_walk {items : List α} (hx : xs[k]? = some x)
    (hwalk : Walk fetch (some (cursorOf x)) items) (hperm : items.Perm (xs.drop (k + 1))) :
    xs.filter (fun a => f x < f a) = xs.drop (k + 1) := by
  have hmem : x ∈ xs := List.mem_of_getElem? hx
  have hdrop : (xs.drop (k + 1)).filter (fun a => f x < f a) = xs.drop (k + 1) :=
    List.filter_eq_self.mpr fun a ha =>
      decide_eq_true (hwalk.lt hnext hmem rfl a (hperm.mem_iff.mpr ha))
  have hsplit : xs.filter (fun a => f x < f a) =
      (xs.take (k + 1)).filter (fun a => f x < f a) ++ xs.drop (k + 1) := by
    rw [← hdrop, ← List.filter_append, List.take_append_drop]
  cases hearly : (xs.take (k + 1)).filter fun a => f x < f a with
  | nil => rw [hsplit, hearly, List.nil_append]
  | cons y ys =>
    -- an element of an earlier page would be read again
    have hy : y ∈ xs.take (k + 1) := by
      refine List.mem_of_mem_filter (p := fun a => f x < f a) ?_
      rw [hearly]
      exact List.mem_cons_self
    have hfetch := hnext x hmem
    rw [hsplit, hearly] at hfetch
    exact absurd (hperm.mem_iff.mp (hwalk.mem_head hlimit hfetch))
      (List.disjoint_take_drop hnodup le_rfl hy)

/-- After a page with a cursor everything that is left is read if and only if exactly that is
behind the cursor and is read after it. -/
theorem walk_more_iff {cursor : Option γ} (hx : xs[k + limit - 1]? = some x)
    (hfetch : fetch cursor = .ok ⟨(xs.drop k).take limit, some (cursorOf x)⟩) :
    (∃ items, Walk fetch cursor items ∧ items.Perm (xs.drop k)) ↔
      xs.filter (fun a => f x < f a) = xs.drop (k + limit) ∧
        ∃ rest, Walk fetch (some (cursorOf x)) rest ∧ rest.Perm (xs.drop (k + limit)) := by
  have hposition : k + limit - 1 + 1 = k + limit := by omega
  have hpages : ∀ rest, ((xs.drop k).take limit ++ rest).Perm (xs.drop k) ↔
      rest.Perm (xs.drop (k + limit)) := by
    intro rest
    have hsplit := List.take_append_drop limit (xs.drop k)
    rw [List.drop_drop] at hsplit
    exact (iff_of_eq (congrArg _ hsplit.symm)).trans (List.perm_append_left_iff _)
  constructor
  · rintro ⟨_, hwalk, hperm⟩
    cases hwalk with
    | last hlast => cases hfetch.symm.trans hlast
    | more hpage hwalk =>
      cases hfetch.symm.trans hpage
      have hperm := (hpages _).mp hperm
      have hbehind := filter_eq_drop_of_walk hnext hlimit hnodup hx hwalk (by rwa [hposition])
      rw [hposition] at hbehind
      exact ⟨hbehind, _, hwalk, hperm⟩
  · rintro ⟨-, rest, hwalk, hperm⟩
    exact ⟨_, .more hfetch hwalk, (hpages rest).mpr hperm⟩

/-- From the end of a page on, everything is read if and only if at the end of every later
page exactly what is left is behind the cursor. -/
theorem walk_iff {cursor : Option γ} (hk : limit ∣ k)
    (hfetch : fetch cursor = .ok (cut limit cursorOf (xs.drop k))) :
    (∃ items, Walk fetch cursor items ∧ items.Perm (xs.drop k)) ↔
      ∀ j x, k ≤ j → xs[j]? = some x → limit ∣ j + 1 → j + 1 < xs.length →
        xs.filter (fun a => f x < f a) = xs.drop (j + 1) := by
  have hstep : ∀ {k}, limit ∣ k → ∀ j, k ≤ j → limit ∣ j + 1 → k + limit ≤ j + 1 := by
    intro k hk j hj hdvd
    have hle := Nat.le_of_dvd (by omega) (Nat.dvd_sub hdvd hk)
    omega
  induction hn : xs.length - k using Nat.strong_induction_on generalizing k cursor with
  | _ n ih =>
    by_cases hmore : limit < (xs.drop k).length
    · have hlength := hmore
      rw [List.length_drop] at hlength
      obtain ⟨x, hx⟩ : ∃ x, xs[k + limit - 1]? = some x := ⟨_, List.getElem?_eq_getElem (by omega)⟩
      have hposition : k + limit - 1 + 1 = k + limit := by omega
      have hdvd : limit ∣ k + limit := (Nat.dvd_add_right hk).mpr (Nat.dvd_refl _)
      have hrest (hbehind : xs.filter (fun a => f x < f a) = xs.drop (k + limit)) :=
        ih (xs.length - (k + limit)) (by omega) hdvd
          (by rw [hnext x (List.mem_of_getElem? hx), hbehind]) rfl
      rw [cut, if_pos hmore, getLast?_take_drop hlimit hmore, hx] at hfetch
      rw [walk_more_iff hnext hlimit hnodup hx hfetch]
      constructor
      · rintro ⟨hbehind, hread⟩ j y hj hy hdvd' hlt
        rcases Nat.eq_or_lt_of_le (hstep hk j hj hdvd') with hsame | hlater
        · obtain rfl : j = k + limit - 1 := by omega
          obtain rfl := Option.some.inj (hx.symm.trans hy)
          rw [hbehind, hposition]
        · exact (hrest hbehind).mp hread j y (by omega) hy hdvd' hlt
      · intro hall
        have hbehind := hall _ x (by omega) hx (by rwa [hposition]) (by omega)
        rw [hposition] at hbehind
        exact ⟨hbehind, (hrest hbehind).mpr fun j y hj => hall j y (by omega)⟩
    · rw [cut, if_neg hmore] at hfetch
      rw [List.length_drop] at hmore
      constructor
      · intro _ j _ hj _ hdvd hlt
        have hle := hstep hk j hj hdvd
        omega
      · exact fun _ => ⟨_, .last hfetch, .refl _⟩

end

/-- The elements after a position of a sorted list. -/
theorem filter_lt_eq_drop (f : α → β) {l : List α} (hsorted : l.Pairwise fun a b => f a < f b)
    {k : ℕ} {x : α} (hx : l[k]? = some x) : l.filter (fun a => f x < f a) = l.drop (k + 1) := by
  induction l generalizing k with
  | nil => cases hx
  | cons a l ih =>
    obtain ⟨hhead, htail⟩ := List.pairwise_cons.mp hsorted
    cases k with
    | zero =>
      obtain rfl : a = x := Option.some.inj hx
      rw [List.filter_cons_of_neg (by simp), List.drop_one, List.tail_cons, List.filter_eq_self]
      intro b hb
      exact decide_eq_true (hhead b hb)
    | succ =>
      have hmem : x ∈ l := List.mem_of_getElem? hx
      rw [List.filter_cons_of_neg, ih htail hx, List.drop_succ_cons]
      simpa using le_of_lt (hhead x hmem)

variable {ρ : Type*} [LinearOrder ρ] {r : α → ρ} {ys : List α}

/-- A page of the elements in the order of `r` ends with this one, and there are more. -/
structure EndsPage (limit : ℕ) (r : α → ρ) (xs : List α) (x : α) : Prop where
  full : limit ∣ (xs.filter fun a => r a ≤ r x).length
  more : ∃ a ∈ xs, r x < r a

theorem endsPage_iff (hperm : ys.Perm xs) (hsorted : ys.Pairwise fun a b => r a < r b)
    (hx : ys[k]? = some x) : EndsPage limit r xs x ↔ limit ∣ k + 1 ∧ k + 1 < ys.length := by
  have hdrop := filter_lt_eq_drop r hsorted hx
  have hlt : k < ys.length := (List.getElem?_eq_some_iff.mp hx).1
  have hcount : (xs.filter fun a => r a ≤ r x).length = k + 1 := by
    have hsum := List.length_eq_length_filter_add (l := ys) fun a => decide (r x < r a)
    have hnot : (fun a => !decide (r x < r a)) = fun a => decide (r a ≤ r x) := by
      funext a
      rw [← decide_not, decide_eq_decide, not_lt]
    rw [hdrop, hnot, List.length_drop, (hperm.filter _).length_eq] at hsum
    omega
  have hmore : (∃ a ∈ xs, r x < r a) ↔ k + 1 < ys.length := by
    have hmem : ∀ a, a ∈ xs ∧ r x < r a ↔ a ∈ ys.drop (k + 1) := by
      intro a
      rw [← hdrop, List.mem_filter, hperm.mem_iff, decide_eq_true_eq]
    rw [exists_congr hmem, ← List.length_pos_iff_exists_mem, List.length_drop]
    omega
  exact ⟨fun h => ⟨hcount ▸ h.full, hmore.mp h.more⟩, fun h => ⟨hcount ▸ h.1, hmore.mpr h.2⟩⟩

/-- A list that is sorted by `r`, while cursors are compared by `f`, is read completely if
and only if the two orders agree about what is behind the end of every page. -/
theorem complete_iff (hlimit : 0 < limit) (hperm : ys.Perm xs)
    (hsorted : ys.Pairwise fun a b => r a < r b) (hfirst : fetch none = .ok (cut limit cursorOf ys))
    (hnext : ∀ x ∈ ys, fetch (some (cursorOf x)) =
      .ok (cut limit cursorOf (ys.filter fun a => f x < f a))) :
    Complete fetch xs ↔
      ∀ x ∈ xs, EndsPage limit r xs x → ∀ a ∈ xs, (f x < f a ↔ r x < r a) := by
  have hnodup : ys.Nodup := hsorted.imp fun hlt => ne_of_apply_ne r hlt.ne
  have hagree : ∀ {k x}, ys[k]? = some x →
      (ys.filter (fun a => f x < f a) = ys.drop (k + 1) ↔
        ∀ a ∈ xs, (f x < f a ↔ r x < r a)) := by
    intro k x hx
    rw [← filter_lt_eq_drop r hsorted hx]
    constructor
    · intro heq a ha
      have hmem := congrArg (a ∈ ·) heq
      simpa [hperm.mem_iff.mpr ha] using hmem
    · intro hall
      exact List.filter_congr fun a ha => decide_eq_decide.mpr (hall a (hperm.mem_iff.mp ha))
  have hwalk := walk_iff hnext hlimit hnodup (k := 0) (Nat.dvd_zero _) hfirst
  rw [List.drop_zero] at hwalk
  have hitems : Complete fetch xs ↔ ∃ items, Walk fetch none items ∧ items.Perm ys := by
    rw [complete_iff_walk]
    exact exists_congr fun items => and_congr_right fun _ =>
      ⟨fun h => h.trans hperm.symm, fun h => h.trans hperm⟩
  rw [hitems, hwalk]
  constructor
  · intro hall x hx hends
    obtain ⟨k, hk⟩ := List.mem_iff_getElem?.mp (hperm.mem_iff.mpr hx)
    obtain ⟨hdvd, hlt⟩ := (endsPage_iff hperm hsorted hk).mp hends
    exact (hagree hk).mp (hall k x (Nat.zero_le _) hk hdvd hlt)
  · intro hall k x _ hk hdvd hlt
    have hends := (endsPage_iff hperm hsorted hk).mpr ⟨hdvd, hlt⟩
    exact (hagree hk).mpr (hall x (hperm.mem_iff.mp (List.mem_of_getElem? hk)) hends)

end FileBelt.Support.Paging
