import Mathlib.Algebra.Order.Group.Int
import Mathlib.Data.List.Basic
import Mathlib.Order.Bounds.Basic
import Mathlib.Tactic.Common

/-!
# Contiguous segments

Lists of labelled segments of the integers, of any type that has an offset, a length
and a label.  A list spans an interval when its segments follow each other without
gaps; it then gives a label to every point of the interval.
-/

namespace FileBelt.Support

/-- How a value is read as a labelled segment. -/
structure SegmentView (σ β : Type*) where
  offset : σ → ℤ
  length : σ → ℤ
  label : σ → β

namespace SegmentView

variable {σ β : Type*} (v : SegmentView σ β)

/-- The first point after a segment. -/
def stop (s : σ) : ℤ := v.offset s + v.length s

/-- The segments follow each other from `a` to `b`, none of them empty. -/
def Spans : ℤ → List σ → ℤ → Prop
  | a, [], b => a = b
  | a, s :: rest, b => v.offset s = a ∧ 0 < v.length s ∧ Spans (v.stop s) rest b

/-- The label of the first segment that contains a point. -/
def labelAt (segments : List σ) (x : ℤ) : Option β :=
  (segments.find? fun s => v.offset s ≤ x ∧ x < v.stop s).map v.label

variable {v} {a b c x : ℤ} {s : σ} {xs ys : List σ}

theorem Spans.le (h : v.Spans a xs b) : a ≤ b := by
  induction xs generalizing a with
  | nil => exact le_of_eq h
  | cons s rest ih =>
    obtain ⟨hoffset, hlength, hrest⟩ := h
    have hle := ih hrest
    rw [stop] at hle
    omega

theorem spans_append : v.Spans a (xs ++ ys) c ↔ ∃ b, v.Spans a xs b ∧ v.Spans b ys c := by
  induction xs generalizing a with
  | nil =>
    constructor
    · intro h
      exact ⟨a, rfl, h⟩
    · rintro ⟨b, rfl, h⟩
      exact h
  | cons s rest ih =>
    simp only [List.cons_append, Spans, ih]
    constructor
    · rintro ⟨hoffset, hlength, b, hrest, hys⟩
      exact ⟨b, ⟨hoffset, hlength, hrest⟩, hys⟩
    · rintro ⟨b, ⟨hoffset, hlength, hrest⟩, hys⟩
      exact ⟨hoffset, hlength, b, hrest, hys⟩

theorem labelAt_cons_of_mem (hlow : v.offset s ≤ x) (hhigh : x < v.stop s) :
    v.labelAt (s :: xs) x = some (v.label s) := by
  rw [labelAt, List.find?_cons_of_pos]
  · rfl
  · exact decide_eq_true ⟨hlow, hhigh⟩

theorem labelAt_cons_of_ge (h : v.stop s ≤ x) : v.labelAt (s :: xs) x = v.labelAt xs x := by
  rw [labelAt, List.find?_cons_of_neg, ← labelAt]
  rw [decide_eq_true_eq, not_and, not_lt]
  exact fun _ => h

theorem Spans.labelAt_eq_none (h : v.Spans a xs b) (hx : x < a) : v.labelAt xs x = none := by
  induction xs generalizing a with
  | nil => rfl
  | cons s rest ih =>
    obtain ⟨hoffset, hlength, hrest⟩ := h
    have hlt : x < v.stop s := by
      rw [stop]
      omega
    rw [labelAt, List.find?_cons_of_neg]
    · exact ih hrest hlt
    · rw [decide_eq_true_eq, not_and_or]
      exact .inl (by omega)

theorem Spans.labelAt_eq_none_of_ge (h : v.Spans a xs b) (hx : b ≤ x) : v.labelAt xs x = none := by
  induction xs generalizing a with
  | nil => rfl
  | cons s rest ih =>
    obtain ⟨-, -, hrest⟩ := h
    rw [labelAt_cons_of_ge (hrest.le.trans hx)]
    exact ih hrest

theorem labelAt_singleton : v.labelAt [s] x =
      if v.offset s ≤ x ∧ x < v.stop s then some (v.label s) else none := by
  by_cases h : v.offset s ≤ x ∧ x < v.stop s
  · rw [if_pos h, labelAt_cons_of_mem h.1 h.2]
  · rw [if_neg h, labelAt, List.find?_cons_of_neg]
    · rfl
    · rw [decide_eq_true_eq]
      exact h

theorem labelAt_append : v.labelAt (xs ++ ys) x = (v.labelAt xs x).or (v.labelAt ys x) := by
  rw [labelAt, labelAt, labelAt, List.find?_append, Option.map_or]

/-- Every point of the spanned interval has a label. -/
theorem Spans.labelAt_isSome (h : v.Spans a xs b) (hlow : a ≤ x) (hx : x < b) :
    (v.labelAt xs x).isSome := by
  induction xs generalizing a with
  | nil =>
    have hab : a = b := h
    omega
  | cons s rest ih =>
    obtain ⟨hoffset, hlength, hrest⟩ := h
    by_cases hin : x < v.stop s
    · rw [labelAt_cons_of_mem (by omega) hin]
      rfl
    · have hge := not_lt.mp hin
      rw [labelAt_cons_of_ge hge]
      exact ih hrest hge

/-- The segments span `[a, b)` and give its points the labels of `t`. -/
def Renders (v : SegmentView σ β) (t : ℤ → Option β) (a : ℤ) (xs : List σ) (b : ℤ) : Prop :=
  v.Spans a xs b ∧ ∀ x, a ≤ x → x < b → v.labelAt xs x = t x

variable {t u : ℤ → Option β}

theorem renders_nil (a : ℤ) : v.Renders t a [] a :=
  ⟨rfl, fun _ hlow hhigh => absurd hhigh (not_lt.mpr hlow)⟩

theorem renders_singleton (hoffset : v.offset s = a) (hlength : 0 < v.length s)
    (hstop : v.stop s = b) (hlabel : ∀ x, a ≤ x → x < b → some (v.label s) = t x) :
    v.Renders t a [s] b := by
  refine ⟨⟨hoffset, hlength, hstop⟩, fun x hlow hhigh => ?_⟩
  rw [labelAt_cons_of_mem (hoffset ▸ hlow) (hstop ▸ hhigh)]
  exact hlabel x hlow hhigh

theorem Renders.append (hxs : v.Renders t a xs b) (hys : v.Renders t b ys c) :
    v.Renders t a (xs ++ ys) c := by
  refine ⟨spans_append.mpr ⟨b, hxs.1, hys.1⟩, fun x hlow hhigh => ?_⟩
  rw [labelAt_append]
  by_cases hx : x < b
  · rw [Option.or_of_isSome (hxs.1.labelAt_isSome hlow hx)]
    exact hxs.2 x hlow hx
  · have hge := not_lt.mp hx
    rw [hxs.1.labelAt_eq_none_of_ge hge]
    exact hys.2 x hge hhigh

/-- The first segment of a rendering has the labels of its points, and the others
render what follows. -/
theorem Renders.cons_inv (h : v.Renders t a (s :: xs) b) : v.offset s = a ∧ 0 < v.length s ∧
      (∀ x, a ≤ x → x < v.stop s → t x = some (v.label s)) ∧ v.Renders t (v.stop s) xs b := by
  obtain ⟨⟨hoffset, hlength, hrest⟩, hlabels⟩ := h
  have hle := hrest.le
  refine ⟨hoffset, hlength, fun x hlow hhigh => ?_, hrest, fun x hlow hhigh => ?_⟩
  · rw [← hlabels x hlow (by omega), labelAt_cons_of_mem (hoffset ▸ hlow) hhigh]
  · have hstop : a < v.stop s := by
      rw [stop]
      omega
    rw [← hlabels x (by omega) hhigh, labelAt_cons_of_ge hlow]

end SegmentView

variable {α : Type*} {p q : α → Prop} {a : α} {r r' : Option α}

/-- The result of a search: the least point with a property, or nothing when no
point has it. -/
def IsFirst [Preorder α] (p : α → Prop) : Option α → Prop
  | some a => IsLeast {x | p x} a
  | none => ∀ x, ¬p x

theorem IsFirst.congr [Preorder α] (h : IsFirst p r) (hpq : ∀ x, p x ↔ q x) : IsFirst q r := by
  have heq : p = q := funext fun x => propext (hpq x)
  rw [← heq]
  exact h

theorem isFirst_some [Preorder α] (ha : p a) (hle : ∀ x, p x → a ≤ x) : IsFirst p (some a) :=
  ⟨ha, hle⟩

end FileBelt.Support
