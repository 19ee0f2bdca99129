import Mathlib.Data.List.Nodup
import Mathlib.Data.List.Basic

/-!
# Relational tables with a primary key

A table is a list of rows whose keys are distinct, with lookup by key, `UPDATE`,
`DELETE`, an `INSERT` that fails on a key conflict and one that does not.  Each has one
lemma that says what a later lookup returns.  `Advances` follows the rows of a table
over a series of such statements.
-/

namespace FileBelt.Support

/-- Rows with distinct keys. -/
structure Table {ρ κ : Type} (key : ρ → κ) where
  rows : List ρ
  nodup : (rows.map key).Nodup

namespace Table

variable {ρ κ : Type} {key : ρ → κ}

def empty : Table key where
  rows := []
  nodup := List.nodup_nil

/-- `UPDATE ... SET f WHERE p`, for an `f` that keeps the key. -/
def update (t : Table key) (p : ρ → Bool) (f : ρ → ρ)
    (hf : ∀ r, key (f r) = key r) : Table key where
  rows := t.rows.map fun r => if p r then f r else r
  nodup := by
    have hkeys : (t.rows.map fun r => if p r then f r else r).map key =
        t.rows.map key := by
      rw [List.map_map]
      apply List.map_congr_left
      intro r _
      simp only [Function.comp_apply]
      split
      · exact hf r
      · rfl
    rw [hkeys]
    exact t.nodup

/-- `DELETE ... WHERE p`. -/
def delete (t : Table key) (p : ρ → Bool) : Table key where
  rows := t.rows.filter fun r => !p r
  nodup := t.nodup.sublist (List.filter_sublist.map key)

section

variable [DecidableEq κ] {t t' t'' : Table key} {k : κ} {r s row r' : ρ}

def get (t : Table key) (k : κ) : Option ρ := t.rows.find? fun r => key r = k

/-- `INSERT` of one row; nothing on a key conflict. -/
def insert (t : Table key) (r : ρ) : Option (Table key) :=
  if h : key r ∈ t.rows.map key then none
  else
    some
      { rows := t.rows ++ [r]
        nodup := by
          rw [List.map_append, List.map_singleton]
          exact List.Nodup.append t.nodup (List.nodup_singleton _)
            (List.disjoint_singleton.mpr h) }

/-- A row in place of the one with its key, if there is one. -/
def put (t : Table key) (r : ρ) : Table key where
  rows := (t.delete fun s => key s = key r).rows ++ [r]
  nodup := by
    have hfresh : key r ∉ (t.delete fun s => key s = key r).rows.map key := by
      intro hmem
      obtain ⟨s, hs, hkey⟩ := List.mem_map.mp hmem
      have hkept := List.of_mem_filter hs
      simp [hkey] at hkept
    rw [List.map_append, List.map_singleton]
    exact List.Nodup.append (t.delete _).nodup (List.nodup_singleton _)
      (List.disjoint_singleton.mpr hfresh)

theorem get_eq_some : t.get k = some r ↔ r ∈ t.rows ∧ key r = k := by
  constructor
  · intro h
    have hmatch := List.find?_some h
    exact ⟨List.mem_of_find?_eq_some h, of_decide_eq_true hmatch⟩
  · rintro ⟨hmem, rfl⟩
    cases hget : t.get (key r) with
    | none =>
      have hnot := List.find?_eq_none.mp hget r hmem
      simp at hnot
    | some =>
      have hs := List.mem_of_find?_eq_some hget
      have hmatch := List.find?_some hget
      have hsame := List.inj_on_of_nodup_map t.nodup hs hmem (of_decide_eq_true hmatch)
      rw [hsame]

theorem get_key (h : t.get k = some r) : key r = k := (get_eq_some.mp h).2

theorem get_eq_none : t.get k = none ↔ ∀ r ∈ t.rows, key r ≠ k := by
  rw [get]
  simp

@[simp]
theorem get_update (t : Table key) (p : ρ → Bool) (f : ρ → ρ)
    (hf : ∀ r, key (f r) = key r) (k : κ) :
    (t.update p f hf).get k = (t.get k).map fun r => if p r then f r else r := by
  cases hget : t.get k with
  | none =>
    rw [get_eq_none] at hget
    rw [Option.map_none, get_eq_none]
    intro r hr
    obtain ⟨s, hs, rfl⟩ := List.mem_map.mp hr
    split
    · rw [hf]
      exact hget s hs
    · exact hget s hs
  | some r =>
    obtain ⟨hmem, hkey⟩ := get_eq_some.mp hget
    rw [Option.map_some, get_eq_some]
    refine ⟨List.mem_map.mpr ⟨r, hmem, rfl⟩, ?_⟩
    split
    · rw [hf, hkey]
    · exact hkey

/-- A row on which the update would show is not updated when it does not show. -/
theorem not_updated (g : ρ → ℕ) {p : ρ → Bool} {f : ρ → ρ} (hr : t.get k = some r)
    (hr' : ((t.get k).map fun r => if p r then f r else r) = some r') (hsame : g r' = g r)
    (hg : ∀ r, g (f r) ≠ g r) : p r = false := by
  rw [hr, Option.map_some] at hr'
  rw [← Option.some.inj hr'] at hsame
  by_contra hp
  rw [Bool.not_eq_false] at hp
  rw [if_pos hp] at hsame
  exact hg r hsame

@[simp]
theorem get_delete (t : Table key) (p : ρ → Bool) (k : κ) :
    (t.delete p).get k = (t.get k).filter fun r => !p r := by
  cases hget : t.get k with
  | none =>
    rw [get_eq_none] at hget
    rw [Option.filter_none, get_eq_none]
    intro r hr
    exact hget r (List.mem_of_mem_filter hr)
  | some r =>
    obtain ⟨hmem, hkey⟩ := get_eq_some.mp hget
    by_cases hp : p r = true
    · rw [Option.filter_some_neg (by simp [hp]), get_eq_none]
      intro s hs hskey
      obtain ⟨hsmem, hsp⟩ := List.mem_filter.mp hs
      have hsr := List.inj_on_of_nodup_map t.nodup hsmem hmem (hskey.trans hkey.symm)
      rw [hsr, hp] at hsp
      cases hsp
    · rw [Option.filter_some_pos (by simp [hp]), get_eq_some]
      exact ⟨List.mem_filter.mpr ⟨hmem, by simp [hp]⟩, hkey⟩

theorem insert_eq_some (h : t.insert r = some t') :
    t.get (key r) = none ∧ t'.rows = t.rows ++ [r] := by
  unfold insert at h
  split at h
  · cases h
  · next hfresh =>
    rw [← Option.some.inj h]
    refine ⟨get_eq_none.mpr ?_, rfl⟩
    intro s hs hkey
    exact hfresh (List.mem_map.mpr ⟨s, hs, hkey⟩)

theorem get_insert (h : t.insert r = some t') (k : κ) :
    t'.get k = if k = key r then some r else t.get k := by
  obtain ⟨-, hrows⟩ := insert_eq_some h
  split
  · next hk =>
    rw [get_eq_some, hrows]
    exact ⟨by simp, hk.symm⟩
  · next hk =>
    have hlast : key r ≠ k := fun heq => hk heq.symm
    rw [get, hrows]
    simp [hlast, get]

theorem get_delete_key (t : Table key) (k k' : κ) :
    (t.delete fun r => key r = k').get k = if k = k' then none else t.get k := by
  rw [get_delete]
  cases hget : t.get k with
  | none => exact (ite_self _).symm
  | some =>
    have hkey := get_key hget
    by_cases hk : k = k'
    · rw [if_pos hk, Option.filter_some_neg (by simp [hkey, hk])]
    · rw [if_neg hk, Option.filter_some_pos (by simp [hkey, hk])]

theorem get_put_self (t : Table key) (r : ρ) : (t.put r).get (key r) = some r :=
  get_eq_some.mpr ⟨List.mem_append_right _ List.mem_cons_self, rfl⟩

theorem get_put (t : Table key) (r : ρ) (k : κ) :
    (t.put r).get k = if k = key r then some r else t.get k := by
  split
  · next hk => exact hk ▸ get_put_self t r
  · next hk =>
    have hlast : key r ≠ k := fun heq => hk heq.symm
    have hkept := (get_delete_key t k (key r)).trans (if_neg hk)
    rw [put, ← hkept]
    simp [hlast, get]

theorem mem_put (h : s ∈ (t.put r).rows) : s = r ∨ s ∈ t.rows := by
  rcases List.mem_append.mp h with hold | hnew
  · exact .inr (List.mem_of_mem_filter hold)
  · exact .inl (List.mem_singleton.mp hnew)

/-- Every row is still there, in the relation `R` to what it was. -/
def Advances (R : ρ → ρ → Prop) (t t' : Table key) : Prop :=
  ∀ k r, t.get k = some r → ∃ r', t'.get k = some r' ∧ R r r'

section

variable {R : ρ → ρ → Prop} (hrefl : ∀ r, R r r)
include hrefl

theorem advances_refl (t : Table key) : Advances R t t := fun _ r hr => ⟨r, hr, hrefl r⟩

theorem advances_update (t : Table key) (p : ρ → Bool) (f : ρ → ρ)
    (hf : ∀ r, key (f r) = key r) (hR : ∀ r, R r (f r)) : Advances R t (t.update p f hf) := by
  intro k r hr
  refine ⟨if p r then f r else r, ?_, ?_⟩
  · rw [get_update, hr, Option.map_some]
  · split
    · exact hR r
    · exact hrefl r

theorem advances_insert {t t' : Table key} (h : t.insert row = some t') : Advances R t t' := by
  intro k r hr
  refine ⟨r, ?_, hrefl r⟩
  rw [get_insert h, if_neg, hr]
  rintro rfl
  rw [(insert_eq_some h).1] at hr
  cases hr

end

theorem Advances.trans {R : ρ → ρ → Prop} (htrans : ∀ {a b c}, R a b → R b c → R a c)
    (h : Advances R t t') (h' : Advances R t' t'') : Advances R t t'' := by
  intro k r hr
  obtain ⟨r', hr', hR⟩ := h k r hr
  obtain ⟨r'', hr'', hR'⟩ := h' k r' hr'
  exact ⟨r'', hr'', htrans hR hR'⟩

end

end Table

end FileBelt.Support
