import Mathlib.Data.List.Basic
import Mathlib.Data.List.Infix

/-!
# Incremental decoders

A decoder consumes a stream one symbol at a time.  It delimits the code of a value when
it emits that value at the last symbol of the code, nothing before, and is back in its
start state.  A stream of codes is then decoded value by value.
-/

namespace FileBelt.Support

structure StreamDecoder (S β φ ε : Type) where
  start : S
  feed : S → β → Except ε (S × Option φ)

namespace StreamDecoder

variable {S β φ ε : Type} (D : StreamDecoder S β φ ε) {emitted : Option φ}

/-- The state after a list of symbols, and the values emitted on the way. -/
def feedAll : S → List β → Except ε (S × List φ)
  | s, [] => .ok (s, [])
  | s, b :: bs =>
    match D.feed s b with
    | .error e => .error e
    | .ok (s', emitted) =>
      match feedAll s' bs with
      | .error e => .error e
      | .ok (s'', values) => .ok (s'', emitted.toList ++ values)

variable {D} {s s' s'' : S} {b : β} {bs cs : List β} {vs ws : List φ}

theorem feedAll_cons (h : D.feed s b = .ok (s', emitted))
    (hrest : D.feedAll s' bs = .ok (s'', vs)) :
    D.feedAll s (b :: bs) = .ok (s'', emitted.toList ++ vs) := by
  rw [feedAll, h]
  dsimp only
  rw [hrest]

theorem feedAll_cons_silent (h : D.feed s b = .ok (s', none))
    (hrest : D.feedAll s' bs = .ok (s'', vs)) : D.feedAll s (b :: bs) = .ok (s'', vs) :=
  feedAll_cons h hrest

theorem feedAll_append (h : D.feedAll s bs = .ok (s', vs))
    (hrest : D.feedAll s' cs = .ok (s'', ws)) : D.feedAll s (bs ++ cs) = .ok (s'', vs ++ ws) := by
  induction bs generalizing s vs with
  | nil =>
    obtain ⟨rfl, rfl⟩ := Prod.mk.inj (Except.ok.inj h)
    exact hrest
  | cons b bs ih =>
    rw [feedAll] at h
    split at h
    · cases h
    · next t emitted hfeed =>
      split at h
      · cases h
      · next t' values hvalues =>
        obtain ⟨rfl, rfl⟩ := Prod.mk.inj (Except.ok.inj h)
        rw [List.append_assoc]
        exact feedAll_cons hfeed (ih hvalues)

/-- What is decoded as a whole is decoded part by part. -/
theorem exists_of_feedAll_append (h : D.feedAll s (bs ++ cs) = .ok (s'', vs)) :
    ∃ t us ws, D.feedAll s bs = .ok (t, us) ∧ D.feedAll t cs = .ok (s'', ws) ∧ vs = us ++ ws := by
  induction bs generalizing s vs with
  | nil => exact ⟨s, [], vs, rfl, h, rfl⟩
  | cons b bs ih =>
    rw [List.cons_append, feedAll] at h
    split at h
    · cases h
    · next t emitted hfeed =>
      split at h
      · cases h
      · next t' values hvalues =>
        obtain ⟨rfl, rfl⟩ := Prod.mk.inj (Except.ok.inj h)
        obtain ⟨u, us, ws, hus, hws, rfl⟩ := ih hvalues
        exact ⟨u, emitted.toList ++ us, ws, feedAll_cons hfeed hus, hws,
          (List.append_assoc _ _ _).symm⟩

theorem exists_of_feedAll_singleton (h : D.feedAll s [b] = .ok (s', vs)) :
    ∃ emitted, D.feed s b = .ok (s', emitted) ∧ vs = emitted.toList := by
  rw [feedAll] at h
  split at h
  · cases h
  · next t emitted hfeed =>
    obtain ⟨rfl, rfl⟩ := Prod.mk.inj (Except.ok.inj h)
    exact ⟨emitted, hfeed, List.append_nil _⟩

theorem feedAll_concat (h : D.feedAll s bs = .ok (s', vs))
    (hfeed : D.feed s' b = .ok (s'', emitted)) :
    D.feedAll s (bs ++ [b]) = .ok (s'', vs ++ emitted.toList) := by
  have hlast : D.feedAll s' [b] = .ok (s'', emitted.toList ++ []) := feedAll_cons hfeed rfl
  rw [List.append_nil] at hlast
  exact feedAll_append h hlast

theorem feedAll_silent (h : D.feedAll s cs = .ok (s', [])) (hbs : bs <+: cs) :
    ∃ t, D.feedAll s bs = .ok (t, []) := by
  obtain ⟨_, rfl⟩ := hbs
  obtain ⟨t, us, _, hus, -, hnil⟩ := exists_of_feedAll_append h
  have husNil : us = [] := (List.append_eq_nil_iff.mp hnil.symm).1
  rw [husNil] at hus
  exact ⟨t, hus⟩

variable (D) in
/-- The decoder delimits the code of a value. -/
structure Delimits (code : φ → List β) (v : φ) : Prop where
  whole : D.feedAll D.start (code v) = .ok (D.start, [v])
  part : ∀ bs, bs <+: code v → bs ≠ code v → ∃ t, D.feedAll D.start bs = .ok (t, [])

variable {code : φ → List β}

theorem feedAll_codes (h : ∀ v ∈ vs, D.Delimits code v) :
    D.feedAll D.start (vs.flatMap code) = .ok (D.start, vs) := by
  induction vs with
  | nil => rfl
  | cons v vs ih =>
    have hrest := ih (List.forall_mem_cons.mp h).2
    exact feedAll_append (h v List.mem_cons_self).whole hrest

/-- Of an initial part of a stream of codes, an initial part of the values is
emitted. -/
theorem feedAll_part (h : ∀ v ∈ vs, D.Delimits code v) (hbs : bs <+: vs.flatMap code) :
    ∃ t ws, D.feedAll D.start bs = .ok (t, ws) ∧ ws <+: vs := by
  induction vs generalizing bs with
  | nil =>
    have hnil : bs = [] := List.prefix_nil.mp hbs
    rw [hnil]
    exact ⟨D.start, [], rfl, List.prefix_rfl⟩
  | cons v vs ih =>
    have hv := h v List.mem_cons_self
    by_cases hlong : code v <+: bs
    · -- the first code has been consumed, the rest is a shorter stream
      obtain ⟨rest, rfl⟩ := hlong
      have hrest : rest <+: vs.flatMap code := (List.prefix_append_right_inj (code v)).mp hbs
      obtain ⟨t, ws, hws, hinitial⟩ := ih (List.forall_mem_cons.mp h).2 hrest
      exact ⟨t, v :: ws, feedAll_append hv.whole hws, List.cons_prefix_cons.mpr ⟨rfl, hinitial⟩⟩
    · have hshort : bs <+: code v := by
        rcases List.prefix_or_prefix_of_prefix hbs (List.prefix_append _ _) with
          hbs | hcode
        · exact hbs
        · exact absurd hcode hlong
      have hne : bs ≠ code v := fun heq => hlong (heq ▸ List.prefix_rfl)
      obtain ⟨t, ht⟩ := hv.part bs hshort hne
      exact ⟨t, [], ht, List.nil_prefix⟩

end StreamDecoder

end FileBelt.Support
