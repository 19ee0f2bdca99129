import Mathlib.Data.List.Basic

/-!
# Procedures that can be stopped

A procedure changes a state by a series of calls and returns a result.  Its execution
records the state after each call, since the process can stop there.  `Spec` describes
every state that is passed and what holds at the end.
-/

namespace FileBelt.Support

/-- An execution: the states after its calls, the last state and the result. -/
structure Execution (ε σ α : Type) where
  passed : List σ
  final : σ
  result : Except ε α

/-- A procedure on states `σ`. -/
def Proc (ε σ α : Type) : Type := σ → Execution ε σ α

namespace Proc

variable {ε σ α β : Type} {body : α → Proc ε σ Unit} {handler : ε → Proc ε σ α} {xs : List α}
  {E : ε → σ → Prop} {passed : List σ}

/-- Run `m` and then, unless it failed, `k` with its result. -/
def andThen (m : Proc ε σ α) (k : α → Proc ε σ β) : Proc ε σ β := fun s =>
  match m s with
  | ⟨passed, final, .error e⟩ => ⟨passed, final, .error e⟩
  | ⟨passed, final, .ok a⟩ =>
    match k a final with
    | ⟨passed', final', result⟩ => ⟨passed ++ passed', final', result⟩

instance : Monad (Proc ε σ) where
  pure a := fun s => ⟨[], s, .ok a⟩
  bind := andThen

/-- Look at the state. -/
def check (f : σ → Except ε α) : Proc ε σ α := fun s => ⟨[], s, f s⟩

/-- Look at a part of the state. -/
def look (f : σ → α) : Proc ε σ α := check fun s => .ok (f s)

def fail (e : ε) : Proc ε σ α := check fun _ => .error e

def require (c : Prop) [Decidable c] (e : ε) : Proc ε σ Unit := if c then pure () else fail e

def onlyIf (c : Prop) [Decidable c] (m : Proc ε σ Unit) : Proc ε σ Unit := if c then m else pure ()

/-- One atomic call. -/
def call (f : σ → Except ε (α × σ)) : Proc ε σ α := fun s =>
  match f s with
  | .ok (a, s') => ⟨[s'], s', .ok a⟩
  | .error e => ⟨[], s, .error e⟩

/-- Calls that change the state little by little. -/
def gradual (partials : σ → List σ) (f : σ → σ) : Proc ε σ Unit := fun s =>
  ⟨partials s ++ [f s], f s, .ok ()⟩

/-- Run `handler` where `m` fails. -/
def onError (m : Proc ε σ α) (handler : ε → Proc ε σ α) : Proc ε σ α := fun s =>
  match m s with
  | ⟨passed, final, .ok a⟩ => ⟨passed, final, .ok a⟩
  | ⟨passed, final, .error e⟩ =>
    match handler e final with
    | ⟨passed', final', result⟩ => ⟨passed ++ passed', final', result⟩

/-- Run `body` for each element in order. -/
def forEach : List α → (α → Proc ε σ Unit) → Proc ε σ Unit
  | [], _ => pure ()
  | x :: rest, body => do
      body x
      forEach rest body

/-- Every state that `m` passes through meets `D`; the last one meets `P` when
`m` returns and `E` when it fails. -/
structure Spec (m : Proc ε σ α) (s : σ) (D : σ → Prop) (P : α → σ → Prop)
    (E : ε → σ → Prop) : Prop where
  passed : ∀ t ∈ (m s).passed, D t
  ok : ∀ a, (m s).result = .ok a → P a (m s).final
  error : ∀ e, (m s).result = .error e → E e (m s).final

section

variable {m : Proc ε σ α} {k : α → Proc ε σ β} {s t : σ} {D D' : σ → Prop} {P P' : α → σ → Prop}
  {Q : β → σ → Prop} {E E' : ε → σ → Prop} {a : α} {f : σ → Except ε α} {e : ε} {c : Prop}

theorem spec_mono (h : Spec m s D P E) (hD : ∀ t, D t → D' t)
    (hP : ∀ a t, P a t → P' a t) (hE : ∀ e t, E e t → E' e t) : Spec m s D' P' E' where
  passed t ht := hD t (h.passed t ht)
  ok a ha := hP a _ (h.ok a ha)
  error e he := hE e _ (h.error e he)

theorem spec_and (h : Spec m s D P E) (h' : Spec m s D' P' E') :
    Spec m s (fun t => D t ∧ D' t) (fun a t => P a t ∧ P' a t) (fun e t => E e t ∧ E' e t) where
  passed t ht := ⟨h.passed t ht, h'.passed t ht⟩
  ok a ha := ⟨h.ok a ha, h'.ok a ha⟩
  error e he := ⟨h.error e he, h'.error e he⟩

theorem spec_pure (h : P a s) : Spec (pure a : Proc ε σ α) s D P E where
  passed _ ht := absurd ht List.not_mem_nil
  ok _ ha := Except.ok.inj ha ▸ h
  error _ he := nomatch he

theorem spec_check (hok : ∀ a, f s = .ok a → P a s)
    (herror : ∀ e, f s = .error e → E e s) : Spec (check f) s D P E where
  passed _ ht := absurd ht List.not_mem_nil
  ok a ha := hok a ha
  error e he := herror e he

theorem spec_fail (h : E e s) : Spec (fail e : Proc ε σ α) s D P E :=
  spec_check (fun _ ha => nomatch ha) (fun _ he => Except.error.inj he ▸ h)

theorem spec_require [Decidable c] {P : Unit → σ → Prop} (hok : c → P () s)
    (herror : ¬c → E e s) : Spec (require c e : Proc ε σ Unit) s D P E := by
  rw [require]
  by_cases hc : c
  · rw [if_pos hc]
    exact spec_pure (hok hc)
  · rw [if_neg hc]
    exact spec_fail (herror hc)

theorem spec_onlyIf [Decidable c] {m : Proc ε σ Unit} {P : Unit → σ → Prop}
    (hm : c → Spec m s D P E) (hskip : ¬c → P () s) : Spec (onlyIf c m) s D P E := by
  rw [onlyIf]
  by_cases hc : c
  · rw [if_pos hc]
    exact hm hc
  · rw [if_neg hc]
    exact spec_pure (hskip hc)

theorem spec_call {f : σ → Except ε (α × σ)} (hok : ∀ a t, f s = .ok (a, t) → D t ∧ P a t)
    (herror : ∀ e, f s = .error e → E e s) : Spec (call f) s D P E := by
  cases hf : f s with
  | ok out =>
    obtain ⟨a, t⟩ := out
    obtain ⟨hD, hP⟩ := hok a t hf
    have hcall : call f s = ⟨[t], t, .ok a⟩ := by rw [call, hf]
    constructor <;> rw [hcall]
    · exact fun u hu => List.mem_singleton.mp hu ▸ hD
    · exact fun a' ha => Except.ok.inj ha ▸ hP
    · rintro e ⟨⟩
  | error e =>
    have hcall : call f s = ⟨[], s, .error e⟩ := by rw [call, hf]
    constructor <;> rw [hcall]
    · exact fun u hu => absurd hu List.not_mem_nil
    · rintro a ⟨⟩
    · exact fun e' he => Except.error.inj he ▸ herror e hf

theorem spec_called {f : σ → Except ε (α × σ)} (h : f s = .ok (a, t)) (hD : D t) (hP : P a t) :
    Spec (call f) s D P E := by
  refine spec_call (fun a' t' ht => ?_) fun e he => ?_
  · rw [h] at ht
    obtain ⟨rfl, rfl⟩ := Prod.mk.inj (Except.ok.inj ht)
    exact ⟨hD, hP⟩
  · rw [h] at he
    cases he

theorem spec_gradual {partials : σ → List σ} {f : σ → σ} {P : Unit → σ → Prop}
    (hpartials : ∀ t ∈ partials s, D t) (hD : D (f s)) (hP : P () (f s)) :
    Spec (gradual partials f : Proc ε σ Unit) s D P E where
  passed := List.forall_mem_append.mpr ⟨hpartials, List.forall_mem_singleton.mpr hD⟩
  ok _ _ := hP
  error _ he := nomatch he

theorem bind_of_ok {final : σ} (h : m s = ⟨passed, final, .ok a⟩) :
    (m >>= k) s = ⟨passed ++ (k a final).passed, (k a final).final, (k a final).result⟩ := by
  change andThen m k s = _
  rw [andThen, h]

theorem bind_of_error {final : σ} (h : m s = ⟨passed, final, .error e⟩) :
    (m >>= k) s = ⟨passed, final, .error e⟩ := by
  change andThen m k s = _
  rw [andThen, h]

theorem spec_bind (hm : Spec m s D P E) (hk : ∀ a t, P a t → Spec (k a) t D Q E) :
    Spec (m >>= k) s D Q E := by
  obtain ⟨hpassed, hok, herror⟩ := hm
  rcases hrun : m s with ⟨passed, final, e | a⟩ <;> rw [hrun] at hpassed hok herror
  · constructor <;> rw [bind_of_error hrun]
    · exact hpassed
    · rintro b ⟨⟩
    · rintro _ ⟨⟩
      exact herror e rfl
  · have hrest := hk a final (hok a rfl)
    constructor <;> rw [bind_of_ok hrun]
    · exact fun t ht => (List.mem_append.mp ht).elim (hpassed t) (hrest.passed t)
    · exact hrest.ok
    · exact hrest.error

/-- What follows a check runs in the state that was looked at. -/
theorem spec_checked (hok : ∀ a, f s = .ok a → Spec (k a) s D Q E)
    (herror : ∀ e, f s = .error e → E e s) : Spec (check f >>= k) s D Q E := by
  refine spec_bind (P := fun a t => s = t ∧ f s = .ok a)
    (spec_check (fun _ ha => ⟨rfl, ha⟩) herror) ?_
  rintro a _ ⟨rfl, ha⟩
  exact hok a ha

theorem spec_check_bind (h : f s = .ok a) (hk : Spec (k a) s D Q E) :
    Spec (check f >>= k) s D Q E := by
  refine spec_checked (fun a' ha => ?_) fun e he => ?_
  · rw [h] at ha
    exact Except.ok.inj ha ▸ hk
  · rw [h] at he
    cases he

theorem spec_called_bind {f : σ → Except ε (α × σ)} (h : f s = .ok (a, t)) (hD : D t)
    (hk : Spec (k a) t D Q E) : Spec (call f >>= k) s D Q E := by
  refine spec_bind (P := fun a' t' => a = a' ∧ t = t') (spec_called h hD ⟨rfl, rfl⟩) ?_
  rintro _ _ ⟨rfl, rfl⟩
  exact hk

theorem spec_look_bind {f : σ → α} (hk : Spec (k (f s)) s D Q E) : Spec (look f >>= k) s D Q E :=
  spec_check_bind rfl hk

theorem spec_require_bind [Decidable c] {k : Unit → Proc ε σ β} (hc : c)
    (hk : Spec (k ()) s D Q E) : Spec (require c e >>= k) s D Q E := by
  rw [require, if_pos hc]
  exact spec_bind (P := fun _ t => s = t) (spec_pure rfl) fun _ _ ht => ht ▸ hk

theorem spec_onError (hm : Spec m s D P E) (hhandler : ∀ e t, E e t → Spec (handler e) t D P E') :
    Spec (onError m handler) s D P E' := by
  obtain ⟨hpassed, hok, herror⟩ := hm
  rcases hrun : m s with ⟨passed, final, e | a⟩ <;> rw [hrun] at hpassed hok herror
  · have hrest := hhandler e final (herror e rfl)
    have hall : onError m handler s = ⟨passed ++ (handler e final).passed,
        (handler e final).final, (handler e final).result⟩ := by
      rw [onError, hrun]
    constructor <;> rw [hall]
    · exact fun t ht => (List.mem_append.mp ht).elim (hpassed t) (hrest.passed t)
    · exact hrest.ok
    · exact hrest.error
  · have hall : onError m handler s = ⟨passed, final, .ok a⟩ := by
      rw [onError, hrun]
    constructor <;> rw [hall]
    · exact hpassed
    · exact hok
    · rintro e ⟨⟩

/-- The loop rule: `I` relates the elements that are left to the state. -/
theorem spec_forEach {I : List α → σ → Prop} (hs : I xs s)
    (hbody : ∀ x rest t, I (x :: rest) t → Spec (body x) t D (fun _ u => I rest u) E) :
    Spec (forEach xs body) s D (fun _ t => I [] t) E := by
  induction xs generalizing s with
  | nil => exact spec_pure hs
  | cons x rest ih => exact spec_bind (hbody x rest s hs) fun _ t ht => ih ht

/-- The loop rule with the number of elements that are done. -/
theorem spec_forEach_done {J : ℕ → σ → Prop} (hs : J 0 s)
    (hbody : ∀ k x t, xs[k]? = some x → J k t → Spec (body x) t D (fun _ u => J (k + 1) u) E) :
    Spec (forEach xs body) s D (fun _ t => J xs.length t) E := by
  refine spec_mono (spec_forEach (I := fun rest t => ∃ k, rest = xs.drop k ∧ k ≤ xs.length ∧ J k t)
    ⟨0, rfl, Nat.zero_le _, hs⟩ ?_) (fun _ ht => ht) ?_ fun _ _ he => he
  · rintro x rest t ⟨k, hrest, -, ht⟩
    have hget : xs[k]? = some x := by
      rw [← List.head?_drop, ← hrest]
      rfl
    have hnext : rest = xs.drop (k + 1) := by
      rw [← List.tail_drop, ← hrest]
      rfl
    exact spec_mono (hbody k x t hget ht) (fun _ hu => hu)
      (fun _ u hu => ⟨k + 1, hnext, (List.getElem?_eq_some_iff.mp hget).1, hu⟩) fun _ _ he => he
  · rintro _ t ⟨k, hrest, hk, ht⟩
    rwa [Nat.le_antisymm (List.drop_eq_nil_iff.mp hrest.symm) hk]

/-! ### Invariants of every state -/

/-- Every state that `m` passes through, and the last one, keeps `I`. -/
def Keeps (I : σ → Prop) (m : Proc ε σ α) : Prop := ∀ s, I s → Spec m s I (fun _ => I) (fun _ => I)

variable {I : σ → Prop}

theorem keeps_pure (a : α) : Keeps I (pure a : Proc ε σ α) := fun _ hs => spec_pure hs

theorem keeps_check (f : σ → Except ε α) : Keeps I (check f) :=
  fun _ hs => spec_check (fun _ _ => hs) (fun _ _ => hs)

theorem keeps_fail (e : ε) : Keeps I (fail e : Proc ε σ α) := keeps_check _

theorem keeps_call {f : σ → Except ε (α × σ)}
    (h : ∀ s a t, I s → f s = .ok (a, t) → I t) : Keeps I (call f) :=
  fun s hs => spec_call (fun a t ht => ⟨h s a t hs ht, h s a t hs ht⟩) (fun _ _ => hs)

theorem keeps_bind (hm : Keeps I m) (hk : ∀ a, Keeps I (k a)) : Keeps I (m >>= k) :=
  fun s hs => spec_bind (hm s hs) fun a t ht => hk a t ht

theorem keeps_checked (hk : ∀ a, Keeps I (k a)) : Keeps I (check f >>= k) :=
  keeps_bind (keeps_check f) hk

theorem keeps_map {g : α → β} (hm : Keeps I m) : Keeps I (m >>= fun a => pure (g a)) :=
  keeps_bind hm fun _ => keeps_pure _

theorem keeps_onError (hm : Keeps I m) (hhandler : ∀ e, Keeps I (handler e)) :
    Keeps I (onError m handler) :=
  fun s hs => spec_onError (hm s hs) fun e t ht => hhandler e t ht

theorem keeps_forEach (h : ∀ x ∈ xs, Keeps I (body x)) : Keeps I (forEach xs body) := by
  intro s hs
  refine spec_mono (spec_forEach (I := fun rest t => I t ∧ ∀ x ∈ rest, Keeps I (body x))
    ⟨hs, h⟩ ?_) (fun _ ht => ht) (fun _ _ ht => ht.1) (fun _ _ ht => ht)
  rintro x rest t ⟨ht, hrest⟩
  refine spec_mono (hrest x List.mem_cons_self t ht) (fun _ hu => hu) (fun _ u hu => ?_)
    (fun _ _ hu => hu)
  exact ⟨hu, fun y hy => hrest y (List.mem_cons_of_mem x hy)⟩

/-- What is seen of a state that keeps `I`. -/
theorem keeps_check_bind (h : ∀ s a, I s → f s = .ok a → Keeps I (k a)) : Keeps I (check f >>= k) :=
  fun s hs => spec_bind (P := fun a t => t = s ∧ f s = .ok a)
    (spec_check (fun _ ha => ⟨rfl, ha⟩) fun _ _ => hs)
    fun a _ ha => ha.1 ▸ h s a hs ha.2 s hs

theorem keeps_look_bind {f : σ → α} (h : ∀ s, I s → Keeps I (k (f s))) : Keeps I (look f >>= k) :=
  keeps_check_bind fun s _ hs ha => Except.ok.inj ha ▸ h s hs

theorem keeps_require (c : Prop) [Decidable c] (e : ε) : Keeps I (require c e : Proc ε σ Unit) :=
  fun _ hs => spec_require (fun _ => hs) (fun _ => hs)

theorem keeps_onlyIf [Decidable c] {m : Proc ε σ Unit} (hm : c → Keeps I m) :
    Keeps I (onlyIf c m) :=
  fun s hs => spec_onlyIf (fun hc => hm hc s hs) (fun _ => hs)

theorem Keeps.final (h : Keeps I m) (hs : I s) : I (m s).final := by
  cases hresult : (m s).result with
  | ok a => exact (h s hs).ok a hresult
  | error e => exact (h s hs).error e hresult

end

/-! ### Stops -/

/-- The state that `m` leaves: the last one, or the one after call `n`. -/
def leaves (m : Proc ε σ α) (stop : Option ℕ) (s : σ) : σ :=
  match stop with
  | none => (m s).final
  | some n => (m s).passed.getD n (m s).final

theorem Keeps.leaves {I : σ → Prop} {m : Proc ε σ α} (h : Keeps I m)
    (stop : Option ℕ) {s : σ} (hs : I s) : I (m.leaves stop s) := by
  cases stop with
  | none => exact h.final hs
  | some n =>
    change I ((m s).passed.getD n (m s).final)
    rw [List.getD_eq_getElem?_getD]
    cases hget : (m s).passed[n]? with
    | none => exact h.final hs
    | some t => exact (h s hs).passed t (List.mem_of_getElem? hget)

end Proc

end FileBelt.Support
