import Mathlib.Tactic.TypeStar

/-!
# Runs of fallible operations

A step function into `Except`; an operation that fails leaves the state as it was.  The
invariant rule is stated for runs whose operations all meet a condition in the state in
which they are executed.
-/

namespace FileBelt.Support

variable {σ ω ε : Type*} (step : σ → ω → Except ε σ) {C : σ → ω → Prop} {ops : List ω}

/-- The state after one operation, successful or not. -/
def advance (s : σ) (op : ω) : σ :=
  match step s op with
  | .ok s' => s'
  | .error _ => s

/-- The state after a list of operations. -/
def run (s : σ) (ops : List ω) : σ := ops.foldl (advance step) s

/-- Every operation meets `C` in the state in which it is executed. -/
def Meets (C : σ → ω → Prop) : σ → List ω → Prop
  | _, [] => True
  | s, op :: rest => C s op ∧ Meets C (advance step s op) rest

instance Meets.decidable {C : σ → ω → Prop} [∀ s op, Decidable (C s op)] :
    ∀ (s : σ) (ops : List ω), Decidable (Meets step C s ops)
  | _, [] => isTrue trivial
  | s, op :: rest =>
    haveI := Meets.decidable (C := C) (advance step s op) rest
    inferInstanceAs (Decidable (C s op ∧ Meets step C _ rest))

variable {step}

theorem advance_of_ok {s s' : σ} {op : ω} (h : step s op = .ok s') : advance step s op = s' := by
  rw [advance, h]

@[simp]
theorem run_cons (s : σ) (op : ω) (rest : List ω) :
    run step s (op :: rest) = run step (advance step s op) rest := rfl

theorem run_append (s : σ) (xs ys : List ω) : run step s (xs ++ ys) = run step (run step s xs) ys :=
  List.foldl_append

theorem meets_true (s : σ) (ops : List ω) : Meets step (fun _ _ => True) s ops := by
  induction ops generalizing s with
  | nil => trivial
  | cons op rest ih => exact ⟨trivial, ih _⟩

theorem Meets.and {P : ω → Prop} {s : σ} (h : Meets step C s ops) (hP : ∀ op ∈ ops, P op) :
    Meets step (fun s op => C s op ∧ P op) s ops := by
  induction ops generalizing s with
  | nil => trivial
  | cons op rest ih =>
    obtain ⟨hop, hrest⟩ := List.forall_mem_cons.mp hP
    exact ⟨⟨h.1, hop⟩, ih h.2 hrest⟩

/-- What each successful step preserves under `C` holds at the end of every run
that meets `C`. -/
theorem run_invariant {I : σ → Prop} (hstep : ∀ s op s', I s → C s op → step s op = .ok s' → I s')
    {s : σ} (hs : I s) (hops : Meets step C s ops) : I (run step s ops) := by
  induction ops generalizing s with
  | nil => exact hs
  | cons op rest ih =>
    obtain ⟨hop, hrest⟩ := hops
    refine ih ?_ hrest
    cases hresult : step s op with
    | error =>
      rw [advance, hresult]
      exact hs
    | ok s' =>
      rw [advance_of_ok hresult]
      exact hstep s op s' hs hop hresult

variable {τ : Type*} {step' : τ → ω → Except ε τ} {π : τ → σ}
  (hstep : ∀ t op, π (advance step' t op) = advance step (π t) op)
include hstep

/-- A refined system projects onto the runs of the original one. -/
theorem run_project (t : τ) (ops : List ω) : π (run step' t ops) = run step (π t) ops := by
  induction ops generalizing t with
  | nil => rfl
  | cons op rest ih => rw [run_cons, ih, hstep, run_cons]

theorem meets_project {t : τ} (h : Meets step C (π t) ops) :
    Meets step' (fun t op => C (π t) op) t ops := by
  induction ops generalizing t with
  | nil => trivial
  | cons op rest ih =>
    obtain ⟨hop, hrest⟩ := h
    rw [← hstep] at hrest
    exact ⟨hop, ih hrest⟩

end FileBelt.Support
