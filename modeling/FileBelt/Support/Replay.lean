import Mathlib.Data.List.Basic

/-!
# The state after an initial part of a log

A log of updates over a base state.  An update may fail to apply, so the state
after a number of entries is an option.
-/

namespace FileBelt.Support

variable {δ υ : Type} (apply : δ → υ → Option δ)

/-- The state after the first `n` entries of the log. -/
def stateAt (base : δ) (log : List υ) (n : ℕ) : Option δ := (log.take n).foldlM apply base

variable {apply} {base : δ} {log : List υ} {n : ℕ}

theorem stateAt_succ {u : υ} (h : log[n]? = some u) :
    stateAt apply base log (n + 1) = (stateAt apply base log n).bind fun d => apply d u := by
  rw [stateAt, List.take_add_one, h, List.foldlM_append]
  refine congrArg (Option.bind _) (funext fun d => ?_)
  change (apply d u).bind some = apply d u
  rw [Option.bind_fun_some]

theorem stateAt_append (h : n ≤ log.length) (more : List υ) :
    stateAt apply base (log ++ more) n = stateAt apply base log n := by
  rw [stateAt, stateAt, List.take_append_of_le_length h]

end FileBelt.Support
