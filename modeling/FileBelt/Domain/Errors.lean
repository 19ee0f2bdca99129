import Mathlib.Data.List.Forall2
import Mathlib.Tactic.TypeStar

/-!
# Errors of the FileBelt components

One type for each error enumeration of the source, with the payloads that the
modelled functions construct.  Failures of the database engine and of the file
system are kept without their diagnostic text.
-/

namespace FileBelt

/-- Rejection of a configuration file, with its message. -/
inductive ConfigError
  | invalid (message : String)
  deriving DecidableEq, Repr

/-- Problem response of the API; `code` and `title` are the public texts. -/
inductive ApiError
  | badRequest (code title : String)
  | conflict (code title : String)
  | preconditionFailed (code title : String)
  | unauthorized
  | forbidden (code title : String)
  | notFound | internal
  | insufficientStorage (code title : String)
  | admissionLimited (code title : String)
  | remediationInProgress (code title : String)
  deriving DecidableEq, Repr

/-- Problem response of the I/O worker. -/
inductive AppError
  | badRequest (code : String)
  | notFound (code : String)
  | unauthorized | forbidden
  | conflict (code : String)
  | range | unavailable
  | unsupported (code : String)
  | internal
  deriving DecidableEq, Repr

inductive DatabaseError
  | sql | notFound | conflict | quotaExceeded | storageUnavailable | admissionLimited
  | securityAdmissionBlocked | staleGeneration | invalidPersistedValue
  deriving DecidableEq, Repr

/-- `ApiError::from`. -/
def ApiError.fromDatabase : DatabaseError → ApiError
  | .notFound => .notFound
  | .conflict =>
    .conflict "request.conflict" "The request conflicts with current state"
  | .quotaExceeded =>
    .insufficientStorage "quota.exceeded" "The drive quota is exhausted"
  | .storageUnavailable =>
    .insufficientStorage "storage.unavailable" "Storage is unavailable for new reservations"
  | .admissionLimited =>
    .admissionLimited "request.admission_limited"
      "The service is temporarily at its request admission limit"
  | .staleGeneration =>
    .preconditionFailed "generation.stale" "The supplied generation is stale"
  | .securityAdmissionBlocked =>
    .remediationInProgress "security.remediation_in_progress"
      "Security repair must complete before this authority can be created"
  | .sql | .invalidPersistedValue => .internal

/-- Failure of one statement: a violated unique index, or anything else. -/
inductive SqlError
  | uniqueViolation | other
  deriving DecidableEq, Repr

/-- The conversion applied by `?`. -/
def DatabaseError.fromSql (_ : SqlError) : DatabaseError := .sql

def mapConflict : SqlError → DatabaseError
  | .uniqueViolation => .conflict
  | .other => .sql

inductive StorageError
  | io | unsafeObject | corruptObject | invalidContent | stateConflict | unsupportedFilesystem
  | join
  deriving DecidableEq, Repr

/-- Why a collaboration session ends. -/
inductive SessionError
  | authentication | authorization | capacity | protocol | rateLimited | conflict | unavailable
  | internal
  deriving DecidableEq, Repr

def databaseSessionError : DatabaseError → SessionError
  | .notFound | .staleGeneration => .authorization
  | .conflict => .conflict
  | .quotaExceeded | .admissionLimited => .capacity
  | .storageUnavailable | .securityAdmissionBlocked | .sql => .unavailable
  | .invalidPersistedValue => .internal

/-- `ok_or`: the value of an option, or the error. -/
def okOr {ε α : Type*} (value : Option α) (error : ε) : Except ε α :=
  match value with
  | some a => .ok a
  | none => .error error

@[simp]
theorem okOr_some {ε α : Type*} (a : α) (error : ε) : okOr (some a) error = .ok a := rfl

variable {ε α β ε' : Type} {c : Prop}

@[simp]
theorem ok_bind (a : α) (f : α → Except ε β) : (Except.ok a >>= f) = f a := rfl

@[simp]
theorem error_bind (error : ε) (f : α → Except ε β) :
    (Except.error error >>= f) = .error error := rfl

variable {x : Except ε α} {f : α → Except ε β} {error : ε} {a : α} {xs : List α} {ys : List β}

theorem bind_eq_ok {b : β} (h : x >>= f = .ok b) : ∃ a, x = .ok a ∧ f a = .ok b := by
  cases x with
  | error => cases h
  | ok a => exact ⟨a, rfl, h⟩

/-- A computation behind a check that refuses. -/
theorem else_of_ok [Decidable c] (h : (if c then .error error else x) = .ok a) :
    ¬c ∧ x = .ok a := by
  by_cases hc : c
  · rw [if_pos hc] at h
    cases h
  · rw [if_neg hc] at h
    exact ⟨hc, h⟩

theorem then_of_ok [Decidable c] (h : (if c then x else .error error) = .ok a) : c ∧ x = .ok a := by
  by_cases hc : c
  · rw [if_pos hc] at h
    exact ⟨hc, h⟩
  · rw [if_neg hc] at h
    cases h

theorem okOr_eq_ok {ε α : Type*} {value : Option α} {error : ε} {a : α}
    (h : okOr value error = .ok a) : value = some a := by
  cases value with
  | none => cases h
  | some =>
    rw [Except.ok.inj h]

theorem toOption_eq_some (h : x.toOption = some a) : x = .ok a := by
  cases x with
  | error => cases h
  | ok b =>
    have hb : b = a := Option.some.inj h
    rw [hb]

theorem mapError_eq_ok {f : ε → ε'} (h : x.mapError f = .ok a) : x = .ok a := by
  cases x with
  | error => cases h
  | ok b =>
    have hb : b = a := Except.ok.inj h
    rw [hb]

theorem mapM_eq_ok (h : xs.mapM f = .ok ys) : List.Forall₂ (fun x y => f x = .ok y) xs ys := by
  induction xs generalizing ys with
  | nil =>
    rw [← Except.ok.inj h]
    exact List.Forall₂.nil
  | cons x xs ih =>
    rw [List.mapM_cons] at h
    obtain ⟨_, hy, h⟩ := bind_eq_ok h
    obtain ⟨_, hzs, h⟩ := bind_eq_ok h
    rw [← Except.ok.inj h]
    exact List.Forall₂.cons hy (ih hzs)

theorem exists_of_mem_forall₂ {R : α → β → Prop} (h : List.Forall₂ R xs ys) {x : α}
    (hx : x ∈ xs) : ∃ y ∈ ys, R x y := by
  induction h with
  | nil => cases hx
  | @cons z y zs ys hzy _ ih =>
    rcases List.mem_cons.mp hx with rfl | hx
    · exact ⟨y, List.mem_cons_self, hzy⟩
    · obtain ⟨y', hy', hxy⟩ := ih hx
      exact ⟨y', List.mem_cons_of_mem _ hy', hxy⟩

theorem exists_mem_of_mapM (h : xs.mapM f = .ok ys) {x : α} (hx : x ∈ xs) : ∃ y ∈ ys, f x = .ok y :=
  exists_of_mem_forall₂ (mapM_eq_ok h) hx

theorem exists_of_mem_mapM (h : xs.mapM f = .ok ys) {y : β} (hy : y ∈ ys) : ∃ x ∈ xs, f x = .ok y :=
  exists_of_mem_forall₂ (mapM_eq_ok h).flip hy

theorem exists_mapM_eq_ok (h : ∀ x ∈ xs, ∃ y, f x = .ok y) : ∃ ys, xs.mapM f = .ok ys := by
  induction xs with
  | nil => exact ⟨[], rfl⟩
  | cons x xs ih =>
    obtain ⟨y, hy⟩ := h x List.mem_cons_self
    obtain ⟨ys, hys⟩ := ih fun z hz => h z (List.mem_cons_of_mem x hz)
    exact ⟨y :: ys, by rw [List.mapM_cons, hy, hys]; rfl⟩

end FileBelt
