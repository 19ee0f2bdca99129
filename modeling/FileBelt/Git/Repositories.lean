import FileBelt.Domain.Errors
import FileBelt.Nfs.Uuid

/-!
# The repositories of the Git adapter

A request names its repository by the text of a UUID.  The adapter checks that the text
parses and then names the directory by the text itself.  What Git does inside of a
repository is left open.
-/

namespace FileBelt.Git

open Nfs Support.Protobuf

inductive GitError
  | invalid | wrongVersion | notFound | conflict | outputTooLarge | admissionLimited | timedOut | io
  | integrity | failed
  deriving DecidableEq

inductive Operation
  | prepareCommit | readBlob | compareCommits | reconcileRef | verifyRepository | maintainRepository
  | deleteRepository

/-- A request with its other fields and whether they pass `validate_request`. -/
structure Request (κ : Type) where
  operation : Operation
  repositoryId : List Byte
  rest : κ
  restValid : Bool

inductive Answer (α : Type)
  | result (value : α)
  | deleted (existed : Bool)
  deriving DecidableEq

/-- The Git processes: a new repository, and the commands of an operation in one. -/
structure GitProcess (ρ κ α : Type) where
  init : ρ
  run : Operation → κ → ρ → ρ × Except GitError α

variable {ρ κ α : Type} (git : GitProcess ρ κ α)

def validateRequest (request : Request κ) : Bool :=
  (parseUuid request.repositoryId).isSome && request.restValid

def repositoryPath (repositoryId : List Byte) : Except GitError (List Byte) := do
  let _ ← okOr (parseUuid repositoryId) .invalid
  return repositoryId ++ ascii ".git"

/-- `ensure_repository` for a commit, `existing_repository` for the others. -/
def openRepository (operation : Operation) (directory : Option ρ) : Except GitError ρ :=
  match operation with
  | .prepareCommit => .ok (directory.getD git.init)
  | _ => okOr directory .notFound

/-- An operation on what is at the path of its repository. -/
def execute (request : Request κ) (directory : Option ρ) : Option ρ × Except GitError (Answer α) :=
  match request.operation with
  | .deleteRepository => (none, .ok (.deleted directory.isSome))
  | operation =>
    match openRepository git operation directory with
    | .error error => (directory, .error error)
    | .ok repository =>
      let done := git.run operation request.rest repository
      (some done.1, done.2.map .result)

/-- `dispatch`, with the directories below the root. -/
def dispatch (root : List Byte → Option ρ) (request : Request κ) :
    (List Byte → Option ρ) × Except GitError (Answer α) :=
  if validateRequest request then
    match repositoryPath request.repositoryId with
    | .error error => (root, .error error)
    | .ok path =>
      let done := execute git request (root path)
      (Function.update root path done.1, done.2)
  else (root, .error .invalid)

/-- The same requests on a map keyed by UUID. -/
def dispatchByUuid (map : ℕ → Option ρ) (request : Request κ) :
    (ℕ → Option ρ) × Except GitError (Answer α) :=
  match parseUuid request.repositoryId, request.restValid with
  | some id, true =>
    let done := execute git request (map id)
    (Function.update map id done.1, done.2)
  | _, _ => (map, .error .invalid)

def responses {σ β : Type} (step : σ → Request κ → σ × β) : σ → List (Request κ) → List β
  | _, [] => []
  | s, request :: rest => (step s request).2 :: responses step (step s request).1 rest

theorem repositoryPath_eq_ok {text path : List Byte} :
    repositoryPath text = .ok path ↔
      (∃ id, parseUuid text = some id) ∧ path = text ++ ascii ".git" := by
  rw [repositoryPath]
  cases parseUuid text <;> simp [okOr, eq_comm]

/-- The directory of a UUID under its spelling is its entry in the map. -/
def Keyed (spelling : ℕ → List Byte) (root : List Byte → Option ρ) (map : ℕ → Option ρ) : Prop :=
  ∀ id, parseUuid (spelling id) = some id → root (spelling id ++ ascii ".git") = map id

/-- The request names its repository by the spelling. -/
def Spelled (spelling : ℕ → List Byte) (request : Request κ) : Prop :=
  ∀ id, parseUuid request.repositoryId = some id → request.repositoryId = spelling id

variable {spelling : ℕ → List Byte} {root : List Byte → Option ρ} {map : ℕ → Option ρ}

theorem Keyed.step (h : Keyed spelling root map) {request : Request κ}
    (hspelling : Spelled spelling request) :
    (dispatch git root request).2 = (dispatchByUuid git map request).2 ∧
      Keyed spelling (dispatch git root request).1 (dispatchByUuid git map request).1 := by
  unfold dispatch dispatchByUuid validateRequest
  cases hparse : parseUuid request.repositoryId with
  | none => exact ⟨rfl, h⟩
  | some id =>
    cases request.restValid with
    | false => exact ⟨rfl, h⟩
    | true =>
      have hid := hspelling id hparse
      have hpath := repositoryPath_eq_ok.mpr ⟨⟨id, hparse⟩, rfl⟩
      rw [hid] at hparse hpath
      simp only [hid, hpath, h id hparse, Option.isSome_some, Bool.and_self, if_true]
      refine ⟨trivial, fun other hother => ?_⟩
      by_cases hother_eq : other = id
      · rw [hother_eq, Function.update_self, Function.update_self]
      · have hpath_ne : spelling other ++ ascii ".git" ≠ spelling id ++ ascii ".git" := by
          intro heq
          rw [List.append_cancel_right heq, hparse] at hother
          exact hother_eq (Option.some.inj hother).symm
        rw [Function.update_of_ne hpath_ne, Function.update_of_ne hother_eq]
        exact h other hother

theorem Keyed.run (h : Keyed spelling root map) {requests : List (Request κ)}
    (hspelling : ∀ request ∈ requests, Spelled spelling request) :
    responses (dispatch git) root requests = responses (dispatchByUuid git) map requests := by
  induction requests generalizing root map with
  | nil => rfl
  | cons request rest ih =>
    obtain ⟨hsame, hkeyed⟩ := h.step git (hspelling request List.mem_cons_self)
    rw [responses, responses, hsame,
      ih hkeyed (List.forall_mem_cons.mp hspelling).2]

/-- Requests that spell each UUID in one way are answered as by a map keyed by UUID, and
they share a directory when they name the same UUID. -/
theorem repositories_keyed_by_uuid (spelling : ℕ → List Byte) (requests : List (Request κ))
    (hspelling : ∀ request ∈ requests, Spelled spelling request) :
    responses (dispatch git) (fun _ => none) requests =
        responses (dispatchByUuid git) (fun _ => none) requests ∧
      ∀ r ∈ requests, ∀ r' ∈ requests, ∀ id id',
        parseUuid r.repositoryId = some id → parseUuid r'.repositoryId = some id' →
        (repositoryPath r.repositoryId = repositoryPath r'.repositoryId ↔ id = id') := by
  refine ⟨Keyed.run git (fun _ _ => rfl) hspelling, ?_⟩
  intro r hr r' hr' id id' hid hid'
  constructor
  · intro hpath
    rw [repositoryPath_eq_ok.mpr ⟨⟨id, hid⟩, rfl⟩, repositoryPath_eq_ok.mpr ⟨⟨id', hid'⟩, rfl⟩,
      Except.ok.injEq, List.append_cancel_right_eq] at hpath
    rw [hpath, hid'] at hid
    exact (Option.some.inj hid).symm
  · rintro rfl
    rw [hspelling r hr id hid, hspelling r' hr' id hid']

/-- Git that finds nothing to do. -/
def idleGit : GitProcess Unit Unit Unit := ⟨(), fun _ _ repository => (repository, .ok ())⟩

def commitTo (text : List Byte) : Request Unit := ⟨.prepareCommit, text, (), true⟩

def readFrom (text : List Byte) : Request Unit := ⟨.readBlob, text, (), true⟩

theorem one_spelling_is_keyed :
    responses (dispatch idleGit) (fun _ => none) [commitTo (uuidText 10), readFrom (uuidText 10)] =
      responses (dispatchByUuid idleGit) (fun _ => none)
        [commitTo (uuidText 10), readFrom (uuidText 10)] := by
  refine (repositories_keyed_by_uuid idleGit uuidText _ ?_).1
  intro request hrequest id hid
  have htext : request.repositoryId = uuidText 10 := by
    rcases List.mem_pair.mp hrequest with rfl | rfl <;> rfl
  rw [htext, parseUuid_uuidText 10 (by decide)] at hid
  rw [htext, Option.some.inj hid]

def capital : List Byte := ascii "00000000-0000-0000-0000-00000000000A"

/-- A repository that is made under the capital letter is not found under the small one. -/
theorem two_spellings_are_two_directories :
    parseUuid capital = some 10 ∧ parseUuid (uuidText 10) = some 10 ∧
      responses (dispatch idleGit) (fun _ => none) [commitTo capital, readFrom (uuidText 10)] =
        [.ok (.result ()), .error .notFound] ∧
      responses (dispatchByUuid idleGit) (fun _ => none)
          [commitTo capital, readFrom (uuidText 10)] =
        [.ok (.result ()), .ok (.result ())] := by
  decide +kernel

end FileBelt.Git
