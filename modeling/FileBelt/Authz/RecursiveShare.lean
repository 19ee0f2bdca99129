import FileBelt.Authz.Policy
import Mathlib.Data.List.Sort
import Mathlib.Tactic

/-!
# The recursive direct-share evaluator

`evaluate_recursive_direct_shares` collects a bounded graph of (principal, action)
nodes by breadth-first search, then iterates a proof set over it until a sweep
changes nothing.  Ordered maps are `Std.TreeMap`s with the key order of the source.
Both loops are total: an expanded candidate uses up one of the admitted edges, and a
sweep that changes something proves a further node.
-/

namespace FileBelt.Authz

open Std (TreeMap)

/-- The maximum number of recursive direct-share creators in one proof. -/
def maxRecursiveShareDelegationDepth : ℕ := 128

/-- The maximum number of recursive direct-share edges examined in one
proof. -/
def maxRecursiveShareEdges : ℕ := 4096

/-- An independent ACL fact, or a recursive direct share attenuated by its creator. -/
inductive RecursiveShareProvenance
  | independent
  | recursiveDirectShare (creator : PrincipalId)
  deriving DecidableEq, Repr

structure RecursiveShareResolvedAclEntry where
  resolved : ResolvedAclEntry
  provenance : RecursiveShareProvenance
  deriving DecidableEq, Repr

/-- Authorization facts of one possible creator. -/
structure PrincipalAuthorizationFacts where
  principal : PrincipalContext
  entries : List RecursiveShareResolvedAclEntry
  deriving DecidableEq, Repr

structure RecursiveShareAuthorizationRequest where
  principal : PrincipalContext
  resource : ResourceId
  driveOwner : DriveOwner
  action : Action
  entries : List RecursiveShareResolvedAclEntry
  creatorFacts : List PrincipalAuthorizationFacts
  generations : GenerationSnapshot

/-- A bounded recursive-share graph could not be evaluated safely. -/
inductive RecursiveShareEvaluationError
  | delegationDepthExceeded | recursiveEdgeLimitExceeded
  deriving DecidableEq, Repr

/-- The two errors of the source, and the two `expect` calls, which would unwind. -/
inductive RecursiveShareFault
  | limit (error : RecursiveShareEvaluationError)
  | missingDepth | missingRoot
  deriving DecidableEq, Repr

structure RecursiveShareNodeKey where
  principal : PrincipalId
  action : Action
  deriving DecidableEq, Repr

/-- The derived order of the source: by principal, then by action. -/
def RecursiveShareNodeKey.cmp (a b : RecursiveShareNodeKey) : Ordering :=
  (compare a.principal b.principal).then
    (compare a.action.rank b.action.rank)

structure RecursiveShareCandidate where
  entryId : AclEntryId
  creator : PrincipalId
  deriving DecidableEq, Repr

/-- The derived order of the source: by entry, then by creator. -/
def RecursiveShareCandidate.le (a b : RecursiveShareCandidate) : Prop :=
  a.entryId < b.entryId ∨ (a.entryId = b.entryId ∧ a.creator ≤ b.creator)

instance : DecidableRel RecursiveShareCandidate.le := fun _ _ =>
  inferInstanceAs (Decidable (_ ∨ _))

structure RecursiveShareNode where
  denied : Option (DecisionReason × List AclEntryId) := none
  independent : Option (DecisionReason × List AclEntryId) := none
  candidates : List RecursiveShareCandidate := []
  deriving DecidableEq, Repr

structure RecursiveShareSubject where
  principal : PrincipalContext
  entries : List RecursiveShareResolvedAclEntry

instance : Std.TransCmp RecursiveShareNodeKey.cmp :=
  inferInstanceAs (Std.TransCmp (compareLex (compareOn fun k : RecursiveShareNodeKey => k.principal)
      (compareOn fun k : RecursiveShareNodeKey => k.action.rank)))

instance : Std.LawfulEqCmp RecursiveShareNodeKey.cmp where
  eq_of_compare {a b} h := by
    rw [RecursiveShareNodeKey.cmp, Ordering.then_eq_eq] at h
    have hprincipal : a.principal = b.principal := Std.LawfulEqCmp.eq_of_compare h.1
    have haction : a.action = b.action :=
      Action.rank_injective (Std.LawfulEqCmp.eq_of_compare h.2)
    cases a
    cases b
    simp_all

abbrev NodeMap (β : Type) := TreeMap RecursiveShareNodeKey β RecursiveShareNodeKey.cmp

/-! ## Nodes of the delegation graph -/

/-- The map of creator facts: facts supplied twice for one principal cancel
each other. -/
def collectCreatorFacts (facts : List PrincipalAuthorizationFacts) :
    TreeMap PrincipalId (Option PrincipalAuthorizationFacts) :=
  facts.foldl (fun collected fact =>
    if collected.contains fact.principal.principalId then
      collected.insert fact.principal.principalId none
    else
      collected.insert fact.principal.principalId (some fact)) ∅

def recursiveShareSubject (principal : PrincipalId) (request : RecursiveShareAuthorizationRequest)
    (creatorFacts : TreeMap PrincipalId (Option PrincipalAuthorizationFacts)) :
    Option RecursiveShareSubject :=
  if principal = request.principal.principalId then
    some { principal := request.principal, entries := request.entries }
  else
    (creatorFacts[principal]?).bind fun facts =>
      facts.map fun facts =>
        { principal := facts.principal, entries := facts.entries }

/-- The candidate carried by one applicable entry, if it is a recursive share
made by its recorded creator. -/
def shareCandidate (provenanced : RecursiveShareResolvedAclEntry) :
    Option RecursiveShareCandidate :=
  match provenanced.resolved.entry.effect, provenanced.provenance with
  | .allow, .recursiveDirectShare creator =>
    if provenanced.resolved.entry.createdBy = creator then
      some { entryId := provenanced.resolved.entry.id, creator := creator }
    else none
  | _, _ => none

def canonicalizeCandidates (candidates : List RecursiveShareCandidate) :
    List RecursiveShareCandidate :=
  (candidates.insertionSort RecursiveShareCandidate.le).dedup

variable {candidates : List RecursiveShareCandidate} {candidate : RecursiveShareCandidate}
  {key : RecursiveShareNodeKey} {depth : ℕ} {β : Type} {m : NodeMap β}

@[simp]
theorem mem_canonicalizeCandidates :
    candidate ∈ canonicalizeCandidates candidates ↔ candidate ∈ candidates := by
  simp [canonicalizeCandidates]

/-- The entries of a subject that apply to an action at the requested
resource. -/
def applicableEntries (subject : RecursiveShareSubject) (action : Action)
    (request : RecursiveShareAuthorizationRequest) : List RecursiveShareResolvedAclEntry :=
  subject.entries.filter fun provenanced =>
    entryApplicable subject.principal request.resource action provenanced.resolved

def recursiveShareNode (subject : RecursiveShareSubject) (action : Action)
    (request : RecursiveShareAuthorizationRequest) : RecursiveShareNode :=
  match implicitOwnerReason subject.principal request.driveOwner action with
  | some reason => { independent := some (reason, []) }
  | none =>
    let applicable := applicableEntries subject action request
    let independentEntries := applicable.filter fun provenanced =>
      provenanced.provenance == .independent
    match entryVerdict (applicable.map (·.resolved)) .deny .explicitDeny .inheritedDeny with
    | some verdict => { denied := some verdict }
    | none =>
      match entryVerdict (independentEntries.map (·.resolved)) .allow
          .explicitAllow .inheritedAllow with
      | some verdict => { independent := some verdict }
      | none =>
        { candidates :=
            canonicalizeCandidates (applicable.filterMap shareCandidate) }

/-! ## Breadth-first collection -/

theorem NodeMap.mem_insert {key other : RecursiveShareNodeKey} {b : β} :
    other ∈ m.insert key b ↔ key = other ∨ other ∈ m := by
  rw [TreeMap.mem_insert, Std.LawfulEqCmp.compare_eq_iff_eq]

theorem NodeMap.exists_of_mem {key : RecursiveShareNodeKey} (h : key ∈ m) : ∃ v, m[key]? = some v :=
  Option.isSome_iff_exists.mp (TreeMap.mem_iff_isSome_getElem?.mp h)

/-- The mutable variables of the search loop. -/
structure SearchState where
  depths : NodeMap ℕ
  pending : List RecursiveShareNodeKey
  nodes : NodeMap RecursiveShareNode
  recursiveEdges : ℕ

/-- Whether a node is new to the search or reached at a smaller depth. -/
def depthImproves (current : Option ℕ) (depth : ℕ) : Bool :=
  match current with
  | some current => decide (depth < current)
  | none => true

def enqueueRecursiveShareNode (state : SearchState) (key : RecursiveShareNodeKey) (depth : ℕ) :
    SearchState :=
  if depthImproves state.depths[key]? depth then
    { state with
      depths := state.depths.insert key depth
      pending := state.pending ++ [key] }
  else state

variable (state : SearchState)

theorem enqueueRecursiveShareNode_cases (key : RecursiveShareNodeKey) (depth : ℕ) :
    (key ∈ state.depths ∧ enqueueRecursiveShareNode state key depth = state) ∨
      enqueueRecursiveShareNode state key depth = { state with
          depths := state.depths.insert key depth
          pending := state.pending ++ [key] } := by
  unfold enqueueRecursiveShareNode
  split
  · exact .inr rfl
  · next hkeep =>
    refine .inl ⟨?_, rfl⟩
    by_contra hkey
    rw [TreeMap.getElem?_eq_none hkey] at hkeep
    exact hkeep rfl

/-- Queue the two nodes of the creator that a candidate needs. -/
def queueCreator (key : RecursiveShareNodeKey) (depth : ℕ)
    (candidate : RecursiveShareCandidate) (state : SearchState) : SearchState :=
  let shareQueued := enqueueRecursiveShareNode state
    { principal := candidate.creator, action := .share } (depth + 1)
  if key.action ≠ .share then
    enqueueRecursiveShareNode shareQueued
      { principal := candidate.creator, action := key.action } (depth + 1)
  else shareQueued

/-- One edge of the search, counted against the limits. -/
def followCandidate (key : RecursiveShareNodeKey) (depth : ℕ) (state : SearchState)
    (candidate : RecursiveShareCandidate) : Except RecursiveShareFault SearchState :=
  let edges := state.recursiveEdges + 1
  if edges > maxRecursiveShareEdges then
    .error (.limit .recursiveEdgeLimitExceeded)
  else if depth + 1 > maxRecursiveShareDelegationDepth then
    .error (.limit .delegationDepthExceeded)
  else .ok (queueCreator key depth candidate { state with recursiveEdges := edges })

def followCandidates (key : RecursiveShareNodeKey) (depth : ℕ) :
    List RecursiveShareCandidate → SearchState → Except RecursiveShareFault SearchState
  | [], state => .ok state
  | candidate :: rest, state =>
    match followCandidate key depth state candidate with
    | .error fault => .error fault
    | .ok next => followCandidates key depth rest next

variable (request : RecursiveShareAuthorizationRequest)

/-- One iteration of the search loop on the key taken from the queue. -/
def searchStep (creatorFacts : TreeMap PrincipalId (Option PrincipalAuthorizationFacts))
    (key : RecursiveShareNodeKey) (state : SearchState) : Except RecursiveShareFault SearchState :=
  if state.nodes.contains key then .ok state
  else
    match recursiveShareSubject key.principal request creatorFacts with
    | none => .ok { state with nodes := state.nodes.insert key {} }
    | some subject =>
      let node := recursiveShareNode subject key.action request
      match state.depths[key]? with
      | none => .error .missingDepth
      | some depth =>
        match followCandidates key depth node.candidates state with
        | .error fault => .error fault
        | .ok next =>
          .ok { next with nodes := next.nodes.insert key node }

/-- What is left to do: each admitted edge can still queue two nodes. -/
def SearchState.budget (state : SearchState) : ℕ :=
  2 * (maxRecursiveShareEdges - state.recursiveEdges) + state.pending.length

section

variable (key : RecursiveShareNodeKey) (depth : ℕ) (candidate : RecursiveShareCandidate)

theorem enqueueRecursiveShareNode_pending_length :
    (enqueueRecursiveShareNode state key depth).pending.length ≤ state.pending.length + 1 := by
  rcases enqueueRecursiveShareNode_cases state key depth with ⟨-, h⟩ | h
  · rw [h]
    exact Nat.le_succ _
  · simp [h]

theorem enqueueRecursiveShareNode_recursiveEdges :
    (enqueueRecursiveShareNode state key depth).recursiveEdges = state.recursiveEdges := by
  rcases enqueueRecursiveShareNode_cases state key depth with ⟨-, h⟩ | h <;> rw [h]

theorem enqueueRecursiveShareNode_nodes :
    (enqueueRecursiveShareNode state key depth).nodes = state.nodes := by
  rcases enqueueRecursiveShareNode_cases state key depth with ⟨-, h⟩ | h <;> rw [h]

theorem queueCreator_pending_length (state : SearchState) :
    (queueCreator key depth candidate state).pending.length ≤ state.pending.length + 2 := by
  have hshare := enqueueRecursiveShareNode_pending_length state
    ⟨candidate.creator, .share⟩ (depth + 1)
  simp only [queueCreator]
  split
  · exact le_trans (enqueueRecursiveShareNode_pending_length _ _ _) (by omega)
  · omega

theorem queueCreator_recursiveEdges (state : SearchState) :
    (queueCreator key depth candidate state).recursiveEdges = state.recursiveEdges := by
  unfold queueCreator
  split <;> simp only [enqueueRecursiveShareNode_recursiveEdges]

theorem queueCreator_nodes (state : SearchState) :
    (queueCreator key depth candidate state).nodes = state.nodes := by
  unfold queueCreator
  split <;> simp only [enqueueRecursiveShareNode_nodes]

end

variable {state next : SearchState}

theorem followCandidate_eq_ok (h : followCandidate key depth state candidate = .ok next) :
    state.recursiveEdges + 1 ≤ maxRecursiveShareEdges ∧ next = queueCreator key depth candidate
        { state with recursiveEdges := state.recursiveEdges + 1 } := by
  simp only [followCandidate] at h
  split_ifs at h with hedges
  exact ⟨by omega, (Except.ok.inj h).symm⟩

theorem followCandidates_cons_eq_ok
    (h : followCandidates key depth (candidate :: candidates) state = .ok next) :
    state.recursiveEdges + 1 ≤ maxRecursiveShareEdges ∧
      followCandidates key depth candidates (queueCreator key depth candidate
        { state with recursiveEdges := state.recursiveEdges + 1 }) = .ok next := by
  rw [followCandidates] at h
  split at h
  · cases h
  · next hfollow =>
    obtain ⟨hedges, rfl⟩ := followCandidate_eq_ok hfollow
    exact ⟨hedges, h⟩

theorem queueCreator_budget (hedges : state.recursiveEdges + 1 ≤ maxRecursiveShareEdges) :
    (queueCreator key depth candidate
      { state with recursiveEdges := state.recursiveEdges + 1 }).budget ≤ state.budget := by
  have hpending := queueCreator_pending_length key depth candidate
    { state with recursiveEdges := state.recursiveEdges + 1 }
  have hcount := queueCreator_recursiveEdges key depth candidate
    { state with recursiveEdges := state.recursiveEdges + 1 }
  unfold SearchState.budget
  dsimp only at hpending hcount
  omega

theorem followCandidates_budget
    (h : followCandidates key depth candidates state = .ok next) : next.budget ≤ state.budget := by
  induction candidates generalizing state with
  | nil =>
    rw [followCandidates, Except.ok.injEq] at h
    rw [h]
  | cons candidate rest ih =>
    obtain ⟨hedges, h⟩ := followCandidates_cons_eq_ok h
    exact le_trans (ih h) (queueCreator_budget hedges)

theorem searchStep_budget {request : RecursiveShareAuthorizationRequest}
    {creatorFacts : TreeMap PrincipalId (Option PrincipalAuthorizationFacts)}
    (h : searchStep request creatorFacts key state = .ok next) : next.budget ≤ state.budget := by
  unfold searchStep at h
  split at h
  · cases h
    exact le_rfl
  · split at h
    · cases h
      exact le_rfl
    · dsimp only at h
      split at h
      · cases h
      · split at h
        · cases h
        · next hfollow =>
          rw [← Except.ok.inj h]
          have hbudget := followCandidates_budget hfollow
          exact hbudget

/-- The search loop: expand queued nodes until the queue is empty. -/
def collectNodes (request : RecursiveShareAuthorizationRequest)
    (creatorFacts : TreeMap PrincipalId (Option PrincipalAuthorizationFacts))
    (state : SearchState) : Except RecursiveShareFault (NodeMap RecursiveShareNode) :=
  match _hpending : state.pending with
  | [] => .ok state.nodes
  | key :: rest =>
    match _hstep : searchStep request creatorFacts key { state with pending := rest } with
    | .error fault => .error fault
    | .ok next => collectNodes request creatorFacts next
termination_by state.budget
decreasing_by
  have hle := searchStep_budget _hstep
  have hlt : ({ state with pending := rest } : SearchState).budget <
      state.budget := by
    simp [SearchState.budget, _hpending]
  exact lt_of_le_of_lt hle hlt

section

variable {request : RecursiveShareAuthorizationRequest}
  {creatorFacts : TreeMap PrincipalId (Option PrincipalAuthorizationFacts)}

theorem collectNodes_nil (h : state.pending = []) :
    collectNodes request creatorFacts state = .ok state.nodes := by
  rw [collectNodes]
  split
  · rfl
  · next hcons => cases h.symm.trans hcons

theorem collectNodes_cons {rest : List RecursiveShareNodeKey} (h : state.pending = key :: rest) :
    collectNodes request creatorFacts state =
      (searchStep request creatorFacts key { state with pending := rest }).bind
        (collectNodes request creatorFacts) := by
  rw [collectNodes]
  split
  · next hnil => cases h.symm.trans hnil
  · next hcons =>
    obtain ⟨rfl, rfl⟩ := List.cons.inj (h.symm.trans hcons)
    split
    · next hstep => rw [hstep]; rfl
    · next hstep => rw [hstep]; rfl

end

/-! ## The proof loop -/

abbrev AllowedMap := NodeMap (Option RecursiveShareCandidate)

def recursiveShareCandidateIsProven (candidate : RecursiveShareCandidate) (action : Action)
    (allowed : AllowedMap) : Bool :=
  allowed.contains { principal := candidate.creator, action := .share } &&
    (action == .share || allowed.contains { principal := candidate.creator, action := action })

variable (nodes : List (RecursiveShareNodeKey × RecursiveShareNode))

def independentNodes : AllowedMap :=
  nodes.foldl (fun allowed node =>
    if node.2.denied.isNone && node.2.independent.isSome then
      allowed.insert node.1 none
    else allowed) ∅

/-- One visit of a sweep; the flag records whether the sweep has changed the
proof set. -/
def proofVisit (state : AllowedMap × Bool)
    (node : RecursiveShareNodeKey × RecursiveShareNode) : AllowedMap × Bool :=
  if state.1.contains node.1 || node.2.denied.isSome then state
  else
    match node.2.candidates.find? fun candidate =>
        recursiveShareCandidateIsProven candidate node.1.action state.1 with
    | some candidate => (state.1.insert node.1 (some candidate), true)
    | none => state

def proofSweep (allowed : AllowedMap) : AllowedMap × Bool :=
  nodes.foldl proofVisit (allowed, false)

/-- Collected nodes that are not proven yet. -/
def unproven (allowed : AllowedMap) : ℕ :=
  nodes.countP fun node => decide (node.1 ∉ allowed)

/-- What one visit can do: nothing, or prove a new node by a candidate. -/
theorem proofVisit_cases (state : AllowedMap × Bool)
    (node : RecursiveShareNodeKey × RecursiveShareNode) :
    proofVisit state node = state ∨ ∃ candidate ∈ node.2.candidates,
        node.2.denied = none ∧ node.1 ∉ state.1 ∧
          recursiveShareCandidateIsProven candidate node.1.action state.1 ∧
          proofVisit state node = (state.1.insert node.1 (some candidate), true) := by
  unfold proofVisit
  split
  · exact .inl rfl
  next hguard =>
    simp only [Bool.or_eq_true, not_or, Bool.not_eq_true,
      Option.isSome_eq_false_iff, Option.isNone_iff_eq_none] at hguard
    split
    · next candidate hfind =>
      have hproven := List.find?_some hfind
      refine .inr ⟨candidate, List.mem_of_find?_eq_some hfind, hguard.2, ?_, hproven, rfl⟩
      rw [TreeMap.mem_iff_contains, hguard.1]
      exact Bool.false_ne_true
    · exact .inl rfl

variable {state : AllowedMap × Bool}

theorem proofVisit_mono {node : RecursiveShareNodeKey × RecursiveShareNode} (hkey : key ∈ state.1) :
    key ∈ (proofVisit state node).1 := by
  rcases proofVisit_cases state node with h | ⟨candidate, -, -, -, -, h⟩
  · rwa [h]
  · rw [h, TreeMap.mem_insert]
    exact .inr hkey

theorem foldl_proofVisit_mono (hkey : key ∈ state.1) : key ∈ (nodes.foldl proofVisit state).1 := by
  induction nodes generalizing state with
  | nil => exact hkey
  | cons node rest ih => exact ih (proofVisit_mono hkey)

theorem foldl_proofVisit_changed (hchanged : (nodes.foldl proofVisit state).2) :
    state.2 ∨ ∃ node ∈ nodes, node.1 ∉ state.1 ∧
        node.1 ∈ (nodes.foldl proofVisit state).1 := by
  induction nodes generalizing state with
  | nil => exact .inl hchanged
  | cons node rest ih =>
    rw [List.foldl_cons] at hchanged ⊢
    rcases proofVisit_cases state node with h | ⟨candidate, -, -, hnew, -, h⟩
    · rw [h] at hchanged ⊢
      rcases ih hchanged with hstate | ⟨other, hmem, hold, hafter⟩
      · exact .inl hstate
      · exact .inr ⟨other, List.mem_cons_of_mem _ hmem, hold, hafter⟩
    · refine .inr ⟨node, List.mem_cons_self, hnew, ?_⟩
      apply foldl_proofVisit_mono
      rw [h]
      exact TreeMap.mem_insert_self

theorem countP_lt_of_imp_of_mem {α : Type*} {p q : α → Bool} {xs : List α}
    (himp : ∀ x ∈ xs, q x → p x)
    {x : α} (hx : x ∈ xs) (hp : p x) (hq : q x = false) : xs.countP q < xs.countP p := by
  induction xs with
  | nil => simp at hx
  | cons y ys ih =>
    have hle : ys.countP q ≤ ys.countP p :=
      List.countP_mono_left (List.forall_mem_cons.mp himp).2
    rcases List.mem_cons.mp hx with rfl | hmem
    · rw [List.countP_cons_of_pos hp, List.countP_cons_of_neg (by simp [hq])]
      omega
    · rw [List.countP_cons, List.countP_cons]
      split <;> split <;> simp_all

theorem unproven_proofSweep_lt {nodes : List (RecursiveShareNodeKey × RecursiveShareNode)}
    {allowed : AllowedMap} (hchanged : (proofSweep nodes allowed).2) :
    unproven nodes (proofSweep nodes allowed).1 < unproven nodes allowed := by
  rcases foldl_proofVisit_changed nodes hchanged with h | ⟨node, hmem, hold, hnew⟩
  · exact absurd h Bool.false_ne_true
  · apply countP_lt_of_imp_of_mem _ hmem
    · exact decide_eq_true hold
    · exact decide_eq_false fun hnot => hnot hnew
    · intro other _ hother
      rw [decide_eq_true_eq] at hother ⊢
      intro hbefore
      exact hother (foldl_proofVisit_mono nodes hbefore)

/-- Sweep the collected nodes until a sweep changes nothing. -/
def proveNodes (nodes : List (RecursiveShareNodeKey × RecursiveShareNode))
    (allowed : AllowedMap) : AllowedMap :=
  if _hchanged : (proofSweep nodes allowed).2 = true then
    proveNodes nodes (proofSweep nodes allowed).1
  else (proofSweep nodes allowed).1
termination_by unproven nodes allowed
decreasing_by exact unproven_proofSweep_lt _hchanged

/-! ## The evaluator -/

def rootKey : RecursiveShareNodeKey :=
  { principal := request.principal.principalId, action := request.action }

def initialSearch : SearchState :=
  { depths := (∅ : NodeMap ℕ).insert (rootKey request) 0
    pending := [rootKey request]
    nodes := ∅
    recursiveEdges := 0 }

/-- The decision read off the root node and the proof set. -/
def rootDecision (node : RecursiveShareNode) (allowed : AllowedMap) : AuthorizationDecision :=
  match node.denied with
  | some (reason, sources) =>
    { allowed := false, reason := reason, sourceEntries := sources,
      generations := request.generations }
  | none =>
    match node.independent with
    | some (reason, sources) =>
      { allowed := true, reason := reason, sourceEntries := sources,
        generations := request.generations }
    | none =>
      match allowed[rootKey request]? with
      | some (some candidate) =>
        { allowed := true, reason := .inheritedAllow,
          sourceEntries := [candidate.entryId],
          generations := request.generations }
      | _ =>
        { allowed := false, reason := .noMatchingGrant,
          sourceEntries := [], generations := request.generations }

def evaluateRecursiveDirectShares : Except RecursiveShareFault AuthorizationDecision :=
  match collectNodes request (collectCreatorFacts request.creatorFacts) (initialSearch request) with
  | .error fault => .error fault
  | .ok nodes =>
    let allowed := proveNodes nodes.toList (independentNodes nodes.toList)
    match nodes[rootKey request]? with
    | none => .error .missingRoot
    | some node => .ok (rootDecision request node allowed)

end FileBelt.Authz
