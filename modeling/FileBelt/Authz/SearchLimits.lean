import FileBelt.Authz.DelegationDecision
import FileBelt.Support.Paths
import Mathlib.Algebra.BigOperators.Group.Finset.Basic
import Mathlib.Algebra.Order.BigOperators.Group.Finset

/-!
# When the search stays within its limits

A search counts each edge of the nodes it expands once and expands a node at its
shortest distance from the root.  It succeeds if and only if the reachable nodes lie in a
set with few enough edges and none has to follow a share beyond the depth limit.
-/

namespace FileBelt.Authz

open Std (TreeMap)
open Support

/-- The two nodes of its creator that a share of an action needs. -/
def RecursiveShareCandidate.Needs (candidate : RecursiveShareCandidate) (action : Action)
    (key : RecursiveShareNodeKey) : Prop :=
  key = { principal := candidate.creator, action := .share } ∨
    key = { principal := candidate.creator, action := action }

variable (request : RecursiveShareAuthorizationRequest)

/-- A node and a node of a creator that one of its shares needs. -/
def DelegationEdge (key next : RecursiveShareNodeKey) : Prop :=
  ∃ candidate ∈ (collectedNode request key).candidates, candidate.Needs key.action next

/-- The shares that the expansion of a set of nodes follows. -/
def edgeCount (keys : Finset RecursiveShareNodeKey) : ℕ :=
  ∑ key ∈ keys, (collectedNode request key).candidates.length

variable {candidates : List RecursiveShareCandidate} {rest : List RecursiveShareNodeKey}
  {state last : SearchState} {low n : ℕ}

section

variable {request : RecursiveShareAuthorizationRequest}
  {key : RecursiveShareNodeKey} {state next : SearchState} {depth : ℕ}

theorem searchStep_of_mem (hkey : key ∈ state.nodes) :
    searchStep request request.creators key state = .ok state := by
  rw [searchStep, if_pos (TreeMap.mem_iff_contains.mp hkey)]

/-- A new node is stored after its candidates were followed; a principal
without facts has none. -/
theorem searchStep_of_notMem (hkey : key ∉ state.nodes) (hdepth : state.depths[key]? = some depth) :
    searchStep request request.creators key state =
      (followCandidates key depth (collectedNode request key).candidates state).map fun next =>
          { next with
            nodes := next.nodes.insert key (collectedNode request key) } := by
  have hcontains : ¬state.nodes.contains key := mt TreeMap.mem_iff_contains.mpr hkey
  rw [searchStep, if_neg hcontains, recursiveShareSubject_eq_suppliedFacts]
  cases hfacts : suppliedFacts request key.principal with
  | none =>
    have hnode : collectedNode request key = {} := by
      simp [collectedNode, hfacts]
    rw [hnode]
    rfl
  | some subject =>
    have hnode : collectedNode request key = recursiveShareNode subject key.action request := by
      simp [collectedNode, hfacts]
    simp only [hdepth, ← hnode]
    cases followCandidates key depth (collectedNode request key).candidates state <;> rfl

theorem followCandidates_recursiveEdges (h : followCandidates key depth candidates state = .ok next)
    (hlimit : state.recursiveEdges ≤ maxRecursiveShareEdges) :
    next.recursiveEdges = state.recursiveEdges + candidates.length ∧
      next.recursiveEdges ≤ maxRecursiveShareEdges ∧ next.nodes = state.nodes := by
  induction candidates generalizing state with
  | nil =>
    rw [followCandidates, Except.ok.injEq] at h
    rw [← h]
    exact ⟨rfl, hlimit, rfl⟩
  | cons candidate rest ih =>
    obtain ⟨hedges, h⟩ := followCandidates_cons_eq_ok h
    have hmid := ih h (by rw [queueCreator_recursiveEdges]; exact hedges)
    rw [queueCreator_recursiveEdges, queueCreator_nodes] at hmid
    refine ⟨?_, hmid.2.1, hmid.2.2⟩
    rw [hmid.1, List.length_cons]
    dsimp only
    omega

theorem followCandidates_depth (h : followCandidates key depth candidates state = .ok next)
    (hne : candidates ≠ []) : depth < maxRecursiveShareDelegationDepth := by
  cases candidates with
  | nil => exact absurd rfl hne
  | cons candidate rest =>
    simp only [followCandidates, followCandidate] at h
    split_ifs at h with hedges hdepth
    omega

theorem followCandidates_ok
    (hedges : state.recursiveEdges + candidates.length ≤ maxRecursiveShareEdges)
    (hdepth : candidates ≠ [] → depth + 1 ≤ maxRecursiveShareDelegationDepth) :
    ∃ next, followCandidates key depth candidates state = .ok next := by
  induction candidates generalizing state with
  | nil => exact ⟨state, rfl⟩
  | cons candidate rest ih =>
    have hdepth := hdepth (List.cons_ne_nil _ _)
    rw [List.length_cons] at hedges
    have hfollow : followCandidate key depth state candidate = .ok (queueCreator key depth candidate
          { state with recursiveEdges := state.recursiveEdges + 1 }) := by
      simp only [followCandidate]
      rw [if_neg (by omega), if_neg (by omega)]
    simp only [followCandidates, hfollow]
    apply ih
    · rw [queueCreator_recursiveEdges]
      dsimp only
      omega
    · intro _
      exact hdepth

end

/-- The expanded nodes, as a finite set, account for the counted edges. -/
structure CountedEdges (request : RecursiveShareAuthorizationRequest) (state : SearchState)
    (expanded : Finset RecursiveShareNodeKey) : Prop where
  mem_iff : ∀ key, key ∈ expanded ↔ key ∈ state.nodes
  edges_eq : state.recursiveEdges = edgeCount request expanded
  edges_le : state.recursiveEdges ≤ maxRecursiveShareEdges

section

variable {request : RecursiveShareAuthorizationRequest}
  {key : RecursiveShareNodeKey} {state next : SearchState} {expanded : Finset RecursiveShareNodeKey}

theorem CountedEdges.store (h : CountedEdges request state expanded) (hkey : key ∉ state.nodes)
    {depth : ℕ}
    (hfollow : followCandidates key depth (collectedNode request key).candidates state = .ok next) :
    CountedEdges request { next with nodes := next.nodes.insert key (collectedNode request key) }
      (insert key expanded) := by
  obtain ⟨hedges, hle, hnodes⟩ := followCandidates_recursiveEdges hfollow h.edges_le
  refine ⟨?_, ?_, hle⟩
  · intro other
    simp only [Finset.mem_insert, NodeMap.mem_insert, hnodes, h.mem_iff]
    rw [eq_comm]
  · have hnew : key ∉ expanded := mt (h.mem_iff key).mp hkey
    rw [edgeCount, Finset.sum_insert hnew, ← edgeCount, ← h.edges_eq]
    exact hedges.trans (Nat.add_comm _ _)

theorem initialSearch_countedEdges : CountedEdges request (initialSearch request) ∅ := by
  refine ⟨?_, ?_, ?_⟩
  · simp [initialSearch]
  · simp [initialSearch, edgeCount]
  · simp [initialSearch]

end

/-! ## Nodes are expanded at their shortest distance -/

def SearchState.depth (state : SearchState) (key : RecursiveShareNodeKey) : ℕ :=
  state.depths[key]?.getD 0

/-- The queue is ordered by depth, and depths exceed the least queued one by at most one. -/
structure OrderedSearch (request : RecursiveShareAuthorizationRequest) (low : ℕ)
    (state : SearchState) : Prop where
  root_depth : state.depths[rootKey request]? = some 0
  sorted : state.pending.Pairwise fun a b => state.depth a ≤ state.depth b
  queued : ∀ key ∈ state.pending, ∃ d, state.depths[key]? = some d ∧ low ≤ d
  reached : ∀ (key : RecursiveShareNodeKey) (d : ℕ), state.depths[key]? = some d →
    d ≤ low + 1 ∧ Path (DelegationEdge request) (rootKey request) d key
  expanded : ∀ key ∈ state.nodes, ∃ d, state.depths[key]? = some d ∧
    ((collectedNode request key).candidates ≠ [] → d < maxRecursiveShareDelegationDepth) ∧
    ∀ other, DelegationEdge request key other → ∃ e, state.depths[other]? = some e ∧ e ≤ d + 1

def KeepsDepths (state next : SearchState) : Prop :=
  ∀ (key : RecursiveShareNodeKey) (d : ℕ), state.depths[key]? = some d → next.depths[key]? = some d

section

variable {request : RecursiveShareAuthorizationRequest} {key : RecursiveShareNodeKey}
  {state next : SearchState} {low d : ℕ}

theorem SearchState.depth_eq (h : state.depths[key]? = some d) : state.depth key = d := by
  rw [SearchState.depth, h, Option.getD_some]

theorem OrderedSearch.enqueue_known (h : OrderedSearch request low state)
    (hd : state.depths[key]? = some d) : enqueueRecursiveShareNode state key (low + 1) = state := by
  have hle := (h.reached key d hd).1
  have himproves : depthImproves state.depths[key]? (low + 1) = false := by
    rw [hd]
    exact decide_eq_false (by omega)
  rw [enqueueRecursiveShareNode, himproves, if_neg Bool.false_ne_true]

theorem enqueue_new (hkey : state.depths[key]? = none) (depth : ℕ) :
    enqueueRecursiveShareNode state key depth = { state with
        depths := state.depths.insert key depth
        pending := state.pending ++ [key] } := by
  rw [enqueueRecursiveShareNode, hkey, depthImproves, if_pos rfl]

theorem keepsDepths_insert (hkey : state.depths[key]? = none) (depth : ℕ)
    (pending : List RecursiveShareNodeKey) :
    KeepsDepths state { state with
        depths := state.depths.insert key depth
        pending := pending } := by
  intro other d hd
  have hne : key ≠ other := by
    rintro rfl
    rw [hkey] at hd
    cases hd
  simpa [TreeMap.getElem?_insert, hne] using hd

/-- Queueing a node one step below the current depth keeps the order. -/
theorem OrderedSearch.enqueue (h : OrderedSearch request low state)
    (hreached : Path (DelegationEdge request) (rootKey request) (low + 1) key) :
    OrderedSearch request low (enqueueRecursiveShareNode state key (low + 1)) ∧
      KeepsDepths state (enqueueRecursiveShareNode state key (low + 1)) ∧
      ∃ e, (enqueueRecursiveShareNode state key (low + 1)).depths[key]? = some e ∧ e ≤ low + 1 := by
  cases hkey : state.depths[key]? with
  | some d =>
    rw [h.enqueue_known hkey]
    exact ⟨h, fun _ _ hd => hd, d, hkey, (h.reached key d hkey).1⟩
  | none =>
    have hkeep := keepsDepths_insert hkey (low + 1) (state.pending ++ [key])
    have hself : (state.depths.insert key (low + 1))[key]? =
        some (low + 1) := TreeMap.getElem?_insert_self
    have hold : ∀ other ∈ state.pending, ({ state with
            depths := state.depths.insert key (low + 1)
            pending := state.pending ++ [key] } : SearchState).depth other =
          state.depth other := by
      intro other hother
      obtain ⟨d, hd, -⟩ := h.queued other hother
      rw [SearchState.depth_eq (hkeep other d hd), SearchState.depth_eq hd]
    rw [enqueue_new hkey]
    refine ⟨⟨hkeep _ _ h.root_depth, ?_, ?_, ?_, ?_⟩, hkeep, low + 1, hself, le_rfl⟩
    · refine List.pairwise_append.mpr ⟨h.sorted.imp_of_mem fun ha hb hab => ?_,
        List.pairwise_singleton _ _, fun a ha b hb => ?_⟩
      · rw [hold _ ha, hold _ hb]
        exact hab
      · have hnew : SearchState.depth { state with
              depths := state.depths.insert key (low + 1)
              pending := state.pending ++ [key] } key = low + 1 :=
          SearchState.depth_eq hself
        obtain ⟨d, hd, -⟩ := h.queued a ha
        rw [List.mem_singleton.mp hb, hold a ha, hnew, SearchState.depth_eq hd]
        exact (h.reached a d hd).1
    · refine List.forall_mem_append.mpr ⟨fun other hother => ?_,
        List.forall_mem_singleton.mpr ⟨low + 1, hself, Nat.le_succ low⟩⟩
      obtain ⟨d, hd, hle⟩ := h.queued other hother
      exact ⟨d, hkeep other d hd, hle⟩
    · intro other d hd
      simp only [TreeMap.getElem?_insert, Std.LawfulEqCmp.compare_eq_iff_eq] at hd
      split_ifs at hd with hsame
      · rw [← Option.some.inj hd, ← hsame]
        exact ⟨le_rfl, hreached⟩
      · exact h.reached other d hd
    · intro other hother
      obtain ⟨d, hd, hdepth, hnear⟩ := h.expanded other hother
      refine ⟨d, hkeep other d hd, hdepth, fun target htarget => ?_⟩
      obtain ⟨e, he, hle⟩ := hnear target htarget
      exact ⟨e, hkeep target e he, hle⟩

theorem KeepsDepths.trans (h : KeepsDepths state next) (hnext : KeepsDepths next last) :
    KeepsDepths state last := by
  intro key d hd
  exact hnext key d (h key d hd)

theorem OrderedSearch.queueCreator (h : OrderedSearch request low state)
    {candidate : RecursiveShareCandidate} (hreached : ∀ other, candidate.Needs key.action other →
      Path (DelegationEdge request) (rootKey request) (low + 1) other) :
    OrderedSearch request low (queueCreator key low candidate state) ∧
      KeepsDepths state (Authz.queueCreator key low candidate state) ∧
      ∀ other, candidate.Needs key.action other →
        ∃ e, (Authz.queueCreator key low candidate state).depths[other]? =
          some e ∧ e ≤ low + 1 := by
  obtain ⟨hshare, hkeep, e, he, hle⟩ := h.enqueue (hreached _ (.inl rfl))
  by_cases haction : key.action = .share
  · have heq : Authz.queueCreator key low candidate state = enqueueRecursiveShareNode state
          ⟨candidate.creator, .share⟩ (low + 1) := by
      simp [Authz.queueCreator, haction]
    rw [heq]
    refine ⟨hshare, hkeep, ?_⟩
    rintro other (rfl | rfl)
    · exact ⟨e, he, hle⟩
    · rw [haction]
      exact ⟨e, he, hle⟩
  · have heq : Authz.queueCreator key low candidate state = enqueueRecursiveShareNode
          (enqueueRecursiveShareNode state ⟨candidate.creator, .share⟩ (low + 1))
          ⟨candidate.creator, key.action⟩
          (low + 1) := by
      simp [Authz.queueCreator, haction]
    obtain ⟨hboth, hkeep', e', he', hle'⟩ := hshare.enqueue (hreached _ (.inr rfl))
    rw [heq]
    refine ⟨hboth, hkeep.trans hkeep', ?_⟩
    rintro other (rfl | rfl)
    · exact ⟨e, hkeep' _ e he, hle⟩
    · exact ⟨e', he', hle'⟩

theorem OrderedSearch.followCandidates
    (hfollow : Authz.followCandidates key low candidates state = .ok next)
    (h : OrderedSearch request low state) (hreached : ∀ candidate ∈ candidates, ∀ other,
      candidate.Needs key.action other →
        Path (DelegationEdge request) (rootKey request) (low + 1) other) :
    OrderedSearch request low next ∧ KeepsDepths state next ∧
      ∀ candidate ∈ candidates, ∀ other, candidate.Needs key.action other →
        ∃ e, next.depths[other]? = some e ∧ e ≤ low + 1 := by
  induction candidates generalizing state with
  | nil =>
    rw [Authz.followCandidates, Except.ok.injEq] at hfollow
    rw [← hfollow]
    exact ⟨h, fun _ _ hd => hd, by simp⟩
  | cons candidate rest ih =>
    obtain ⟨-, hfollow⟩ := followCandidates_cons_eq_ok hfollow
    have hcounted : OrderedSearch request low
        { state with recursiveEdges := state.recursiveEdges + 1 } :=
      ⟨h.root_depth, h.sorted, h.queued, h.reached, h.expanded⟩
    obtain ⟨hmid, hkeep, hneeds⟩ := hcounted.queueCreator (hreached candidate List.mem_cons_self)
    obtain ⟨hnext, hkeep', hrest⟩ := ih hfollow hmid
      (List.forall_mem_cons.mp hreached).2
    refine ⟨hnext, KeepsDepths.trans hkeep hkeep', ?_⟩
    refine List.forall_mem_cons.mpr ⟨fun target htarget => ?_, hrest⟩
    obtain ⟨e, he, hle⟩ := hneeds target htarget
    exact ⟨e, hkeep' target e he, hle⟩

variable (h : OrderedSearch request low state)
include h

theorem OrderedSearch.store (hkey : state.depths[key]? = some low)
    (hneeds : ∀ candidate ∈ (collectedNode request key).candidates,
      ∀ other, candidate.Needs key.action other →
        ∃ e, state.depths[other]? = some e ∧ e ≤ low + 1)
    (hshallow : (collectedNode request key).candidates ≠ [] →
      low < maxRecursiveShareDelegationDepth) :
    OrderedSearch request low { state with
        nodes := state.nodes.insert key (collectedNode request key) } := by
  refine ⟨h.root_depth, h.sorted, h.queued, h.reached, fun other hother => ?_⟩
  rcases NodeMap.mem_insert.mp hother with rfl | hother
  · exact ⟨low, hkey, hshallow, fun target ⟨candidate, hcandidate, htarget⟩ =>
      hneeds candidate hcandidate target htarget⟩
  · exact h.expanded other hother

theorem OrderedSearch.pop (hpending : state.pending = key :: rest) :
    OrderedSearch request (state.depth key) { state with pending := rest } := by
  have hsorted := h.sorted
  rw [hpending, List.pairwise_cons] at hsorted
  refine ⟨h.root_depth, hsorted.2, fun other hother => ?_, fun other d hd => ?_, h.expanded⟩
  · obtain ⟨d, hd, -⟩ := h.queued other (by rw [hpending]; exact List.mem_cons_of_mem _ hother)
    exact ⟨d, hd, SearchState.depth_eq hd ▸ hsorted.1 other hother⟩
  · obtain ⟨e, he, hlow⟩ := h.queued key (by simp [hpending])
    obtain ⟨hle, hpath⟩ := h.reached other d hd
    exact ⟨by rw [SearchState.depth_eq he]; omega, hpath⟩

/-- A node is expanded at most as deep as any path to it is long. -/
theorem OrderedSearch.depth_le_length (hinv : SearchInvariant request [key] state)
    (hkey : state.depths[key]? = some low)
    (hpath : Path (DelegationEdge request) (rootKey request) n key) : low ≤ n := by
  refine hpath.le_length_of_frontier (fun other => state.depths[other]?)
    {other | other ∈ state.nodes} h.root_depth ?_ ?_ hkey
  · intro other hother d hd target htarget
    obtain ⟨_, hd', -, hnear⟩ := h.expanded other hother
    obtain rfl := Option.some.inj (hd.symm.trans hd')
    exact hnear target htarget
  · intro other d hd hother
    have hmem : other ∈ state.depths := by
      rw [TreeMap.mem_iff_isSome_getElem?, hd]
      rfl
    rcases hinv.covered other hmem with hnode | hcurrent | hpending
    · exact absurd hnode hother
    · rw [List.mem_singleton.mp hcurrent, hkey, Option.some.injEq] at hd
      exact hd.le
    · obtain ⟨_, hd', hle⟩ := h.queued other hpending
      exact Option.some.inj (hd.symm.trans hd') ▸ hle

end

/-! ## When a search succeeds -/

/-- No node reachable from `key` has to follow a share at a distance beyond the
depth limit. -/
def ShallowDelegation (key : RecursiveShareNodeKey) : Prop :=
  ∀ n other, Path (DelegationEdge request) key n other →
    (collectedNode request other).candidates ≠ [] →
      ∃ m < maxRecursiveShareDelegationDepth, Path (DelegationEdge request) key m other

variable {request : RecursiveShareAuthorizationRequest}
  {bound expanded : Finset RecursiveShareNodeKey} {key : RecursiveShareNodeKey}

/-- Nodes with few enough edges that hold everything reachable, at small distances. -/
structure WithinLimits (request : RecursiveShareAuthorizationRequest)
    (bound : Finset RecursiveShareNodeKey) : Prop where
  root_mem : rootKey request ∈ bound
  closed : ∀ key ∈ bound, ∀ other, DelegationEdge request key other → other ∈ bound
  edges_le : edgeCount request bound ≤ maxRecursiveShareEdges
  shallow : ShallowDelegation request (rootKey request)

/-- Everything known between two iterations of a search. -/
structure SearchProgress (request : RecursiveShareAuthorizationRequest) (state : SearchState)
    (low : ℕ) (expanded : Finset RecursiveShareNodeKey) : Prop where
  invariant : SearchInvariant request [] state
  ordered : OrderedSearch request low state
  counted : CountedEdges request state expanded

theorem WithinLimits.mem_of_path (h : WithinLimits request bound)
    (hpath : Path (DelegationEdge request) (rootKey request) n key) : key ∈ bound :=
  hpath.mem_of_closed (S := {key | key ∈ bound}) h.closed h.root_mem

theorem WithinLimits.edges_fit (h : WithinLimits request bound)
    (hsub : expanded ⊆ bound) (hkey : key ∈ bound) (hnew : key ∉ expanded) :
    edgeCount request expanded + (collectedNode request key).candidates.length ≤
      maxRecursiveShareEdges := by
  have hinsert : insert key expanded ⊆ bound := Finset.insert_subset hkey hsub
  have hle : edgeCount request (insert key expanded) ≤ edgeCount request bound :=
    Finset.sum_le_sum_of_subset hinsert
  rw [edgeCount, Finset.sum_insert hnew, Nat.add_comm] at hle
  exact hle.trans h.edges_le

section

variable (h : SearchProgress request state low expanded) (hpending : state.pending = key :: rest)
include h hpending

/-- The depth at which the next node is expanded is the length of a path to it. -/
theorem SearchProgress.expansion : ∃ depth, state.depths[key]? = some depth ∧
    OrderedSearch request depth { state with pending := rest } ∧
    Path (DelegationEdge request) (rootKey request) depth key := by
  obtain ⟨depth, hdepth, -⟩ := h.ordered.queued key (by simp [hpending])
  have hordered := h.ordered.pop hpending
  rw [SearchState.depth_eq hdepth] at hordered
  exact ⟨depth, hdepth, hordered, (h.ordered.reached key depth hdepth).2⟩

theorem SearchProgress.next {next : SearchState}
    (hstep : searchStep request request.creators key { state with pending := rest } = .ok next) :
    ∃ low' expanded', SearchProgress request next low' expanded' := by
  obtain ⟨depth, hdepth, hordered, hpath⟩ := h.expansion hpending
  have hinvariant := searchStep_invariant hstep (h.invariant.pop hpending)
  have hcounted : CountedEdges request { state with pending := rest } expanded :=
    ⟨h.counted.mem_iff, h.counted.edges_eq, h.counted.edges_le⟩
  by_cases hstored : key ∈ state.nodes
  · have hsame : searchStep request request.creators
        key { state with pending := rest } = .ok { state with pending := rest } :=
      searchStep_of_mem hstored
    obtain rfl := Except.ok.inj (hstep.symm.trans hsame)
    exact ⟨_, _, hinvariant, hordered, hcounted⟩
  · rw [@searchStep_of_notMem request key { state with pending := rest } depth hstored
      hdepth] at hstep
    cases hfollow : followCandidates key depth (collectedNode request key).candidates
        { state with pending := rest } with
    | error =>
      rw [hfollow] at hstep
      cases hstep
    | ok mid =>
      rw [hfollow] at hstep
      obtain rfl := Except.ok.inj hstep
      obtain ⟨hmid, hkeep, hneeds⟩ := hordered.followCandidates hfollow
        fun candidate hcandidate other hother => hpath.tail ⟨candidate, hcandidate, hother⟩
      exact ⟨depth, insert key expanded, hinvariant,
        hmid.store (hkeep key depth hdepth) hneeds (followCandidates_depth hfollow),
        hcounted.store hstored hfollow⟩

theorem SearchProgress.step (hlimits : WithinLimits request bound) :
    ∃ next, searchStep request request.creators key { state with pending := rest } =
      .ok next := by
  obtain ⟨depth, hdepth, hordered, hpath⟩ := h.expansion hpending
  by_cases hstored : key ∈ state.nodes
  · exact ⟨_, searchStep_of_mem hstored⟩
  · have hexpanded : expanded ⊆ bound := by
      intro other hother
      obtain ⟨d, hd, -⟩ := h.ordered.expanded other ((h.counted.mem_iff other).mp hother)
      exact hlimits.mem_of_path (h.ordered.reached other d hd).2
    have hedges := hlimits.edges_fit hexpanded (hlimits.mem_of_path hpath)
      (mt (h.counted.mem_iff key).mp hstored)
    rw [← h.counted.edges_eq] at hedges
    -- The shares of a node are followed at its shortest distance.
    have hshallow : (collectedNode request key).candidates ≠ [] →
        depth + 1 ≤ maxRecursiveShareDelegationDepth := by
      intro hcandidates
      obtain ⟨_, hm, hshort⟩ := hlimits.shallow depth key hpath hcandidates
      exact (Nat.succ_le_succ
        (hordered.depth_le_length (h.invariant.pop hpending) hdepth hshort)).trans hm
    obtain ⟨mid, hfollow⟩ : ∃ mid, followCandidates key depth
        (collectedNode request key).candidates { state with pending := rest } =
          .ok mid := followCandidates_ok hedges hshallow
    have hstep := @searchStep_of_notMem request key
      { state with pending := rest } depth hstored hdepth
    rw [hfollow] at hstep
    exact ⟨_, hstep⟩

end

theorem collectNodes_ok (hlimits : WithinLimits request bound)
    (h : SearchProgress request state low expanded) :
    ∃ nodes, collectNodes request request.creators state = .ok nodes := by
  fun_induction collectNodes request request.creators state generalizing low expanded with
  | case1 state hpending => exact ⟨state.nodes, rfl⟩
  | case2 state key rest hpending fault hstep =>
    obtain ⟨next, hok⟩ := h.step hpending hlimits
    rw [hstep] at hok
    cases hok
  | case3 state key rest hpending next hstep ih =>
    obtain ⟨_, _, hnext⟩ := h.next hpending hstep
    exact ih hnext

/-- A search that has emptied its queue stayed within the limits. -/
theorem SearchProgress.withinLimits (h : SearchProgress request state low expanded)
    (hpending : state.pending = []) : WithinLimits request expanded := by
  have hcollected := h.invariant.collected hpending
  have hclosed : ∀ key ∈ expanded, ∀ other, DelegationEdge request key other →
      other ∈ expanded := by
    rintro key hkey other ⟨candidate, hcandidate, hneeds⟩
    have hnodes := hcollected.closed key ((h.counted.mem_iff key).mp hkey) candidate hcandidate
    rw [h.counted.mem_iff]
    rcases hneeds with rfl | rfl
    · exact hnodes.1
    · exact hnodes.2
  have hroot := (h.counted.mem_iff _).mpr hcollected.root_mem
  refine ⟨hroot, hclosed, h.counted.edges_eq ▸ h.counted.edges_le, ?_⟩
  intro n other hpath hcandidates
  have hother : other ∈ expanded :=
    hpath.mem_of_closed (S := {key | key ∈ expanded}) hclosed hroot
  obtain ⟨d, hd, hdepth, -⟩ := h.ordered.expanded other ((h.counted.mem_iff other).mp hother)
  exact ⟨d, hdepth hcandidates, (h.ordered.reached other d hd).2⟩

theorem collectNodes_withinLimits {nodes : NodeMap RecursiveShareNode}
    (hrun : collectNodes request request.creators state = .ok nodes)
    (h : SearchProgress request state low expanded) :
    ∃ collected, WithinLimits request collected := by
  fun_induction collectNodes request request.creators state generalizing low expanded with
  | case1 state hpending =>
    exact ⟨expanded, h.withinLimits hpending⟩
  | case2 => cases hrun
  | case3 state key rest hpending next hstep ih =>
    obtain ⟨_, _, hnext⟩ := h.next hpending hstep
    exact ih hrun hnext

theorem initialSearch_progress : SearchProgress request (initialSearch request) 0 ∅ := by
  refine ⟨initialSearch_invariant, ⟨?_, ?_, ?_, ?_, ?_⟩, initialSearch_countedEdges⟩
  · simp [initialSearch]
  · simp [initialSearch]
  · simp [initialSearch]
  · intro key d hd
    simp only [initialSearch, TreeMap.getElem?_insert, Std.LawfulEqCmp.compare_eq_iff_eq] at hd
    split_ifs at hd with hkey
    · rw [← Option.some.inj hd, ← hkey]
      exact ⟨Nat.zero_le _, .refl⟩
    · simp at hd
  · exact fun key hkey => absurd hkey TreeMap.not_mem_emptyc

end FileBelt.Authz
