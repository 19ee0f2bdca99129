import FileBelt.Authz.Delegation

/-!
# The evaluator decides the delegation rules

The search collects nodes closed under the premises of the delegation rules, and the
proof loop saturates them.  The decision for the actor's node is membership in the
least closed set.
-/

namespace FileBelt.Authz

open Std (TreeMap)
open Support

/-! ## The search collects a premise-closed set of nodes -/

/-- Invariant of the search loop.  `current` holds the keys taken from the
queue but not stored yet. -/
structure SearchInvariant (request : RecursiveShareAuthorizationRequest)
    (current : List RecursiveShareNodeKey) (state : SearchState) : Prop where
  nodes_eq : ∀ key node, state.nodes[key]? = some node → node = collectedNode request key
  covered : ∀ key ∈ state.depths, key ∈ state.nodes ∨ key ∈ current ∨ key ∈ state.pending
  queued : ∀ key, key ∈ current ∨ key ∈ state.pending → key ∈ state.depths
  root_mem : rootKey request ∈ state.depths
  closed : ∀ key ∈ state.nodes,
    ∀ candidate ∈ (collectedNode request key).candidates,
      { principal := candidate.creator, action := .share } ∈ state.depths ∧
        { principal := candidate.creator, action := key.action } ∈ state.depths

variable {candidate : RecursiveShareCandidate} {other key : RecursiveShareNodeKey}
  {decision : AuthorizationDecision}

section

variable {request : RecursiveShareAuthorizationRequest} {state next : SearchState}
  {key : RecursiveShareNodeKey} {depth : ℕ} {current rest : List RecursiveShareNodeKey}

theorem mem_enqueueRecursiveShareNode_depths :
    other ∈ (enqueueRecursiveShareNode state key depth).depths ↔
      other = key ∨ other ∈ state.depths := by
  rcases enqueueRecursiveShareNode_cases state key depth with ⟨hkey, h⟩ | h
  · rw [h]
    constructor
    · exact .inr
    · rintro (rfl | hother)
      · exact hkey
      · exact hother
  · rw [h]
    rw [NodeMap.mem_insert, eq_comm]

theorem SearchInvariant.enqueue (h : SearchInvariant request current state)
    (key : RecursiveShareNodeKey) (depth : ℕ) :
    SearchInvariant request current (enqueueRecursiveShareNode state key depth) := by
  have hdepths : ∀ other ∈ state.depths,
      other ∈ (enqueueRecursiveShareNode state key depth).depths :=
    fun other hother => mem_enqueueRecursiveShareNode_depths.mpr (.inr hother)
  refine ⟨?_, ?_, ?_, hdepths _ h.root_mem, ?_⟩
  · rw [enqueueRecursiveShareNode_nodes]
    exact h.nodes_eq
  · rcases enqueueRecursiveShareNode_cases state key depth with ⟨-, heq⟩ | heq
    · rw [heq]
      exact h.covered
    · rw [heq]
      intro other hother
      simp only [TreeMap.mem_insert, List.mem_append, List.mem_singleton] at hother ⊢
      rcases hother with hnew | hold
      · have hother : key = other := Std.LawfulEqCmp.eq_of_compare hnew
        exact .inr (.inr (.inr hother.symm))
      · rcases h.covered other hold with hnode | hcurrent | hpending
        · exact .inl hnode
        · exact .inr (.inl hcurrent)
        · exact .inr (.inr (.inl hpending))
  · intro other hother
    rw [mem_enqueueRecursiveShareNode_depths]
    rcases enqueueRecursiveShareNode_cases state key depth with ⟨-, heq⟩ | heq
    · rw [heq] at hother
      exact .inr (h.queued other hother)
    · simp only [heq, List.mem_append, List.mem_singleton] at hother
      rcases hother with hcurrent | hpending | rfl
      · exact .inr (h.queued other (.inl hcurrent))
      · exact .inr (h.queued other (.inr hpending))
      · exact .inl rfl
  · rw [enqueueRecursiveShareNode_nodes]
    intro other hother candidate hcandidate
    have hclosed := h.closed other hother candidate hcandidate
    exact ⟨hdepths _ hclosed.1, hdepths _ hclosed.2⟩

theorem SearchInvariant.queueCreator (h : SearchInvariant request current state)
    (key : RecursiveShareNodeKey) (depth : ℕ) (candidate : RecursiveShareCandidate) :
    SearchInvariant request current (queueCreator key depth candidate state) := by
  simp only [Authz.queueCreator]
  split
  · exact (h.enqueue _ _).enqueue _ _
  · exact h.enqueue _ _

theorem queueCreator_depths_mono (hother : other ∈ state.depths) :
    other ∈ (queueCreator key depth candidate state).depths := by
  simp only [queueCreator]
  split <;> simp [mem_enqueueRecursiveShareNode_depths, hother]

theorem queueCreator_reaches (key : RecursiveShareNodeKey) (depth : ℕ)
    (candidate : RecursiveShareCandidate) (state : SearchState) :
    ⟨candidate.creator, .share⟩ ∈ (queueCreator key depth candidate state).depths ∧
      ⟨candidate.creator, key.action⟩ ∈ (queueCreator key depth candidate state).depths := by
  simp only [queueCreator]
  split
  · simp [mem_enqueueRecursiveShareNode_depths]
  · next haction =>
    have hshare : key.action = .share := not_not.mp haction
    simp [mem_enqueueRecursiveShareNode_depths, hshare]

/-- The loop over the candidates keeps the invariant and reaches their premises. -/
theorem followCandidates_spec {candidates : List RecursiveShareCandidate}
    (h : followCandidates key depth candidates state = .ok next)
    (hinv : SearchInvariant request current state) :
    SearchInvariant request current next ∧ (∀ other ∈ state.depths, other ∈ next.depths) ∧
      ∀ candidate ∈ candidates, ⟨candidate.creator, .share⟩ ∈ next.depths ∧
        ⟨candidate.creator, key.action⟩ ∈ next.depths := by
  induction candidates generalizing state with
  | nil =>
    rw [followCandidates, Except.ok.injEq] at h
    subst h
    exact ⟨hinv, fun _ hother => hother, by simp⟩
  | cons candidate rest ih =>
    obtain ⟨-, h⟩ := followCandidates_cons_eq_ok h
    have hcounted : SearchInvariant request current
        { state with recursiveEdges := state.recursiveEdges + 1 } :=
      ⟨hinv.nodes_eq, hinv.covered, hinv.queued, hinv.root_mem, hinv.closed⟩
    obtain ⟨hnext, hdepths, hrest⟩ := ih h (hcounted.queueCreator key depth candidate)
    refine ⟨hnext, ?_, ?_⟩
    · intro other hother
      exact hdepths other (queueCreator_depths_mono hother)
    · have hreach := queueCreator_reaches key depth candidate
        { state with recursiveEdges := state.recursiveEdges + 1 }
      exact List.forall_mem_cons.mpr ⟨⟨hdepths _ hreach.1, hdepths _ hreach.2⟩, hrest⟩

theorem SearchInvariant.store (h : SearchInvariant request [key] state)
    (hreach : ∀ candidate ∈ (collectedNode request key).candidates,
      ⟨candidate.creator, .share⟩ ∈ state.depths ∧ ⟨candidate.creator, key.action⟩ ∈ state.depths) :
    SearchInvariant request [] { state with
        nodes := state.nodes.insert key (collectedNode request key) } := by
  refine ⟨?_, ?_, ?_, h.root_mem, ?_⟩
  · intro other node hnode
    simp only [TreeMap.getElem?_insert, Std.LawfulEqCmp.compare_eq_iff_eq] at hnode
    split_ifs at hnode with hkey
    · rw [← hkey]
      exact (Option.some.inj hnode).symm
    · exact h.nodes_eq other node hnode
  · intro other hother
    rw [NodeMap.mem_insert]
    rcases h.covered other hother with hnode | hcurrent | hpending
    · exact .inl (.inr hnode)
    · exact .inl (.inl (List.mem_singleton.mp hcurrent).symm)
    · exact .inr (.inr hpending)
  · rintro other (hcurrent | hpending)
    · simp at hcurrent
    · exact h.queued other (.inr hpending)
  · intro other hother candidate hcandidate
    rcases NodeMap.mem_insert.mp hother with rfl | hother
    · exact hreach candidate hcandidate
    · exact h.closed other hother candidate hcandidate

/-- What an expansion can do: nothing, or store a new node after its candidates. -/
theorem searchStep_eq_ok (hstep : searchStep request request.creators key state = .ok next) :
    (key ∈ state.nodes ∧ next = state) ∨ (key ∉ state.nodes ∧ ∃ depth mid,
        followCandidates key depth (collectedNode request key).candidates state = .ok mid ∧
        next = { mid with nodes := mid.nodes.insert key (collectedNode request key) }) := by
  unfold searchStep at hstep
  rw [recursiveShareSubject_eq_suppliedFacts] at hstep
  split at hstep
  · next hstored =>
    exact .inl ⟨TreeMap.mem_iff_contains.mpr hstored, (Except.ok.inj hstep).symm⟩
  · next hnew =>
    refine .inr ⟨mt TreeMap.mem_iff_contains.mp hnew, ?_⟩
    rw [collectedNode]
    cases hfacts : suppliedFacts request key.principal with
    | none =>
      rw [hfacts] at hstep
      exact ⟨0, state, rfl, (Except.ok.inj hstep).symm⟩
    | some =>
      rw [hfacts] at hstep
      dsimp only at hstep ⊢
      split at hstep
      · cases hstep
      · split at hstep
        · cases hstep
        · next hfollow => exact ⟨_, _, hfollow, (Except.ok.inj hstep).symm⟩

theorem searchStep_invariant (hstep : searchStep request request.creators key state = .ok next)
    (h : SearchInvariant request [key] state) : SearchInvariant request [] next := by
  rcases searchStep_eq_ok hstep with ⟨hstored, rfl⟩ | ⟨-, _, _, hfollow, rfl⟩
  · refine ⟨h.nodes_eq, ?_, ?_, h.root_mem, h.closed⟩
    · intro other hother
      rcases h.covered other hother with hnode | hcurrent | hpending
      · exact .inl hnode
      · rw [List.mem_singleton.mp hcurrent]
        exact .inl hstored
      · exact .inr (.inr hpending)
    · rintro other (hcurrent | hpending)
      · simp at hcurrent
      · exact h.queued other (.inr hpending)
  · obtain ⟨hinv, -, hreach⟩ := followCandidates_spec hfollow h
    exact hinv.store hreach

theorem SearchInvariant.pop (h : SearchInvariant request [] state)
    (hpending : state.pending = key :: rest) :
    SearchInvariant request [key] { state with pending := rest } := by
  refine ⟨h.nodes_eq, ?_, ?_, h.root_mem, h.closed⟩
  · intro other hother
    rcases h.covered other hother with hnode | hcurrent | hqueued
    · exact .inl hnode
    · simp at hcurrent
    · rw [hpending, List.mem_cons] at hqueued
      rcases hqueued with rfl | hqueued
      · exact .inr (.inl (List.mem_singleton.mpr rfl))
      · exact .inr (.inr hqueued)
  · intro other hother
    rw [List.mem_singleton, ← List.mem_cons, ← hpending] at hother
    exact h.queued other (.inr hother)

/-- The invariant of the empty queue: what a finished search has collected. -/
structure CollectedNodes (request : RecursiveShareAuthorizationRequest)
    (nodes : NodeMap RecursiveShareNode) : Prop where
  nodes_eq : ∀ key node, nodes[key]? = some node → node = collectedNode request key
  root_mem : rootKey request ∈ nodes
  closed : ∀ key ∈ nodes,
    ∀ candidate ∈ (collectedNode request key).candidates,
      { principal := candidate.creator, action := .share } ∈ nodes ∧
        { principal := candidate.creator, action := key.action } ∈ nodes

theorem SearchInvariant.collected (h : SearchInvariant request [] state)
    (hpending : state.pending = []) : CollectedNodes request state.nodes := by
  have hcovered : ∀ key ∈ state.depths, key ∈ state.nodes := by
    intro key hkey
    rcases h.covered key hkey with hnode | hcurrent | hqueued
    · exact hnode
    · simp at hcurrent
    · simp [hpending] at hqueued
  refine ⟨h.nodes_eq, hcovered _ h.root_mem, ?_⟩
  intro key hkey candidate hcandidate
  have hclosed := h.closed key hkey candidate hcandidate
  exact ⟨hcovered _ hclosed.1, hcovered _ hclosed.2⟩

theorem collectNodes_collected {nodes : NodeMap RecursiveShareNode}
    (hrun : collectNodes request request.creators state = .ok nodes)
    (h : SearchInvariant request [] state) : CollectedNodes request nodes := by
  -- Functional induction on the queue: stored nodes once it is empty, else one
  -- expansion step.
  fun_induction collectNodes request request.creators state with
  | case1 state hpending =>
    rw [← Except.ok.inj hrun]
    exact h.collected hpending
  | case2 => cases hrun
  | case3 _ _ _ hpending _ hstep ih =>
    exact ih hrun (searchStep_invariant hstep (h.pop hpending))

theorem initialSearch_invariant : SearchInvariant request [] (initialSearch request) := by
  refine ⟨?_, ?_, ?_, TreeMap.mem_insert_self, ?_⟩
  · intro key node hnode
    simp [initialSearch] at hnode
  · intro key hkey
    simp only [initialSearch, NodeMap.mem_insert] at hkey ⊢
    rcases hkey with rfl | hkey
    · exact .inr (.inr (List.mem_singleton.mpr rfl))
    · exact absurd hkey TreeMap.not_mem_emptyc
  · rintro key (hcurrent | hpending)
    · simp at hcurrent
    · rw [List.mem_singleton.mp hpending]
      exact TreeMap.mem_insert_self
  · intro key hkey
    exact absurd hkey TreeMap.not_mem_emptyc

end

/-! ## The proof loop saturates the collected nodes -/

/-- Proven nodes hold their action; those proven without a candidate need no delegation. -/
structure ProofInvariant (request : RecursiveShareAuthorizationRequest) (allowed : AllowedMap) :
    Prop where
  sound : ∀ key ∈ allowed, key ∈ delegatedNodes request
  independent : ∀ key, allowed[key]? = some none → (collectedNode request key).independent.isSome

section

variable {request : RecursiveShareAuthorizationRequest}
  {nodes : List (RecursiveShareNodeKey × RecursiveShareNode)}
  {allowed : AllowedMap} {state : AllowedMap × Bool}
  {node : RecursiveShareNodeKey × RecursiveShareNode}

theorem recursiveShareCandidateIsProven_iff {action : Action} :
    recursiveShareCandidateIsProven candidate action allowed ↔
      ⟨candidate.creator, .share⟩ ∈ allowed ∧ ⟨candidate.creator, action⟩ ∈ allowed := by
  unfold recursiveShareCandidateIsProven
  simp only [Bool.and_eq_true, Bool.or_eq_true, beq_iff_eq]
  constructor
  · rintro ⟨hshare, rfl | haction⟩
    · exact ⟨hshare, hshare⟩
    · exact ⟨hshare, haction⟩
  · rintro ⟨hshare, haction⟩
    exact ⟨hshare, .inr haction⟩

theorem ProofInvariant.insert (h : ProofInvariant request allowed)
    {proof : Option RecursiveShareCandidate} (hkey : key ∈ delegatedNodes request)
    (hproof : proof = none → (collectedNode request key).independent.isSome) :
    ProofInvariant request (allowed.insert key proof) := by
  constructor
  · intro other hother
    rcases NodeMap.mem_insert.mp hother with rfl | hother
    · exact hkey
    · exact h.sound other hother
  · intro other hother
    simp only [TreeMap.getElem?_insert, Std.LawfulEqCmp.compare_eq_iff_eq] at hother
    split_ifs at hother with hsame
    · rw [← hsame]
      exact hproof (Option.some.inj hother)
    · exact h.independent other hother

theorem independentNodes_spec (hnodes : ∀ node ∈ nodes, node.2 = collectedNode request node.1) :
    ProofInvariant request (independentNodes nodes) ∧
      ∀ node ∈ nodes, node.1 ∈ (delegationSystem request).seed →
        node.1 ∈ independentNodes nodes := by
  unfold independentNodes
  induction nodes using List.reverseRecOn with
  | nil =>
    refine ⟨⟨?_, ?_⟩, ?_⟩
    · intro key hkey
      exact absurd hkey TreeMap.not_mem_emptyc
    · simp
    · simp
  | append_singleton rest node ih =>
    obtain ⟨hinv, hseeds⟩ := ih fun other hother =>
      hnodes other (List.mem_append_left _ hother)
    have hnode := hnodes node (by simp)
    have hguard : (node.2.denied.isNone && node.2.independent.isSome) ↔
        node.1 ∈ (delegationSystem request).seed := by
      rw [hnode, ← collectedNode_independent_iff, Bool.and_eq_true, Option.isNone_iff_eq_none]
    rw [List.foldl_append, List.foldl_cons, List.foldl_nil]
    split
    · next hpass =>
      have hseed := hguard.mp hpass
      refine ⟨hinv.insert (.seed hseed) fun _ =>
        (collectedNode_independent_iff.mpr hseed).2, ?_⟩
      intro other hother hotherSeed
      rw [NodeMap.mem_insert]
      rcases List.mem_append.mp hother with hrest | hlast
      · exact .inr (hseeds other hrest hotherSeed)
      · rw [List.mem_singleton.mp hlast]
        exact .inl rfl
    · next hfail =>
      refine ⟨hinv, ?_⟩
      intro other hother hotherSeed
      rcases List.mem_append.mp hother with hrest | hlast
      · exact hseeds other hrest hotherSeed
      · rw [List.mem_singleton.mp hlast] at hotherSeed
        exact absurd (hguard.mpr hotherSeed) hfail

theorem proofVisit_invariant (hnode : node.2 = collectedNode request node.1)
    (h : ProofInvariant request state.1) : ProofInvariant request (proofVisit state node).1 := by
  rcases proofVisit_cases state node with
    hsame | ⟨candidate, hmem, -, -, hproven, hnext⟩
  · rw [hsame]
    exact h
  · rw [hnext]
    rw [hnode] at hmem
    obtain ⟨hdeny, hshare⟩ := sharedBy_of_mem_candidates hmem
    obtain ⟨hcreatorShare, hcreatorAction⟩ := recursiveShareCandidateIsProven_iff.mp hproven
    have hkey : node.1 ∈ delegatedNodes request :=
      isLeast_delegatedNodes.1.shared node.1 candidate.creator hdeny hshare
        (h.sound _ hcreatorShare) (h.sound _ hcreatorAction)
    exact h.insert hkey (by simp)

theorem foldl_proofVisit_invariant (hnodes : ∀ node ∈ nodes, node.2 = collectedNode request node.1)
    (h : ProofInvariant request state.1) :
    ProofInvariant request (nodes.foldl proofVisit state).1 := by
  induction nodes generalizing state with
  | nil => exact h
  | cons node rest ih =>
    exact ih (List.forall_mem_cons.mp hnodes).2
      (proofVisit_invariant (hnodes node List.mem_cons_self) h)

theorem proofVisit_flag (hflag : (proofVisit state node).2 = false) :
    proofVisit state node = state := by
  rcases proofVisit_cases state node with h | ⟨candidate, -, -, -, -, h⟩
  · exact h
  · simp [h] at hflag

/-- A sweep that reports no change has left every node as it was. -/
theorem foldl_proofVisit_unchanged (hflag : (nodes.foldl proofVisit state).2 = false) :
    nodes.foldl proofVisit state = state ∧ ∀ node ∈ nodes, proofVisit state node = state := by
  induction nodes generalizing state with
  | nil => exact ⟨rfl, by simp⟩
  | cons node rest ih =>
    rw [List.foldl_cons] at hflag ⊢
    obtain ⟨hrest, hvisits⟩ := ih hflag
    rw [hrest] at hflag
    have hhead := proofVisit_flag hflag
    rw [hhead] at hrest hvisits ⊢
    refine ⟨hrest, ?_⟩
    exact List.forall_mem_cons.mpr ⟨hhead, hvisits⟩

theorem mem_of_proofVisit_eq (hsame : proofVisit state node = state)
    (hdenied : node.2.denied = none) (hmem : candidate ∈ node.2.candidates)
    (hproven : recursiveShareCandidateIsProven candidate node.1.action state.1) :
    node.1 ∈ state.1 := by
  unfold proofVisit at hsame
  split at hsame
  · next hguard =>
    simpa [hdenied] using hguard
  · split at hsame
    · rw [← hsame]
      exact TreeMap.mem_insert_self
    · next hfind =>
      exact absurd hproven (List.find?_eq_none.mp hfind candidate hmem)

theorem proveNodes_spec (hnodes : ∀ node ∈ nodes, node.2 = collectedNode request node.1)
    (h : ProofInvariant request allowed) : ProofInvariant request (proveNodes nodes allowed) ∧
      (∀ key ∈ allowed, key ∈ proveNodes nodes allowed) ∧
      ∀ node ∈ nodes, proofVisit (proveNodes nodes allowed, false) node =
          (proveNodes nodes allowed, false) := by
  -- Functional induction: another sweep while the last one proved a node.
  fun_induction proveNodes nodes allowed with
  | case1 allowed hchanged ih =>
    obtain ⟨hinv, hmono, hsaturated⟩ := ih (foldl_proofVisit_invariant hnodes h)
    exact ⟨hinv, fun key hkey => hmono key (foldl_proofVisit_mono nodes hkey), hsaturated⟩
  | case2 allowed hchanged =>
    have hsweep := foldl_proofVisit_unchanged
      (Bool.not_eq_true _ ▸ hchanged : (proofSweep nodes allowed).2 = false)
    have hallowed : (proofSweep nodes allowed).1 = allowed := congrArg Prod.fst hsweep.1
    rw [hallowed]
    exact ⟨h, fun _ hkey => hkey, hsweep.2⟩

end

/-! ## The decision -/

section

variable {request : RecursiveShareAuthorizationRequest} {nodes : NodeMap RecursiveShareNode}

/-- The final proof set decides the delegated nodes among the collected ones. -/
theorem CollectedNodes.mem_proveNodes_iff (h : CollectedNodes request nodes) (hkey : key ∈ nodes) :
    key ∈ delegatedNodes request ↔
      key ∈ proveNodes nodes.toList (independentNodes nodes.toList) := by
  have hlist : ∀ node ∈ nodes.toList, node.2 = collectedNode request node.1 :=
    fun node hnode =>
      h.nodes_eq _ _ (TreeMap.mem_toList_iff_getElem?_eq_some.mp hnode)
  have hmem : ∀ other ∈ nodes, (other, collectedNode request other) ∈ nodes.toList := by
    intro other hother
    obtain ⟨node, hnode⟩ := NodeMap.exists_of_mem hother
    rw [← h.nodes_eq other node hnode]
    exact TreeMap.mem_toList_iff_getElem?_eq_some.mpr hnode
  obtain ⟨hinitial, hseeds⟩ := independentNodes_spec hlist
  obtain ⟨hinv, hmono, hsaturated⟩ := proveNodes_spec hlist hinitial
  have hseed : ∀ other ∈ nodes, other ∈ (delegationSystem request).seed →
      other ∈ proveNodes nodes.toList (independentNodes nodes.toList) :=
    fun other hother hotherSeed =>
      hmono other (hseeds _ (hmem other hother) hotherSeed)
  refine ProofSystem.derivable_iff_mem_of_saturated ?_ hinv.sound hseed ?_ hkey
  · rintro other hother hnotSeed ps ⟨hdeny, creator, hshare, rfl⟩
    obtain ⟨-, candidate, hcandidate, rfl⟩ := exists_candidate_of_sharedBy hnotSeed hdeny hshare
    have hclosed := h.closed other hother candidate hcandidate
    rintro q (rfl | rfl)
    · exact hclosed.1
    · exact hclosed.2
  · rintro other hother hnotSeed ps ⟨hdeny, creator, hshare, rfl⟩ hsub
    obtain ⟨hdenied, _, hcandidate, rfl⟩ :=
      exists_candidate_of_sharedBy hnotSeed hdeny hshare
    have hvisit := hsaturated _ (hmem other hother)
    exact mem_of_proofVisit_eq hvisit hdenied hcandidate
      (recursiveShareCandidateIsProven_iff.mpr ⟨hsub (by simp), hsub (by simp)⟩)

theorem rootDecision_allowed_iff {allowed : AllowedMap} (h : ProofInvariant request allowed)
    (hroot : rootKey request ∈ delegatedNodes request ↔ rootKey request ∈ allowed) :
    (rootDecision request (collectedNode request (rootKey request)) allowed).allowed ↔
      rootKey request ∈ delegatedNodes request := by
  unfold rootDecision
  split
  · next reason sources hdenied =>
    have hsome : (collectedNode request (rootKey request)).denied ≠ none := by
      simp [hdenied]
    obtain ⟨hdeny, howner⟩ := denied_of_collectedNode_denied hsome
    simp [not_mem_delegatedNodes_of_denied hdeny howner]
  · next hdenied =>
    split
    · next reason sources hindependent =>
      have hseed : rootKey request ∈ (delegationSystem request).seed :=
        collectedNode_independent_iff.mp ⟨hdenied, by simp [hindependent]⟩
      have hmem : rootKey request ∈ delegatedNodes request := .seed hseed
      simp [hmem]
    · next hindependent =>
      rw [hroot, TreeMap.mem_iff_isSome_getElem?]
      cases hproof : allowed[rootKey request]? with
      | none => simp
      | some proof =>
        cases proof with
        | none =>
          have hsome := h.independent _ hproof
          simp [hindependent] at hsome
        | some => simp

theorem CollectedNodes.toList_eq (h : CollectedNodes request nodes) :
    ∀ node ∈ nodes.toList, node.2 = collectedNode request node.1 :=
  fun _ hnode => h.nodes_eq _ _ (TreeMap.mem_toList_iff_getElem?_eq_some.mp hnode)

theorem evaluateRecursiveDirectShares_of_collectNodes
    (hcollect : collectNodes request request.creators (initialSearch request) = .ok nodes) :
    evaluateRecursiveDirectShares request =
      .ok (rootDecision request (collectedNode request (rootKey request))
        (proveNodes nodes.toList (independentNodes nodes.toList))) := by
  have hcollected := collectNodes_collected hcollect initialSearch_invariant
  obtain ⟨_, hnode⟩ := NodeMap.exists_of_mem hcollected.root_mem
  rw [hcollected.nodes_eq _ _ hnode] at hnode
  simp [evaluateRecursiveDirectShares, hcollect, hnode]

theorem evaluateRecursiveDirectShares_eq_ok
    (hok : evaluateRecursiveDirectShares request = .ok decision) :
    ∃ nodes, collectNodes request request.creators (initialSearch request) = .ok nodes ∧
      decision = rootDecision request (collectedNode request (rootKey request))
        (proveNodes nodes.toList (independentNodes nodes.toList)) := by
  cases hcollect : collectNodes request request.creators (initialSearch request) with
  | error fault =>
    rw [evaluateRecursiveDirectShares, hcollect] at hok
    cases hok
  | ok nodes =>
    rw [evaluateRecursiveDirectShares_of_collectNodes hcollect] at hok
    exact ⟨nodes, rfl, (Except.ok.inj hok).symm⟩

theorem allowed_iff_mem_delegatedNodes
    (hok : evaluateRecursiveDirectShares request = .ok decision) :
    decision.allowed ↔ rootKey request ∈ delegatedNodes request := by
  obtain ⟨_, hcollect, rfl⟩ := evaluateRecursiveDirectShares_eq_ok hok
  have hcollected := collectNodes_collected hcollect initialSearch_invariant
  have hinv := (proveNodes_spec hcollected.toList_eq
    (independentNodes_spec hcollected.toList_eq).1).1
  exact rootDecision_allowed_iff hinv (hcollected.mem_proveNodes_iff hcollected.root_mem)

/-- Whenever the evaluator returns a decision, it allows exactly the actors
whose node is in the least set closed under the delegation rules.  Denied
nodes and nodes of principals without facts stay outside that set, and a cycle
of shares without an independent root confers nothing. -/
theorem evaluateRecursiveDirectShares_decides_least_delegation
    (request : RecursiveShareAuthorizationRequest)
    (decision : AuthorizationDecision)
    (hok : evaluateRecursiveDirectShares request = .ok decision) :
    ∃ S, IsLeast {S | DelegationClosed request S} S ∧
      (decision.allowed ↔ rootKey request ∈ S) ∧
      (∀ key, DeniedNode request key → ¬OwnerNode request key → key ∉ S) ∧
      (∀ key, suppliedFacts request key.principal = none → key ∉ S) ∧
      ∀ C, RootlessShares request C → rootKey request ∈ C → decision.allowed = false := by
  have hallowed := allowed_iff_mem_delegatedNodes hok
  refine ⟨delegatedNodes request, isLeast_delegatedNodes, hallowed, ?_, ?_, ?_⟩
  · intro key hdeny howner
    exact not_mem_delegatedNodes_of_denied hdeny howner
  · intro key hfacts
    exact not_mem_delegatedNodes_of_suppliedFacts_eq_none hfacts
  · intro C hC hroot
    rw [← Bool.not_eq_true, hallowed]
    exact hC.not_mem_delegatedNodes hroot

end

/-! A chain of two shares: principal 3 holds `SHARE` and `READ_CONTENT`
independently and shares both with principal 2, who shares the content with
the actor 1. -/

def chainEntry (id principal : ℕ) (action : Action) (creator : ℕ)
    (provenance : RecursiveShareProvenance) : RecursiveShareResolvedAclEntry where
  resolved := .direct
    { id := id, resource := .node 9, principal := principal, action := action,
      effect := .allow, inheritance := .descendants, generation := 1,
      createdBy := creator }
  provenance := provenance

def chainRequest : RecursiveShareAuthorizationRequest where
  principal := { principalId := 1, memberships := [] }
  resource := .node 9
  driveOwner := .user 50
  action := .readContent
  entries := [chainEntry 1 1 .readContent 2 (.recursiveDirectShare 2)]
  creatorFacts :=
    [{ principal := { principalId := 2, memberships := [] }
       entries :=
        [chainEntry 2 2 .share 3 (.recursiveDirectShare 3),
          chainEntry 3 2 .readContent 3 (.recursiveDirectShare 3)] },
      { principal := { principalId := 3, memberships := [] }
        entries :=
          [chainEntry 4 3 .share 50 .independent,
            chainEntry 5 3 .readContent 50 .independent] }]
  generations := { resourceAcl := 1, membership := 1, namespaceGeneration := 1 }

def chainDecision : AuthorizationDecision where
  allowed := true
  reason := .inheritedAllow
  sourceEntries := [1]
  generations := chainRequest.generations

theorem evaluateRecursiveDirectShares_chain :
    evaluateRecursiveDirectShares chainRequest = .ok chainDecision ∧
      ∃ S, IsLeast {S | DelegationClosed chainRequest S} S ∧
        rootKey chainRequest ∈ S := by
  have hok : evaluateRecursiveDirectShares chainRequest = .ok chainDecision := by
    decide +kernel
  obtain ⟨S, hleast, hiff, -⟩ :=
    evaluateRecursiveDirectShares_decides_least_delegation chainRequest chainDecision hok
  exact ⟨hok, S, hleast, hiff.mp rfl⟩

end FileBelt.Authz
