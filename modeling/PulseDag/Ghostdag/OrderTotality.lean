import PulseDag.Ghostdag.SelectedChain

/-!
# When the canonical order exists

In a reachable state the derivation of the canonical order succeeds exactly when there is
one tip, and otherwise reports a block that no anchor classifies. The order lists every
block once, after its parents, from the genesis block to the selected tip.
-/

namespace PulseDag

open List

section

variable [Crypto] {s0 s : ChainState}

/-- The genesis merge set is recorded. It is missing only in a version 1 genesis state. -/
def GenesisClassified (s : ChainState) : Prop :=
  s.dag.genesisHash ∈ s.dag.mergeSetBlues ∧ s.dag.genesisHash ∈ s.dag.mergeSetReds

/-- The genesis block stays classified. -/
theorem DagInvariant.genesisClassified (hinv : DagInvariant s0 s)
    (h0 : s ≠ s0 ∨ GenesisClassified s0) : GenesisClassified s := by
  rcases hinv.genesis_mergeSet with rfl | ⟨_, hblues, hreds⟩
  · exact h0.resolve_left fun h => h rfl
  · exact ⟨(TreeMap.mem_iff _ _).mpr ⟨_, hblues⟩, (TreeMap.mem_iff _ _).mpr ⟨_, hreds⟩⟩

/-- The selected chain of a reachable state anchors disjoint merge sets. -/
theorem DagInvariant.anchoredChain (hinv : DagInvariant s0 s) (h0 : GenesisDag s0)
    (hgenesis : GenesisClassified s) : AnchoredChain s := by
  obtain ⟨tip, _, _, hlast, hlinked, hnodup, hstored⟩ := hinv.selectedTip
  obtain ⟨hcovers, hoff, hdisjoint⟩ := hinv.chainPart h0 _ hlinked hstored
  have htip : tip ∈ s.dag.blocks := hstored tip (mem_of_getLast? hlast)
  refine ⟨hnodup, hstored, hlinked, fun c hc => ?_, fun c hc => ?_, fun c hc x hx => ?_, hdisjoint⟩
  · by_cases hg : c = s.dag.genesisHash
    · exact hg ▸ hgenesis
    · obtain ⟨block, hblock⟩ := (TreeMap.mem_iff _ _).mp (hstored c hc)
      obtain ⟨_, _, _, hsets, _⟩ := hinv.mergeMembers_spec hblock hg
      exact hsets
  · by_cases hg : c = s.dag.genesisHash
    · rw [hg, hinv.mergeMembers_genesis h0]
      exact nodup_nil
    · obtain ⟨block, hblock⟩ := (TreeMap.mem_iff _ _).mp (hstored c hc)
      obtain ⟨_, _, _, _, hmembers, _⟩ := hinv.mergeMembers_spec hblock hg
      exact hmembers
  · refine ⟨hinv.graph.mem_of_ancestor htip ((hcovers tip hlast x).mp (.inr ⟨c, hc, hx⟩)), ?_⟩
    exact hoff c hc x hx

variable {tip c : Hash} {priorities : Priorities}

/-- A block has a priority exactly when it is an ancestor of the last chain block. -/
theorem DagInvariant.priorityOf_iff (hinv : DagInvariant s0 s) (h0 : GenesisDag s0)
    (hlast : s.dag.selectedChain.getLast? = some tip) (x : Hash) :
    (∃ priority, PriorityOf s x priority) ↔ Ancestor s x tip := by
  obtain ⟨_, _, _, _, hlinked, _, hstored⟩ := hinv.selectedTip
  rw [← (hinv.chainPart h0 _ hlinked hstored).covers tip hlast]
  constructor
  · rintro ⟨⟨i, cls⟩, anchor, hanchor, hx⟩
    have hmem := mem_of_getElem? hanchor
    cases cls with
    | blue => exact .inr ⟨anchor, hmem, mem_append_left _ hx⟩
    | red => exact .inr ⟨anchor, hmem, mem_append_right _ hx⟩
    | selectedChain =>
      obtain rfl : x = anchor := hx
      exact .inl hmem
  · rintro (hx | ⟨d, hd, hx⟩)
    · exact ⟨(s.dag.selectedChain.idxOf x, .selectedChain), x, getElem?_idxOf hx, rfl⟩
    · rcases mem_append.mp hx with hx | hx
      · exact ⟨(s.dag.selectedChain.idxOf d, .blue), d, getElem?_idxOf hd, hx⟩
      · exact ⟨(s.dag.selectedChain.idxOf d, .red), d, getElem?_idxOf hd, hx⟩

omit [Crypto] in
/-- A rank of the blocks is a rank of the order's graph. -/
theorem BlockGraph.acyclic (hgraph : BlockGraph s) (priorities : Priorities) :
    (canonicalGraph s priorities).Acyclic := by
  obtain ⟨rank, _, hrank⟩ := hgraph.ranked
  refine ⟨rank, fun x _ p hp => ?_⟩
  obtain ⟨hparent, hmem⟩ := mem_knownParents.mp hp
  exact ⟨mem_canonicalGraph_nodes.mpr hmem, hrank p x hparent⟩

omit [Crypto] in
/-- A tip that lies below another block is that block. -/
theorem Linked.eq_of_ancestor (hlinked : Linked s) {t : Hash} (ht : t ∈ s.dag.tips)
    (h : Ancestor s t c) : t = c := by
  rcases Relation.ReflTransGen.cases_head h with rfl | ⟨d, hd, _⟩
  · rfl
  · exact absurd hd (((hlinked.mem_tips t).mp ht).2 d)

/-- Every block lies below some tip. -/
theorem DagInvariant.exists_tip_above (hinv : DagInvariant s0 s) {h : Hash}
    (hh : h ∈ s.dag.blocks) : ∃ t ∈ s.dag.tips, Ancestor s h t := by
  obtain ⟨rank, hbound, hrank⟩ := hinv.graph.ranked
  -- climb to children; the rank grows and stays below the number of blocks
  induction hn : s.dag.blocks.size - rank h using Nat.strong_induction_on generalizing h with
  | _ n ih =>
    by_cases htip : h ∈ s.dag.tips
    · exact ⟨h, htip, Ancestor.refl s h⟩
    · rw [hinv.linked.mem_tips, not_and] at htip
      obtain ⟨c, hc⟩ := not_forall_not.mp (htip hh)
      have hlt := hrank h c hc
      have hcmem := hc.mem
      have hb := hbound c hcmem
      obtain ⟨t, ht, hanc⟩ := ih (s.dag.blocks.size - rank c) (by omega) hcmem rfl
      exact ⟨t, ht, hc.ancestor.trans hanc⟩

/-- There is one tip exactly when every block lies below the selected tip. -/
theorem DagInvariant.tips_size_eq_one_iff (hinv : DagInvariant s0 s) (htip : tip ∈ s.dag.tips) :
    s.dag.tips.size = 1 ↔ ∀ h ∈ s.dag.blocks, Ancestor s h tip := by
  rw [TreeSet.size_eq_one_iff htip]
  constructor
  · intro hall h hh
    obtain ⟨t, ht, hanc⟩ := hinv.exists_tip_above hh
    exact hall t ht ▸ hanc
  · intro hall t ht
    exact hinv.linked.eq_of_ancestor ht (hall t ((hinv.linked.mem_tips t).mp ht).1)

/-- In a reachable state all parents and all blue work are known. -/
theorem DagInvariant.orderable (hinv : DagInvariant s0 s)
    (hpriorities : buildPriorities s = .ok priorities) : Orderable s priorities := by
  refine ⟨hpriorities, fun h hh => ?_, fun h block hblock p hp => ?_⟩
  · obtain ⟨block, hblock⟩ := (TreeMap.mem_iff _ _).mp hh
    by_cases hg : h = s.dag.genesisHash
    · exact (TreeMap.mem_iff _ _).mpr ⟨0, hg ▸ hinv.classified.genesis_blueWork⟩
    · obtain ⟨c, _, _, hmeta⟩ := (hinv.classified.accepted h block hblock hg).classified
      exact (TreeMap.mem_iff _ _).mpr ⟨_, hmeta.blueWork⟩
  · exact .inl (hinv.graph.parent_mem p h ⟨block, hblock, hp⟩)

/-- With one tip, the canonical order of a reachable state exists and is greedy. -/
theorem DagInvariant.deriveOrderedDagV2_ok (hinv : DagInvariant s0 s) (h0 : GenesisDag s0)
    (hgenesis : GenesisClassified s) (htips : s.dag.tips.size = 1) :
    ∃ priorities order, buildPriorities s = .ok priorities ∧
      (∀ x priority, priorities[x]? = some priority ↔ PriorityOf s x priority) ∧
      (canonicalGraph s priorities).GreedyRun ∅ order ∧
      deriveOrderedDagV2 s = .ok
        { orderingVersion := ghostdagV1OrderingVersion, blocks := order,
          digest := orderingDigest order } := by
  obtain ⟨tip, _, htip, hlast, _⟩ := hinv.selectedTip
  have hcovered := (hinv.tips_size_eq_one_iff htip).mp htips
  obtain ⟨priorities, hpriorities, hget⟩ := (hinv.anchoredChain h0 hgenesis).buildPriorities_ok
    fun h hh => (hinv.priorityOf_iff h0 hlast h).mpr (hcovered h hh)
  obtain ⟨order, hrun, hok⟩ :=
    (hinv.orderable hpriorities).deriveOrderedDagV2_ok (hinv.graph.acyclic priorities)
  exact ⟨priorities, order, hpriorities, hget, hrun, hok⟩

/-- With several tips, a block outside the past of the selected tip is reported. -/
theorem DagInvariant.deriveOrderedDagV2_error (hinv : DagInvariant s0 s) (h0 : GenesisDag s0)
    (hgenesis : GenesisClassified s) (htips : s.dag.tips.size ≠ 1) :
    ∃ hash, deriveOrderedDagV2 s = .error (.unclassifiedBlock hash) := by
  obtain ⟨tip, _, htip, hlast, _⟩ := hinv.selectedTip
  rw [ne_eq, hinv.tips_size_eq_one_iff htip] at htips
  push Not at htips
  obtain ⟨h, hh, hnot⟩ := htips
  obtain ⟨hash, hhash⟩ := (hinv.anchoredChain h0 hgenesis).buildPriorities_error hh
    fun priority hpriority => hnot ((hinv.priorityOf_iff h0 hlast h).mp ⟨priority, hpriority⟩)
  exact ⟨hash, by rw [deriveOrderedDagV2, hhash]; rfl⟩

/-- What the canonical order of a reachable state with one tip looks like. -/
structure CanonicalList (s : ChainState) (order : List Hash) : Prop where
  nodup : order.Nodup
  mem_iff : ∀ h, h ∈ order ↔ h ∈ s.dag.blocks
  parents_before : ∀ before h after, order = before ++ h :: after →
    ∀ p, ParentOf s p h → p ∈ before

omit [Crypto] in
/-- A greedy run of the canonical graph lists the blocks after their parents. -/
theorem BlockGraph.canonicalList (hgraph : BlockGraph s) {order : List Hash}
    (hrun : (canonicalGraph s priorities).GreedyRun ∅ order) : CanonicalList s order := by
  refine ⟨hrun.nodup, fun h => ?_, ?_⟩
  · rw [← mem_toFinset, hrun.toFinset_eq (hgraph.acyclic priorities),
      mem_canonicalGraph_nodes]
  · rintro before h after rfl p hp
    have hknown := mem_knownParents.mpr ⟨hp, hgraph.parent_mem p h hp⟩
    exact (hrun.parents_before hknown).resolve_left (Finset.notMem_empty p)

namespace CanonicalList

variable {order : List Hash}

section

omit [Crypto]

/-- Proper ancestors come before their descendants. -/
theorem ancestor_before (horder : CanonicalList s order) {before after : List Hash} {a : Hash}
    (hsplit : order = before ++ c :: after) (ha : Ancestor s a c) (hne : a ≠ c) : a ∈ before := by
  induction ha using Relation.ReflTransGen.head_induction_on with
  | refl => exact absurd rfl hne
  | @head a d hstep _ ih =>
    by_cases hdc : d = c
    · exact horder.parents_before before c after hsplit a (hdc ▸ hstep)
    · obtain ⟨pre, post, rfl⟩ := append_of_mem (ih hdc)
      have hsplit' : order = pre ++ d :: (post ++ c :: after) := by
        rw [hsplit, append_assoc, cons_append]
      exact mem_append_left _ (horder.parents_before pre d _ hsplit' a hstep)

/-- The order starts with the genesis block. -/
theorem head?_eq (horder : CanonicalList s order) (hgraph : BlockGraph s) :
    order.head? = some s.dag.genesisHash := by
  cases order with
  | nil => exact absurd ((horder.mem_iff _).mpr hgraph.genesis_mem) not_mem_nil
  | cons h rest =>
    rw [head?_cons, Option.some.injEq]
    by_contra hne
    obtain ⟨block, hblock⟩ := (TreeMap.mem_iff _ _).mp ((horder.mem_iff h).mp mem_cons_self)
    obtain ⟨p, hp⟩ := exists_mem_of_ne_nil _ (hgraph.parents_ne h block hblock hne)
    exact not_mem_nil (horder.parents_before [] h rest rfl p ⟨block, hblock, hp⟩)

/-- A block above all others comes last. -/
theorem getLast?_eq (horder : CanonicalList s order) (htip : tip ∈ s.dag.blocks)
    (habove : ∀ h ∈ s.dag.blocks, Ancestor s h tip) : order.getLast? = some tip := by
  obtain ⟨before, after, hsplit⟩ := append_of_mem ((horder.mem_iff tip).mpr htip)
  cases after with
  | nil => rw [hsplit, getLast?_append, getLast?_singleton, Option.some_or]
  | cons y rest =>
    have hnodup := horder.nodup
    rw [hsplit] at hnodup
    obtain ⟨_, htail, hdisjoint⟩ := nodup_append.mp hnodup
    have hy : y ∈ order := by
      rw [hsplit]
      simp
    have hyne : y ≠ tip := fun heq => (nodup_cons.mp htail).1 (heq ▸ mem_cons_self)
    have hbefore := horder.ancestor_before hsplit (habove y ((horder.mem_iff y).mp hy)) hyne
    exact absurd rfl (hdisjoint y hbefore y (by simp))

/-- A canonical list is a list of the blocks. -/
theorem perm_keys (horder : CanonicalList s order) : order.Perm s.dag.blocks.keys := by
  refine (perm_ext_iff_of_nodup horder.nodup Std.ExtTreeMap.nodup_keys).mpr fun h => ?_
  rw [horder.mem_iff, Std.ExtTreeMap.mem_keys]

end

end CanonicalList

/-- The version 3 genesis block is classified. -/
theorem genesisClassified_of_v3 {chainId : String} {frozenTimestamp : UInt64}
    (h : initChainStateV3 chainId frozenTimestamp = .ok s) : GenesisClassified s := by
  simp only [initChainStateV3, bind_eq_ok, pure_eq_ok] at h
  obtain ⟨genesis, _, _, _, hok⟩ := h
  obtain rfl := Except.ok.inj hok
  exact ⟨Std.ExtTreeMap.mem_insert_self, Std.ExtTreeMap.mem_insert_self⟩

/-- From a version 3 genesis state, the canonical order exists exactly when there is one
tip; otherwise a block is unclassified. The order is a permutation of the blocks, after
their parents, from the genesis block to the selected tip. -/
theorem deriveOrderedDagV2_of_commits {chainId : String} {frozenTimestamp : UInt64}
    (h0 : initChainStateV3 chainId frozenTimestamp = .ok s0) (hs : Built s0 s) :
    (s.dag.tips.size ≠ 1 → ∃ hash, deriveOrderedDagV2 s = .error (.unclassifiedBlock hash)) ∧
    (s.dag.tips.size = 1 → ∃ order, deriveOrderedDagV2 s = .ok order ∧
      order.blocks.Nodup ∧ order.blocks.Perm s.dag.blocks.keys ∧
      (∀ before h after, order.blocks = before ++ h :: after →
        ∀ block, s.dag.blocks[h]? = some block → ∀ p ∈ block.header.parents, p ∈ before) ∧
      order.blocks.head? = some s.dag.genesisHash ∧
      calculateSelectedTipV1 s = .ok order.blocks.getLast?) := by
  have hgenesis := (IsGenesisState.v3 h0).genesisDag
  have hinv := hs.invariant (.v3 h0)
  have hclassified := hinv.genesisClassified (.inr (genesisClassified_of_v3 h0))
  refine ⟨hinv.deriveOrderedDagV2_error hgenesis hclassified, fun htips => ?_⟩
  obtain ⟨priorities, order, _, _, hrun, hok⟩ :=
    hinv.deriveOrderedDagV2_ok hgenesis hclassified htips
  obtain ⟨tip, hselected, htip, _⟩ := hinv.selectedTip
  have horder := hinv.graph.canonicalList hrun
  refine ⟨_, hok, horder.nodup, horder.perm_keys, ?_, horder.head?_eq hinv.graph, ?_⟩
  · intro before h after hsplit block hblock p hp
    exact horder.parents_before before h after hsplit p ⟨block, hblock, hp⟩
  · rw [hselected, horder.getLast?_eq ((hinv.linked.mem_tips tip).mp htip).1
      ((hinv.tips_size_eq_one_iff htip).mp htips)]

end

/-- The diamond has an order. -/
theorem deriveOrderedDagV2_of_commits_diamond : letI := checksumCrypto
    ∃ s0 s, initChainStateV3 "c" 1 = .ok s0 ∧ Built s0 s ∧ s.dag.tips.size = 1 ∧
      s.dag.blocks.size = 4 ∧ ∃ order, deriveOrderedDagV2 s = .ok order ∧
        order.blocks.Perm s.dag.blocks.keys := by
  let := checksumCrypto
  have heval : ((sampleRun diamond).toOption.map fun r =>
      (r.2.dag.tips.size, r.2.dag.blocks.size)) = some (1, 4) := by decide +kernel
  obtain ⟨⟨s0, s⟩, hrun, hsizes⟩ := Option.map_eq_some_iff.mp heval
  obtain ⟨htips, hblocks⟩ := Prod.mk.inj hsizes
  obtain ⟨h0, hcommits⟩ := sampleRun_eq_some hrun
  obtain ⟨order, hok, _, hperm, _⟩ :=
    (deriveOrderedDagV2_of_commits h0 ⟨_, hcommits⟩).2 htips
  exact ⟨s0, s, h0, ⟨_, hcommits⟩, htips, hblocks, order, hok, hperm⟩

end PulseDag
