import PulseDag.Ghostdag.Ordering
import PulseDag.Ghostdag.Reachable

/-!
# Metadata does not depend on the arrival order

Two reachable states that store the same past of a block store the same metadata for it,
whatever else they store. Hence two states with the same blocks are equal.
-/

namespace PulseDag

section

variable {s t : ChainState} {D : Hash → Prop}

/-- Both states store the same blocks in `D`, which is closed under parents. -/
structure SamePast (D : Hash → Prop) (s t : ChainState) : Prop where
  mem : ∀ h, D h → h ∈ s.dag.blocks
  blocks : ∀ h, D h → s.dag.blocks[h]? = t.dag.blocks[h]?
  parents : ∀ p c, D c → ParentOf s p c → D p

/-- The ancestors of a set of blocks are a common past when both states store them. -/
theorem SamePast.of_ancestors (hgraph : BlockGraph s) {top : Hash → Prop}
    (htop : ∀ h, top h → h ∈ s.dag.blocks)
    (hblocks : ∀ a h, top h → Ancestor s a h → s.dag.blocks[a]? = t.dag.blocks[a]?) :
    SamePast (fun a => ∃ h, top h ∧ Ancestor s a h) s t where
  mem a := by
    rintro ⟨h, hh, ha⟩
    rcases Relation.ReflTransGen.cases_head ha with rfl | ⟨c, hc, _⟩
    · exact htop a hh
    · exact hgraph.parent_mem a c hc
  blocks a := by
    rintro ⟨h, hh, ha⟩
    exact hblocks a h hh ha
  parents p c := by
    rintro ⟨h, hh, hc⟩ hpc
    exact ⟨h, hh, Relation.ReflTransGen.head hpc hc⟩

variable [Crypto] {s0 : ChainState}

/-- The blue work of a common past is the same. -/
theorem SamePast.agreeOn (hsame : SamePast D s t) (hs : DagInvariant s0 s)
    (ht : DagInvariant s0 t) : AgreeOn D s t := by
  obtain ⟨rank, _, hrank⟩ := hs.graph.ranked
  refine ⟨hsame.blocks, fun h hD => ?_, fun h hD b hb p hp => hsame.parents p h hD ⟨b, hb, hp⟩⟩
  induction hn : rank h using Nat.strong_induction_on generalizing h with
  | _ n ih =>
    by_cases hg : h = s.dag.genesisHash
    · rw [hg, hs.classified.genesis_blueWork, hs.genesisHash_eq, ← ht.genesisHash_eq,
        ht.classified.genesis_blueWork]
    · obtain ⟨b, hb⟩ := (TreeMap.mem_iff _ _).mp (hsame.mem h hD)
      have hbt : t.dag.blocks[h]? = some b := (hsame.blocks h hD).symm.trans hb
      have hgt : h ≠ t.dag.genesisHash := by
        rw [ht.genesisHash_eq, ← hs.genesisHash_eq]
        exact hg
      obtain ⟨c, hc, _, hmeta⟩ := (hs.classified.accepted h b hb hg).classified
      obtain ⟨c', hc', _, hmeta'⟩ := (ht.classified.accepted h b hbt hgt).classified
      -- the two classifications see the same past, where blue work agrees by induction
      have hpast : AgreeOn (fun x => D x ∧ rank x < rank h) s t := by
        refine ⟨fun x hx => hsame.blocks x hx.1, fun x hx => ih (rank x) (hn ▸ hx.2) x hx.1 rfl,
          fun x hx bx hbx p hp => ?_⟩
        have hpx : ParentOf s p x := ⟨bx, hbx, hp⟩
        exact ⟨hsame.parents p x hx.1 hpx, (hrank p x hpx).trans hx.2⟩
      have heq : classifyMergeSetV1 b s = classifyMergeSetV1 b t :=
        hpast.classifyMergeSetV1_eq fun p hp =>
          ⟨hsame.parents p h hD ⟨b, hb, hp⟩, hrank p h ⟨b, hb, hp⟩⟩
      rw [hc, hc'] at heq
      rw [hmeta.blueWork, hmeta'.blueWork, Except.ok.inj heq]

/-- A common past has the same metadata in both states. -/
theorem SamePast.metadata_eq (hsame : SamePast D s t) (hs : DagInvariant s0 s)
    (ht : DagInvariant s0 t) {h : Hash} (hD : D h) (hg : h ≠ s0.dag.genesisHash) :
    ∃ c, MetadataOf s h c ∧ MetadataOf t h c := by
  obtain ⟨b, hb⟩ := (TreeMap.mem_iff _ _).mp (hsame.mem h hD)
  have hbt : t.dag.blocks[h]? = some b := (hsame.blocks h hD).symm.trans hb
  obtain ⟨c, hc, _, hmeta⟩ :=
    (hs.classified.accepted h b hb (hs.genesisHash_eq ▸ hg)).classified
  obtain ⟨c', hc', _, hmeta'⟩ :=
    (ht.classified.accepted h b hbt (ht.genesisHash_eq ▸ hg)).classified
  have heq : classifyMergeSetV1 b s = classifyMergeSetV1 b t :=
    (hsame.agreeOn hs ht).classifyMergeSetV1_eq fun p hp => hsame.parents p h hD ⟨b, hb, hp⟩
  rw [hc, hc'] at heq
  obtain rfl := Except.ok.inj heq
  exact ⟨c, hmeta, hmeta'⟩

/-- Blocks with the same past have the same selected parent. -/
theorem SamePast.selectedParents_eq (hsame : SamePast D s t) (hs : DagInvariant s0 s)
    (ht : DagInvariant s0 t) {h : Hash} (hD : D h) :
    s.dag.selectedParents[h]? = t.dag.selectedParents[h]? := by
  by_cases hg : h = s0.dag.genesisHash
  · have hsg := hs.classified.genesis_selectedParent
    have htg := ht.classified.genesis_selectedParent
    rw [hs.genesisHash_eq] at hsg
    rw [ht.genesisHash_eq] at htg
    rw [hg, hsg, htg]
  · obtain ⟨c, hc, hc'⟩ := hsame.metadata_eq hs ht hD hg
    rw [hc.selectedParent, hc'.selectedParent]

end

/-! ## States with the same blocks -/

section

variable [Crypto] {s0 s t : ChainState}

section

omit [Crypto]

/-- Parents depend on the blocks alone. -/
theorem parentOf_congr (hblocks : s.dag.blocks = t.dag.blocks) (p c : Hash) :
    ParentOf s p c ↔ ParentOf t p c := by
  rw [ParentOf, ParentOf, hblocks]

/-- Tips depend on the blocks alone. -/
theorem Linked.tips_eq (hs : Linked s) (ht : Linked t) (hblocks : s.dag.blocks = t.dag.blocks) :
    s.dag.tips = t.dag.tips := by
  refine Std.ExtTreeSet.ext_mem fun h => ?_
  rw [hs.mem_tips, ht.mem_tips, hblocks]
  simp only [parentOf_congr hblocks]

/-- Children depend on the blocks alone. -/
theorem Linked.children_eq (hs : Linked s) (ht : Linked t)
    (hblocks : s.dag.blocks = t.dag.blocks) : s.dag.children = t.dag.children := by
  refine Std.ExtTreeMap.ext_getElem? fun h => ?_
  have hmem : ∀ c, c ∈ s.dag.children[h]?.getD [] ↔ c ∈ t.dag.children[h]?.getD [] := by
    intro c
    rw [hs.mem_children, ht.mem_children, parentOf_congr hblocks]
  cases hsl : s.dag.children[h]? with
  | none =>
    cases htl : t.dag.children[h]? with
    | none => rfl
    | some l =>
      obtain ⟨c, hc⟩ := List.exists_mem_of_ne_nil l (ht.children_sorted h l htl).1
      simp only [hsl, htl, Option.getD_none, Option.getD_some] at hmem
      exact absurd ((hmem c).mpr hc) List.not_mem_nil
  | some l =>
    cases htl : t.dag.children[h]? with
    | none =>
      obtain ⟨c, hc⟩ := List.exists_mem_of_ne_nil l (hs.children_sorted h l hsl).1
      simp only [hsl, htl, Option.getD_none, Option.getD_some] at hmem
      exact absurd ((hmem c).mp hc) List.not_mem_nil
    | some l' =>
      simp only [hsl, htl, Option.getD_some] at hmem
      rw [eq_of_pairwise_lt (hs.children_sorted h l hsl).2 (ht.children_sorted h l' htl).2 hmem]

/-- The best height depends on the blocks alone. -/
theorem Linked.bestHeight_eq (hs : Linked s) (ht : Linked t)
    (hblocks : s.dag.blocks = t.dag.blocks) : s.dag.bestHeight = t.dag.bestHeight := by
  obtain ⟨h, b, hb, hheight⟩ := hs.height_attained
  obtain ⟨h', b', hb', hheight'⟩ := ht.height_attained
  refine UInt64.le_antisymm ?_ ?_
  · rw [← hheight]
    exact ht.height_le h b (hblocks ▸ hb)
  · rw [← hheight']
    exact hs.height_le h' b' (hblocks ▸ hb')

end

/-- Reachable states with the same blocks are equal. -/
theorem DagInvariant.eq_of_blocks_eq (hs : DagInvariant s0 s) (ht : DagInvariant s0 t)
    (hblocks : s.dag.blocks = t.dag.blocks) (hgenesis : s0.dag.blocks.size = 1) : s = t := by
  have hsame : SamePast (· ∈ s.dag.blocks) s t :=
    ⟨fun _ h => h, fun h _ => by rw [hblocks], fun p c _ hpc => hs.graph.parent_mem p c hpc⟩
  have hout : ∀ h, h ∉ s.dag.blocks → h ∉ t.dag.blocks := fun h hh => hblocks ▸ hh
  have htips := hs.linked.tips_eq ht.linked hblocks
  have hchildren := hs.linked.children_eq ht.linked hblocks
  have hbest := hs.linked.bestHeight_eq ht.linked hblocks
  have hparents : s.dag.selectedParents = t.dag.selectedParents := by
    refine Std.ExtTreeMap.ext_getElem? fun h => ?_
    by_cases hh : h ∈ s.dag.blocks
    · exact hsame.selectedParents_eq hs ht hh
    · rw [(hs.classified.unknown h hh).1, (ht.classified.unknown h (hout h hh)).1]
  have hwork : s.dag.blueWork = t.dag.blueWork := by
    refine Std.ExtTreeMap.ext_getElem? fun h => ?_
    by_cases hh : h ∈ s.dag.blocks
    · exact (hsame.agreeOn hs ht).blueWork h hh
    · rw [(hs.classified.unknown h hh).2.2.2, (ht.classified.unknown h (hout h hh)).2.2.2]
  -- the genesis merge set is the only metadata that a commit adds to an old block
  have hgenesisSet : s = t ∨ (s.dag.mergeSetBlues[s0.dag.genesisHash]? =
        t.dag.mergeSetBlues[s0.dag.genesisHash]? ∧
      s.dag.mergeSetReds[s0.dag.genesisHash]? = t.dag.mergeSetReds[s0.dag.genesisHash]?) := by
    have hsg := hs.genesis_mergeSet
    have htg := ht.genesis_mergeSet
    rw [hs.genesisHash_eq] at hsg
    rw [ht.genesisHash_eq] at htg
    rcases hsg with rfl | ⟨hsize, hsb, hsr⟩
    · rcases htg with rfl | ⟨hsize, _⟩
      · exact .inl rfl
      · rw [← hblocks] at hsize
        omega
    · rcases htg with rfl | ⟨_, htb, htr⟩
      · rw [hblocks] at hsize
        omega
      · exact .inr ⟨hsb.trans htb.symm, hsr.trans htr.symm⟩
  rcases hgenesisSet with heq | ⟨hgb, hgr⟩
  · exact heq
  have hblues : s.dag.mergeSetBlues = t.dag.mergeSetBlues := by
    refine Std.ExtTreeMap.ext_getElem? fun h => ?_
    by_cases hh : h ∈ s.dag.blocks
    · by_cases hg : h = s0.dag.genesisHash
      · rw [hg, hgb]
      · obtain ⟨c, hc, hc'⟩ := hsame.metadata_eq hs ht hh hg
        rw [hc.blues, hc'.blues]
    · rw [(hs.classified.unknown h hh).2.1, (ht.classified.unknown h (hout h hh)).2.1]
  have hreds : s.dag.mergeSetReds = t.dag.mergeSetReds := by
    refine Std.ExtTreeMap.ext_getElem? fun h => ?_
    by_cases hh : h ∈ s.dag.blocks
    · by_cases hg : h = s0.dag.genesisHash
      · rw [hg, hgr]
      · obtain ⟨c, hc, hc'⟩ := hsame.metadata_eq hs ht hh hg
        rw [hc.reds, hc'.reds]
    · rw [(hs.classified.unknown h hh).2.2.1, (ht.classified.unknown h (hout h hh)).2.2.1]
  have hchain : s.dag.selectedChain = t.dag.selectedChain := by
    obtain ⟨tip, htip, hchain⟩ := hs.selected
    obtain ⟨tip', htip', hchain'⟩ := ht.selected
    rw [calculateSelectedTipV1_congr hblocks hwork htips, htip'] at htip
    obtain rfl := Except.ok.inj htip
    rw [rebuildSelectedChainV1_congr hblocks hparents, hchain'] at hchain
    exact (Except.ok.inj hchain).symm
  rw [hs.frame, ht.frame, hblocks, htips, hchildren, hbest, hparents, hwork, hblues, hreds, hchain,
    hs.mergeSetK, ht.mergeSetK]

/-- The blocks of a run are the genesis block and the committed blocks. -/
theorem CommitRun.getElem?_blocks {blocks : List Block} (hrun : CommitRun s0 blocks s) (h : Hash)
    (b : Block) : s.dag.blocks[h]? = some b ↔
      s0.dag.blocks[h]? = some b ∨ (b ∈ blocks ∧ b.hash = h) := by
  induction hrun with
  | genesis => simp
  | @commit blocks s s' block identity out hrun hcommit ih =>
    have hstep := commit_eq_ok_iff.mp hcommit
    have hfresh : s.dag.blocks[block.hash]? = none := Std.ExtTreeMap.getElem?_eq_none hstep.fresh
    rw [hstep.inserted.blocks, TreeMap.getElem?_insert, List.mem_append, List.mem_singleton]
    by_cases hh : h = block.hash
    · subst hh
      rw [if_pos rfl]
      constructor
      · rintro heq
        exact .inr ⟨.inr (Option.some.inj heq).symm, by rw [Option.some.inj heq]⟩
      · rintro (hold | ⟨hb | rfl, hhash⟩)
        · rw [(ih.mpr (.inl hold))] at hfresh
          simp at hfresh
        · rw [ih.mpr (.inr ⟨hb, hhash⟩)] at hfresh
          simp at hfresh
        · rfl
    · rw [if_neg hh, ih]
      refine or_congr_right (and_congr_left fun hhash => (or_iff_left ?_).symm)
      rintro rfl
      exact hh hhash.symm

omit [Crypto] in
/-- A genesis state has one block. -/
theorem GenesisDag.size_eq (h : GenesisDag s) : s.dag.blocks.size = 1 := by
  obtain ⟨genesis, hblocks, _⟩ := h.blocks
  rw [← Std.ExtTreeMap.length_toList, hblocks, TreeMap.toList_singleton, List.length_singleton]

/-- Committing the same blocks in another order gives the same state. -/
theorem CommitRun.eq_of_perm {blocks blocks' : List Block} (h0 : IsGenesisState s0)
    (hs : CommitRun s0 blocks s) (ht : CommitRun s0 blocks' t) (hperm : blocks.Perm blocks') :
    s = t := by
  refine (hs.invariant h0).eq_of_blocks_eq (ht.invariant h0) ?_ h0.genesisDag.size_eq
  refine Std.ExtTreeMap.ext_getElem? fun h => Option.ext fun b => ?_
  rw [hs.getElem?_blocks, ht.getElem?_blocks, hperm.mem_iff]

/-- Arrival-order independence: two orders in which every block is accepted end with the
same metadata and either derive the same canonical order or both fail to derive one. -/
theorem arrivalOrder_independent {blocks blocks' : List Block} (h0 : IsGenesisState s0)
    (hs : CommitRun s0 blocks s) (ht : CommitRun s0 blocks' t) (hperm : blocks.Perm blocks') :
    s.dag.tips = t.dag.tips ∧ s.dag.children = t.dag.children ∧
      s.dag.selectedParents = t.dag.selectedParents ∧
      s.dag.mergeSetBlues = t.dag.mergeSetBlues ∧ s.dag.mergeSetReds = t.dag.mergeSetReds ∧
      s.dag.blueWork = t.dag.blueWork ∧ s.dag.selectedChain = t.dag.selectedChain ∧
      s.dag.bestHeight = t.dag.bestHeight ∧
      ∀ ordered, deriveOrderedDagV2 s = .ok ordered ↔ deriveOrderedDagV2 t = .ok ordered := by
  obtain rfl := hs.eq_of_perm h0 ht hperm
  exact ⟨rfl, rfl, rfl, rfl, rfl, rfl, rfl, rfl, fun _ => Iff.rfl⟩

end

/-- The two lower blocks of the diamond may come in either order. -/
theorem arrivalOrder_independent_diamond : letI := checksumCrypto
    ∃ s0 s t left right top ordered, diamond s0.dag.genesisHash = [left, right, top] ∧
      left ≠ right ∧ CommitRun s0 [left, right, top] s ∧ CommitRun s0 [right, left, top] t ∧
      deriveOrderedDagV2 s = .ok ordered ∧ deriveOrderedDagV2 t = .ok ordered := by
  let := checksumCrypto
  let swapped (genesis : Hash) : List Block :=
    ((diamond genesis).take 2).reverse ++ (diamond genesis).drop 2
  have hs : ((sampleRun diamond).toOption.bind fun run =>
      (deriveOrderedDagV2 run.2).toOption.map fun ordered => (run, ordered)).isSome = true := by
    decide +kernel
  have ht : (sampleRun swapped).toOption.isSome = true := by decide +kernel
  obtain ⟨_, hs⟩ := Option.isSome_iff_exists.mp hs
  obtain ⟨⟨s0, s⟩, hs, hordered⟩ := Option.bind_eq_some_iff.mp hs
  obtain ⟨ordered, hordered, -⟩ := Option.map_eq_some_iff.mp hordered
  obtain ⟨⟨t0, t⟩, ht⟩ := Option.isSome_iff_exists.mp ht
  obtain ⟨h0, hs⟩ := sampleRun_eq_some hs
  obtain ⟨h0', ht⟩ := sampleRun_eq_some ht
  obtain rfl : s0 = t0 := Except.ok.inj (h0.symm.trans h0')
  have hordered := eq_ok_of_toOption hordered
  refine ⟨s0, s, t, _, _, _, ordered, rfl, ?_, hs, ht, hordered, ?_⟩
  · intro heq
    have hnonce := congrArg (fun block : Block => block.header.nonce) heq
    simp [bareBlock] at hnonce
  · obtain ⟨_, _, _, _, _, _, _, _, hsame⟩ :=
      arrivalOrder_independent (.v3 h0) hs ht (List.Perm.swap _ _ _)
    exact (hsame ordered).mp hordered

end PulseDag
