import PulseDag.Ghostdag.CanonicalOrder
import PulseDag.Ghostdag.Reachable

/-!
# The selected chain partitions the past of its tip

In a reachable state the selected chain runs from the genesis block to the selected tip.
Along the chain, the blocks and their merge sets are disjoint and cover exactly the
ancestors of the tip: the anchor of a block is the first chain block above it.
-/

namespace PulseDag

open List

/-! ## The chain below a tip -/

/-- A chain is linked to its last block by the selected parent. -/
theorem chainLinked_concat {s : ChainState} {previous : Option Hash} {chain : List Hash}
    {h : Hash} : ChainLinked s previous (chain ++ [h]) ↔
      ChainLinked s previous chain ∧ s.dag.selectedParents[h]? =
      some (chain.getLast?.or previous) := by
  induction chain generalizing previous with
  | nil => simp [ChainLinked]
  | cons c rest ih =>
    rw [cons_append, ChainLinked, ih, ChainLinked, and_assoc]
    cases rest with
    | nil => simp
    | cons d rest => simp [getLast?_cons]

/-- The rebuilt chain is linked, ends with its tip and consists of distinct stored blocks. -/
theorem selectedChainFrom_spec {s : ChainState} {fuel : ℕ} {cursor : Option Hash}
    {seen : TreeSet Hash} {reversed : List Hash}
    (h : selectedChainFrom s fuel cursor seen = .ok reversed) :
    ChainLinked s none reversed.reverse ∧ reversed.head? = cursor ∧ reversed.Nodup ∧
      ∀ x ∈ reversed, x ∈ s.dag.blocks ∧ x ∉ seen := by
  induction fuel generalizing cursor seen reversed with
  | zero =>
    cases cursor with
    | none =>
      obtain rfl : [] = reversed := by simpa [selectedChainFrom] using h
      simp [ChainLinked]
    | some hash => simp [selectedChainFrom] at h
  | succ fuel ih =>
    cases cursor with
    | none =>
      obtain rfl : [] = reversed := by simpa [selectedChainFrom] using h
      simp [ChainLinked]
    | some hash =>
      simp only [selectedChainFrom, bind_eq_ok, ensure_eq_ok, okOr_eq_ok, pure_eq_ok] at h
      obtain ⟨_, hunseen, _, hstored, cursor, hcursor, rest, hrest, hok⟩ := h
      obtain rfl := Except.ok.inj hok
      obtain ⟨hlinked, hhead, hnodup, hmem⟩ := ih hrest
      refine ⟨?_, rfl, nodup_cons.mpr ⟨fun hh => ?_, hnodup⟩, ?_⟩
      · rw [reverse_cons, chainLinked_concat]
        refine ⟨hlinked, ?_⟩
        rw [getLast?_reverse, hhead, Option.or_none, hcursor]
      · exact (hmem hash hh).2 Std.ExtTreeSet.mem_insert_self
      · rintro x (_ | ⟨_, hx⟩)
        · exact ⟨hstored, hunseen⟩
        · exact ⟨(hmem x hx).1, fun hseen => (hmem x hx).2 ((TreeSet.mem_insert _ _ _).mpr
            (.inr hseen))⟩

/-- Every tip gets a score. -/
theorem tipScores_spec {s : ChainState} {hashes : List Hash} {scores : List SelectionScoreV1}
    (h : tipScores s hashes = .ok scores) : scores.map SelectionScoreV1.hash = hashes := by
  induction hashes generalizing scores with
  | nil =>
    obtain rfl : [] = scores := by simpa [tipScores] using h
    rfl
  | cons hash rest ih =>
    simp only [tipScores, scoreForKnownBlock, bind_eq_ok, okOr_eq_ok, pure_eq_ok] at h
    obtain ⟨_, _, _, ⟨_, _, hscore⟩, scores', hrest, hok⟩ := h
    obtain rfl := Except.ok.inj hscore
    obtain rfl := Except.ok.inj hok
    rw [map_cons, ih hrest]

/-- The selected tip is a tip, and exists when there are tips. -/
theorem calculateSelectedTipV1_spec {s : ChainState} {tip : Option Hash}
    (h : calculateSelectedTipV1 s = .ok tip) :
    (tip = none → s.dag.tips = ∅) ∧ ∀ t, tip = some t → t ∈ s.dag.tips := by
  simp only [calculateSelectedTipV1, bind_eq_ok, pure_eq_ok] at h
  obtain ⟨scores, hscores, hok⟩ := h
  obtain rfl := Except.ok.inj hok
  have hmap := tipScores_spec hscores
  refine ⟨fun hnone => ?_, fun t ht => ?_⟩
  · rw [Option.map_eq_none_iff, maxBy_eq_none] at hnone
    rw [hnone, map_nil] at hmap
    exact Std.ExtTreeSet.toList_eq_nil_iff.mp hmap.symm
  · obtain ⟨score, hscore, rfl⟩ := Option.map_eq_some_iff.mp ht
    rw [← Std.ExtTreeSet.mem_toList, ← hmap]
    exact mem_map_of_mem (maxBy_mem hscore)

section

variable [Crypto] {s0 s : ChainState}

/-- Some stored block has no children. -/
theorem DagInvariant.exists_tip (hinv : DagInvariant s0 s) : ∃ t, t ∈ s.dag.tips := by
  obtain ⟨rank, _, hrank⟩ := hinv.graph.ranked
  have hnonempty : s.dag.blocks.keys.toFinset.Nonempty :=
    ⟨s.dag.genesisHash, by simpa using hinv.graph.genesis_mem⟩
  obtain ⟨t, ht, hmax⟩ := Finset.exists_max_image _ rank hnonempty
  refine ⟨t, (hinv.linked.mem_tips t).mpr ⟨by simpa using ht, fun c hc => ?_⟩⟩
  have hle := hmax c (by simpa using hc.mem)
  have hlt := hrank t c hc
  omega

/-- The selected chain ends with the selected tip, which is a tip. -/
theorem DagInvariant.selectedTip (hinv : DagInvariant s0 s) :
    ∃ tip, calculateSelectedTipV1 s = .ok (some tip) ∧ tip ∈ s.dag.tips ∧
      s.dag.selectedChain.getLast? = some tip ∧ ChainLinked s none s.dag.selectedChain ∧
      s.dag.selectedChain.Nodup ∧ ∀ c ∈ s.dag.selectedChain, c ∈ s.dag.blocks := by
  obtain ⟨tip, htip, hchain⟩ := hinv.selected
  obtain ⟨hnone, hmem⟩ := calculateSelectedTipV1_spec htip
  cases tip with
  | none =>
    obtain ⟨t, ht⟩ := hinv.exists_tip
    rw [hnone rfl] at ht
    exact absurd ht Std.ExtTreeSet.not_mem_empty
  | some tip =>
    simp only [rebuildSelectedChainV1, bind_eq_ok, pure_eq_ok] at hchain
    obtain ⟨reversed, hrun, hok⟩ := hchain
    obtain ⟨hlinked, hhead, hnodup, hstored⟩ := selectedChainFrom_spec hrun
    rw [← Except.ok.inj hok]
    refine ⟨tip, htip, hmem tip rfl, ?_, hlinked, nodup_reverse.mpr hnodup, fun c hc => ?_⟩
    · rw [getLast?_reverse, hhead]
    · exact (hstored c (mem_reverse.mp hc)).1

/-! ## Merge sets along the chain -/

omit [Crypto] in
/-- No block is below its own parents. -/
theorem BlockGraph.not_inPast (hgraph : BlockGraph s) {c : Hash} {block : Block}
    (hblock : s.dag.blocks[c]? = some block) : ¬InPast s block.header.parents c := by
  obtain ⟨rank, _, hrank⟩ := hgraph.ranked
  rintro ⟨p, hp, hanc⟩
  have hle := hanc.rank_le hrank
  have hlt := hrank p c ⟨block, hblock, hp⟩
  omega

omit [Crypto] in
/-- Ancestors of a stored block are stored. -/
theorem BlockGraph.mem_of_ancestor (hgraph : BlockGraph s) {a c : Hash} (hc : c ∈ s.dag.blocks)
    (ha : Ancestor s a c) : a ∈ s.dag.blocks := by
  rcases Relation.ReflTransGen.cases_head ha with rfl | ⟨d, hd, _⟩
  · exact hc
  · exact hgraph.parent_mem a d hd

/-- The stored merge set of a block other than the genesis block. -/
theorem DagInvariant.mergeMembers_spec (hinv : DagInvariant s0 s) {c : Hash} {block : Block}
    (hblock : s.dag.blocks[c]? = some block) (hc : c ≠ s.dag.genesisHash) :
    ∃ p ∈ block.header.parents, s.dag.selectedParents[c]? = some (some p) ∧
      (c ∈ s.dag.mergeSetBlues ∧ c ∈ s.dag.mergeSetReds) ∧ (mergeMembers s c).Nodup ∧
      ∀ x, x ∈ mergeMembers s c ↔ InPast s block.header.parents x ∧ ¬Ancestor s x p := by
  obtain ⟨classification, hclass, _, hmeta⟩ :=
    (hinv.classified.accepted c block hblock hc).classified
  obtain ⟨hselected, hnodup, hmem⟩ := classifyMergeSetV1_spec hclass
  have hmembers : mergeMembers s c = classification.blues ++ classification.reds := by
    rw [mergeMembers, bluesOf, redsOf, hmeta.blues, hmeta.reds, Option.getD_some, Option.getD_some]
  obtain ⟨_, hnone, hparent⟩ := calculateSelectedParentV1_spec hselected
  cases hp : classification.selectedParent with
  | none => exact absurd (hnone hp) (hinv.graph.parents_ne c block hblock hc)
  | some p =>
    refine ⟨p, hparent p hp, hp ▸ hmeta.selectedParent,
      ⟨(TreeMap.mem_iff _ _).mpr ⟨_, hmeta.blues⟩, (TreeMap.mem_iff _ _).mpr ⟨_, hmeta.reds⟩⟩,
      hmembers ▸ hnodup, fun x => ?_⟩
    rw [hmembers, hmem, hp]
    simp

/-- A block's ancestors are itself, its merge set and the ancestors of its selected
parent. -/
theorem DagInvariant.ancestor_iff (hinv : DagInvariant s0 s) {c p x : Hash}
    (hc : c ∈ s.dag.blocks) (hp : s.dag.selectedParents[c]? = some (some p)) :
    Ancestor s x c ↔ x = c ∨ x ∈ mergeMembers s c ∨ Ancestor s x p := by
  have hg : c ≠ s.dag.genesisHash := by
    rintro rfl
    rw [hinv.classified.genesis_selectedParent] at hp
    simp at hp
  obtain ⟨block, hblock⟩ := (TreeMap.mem_iff _ _).mp hc
  obtain ⟨p', hp', hselected, _, _, hmem⟩ := hinv.mergeMembers_spec hblock hg
  rw [hselected] at hp
  obtain rfl := Option.some.inj (Option.some.inj hp)
  rw [ancestor_iff_of_getElem? hblock, hmem]
  have hsub : Ancestor s x p' → InPast s block.header.parents x := fun h => ⟨p', hp', h⟩
  tauto

/-- Without a selected parent a block is the genesis block. -/
theorem DagInvariant.eq_genesis (hinv : DagInvariant s0 s) {c : Hash} (hc : c ∈ s.dag.blocks)
    (hp : s.dag.selectedParents[c]? = some none) : c = s.dag.genesisHash := by
  by_contra hg
  obtain ⟨block, hblock⟩ := (TreeMap.mem_iff _ _).mp hc
  obtain ⟨p, _, hselected, _⟩ := hinv.mergeMembers_spec hblock hg
  rw [hselected] at hp
  simp at hp

/-- The genesis block merges nothing. -/
theorem DagInvariant.mergeMembers_genesis (hinv : DagInvariant s0 s) (h0 : GenesisDag s0) :
    mergeMembers s s.dag.genesisHash = [] := by
  rcases hinv.genesis_mergeSet with rfl | ⟨_, hblues, hreds⟩
  · rw [mergeMembers, bluesOf, redsOf]
    rcases h0.mergeSetBlues with hb | hb <;> rcases h0.mergeSetReds with hr | hr <;> simp [hb, hr]
  · rw [mergeMembers, bluesOf, redsOf, hblues, hreds]
    rfl

/-- The genesis block has no other ancestor. -/
theorem DagInvariant.ancestor_genesis_iff (hinv : DagInvariant s0 s) {x : Hash} :
    Ancestor s x s.dag.genesisHash ↔ x = s.dag.genesisHash := by
  obtain ⟨block, hblock⟩ := (TreeMap.mem_iff _ _).mp hinv.graph.genesis_mem
  rw [ancestor_iff_of_getElem? hblock, hinv.graph.genesis_parents block hblock]
  simp [InPast]

/-- The genesis block lies below every block. -/
theorem DagInvariant.genesis_ancestor (hinv : DagInvariant s0 s) {h : Hash}
    (hh : h ∈ s.dag.blocks) : Ancestor s s.dag.genesisHash h := by
  obtain ⟨rank, _, hrank⟩ := hinv.graph.ranked
  induction hn : rank h using Nat.strong_induction_on generalizing h with
  | _ n ih =>
    by_cases hg : h = s.dag.genesisHash
    · rw [hg]
      exact Ancestor.refl s _
    · obtain ⟨b, hb⟩ := (TreeMap.mem_iff _ _).mp hh
      obtain ⟨p, hp⟩ := exists_mem_of_ne_nil _ (hinv.graph.parents_ne h b hb hg)
      have hparent : ParentOf s p h := ⟨b, hb, hp⟩
      have hlt := hrank p h hparent
      have hanc := ih (rank p) (by omega) (hinv.graph.parent_mem p h hparent) rfl
      exact hanc.trans hparent.ancestor

/-- What holds of every initial part of the selected chain. -/
structure ChainPart (s : ChainState) (chain : List Hash) : Prop where
  /-- The part and its merge sets are the ancestors of its last block. -/
  covers : ∀ c, chain.getLast? = some c → ∀ x,
    (x ∈ chain ∨ ∃ d ∈ chain, x ∈ mergeMembers s d) ↔ Ancestor s x c
  off_chain : ∀ d ∈ chain, ∀ x ∈ mergeMembers s d, x ∉ chain
  disjoint : chain.Pairwise fun c c' => ∀ x ∈ mergeMembers s c, x ∉ mergeMembers s c'

/-- Initial parts of the chain partition the ancestors of their last block. -/
theorem DagInvariant.chainPart (hinv : DagInvariant s0 s) (h0 : GenesisDag s0) (chain : List Hash)
    (hlinked : ChainLinked s none chain) (hstored : ∀ c ∈ chain, c ∈ s.dag.blocks) :
    ChainPart s chain := by
  -- induction from the end: the last block adds itself and its merge set
  induction chain using List.reverseRecOn with
  | nil => exact ⟨by simp, by simp, List.Pairwise.nil⟩
  | append_singleton init c ih =>
    obtain ⟨hinit, hparent⟩ := chainLinked_concat.mp hlinked
    rw [Option.or_none] at hparent
    have hc : c ∈ s.dag.blocks := hstored c (by simp)
    obtain ⟨hcovers, hoff, hdisjoint⟩ := ih hinit fun d hd => hstored d (by simp [hd])
    cases hlast : init.getLast? with
    | none =>
      rw [hlast] at hparent
      obtain rfl := hinv.eq_genesis hc hparent
      obtain rfl := getLast?_eq_none_iff.mp hlast
      have hempty := hinv.mergeMembers_genesis h0
      refine ⟨fun d hd x => ?_, by simp [hempty], pairwise_singleton _ _⟩
      obtain rfl : s.dag.genesisHash = d := by simpa using hd
      rw [hinv.ancestor_genesis_iff]
      simp [hempty]
    | some p =>
      rw [hlast] at hparent
      have hanc := fun x => hinv.ancestor_iff (x := x) hc hparent
      have hcoversP := hcovers p hlast
      obtain ⟨block, hblock⟩ := (TreeMap.mem_iff _ _).mp hc
      have hg : c ≠ s.dag.genesisHash := by
        rintro rfl
        rw [hinv.classified.genesis_selectedParent] at hparent
        simp at hparent
      obtain ⟨p', hp', hselected, _, _, hmem⟩ := hinv.mergeMembers_spec hblock hg
      obtain rfl : p' = p := by simpa [hparent, eq_comm] using hselected
      have hnotPast : ∀ x, Ancestor s x p' → x ≠ c := by
        rintro x hx rfl
        exact hinv.graph.not_inPast hblock ⟨p', hp', hx⟩
      have hself : c ∉ mergeMembers s c := fun hcc =>
        hinv.graph.not_inPast hblock ((hmem c).mp hcc).1
      refine ⟨fun d hd x => ?_, ?_, ?_⟩
      · obtain rfl : c = d := by simpa using hd
        rw [hanc, ← hcoversP]
        simp only [mem_append, mem_singleton]
        constructor
        · rintro ((hx | rfl) | ⟨d, hd | rfl, hx⟩)
          · exact .inr (.inr (.inl hx))
          · exact .inl rfl
          · exact .inr (.inr (.inr ⟨d, hd, hx⟩))
          · exact .inr (.inl hx)
        · rintro (rfl | hx | hx | ⟨d, hd, hx⟩)
          · exact .inl (.inr rfl)
          · exact .inr ⟨c, .inr rfl, hx⟩
          · exact .inl (.inl hx)
          · exact .inr ⟨d, .inl hd, hx⟩
      · intro d hd x hx hxc
        rcases mem_append.mp hd with hd | hd
        · rcases mem_append.mp hxc with hxc | hxc
          · exact hoff d hd x hx hxc
          · exact hnotPast x ((hcoversP x).mp (.inr ⟨d, hd, hx⟩)) (mem_singleton.mp hxc)
        · obtain rfl := mem_singleton.mp hd
          rcases mem_append.mp hxc with hxc | hxc
          · exact ((hmem x).mp hx).2 ((hcoversP x).mp (.inl hxc))
          · exact hself (mem_singleton.mp hxc ▸ hx)
      · refine pairwise_append.mpr ⟨hdisjoint, pairwise_singleton _ _, ?_⟩
        intro d hd d' hd' x hx hx'
        obtain rfl := mem_singleton.mp hd'
        exact ((hmem x).mp hx').2 ((hcoversP x).mp (.inr ⟨d, hd, hx⟩))

end

end PulseDag
