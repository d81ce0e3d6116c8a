import PulseDag.Ghostdag.CommitStep

/-!
# States reachable by commits

Every state built from a genesis state by successful commits satisfies `DagInvariant`:
the stored blocks determine all GHOSTDAG metadata, because each stored classification is
the one the present state would compute. The invariant holds in the three genesis states
and is kept by a commit (`DagInvariant.step`), so it holds in every reachable state
(`CommitRun.invariant`).
-/

namespace PulseDag

open List

/-- A genesis state of one of the three kinds. -/
inductive IsGenesisState [Crypto] : ChainState → Prop
  | v1 (chainId : String) : IsGenesisState (initChainState chainId)
  | v2 {chainId : String} {s : ChainState} (h : initChainStateV2 chainId = .ok s) :
    IsGenesisState s
  | v3 {chainId : String} {frozenTimestamp : UInt64} {s : ChainState}
    (h : initChainStateV3 chainId frozenTimestamp = .ok s) : IsGenesisState s

/-- The listed blocks were committed in this order, each with some protocol identity. -/
inductive CommitRun [Crypto] (s0 : ChainState) : List Block → ChainState → Prop
  | genesis : CommitRun s0 [] s0
  | commit {blocks : List Block} {s s' : ChainState} {block : Block}
    {identity : ProtocolActivationIdentity} {out : ActivatedV2MetadataCommit}
    (hrun : CommitRun s0 blocks s)
    (hcommit : commitGhostdagV1MetadataForActivatedV2 block s identity = .ok (out, s')) :
    CommitRun s0 (blocks ++ [block]) s'

/-- The state is reachable from `s0` by commits. -/
def Built [Crypto] (s0 s : ChainState) : Prop := ∃ blocks, CommitRun s0 blocks s

/-- Commit the blocks one after another under one identity. -/
def commitAll [Crypto] (identity : ProtocolActivationIdentity) :
    List Block → ChainState → Except PulseError ChainState
  | [], s => .ok s
  | block :: rest, s => do
    let committed ← commitGhostdagV1MetadataForActivatedV2 block s identity
    commitAll identity rest committed.2

/-- Committing a list of blocks continues a run. -/
theorem CommitRun.of_commitAll [Crypto] {identity : ProtocolActivationIdentity}
    {before blocks : List Block} {s0 s s' : ChainState} (hrun : CommitRun s0 before s)
    (h : commitAll identity blocks s = .ok s') : CommitRun s0 (before ++ blocks) s' := by
  induction blocks generalizing before s with
  | nil =>
    obtain rfl : s = s' := by simpa [commitAll] using h
    simpa using hrun
  | cons block rest ih =>
    simp only [commitAll, bind_eq_ok] at h
    obtain ⟨⟨out, s₁⟩, hcommit, hrest⟩ := h
    simpa using ih (hrun.commit hcommit) hrest

/-- What the genesis kinds have in common: one block without parents. -/
structure GenesisDag (s : ChainState) : Prop where
  blocks : ∃ block : Block, s.dag.blocks = (∅ : TreeMap Hash Block).insert s.dag.genesisHash block ∧
    block.hash = s.dag.genesisHash ∧ block.header.parents = [] ∧ block.header.height = 0 ∧
    block.header.blueScore = 0
  tips : s.dag.tips = (∅ : TreeSet Hash).insert s.dag.genesisHash
  children : s.dag.children = ∅
  bestHeight : s.dag.bestHeight = 0
  selectedParents : s.dag.selectedParents =
    (∅ : TreeMap Hash (Option Hash)).insert s.dag.genesisHash none
  selectedChain : s.dag.selectedChain = [s.dag.genesisHash]
  mergeSetK : s.dag.mergeSetK = ghostdagV1K
  mergeSetBlues : s.dag.mergeSetBlues = ∅ ∨
    s.dag.mergeSetBlues = (∅ : TreeMap Hash (List Hash)).insert s.dag.genesisHash []
  mergeSetReds : s.dag.mergeSetReds = ∅ ∨
    s.dag.mergeSetReds = (∅ : TreeMap Hash (List Hash)).insert s.dag.genesisHash []
  blueWork : s.dag.blueWork = (∅ : TreeMap Hash ℕ).insert s.dag.genesisHash 0

/-- A clean state has the genesis block alone. -/
theorem cleanChainState_genesisDag [Crypto] (chainId : String) (genesis : Block)
    (utxo : UtxoState) (stateRoot : Hash) (hparents : genesis.header.parents = [])
    (hheight : genesis.header.height = 0) (hscore : genesis.header.blueScore = 0) :
    GenesisDag (cleanChainState chainId genesis utxo stateRoot) :=
  ⟨⟨genesis, rfl, rfl, hparents, hheight, hscore⟩, rfl, rfl, rfl, rfl, rfl, rfl, .inr rfl,
    .inr rfl, rfl⟩

/-- Every genesis state has the genesis block alone. -/
theorem IsGenesisState.genesisDag [Crypto] {s : ChainState} (h : IsGenesisState s) :
    GenesisDag s := by
  cases h with
  | v1 chainId =>
    exact ⟨⟨genesisBlock, rfl, rfl, rfl, rfl, rfl⟩, rfl, rfl, rfl, rfl, rfl, rfl, .inl rfl,
      .inl rfl, rfl⟩
  | v2 h =>
    simp only [initChainStateV2, genesisBlockV2, bind_eq_ok, pure_eq_ok] at h
    obtain ⟨genesis, ⟨_, _, _, _, _, _, hgenesis⟩, _, _, _, _, hstate⟩ := h
    obtain rfl := Except.ok.inj hgenesis
    obtain rfl := Except.ok.inj hstate
    exact cleanChainState_genesisDag _ _ _ _ rfl rfl rfl
  | v3 h =>
    simp only [initChainStateV3, genesisBlockV3, bind_eq_ok, pure_eq_ok] at h
    obtain ⟨genesis, ⟨_, _, _, _, _, _, _, _, hgenesis⟩, _, _, hstate⟩ := h
    obtain rfl := Except.ok.inj hgenesis
    obtain rfl := Except.ok.inj hstate
    exact cleanChainState_genesisDag _ _ _ _ rfl rfl rfl

/-! ## The stored blocks -/

/-- The stored blocks form a rooted acyclic graph: every parent is stored, only the
genesis block has no parents, and some rank increases from parents to children. -/
structure BlockGraph (s : ChainState) : Prop where
  genesis_mem : s.dag.genesisHash ∈ s.dag.blocks
  keyed : ∀ (h : Hash) (block : Block), s.dag.blocks[h]? = some block → block.hash = h
  genesis_parents : ∀ block : Block, s.dag.blocks[s.dag.genesisHash]? = some block →
    block.header.parents = []
  parents_ne : ∀ (h : Hash) (block : Block), s.dag.blocks[h]? = some block → h ≠ s.dag.genesisHash →
    block.header.parents ≠ []
  parent_mem : ∀ p c, ParentOf s p c → p ∈ s.dag.blocks
  ranked : ∃ rank : Hash → ℕ, (∀ h ∈ s.dag.blocks, rank h < s.dag.blocks.size) ∧
    ∀ p c, ParentOf s p c → rank p < rank c

/-- The parent relation after a fresh block is stored. -/
theorem parentOf_insert_iff {s s' : ChainState} {block : Block}
    (hblocks : s'.dag.blocks = s.dag.blocks.insert block.hash block)
    (hfresh : block.hash ∉ s.dag.blocks) (p c : Hash) :
    ParentOf s' p c ↔ (c = block.hash ∧ p ∈ block.header.parents) ∨ ParentOf s p c := by
  unfold ParentOf
  rw [hblocks]
  simp only [TreeMap.getElem?_insert]
  by_cases hc : c = block.hash
  · subst hc
    have hnone : s.dag.blocks[block.hash]? = none := Std.ExtTreeMap.getElem?_eq_none hfresh
    simp [hnone]
  · simp [hc]

/-- A block that has a parent is stored. -/
theorem ParentOf.mem {s : ChainState} {p c : Hash} (h : ParentOf s p c) : c ∈ s.dag.blocks := by
  obtain ⟨block, hblock, _⟩ := h
  exact (TreeMap.mem_iff _ _).mpr ⟨block, hblock⟩

/-- A fresh block with stored parents keeps the graph rooted and acyclic. -/
theorem BlockGraph.insert {s s' : ChainState} {block : Block} (hgraph : BlockGraph s)
    (hblocks : s'.dag.blocks = s.dag.blocks.insert block.hash block)
    (hgenesis : s'.dag.genesisHash = s.dag.genesisHash) (hfresh : block.hash ∉ s.dag.blocks)
    (hne : block.header.parents ≠ []) (hstored : ∀ p ∈ block.header.parents, p ∈ s.dag.blocks) :
    BlockGraph s' := by
  have hgne : s.dag.genesisHash ≠ block.hash := fun h => hfresh (h ▸ hgraph.genesis_mem)
  have hmem : ∀ h, h ∈ s'.dag.blocks ↔ h = block.hash ∨ h ∈ s.dag.blocks := by
    intro h
    rw [hblocks, Std.ExtTreeMap.mem_insert, Std.compare_eq_iff_eq, eq_comm]
  have hget : ∀ h, s'.dag.blocks[h]? = if h = block.hash then some block else s.dag.blocks[h]? := by
    intro h
    rw [hblocks, TreeMap.getElem?_insert]
  refine ⟨?_, ?_, ?_, ?_, ?_, ?_⟩
  · rw [hgenesis, hmem]
    exact .inr hgraph.genesis_mem
  · intro h b hb
    rw [hget] at hb
    split at hb
    · rename_i heq
      rw [← Option.some.inj hb, heq]
    · exact hgraph.keyed h b hb
  · intro b hb
    rw [hgenesis, hget, if_neg hgne] at hb
    exact hgraph.genesis_parents b hb
  · intro h b hb hh
    rw [hget] at hb
    split at hb
    · exact Option.some.inj hb ▸ hne
    · exact hgraph.parents_ne h b hb (hgenesis ▸ hh)
  · intro p c hpc
    rw [hmem]
    rcases (parentOf_insert_iff hblocks hfresh p c).mp hpc with ⟨_, hp⟩ | hpc
    · exact .inr (hstored p hp)
    · exact .inr (hgraph.parent_mem p c hpc)
  · obtain ⟨rank, hbound, hrank⟩ := hgraph.ranked
    have hsize : s'.dag.blocks.size = s.dag.blocks.size + 1 := by
      rw [hblocks, Std.ExtTreeMap.size_insert,
        if_neg (mt Std.ExtTreeMap.mem_iff_contains.mpr hfresh)]
    -- the new block is ranked above all stored ones
    refine ⟨fun h => if h = block.hash then s.dag.blocks.size else rank h, fun h hh => ?_,
      fun p c hpc => ?_⟩
    · rw [hsize]
      by_cases heq : h = block.hash
      · simp [heq]
      · have := hbound h (((hmem h).mp hh).resolve_left heq)
        simp only [heq, if_false]
        omega
    · have hp : p ∈ s.dag.blocks := by
        rcases (parentOf_insert_iff hblocks hfresh p c).mp hpc with ⟨_, hp⟩ | hpc
        · exact hstored p hp
        · exact hgraph.parent_mem p c hpc
      have hpne : p ≠ block.hash := fun h => hfresh (h ▸ hp)
      simp only [hpne, if_false]
      rcases (parentOf_insert_iff hblocks hfresh p c).mp hpc with ⟨rfl, _⟩ | hold
      · simpa using hbound p hp
      · have hcne : c ≠ block.hash := fun h => hfresh (h ▸ hold.mem)
        simpa only [hcne, if_false] using hrank p c hold

/-- A fresh block does not change what the state knows about the stored blocks. -/
theorem BlockGraph.agreeOn {s s' : ChainState} {block : Block} {work : ℕ} (hgraph : BlockGraph s)
    (hblocks : s'.dag.blocks = s.dag.blocks.insert block.hash block)
    (hwork : s'.dag.blueWork = s.dag.blueWork.insert block.hash work)
    (hfresh : block.hash ∉ s.dag.blocks) : AgreeOn (· ∈ s.dag.blocks) s s' where
  blocks h hh := by
    rw [hblocks, TreeMap.getElem?_insert, if_neg]
    rintro rfl
    exact hfresh hh
  blueWork h hh := by
    rw [hwork, TreeMap.getElem?_insert, if_neg]
    rintro rfl
    exact hfresh hh
  parents h _ b hb p hp := hgraph.parent_mem p h ⟨b, hb, hp⟩

/-! ## The metadata of the stored blocks -/

/-- The metadata stored for `h` is that of a classification. -/
structure MetadataOf (s : ChainState) (h : Hash) (c : GhostdagV1Classification) : Prop where
  selectedParent : s.dag.selectedParents[h]? = some c.selectedParent
  blues : s.dag.mergeSetBlues[h]? = some c.blues
  reds : s.dag.mergeSetReds[h]? = some c.reds
  blueWork : s.dag.blueWork[h]? = some c.blueWork

/-- What is known about a stored block other than the genesis block: it has passed the
checks of a commit, and its metadata is the classification that the state computes. -/
structure AcceptedBlock [Crypto] (s : ChainState) (h : Hash) (block : Block) : Prop where
  shape : validateBlockHeaderV2Shape block.header s.chainId = .ok ()
  hash_eq : computeBlockHashV2 block.header s.chainId = .ok h
  height : expectedHeight s block.header.parents 0 = .ok block.header.height
  classified : ∃ c, classifyMergeSetV1 block s = .ok c ∧ block.header.blueScore = c.blueScore ∧
    MetadataOf s h c

/-- All stored blocks are accepted, and nothing else has metadata. -/
structure Classified [Crypto] (s : ChainState) : Prop where
  genesis_selectedParent : s.dag.selectedParents[s.dag.genesisHash]? = some none
  genesis_blueWork : s.dag.blueWork[s.dag.genesisHash]? = some 0
  accepted : ∀ (h : Hash) (block : Block), s.dag.blocks[h]? = some block →
    h ≠ s.dag.genesisHash → AcceptedBlock s h block
  unknown : ∀ h ∉ s.dag.blocks, s.dag.selectedParents[h]? = none ∧
    s.dag.mergeSetBlues[h]? = none ∧ s.dag.mergeSetReds[h]? = none ∧ s.dag.blueWork[h]? = none

/-- The expected height depends on the parents alone. -/
theorem expectedHeight_eq {D : Hash → Prop} {s t : ChainState} (hagree : AgreeOn D s t)
    {parents : List Hash} (hparents : ∀ p ∈ parents, D p) (low : UInt64) :
    expectedHeight s parents low = expectedHeight t parents low := by
  induction parents generalizing low with
  | nil => rfl
  | cons parent rest ih =>
    simp only [expectedHeight, hagree.blocks parent (hparents parent mem_cons_self),
      ih fun p hp => hparents p (mem_cons_of_mem _ hp)]

/-- An accepted block stays accepted in a state that agrees on its past. -/
theorem AcceptedBlock.congr [Crypto] {D : Hash → Prop} {s t : ChainState} {h : Hash}
    {block : Block} (haccepted : AcceptedBlock s h block) (hagree : AgreeOn D s t)
    (hchain : t.chainId = s.chainId) (hparents : ∀ p ∈ block.header.parents, D p)
    (hmeta : ∀ c, MetadataOf s h c → MetadataOf t h c) : AcceptedBlock t h block where
  shape := hchain ▸ haccepted.shape
  hash_eq := hchain ▸ haccepted.hash_eq
  height := (expectedHeight_eq hagree hparents 0).symm.trans haccepted.height
  classified := by
    obtain ⟨c, hc, hscore, hdata⟩ := haccepted.classified
    exact ⟨c, (hagree.classifyMergeSetV1_eq hparents).symm.trans hc, hscore, hmeta c hdata⟩

/-! ## Tips, children and the selected chain -/

/-- Tips, children lists and the greatest height follow from the stored blocks. -/
structure Linked (s : ChainState) : Prop where
  mem_tips : ∀ h, h ∈ s.dag.tips ↔ h ∈ s.dag.blocks ∧ ∀ c, ¬ParentOf s h c
  children_sorted : ∀ (h : Hash) (l : List Hash), s.dag.children[h]? = some l → l ≠ [] ∧
    l.Pairwise (· < ·)
  mem_children : ∀ h c : Hash, c ∈ s.dag.children[h]?.getD [] ↔ ParentOf s h c
  height_le : ∀ (h : Hash) (block : Block), s.dag.blocks[h]? = some block →
    block.header.height ≤ s.dag.bestHeight
  height_attained : ∃ (h : Hash) (block : Block), s.dag.blocks[h]? = some block ∧
    block.header.height = s.dag.bestHeight

/-- A fresh block with stored parents keeps the links. -/
theorem Linked.insert {s s' : ChainState} {block : Block} {c : GhostdagV1Classification}
    (hlinked : Linked s) (hgraph : BlockGraph s) (hinserted : Inserted block s.dag s'.dag c)
    (hfresh : block.hash ∉ s.dag.blocks)
    (hstored : ∀ p ∈ block.header.parents, p ∈ s.dag.blocks) : Linked s' := by
  have hparent := parentOf_insert_iff hinserted.blocks hfresh
  have hmem : ∀ h, h ∈ s'.dag.blocks ↔ h = block.hash ∨ h ∈ s.dag.blocks := by
    intro h
    rw [hinserted.blocks, Std.ExtTreeMap.mem_insert, Std.compare_eq_iff_eq, eq_comm]
  refine ⟨fun h => ?_, fun h l hl => ?_, fun h x => ?_, fun h b hb => ?_, ?_⟩
  · rw [hinserted.mem_tips, hlinked.mem_tips, hmem]
    simp only [hparent, not_or, not_and]
    constructor
    · rintro (rfl | ⟨⟨hh, hnone⟩, hnot⟩)
      · refine ⟨.inl rfl, fun x => ⟨fun _ hp => hfresh (hstored _ hp), fun hp => ?_⟩⟩
        exact hfresh (hgraph.parent_mem _ _ hp)
      · exact ⟨.inr hh, fun x => ⟨fun _ => hnot, hnone x⟩⟩
    · rintro ⟨rfl | hh, hnone⟩
      · exact .inl rfl
      · exact .inr ⟨⟨hh, fun x => (hnone x).2⟩, (hnone block.hash).1 rfl⟩
  · rw [hinserted.children] at hl
    split at hl
    · obtain rfl := Option.some.inj hl
      refine ⟨ne_nil_of_mem (a := block.hash) ?_, ?_⟩
      · rw [mem_dedupNeighbours, mem_insertionSort]
        simp
      · exact pairwise_lt_dedupNeighbours _ (pairwise_insertionSort _ _)
    · exact hlinked.children_sorted h l hl
  · rw [hinserted.children, hparent, ← hlinked.mem_children]
    split
    · rename_i hh
      rw [Option.getD_some, mem_dedupNeighbours, mem_insertionSort, mem_append,
        mem_singleton]
      constructor
      · rintro (hx | hx)
        · exact .inr hx
        · exact .inl ⟨hx, hh⟩
      · rintro (⟨hx, _⟩ | hx)
        · exact .inr hx
        · exact .inl hx
    · rename_i hh
      simp [hh]
  · rw [hinserted.blocks, TreeMap.getElem?_insert] at hb
    rw [hinserted.bestHeight, UInt64.le_iff_toNat_le, toNat_max]
    split at hb
    · rw [← Option.some.inj hb]
      omega
    · have := UInt64.le_iff_toNat_le.mp (hlinked.height_le h b hb)
      omega
  · simp only [hinserted.bestHeight, hinserted.blocks, TreeMap.getElem?_insert]
    rw [UInt64.max_def]
    split
    · exact ⟨block.hash, block, by simp, rfl⟩
    · obtain ⟨h, b, hb, heq⟩ := hlinked.height_attained
      refine ⟨h, b, ?_, heq⟩
      rw [if_neg, hb]
      rintro rfl
      exact hfresh ((TreeMap.mem_iff _ _).mpr ⟨b, hb⟩)

/-- The scores depend on the blocks and their work. -/
theorem tipScores_congr {s t : ChainState} (hblocks : t.dag.blocks = s.dag.blocks)
    (hwork : t.dag.blueWork = s.dag.blueWork) (hashes : List Hash) :
    tipScores t hashes = tipScores s hashes := by
  induction hashes with
  | nil => rfl
  | cons hash rest ih => simp only [tipScores, scoreForKnownBlock, hblocks, hwork, ih]

/-- The selected tip is a function of tips, blocks and blue work. -/
theorem calculateSelectedTipV1_congr {s t : ChainState} (hblocks : t.dag.blocks = s.dag.blocks)
    (hwork : t.dag.blueWork = s.dag.blueWork) (htips : t.dag.tips = s.dag.tips) :
    calculateSelectedTipV1 t = calculateSelectedTipV1 s := by
  simp only [calculateSelectedTipV1, htips, tipScores_congr hblocks hwork]

/-- The selected chain is a function of its tip, the blocks and the selected parents. -/
theorem rebuildSelectedChainV1_congr {s t : ChainState} (hblocks : t.dag.blocks = s.dag.blocks)
    (hparents : t.dag.selectedParents = s.dag.selectedParents) (tip : Option Hash) :
    rebuildSelectedChainV1 t tip = rebuildSelectedChainV1 s tip := by
  have hfrom : ∀ fuel cursor seen, selectedChainFrom t fuel cursor seen =
      selectedChainFrom s fuel cursor seen := by
    intro fuel
    induction fuel with
    | zero => intro cursor seen; cases cursor <;> rfl
    | succ fuel ih =>
      intro cursor seen
      cases cursor with
      | none => rfl
      | some hash => simp only [selectedChainFrom, hblocks, hparents, ih]
  simp only [rebuildSelectedChainV1, hblocks, hfrom]

/-! ## The invariant -/

/-- The invariant of the states reachable from `s0`. -/
structure DagInvariant [Crypto] (s0 s : ChainState) : Prop where
  graph : BlockGraph s
  classified : Classified s
  linked : Linked s
  genesis_block : s.dag.blocks[s0.dag.genesisHash]? = s0.dag.blocks[s0.dag.genesisHash]?
  /-- The first commit adds the empty merge set of the genesis block when it is missing. -/
  genesis_mergeSet : s = s0 ∨ (1 < s.dag.blocks.size ∧
    s.dag.mergeSetBlues[s.dag.genesisHash]? = some [] ∧
    s.dag.mergeSetReds[s.dag.genesisHash]? = some [])
  selected : ∃ tip, calculateSelectedTipV1 s = .ok tip ∧
    rebuildSelectedChainV1 s tip = .ok s.dag.selectedChain
  mergeSetK : s.dag.mergeSetK = ghostdagV1K
  /-- Commits change the DAG only, and of the DAG only these fields. -/
  frame : s = { s0 with dag := { s0.dag with
    blocks := s.dag.blocks, tips := s.dag.tips, children := s.dag.children,
    bestHeight := s.dag.bestHeight, selectedParents := s.dag.selectedParents,
    selectedChain := s.dag.selectedChain, mergeSetK := s.dag.mergeSetK,
    mergeSetBlues := s.dag.mergeSetBlues, mergeSetReds := s.dag.mergeSetReds,
    blueWork := s.dag.blueWork } }

/-- The genesis block stays. -/
theorem DagInvariant.genesisHash_eq [Crypto] {s0 s : ChainState} (hinv : DagInvariant s0 s) :
    s.dag.genesisHash = s0.dag.genesisHash := by
  rw [hinv.frame]

/-- The chain stays. -/
theorem DagInvariant.chainId_eq [Crypto] {s0 s : ChainState} (hinv : DagInvariant s0 s) :
    s.chainId = s0.chainId := by
  rw [hinv.frame]

/-- No block of a genesis state has a parent. -/
theorem GenesisDag.not_parentOf {s : ChainState} (hs : GenesisDag s) (p c : Hash) :
    ¬ParentOf s p c := by
  rintro ⟨block, hblock, hp⟩
  obtain ⟨genesis, hblocks, _, hparents, _⟩ := hs.blocks
  rw [hblocks, TreeMap.getElem?_insert] at hblock
  split at hblock
  · rw [← Option.some.inj hblock, hparents] at hp
    exact not_mem_nil hp
  · simp at hblock

/-- The invariant holds in a genesis state. -/
theorem GenesisDag.invariant [Crypto] {s : ChainState} (hs : GenesisDag s) :
    DagInvariant s s := by
  obtain ⟨genesis, hblocks, hhash, hparents, hheight, hscore⟩ := hs.blocks
  have hget : ∀ h, s.dag.blocks[h]? = if h = s.dag.genesisHash then some genesis else none := by
    intro h
    rw [hblocks, TreeMap.getElem?_insert, Std.ExtTreeMap.getElem?_empty]
  have hmem : ∀ h, h ∈ s.dag.blocks ↔ h = s.dag.genesisHash := by
    intro h
    rw [TreeMap.mem_iff]
    simp only [hget]
    by_cases hh : h = s.dag.genesisHash <;> simp [hh]
  have hblock : ∀ (h : Hash) (b : Block), s.dag.blocks[h]? = some b →
      h = s.dag.genesisHash ∧ b = genesis := by
    intro h b hb
    rw [hget] at hb
    split at hb
    · exact ⟨‹_›, (Option.some.inj hb).symm⟩
    · exact absurd hb (by simp)
  have hsize : s.dag.blocks.size = 1 := by
    rw [← Std.ExtTreeMap.length_toList, hblocks, TreeMap.toList_singleton, length_singleton]
  refine ⟨⟨?_, ?_, ?_, ?_, ?_, ?_⟩, ⟨?_, ?_, ?_, ?_⟩, ⟨?_, ?_, ?_, ?_, ?_⟩, rfl, .inl rfl, ?_,
    hs.mergeSetK, rfl⟩
  · exact (hmem _).mpr rfl
  · intro h b hb
    obtain ⟨rfl, rfl⟩ := hblock h b hb
    exact hhash
  · intro b hb
    rw [(hblock _ b hb).2]
    exact hparents
  · intro h b hb hne
    exact absurd (hblock h b hb).1 hne
  · intro p c hpc
    exact absurd hpc (hs.not_parentOf p c)
  · exact ⟨fun _ => 0, fun h _ => by rw [hsize]; exact Nat.zero_lt_one,
      fun p c hpc => absurd hpc (hs.not_parentOf p c)⟩
  · rw [hs.selectedParents, TreeMap.getElem?_insert, if_pos rfl]
  · rw [hs.blueWork, TreeMap.getElem?_insert, if_pos rfl]
  · intro h b hb hne
    exact absurd (hblock h b hb).1 hne
  · intro h hh
    have hne : h ≠ s.dag.genesisHash := fun heq => hh ((hmem h).mpr heq)
    refine ⟨?_, ?_, ?_, ?_⟩
    · rw [hs.selectedParents, TreeMap.getElem?_insert, if_neg hne, Std.ExtTreeMap.getElem?_empty]
    · rcases hs.mergeSetBlues with h | h <;> simp [h, TreeMap.getElem?_insert, hne]
    · rcases hs.mergeSetReds with h | h <;> simp [h, TreeMap.getElem?_insert, hne]
    · rw [hs.blueWork, TreeMap.getElem?_insert, if_neg hne, Std.ExtTreeMap.getElem?_empty]
  · intro h
    rw [hmem, hs.tips, TreeSet.mem_insert]
    simp [hs.not_parentOf]
  · intro h l hl
    simp [hs.children] at hl
  · intro h c
    simp [hs.children, hs.not_parentOf]
  · intro h b hb
    rw [(hblock h b hb).2, hheight, hs.bestHeight]
    exact UInt64.le_refl 0
  · exact ⟨s.dag.genesisHash, genesis, by rw [hget, if_pos rfl], hheight.trans hs.bestHeight.symm⟩
  · refine ⟨some s.dag.genesisHash, ?_, ?_⟩
    · have htips : s.dag.tips.toList = [s.dag.genesisHash] := by
        rw [hs.tips]
        exact TreeSet.toList_singleton _
      simp [calculateSelectedTipV1, htips, tipScores, scoreForKnownBlock, hget, hs.blueWork,
        maxBy]
    · simp [rebuildSelectedChainV1, selectedChainFrom, hmem, hs.selectedParents, hs.selectedChain,
        ensure]

section

variable [Crypto] {s0 s s' : ChainState} {block : Block} {identity : ProtocolActivationIdentity}
  {out : ActivatedV2MetadataCommit}

/-- The parents of a committed block are stored. -/
theorem CommitStep.parents_mem (h : CommitStep block s identity out s') :
    ∀ p ∈ block.header.parents, p ∈ s.dag.blocks := by
  intro p hp
  obtain ⟨b, hb, _⟩ := (expectedHeight_spec h.height).2.1 p hp
  exact (TreeMap.mem_iff _ _).mpr ⟨b, hb⟩

/-- The identity is that of the chain. -/
theorem CommitStep.chainId_eq (h : CommitStep block s identity out s') :
    identity.chainId = s.chainId := by
  have hidentity := h.identity_ok
  simp only [verifyActivatedV2MetadataIdentity, bind_eq_ok, ensure_eq_ok] at hidentity
  obtain ⟨_, _, _, hchain, _⟩ := hidentity
  exact hchain

/-- A commit keeps the chain. -/
theorem CommitStep.chainId_eq' (h : CommitStep block s identity out s') :
    s'.chainId = s.chainId := by
  rw [h.frame]

/-- A commit keeps the genesis block. -/
theorem CommitStep.genesisHash_eq (h : CommitStep block s identity out s') :
    s'.dag.genesisHash = s.dag.genesisHash := by
  rw [h.inserted.frame]

/-- The old and the new state agree on the stored blocks. -/
theorem CommitStep.agreeOn (h : CommitStep block s identity out s') (hgraph : BlockGraph s) :
    AgreeOn (· ∈ s.dag.blocks) s s' :=
  hgraph.agreeOn h.inserted.blocks h.inserted.blueWork h.fresh

/-- A commit keeps the metadata of the stored blocks and classifies the new one. -/
theorem Classified.step (hclassified : Classified s) (hgraph : BlockGraph s)
    (h : CommitStep block s identity out s') : Classified s' := by
  have hinserted := h.inserted
  have hgne : s.dag.genesisHash ≠ block.hash := fun heq => h.fresh (heq ▸ hgraph.genesis_mem)
  have hagree := h.agreeOn hgraph
  refine ⟨?_, ?_, fun x b hb hne => ?_, fun x hx => ?_⟩
  · rw [h.genesisHash_eq, hinserted.selectedParents, TreeMap.getElem?_insert, if_neg hgne]
    exact hclassified.genesis_selectedParent
  · rw [h.genesisHash_eq, hinserted.blueWork, TreeMap.getElem?_insert, if_neg hgne]
    exact hclassified.genesis_blueWork
  · rw [hinserted.blocks, TreeMap.getElem?_insert] at hb
    rw [h.genesisHash_eq] at hne
    by_cases hxb : x = block.hash
    · subst hxb
      rw [if_pos rfl] at hb
      obtain rfl := Option.some.inj hb
      have hchain : identity.chainId = s'.chainId := h.chainId_eq.trans h.chainId_eq'.symm
      refine ⟨hchain ▸ h.shape, hchain ▸ h.hash_eq, ?_, out.classification, ?_, h.blueScore, ?_⟩
      · exact (expectedHeight_eq hagree h.parents_mem 0).symm.trans h.height
      · exact (hagree.classifyMergeSetV1_eq h.parents_mem).symm.trans h.classified
      · constructor <;> simp [hinserted.selectedParents, hinserted.mergeSetBlues,
          hinserted.mergeSetReds, hinserted.blueWork]
    · rw [if_neg hxb] at hb
      refine (hclassified.accepted x b hb hne).congr hagree h.chainId_eq'
        (fun p hp => hgraph.parent_mem p x ⟨b, hb, hp⟩) fun c hc => ?_
      have hgx : s.dag.genesisHash ≠ x := fun heq => hne heq.symm
      constructor <;> simp [hinserted.selectedParents, hinserted.mergeSetBlues,
        hinserted.mergeSetReds, hinserted.blueWork, TreeMap.getElem?_insert, hxb,
        Std.ExtTreeMap.getElem?_insertIfNew, hgx, hc.selectedParent, hc.blues, hc.reds,
        hc.blueWork]
  · rw [hinserted.blocks, TreeMap.mem_insert, not_or] at hx
    obtain ⟨hne, hx⟩ := hx
    have hgx : s.dag.genesisHash ≠ x := fun heq => hx (heq ▸ hgraph.genesis_mem)
    have hold := hclassified.unknown x hx
    simp [hinserted.selectedParents, hinserted.mergeSetBlues,
      hinserted.mergeSetReds, hinserted.blueWork, TreeMap.getElem?_insert, hne,
      Std.ExtTreeMap.getElem?_insertIfNew, hgx, hold]

omit [Crypto] in
/-- Before a commit the genesis merge set is missing or empty; after it, it is empty. -/
theorem getElem?_insertIfNew_nil {m : TreeMap Hash (List Hash)} {h : Hash}
    (hempty : m[h]?.getD [] = []) : (m.insertIfNew h [])[h]? = some [] := by
  rw [Std.ExtTreeMap.getElem?_insertIfNew]
  by_cases hmem : h ∈ m
  · obtain ⟨l, hl⟩ := (TreeMap.mem_iff m h).mp hmem
    rw [hl, Option.getD_some] at hempty
    rw [if_neg (fun hnot => hnot.2 hmem), hl, hempty]
  · simp [hmem]

/-- A commit keeps the invariant. -/
theorem DagInvariant.step (hinv : DagInvariant s0 s) (h : CommitStep block s identity out s') :
    DagInvariant s0 s' := by
  have hinserted := h.inserted
  have hfresh := h.fresh
  have hgne : s.dag.genesisHash ≠ block.hash := fun heq => hfresh (heq ▸ hinv.graph.genesis_mem)
  have hsize : s'.dag.blocks.size = s.dag.blocks.size + 1 := by
    rw [hinserted.blocks, Std.ExtTreeMap.size_insert,
      if_neg (mt Std.ExtTreeMap.mem_iff_contains.mpr hfresh)]
  have hpos : 0 < s.dag.blocks.size := by
    obtain ⟨rank, hrank, _⟩ := hinv.graph.ranked
    exact Nat.zero_lt_of_lt (hrank _ hinv.graph.genesis_mem)
  have hempty := h.genesis_ok
  simp only [verifyActivatedV2GenesisMetadata, bind_eq_ok, ensure_eq_ok] at hempty
  obtain ⟨_, hblues, hreds⟩ := hempty
  refine ⟨?_, hinv.classified.step hinv.graph h, ?_, ?_, .inr ⟨by omega, ?_, ?_⟩, ?_,
    hinserted.mergeSetK, ?_⟩
  · exact hinv.graph.insert hinserted.blocks h.genesisHash_eq hfresh h.parents_ne h.parents_mem
  · exact hinv.linked.insert hinv.graph hinserted hfresh h.parents_mem
  · rw [hinserted.blocks, TreeMap.getElem?_insert, ← hinv.genesisHash_eq, if_neg hgne]
    rw [hinv.genesisHash_eq]
    exact hinv.genesis_block
  · rw [h.genesisHash_eq, hinserted.mergeSetBlues, TreeMap.getElem?_insert, if_neg hgne]
    exact getElem?_insertIfNew_nil hblues
  · rw [h.genesisHash_eq, hinserted.mergeSetReds, TreeMap.getElem?_insert, if_neg hgne]
    exact getElem?_insertIfNew_nil hreds
  · refine ⟨out.selectedTip, ?_, ?_⟩
    · rw [← h.selectedTip]
      apply calculateSelectedTipV1_congr <;> rw [h.state_eq]
    · have hchain : s'.dag.selectedChain = out.selectedChain := by rw [h.state_eq]
      rw [hchain, ← h.selectedChain]
      apply rebuildSelectedChainV1_congr <;> rw [h.state_eq]
  · rw [h.frame, hinserted.frame, hinv.frame]

/-- The invariant of every reachable state. -/
theorem CommitRun.invariant {blocks : List Block} (h0 : IsGenesisState s0)
    (hrun : CommitRun s0 blocks s) : DagInvariant s0 s := by
  induction hrun with
  | genesis => exact h0.genesisDag.invariant
  | commit _ hcommit ih => exact ih.step (commit_eq_ok_iff.mp hcommit)

/-- The invariant holds in every state that is built. -/
theorem Built.invariant (h0 : IsGenesisState s0) (hs : Built s0 s) : DagInvariant s0 s := by
  obtain ⟨blocks, hrun⟩ := hs
  exact hrun.invariant h0

end

/-! ## A concrete run -/

/-- A short checksum in place of SHA-256, for runs on fixed blocks. -/
abbrev checksumCrypto : Crypto where
  sha256 bytes :=
    leBytes 3 (bytes.foldl (fun acc byte => (acc * 257 + byte.toNat + 1) % 16777213) 1)
  ed25519Verify _ _ _ := true
  kHeavyHashDigest _ _ := []

/-- A block without transactions under its own hash on the chain `c`. -/
def bareBlock [Crypto] (parents : List Hash) (height blueScore nonce : UInt64) : Block :=
  let header : BlockHeader :=
    { version := 2, parents := parents.insertionSort (· ≤ ·), timestamp := 0, difficulty := 0,
      nonce := nonce, merkleRoot := "", stateRoot := "", blueScore := blueScore, height := height }
  { hash := (computeBlockHashV2 header "c").toOption.getD "", header := header, transactions := [] }

/-- Two blocks on the genesis block and a block that merges them. -/
def diamond [Crypto] (genesis : Hash) : List Block :=
  let left := bareBlock [genesis] 1 1 1
  let right := bareBlock [genesis] 1 1 2
  [left, right, bareBlock [left.hash, right.hash] 2 3 0]

/-- The version 3 genesis state of the chain `c` and the state after committing blocks. -/
def sampleRun [Crypto] (blocks : Hash → List Block) :
    Except PulseError (ChainState × ChainState) := do
  let s0 ← initChainStateV3 "c" 1
  let identity := ProtocolActivationIdentity.activatedV2 "c" s0.dag.genesisHash
    ghostdagV1OrderingVersion
  let s ← commitAll identity (blocks s0.dag.genesisHash) s0
  pure (s0, s)

/-- A sample run is a run. -/
theorem sampleRun_eq_some [Crypto] {blocks : Hash → List Block} {s0 s : ChainState}
    (h : (sampleRun blocks).toOption = some (s0, s)) :
    initChainStateV3 "c" 1 = .ok s0 ∧ CommitRun s0 (blocks s0.dag.genesisHash) s := by
  have hok := eq_ok_of_toOption h
  simp only [sampleRun, ok_iff] at hok
  obtain ⟨_, h0, _, hall, heq⟩ := hok
  obtain ⟨rfl, rfl⟩ := Prod.mk.inj heq
  exact ⟨h0, by simpa using CommitRun.genesis.of_commitAll hall⟩

end PulseDag
