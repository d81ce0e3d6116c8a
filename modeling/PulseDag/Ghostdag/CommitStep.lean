import PulseDag.Ghostdag.Commit
import PulseDag.Ghostdag.Locality

/-!
# What a commit does

`CommitStep` says everything a successful commit has checked and changed. It is the only
place where the commit function is taken apart; the invariants of reachable states are
derived from it.
-/

namespace PulseDag

/-- Linking a block to its parents changes the tips and the children only. -/
theorem foldl_linkParent (hash : Hash) (parents : List Hash) (hnodup : parents.Nodup)
    (dag : DagState) :
    ∃ tips children, parents.foldl (linkParent hash) dag =
        { dag with tips := tips, children := children } ∧
      (∀ h, h ∈ tips ↔ h ∈ dag.tips ∧ h ∉ parents) ∧
      ∀ h, children[h]? = if h ∈ parents then
        some (dedupNeighbours ((dag.children[h]?.getD [] ++ [hash]).insertionSort (· ≤ ·)))
        else dag.children[h]? := by
  induction parents generalizing dag with
  | nil => exact ⟨dag.tips, dag.children, rfl, by simp, by simp⟩
  | cons parent rest ih =>
    obtain ⟨hnot, hrest⟩ := List.nodup_cons.mp hnodup
    obtain ⟨tips, children, hfold, htips, hchildren⟩ := ih hrest (linkParent hash dag parent)
    refine ⟨tips, children, hfold, fun h => ?_, fun h => ?_⟩
    · rw [htips]
      simp only [linkParent, Std.ExtTreeSet.mem_erase, ne_eq, Std.compare_eq_iff_eq,
        List.mem_cons, not_or]
      grind
    · rw [hchildren]
      simp only [linkParent, TreeMap.getElem?_insert]
      by_cases hparent : h = parent
      · subst hparent
        simp [hnot]
      · simp [hparent]

/-- The DAG fields after a block has been committed, as far as they change. -/
structure Inserted (block : Block) (dag dag' : DagState) (c : GhostdagV1Classification) :
    Prop where
  blocks : dag'.blocks = dag.blocks.insert block.hash block
  mem_tips : ∀ h, h ∈ dag'.tips ↔ h = block.hash ∨ (h ∈ dag.tips ∧ h ∉ block.header.parents)
  children : ∀ h, dag'.children[h]? = if h ∈ block.header.parents then
    some (dedupNeighbours ((dag.children[h]?.getD [] ++ [block.hash]).insertionSort (· ≤ ·)))
    else dag.children[h]?
  bestHeight : dag'.bestHeight = max dag.bestHeight block.header.height
  selectedParents : dag'.selectedParents = dag.selectedParents.insert block.hash c.selectedParent
  mergeSetBlues : dag'.mergeSetBlues =
    (dag.mergeSetBlues.insertIfNew dag.genesisHash []).insert block.hash c.blues
  mergeSetReds : dag'.mergeSetReds =
    (dag.mergeSetReds.insertIfNew dag.genesisHash []).insert block.hash c.reds
  blueWork : dag'.blueWork = dag.blueWork.insert block.hash c.blueWork
  mergeSetK : dag'.mergeSetK = ghostdagV1K
  /-- All other fields but the selected chain are kept. -/
  frame : dag' = { dag with
    blocks := dag'.blocks, tips := dag'.tips, children := dag'.children,
    bestHeight := dag'.bestHeight, selectedParents := dag'.selectedParents,
    selectedChain := dag'.selectedChain, mergeSetBlues := dag'.mergeSetBlues,
    mergeSetReds := dag'.mergeSetReds, blueWork := dag'.blueWork, mergeSetK := dag'.mergeSetK }

/-- What an insertion writes. -/
theorem insertBlockMetadata_spec (block : Block) (dag : DagState) (c : GhostdagV1Classification)
    (chain : List Hash) (hnodup : block.header.parents.Nodup) :
    Inserted block dag { insertBlockMetadata block dag c with selectedChain := chain } c := by
  obtain ⟨tips, children, hfold, htips, hchildren⟩ := foldl_linkParent block.hash
    block.header.parents hnodup
    { dag with
      mergeSetBlues := dag.mergeSetBlues.insertIfNew dag.genesisHash []
      mergeSetReds := dag.mergeSetReds.insertIfNew dag.genesisHash [] }
  simp only [insertBlockMetadata, hfold]
  refine ⟨rfl, fun h => ?_, hchildren, rfl, rfl, rfl, rfl, rfl, rfl, rfl⟩
  rw [Std.ExtTreeSet.mem_insert, Std.compare_eq_iff_eq, htips, eq_comm]

/-- The parents of a block with the right height are stored. -/
theorem expectedHeight_spec {state : ChainState} {parents : List Hash} {low height : UInt64}
    (h : expectedHeight state parents low = .ok height) :
    low ≤ height ∧ (∀ p ∈ parents, ∃ block, state.dag.blocks[p]? = some block ∧
        saturatingAdd block.header.height 1 ≤ height) ∧
      (height = low ∨ ∃ p ∈ parents, ∃ block, state.dag.blocks[p]? = some block ∧
        height = saturatingAdd block.header.height 1) := by
  induction parents generalizing low with
  | nil =>
    obtain rfl : low = height := by simpa [expectedHeight] using h
    exact ⟨UInt64.le_refl _, by simp, .inl rfl⟩
  | cons parent rest ih =>
    simp only [expectedHeight, ok_iff] at h
    obtain ⟨block, hblock, h⟩ := h
    obtain ⟨hlow, hall, hattained⟩ := ih h
    rw [UInt64.le_iff_toNat_le, toNat_max] at hlow
    refine ⟨UInt64.le_iff_toNat_le.mpr (by omega), ?_, ?_⟩
    · rintro p (_ | ⟨_, hp⟩)
      · exact ⟨block, hblock, UInt64.le_iff_toNat_le.mpr (by omega)⟩
      · exact hall p hp
    · rcases hattained with hmax | ⟨p, hp, hattained⟩
      · rw [UInt64.max_def] at hmax
        split at hmax
        · exact .inr ⟨parent, List.mem_cons_self, block, hblock, hmax⟩
        · exact .inl hmax
      · exact .inr ⟨p, List.mem_cons_of_mem _ hp, hattained⟩

/-- Everything a successful commit has checked and done. -/
structure CommitStep [Crypto] (block : Block) (s : ChainState)
    (identity : ProtocolActivationIdentity) (out : ActivatedV2MetadataCommit) (s' : ChainState) :
    Prop where
  identity_ok : verifyActivatedV2MetadataIdentity s identity = .ok ()
  genesis_ok : verifyActivatedV2GenesisMetadata s = .ok ()
  fresh : block.hash ∉ s.dag.blocks
  shape : validateBlockHeaderV2Shape block.header identity.chainId = .ok ()
  parents_ne : block.header.parents ≠ []
  hash_eq : computeBlockHashV2 block.header identity.chainId = .ok block.hash
  height : expectedHeight s block.header.parents 0 = .ok block.header.height
  classified : classifyMergeSetV1 block s = .ok out.classification
  blueScore : block.header.blueScore = out.classification.blueScore
  selectedTip : calculateSelectedTipV1
    { s with dag := insertBlockMetadata block s.dag out.classification } = .ok out.selectedTip
  selectedChain : rebuildSelectedChainV1
    { s with dag := insertBlockMetadata block s.dag out.classification } out.selectedTip =
      .ok out.selectedChain
  state_eq : s' = { s with dag :=
    { insertBlockMetadata block s.dag out.classification with selectedChain := out.selectedChain } }

variable {block : Block} {identity : ProtocolActivationIdentity} {s s' : ChainState}
  {out : ActivatedV2MetadataCommit}

/-- The checks of a candidate. -/
theorem validateMetadataCandidate_eq_ok [Crypto] {c : GhostdagV1Classification} :
    validateMetadataCandidate block s identity = .ok c ↔
      block.hash ∉ s.dag.blocks ∧
      validateBlockHeaderV2Shape block.header identity.chainId = .ok () ∧
      block.header.parents ≠ [] ∧
      computeBlockHashV2 block.header identity.chainId = .ok block.hash ∧
      expectedHeight s block.header.parents 0 = .ok block.header.height ∧
      classifyMergeSetV1 block s = .ok c ∧ block.header.blueScore = c.blueScore := by
  simp only [validateMetadataCandidate, bind_eq_ok, ensure_eq_ok, mapError_eq_ok, pure_eq_ok]
  constructor
  · rintro ⟨_, hfresh, _, hshape, _, hparents, hash, hhash, _, rfl, height, hheight, _, rfl, c', hc,
      _, hscore, hok⟩
    obtain rfl := Except.ok.inj hok
    exact ⟨hfresh, hshape, hparents, hhash, hheight, hc, hscore⟩
  · rintro ⟨hfresh, hshape, hparents, hhash, hheight, hc, hscore⟩
    exact ⟨(), hfresh, (), hshape, (), hparents, _, hhash, (), rfl, _, hheight, (), rfl, c, hc,
      (), hscore, rfl⟩

/-- A commit succeeds exactly when all its steps do. -/
theorem commit_eq_ok_iff [Crypto] :
    commitGhostdagV1MetadataForActivatedV2 block s identity = .ok (out, s') ↔
      CommitStep block s identity out s' := by
  simp only [commitGhostdagV1MetadataForActivatedV2, bind_eq_ok, mapError_eq_ok, pure_eq_ok,
    validateMetadataCandidate_eq_ok]
  constructor
  · rintro ⟨_, hidentity, _, hgenesis, c, ⟨hfresh, hshape, hparents, hhash, hheight, hc, hscore⟩,
      tip, htip, chain, hchain, hok⟩
    obtain ⟨rfl, rfl⟩ := Prod.mk.inj (Except.ok.inj hok)
    exact ⟨hidentity, hgenesis, hfresh, hshape, hparents, hhash, hheight, hc, hscore, htip,
      hchain, rfl⟩
  · intro h
    refine ⟨(), h.identity_ok, (), h.genesis_ok, _, ⟨h.fresh, h.shape, h.parents_ne, h.hash_eq,
      h.height, h.classified, h.blueScore⟩, _, h.selectedTip, _, h.selectedChain, ?_⟩
    rw [h.state_eq]

/-- The parents of a committed block are distinct. -/
theorem CommitStep.parents_nodup [Crypto] (h : CommitStep block s identity out s') :
    block.header.parents.Nodup := by
  obtain ⟨hselected, _⟩ := classifyMergeSetV1_spec h.classified
  simp only [calculateSelectedParentV1, bind_eq_ok] at hselected
  obtain ⟨_, _, scores, hscores, _⟩ := hselected
  exact (parentScores_spec hscores).2.2.1

/-- The DAG of the new state. -/
theorem CommitStep.inserted [Crypto] (h : CommitStep block s identity out s') :
    Inserted block s.dag s'.dag out.classification := by
  rw [h.state_eq]
  exact insertBlockMetadata_spec block s.dag out.classification out.selectedChain h.parents_nodup

/-- A commit changes the DAG only. -/
theorem CommitStep.frame [Crypto] (h : CommitStep block s identity out s') :
    s' = { s with dag := s'.dag } := by
  rw [h.state_eq]

end PulseDag
