import PulseDag.Ghostdag.ArrivalOrder
import PulseDag.Ghostdag.SelectedChain

/-!
# A valid candidate is always committed

After a candidate has been validated, the selected tip and the selected chain of the new
DAG can always be computed, so the commit succeeds. A part of a run that is closed under
parents can therefore be committed on its own.
-/

namespace PulseDag

/-- Known tips have scores. -/
theorem tipScores_ok {s : ChainState} {hashes : List Hash}
    (hknown : ∀ h ∈ hashes, h ∈ s.dag.blocks ∧ h ∈ s.dag.blueWork) :
    ∃ scores, tipScores s hashes = .ok scores := by
  induction hashes with
  | nil => exact ⟨[], rfl⟩
  | cons hash rest ih =>
    obtain ⟨scores, hscores⟩ := ih fun h hh => hknown h (List.mem_cons_of_mem _ hh)
    obtain ⟨hblock, hwork⟩ := hknown hash List.mem_cons_self
    obtain ⟨block, hblock⟩ := (TreeMap.mem_iff _ _).mp hblock
    obtain ⟨work, hwork⟩ := (TreeMap.mem_iff _ _).mp hwork
    simp [tipScores, scoreForKnownBlock, hblock, hwork, hscores]

/-- Selected parents are stored blocks of a smaller rank. -/
def SelectedParentsRanked (s : ChainState) (rank : Hash → ℕ) : Prop :=
  ∀ h ∈ s.dag.blocks, ∃ parent, s.dag.selectedParents[h]? = some parent ∧
    ∀ p, parent = some p → p ∈ s.dag.blocks ∧ rank p < rank h

variable {rank : Hash → ℕ}

/-- The walk down the selected parents reaches the root: the rank falls, so no block is
met twice and the fuel suffices. -/
theorem selectedChainFrom_ok {s : ChainState} (hranked : SelectedParentsRanked s rank) (fuel : ℕ)
    (cursor : Option Hash) (seen : TreeSet Hash)
    (hcursor : ∀ h, cursor = some h →
      h ∈ s.dag.blocks ∧ rank h < fuel ∧ ∀ x ∈ seen, rank h < rank x) :
    ∃ chain, selectedChainFrom s fuel cursor seen = .ok chain := by
  induction fuel generalizing cursor seen with
  | zero =>
    cases cursor with
    | none => exact ⟨[], rfl⟩
    | some h =>
      obtain ⟨_, hlt, _⟩ := hcursor h rfl
      omega
  | succ fuel ih =>
    cases cursor with
    | none => exact ⟨[], rfl⟩
    | some h =>
      obtain ⟨hblock, hlt, hseen⟩ := hcursor h rfl
      obtain ⟨parent, hparent, hbelow⟩ := hranked h hblock
      have hunseen : h ∉ seen := fun hh => Nat.lt_irrefl _ (hseen h hh)
      obtain ⟨chain, hchain⟩ := ih parent (seen.insert h) (by
        intro p hp
        obtain ⟨hpblock, hrank⟩ := hbelow p hp
        refine ⟨hpblock, by omega, fun x hx => ?_⟩
        rcases (TreeSet.mem_insert _ _ _).mp hx with rfl | hx
        · exact hrank
        · have := hseen x hx
          omega)
      exact ⟨h :: chain, by simp [selectedChainFrom, ensure, hunseen, hblock, hparent, hchain]⟩

section

variable [Crypto] {s0 s : ChainState} {block : Block} {identity : ProtocolActivationIdentity}

/-- Every block of a reachable state has a selected parent entry below it. -/
theorem DagInvariant.selectedParentsRanked (hinv : DagInvariant s0 s)
    (hrank : ∀ p c, ParentOf s p c → rank p < rank c) : SelectedParentsRanked s rank := by
  intro h hh
  by_cases hg : h = s.dag.genesisHash
  · exact ⟨none, hg ▸ hinv.classified.genesis_selectedParent, by simp⟩
  · obtain ⟨b, hb⟩ := (TreeMap.mem_iff _ _).mp hh
    obtain ⟨p, hp, hselected, _⟩ := hinv.mergeMembers_spec hb hg
    have hparent : ParentOf s p h := ⟨b, hb, hp⟩
    refine ⟨some p, hselected, fun q hq => ?_⟩
    obtain rfl := Option.some.inj hq
    exact ⟨hinv.graph.parent_mem p h hparent, hrank p h hparent⟩

/-- Every block of a reachable state has blue work. -/
theorem DagInvariant.mem_blueWork (hinv : DagInvariant s0 s) {h : Hash}
    (hh : h ∈ s.dag.blocks) : h ∈ s.dag.blueWork := by
  by_cases hg : h = s.dag.genesisHash
  · exact (TreeMap.mem_iff _ _).mpr ⟨0, hg ▸ hinv.classified.genesis_blueWork⟩
  · obtain ⟨b, hb⟩ := (TreeMap.mem_iff _ _).mp hh
    obtain ⟨c, _, _, hmeta⟩ := (hinv.classified.accepted h b hb hg).classified
    exact (TreeMap.mem_iff _ _).mpr ⟨_, hmeta.blueWork⟩

/-- The genesis metadata check of a commit passes in every reachable state. -/
theorem DagInvariant.verifyGenesis_ok (hinv : DagInvariant s0 s) (h0 : GenesisDag s0) :
    verifyActivatedV2GenesisMetadata s = .ok () := by
  obtain ⟨hblues, hreds⟩ := List.append_eq_nil_iff.mp (hinv.mergeMembers_genesis h0)
  rw [bluesOf] at hblues
  rw [redsOf] at hreds
  simp [verifyActivatedV2GenesisMetadata, ensure, hblues, hreds]

variable {c : GhostdagV1Classification} {t : ChainState} {blocks : List Block}

/-- A validated candidate is committed. -/
theorem DagInvariant.commit_ok (hinv : DagInvariant s0 s) (h0 : GenesisDag s0)
    (hidentity : verifyActivatedV2MetadataIdentity s identity = .ok ())
    (hvalid : validateMetadataCandidate block s identity = .ok c) :
    ∃ out s', out.classification = c ∧
      commitGhostdagV1MetadataForActivatedV2 block s identity = .ok (out, s') := by
  obtain ⟨hfresh, hshape, hne, hhash, hheight, hclass, hscore⟩ :=
    validateMetadataCandidate_eq_ok.mp hvalid
  obtain ⟨hselected, _⟩ := classifyMergeSetV1_spec hclass
  obtain ⟨_, _, hparent⟩ := calculateSelectedParentV1_spec hselected
  have hstored : ∀ p ∈ block.header.parents, p ∈ s.dag.blocks := by
    intro p hp
    obtain ⟨b, hb, _⟩ := (expectedHeight_spec hheight).2.1 p hp
    exact (TreeMap.mem_iff _ _).mpr ⟨b, hb⟩
  have hnodup : block.header.parents.Nodup := by
    simp only [calculateSelectedParentV1, bind_eq_ok] at hselected
    obtain ⟨_, _, _, hscores, _⟩ := hselected
    exact (parentScores_spec hscores).2.2.1
  let working : ChainState := { s with dag := insertBlockMetadata block s.dag c }
  have hinserted : Inserted block s.dag working.dag c :=
    insertBlockMetadata_spec block s.dag c working.dag.selectedChain hnodup
  have hgenesis : working.dag.genesisHash = s.dag.genesisHash := by rw [hinserted.frame]
  have hmem : ∀ h, h ∈ working.dag.blocks ↔ h = block.hash ∨ h ∈ s.dag.blocks := by
    intro h
    rw [hinserted.blocks, TreeMap.mem_insert]
  have hlinked := hinv.linked.insert hinv.graph hinserted hfresh hstored
  have hgraph := hinv.graph.insert hinserted.blocks hgenesis hfresh hne hstored
  obtain ⟨rank, hbound, hrank⟩ := hgraph.ranked
  -- every tip is scored
  obtain ⟨scores, hscores⟩ := @tipScores_ok working working.dag.tips.toList (by
    intro h hh
    have hblock := ((hlinked.mem_tips h).mp (Std.ExtTreeSet.mem_toList.mp hh)).1
    refine ⟨hblock, ?_⟩
    rw [hinserted.blueWork, TreeMap.mem_insert]
    exact ((hmem h).mp hblock).imp_right hinv.mem_blueWork)
  have htip : calculateSelectedTipV1 working =
      .ok ((maxBy compareSelectionScoresV1 scores).map SelectionScoreV1.hash) := by
    rw [calculateSelectedTipV1, hscores]
    rfl
  -- the chain below the selected tip is finite
  have hold : ∀ p x, ParentOf s p x → rank p < rank x := by
    intro p x hpx
    exact hrank p x ((parentOf_insert_iff hinserted.blocks hfresh p x).mpr (.inr hpx))
  have hranked : SelectedParentsRanked working rank := by
    intro h hh
    rw [hinserted.selectedParents, TreeMap.getElem?_insert]
    rcases (hmem h).mp hh with rfl | hh
    · rw [if_pos rfl]
      refine ⟨_, rfl, fun p hp => ⟨(hmem p).mpr (.inr (hstored p (hparent p hp))), ?_⟩⟩
      exact hrank p block.hash ((parentOf_insert_iff hinserted.blocks hfresh p _).mpr
        (.inl ⟨rfl, hparent p hp⟩))
    · have hneq : h ≠ block.hash := fun heq => hfresh (heq ▸ hh)
      rw [if_neg hneq]
      obtain ⟨parent, hget, hbelow⟩ := hinv.selectedParentsRanked hold h hh
      exact ⟨parent, hget, fun p hp => ⟨(hmem p).mpr (.inr (hbelow p hp).1), (hbelow p hp).2⟩⟩
  obtain ⟨chain, hchain⟩ := selectedChainFrom_ok hranked (working.dag.blocks.size + 1)
    ((maxBy compareSelectionScoresV1 scores).map SelectionScoreV1.hash) ∅ (by
      intro h hh
      have htips := (calculateSelectedTipV1_spec htip).2 h hh
      have hblock := ((hlinked.mem_tips h).mp htips).1
      have hlt := hbound h hblock
      exact ⟨hblock, by omega, fun x hx => absurd hx Std.ExtTreeSet.not_mem_empty⟩)
  have hrebuild : rebuildSelectedChainV1 working
      ((maxBy compareSelectionScoresV1 scores).map SelectionScoreV1.hash) = .ok chain.reverse := by
    rw [rebuildSelectedChainV1, hchain]
    rfl
  exact ⟨⟨c, _, chain.reverse⟩, _, rfl, commit_eq_ok_iff.mpr ⟨hidentity, hinv.verifyGenesis_ok h0,
    hfresh, hshape, hne, hhash, hheight, hclass, hscore, htip, hrebuild, rfl⟩⟩

/-! ## Parts of a run -/

/-- Validation of a candidate depends on its past only. -/
theorem AgreeOn.validateMetadataCandidate_ok {D : Hash → Prop} (hagree : AgreeOn D s t)
    (hparents : ∀ p ∈ block.header.parents, D p) (hfresh : block.hash ∉ t.dag.blocks)
    (hvalid : validateMetadataCandidate block s identity = .ok c) :
    validateMetadataCandidate block t identity = .ok c := by
  obtain ⟨_, hshape, hne, hhash, hheight, hclass, hscore⟩ :=
    validateMetadataCandidate_eq_ok.mp hvalid
  refine validateMetadataCandidate_eq_ok.mpr ⟨hfresh, hshape, hne, hhash, ?_, ?_, hscore⟩
  · rw [← expectedHeight_eq hagree hparents, hheight]
  · rw [← hagree.classifyMergeSetV1_eq hparents, hclass]

omit [Crypto] in
/-- The identity check of a commit reads the chain id and the genesis hash only. -/
theorem verifyIdentity_congr (hchain : t.chainId = s.chainId)
    (hgenesis : t.dag.genesisHash = s.dag.genesisHash) :
    verifyActivatedV2MetadataIdentity t identity =
      verifyActivatedV2MetadataIdentity s identity := by
  rw [verifyActivatedV2MetadataIdentity, verifyActivatedV2MetadataIdentity, hchain, hgenesis]

omit [Crypto] in
/-- The only block of a genesis state. -/
theorem GenesisDag.mem_blocks (h0 : GenesisDag s) {h : Hash} :
    h ∈ s.dag.blocks ↔ h = s.dag.genesisHash := by
  obtain ⟨genesis, hblocks, _⟩ := h0.blocks
  rw [hblocks, TreeMap.mem_insert]
  simp

/-- A run and a run of some of its blocks store the same blocks in the part. -/
theorem CommitRun.samePast {part : List Block} {D : Hash → Prop} (h0 : IsGenesisState s0)
    (hs : CommitRun s0 blocks s) (ht : CommitRun s0 part t)
    (hpart : ∀ b, b ∈ part ↔ b ∈ blocks ∧ D b.hash) (hclosed : ∀ p c, D c → ParentOf s p c → D p) :
    SamePast (fun h => h ∈ s.dag.blocks ∧ (D h ∨ h = s0.dag.genesisHash)) s t := by
  have hinv := hs.invariant h0
  refine ⟨fun h hh => hh.1, fun h hh => Option.ext fun b => ?_, fun p c hc hpc => ?_⟩
  · rw [hs.getElem?_blocks, ht.getElem?_blocks, hpart]
    rcases hh.2 with hD | rfl
    · constructor
      · rintro (hb | ⟨hb, rfl⟩)
        · exact .inl hb
        · exact .inr ⟨⟨hb, hD⟩, rfl⟩
      · rintro (hb | ⟨⟨hb, _⟩, hhash⟩)
        · exact .inl hb
        · exact .inr ⟨hb, hhash⟩
    · -- the genesis block is stored from the start
      obtain ⟨g, hg⟩ := (TreeMap.mem_iff _ _).mp (h0.genesisDag.mem_blocks.mpr rfl)
      have hsg := (hs.getElem?_blocks _ g).mpr (.inl hg)
      have htg := (ht.getElem?_blocks _ g).mpr (.inl hg)
      rw [← hpart, ← hs.getElem?_blocks, ← ht.getElem?_blocks, hsg, htg]
  · refine ⟨hinv.graph.parent_mem p c hpc, .inl ?_⟩
    rcases hc.2 with hD | rfl
    · exact hclosed p c hD hpc
    · obtain ⟨b, hb, hp⟩ := hpc
      rw [← hinv.genesisHash_eq] at hb
      rw [hinv.graph.genesis_parents b hb] at hp
      exact absurd hp List.not_mem_nil

/-- The blocks of a run that lie in a set closed under parents can be committed alone. -/
theorem CommitRun.restrict (h0 : IsGenesisState s0) (hs : CommitRun s0 blocks s) (D : Hash → Prop)
    [DecidablePred D] (hclosed : ∀ p c, D c → ParentOf s p c → D p) :
    ∃ t, CommitRun s0 (blocks.filter fun b => D b.hash) t := by
  induction hs with
  | genesis => exact ⟨s0, .genesis⟩
  | @commit blocks s s' b identity out hrun hcommit ih =>
    have hstep := commit_eq_ok_iff.mp hcommit
    have hinv := hrun.invariant h0
    have hparent := parentOf_insert_iff hstep.inserted.blocks hstep.fresh
    have hclosed' : ∀ p c, D c → ParentOf s p c → D p := fun p c hc hpc =>
      hclosed p c hc ((hparent p c).mpr (.inr hpc))
    obtain ⟨t, ht⟩ := ih hclosed'
    have htinv := ht.invariant h0
    rw [List.filter_append]
    by_cases hD : D b.hash
    · have hsame := hrun.samePast h0 ht (by simp) hclosed'
      have hparents : ∀ p ∈ b.header.parents,
          p ∈ s.dag.blocks ∧ (D p ∨ p = s0.dag.genesisHash) := by
        intro p hp
        exact ⟨hstep.parents_mem p hp,
          .inl (hclosed p b.hash hD ((hparent p b.hash).mpr (.inl ⟨rfl, hp⟩)))⟩
      have hfresh : b.hash ∉ t.dag.blocks := by
        intro hmem
        obtain ⟨b', hb'⟩ := (TreeMap.mem_iff _ _).mp hmem
        refine hstep.fresh ((TreeMap.mem_iff _ _).mpr ⟨b', (hrun.getElem?_blocks _ _).mpr ?_⟩)
        refine ((ht.getElem?_blocks _ _).mp hb').imp_right fun hin => ⟨?_, hin.2⟩
        exact (List.mem_filter.mp hin.1).1
      have hvalid := (hsame.agreeOn hinv htinv).validateMetadataCandidate_ok hparents hfresh
        (validateMetadataCandidate_eq_ok.mpr ⟨hstep.fresh, hstep.shape, hstep.parents_ne,
          hstep.hash_eq, hstep.height, hstep.classified, hstep.blueScore⟩)
      have hidentity : verifyActivatedV2MetadataIdentity t identity = .ok () := by
        rw [verifyIdentity_congr (htinv.chainId_eq.trans hinv.chainId_eq.symm)
          (htinv.genesisHash_eq.trans hinv.genesisHash_eq.symm), hstep.identity_ok]
      obtain ⟨out', t', _, hok⟩ := htinv.commit_ok h0.genesisDag hidentity hvalid
      exact ⟨t', by simpa [hD] using ht.commit hok⟩
    · exact ⟨t, by simpa [hD] using ht⟩

end

end PulseDag
