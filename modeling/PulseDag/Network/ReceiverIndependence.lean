import PulseDag.Ghostdag.OrderTotality
import PulseDag.Ghostdag.Progress
import PulseDag.Ledger.Supply
import PulseDag.Lib.Simulation
import PulseDag.Network.Context

/-!
# A candidate is judged by its past

Two receivers that hold the past of a block cut their states down to the same DAG, whatever else
they have received. The one trace that is left is whether the genesis block has a merge set: the
first commit adds an empty one, and the commit of the candidate does the same. From there on both
validations are one computation, up to the last step, which looks at the receiver's own DAG and
cannot fail.
-/

namespace PulseDag

/-! ## The common past -/

/-- Both states hold the past of the block, and neither holds the block. -/
structure SharedPast (block : Block) (s t : ChainState) : Prop where
  parents_mem : ∀ p ∈ block.header.parents, p ∈ s.dag.blocks
  blocks_eq : ∀ h, InPast s block.header.parents h → s.dag.blocks[h]? = t.dag.blocks[h]?
  fresh_left : block.hash ∉ s.dag.blocks
  fresh_right : block.hash ∉ t.dag.blocks

/-- The states are equal, except that an empty merge set of the genesis block may be missing in
one of them. -/
structure SameButGenesis (s t : ChainState) : Prop where
  frame : s = { t with dag := { t.dag with
    mergeSetBlues := s.dag.mergeSetBlues, mergeSetReds := s.dag.mergeSetReds } }
  blues : s.dag.mergeSetBlues.insertIfNew t.dag.genesisHash [] =
    t.dag.mergeSetBlues.insertIfNew t.dag.genesisHash []
  reds : s.dag.mergeSetReds.insertIfNew t.dag.genesisHash [] =
    t.dag.mergeSetReds.insertIfNew t.dag.genesisHash []

variable {past : TreeSet Hash}

/-- The candidate past is the past of the parents. -/
theorem candidatePastHashes_spec {block : Block} {s : ChainState}
    (h : candidatePastHashes block s = .ok past) (x : Hash) :
    x ∈ past ↔ InPast s block.header.parents x := by
  simp only [candidatePastHashes, ok_iff] at h
  obtain ⟨result, hrun, -, -, rfl⟩ := h
  rw [(traverse_ancestors_spec hrun).1 x]
  simp only [Std.ExtTreeSet.mem_ofList, List.contains_iff_mem]
  rfl

section

variable [Crypto] {s0 s t : ChainState} {block : Block}

/-- A shared past has the same blocks. -/
theorem SharedPast.samePast (h : SharedPast block s t) (hs : DagInvariant s0 s) :
    SamePast (InPast s block.header.parents) s t :=
  .of_ancestors hs.graph h.parents_mem fun a p hp ha => h.blocks_eq a ⟨p, hp, ha⟩

/-- Both receivers collect the same past. -/
theorem candidatePastHashes_eq (h : SharedPast block s t) (hs : DagInvariant s0 s)
    (ht : DagInvariant s0 t) : candidatePastHashes block s = candidatePastHashes block t := by
  have hsame := h.samePast hs
  have hgenesis : s.dag.genesisHash = t.dag.genesisHash := by
    rw [hs.genesisHash_eq, ht.genesisHash_eq]
  simp only [candidatePastHashes, hgenesis]
  rw [traverse_congr (InPast s block.header.parents)
    (fun x hx => (hsame.agreeOn hs ht).parentsOf hx) ?_ _ ?_]
  · intro x hx parents hparents y hy
    obtain ⟨b, hb, rfl⟩ := Option.map_eq_some_iff.mp hparents
    exact hsame.parents y x hx ⟨b, hb, hy⟩
  · intro x hx
    rw [Std.ExtTreeSet.mem_ofList, List.contains_iff_mem] at hx
    exact ⟨x, hx, Ancestor.refl s x⟩

/-! ## The projection -/

section

omit [Crypto]

/-- The DAG with other merge sets and another selected chain. -/
def overlay (dag : DagState) (blues reds : TreeMap Hash (List Hash)) (chain : List Hash) :
    DagState :=
  { dag with mergeSetBlues := blues, mergeSetReds := reds, selectedChain := chain }

/-- Relinking a block neither reads nor changes what an overlay replaces. -/
theorem relinkBlock_overlay (past : TreeSet Hash) (dag : DagState) (accepted : Block)
    (blues reds : TreeMap Hash (List Hash)) (chain : List Hash) :
    Agree (fun a b => a = overlay b blues reds chain)
      (relinkBlock past (overlay dag blues reds chain) accepted)
        (relinkBlock past dag accepted) := by
  refine agree_foldlM (R := fun _ a b => a = overlay b blues reds chain) ?_ rfl
  rintro parent rest _ dag rfl
  exact (agree_self (R := fun _ _ => True) fun _ _ => trivial).bind fun _ _ _ _ _ => agree_ok rfl

/-- Relinking does not read the overlay. -/
theorem relinkBlocks_overlay (past : TreeSet Hash) (dag : DagState) (accepted : List Block)
    (blues reds : TreeMap Hash (List Hash)) (chain : List Hash) :
    Agree (fun a b => a = overlay b blues reds chain)
      (accepted.foldlM (relinkBlock past) (overlay dag blues reds chain))
      (accepted.foldlM (relinkBlock past) dag) := by
  refine agree_foldlM (R := fun _ a b => a = overlay b blues reds chain) ?_ rfl
  rintro block rest _ dag rfl
  exact relinkBlock_overlay past dag block blues reds chain

/-- Relinking changes tips, children and the greatest height only. -/
theorem relinkBlocks_frame {dag dag' : DagState} {accepted : List Block}
    (h : accepted.foldlM (relinkBlock past) dag = .ok dag') :
    dag' = { dag with
      tips := dag'.tips, children := dag'.children, bestHeight := dag'.bestHeight } := by
  refine foldlM_induction (P := fun middle => middle = { dag with
    tips := middle.tips, children := middle.children, bestHeight := middle.bestHeight })
    (fun before block after _ hbefore hstep => ?_) rfl h
  refine foldlM_induction (P := fun middle => middle = { dag with
    tips := middle.tips, children := middle.children, bestHeight := middle.bestHeight })
    (fun middle parent next _ hmiddle hlink => ?_) ?_ hstep
  · simp only [ok_iff] at hlink
    obtain ⟨-, -, rfl⟩ := hlink
    rw [hmiddle]
    rfl
  · rw [hbefore]

/-- Retained entries depend on the kept keys. -/
theorem retainKeys_congr {α : Type} {m m' : TreeMap Hash α} {keys : TreeSet Hash}
    (h : ∀ k ∈ keys, m[k]? = m'[k]?) : retainKeys m keys = retainKeys m' keys := by
  refine Std.ExtTreeMap.ext_getElem? fun k => ?_
  rw [getElem?_retainKeys, getElem?_retainKeys]
  split
  · exact h k ‹_›
  · rfl

end

/-- The merge set of a stored block lies below it. -/
theorem DagInvariant.ancestor_of_mergeMember (hs : DagInvariant s0 s) (h0 : GenesisDag s0)
    {c x : Hash} (hc : c ∈ s.dag.blocks) (hx : x ∈ mergeMembers s c) : Ancestor s x c := by
  by_cases hg : c = s.dag.genesisHash
  · rw [hg, hs.mergeMembers_genesis h0] at hx
    exact absurd hx List.not_mem_nil
  · obtain ⟨b, hb⟩ := (TreeMap.mem_iff _ _).mp hc
    obtain ⟨p, -, hp, -⟩ := hs.mergeMembers_spec hb hg
    exact (hs.ancestor_iff hc hp).mpr (.inr (.inl hx))

/-- The checks of the projection pass in a reachable state. -/
theorem DagInvariant.projectionChecks_ok (hs : DagInvariant s0 s) (h0 : GenesisDag s0)
    (hpast : candidatePastHashes block s = .ok past) (hstored : ∀ x ∈ past, x ∈ s.dag.blocks) :
    ((retainPast s.dag past).mergeSetBlues.toList ++
      (retainPast s.dag past).mergeSetReds.toList).forM
        (checkMergeSetInPast past) = .ok ⟨⟩ ∧
      (retainPast s.dag past).selectedParents.toList.forM (checkSelectedParentInPast past) =
      .ok ⟨⟩ := by
  have hclosed : ∀ c ∈ past, ∀ x, Ancestor s x c → x ∈ past := by
    intro c hc x hx
    rw [candidatePastHashes_spec hpast] at hc ⊢
    obtain ⟨p, hp, hanc⟩ := hc
    exact ⟨p, hp, hx.trans hanc⟩
  have hsets : ∀ c ∈ past, ∀ l : List Hash, (∀ x ∈ l, x ∈ mergeMembers s c) →
      checkMergeSetInPast past (c, l) = .ok ⟨⟩ := by
    intro c hc l hl
    have hnone : l.find? (fun hash => hash ∉ past) = none := by
      rw [List.find?_eq_none]
      intro x hx
      simpa using hclosed c hc x (hs.ancestor_of_mergeMember h0 (hstored c hc) (hl x hx))
    rw [checkMergeSetInPast, hnone]
  constructor
  · rw [forM_eq_ok]
    rintro ⟨c, l⟩ hmem
    rcases List.mem_append.mp hmem with hmem | hmem
    all_goals
      rw [TreeMap.mem_toList, retainPast, getElem?_retainKeys] at hmem
      split at hmem
      · refine hsets c ‹_› l fun x hx => ?_
        simp [mergeMembers, bluesOf, redsOf, hmem, hx]
      · cases hmem
  · rw [forM_eq_ok]
    rintro ⟨c, parent⟩ hmem
    rw [TreeMap.mem_toList, retainPast, getElem?_retainKeys] at hmem
    split at hmem
    · rename_i hc
      rw [checkSelectedParentInPast, ensure_pos]
      rintro p rfl
      refine hclosed c hc p ?_
      exact (hs.ancestor_iff (hstored c hc) hmem).mpr (.inr (.inr (Ancestor.refl s p)))
    · cases hmem

omit [Crypto] in
/-- An entry after the default for genesis. -/
theorem getElem?_insertIfNew_getD (m : TreeMap Hash (List Hash)) (genesis h : Hash) :
    (m.insertIfNew genesis [])[h]? = if h = genesis then some (m[genesis]?.getD []) else m[h]? := by
  rw [Std.ExtTreeMap.getElem?_insertIfNew]
  simp only [Std.compare_eq_iff_eq]
  by_cases hh : h = genesis
  · subst hh
    by_cases hmem : h ∈ m
    · simp [hmem]
    · simp [hmem]
  · rw [if_neg (fun hand => hh hand.1.symm), if_neg hh]

/-- The retained merge sets are the same once the genesis block has one. -/
theorem SharedPast.mergeSets_eq (h : SharedPast block s t) (hs : DagInvariant s0 s)
    (ht : DagInvariant s0 t) (h0 : GenesisDag s0)
    (hpast : ∀ x ∈ past, InPast s block.header.parents x) :
    (retainPast s.dag past).mergeSetBlues.insertIfNew s0.dag.genesisHash [] =
        (retainPast t.dag past).mergeSetBlues.insertIfNew s0.dag.genesisHash [] ∧
      (retainPast s.dag past).mergeSetReds.insertIfNew s0.dag.genesisHash [] =
        (retainPast t.dag past).mergeSetReds.insertIfNew s0.dag.genesisHash [] := by
  have hgenesis : ∀ {u : ChainState}, DagInvariant s0 u →
      u.dag.mergeSetBlues[s0.dag.genesisHash]?.getD [] = [] ∧
        u.dag.mergeSetReds[s0.dag.genesisHash]?.getD [] = [] := by
    intro u hu
    have hnil := hu.mergeMembers_genesis h0
    rw [hu.genesisHash_eq] at hnil
    exact List.append_eq_nil_iff.mp hnil
  have hsame := h.samePast hs
  constructor
  all_goals
    refine Std.ExtTreeMap.ext_getElem? fun k => ?_
    simp only [retainPast, getElem?_insertIfNew_getD, getElem?_retainKeys]
    by_cases hk : k = s0.dag.genesisHash
    · rw [if_pos hk, if_pos hk]
      split <;> simp [hgenesis hs, hgenesis ht]
    · rw [if_neg hk, if_neg hk]
      split
      · obtain ⟨c, hc, hc'⟩ := hsame.metadata_eq hs ht (hpast k ‹_›) hk
        simp only [hc.blues, hc'.blues, hc.reds, hc'.reds]
      · rfl

/-- The retained DAGs differ in what an overlay replaces. -/
theorem SharedPast.retainPast_eq (h : SharedPast block s t) (hs : DagInvariant s0 s)
    (ht : DagInvariant s0 t) (hpast : ∀ x ∈ past, InPast s block.header.parents x) :
    retainPast s.dag past = overlay (retainPast t.dag past) (retainPast s.dag past).mergeSetBlues
      (retainPast s.dag past).mergeSetReds s.dag.selectedChain := by
  have hsame := h.samePast hs
  have hblocks : retainKeys s.dag.blocks past = retainKeys t.dag.blocks past :=
    retainKeys_congr fun k hk => hsame.blocks k (hpast k hk)
  have hparents : retainKeys s.dag.selectedParents past = retainKeys t.dag.selectedParents past :=
    retainKeys_congr fun k hk => hsame.selectedParents_eq hs ht (hpast k hk)
  have hwork : retainKeys s.dag.blueWork past = retainKeys t.dag.blueWork past :=
    retainKeys_congr fun k hk => (hsame.agreeOn hs ht).blueWork k (hpast k hk)
  have hdiagnostics : s.dag.mergeSetDiagnostics = t.dag.mergeSetDiagnostics := by
    rw [hs.frame, ht.frame]
  have hk : s.dag.mergeSetK = t.dag.mergeSetK := by rw [hs.mergeSetK, ht.mergeSetK]
  simp only [retainPast, overlay, DagState.mk.injEq, hblocks, hparents, hwork, hdiagnostics, hk,
    true_and]
  refine ⟨?_, ?_, ?_, ?_, ?_, ?_, ?_, ?_, ?_, ?_⟩
  all_goals rw [hs.frame, ht.frame]

/-- Two receivers of the past of a block cut their states down to the same state. -/
theorem candidatePastProjection_agrees (h : SharedPast block s t) (hs : DagInvariant s0 s)
    (ht : DagInvariant s0 t) (h0 : GenesisDag s0) :
    Agree SameButGenesis (candidatePastProjection block s) (candidatePastProjection block t) := by
  have hhashes := candidatePastHashes_eq h hs ht
  unfold candidatePastProjection
  rw [hhashes]
  cases hpast : candidatePastHashes block t with
  | error e => exact agree_error e e
  | ok past =>
    have hpast' := hhashes.trans hpast
    have hbelow : ∀ x ∈ past, InPast s block.header.parents x := fun x hx =>
      (candidatePastHashes_spec hpast' x).mp hx
    have hsame := h.samePast hs
    have hstored : ∀ x ∈ past, x ∈ s.dag.blocks := fun x hx => hsame.mem x (hbelow x hx)
    have hstored' : ∀ x ∈ past, x ∈ t.dag.blocks := fun x hx =>
      (TreeMap.mem_congr (hsame.blocks x (hbelow x hx))).mp (hstored x hx)
    obtain ⟨hsets, hselected⟩ := hs.projectionChecks_ok h0 hpast' hstored
    obtain ⟨hsets', hselected'⟩ := ht.projectionChecks_ok h0 hpast hstored'
    simp only [ok_bind, hsets, hselected, hsets', hselected']
    have hretained := h.retainPast_eq hs ht hbelow
    have hblocks : (retainPast s.dag past).blocks = (retainPast t.dag past).blocks := by
      rw [hretained]
      rfl
    have hrelink := relinkBlocks_overlay past (retainPast t.dag past)
      ((retainPast t.dag past).blocks.toList.map Prod.snd) (retainPast s.dag past).mergeSetBlues
      (retainPast s.dag past).mergeSetReds s.dag.selectedChain
    rw [← hretained] at hrelink
    rw [hblocks]
    refine hrelink.bind fun left right hleft hright hoverlay => ?_
    have hrest : ∀ dag : DagState, ({ s with dag := dag } : ChainState) =
        { t with dag := dag } := by
      intro dag
      rw [hs.frame, ht.frame]
    have htip : calculateSelectedTipV1 { s with dag := left } =
        calculateSelectedTipV1 { t with dag := right } := by
      subst hoverlay
      exact calculateSelectedTipV1_congr rfl rfl rfl
    have hchain : ∀ tip, rebuildSelectedChainV1 { s with dag := left } tip =
        rebuildSelectedChainV1 { t with dag := right } tip := by
      subst hoverlay
      exact rebuildSelectedChainV1_congr rfl rfl
    rw [htip]
    refine (agree_self (R := Eq) fun _ _ => rfl).bind ?_
    rintro tip _ - - rfl
    rw [hchain]
    refine (agree_self (R := Eq) fun _ _ => rfl).bind ?_
    rintro chain _ - - rfl
    have hframe := relinkBlocks_frame hright
    have hgenesis : right.genesisHash = s0.dag.genesisHash := by
      rw [hframe]
      exact ht.genesisHash_eq
    obtain ⟨hblues, hreds⟩ := h.mergeSets_eq hs ht h0 hbelow
    subst hoverlay
    refine agree_ok ⟨?_, ?_, ?_⟩
    · rw [hrest]
      rfl
    · have hkept : right.mergeSetBlues = (retainPast t.dag past).mergeSetBlues := by rw [hframe]
      show (retainPast s.dag past).mergeSetBlues.insertIfNew right.genesisHash [] =
        right.mergeSetBlues.insertIfNew right.genesisHash []
      rw [hgenesis, hkept, hblues]
    · have hkept : right.mergeSetReds = (retainPast t.dag past).mergeSetReds := by rw [hframe]
      show (retainPast s.dag past).mergeSetReds.insertIfNew right.genesisHash [] =
        right.mergeSetReds.insertIfNew right.genesisHash []
      rw [hgenesis, hkept, hreds]

/-! ## The validation -/

namespace SameButGenesis

variable {p q : ChainState} {identity : ProtocolActivationIdentity}

section

omit [Crypto]

/-- The blocks are the same. -/
theorem blocks (h : SameButGenesis p q) : p.dag.blocks = q.dag.blocks := by rw [h.frame]

/-- The chain is the same. -/
theorem chainId (h : SameButGenesis p q) : p.chainId = q.chainId := by rw [h.frame]

/-- The genesis hash is the same. -/
theorem genesisHash (h : SameButGenesis p q) : p.dag.genesisHash = q.dag.genesisHash := by
  rw [h.frame]

/-- The selected parents are the same. -/
theorem selectedParents (h : SameButGenesis p q) :
    p.dag.selectedParents = q.dag.selectedParents := by
  rw [h.frame]

/-- The states agree on every block. -/
theorem agreeOn (h : SameButGenesis p q) : AgreeOn (fun _ => True) p q where
  blocks k _ := by rw [h.blocks]
  blueWork k _ := by rw [h.frame]
  parents _ _ _ _ _ _ := trivial

/-- The bounds from the parents are the same. -/
theorem parentBounds (h : SameButGenesis p q) (parents : List Hash) (height timestamp : UInt64) :
    parentBounds p parents height timestamp = PulseDag.parentBounds q parents height timestamp := by
  induction parents generalizing height timestamp with
  | nil => rfl
  | cons parent rest ih => simp only [PulseDag.parentBounds, h.blocks, ih]

/-- The recent blocks are the same. -/
theorem recentBlocksFrom (h : SameButGenesis p q) (limit fuel : ℕ) (cursor : Option Hash)
    (recent : List Block) (seen : Bool) :
    recentBlocksFrom p limit fuel cursor recent seen =
      PulseDag.recentBlocksFrom q limit fuel cursor recent seen := by
  induction fuel generalizing cursor recent seen with
  | zero => rfl
  | succ fuel ih =>
    cases cursor with
    | none => rfl
    | some hash => simp only [PulseDag.recentBlocksFrom, h.blocks, h.selectedParents, ih]

/-- The expected difficulty is the same. -/
theorem expectedDifficultyForParent (h : SameButGenesis p q) (parent : Hash) :
    expectedDifficultyForParent p parent = PulseDag.expectedDifficultyForParent q parent := by
  simp only [PulseDag.expectedDifficultyForParent, consensusRecentBlocksFromParent, h.blocks,
    h.recentBlocksFrom]

/-- The path is the same. -/
theorem resolvePowValidationPath (h : SameButGenesis p q) :
    resolvePowValidationPath identity p = PulseDag.resolvePowValidationPath identity q := by
  simp only [PulseDag.resolvePowValidationPath, h.chainId, h.genesisHash]

end

/-- The verdict on the envelope is the same. -/
theorem validateContextEnvelope (h : SameButGenesis p q) (clock : Clock) :
    validateContextEnvelope clock block p identity =
      PulseDag.validateContextEnvelope clock block q identity := by
  have hclassified : classifyMergeSetV1 block p = classifyMergeSetV1 block q :=
    h.agreeOn.classifyMergeSetV1_eq fun _ _ => trivial
  simp only [PulseDag.validateContextEnvelope, validatePowForProtocol, evaluatePowForProtocol,
    h.resolvePowValidationPath, h.blocks, h.parentBounds, hclassified,
    h.expectedDifficultyForParent]

/-- The commit of the candidate gives the genesis block its merge set in both states. -/
theorem commit (h : SameButGenesis p q) :
    commitGhostdagV1MetadataForActivatedV2 block p identity =
      commitGhostdagV1MetadataForActivatedV2 block q identity := by
  have hcandidate : validateMetadataCandidate block p identity =
      validateMetadataCandidate block q identity := by
    simp only [validateMetadataCandidate, h.blocks, expectedHeight_eq h.agreeOn fun _ _ => trivial,
      h.agreeOn.classifyMergeSetV1_eq fun _ _ => trivial]
  have hinsert : ∀ c, insertBlockMetadata block p.dag c = insertBlockMetadata block q.dag c := by
    intro c
    have hgenesis : ({ p.dag with
        mergeSetBlues := p.dag.mergeSetBlues.insertIfNew p.dag.genesisHash []
        mergeSetReds := p.dag.mergeSetReds.insertIfNew p.dag.genesisHash [] } : DagState) =
        { q.dag with
          mergeSetBlues := q.dag.mergeSetBlues.insertIfNew q.dag.genesisHash []
          mergeSetReds := q.dag.mergeSetReds.insertIfNew q.dag.genesisHash [] } := by
      rw [h.genesisHash, h.blues, h.reds, h.frame]
    simp only [insertBlockMetadata, hgenesis]
  have hrest : ∀ dag : DagState, ({ p with dag := dag } : ChainState) = { q with dag := dag } := by
    intro dag
    rw [h.frame]
  have hmetadata : verifyActivatedV2GenesisMetadata p = verifyActivatedV2GenesisMetadata q := by
    have hget : ∀ m : TreeMap Hash (List Hash), m[q.dag.genesisHash]?.getD [] =
        (m.insertIfNew q.dag.genesisHash [])[q.dag.genesisHash]?.getD [] := by
      intro m
      rw [getElem?_insertIfNew_getD, if_pos rfl, Option.getD_some]
    simp only [verifyActivatedV2GenesisMetadata, h.genesisHash]
    rw [hget p.dag.mergeSetBlues, hget p.dag.mergeSetReds, h.blues, h.reds, ← hget, ← hget]
  simp only [commitGhostdagV1MetadataForActivatedV2, hcandidate, hinsert, hmetadata,
    verifyIdentity_congr h.chainId h.genesisHash, hrest]

end SameButGenesis

/-! ## The receiver's own DAG -/

omit [Crypto] in
/-- What a projection keeps. -/
structure Projected (block : Block) (s p : ChainState) (past : TreeSet Hash) : Prop where
  hashes : candidatePastHashes block s = .ok past
  blocks : p.dag.blocks = retainKeys s.dag.blocks past
  blueWork : p.dag.blueWork = retainKeys s.dag.blueWork past
  chainId : p.chainId = s.chainId
  genesisHash : p.dag.genesisHash = s.dag.genesisHash
  genesis_mem : s.dag.genesisHash ∈ past

omit [Crypto] in
/-- A projection is one to some past. -/
theorem candidatePastProjection_projected {p : ChainState}
    (h : candidatePastProjection block s = .ok p) : ∃ past, Projected block s p past := by
  simp only [candidatePastProjection, bind_eq_ok, pure_eq_ok, Except.ok.injEq] at h
  obtain ⟨past, hpast, -, -, -, -, relinked, hrelinked, tip, -, chain, -, rfl⟩ := h
  have hframe := relinkBlocks_frame hrelinked
  refine ⟨past, hpast, by rw [hframe]; rfl, by rw [hframe]; rfl, rfl, by rw [hframe]; rfl, ?_⟩
  simp only [candidatePastHashes, bind_eq_ok, ensure_eq_ok, pure_eq_ok, Except.ok.injEq] at hpast
  obtain ⟨result, -, -, hgenesis, rfl⟩ := hpast
  exact hgenesis

omit [Crypto] in
/-- The projection and the state agree on the past. -/
theorem Projected.agreeOn {p : ChainState} (h : Projected block s p past) :
    AgreeOn (InPast s block.header.parents) p s where
  blocks k hk := by
    rw [h.blocks, getElem?_retainKeys, if_pos ((candidatePastHashes_spec h.hashes k).mpr hk)]
  blueWork k hk := by
    rw [h.blueWork, getElem?_retainKeys, if_pos ((candidatePastHashes_spec h.hashes k).mpr hk)]
  parents k hk b hb parent hparent := by
    rw [h.blocks, getElem?_retainKeys, if_pos ((candidatePastHashes_spec h.hashes k).mpr hk)] at hb
    obtain ⟨top, htop, hanc⟩ := hk
    exact ⟨top, htop, (ParentOf.ancestor ⟨b, hb, hparent⟩).trans hanc⟩

/-- A block that is valid in its past gets a disposition. -/
theorem liveDisposition_ok {p context materialized : ChainState}
    {identity : ProtocolActivationIdentity} {out : ActivatedV2MetadataCommit}
    (h0 : IsGenesisState s0) (hs : Built s0 s) (hfresh : block.hash ∉ s.dag.blocks)
    (hprojected : Projected block s p past)
    (hcommit : commitGhostdagV1MetadataForActivatedV2 block p identity = .ok (out, context))
    (hmaterialized : materializeAuthoritativeStateV2 context = .ok materialized) :
    ∃ disposition, liveDispositionWithMaterializer block s identity
    materializeAuthoritativeStateV2 =
      .ok disposition := by
  obtain ⟨blocks, hrun⟩ := hs
  have hinv := hrun.invariant h0
  have hstep := commit_eq_ok_iff.mp hcommit
  -- the checks of the commit depend on the past only
  have hvalid : validateMetadataCandidate block s identity = .ok out.classification :=
    hprojected.agreeOn.validateMetadataCandidate_ok (fun parent hparent =>
      ⟨parent, hparent, Ancestor.refl s parent⟩) hfresh (validateMetadataCandidate_eq_ok.mpr
        ⟨hstep.fresh, hstep.shape, hstep.parents_ne, hstep.hash_eq, hstep.height, hstep.classified,
          hstep.blueScore⟩)
  have hidentity : verifyActivatedV2MetadataIdentity s identity = .ok () := by
    rw [← hstep.identity_ok]
    exact verifyIdentity_congr hprojected.chainId.symm hprojected.genesisHash.symm
  obtain ⟨out', live, -, hlive⟩ := hinv.commit_ok h0.genesisDag hidentity hvalid
  have hlinv := (hrun.commit hlive).invariant h0
  have hlstep := commit_eq_ok_iff.mp hlive
  have hclassified : GenesisClassified live := by
    refine hlinv.genesisClassified (.inl ?_)
    rintro rfl
    have hmem : block.hash ∈ live.dag.blocks := by
      rw [hlstep.inserted.blocks, TreeMap.mem_insert]
      exact .inl rfl
    rw [h0.genesisDag.mem_blocks, ← hinv.genesisHash_eq] at hmem
    exact hfresh (hmem ▸ hinv.graph.genesis_mem)
  simp only [liveDispositionWithMaterializer, hlive, ok_bind]
  by_cases htips : live.dag.tips.size = 1
  · obtain ⟨_, order, -, -, -, horder⟩ :=
      hlinv.deriveOrderedDagV2_ok h0.genesisDag hclassified htips
    -- the genesis block of the receiver is that of the past
    have hbase : replayBaseStateForGenesis live = replayBaseStateForGenesis context := by
      have hgenesis : context.dag.genesisHash = s.dag.genesisHash := by
        rw [hstep.genesisHash_eq, hprojected.genesisHash]
      have hne : s.dag.genesisHash ≠ block.hash := fun heq => hfresh (heq ▸ hinv.graph.genesis_mem)
      refine replayBaseStateForGenesis_congr ?_ ?_ ?_
      · rw [hlstep.state_eq, hstep.state_eq]
        exact hprojected.chainId.symm
      · rw [hgenesis, hlstep.genesisHash_eq]
      · rw [hgenesis, hlstep.inserted.blocks, hstep.inserted.blocks, TreeMap.getElem?_insert,
          TreeMap.getElem?_insert, if_neg hne, if_neg hne, hprojected.blocks, getElem?_retainKeys,
          if_pos hprojected.genesis_mem]
    obtain ⟨base, hcontext⟩ : ∃ base, replayBaseStateForGenesis context = .ok base := by
      simp only [materializeAuthoritativeStateV2, bind_eq_ok] at hmaterialized
      obtain ⟨replay, hreplay, -⟩ := hmaterialized
      obtain ⟨_, base, -, hbase, -⟩ := rebuildAuthoritativeStateV2_eq_ok hreplay
      exact ⟨base, hbase⟩
    obtain ⟨replay, hreplay, -⟩ := rebuildAuthoritativeStateV2_ok horder (hbase.trans hcontext)
    simp only [horder, materializeAuthoritativeStateV2, hreplay, ok_bind, pure_eq_ok]
    split
    · exact ⟨_, rfl⟩
    · split
      · exact ⟨_, rfl⟩
      · exact ⟨_, rfl⟩
  · obtain ⟨hash, herror⟩ := hlinv.deriveOrderedDagV2_error h0.genesisDag hclassified htips
    simp only [herror]
    exact ⟨_, rfl⟩

/-- Two receivers that hold the past of a block come to the same verdict on it: the projections to
the past are the same, and both validations fail or both succeed with the same selected parent,
digest and state root. -/
theorem validateActivatedV2P2pBlockContext_receiver_independent (h0 : IsGenesisState s0)
    (hs : Built s0 s) (ht : Built s0 t) (h : SharedPast block s t) (clock : Clock)
    (identity : ProtocolActivationIdentity) :
    Agree SameButGenesis (candidatePastProjection block s) (candidatePastProjection block t) ∧
    Agree (fun left right => left.blockHash = right.blockHash ∧
        left.selectedParent = right.selectedParent ∧
        left.orderedDagDigest = right.orderedDagDigest ∧ left.stateRoot = right.stateRoot)
      (validateActivatedV2P2pBlockContext clock block s identity)
      (validateActivatedV2P2pBlockContext clock block t identity) := by
  have hprojection := candidatePastProjection_agrees h (hs.invariant h0) (ht.invariant h0)
    h0.genesisDag
  refine ⟨hprojection, ?_⟩
  simp only [validateActivatedV2P2pBlockContext, validateActivatedV2P2pBlockContextWithMaterializer,
    ensure_pos h.fresh_left, ensure_pos h.fresh_right, ok_bind]
  refine hprojection.bind fun p q hp hq hsame => ?_
  obtain ⟨past, hprojected⟩ := candidatePastProjection_projected hp
  obtain ⟨past', hprojected'⟩ := candidatePastProjection_projected hq
  rw [hsame.validateContextEnvelope, hsame.commit]
  refine (agree_self (R := Eq) fun _ _ => rfl).bind ?_
  rintro selectedParent _ - - rfl
  refine (agree_self (R := Eq) fun _ _ => rfl).bind ?_
  rintro ⟨out, context⟩ _ - hcommit rfl
  refine (agree_self (R := Eq) fun _ _ => rfl).bind ?_
  rintro pre _ - - rfl
  refine (agree_self (R := Eq) fun _ _ => rfl).bind ?_
  rintro _ _ - - -
  refine (agree_self (R := Eq) fun _ _ => rfl).bind ?_
  rintro ordered _ - - rfl
  refine (agree_self (R := Eq) fun _ _ => rfl).bind ?_
  rintro materialized _ - hmaterialized rfl
  rw [mapError_eq_ok] at hmaterialized
  refine (agree_self (R := Eq) fun _ _ => rfl).bind ?_
  rintro _ _ - - -
  refine (agree_self (R := Eq) fun _ _ => rfl).bind ?_
  rintro root _ - - rfl
  refine (agree_self (R := Eq) fun _ _ => rfl).bind ?_
  rintro _ _ - - -
  -- both receivers find a disposition, which may be different
  obtain ⟨left, hleft⟩ := liveDisposition_ok h0 hs h.fresh_left hprojected
    (hsame.commit.trans hcommit) hmaterialized
  obtain ⟨right, hright⟩ := liveDisposition_ok h0 ht h.fresh_right hprojected' hcommit hmaterialized
  rw [hleft, hright, ok_bind, ok_bind]
  exact agree_ok ⟨rfl, rfl, rfl, rfl⟩

omit [Crypto] in
/-- A state holds the past of a block as soon as it holds all blocks of a state that does. -/
theorem SharedPast.of_subset (hgraph : BlockGraph t)
    (hparents : ∀ p ∈ block.header.parents, p ∈ t.dag.blocks)
    (hsubset : ∀ entry ∈ t.dag.blocks.toList, s.dag.blocks[entry.1]? = some entry.2)
    (hfresh : block.hash ∉ s.dag.blocks) (hfresh' : block.hash ∉ t.dag.blocks) :
    SharedPast block s t := by
  have heq : ∀ h ∈ t.dag.blocks, s.dag.blocks[h]? = t.dag.blocks[h]? := by
    intro h hh
    obtain ⟨b, hb⟩ := (TreeMap.mem_iff _ _).mp hh
    rw [hb]
    exact hsubset (h, b) ((TreeMap.mem_toList _ _ _).mpr hb)
  have hstored : ∀ p ∈ block.header.parents, p ∈ s.dag.blocks := fun p hp =>
    (TreeMap.mem_congr (heq p (hparents p hp))).mpr (hparents p hp)
  refine ⟨hstored, ?_, hfresh, hfresh'⟩
  rintro h ⟨p, hp, hanc⟩
  refine heq h ?_
  induction hanc using Relation.ReflTransGen.head_induction_on with
  | refl => exact hparents p hp
  | head hstep _ ih =>
    obtain ⟨b, hb, hmem⟩ := hstep
    exact hgraph.parent_mem _ _ ⟨b, (heq _ ih).symm.trans hb, hmem⟩

/-! ## A concrete candidate -/

/-- A block on stored blocks with the header that a validation asks for: the state root is that of
the block in its own past, whatever root its header commits to. -/
def mineBlock (state : ChainState) (identity : ProtocolActivationIdentity) (parents : List Hash)
    (nonce : UInt64) (transactions : List Transaction) : Except PulseError Block := do
  let parents := parents.insertionSort (· ≤ ·)
  let bounds ← parentBounds state parents 0 0
  let header : BlockHeader :=
    { version := blockHeaderVersionV2, parents := parents, timestamp := bounds.2 + 1,
      difficulty := 0, nonce := nonce, merkleRoot := computeMerkleRoot transactions,
      stateRoot := "", blueScore := 0, height := bounds.1 }
  let classification ← Except.mapError (fun error => invalidContextBlock error.debug)
    (classifyMergeSetV1 ⟨"", header, transactions⟩ state)
  let difficulty := classification.selectedParent.bind (expectedDifficultyForParent state)
  let header :=
    { header with blueScore := classification.blueScore, difficulty := difficulty.getD 0 }
  let draft : Block := ⟨← computeBlockHashV2 header identity.chainId, header, transactions⟩
  let projection ← candidatePastProjection draft state
  let (_, context) ← commitGhostdagV1MetadataForActivatedV2 draft projection identity
  let materialized ← materializeAuthoritativeStateV2 context
  let header := { header with stateRoot := ← materialized.utxo.computeStateRoot }
  pure ⟨← computeBlockHashV2 header identity.chainId, header, transactions⟩

/-- Mine and commit blocks one after another. The parents of a block are given by their positions
among the blocks so far, the genesis block at position 0. -/
def mineAll (identity : ProtocolActivationIdentity) :
    List (List ℕ × UInt64 × List Transaction) → List Block → ChainState →
      Except PulseError (List Block × ChainState)
  | [], blocks, state => .ok (blocks, state)
  | (positions, nonce, transactions) :: rest, blocks, state => do
    let parents := positions.map fun position => ((blocks[position]?).map Block.hash).getD ""
    let block ← mineBlock state identity parents nonce transactions
    let (_, next) ← commitGhostdagV1MetadataForActivatedV2 block state identity
    mineAll identity rest (blocks ++ [block]) next

/-- The protocol identity of the chain `c` with the version 1 genesis block. -/
def sampleIdentity : ProtocolActivationIdentity :=
  .activatedV2 "c" genesisBlock.hash ghostdagV1OrderingVersion

end

/-- A time at which the mined blocks are not in the future. -/
def sampleClock : Clock := ⟨1000, 0⟩

/-- A block on one of two tips. A receiver of both tips defers it, and a receiver of its own past
alone finalises it; the rest of the verdict is the same. -/
theorem validateActivatedV2P2pBlockContext_receiver_independent_sideTip : letI := checksumCrypto
    ∃ s t block left right, Built (initChainState "c") s ∧ Built (initChainState "c") t ∧
      SharedPast block s t ∧
      validateActivatedV2P2pBlockContext sampleClock block s sampleIdentity = .ok left ∧
      validateActivatedV2P2pBlockContext sampleClock block t sampleIdentity = .ok right ∧
      left.disposition = .deferredSideTip ∧ right.disposition = .immediatelyFinalizable ∧
      left.selectedParent = right.selectedParent ∧
      left.orderedDagDigest = right.orderedDagDigest ∧ left.stateRoot = right.stateRoot := by
  let := checksumCrypto
  have hrun : ((mineAll sampleIdentity [([0], 1, [sampleTransaction [] [50] 0 1]),
      ([0], 2, [sampleTransaction [] [50] 0 2])] [genesisBlock] (initChainState "c")).toOption.bind
        fun mined =>
      (commitAll sampleIdentity (mined.1.drop 1) (initChainState "c")).toOption.bind fun s =>
      (commitAll sampleIdentity ((mined.1.drop 1).take 1) (initChainState "c")).toOption.bind
        fun t =>
      (mineBlock t sampleIdentity t.dag.tips.toList 3 [sampleTransaction [] [50] 0 3]).toOption.bind
        fun block =>
      (validateActivatedV2P2pBlockContext sampleClock block s sampleIdentity).toOption.bind
        fun left =>
      (validateActivatedV2P2pBlockContext sampleClock block t sampleIdentity).toOption.map
        fun right =>
        (decide (∀ p ∈ block.header.parents, p ∈ t.dag.blocks),
          decide (∀ entry ∈ t.dag.blocks.toList, s.dag.blocks[entry.1]? = some entry.2),
          decide (block.hash ∉ s.dag.blocks), decide (block.hash ∉ t.dag.blocks),
          left.disposition, right.disposition)) =
      some (true, true, true, true, .deferredSideTip, .immediatelyFinalizable) := by decide +kernel
  simp only [Option.bind_eq_some_iff, Option.map_eq_some_iff, Prod.mk.injEq,
    decide_eq_true_eq] at hrun
  obtain ⟨mined, -, s, hs, t, ht, block, -, left, hleft, right, hright, hparents, hsubset, hfresh,
    hfresh', hdeferred, hfinal⟩ := hrun
  have hs : Built (initChainState "c") s :=
    ⟨_, CommitRun.genesis.of_commitAll (eq_ok_of_toOption hs)⟩
  have ht : Built (initChainState "c") t :=
    ⟨_, CommitRun.genesis.of_commitAll (eq_ok_of_toOption ht)⟩
  have hpast : SharedPast block s t :=
    .of_subset (ht.invariant (.v1 "c")).graph hparents hsubset hfresh hfresh'
  have hleft := eq_ok_of_toOption hleft
  have hright := eq_ok_of_toOption hright
  obtain ⟨-, hverdict⟩ := validateActivatedV2P2pBlockContext_receiver_independent
    (.v1 "c") hs ht hpast sampleClock sampleIdentity
  rw [hleft, hright] at hverdict
  exact ⟨s, t, block, left, right, hs, ht, hpast, hleft, hright, hdeferred, hfinal, hverdict.2⟩

end PulseDag
