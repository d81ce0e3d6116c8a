import PulseDag.Ghostdag.OrderTotality

/-!
# Selection is globally maximal

A block has more blue work than each of its parents, because its selected parent is the preferred
one of them. So the preferred parent is preferred to everything below it, and the preferred tip is
preferred to every stored block. As long as no score saturates, the blue work of a block is its
blue score.
-/

namespace PulseDag

/-! ## The preference order -/

instance : Std.TransCmp compareSelectionScoresV1 :=
  inferInstanceAs (Std.TransCmp (compareLex
    (compareLex (compareOn SelectionScoreV1.blueWork) (compareOn SelectionScoreV1.blueScore))
    (compareLex (compareOn SelectionScoreV1.height)
      fun a b => compareOn SelectionScoreV1.hash b a)))

variable {a b score : SelectionScoreV1} {h p : Hash} {block : Block}
  {scores : List SelectionScoreV1}

/-- More work wins. -/
theorem compareSelectionScoresV1_lt_of_blueWork (h : a.blueWork < b.blueWork) :
    compareSelectionScoresV1 a b = .lt := by
  rw [compareSelectionScoresV1, Nat.compare_eq_lt.mpr h]
  rfl

/-- Scores of different blocks are never tied. -/
theorem compareSelectionScoresV1_ne_eq (h : a.hash ≠ b.hash) :
    compareSelectionScoresV1 a b ≠ .eq := by
  intro heq
  simp only [compareSelectionScoresV1, Ordering.then_eq_eq, Std.compare_eq_iff_eq] at heq
  exact h heq.2.2.symm

/-- Nothing in the list is preferred to its greatest element. -/
theorem maxBy_isLE {α : Type} {cmp : α → α → Ordering} [Std.TransCmp cmp] {l : List α} {best : α}
    (h : maxBy cmp l = some best) : ∀ a ∈ l, (cmp a best).isLE := by
  cases l with
  | nil => simp
  | cons first rest =>
    obtain rfl := Option.some.inj h
    clear h
    induction rest generalizing first with
    | nil =>
      intro a ha
      obtain rfl := List.mem_singleton.mp ha
      exact Std.ReflCmp.isLE_rfl
    | cons item rest ih =>
      rw [List.foldl_cons]
      set next := if cmp first item = .gt then first else item with hnext
      have hfirst : (cmp first next).isLE := by
        rw [hnext]
        split
        · exact Std.ReflCmp.isLE_rfl
        · rename_i hgt
          exact Ordering.isLE_iff_ne_gt.mpr hgt
      have hitem : (cmp item next).isLE := by
        rw [hnext]
        split
        · rename_i hgt
          rw [Std.OrientedCmp.gt_iff_lt] at hgt
          rw [hgt]
          rfl
        · exact Std.ReflCmp.isLE_rfl
      have hbest := ih next next List.mem_cons_self
      rintro a (_ | ⟨_, _ | ⟨_, ha⟩⟩)
      · exact Std.TransCmp.isLE_trans hfirst hbest
      · exact Std.TransCmp.isLE_trans hitem hbest
      · exact ih next a (List.mem_cons_of_mem _ ha)

/-- The score under which a stored block is compared. -/
def ChainState.selectionScore (s : ChainState) (h : Hash) : Option SelectionScoreV1 := do
  let block ← s.dag.blocks[h]?
  let work ← s.dag.blueWork[h]?
  pure ⟨work, block.header.blueScore, block.header.height, h⟩

/-- A block has a score when its work is known. -/
theorem selectionScore_eq_some {s : ChainState} :
    s.selectionScore h = some score ↔ ∃ block work, s.dag.blocks[h]? = some block ∧
      s.dag.blueWork[h]? = some work ∧
      score = ⟨work, block.header.blueScore, block.header.height, h⟩ := by
  simp only [ChainState.selectionScore, bind, pure, Option.bind_eq_some_iff, Option.some.injEq]
  constructor
  · rintro ⟨block, hblock, work, hwork, rfl⟩
    exact ⟨block, work, hblock, hwork, rfl⟩
  · rintro ⟨block, work, hblock, hwork, rfl⟩
    exact ⟨block, hblock, work, hwork, rfl⟩

/-- The score of a block is its own. -/
theorem scoreForKnownBlock_eq_ok {s : ChainState} {missing : Hash → SelectionV2Error}
    (hblock : s.dag.blocks[h]? = some block)
    (hscore : scoreForKnownBlock h block s missing = .ok score) :
    s.selectionScore h = some score := by
  simp only [scoreForKnownBlock, ok_iff] at hscore
  obtain ⟨work, hwork, rfl⟩ := hscore
  exact selectionScore_eq_some.mpr ⟨block, work, hblock, hwork, rfl⟩

/-- The scores of parents are their own. -/
theorem parentScores_selectionScore {s : ChainState} {parents : List Hash} {seen : TreeSet Hash}
    (h : parentScores s parents seen = .ok scores) :
    ∀ score ∈ scores, s.selectionScore score.hash = some score := by
  induction parents generalizing seen scores with
  | nil =>
    obtain rfl : [] = scores := by simpa [parentScores] using h
    simp
  | cons parent rest ih =>
    simp only [parentScores, bind_eq_ok, ensure_eq_ok, okOr_eq_ok, pure_eq_ok] at h
    obtain ⟨-, -, block, hblock, first, hfirst, scores', hrest, hscores⟩ := h
    obtain rfl := Except.ok.inj hscores
    have hknown := scoreForKnownBlock_eq_ok hblock hfirst
    obtain ⟨_, _, _, _, rfl⟩ := selectionScore_eq_some.mp hknown
    rintro score (_ | ⟨_, hscore⟩)
    · exact hknown
    · exact ih hrest score hscore

/-- The scores of tips are their own. -/
theorem tipScores_selectionScore {s : ChainState} {hashes : List Hash}
    (h : tipScores s hashes = .ok scores) :
    ∀ score ∈ scores, s.selectionScore score.hash = some score := by
  induction hashes generalizing scores with
  | nil =>
    obtain rfl : [] = scores := by simpa [tipScores] using h
    simp
  | cons hash rest ih =>
    simp only [tipScores, bind_eq_ok, okOr_eq_ok, pure_eq_ok] at h
    obtain ⟨block, hblock, first, hfirst, scores', hrest, hscores⟩ := h
    obtain rfl := Except.ok.inj hscores
    have hknown := scoreForKnownBlock_eq_ok hblock hfirst
    obtain ⟨_, _, _, _, rfl⟩ := selectionScore_eq_some.mp hknown
    rintro score (_ | ⟨_, hscore⟩)
    · exact hknown
    · exact ih hrest score hscore

/-! ## Maximal blocks -/

/-- The stored block `p` is preferred to the stored block `x`. -/
def PreferredTo (s : ChainState) (p x : Hash) : Prop :=
  ∃ best score, s.selectionScore p = some best ∧ s.selectionScore x = some score ∧
    compareSelectionScoresV1 score best = .lt

/-- `p` is the greatest of some blocks. -/
structure Preferred (s : ChainState) (D : Hash → Prop) (p : Hash) : Prop where
  mem : D p
  preferred : ∀ x, D x → x ≠ p → PreferredTo s p x

/-- Preference is transitive. -/
theorem PreferredTo.trans {s : ChainState} {q x : Hash} (hpq : PreferredTo s p q)
    (hqx : PreferredTo s q x) : PreferredTo s p x := by
  obtain ⟨best, middle, hp, hq, hlt⟩ := hpq
  obtain ⟨middle', score, hq', hx, hlt'⟩ := hqx
  obtain rfl := Option.some.inj (hq.symm.trans hq')
  exact ⟨best, score, hp, hx, Std.TransCmp.lt_trans hlt' hlt⟩

/-- The greatest of the scores belongs to the greatest block. -/
theorem Preferred.of_maxBy {s : ChainState}
    (hscores : ∀ score ∈ scores, s.selectionScore score.hash = some score)
    (hmax : (maxBy compareSelectionScoresV1 scores).map SelectionScoreV1.hash = some p) :
    Preferred s (· ∈ scores.map SelectionScoreV1.hash) p := by
  obtain ⟨best, hbest, rfl⟩ := Option.map_eq_some_iff.mp hmax
  refine ⟨List.mem_map_of_mem (maxBy_mem hbest), fun x hx hne => ?_⟩
  obtain ⟨score, hscore, rfl⟩ := List.mem_map.mp hx
  refine ⟨best, score, hscores best (maxBy_mem hbest), hscores score hscore, ?_⟩
  have hle := maxBy_isLE hbest score hscore
  rcases Ordering.isLE_iff_eq_lt_or_eq_eq.mp hle with hlt | heq
  · exact hlt
  · exact absurd heq (compareSelectionScoresV1_ne_eq hne)

/-- The selected parent is preferred to all parents. -/
theorem calculateSelectedParentV1_preferred {s : ChainState}
    (h : calculateSelectedParentV1 block s = .ok (some p)) :
    Preferred s (· ∈ block.header.parents) p := by
  simp only [calculateSelectedParentV1, ok_iff] at h
  obtain ⟨-, -, scores, hscores, hmax⟩ := h
  rw [← (parentScores_spec hscores).1]
  exact .of_maxBy (parentScores_selectionScore hscores) hmax

/-- The selected tip is preferred to all tips. -/
theorem calculateSelectedTipV1_preferred {s : ChainState} {tip : Hash}
    (h : calculateSelectedTipV1 s = .ok (some tip)) : Preferred s (· ∈ s.dag.tips) tip := by
  simp only [calculateSelectedTipV1, ok_iff] at h
  obtain ⟨scores, hscores, hmax⟩ := h
  have hpreferred := Preferred.of_maxBy (tipScores_selectionScore hscores) hmax
  rw [tipScores_spec hscores] at hpreferred
  simpa only [Std.ExtTreeSet.mem_toList] using hpreferred

/-! ## Scores that do not saturate -/

/-- No score was cut off: the score and the work of every selected parent leave room for the block
and its blue members. -/
def Unsaturated (s : ChainState) : Prop :=
  ∀ entry ∈ s.dag.selectedParents.toList, ∀ parent ∈ entry.2,
    ∀ blues ∈ s.dag.mergeSetBlues[entry.1]?, ∀ block ∈ s.dag.blocks[parent]?,
      ∀ work ∈ s.dag.blueWork[parent]?,
        block.header.blueScore.toNat + 1 + blues.length < 2 ^ 64 ∧
          work + 1 + blues.length ≤ u128Max

instance : DecidablePred Unsaturated := fun s => by
  unfold Unsaturated
  infer_instance

section

variable [Crypto] {s0 s : ChainState}

/-- A classification has the derived score and work. -/
theorem classifyMergeSetV1_scoreWork {c : GhostdagV1Classification}
    (h : classifyMergeSetV1 block s = .ok c) :
    deriveScoreWorkV1 c.selectedParent c.blues s = .ok (c.blueScore, c.blueWork) := by
  simp only [classifyMergeSetV1, classifyMergeSetWithLimits, bind_eq_ok] at h
  obtain ⟨bounded, -, scores, -, coloured, -, derived, hderived, h⟩ := h
  obtain rfl := Except.ok.inj h
  exact hderived

/-- A stored block other than the genesis block: its selected parent is the preferred parent, and
its work and score count on from there. -/
theorem DagInvariant.score_step (hinv : DagInvariant s0 s) (hsat : Unsaturated s)
    (hblock : s.dag.blocks[h]? = some block) (hne : h ≠ s.dag.genesisHash) :
    ∃ p parent work blues, s.dag.selectedParents[h]? = some (some p) ∧
      Preferred s (· ∈ block.header.parents) p ∧ s.dag.blocks[p]? = some parent ∧
      s.dag.blueWork[p]? = some work ∧
      s.dag.blueWork[h]? = some (work + 1 + blues) ∧
      block.header.blueScore.toNat = parent.header.blueScore.toNat + 1 + blues := by
  have haccepted := hinv.classified.accepted h block hblock hne
  obtain ⟨c, hc, hscore, hmeta⟩ := haccepted.classified
  have hselected := (classifyMergeSetV1_spec hc).1
  have hderived := classifyMergeSetV1_scoreWork hc
  cases hp : c.selectedParent with
  | none =>
    have hnil := (calculateSelectedParentV1_spec hselected).2.1 hp
    exact absurd hnil (hinv.graph.parents_ne h block hblock hne)
  | some p =>
    rw [hp] at hderived hselected
    simp only [deriveScoreWorkV1, ok_iff] at hderived
    obtain ⟨parent, hparent, work, hwork, _, rfl, hvalues⟩ := hderived
    obtain ⟨hscoreEq, hworkEq⟩ := Prod.mk.inj hvalues
    have hentry : (h, some p) ∈ s.dag.selectedParents.toList := by
      rw [TreeMap.mem_toList, hmeta.selectedParent, hp]
    obtain ⟨hscoreFits, hworkFits⟩ :=
      hsat (h, some p) hentry p rfl c.blues hmeta.blues parent hparent work hwork
    refine ⟨p, parent, work, c.blues.length, ?_, calculateSelectedParentV1_preferred hselected,
      hparent, hwork, ?_, ?_⟩
    · rw [hmeta.selectedParent, hp]
    · rw [hmeta.blueWork, ← hworkEq]
      congr 1
      dsimp only
      omega
    · rw [hscore, ← hscoreEq, saturatingAdd_toNat, saturatingAdd_toNat, UInt64.toNat_ofNat']
      have hone : (1 : UInt64).toNat = 1 := rfl
      dsimp only
      omega

/-- The blue work of a stored block is its blue score. -/
theorem DagInvariant.blueWork_eq (hinv : DagInvariant s0 s) (h0 : GenesisDag s0)
    (hsat : Unsaturated s) (hblock : s.dag.blocks[h]? = some block) :
    s.dag.blueWork[h]? = some block.header.blueScore.toNat := by
  obtain ⟨rank, _, hrank⟩ := hinv.graph.ranked
  induction hn : rank h using Nat.strong_induction_on generalizing h block with
  | _ n ih =>
    by_cases hg : h = s.dag.genesisHash
    · have hzero : block.header.blueScore = 0 := by
        obtain ⟨genesis, hblocks, -, -, -, hscore⟩ := h0.blocks
        have hgenesis := hinv.genesis_block
        rw [hblocks, TreeMap.getElem?_insert, if_pos rfl, ← hinv.genesisHash_eq, ← hg,
          hblock] at hgenesis
        rw [Option.some.inj hgenesis, hscore]
      rw [hg, hinv.classified.genesis_blueWork, hzero]
      rfl
    · obtain ⟨p, parent, work, blues, -, hpreferred, hparent, hwork, hworkEq, hscoreEq⟩ :=
        hinv.score_step hsat hblock hg
      have hlt := hrank p h ⟨block, hblock, hpreferred.mem⟩
      have hparentWork := ih (rank p) (hn ▸ hlt) hparent rfl
      rw [hworkEq, hscoreEq, Option.some.inj (hwork.symm.trans hparentWork)]

/-- A child is preferred to each of its parents. -/
theorem DagInvariant.preferred_of_parentOf (hinv : DagInvariant s0 s) (hsat : Unsaturated s)
    {q c : Hash} (h : ParentOf s q c) : PreferredTo s c q := by
  obtain ⟨block, hblock, hq⟩ := h
  have hne : c ≠ s.dag.genesisHash := by
    rintro rfl
    rw [hinv.graph.genesis_parents block hblock] at hq
    exact List.not_mem_nil hq
  obtain ⟨p, parent, work, blues, -, hpreferred, hparent, hwork, hworkEq, -⟩ :=
    hinv.score_step hsat hblock hne
  have hp : PreferredTo s c p :=
    ⟨_, _, selectionScore_eq_some.mpr ⟨block, _, hblock, hworkEq, rfl⟩,
      selectionScore_eq_some.mpr ⟨parent, work, hparent, hwork, rfl⟩,
      compareSelectionScoresV1_lt_of_blueWork (by dsimp only; omega)⟩
  by_cases hqp : q = p
  · exact hqp ▸ hp
  · exact hp.trans (hpreferred.preferred q hq hqp)

/-- A block is preferred to everything below it. -/
theorem DagInvariant.preferred_of_ancestor (hinv : DagInvariant s0 s) (hsat : Unsaturated s)
    {x c : Hash} (h : Ancestor s x c) : x = c ∨ PreferredTo s c x := by
  induction h using Relation.ReflTransGen.head_induction_on with
  | refl => exact .inl rfl
  | head hstep _ ih =>
    have hparent := hinv.preferred_of_parentOf hsat hstep
    rcases ih with rfl | hpreferred
    · exact .inr hparent
    · exact .inr (hpreferred.trans hparent)

/-- The greatest of some blocks is the greatest of everything below them. -/
theorem Preferred.below (hinv : DagInvariant s0 s) (hsat : Unsaturated s) {D : Hash → Prop}
    (h : Preferred s D p) : Preferred s (fun x => ∃ q, D q ∧ Ancestor s x q) p := by
  refine ⟨⟨p, h.mem, Ancestor.refl s p⟩, ?_⟩
  rintro x ⟨q, hq, hx⟩ hne
  rcases hinv.preferred_of_ancestor hsat hx with rfl | hbelow
  · exact h.preferred x hq hne
  · by_cases hqp : q = p
    · exact hqp ▸ hbelow
    · exact (h.preferred q hq hqp).trans hbelow

/-- In every state that commits reach without saturation, the blue work of a block is its blue
score, the selected parent of a block is the greatest block of its past, and the selected tip is the
greatest stored block. -/
theorem selection_globally_maximal (h0 : IsGenesisState s0) (hs : Built s0 s)
    (hsat : Unsaturated s) :
    (∀ (h : Hash) (block : Block), s.dag.blocks[h]? = some block →
      s.dag.blueWork[h]? = some block.header.blueScore.toNat) ∧
    (∀ (h : Hash) (block : Block), s.dag.blocks[h]? = some block → h ≠ s.dag.genesisHash →
      ∃ p, s.dag.selectedParents[h]? = some (some p) ∧
        Preferred s (InPast s block.header.parents) p) ∧
    ∃ tip, calculateSelectedTipV1 s = .ok (some tip) ∧
      s.dag.selectedChain.getLast? = some tip ∧ Preferred s (· ∈ s.dag.blocks) tip := by
  have hinv := hs.invariant h0
  refine ⟨fun h block hblock => hinv.blueWork_eq h0.genesisDag hsat hblock,
    fun h block hblock hne => ?_, ?_⟩
  · obtain ⟨p, -, -, -, hparent, hpreferred, -⟩ := hinv.score_step hsat hblock hne
    exact ⟨p, hparent, hpreferred.below hinv hsat⟩
  · obtain ⟨tip, htip, htipMem, hlast, -⟩ := hinv.selectedTip
    refine ⟨tip, htip, hlast, ((hinv.linked.mem_tips tip).mp htipMem).1, fun x hx hne => ?_⟩
    obtain ⟨t, ht, hanc⟩ := hinv.exists_tip_above hx
    exact ((calculateSelectedTipV1_preferred htip).below hinv hsat).preferred x ⟨t, ht, hanc⟩ hne

end

/-- Two blocks and a block that merges them. -/
theorem selection_globally_maximal_diamond : letI := checksumCrypto
    ∃ s0 s tip, IsGenesisState s0 ∧ Built s0 s ∧ Unsaturated s ∧ s.dag.blocks.size = 4 ∧
      calculateSelectedTipV1 s = .ok (some tip) ∧ Preferred s (· ∈ s.dag.blocks) tip := by
  let := checksumCrypto
  have hrun : ((sampleRun diamond).toOption.map fun run =>
      (decide (Unsaturated run.2), run.2.dag.blocks.size)) = some (true, 4) := by decide +kernel
  simp only [Option.map_eq_some_iff, Prod.mk.injEq, decide_eq_true_eq] at hrun
  obtain ⟨⟨s0, s⟩, hsample, hsat, hsize⟩ := hrun
  obtain ⟨hgenesis, hcommits⟩ := sampleRun_eq_some hsample
  obtain ⟨-, -, tip, htip, -, hpreferred⟩ :=
    selection_globally_maximal (.v3 hgenesis) ⟨_, hcommits⟩ hsat
  exact ⟨s0, s, tip, .v3 hgenesis, ⟨_, hcommits⟩, hsat, hsize, htip, hpreferred⟩

end PulseDag
