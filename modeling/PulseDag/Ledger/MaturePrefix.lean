import PulseDag.Ledger.IssuanceCurve
import PulseDag.Ledger.Supply

/-!
# The mature prefix

The mature scores below a score form an initial segment, because the economic clock never goes
back. The binary search of `mature_reward_prefix_score_v3` finds its end, which lies before the
score itself. The replay therefore settles a reward only when the fees of its score are complete.
-/

namespace PulseDag

open List

section

variable {segments : List MonetaryCadenceSegment} {rewardScore currentScore : ℕ}

/-- Under an accepted cadence the maturity of every `u64` score is decided. -/
theorem economicMaturityReached_ok (hvalid : validateCadenceSegments segments = .ok ())
    (hcurrent : currentScore < 2 ^ 64) :
    ∃ answer, economicMaturityReached rewardScore currentScore segments = .ok answer := by
  rw [economicMaturityReached]
  by_cases hlt : currentScore < rewardScore
  · rw [if_pos hlt]
    exact ⟨false, rfl⟩
  · have htime := (economicTimeNsForScore_clock hvalid).1
    rw [if_neg hlt, htime rewardScore (by omega), htime currentScore hcurrent]
    exact ⟨_, rfl⟩

/-- The answer for a mature score. -/
theorem economicMaturityReached_eq_true (hvalid : validateCadenceSegments segments = .ok ())
    (hcurrent : currentScore < 2 ^ 64) :
    economicMaturityReached rewardScore currentScore segments = .ok true ↔
      Matured rewardScore currentScore segments := by
  obtain ⟨answer, hanswer⟩ := @economicMaturityReached_ok _ rewardScore _ hvalid hcurrent
  rw [← economicMaturityReached_eq_ok hanswer, hanswer, Except.ok.injEq]

/-- The answer for an immature score. -/
theorem economicMaturityReached_eq_false (hvalid : validateCadenceSegments segments = .ok ())
    (hcurrent : currentScore < 2 ^ 64) :
    economicMaturityReached rewardScore currentScore segments = .ok false ↔
      ¬Matured rewardScore currentScore segments := by
  obtain ⟨answer, hanswer⟩ := @economicMaturityReached_ok _ rewardScore _ hvalid hcurrent
  rw [← economicMaturityReached_eq_ok hanswer, hanswer, Except.ok.injEq, Bool.not_eq_true]

/-- The mature prefix exists. -/
theorem matureRewardPrefixScoreV3_ok (hvalid : validateCadenceSegments segments = .ok ())
    (hcurrent : currentScore < 2 ^ 64) :
    ∃ mature, matureRewardPrefixScoreV3 currentScore segments = .ok mature := by
  have htest : ∀ score, ∃ answer, Except.mapError (fun error => invalidReplay error.display)
      (economicMaturityReached score currentScore segments) = .ok answer := by
    intro score
    obtain ⟨answer, hanswer⟩ := @economicMaturityReached_ok _ score _ hvalid hcurrent
    exact ⟨answer, mapError_eq_ok.mpr hanswer⟩
  simp only [matureRewardPrefixScoreV3]
  split
  · exact ⟨0, rfl⟩
  · obtain ⟨answer, hanswer⟩ := htest 1
    rw [hanswer, ok_bind]
    cases answer with
    | false => exact ⟨0, rfl⟩
    | true => exact searchLast_ok fun score _ => htest score

/-- A mature prefix that is not empty ends before the current score. -/
theorem matureRewardPrefixScoreV3_lt {mature : ℕ}
    (h : matureRewardPrefixScoreV3 currentScore segments = .ok mature) (hpos : 0 < currentScore) :
    mature < currentScore := by
  rcases (matureRewardPrefixScoreV3_eq_ok h).1 with rfl | hmatured
  · exact hpos
  · exact hmatured.lt

/-- The mature prefix never shrinks. -/
theorem matureRewardPrefixScoreV3_mono {later mature matureLater : ℕ} (hle : currentScore ≤ later)
    (h : matureRewardPrefixScoreV3 currentScore segments = .ok mature)
    (hlater : matureRewardPrefixScoreV3 later segments = .ok matureLater) :
    mature ≤ matureLater := by
  rcases (matureRewardPrefixScoreV3_eq_ok h).1 with rfl | hmatured
  · exact Nat.zero_le _
  · rcases Nat.eq_zero_or_pos mature with rfl | hpos
    · exact Nat.zero_le _
    · exact (matureRewardPrefixScoreV3_eq_ok hlater).2 mature hpos (hmatured.mono hle)

end

/-! ## The fees that a settlement reads -/

section

variable [Crypto] {state : ChainState} {segments : List MonetaryCadenceSegment}
  {orderedDag : OrderedDagV2} {referencedInputs : TreeSet OutPoint} {loop next : ReplayLoopV3}
  {score pos : ℕ}

/-- A transfer is counted under the score of its own block. -/
theorem replayTransfer_fees {chainId : String} {site : ReplaySite} {tx : Transaction}
    (hne : score ≠ site.orderedPos)
    (h : replayTransfer chainId referencedInputs site loop tx = .ok next) :
    next.eligibleFeesByScore[score]? = loop.eligibleFeesByScore[score]? := by
  rcases replayTransfer_cases h with happlied | hskipped
  · obtain ⟨before, after, -, -, hfees⟩ := happlied.fees
    rw [hfees, getElem?_set_ne hne.symm]
  · rw [hskipped.eligibleFeesByScore]

/-- Settling changes no fees. -/
theorem settleMatureRewards_fees
    (h : settleMatureRewards state segments orderedDag pos loop = .ok next) :
    next.eligibleFeesByScore = loop.eligibleFeesByScore := by
  simp only [settleMatureRewards, bind_eq_ok] at h
  obtain ⟨mature, -, hsettle⟩ := h
  refine foldlM_induction
    (P := fun settled => settled.eligibleFeesByScore = loop.eligibleFeesByScore) ?_ ?_ hsettle
  · intro before rewardScore after _ hbefore hafter
    obtain ⟨_, _, -, -, -, hfees, -⟩ := settleReward_eq_ok hafter
    rw [hfees, hbefore]
  · rfl

/-- Replaying a block leaves the fees of the other scores alone. -/
theorem replayBlock_fees {hash : Hash} (hne : score ≠ pos)
    (h : replayBlock state segments orderedDag referencedInputs loop (hash, pos) = .ok next) :
    next.eligibleFeesByScore[score]? = loop.eligibleFeesByScore[score]? := by
  unfold replayBlock at h
  split at h
  · obtain rfl := Except.ok.inj h
    rfl
  · simp only [ok_iff] at h
    obtain ⟨block, -, claimed, hclaimed, transferred, htransferred, hsettled⟩ := h
    rw [settleMatureRewards_fees hsettled]
    refine foldlM_induction (P := fun reached => reached.eligibleFeesByScore[score]? =
      loop.eligibleFeesByScore[score]?) ?_ ?_ htransferred
    · intro before tx after _ hbefore hafter
      rw [replayTransfer_fees hne hafter, hbefore]
    · rw [(registerClaim_sameLedger hclaimed).eligibleFeesByScore]

/-- The blocks from a position on leave the fees of the scores before it alone. -/
theorem replayBlocks_fees {blocks : List Hash} (hlt : score < pos)
    (h : (blocks.zipIdx pos).foldlM (replayBlock state segments orderedDag referencedInputs) loop =
      .ok next) : next.eligibleFeesByScore[score]? = loop.eligibleFeesByScore[score]? := by
  refine foldlM_induction (P := fun reached => reached.eligibleFeesByScore[score]? =
    loop.eligibleFeesByScore[score]?) ?_ rfl h
  rintro before ⟨hash, position⟩ after hmem hbefore hafter
  have hle := (mem_zipIdx hmem).1
  rw [replayBlock_fees (by omega) hafter, hbefore]

/-- The replay is about to settle rewards at a position: the blocks before the position and the
transfers of the block at the position have been replayed. -/
structure SettlesAt (state : ChainState) (segments : List MonetaryCadenceSegment)
    (orderedDag : OrderedDagV2) (referencedInputs : TreeSet OutPoint) (start : ReplayLoopV3)
    (blocks : List Hash) (pos : ℕ) (loop : ReplayLoopV3) where
  hash : Hash
  block : Block
  before : ReplayLoopV3
  claimed : ReplayLoopV3
  hash_eq : blocks[pos]? = some hash
  not_genesis : hash ≠ state.dag.genesisHash
  block_eq : state.dag.blocks[hash]? = some block
  replayed : (blocks.take pos).zipIdx.foldlM
    (replayBlock state segments orderedDag referencedInputs) start = .ok before
  claim : registerClaim state ⟨pos, hash, block⟩ before = .ok claimed
  transfers : (block.transactions.drop 1).foldlM
    (replayTransfer state.chainId referencedInputs ⟨pos, hash, block⟩) claimed = .ok loop

/-- What the replay has read for a settled score is what the score has at the end. -/
theorem SettlesAt.fees_final {start : ReplayLoopV3} {blocks : List Hash}
    (hsettles : SettlesAt state segments orderedDag referencedInputs start blocks pos loop)
    (h : blocks.zipIdx.foldlM (replayBlock state segments orderedDag referencedInputs) start =
      .ok next) (hlt : score < pos) :
    loop.eligibleFeesByScore[score]? = next.eligibleFeesByScore[score]? := by
  obtain ⟨hash, block, before, claimed, hhash, hgenesis, hblock, hbefore, hclaim, htransfers⟩ :=
    hsettles
  obtain ⟨hpos, rfl⟩ := List.getElem?_eq_some_iff.mp hhash
  have hsplit : blocks.zipIdx =
      (blocks.take pos).zipIdx ++ (blocks[pos], pos) :: (blocks.drop (pos + 1)).zipIdx
      (pos + 1) := by
    conv_lhs => rw [← take_append_drop pos blocks, zipIdx_append,
      drop_eq_getElem_cons hpos, length_take, Nat.min_eq_left hpos.le, Nat.zero_add,
      zipIdx_cons]
  rw [hsplit, foldlM_append, hbefore, ok_bind, foldlM_cons, bind_eq_ok] at h
  obtain ⟨after, hafter, hrest⟩ := h
  rw [replayBlocks_fees (Nat.lt_succ_of_lt hlt) hrest]
  simp only [replayBlock, if_neg hgenesis, ok_iff] at hafter
  obtain ⟨found, hfound, reclaimed, hreclaimed, transferred, htransferred, hsettled⟩ := hafter
  obtain rfl := Option.some.inj (hblock.symm.trans hfound)
  obtain rfl := Except.ok.inj (hclaim.symm.trans hreclaimed)
  obtain rfl := Except.ok.inj (htransfers.symm.trans htransferred)
  rw [settleMatureRewards_fees hsettled]

/-- The mature prefix at every `u64` score: the greatest mature score, or `0` if there is none.
The positive scores up to it are mature and the later ones are not, it grows with the score, and
for a positive score it ends before the score. So whatever fees a replay reads to settle a reward
are complete: the score is before the current one, and the fees of the score stay as they are
until the replay ends. -/
theorem matureRewardPrefixScoreV3_spec (hvalid : validateCadenceSegments segments = .ok ()) :
    (∀ current < 2 ^ 64, ∃ mature, matureRewardPrefixScoreV3 current segments = .ok mature ∧
      mature ≤ current ∧
      ((economicMaturityReached mature current segments = .ok true ∧
          ∀ score ≤ current, economicMaturityReached score current segments = .ok true →
            score ≤ mature) ∨
        (mature = 0 ∧
          ∀ score ≤ current, economicMaturityReached score current segments = .ok false)) ∧
      (∀ score, 0 < score → score ≤ mature →
        economicMaturityReached score current segments = .ok true) ∧
      (∀ score, mature < score → economicMaturityReached score current segments = .ok false) ∧
      (0 < current → mature < current)) ∧
    (∀ current later mature matureLater, current ≤ later →
      matureRewardPrefixScoreV3 current segments = .ok mature →
      matureRewardPrefixScoreV3 later segments = .ok matureLater → mature ≤ matureLater) ∧
    ∀ state timestamp orderedDag endExclusive final,
      orderedDag.blocks.head? = some state.dag.genesisHash →
      replayAuthoritativePrefixV3 state segments timestamp orderedDag endExclusive = .ok final →
      ∃ start referenced,
        (orderedDag.blocks.take endExclusive).zipIdx.foldlM
          (replayBlock state segments orderedDag referenced) start = .ok final ∧
        ∀ pos loop mature,
          SettlesAt state segments orderedDag referenced start
            (orderedDag.blocks.take endExclusive) pos loop →
          matureRewardPrefixScoreV3 pos segments = .ok mature →
          ∀ score ∈ List.range' loop.nextRewardScore (mature + 1 - loop.nextRewardScore),
            score < pos ∧
              loop.eligibleFeesByScore[score]? = final.eligibleFeesByScore[score]? := by
  refine ⟨fun current hcurrent => ?_, fun _ _ _ _ hle h hlater =>
    matureRewardPrefixScoreV3_mono hle h hlater, ?_⟩
  · obtain ⟨mature, hmature⟩ := matureRewardPrefixScoreV3_ok hvalid hcurrent
    obtain ⟨hmatured, hgreatest⟩ := matureRewardPrefixScoreV3_eq_ok hmature
    have hlater : ∀ score, mature < score → ¬Matured score current segments :=
      fun score hlt hscore => absurd (hgreatest score (by omega) hscore) (by omega)
    have htrue : ∀ score, economicMaturityReached score current segments = .ok true ↔
        Matured score current segments := fun _ => economicMaturityReached_eq_true hvalid hcurrent
    have hfalse : ∀ score, economicMaturityReached score current segments = .ok false ↔
        ¬Matured score current segments := fun _ => economicMaturityReached_eq_false hvalid hcurrent
    simp only [htrue, hfalse]
    refine ⟨mature, hmature, ?_, ?_, fun score hpos hle => ?_, hlater,
      fun hpos => matureRewardPrefixScoreV3_lt hmature hpos⟩
    · rcases hmatured with rfl | hmatured
      · exact Nat.zero_le _
      · exact hmatured.1
    · by_cases hscore : Matured mature current segments
      · exact .inl ⟨hscore, fun score _ hmature => not_lt.mp fun hlt => hlater score hlt hmature⟩
      · have hzero := hmatured.resolve_right hscore
        subst hzero
        refine .inr ⟨rfl, fun score _ => ?_⟩
        rcases Nat.eq_zero_or_pos score with rfl | hpos
        · exact hscore
        · exact hlater score hpos
    · rcases hmatured with rfl | hmatured
      · omega
      · exact hmatured.of_le hle
  · intro state timestamp orderedDag endExclusive final hhead h
    simp only [replayAuthoritativePrefixV3, ok_iff] at h
    obtain ⟨-, -, base, -, -, -, repeated, -, referenced, -, hloop⟩ := h
    refine ⟨_, referenced, hloop, fun pos loop mature hsettles hmature score hscore => ?_⟩
    -- the order starts with the genesis block, where nothing is settled
    have hpos : 0 < pos := by
      rcases Nat.eq_zero_or_pos pos with rfl | hpos
      · have hhash := hsettles.hash_eq
        rw [getElem?_take, ← head?_eq_getElem?, hhead] at hhash
        split at hhash
        · exact absurd (Option.some.inj hhash).symm hsettles.not_genesis
        · cases hhash
      · exact hpos
    have hlt : score < pos := by
      rw [mem_range'_1] at hscore
      have := matureRewardPrefixScoreV3_lt hmature hpos
      omega
    exact ⟨hlt, hsettles.fees_final hloop hlt⟩

end

/-- At the genesis the mature prefix is the genesis score itself, so it is not before it. -/
theorem matureRewardPrefixScoreV3_not_lt_genesis :
    validateCadenceSegments productionCadenceV3 = .ok () ∧
      ∃ mature, matureRewardPrefixScoreV3 0 productionCadenceV3 = .ok mature ∧ ¬mature < 0 :=
  ⟨by decide, 0, rfl, by decide⟩

/-- Under the production cadence a reward matures after 7200 scores. In the run with a reward
conflict four rewards are settled, each when its fees are complete. -/
theorem matureRewardPrefixScoreV3_spec_rewardConflict : letI := checksumCrypto
    (∃ mature, matureRewardPrefixScoreV3 7300 productionCadenceV3 = .ok mature ∧ mature = 100 ∧
      mature < 7300) ∧
    ∃ state timestamp orderedDag final start referenced,
      replayAuthoritativePrefixV3 state hourlyCadence timestamp orderedDag 6 = .ok final ∧
      final.materializedRewards = 4 ∧
      ∀ pos loop mature,
        SettlesAt state hourlyCadence orderedDag referenced start (orderedDag.blocks.take 6) pos
          loop →
        matureRewardPrefixScoreV3 pos hourlyCadence = .ok mature →
        ∀ score ∈ List.range' loop.nextRewardScore (mature + 1 - loop.nextRewardScore),
          score < pos ∧
            loop.eligibleFeesByScore[score]? = final.eligibleFeesByScore[score]? := by
  let := checksumCrypto
  constructor
  · obtain ⟨mature, hmature, -, -, -, -, hlt⟩ :=
      (@matureRewardPrefixScoreV3_spec _ productionCadenceV3 (by decide)).1 7300 (by decide)
    have hvalue : (matureRewardPrefixScoreV3 7300 productionCadenceV3).toOption = some 100 := by
      decide +kernel
    rw [eq_ok_of_toOption hvalue, Except.ok.injEq] at hmature
    exact ⟨100, eq_ok_of_toOption hvalue, rfl, hmature ▸ hlt (by decide)⟩
  · have heval : ((sampleRun rewardConflict).toOption.bind fun run =>
        (deriveOrderedDagV2 run.2).toOption.bind fun orderedDag =>
          run.2.dag.blocks[run.2.dag.genesisHash]?.bind fun genesis =>
            (replayAuthoritativePrefixV3 run.2 hourlyCadence genesis.header.timestamp orderedDag
              6).toOption.map fun final =>
                (decide (orderedDag.blocks.head? = some run.2.dag.genesisHash),
                  final.materializedRewards)) = some (true, 4) := by decide +kernel
    simp only [Option.bind_eq_some_iff, Option.map_eq_some_iff, Prod.mk.injEq,
      decide_eq_true_eq] at heval
    obtain ⟨⟨s0, state⟩, -, orderedDag, -, genesis, -, final, hfinal, hhead, hrewards⟩ := heval
    have hfinal := eq_ok_of_toOption hfinal
    obtain ⟨start, referenced, -, hfees⟩ :=
      (@matureRewardPrefixScoreV3_spec _ hourlyCadence (by decide)).2.2 state
        genesis.header.timestamp orderedDag 6 final hhead hfinal
    exact ⟨state, genesis.header.timestamp, orderedDag, final, start, referenced, hfinal,
      hrewards, hfees⟩

end PulseDag
