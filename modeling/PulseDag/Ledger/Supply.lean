import PulseDag.Ghostdag.Reachable
import PulseDag.Ledger.ReplayStep

/-!
# Supply conservation

The atoms of the ledger and the fees that wait for their settlement add up to the supply that
the curve schedules for the settled scores. Transfers move atoms between the two sums, and a
settlement moves both along the curve.
-/

namespace PulseDag

open List

/-- The atoms of a list of fees from a score on. -/
def feesFrom (score : ℕ) (fees : List UInt64) : ℕ := ((fees.drop score).map UInt64.toNat).sum

variable {fees : List UInt64} {score pos : ℕ}

/-- The fees of a first score. -/
theorem feesFrom_eq_add {fee : UInt64} (h : fees[score]? = some fee) :
    feesFrom score fees = fee.toNat + feesFrom (score + 1) fees := by
  obtain ⟨hlt, rfl⟩ := List.getElem?_eq_some_iff.mp h
  rw [feesFrom, drop_eq_getElem_cons hlt, map_cons, sum_cons, feesFrom]

/-- Raising the fee of a later score raises the sum. -/
theorem feesFrom_set {start : ℕ} {before : UInt64} (after : UInt64) (hle : start ≤ score)
    (h : fees[score]? = some before) :
    feesFrom start (fees.set score after) + before.toNat = feesFrom start fees + after.toNat := by
  induction fees generalizing start score with
  | nil => simp at h
  | cons fee rest ih =>
    cases score with
    | zero =>
      obtain rfl := Nat.le_zero.mp hle
      obtain rfl := Option.some.inj h
      simp only [feesFrom, set_cons_zero, drop_zero, map_cons, sum_cons]
      omega
    | succ score =>
      rw [getElem?_cons_succ] at h
      cases start with
      | zero =>
        have hrest := ih (Nat.zero_le score) h
        simp only [feesFrom, set_cons_succ, drop_zero, map_cons,
          sum_cons] at hrest ⊢
        omega
      | succ start =>
        have hrest := ih (Nat.le_of_succ_le_succ hle) h
        simp only [feesFrom, set_cons_succ, drop_succ_cons] at hrest ⊢
        exact hrest

/-- The atoms that replay accounts for: those of the ledger and the fees of the scores that
are not settled. -/
def ReplayLoopV3.atoms (loop : ReplayLoopV3) : ℕ :=
  utxoTotal loop.rebuilt.utxo.utxos + feesFrom loop.nextRewardScore loop.eligibleFeesByScore

/-- The same ledger has the same atoms. -/
theorem ReplayLoopV3.SameLedger.atoms {a b : ReplayLoopV3} (h : a.SameLedger b) :
    a.atoms = b.atoms := by
  rw [ReplayLoopV3.atoms, h.rebuilt, h.nextRewardScore, h.eligibleFeesByScore, ReplayLoopV3.atoms]

/-! ## The mature prefix -/

/-- The mature prefix is the greatest mature score, or `0`. -/
theorem matureRewardPrefixScoreV3_eq_ok {currentScore mature : ℕ}
    {segments : List MonetaryCadenceSegment}
    (h : matureRewardPrefixScoreV3 currentScore segments = .ok mature) :
    (mature = 0 ∨ Matured mature currentScore segments) ∧
      ∀ score, 0 < score → Matured score currentScore segments → score ≤ mature := by
  simp only [matureRewardPrefixScoreV3] at h
  have htest : ∀ score answer, Except.mapError (fun error => invalidReplay error.display)
      (economicMaturityReached score currentScore segments) = .ok answer →
      (answer = true ↔ Matured score currentScore segments) := by
    intro score answer hanswer
    rw [mapError_eq_ok] at hanswer
    exact economicMaturityReached_eq_ok hanswer
  by_cases hzero : currentScore = 0
  · rw [if_pos hzero] at h
    obtain rfl := Except.ok.inj h
    refine ⟨.inl rfl, fun score hpos hmatured => ?_⟩
    have := hmatured.lt
    omega
  · rw [if_neg hzero, bind_eq_ok] at h
    obtain ⟨answer, hanswer, hsearch⟩ := h
    cases answer with
    | false =>
      obtain rfl := Except.ok.inj hsearch
      refine ⟨.inl rfl, fun score hpos hmatured => ?_⟩
      exact absurd ((htest 1 false hanswer).mpr (hmatured.of_le hpos)) (by simp)
    | true =>
      obtain ⟨-, hmature, hgreatest⟩ := searchLast_greatest htest
        (fun a b hle hb => hb.of_le hle) (by omega) (by omega)
        ((htest 1 true hanswer).mp rfl) hsearch
      refine ⟨.inr hmature, fun score hpos hmatured => ?_⟩
      by_contra hlt
      exact hgreatest score (by omega) hmatured.1 hmatured

/-! ## The invariant of the replay -/

/-- What holds before position `pos` of the order is replayed. -/
structure SupplyInvariant (segments : List MonetaryCadenceSegment) (pos : ℕ)
    (loop : ReplayLoopV3) : Prop where
  nextRewardScore_eq : loop.nextRewardScore = loop.matureRewardPrefixScore + 1
  matured : loop.matureRewardPrefixScore = 0 ∨
    ∃ score < pos, Matured loop.matureRewardPrefixScore score segments
  supply : ∃ atoms, totalSupplyAtomsForScore loop.matureRewardPrefixScore segments = .ok atoms ∧
    loop.atoms = atoms.toNat

/-- The invariant depends on the rewards and the atoms. -/
theorem SupplyInvariant.congr {segments : List MonetaryCadenceSegment} {loop next : ReplayLoopV3}
    (h : SupplyInvariant segments pos loop) (hnext : next.nextRewardScore = loop.nextRewardScore)
    (hmature : next.matureRewardPrefixScore = loop.matureRewardPrefixScore)
    (hatoms : next.atoms = loop.atoms) : SupplyInvariant segments pos next := by
  constructor
  · rw [hnext, hmature, h.nextRewardScore_eq]
  · rw [hmature]
    exact h.matured
  · rw [hmature, hatoms]
    exact h.supply

/-- Rewards are settled only for scores that have been replayed. -/
theorem SupplyInvariant.nextRewardScore_le {segments : List MonetaryCadenceSegment}
    {loop : ReplayLoopV3} (h : SupplyInvariant segments pos loop) (hpos : 0 < pos) :
    loop.nextRewardScore ≤ pos := by
  rw [h.nextRewardScore_eq]
  rcases h.matured with hzero | ⟨score, hlt, hmatured⟩
  · omega
  · have := hmatured.lt
    omega

section

variable [Crypto] {state : ChainState} {segments : List MonetaryCadenceSegment}
  {orderedDag : OrderedDagV2} {chainId : String} {referencedInputs : TreeSet OutPoint}
  {site : ReplaySite} {loop next : ReplayLoopV3} {tx : Transaction}

/-- No transfer creates or destroys an atom. -/
theorem replayTransfer_atoms (hle : loop.nextRewardScore ≤ site.orderedPos)
    (h : replayTransfer chainId referencedInputs site loop tx = .ok next) :
    next.atoms = loop.atoms := by
  rcases replayTransfer_cases h with happlied | hskipped
  · obtain ⟨before, after, hbefore, hafter, hfees⟩ := happlied.fees
    have htotal := happlied.utxoTotal_add_fee
    have hsum := feesFrom_set after hle hbefore
    rw [checkedAdd_eq_some] at hafter
    unfold ReplayLoopV3.atoms
    rw [happlied.nextRewardScore, hfees]
    omega
  · unfold ReplayLoopV3.atoms
    rw [hskipped.rebuilt, hskipped.nextRewardScore, hskipped.eligibleFeesByScore]

/-- A transfer keeps the invariant. -/
theorem replayTransfer_supplyInvariant
    (hinv : SupplyInvariant segments site.orderedPos loop) (hpos : 0 < site.orderedPos)
    (h : replayTransfer chainId referencedInputs site loop tx = .ok next) :
    SupplyInvariant segments site.orderedPos next := by
  have hatoms := replayTransfer_atoms (hinv.nextRewardScore_le hpos) h
  rcases replayTransfer_cases h with happlied | hskipped
  · exact hinv.congr happlied.nextRewardScore happlied.matureRewardPrefixScore hatoms
  · exact hinv.congr hskipped.nextRewardScore hskipped.matureRewardPrefixScore hatoms

/-- The supply equation while rewards are being settled: the next score to settle decides. -/
def SettlingInvariant (segments : List MonetaryCadenceSegment) (loop : ReplayLoopV3) : Prop :=
  ∃ score atoms, loop.nextRewardScore = score + 1 ∧
    totalSupplyAtomsForScore score segments = .ok atoms ∧ loop.atoms = atoms.toNat

/-- A settlement keeps the invariant. -/
theorem settleReward_settlingInvariant (hinv : SettlingInvariant segments loop)
    (h : settleReward state segments orderedDag loop loop.nextRewardScore = .ok next) :
    SettlingInvariant segments next := by
  obtain ⟨score, atoms, hnext, hatoms, hsum⟩ := hinv
  obtain ⟨fees, subsidy, hfees, hsubsidy, htotal, hfeesEq, hnextEq, -⟩ := settleReward_eq_ok h
  rw [hnext] at hfees hsubsidy hnextEq
  obtain ⟨current, hcurrent, hcurrentEq⟩ := subsidyAtomsForScore_succ hsubsidy hatoms
  refine ⟨score + 1, current, hnextEq, hcurrent, ?_⟩
  have hsplit := feesFrom_eq_add hfees
  unfold ReplayLoopV3.atoms at hsum ⊢
  rw [hnextEq, hfeesEq, htotal]
  rw [hnext] at hsum
  omega

/-- Settling a range of scores that starts with the next one. -/
theorem settleRewards_settlingInvariant {count : ℕ} (hinv : SettlingInvariant segments loop)
    (h : (List.range' loop.nextRewardScore count).foldlM (settleReward state segments orderedDag)
      loop = .ok next) :
    SettlingInvariant segments next ∧ next.nextRewardScore = loop.nextRewardScore + count ∧
      next.matureRewardPrefixScore = loop.matureRewardPrefixScore := by
  induction count generalizing loop with
  | zero =>
    obtain rfl := Except.ok.inj h
    exact ⟨hinv, rfl, rfl⟩
  | succ count ih =>
    rw [range'_succ, foldlM_cons, bind_eq_ok] at h
    obtain ⟨middle, hmiddle, hrest⟩ := h
    have hmiddleInv := settleReward_settlingInvariant hinv hmiddle
    obtain ⟨-, -, -, -, -, -, hnext, hmature⟩ := settleReward_eq_ok hmiddle
    rw [← hnext] at hrest
    obtain ⟨hfinal, hfinalNext, hfinalMature⟩ := ih hmiddleInv hrest
    exact ⟨hfinal, by omega, hfinalMature.trans hmature⟩

/-- The settlements after a block keep the invariant. -/
theorem settleMatureRewards_supplyInvariant (hinv : SupplyInvariant segments pos loop)
    (h : settleMatureRewards state segments orderedDag pos loop = .ok next) :
    SupplyInvariant segments (pos + 1) next := by
  simp only [settleMatureRewards, bind_eq_ok] at h
  obtain ⟨mature, hmature, hsettle⟩ := h
  obtain ⟨hmatured, hgreatest⟩ := matureRewardPrefixScoreV3_eq_ok hmature
  -- what was mature before is still mature
  have hle : loop.matureRewardPrefixScore ≤ mature := by
    rcases hinv.matured with hzero | ⟨score, hlt, hold⟩
    · omega
    · rcases Nat.eq_zero_or_pos loop.matureRewardPrefixScore with hzero | hpos
      · omega
      · exact hgreatest _ hpos (hold.mono hlt.le)
  obtain ⟨atoms, hatoms, hsum⟩ := hinv.supply
  have hstart : SettlingInvariant segments { loop with matureRewardPrefixScore := mature } :=
    ⟨loop.matureRewardPrefixScore, atoms, hinv.nextRewardScore_eq, hatoms, hsum⟩
  obtain ⟨⟨score, final, hnext, hfinal, hfinalSum⟩, hnextEq, hmatureEq⟩ :=
    settleRewards_settlingInvariant hstart hsettle
  have hnextStart := hinv.nextRewardScore_eq
  simp only at hnextEq hmatureEq
  have hscore : score = mature := by omega
  subst hscore
  exact
    { nextRewardScore_eq := by omega
      matured := by
        rw [hmatureEq]
        exact hmatured.imp_right fun hnew => ⟨pos, Nat.lt_succ_self pos, hnew⟩
      supply := ⟨final, by rw [hmatureEq]; exact hfinal, hfinalSum⟩ }

/-- A block keeps the invariant. -/
theorem replayBlock_supplyInvariant {hash : Hash} (hinv : SupplyInvariant segments pos loop)
    (hpos : hash = state.dag.genesisHash ∨ 0 < pos)
    (h : replayBlock state segments orderedDag referencedInputs loop (hash, pos) = .ok next) :
    SupplyInvariant segments (pos + 1) next := by
  unfold replayBlock at h
  by_cases hgenesis : hash = state.dag.genesisHash
  · rw [if_pos hgenesis] at h
    obtain rfl := Except.ok.inj h
    exact ⟨hinv.nextRewardScore_eq, hinv.matured.imp_right fun ⟨score, hlt, hmatured⟩ =>
      ⟨score, hlt.trans (Nat.lt_succ_self pos), hmatured⟩, hinv.supply⟩
  · rw [if_neg hgenesis] at h
    simp only [ok_iff] at h
    obtain ⟨block, -, claimed, hclaimed, transferred, htransferred, hsettled⟩ := h
    have hsame := registerClaim_sameLedger hclaimed
    have hclaimedInv : SupplyInvariant segments pos claimed :=
      hinv.congr hsame.nextRewardScore hsame.matureRewardPrefixScore hsame.atoms
    have htransferredInv : SupplyInvariant segments pos transferred := by
      refine foldlM_induction ?_ hclaimedInv htransferred
      intro before tx after _ hbefore hafter
      refine replayTransfer_supplyInvariant ?_ ?_ hafter
      · exact hbefore
      · exact hpos.resolve_left hgenesis
    exact settleMatureRewards_supplyInvariant htransferredInv hsettled

/-- The invariant holds after every prefix. -/
theorem replayAuthoritativePrefixV3_supplyInvariant {timestamp : UInt64} {endExclusive : ℕ}
    (hvalid : validateCadenceSegments segments = .ok ())
    (hhead : orderedDag.blocks.head? = some state.dag.genesisHash)
    (h : replayAuthoritativePrefixV3 state segments timestamp orderedDag endExclusive = .ok next) :
    ∃ pos, SupplyInvariant segments pos next := by
  simp only [replayAuthoritativePrefixV3, ok_iff] at h
  obtain ⟨-, -, base, hbase, -, -, repeated, -, referenced, -, hloop⟩ := h
  have hempty : base.utxo = UtxoState.empty := by
    simp only [initChainStateV3, ok_iff] at hbase
    obtain ⟨genesis, -, root, -, rfl⟩ := hbase
    rfl
  have hfees : ∀ n, feesFrom 1 (List.replicate n 0) = 0 := by
    intro n
    simp [feesFrom, drop_replicate]
  refine ⟨_, foldlM_zipIdx_induction (P := SupplyInvariant segments) ?_ ?_ hloop⟩
  · intro before hash pos after hmem hinv hafter
    refine replayBlock_supplyInvariant hinv ?_ hafter
    rcases Nat.eq_zero_or_pos pos with rfl | hpos
    · -- the order starts with the genesis block, which is not replayed
      left
      rw [mem_zipIdx_iff_getElem?, getElem?_take, ← head?_eq_getElem?, hhead] at hmem
      split at hmem
      · exact (Option.some.inj hmem).symm
      · cases hmem
    · exact .inr hpos
  · refine ⟨rfl, .inl rfl, 0, totalSupplyAtomsForScore_zero hvalid, ?_⟩
    simp [ReplayLoopV3.atoms, hempty, UtxoState.empty, hfees, utxoTotal]

/-- The ledger of a rebuilt state and the fees above its mature prefix are exactly the supply
scheduled for the prefix, so the ledger never exceeds the maximal supply. Along the replay a
transfer that the ledger does not allow (a coin of it is spent, immature or missing, or an
outpoint of it is taken) changes neither the ledger nor the fees, and any other transfer moves
its fee from the ledger to the fees of its score. -/
theorem rebuildAuthoritativeStateV3_supply {replay : StateReplayV3}
    (hvalid : validateCadenceSegments segments = .ok ())
    (h : rebuildAuthoritativeStateV3 state segments = .ok replay) :
    (∃ supply,
      totalSupplyAtomsForScore replay.diagnostics.matureRewardPrefixScore segments = .ok supply ∧
      utxoTotal replay.utxo.utxos +
          feesFrom (replay.diagnostics.matureRewardPrefixScore + 1) replay.eligibleFeesByScore =
        supply.toNat) ∧
    utxoTotal replay.utxo.utxos ≤ maxSupplyAtoms.toNat ∧
    ∀ (referenced : TreeSet OutPoint) (site : ReplaySite) (before after : ReplayLoopV3)
      (tx : Transaction),
      replayTransfer state.chainId referenced site before tx = .ok after →
      (¬Applicable tx before.rebuilt.utxo →
        after.rebuilt.utxo = before.rebuilt.utxo ∧
        after.eligibleFeesByScore = before.eligibleFeesByScore) ∧
      (Applicable tx before.rebuilt.utxo →
        utxoTotal after.rebuilt.utxo.utxos + tx.fee.toNat = utxoTotal before.rebuilt.utxo.utxos ∧
        feesFrom 0 after.eligibleFeesByScore =
          feesFrom 0 before.eligibleFeesByScore + tx.fee.toNat) := by
  simp only [rebuildAuthoritativeStateV3, bind_eq_ok] at h
  obtain ⟨⟨genesis, orderedDag⟩, hsource, final, hfinal, root, -, hreplay⟩ := h
  obtain rfl := Except.ok.inj hreplay
  have hhead : orderedDag.blocks.head? = some state.dag.genesisHash := by
    simp only [validateV3ReplaySource, bind_eq_ok, ensure_eq_ok, pure_eq_ok, Except.ok.injEq,
      Prod.mk.injEq] at hsource
    obtain ⟨_, -, -, -, _, -, -, hhead, -, rfl⟩ := hsource
    exact hhead
  obtain ⟨pos, hinv⟩ := replayAuthoritativePrefixV3_supplyInvariant hvalid hhead hfinal
  obtain ⟨supply, hsupply, hsum⟩ := hinv.supply
  rw [ReplayLoopV3.atoms, hinv.nextRewardScore_eq] at hsum
  refine ⟨⟨supply, hsupply, hsum⟩, ?_, ?_⟩
  · have hle := totalSupplyAtomsForScore_le hsupply
    change utxoTotal final.rebuilt.utxo.utxos ≤ _
    omega
  · intro referenced site before after tx htransfer
    rcases replayTransfer_cases htransfer with happlied | hskipped
    · refine ⟨fun hnot => absurd happlied.applicable hnot, fun _ => ?_⟩
      obtain ⟨old, new, hold, hnew, hfees⟩ := happlied.fees
      have hset := feesFrom_set new (Nat.zero_le _) hold
      rw [checkedAdd_eq_some] at hnew
      refine ⟨happlied.utxoTotal_add_fee, ?_⟩
      rw [hfees]
      omega
    · refine ⟨fun _ => ⟨by rw [hskipped.rebuilt], hskipped.eligibleFeesByScore⟩,
        fun happlicable => ?_⟩
      exact absurd happlicable hskipped.not_applicable

end

/-! ## A concrete run -/

section

variable [Crypto]

/-- A transaction of version 2 under its own id on the chain `c`. All coins belong to one key. -/
def sampleTransaction (inputs : List OutPoint) (amounts : List UInt64) (fee nonce : UInt64) :
    Transaction :=
  let key := String.ofList (List.replicate 64 '0')
  let signature := String.ofList (List.replicate 128 '0')
  let tx : Transaction :=
    { txid := "", version := 2,
      inputs := inputs.map fun outpoint => ⟨outpoint, key, signature⟩,
      outputs := amounts.map fun amount => ⟨addressFromPublicKey key, amount⟩,
      fee := fee, nonce := nonce }
  { tx with txid := (computeTxidV2 tx "c").toOption.getD "" }

/-- A reward claim. -/
def sampleClaim (nonce : UInt64) : Transaction := sampleTransaction [] [0] 0 nonce

/-- The outpoint at which the reward of a block is settled. -/
def sampleReward (block : Block) : OutPoint :=
  settlementOutpointV3 "c" block.hash ((block.transactions.head?.map Transaction.txid).getD "")

/-- Two blocks on top of each other, two blocks that spend the reward of the first one, and a
block that merges them and spends the reward of the second one. -/
def rewardConflict (genesis : Hash) : List Block :=
  let first := { bareBlock [genesis] 1 1 0 with transactions := [sampleClaim 1] }
  let second := { bareBlock [first.hash] 2 2 0 with transactions := [sampleClaim 2] }
  let spend := sampleTransaction [sampleReward first]
  let left :=
    { bareBlock [second.hash] 3 3 1 with
      transactions := [sampleClaim 3, spend [2637337660641] 7 0] }
  let right :=
    { bareBlock [second.hash] 3 3 2 with
      transactions := [sampleClaim 4, spend [2637337660639] 9 0] }
  let merge :=
    { bareBlock [left.hash, right.hash] 4 5 0 with
      transactions := [sampleClaim 5,
        sampleTransaction [sampleReward second] [2637337660644] 5 0] }
  [first, second, left, right, merge]

end

/-- A cadence of one score an hour, so that a reward matures at the next score. -/
def hourlyCadence : List MonetaryCadenceSegment := [⟨0, 3600000000000⟩]

/-- Of the two spends of one reward the first is applied. The fee of the last score waits. -/
theorem rebuildAuthoritativeStateV3_supply_rewardConflict : letI := checksumCrypto
    ∃ state replay, rebuildAuthoritativeStateV3 state hourlyCadence = .ok replay ∧
      replay.diagnostics.appliedTransactions = 2 ∧
      replay.diagnostics.skippedConflictingTransactions = 1 ∧
      replay.diagnostics.matureRewardPrefixScore = 4 ∧
      replay.eligibleFeesByScore = [0, 0, 0, 7, 0, 5] ∧
      (∃ supply, totalSupplyAtomsForScore 4 hourlyCadence = .ok supply ∧
        utxoTotal replay.utxo.utxos + 5 = supply.toNat) ∧
      utxoTotal replay.utxo.utxos ≤ maxSupplyAtoms.toNat := by
  let := checksumCrypto
  have heval : ((sampleRun rewardConflict).toOption.bind fun run =>
      (rebuildAuthoritativeStateV3 run.2 hourlyCadence).toOption.map fun replay =>
        (replay.diagnostics.appliedTransactions,
          replay.diagnostics.skippedConflictingTransactions,
          replay.diagnostics.matureRewardPrefixScore, replay.eligibleFeesByScore)) =
      some (2, 1, 4, [0, 0, 0, 7, 0, 5]) := by decide +kernel
  obtain ⟨⟨s0, state⟩, -, heval⟩ := Option.bind_eq_some_iff.mp heval
  obtain ⟨replay, hreplay, hvalues⟩ := Option.map_eq_some_iff.mp heval
  simp only [Prod.mk.injEq] at hvalues
  obtain ⟨happlied, hskipped, hmature, hfees⟩ := hvalues
  have hok := eq_ok_of_toOption hreplay
  obtain ⟨⟨supply, hsupply, hsum⟩, hmax, -⟩ :=
    rebuildAuthoritativeStateV3_supply (by decide) hok
  rw [hmature] at hsupply hsum
  refine ⟨state, replay, hok, happlied, hskipped, hmature, hfees, ⟨supply, hsupply, ?_⟩, hmax⟩
  rw [hfees] at hsum
  exact hsum

end PulseDag
