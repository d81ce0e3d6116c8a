import PulseDag.Ledger.ReplayV3

/-!
# The errors of the replay

Which errors a replay can end with. A property of errors that holds of the few kinds which the
replay builds itself holds of all its errors, except that the settlement of a reward may also report
a taken outpoint.
-/

namespace PulseDag

/-- A property of the errors that the replay builds from texts. -/
structure ReplayErrors (P : PulseError → Prop) : Prop where
  nonDeterministicState : ∀ message, P (.nonDeterministicState message)
  internal : ∀ message, P (.internal message)
  invalidBlock : ∀ message, P (.invalidBlock message)
  chainIdMismatch : P .chainIdMismatch

/-- An invalid replay is among the errors. -/
theorem ReplayErrors.invalidReplay {P : PulseError → Prop} (hP : ReplayErrors P)
    (message : String) : P (PulseDag.invalidReplay message) := hP.nonDeterministicState _

section

variable [Crypto] {P : PulseError → Prop} {state : ChainState}
  {segments : List MonetaryCadenceSegment} {orderedDag : OrderedDagV2}
  {referencedInputs : TreeSet OutPoint} {loop : ReplayLoopV3}

/-! ## Roots and headers -/

omit [Crypto] in
/-- Errors of the index of an address. -/
theorem indexAddressOutpoints_failsWith (hP : ∀ message, P (.nonDeterministicState message))
    (address : Address) (outpoints : List OutPoint) (seen : TreeSet OutPoint)
    (indexed : TreeMap OutPoint Address) :
    FailsWith P (indexAddressOutpoints address outpoints seen indexed) := by
  induction outpoints generalizing seen indexed with
  | nil => exact failsWith_ok _
  | cons outpoint rest ih =>
    refine (failsWith_ensure (hP _)).bind fun _ _ => ?_
    exact (failsWith_ensure (hP _)).bind fun _ _ => ih _ _

/-- Errors of the state root. -/
theorem computeStateRoot_failsWith (hP : ∀ message, P (.nonDeterministicState message))
    (utxo : UtxoState) : FailsWith P utxo.computeStateRoot := by
  refine FailsWith.bind ?_ fun _ _ => failsWith_ok _
  refine FailsWith.bind ?_ fun indexed _ => FailsWith.bind ?_ fun _ _ => ?_
  · exact failsWith_foldlM (I := fun _ => True)
      (fun _ _ _ _ => indexAddressOutpoints_failsWith hP _ _ _ _)
        (fun _ _ _ _ _ _ => trivial) trivial
  · refine failsWith_forM fun entry _ => ?_
    refine (failsWith_ensure (hP _)).bind fun _ _ => ?_
    split
    · exact failsWith_ensure (hP _)
    · exact failsWith_error (hP _)
  · exact failsWith_forM fun _ _ => failsWith_ensure (hP _)

omit [Crypto] in
/-- Errors of the shape of a header. -/
theorem validateBlockHeaderV2Shape_failsWith (hP : ReplayErrors P) (header : BlockHeader)
    (chainId : String) : FailsWith P (validateBlockHeaderV2Shape header chainId) := by
  refine (failsWith_ensure (hP.invalidBlock _)).bind fun _ _ => ?_
  refine (failsWith_ensure hP.chainIdMismatch).bind fun _ _ => ?_
  refine FailsWith.bind ?_ fun _ _ => ?_
  · refine (failsWith_ensure (hP.invalidBlock _)).bind fun _ _ => ?_
    refine (failsWith_ensure (hP.invalidBlock _)).bind fun _ _ => ?_
    exact (failsWith_ensure (hP.invalidBlock _)).bind fun _ _ => failsWith_ok _
  · refine (failsWith_ensure (hP.invalidBlock _)).bind fun _ _ => ?_
    exact failsWith_ensure (hP.invalidBlock _)

/-- Errors of a block hash. -/
theorem computeBlockHashV2_failsWith (hP : ReplayErrors P) (header : BlockHeader)
    (chainId : String) : FailsWith P (computeBlockHashV2 header chainId) := by
  refine FailsWith.bind ?_ fun _ _ => failsWith_ok _
  exact (validateBlockHeaderV2Shape_failsWith hP _ _).bind fun _ _ => failsWith_ok _

/-- Errors of the genesis state. -/
theorem initChainStateV3_failsWith (hP : ReplayErrors P) (chainId : String) (timestamp : UInt64) :
    FailsWith P (initChainStateV3 chainId timestamp) := by
  refine FailsWith.bind ?_ fun _ _ =>
    (computeStateRoot_failsWith hP.nonDeterministicState _).bind fun _ _ => failsWith_ok _
  refine (failsWith_ensure hP.chainIdMismatch).bind fun _ _ => ?_
  refine (failsWith_ensure (hP.invalidBlock _)).bind fun _ _ => ?_
  refine (computeStateRoot_failsWith hP.nonDeterministicState _).bind fun _ _ => ?_
  exact (computeBlockHashV2_failsWith hP _ _).bind fun _ _ => failsWith_ok _

/-! ## Blocks and transfers -/

/-- Errors of a reward block. -/
theorem checkRewardBlock_failsWith (hP : ReplayErrors P) (block : Block)
    (chainId missingClaim invalidClaim inputless : String) :
    FailsWith P (checkRewardBlock block chainId missingClaim invalidClaim inputless) := by
  refine (failsWith_okOr (hP.invalidReplay _)).bind fun _ _ => ?_
  refine (failsWith_mapError fun _ => hP.invalidReplay _).bind fun _ _ => ?_
  exact (failsWith_ensure (hP.invalidReplay _)).bind fun _ _ => failsWith_ok _

/-- Errors of registering a claim. -/
theorem registerClaim_failsWith (hP : ReplayErrors P) (site : ReplaySite) :
    FailsWith P (registerClaim state site loop) := by
  refine (checkRewardBlock_failsWith hP _ _ _ _ _).bind fun _ _ => ?_
  exact (failsWith_okOr (hP.invalidReplay _)).bind fun _ _ => failsWith_ok _

omit [Crypto] in
/-- Errors of the sum of the inputs. -/
theorem replayInputSum_failsWith (hP : ReplayErrors P) (utxos : TreeMap OutPoint Utxo)
    (inputs : List TxInput) (sum : ℕ) : FailsWith P (replayInputSum utxos inputs sum) := by
  induction inputs generalizing sum with
  | nil => exact failsWith_ok _
  | cons input rest ih =>
    refine (failsWith_okOr (hP.invalidReplay _)).bind fun _ _ => ?_
    exact (failsWith_ensure (hP.invalidReplay _)).bind fun _ _ => ih _

omit [Crypto] in
/-- Errors of the sum of the outputs. -/
theorem replayOutputSum_failsWith (hP : ReplayErrors P) (outputs : List TxOutput) (sum : ℕ) :
    FailsWith P (replayOutputSum outputs sum) := by
  induction outputs generalizing sum with
  | nil => exact failsWith_ok _
  | cons output rest ih =>
    exact (failsWith_ensure (hP.invalidReplay _)).bind fun _ _ => ih _

/-- Errors of a signed spend. -/
theorem validateSignedReplaySpend_failsWith (hP : ReplayErrors P) (tx : Transaction)
    (inputState : ChainState) (chainId : String) (site : ReplaySite) :
    FailsWith P (validateSignedReplaySpend tx inputState chainId site) := by
  refine (failsWith_mapError fun _ => hP.invalidReplay _).bind fun _ _ => ?_
  refine (replayInputSum_failsWith hP _ _ _).bind fun _ _ => ?_
  refine (replayOutputSum_failsWith hP _ _).bind fun _ _ => ?_
  refine (failsWith_ensure (hP.invalidReplay _)).bind fun _ _ => ?_
  exact failsWith_ensure (hP.invalidReplay _)

/-- Errors of a transfer of immature rewards. -/
theorem validateImmatureTransfer_failsWith (hP : ReplayErrors P) (tx : Transaction)
    (historical : ChainState) (chainId : String) (site : ReplaySite) :
    FailsWith P (validateImmatureTransfer tx historical chainId site) := by
  refine (failsWith_ensure (hP.invalidReplay _)).bind fun _ _ => ?_
  refine (failsWith_mapError fun _ => hP.invalidReplay _).bind fun _ _ => ?_
  refine (failsWith_ensure (hP.invalidReplay _)).bind fun _ _ => ?_
  exact failsWith_mapError fun _ => hP.invalidReplay _

/-- Errors of authenticating a transfer. -/
theorem authenticateTransfer_failsWith (hP : ReplayErrors P) (chainId : String) (site : ReplaySite)
    (tx : Transaction) : FailsWith P (authenticateTransfer chainId site loop tx) := by
  unfold authenticateTransfer
  split
  · exact (validateSignedReplaySpend_failsWith hP _ _ _ _).bind fun _ _ => failsWith_ok _
  · refine FailsWith.bind ?_ fun _ _ => FailsWith.bind ?_ fun _ _ => failsWith_ok _
    · exact failsWith_forM fun _ _ => failsWith_ensure (hP.invalidReplay _)
    · split
      · exact validateImmatureTransfer_failsWith hP _ _ _ _
      · exact validateSignedReplaySpend_failsWith hP _ _ _ _

omit [Crypto] in
/-- Errors of recording a skipped output. -/
theorem recordSkippedOutput_failsWith (hP : ReplayErrors P) (tx : Transaction) (height : UInt64)
    (immature : Bool) (skipped : TreeMap OutPoint (Utxo × Bool)) (entry : TxOutput × ℕ) :
    FailsWith P
      (recordSkippedOutput referencedInputs loop tx height immature skipped entry) := by
  refine (failsWith_ensure (hP.invalidReplay _)).bind fun _ _ => ?_
  dsimp only
  split
  · exact failsWith_ok _
  · split
    · exact (failsWith_ensure (hP.invalidReplay _)).bind fun _ _ => failsWith_ok _
    · exact failsWith_ok _

omit [Crypto] in
/-- Errors of releasing a reference. -/
theorem releaseReference_failsWith (hP : ReplayErrors P) (input : TxInput) :
    FailsWith P (releaseReference loop input) := by
  unfold releaseReference
  dsimp only
  split
  · exact failsWith_ok _
  · refine (failsWith_ensure (hP.invalidReplay _)).bind fun _ _ => ?_
    split
    · exact failsWith_ok _
    · exact failsWith_ok _

/-- A transfer that stops the replay never does so with a taken outpoint: on a copy that error is
a lost conflict, and in place it is reported as an invalid replay. -/
theorem replayTransfer_failsWith (hP : ReplayErrors P) (chainId : String) (site : ReplaySite)
    (tx : Transaction) : FailsWith P (replayTransfer chainId referencedInputs site loop tx) := by
  refine (authenticateTransfer_failsWith hP _ _ _).bind fun immature _ => ?_
  refine FailsWith.bind ?_ fun archived _ => FailsWith.bind ?_ fun applied _ =>
    FailsWith.bind ?_ fun released _ => ?_
  · split
    · exact failsWith_mapM fun _ _ =>
        (failsWith_okOr (hP.invalidReplay _)).bind fun _ _ => failsWith_ok _
    · exact failsWith_ok _
  · unfold applyTransfer
    dsimp only
    split
    · exact (failsWith_mapError fun _ => hP.invalidReplay _).bind fun _ _ => failsWith_ok _
    · rw [applyAtomic_eq]
      exact failsWith_ok _
  · cases applied with
    | some rebuilt =>
      refine (failsWith_okOr (hP.internal _)).bind fun _ _ => ?_
      exact (failsWith_okOr (hP.invalidReplay _)).bind fun _ _ => failsWith_ok _
    | none =>
      refine FailsWith.bind ?_ fun _ _ => failsWith_ok _
      split
      · exact failsWith_ok _
      · exact failsWith_foldlM (I := fun _ => True)
          (fun _ _ _ _ => recordSkippedOutput_failsWith hP _ _ _ _ _)
            (fun _ _ _ _ _ _ => trivial) trivial
  · exact failsWith_foldlM (I := fun _ => True) (fun _ _ _ _ => releaseReference_failsWith hP _)
      (fun _ _ _ _ _ _ => trivial) trivial

omit [Crypto] in
/-- Errors of the search for the mature prefix. -/
theorem matureRewardPrefixScoreV3_failsWith (hP : ReplayErrors P) (score : ℕ) :
    FailsWith P (matureRewardPrefixScoreV3 score segments) := by
  have hreached : ∀ rewardScore, FailsWith P
      (Except.mapError (fun error => invalidReplay error.display)
        (economicMaturityReached rewardScore score segments)) :=
    fun _ => failsWith_mapError fun _ => hP.invalidReplay _
  unfold matureRewardPrefixScoreV3
  dsimp only
  split
  · exact failsWith_ok _
  · refine (hreached 1).bind fun answer _ => ?_
    split
    · exact searchLast_failsWith hreached _ _ _
    · exact failsWith_ok _

omit [Crypto] in
/-- Errors of collecting the inputs. -/
theorem prefixInputs_failsWith (hP : ReplayErrors P) (missing : Hash → String)
    (hashes : List Hash) : FailsWith P (prefixInputs state missing hashes) := by
  induction hashes with
  | nil => exact failsWith_ok _
  | cons hash rest ih =>
    rw [prefixInputs]
    split
    · exact ih
    · refine (failsWith_okOr (hP.invalidReplay _)).bind fun _ _ => ?_
      exact ih.bind fun _ _ => failsWith_ok _

/-- The settlement of a reward can also fail to put its coin in. -/
theorem settleReward_failsWith (hP : ReplayErrors P) {rewardScore : ℕ}
    (hadd : ∀ hash claimTxid (coin : Utxo), orderedDag.blocks[rewardScore]? = some hash →
      coin.outpoint = settlementOutpointV3 state.chainId hash claimTxid →
        FailsWith P (addCoin loop.rebuilt.utxo coin)) :
    FailsWith P (settleReward state segments orderedDag loop rewardScore) := by
  refine (failsWith_okOr (hP.internal _)).bind fun fees _ => ?_
  refine FailsWith.bind ?_ fun _ _ => failsWith_ok _
  refine (failsWith_okOr (hP.invalidReplay _)).bind fun hash hhash => ?_
  refine (failsWith_ensure (hP.invalidReplay _)).bind fun _ _ => ?_
  refine (failsWith_okOr (hP.invalidReplay _)).bind fun block _ => ?_
  refine (checkRewardBlock_failsWith hP _ _ _ _ _).bind fun claim _ => ?_
  refine (failsWith_okOr (hP.invalidReplay _)).bind fun beneficiary _ => ?_
  refine (failsWith_mapError fun _ => hP.invalidReplay _).bind fun subsidy _ => ?_
  refine (failsWith_okOr (hP.invalidReplay _)).bind fun amount _ => ?_
  exact (hadd hash claim.txid _ (okOr_eq_ok.mp hhash) rfl).bind fun _ _ => failsWith_ok _

/-- Errors of a block, given those of its settlements. -/
theorem replayBlock_failsWith (hP : ReplayErrors P) (entry : Hash × ℕ)
    (hsettle : ∀ block claimed transferred, state.dag.blocks[entry.1]? = some block →
      registerClaim state ⟨entry.2, entry.1, block⟩ loop = .ok claimed →
      (block.transactions.drop 1).foldlM
        (replayTransfer state.chainId referencedInputs ⟨entry.2, entry.1, block⟩) claimed =
          .ok transferred →
      ∀ mature, FailsWith P ((List.range' transferred.nextRewardScore
        (mature + 1 - transferred.nextRewardScore)).foldlM (settleReward state segments orderedDag)
          { transferred with matureRewardPrefixScore := mature })) :
    FailsWith P (replayBlock state segments orderedDag referencedInputs loop entry) := by
  unfold replayBlock
  split
  · exact failsWith_ok _
  · refine (failsWith_okOr (hP.invalidReplay _)).bind fun block hblock => ?_
    refine (registerClaim_failsWith hP _).bind fun claimed hclaimed => ?_
    refine FailsWith.bind ?_ fun transferred htransferred => ?_
    · exact failsWith_foldlM (I := fun _ => True) (fun _ _ _ _ => replayTransfer_failsWith hP _ _ _)
        (fun _ _ _ _ _ _ => trivial) trivial
    · refine (matureRewardPrefixScoreV3_failsWith hP _).bind fun mature _ => ?_
      exact hsettle block claimed transferred (okOr_eq_ok.mp hblock) hclaimed htransferred mature

/-- The errors of the loop are errors of its blocks from the states that it reaches. -/
theorem replayAuthoritativePrefixV3_failsWith (hP : ReplayErrors P) {I : ReplayLoopV3 → Prop}
    (hstart : ∀ loop : ReplayLoopV3, loop.rebuilt.utxo.utxos = ∅ → I loop)
    (hblock : ∀ referencedInputs loop entry, I loop →
      FailsWith P (replayBlock state segments orderedDag referencedInputs loop entry))
    (hkeep : ∀ referencedInputs loop entry next, I loop →
      replayBlock state segments orderedDag referencedInputs loop entry = .ok next → I next)
    (genesisTimestamp : UInt64) (endExclusive : ℕ) :
    FailsWith P
      (replayAuthoritativePrefixV3 state segments genesisTimestamp orderedDag endExclusive) := by
  refine (failsWith_ensure (hP.invalidReplay _)).bind fun _ _ => ?_
  refine (initChainStateV3_failsWith hP _ _).bind fun base hbase => ?_
  refine (failsWith_ensure (hP.invalidReplay _)).bind fun _ _ => ?_
  refine FailsWith.bind ?_ fun repeated _ => FailsWith.bind ?_ fun referenced _ => ?_
  · exact (prefixInputs_failsWith hP _ _).bind fun _ _ => failsWith_ok _
  · exact (prefixInputs_failsWith hP _ _).bind fun _ _ => failsWith_ok _
  · refine failsWith_foldlM (I := I) (fun _ _ _ hloop => hblock _ _ _ hloop)
      (fun _ _ _ _ hloop hstep => hkeep _ _ _ _ hloop hstep) (hstart _ ?_)
    simp only [initChainStateV3, ok_iff] at hbase
    obtain ⟨genesis, -, root, -, rfl⟩ := hbase
    rfl

end

end PulseDag
