import PulseDag.Ledger.RewardsV3

/-!
# Authoritative replay with matured rewards

`state_replay_v3.rs`. The blocks of the canonical order are replayed from the empty ledger of
a version 3 genesis. A transfer whose coins are all there is applied. A transfer whose coins
are gone is only authenticated against where its coins went, and skipped. Fees are kept per
score until the reward of the score is settled.

An index out of range, which panics in the source, is an error here.
-/

namespace PulseDag

/-- The variables of the loop of `replay_authoritative_prefix_v3`. -/
structure ReplayLoopV3 where
  rebuilt : ChainState
  validatedRewardClaims : ℕ := 0
  appliedTransactions : ℕ := 0
  skippedConflictingTransactions : ℕ := 0
  materializedRewards : ℕ := 0
  conflictDiagnostics : List String := []
  nextRewardScore : ℕ := 1
  matureRewardPrefixScore : ℕ := 0
  eligibleFeesByScore : List UInt64
  repeatedInputReferences : TreeMap OutPoint ℕ
  spentByAcceptedTransfer : TreeMap OutPoint Utxo := ∅
  validatedRewardOutpoints : TreeMap OutPoint Utxo := ∅
  skippedSignedOutputs : TreeMap OutPoint (Utxo × Bool) := ∅

/-- `StateReplayV3Diagnostics`. -/
structure StateReplayV3Diagnostics where
  validatedRewardClaims : ℕ
  appliedTransactions : ℕ
  skippedConflictingTransactions : ℕ
  materializedRewards : ℕ
  matureRewardPrefixScore : ℕ
  conflictDiagnostics : List String
  stateRoot : String
  orderedDagTip : Option Hash
  orderedDagDigest : String
  deriving DecidableEq, Repr

/-- `StateReplayV3`. -/
structure StateReplayV3 where
  utxo : UtxoState
  orderedDag : OrderedDagV2
  eligibleFeesByScore : List UInt64
  diagnostics : StateReplayV3Diagnostics

/-- Where a transfer stands in the order: the position, the hash in the order and the block. -/
structure ReplaySite where
  orderedPos : ℕ
  hash : Hash
  block : Block

/-- The loop that adds up the coins a transfer spends. -/
def replayInputSum (utxos : TreeMap OutPoint Utxo) : List TxInput → ℕ → Except PulseError ℕ
  | [], sum => .ok sum
  | input :: rest, sum => do
    let coin ← okOr utxos[input.previousOutput]?
      (invalidReplay "signed input vanished before replay")
    ensure (sum + coin.amount.toNat ≤ u128Max) (invalidReplay "signed input amount overflow")
    replayInputSum utxos rest (sum + coin.amount.toNat)

/-- The loop that adds up the outputs of a transfer. -/
def replayOutputSum : List TxOutput → ℕ → Except PulseError ℕ
  | [], sum => .ok sum
  | output :: rest, sum => do
    ensure (sum + output.amount.toNat ≤ u128Max) (invalidReplay "signed output amount overflow")
    replayOutputSum rest (sum + output.amount.toNat)

/-- Count one reference to an outpoint: the outpoints seen once, and the counts of the others. -/
def countReference (counts : TreeSet OutPoint × TreeMap OutPoint ℕ) (outpoint : OutPoint) :
    TreeSet OutPoint × TreeMap OutPoint ℕ :=
  match counts.2[outpoint]? with
  | some count => (counts.1, counts.2.insert outpoint (count + 1))
  | none =>
    if outpoint ∈ counts.1 then (counts.1, counts.2.insert outpoint 2)
    else (counts.1.insert outpoint, counts.2)

/-- The outpoints that the transfers of a block spend, in order. -/
def transferInputs (block : Block) : List OutPoint :=
  (block.transactions.drop 1).flatMap fun tx => tx.inputs.map TxInput.previousOutput

/-- The outpoints spent by the transfers of the listed blocks other than the genesis block. -/
def prefixInputs (state : ChainState) (missing : Hash → String) :
    List Hash → Except PulseError (List OutPoint)
  | [] => .ok []
  | hash :: rest =>
    if hash = state.dag.genesisHash then prefixInputs state missing rest
    else do
      let block ← okOr state.dag.blocks[hash]? (invalidReplay (missing hash))
      let inputs ← prefixInputs state missing rest
      pure (transferInputs block ++ inputs)

/-- `repeated_replay_input_counts_v3`. -/
def repeatedReplayInputCountsV3 (state : ChainState) (orderedDag : OrderedDagV2)
    (endExclusive : ℕ) : Except PulseError (TreeMap OutPoint ℕ) := do
  let inputs ← prefixInputs state
    (fun hash => s!"ordered block {hash} missing during input preindex")
    (orderedDag.blocks.take endExclusive)
  pure (inputs.foldl countReference (∅, ∅)).2

/-- The loop that collects `referenced_inputs`. -/
def referencedReplayInputs (state : ChainState) (orderedDag : OrderedDagV2)
    (endExclusive : ℕ) : Except PulseError (TreeSet OutPoint) := do
  let inputs ← prefixInputs state
    (fun hash => s!"ordered block {hash} missing during input scan")
    (orderedDag.blocks.take endExclusive)
  pure (inputs.foldl (fun referenced outpoint => referenced.insert outpoint) ∅)

/-- Whether a transfer has inputs and all of them are unspent. -/
def allInputsAvailable (utxos : TreeMap OutPoint Utxo) (tx : Transaction) : Bool :=
  !tx.inputs.isEmpty && tx.inputs.all fun input => decide (input.previousOutput ∈ utxos)

/-- The missing inputs of a transfer must come from somewhere: an accepted spend, a validated
claim or an output of a skipped transfer. -/
def checkProvenance (loop : ReplayLoopV3) (site : ReplaySite) (tx : Transaction) :
    Except PulseError Unit :=
  tx.inputs.forM fun input =>
    let outpoint := input.previousOutput
    ensure (outpoint ∈ loop.rebuilt.utxo.utxos ∨ outpoint ∈ loop.spentByAcceptedTransfer ∨
        outpoint ∈ loop.validatedRewardOutpoints ∨ outpoint ∈ loop.skippedSignedOutputs)
      (invalidReplay
        (s!"ordered_pos={site.orderedPos} block={site.hash} transfer {tx.txid} references " ++
          s!"outpoint {outpoint.txid}:{outpoint.index} without authenticated replay provenance"))

/-- The coin that stands for a missing input, and whether its value is unknown. -/
def provenanceCoin (loop : ReplayLoopV3) (outpoint : OutPoint) : Option (Utxo × Bool) :=
  match loop.spentByAcceptedTransfer[outpoint]? with
  | some coin => some (coin, false)
  | none =>
    match loop.validatedRewardOutpoints[outpoint]? with
    | some coin => some (coin, true)
    | none => loop.skippedSignedOutputs[outpoint]?

/-- Add the coin of one missing input to the historical ledger; the flag records a coin of
unknown value. -/
def restoreInput (loop : ReplayLoopV3) (historical : UtxoState × Bool) (input : TxInput) :
    UtxoState × Bool :=
  let outpoint := input.previousOutput
  if outpoint ∈ historical.1.utxos then historical
  else
    match provenanceCoin loop outpoint with
    | none => historical
    | some (coin, unknownValue) =>
      ({ utxos := historical.1.utxos.insert outpoint coin
         addressIndex := historical.1.addressIndex.insert coin.address
           (historical.1.addressIndex[coin.address]?.getD [] ++ [outpoint]) },
        historical.2 || unknownValue)

/-- The ledger against which a transfer with missing inputs is authenticated. -/
def historicalLedger (loop : ReplayLoopV3) (tx : Transaction) : UtxoState × Bool :=
  tx.inputs.foldl (restoreInput loop) (loop.rebuilt.utxo, false)

/-- Whether `apply_transaction` can change the state in place. -/
def inPlaceSafe (utxos : TreeMap OutPoint Utxo) (tx : Transaction) : Bool :=
  allInputsAvailable utxos tx && decide (tx.outputs.length < 2 ^ 32) &&
    (outpointsOf tx).all fun outpoint => decide (outpoint ∉ utxos)

/-- The spent coins that a later transfer refers to. -/
def archivedInputs (loop : ReplayLoopV3) (tx : Transaction) :
    Except PulseError (List (OutPoint × Utxo)) :=
  (tx.inputs.filter fun input =>
    decide (input.previousOutput ∈ loop.repeatedInputReferences)).mapM fun input => do
      let coin ← okOr loop.rebuilt.utxo.utxos[input.previousOutput]?
        (invalidReplay "accepted transfer input missing")
      pure (input.previousOutput, coin)

/-- Keep an output of a skipped transfer for its descendants. -/
def recordSkippedOutput (referencedInputs : TreeSet OutPoint) (loop : ReplayLoopV3)
    (tx : Transaction) (height : UInt64) (hasImmatureReward : Bool)
    (skipped : TreeMap OutPoint (Utxo × Bool)) (entry : TxOutput × ℕ) :
    Except PulseError (TreeMap OutPoint (Utxo × Bool)) := do
  ensure (entry.2 < 2 ^ 32) (invalidReplay "skipped output index overflow")
  let outpoint := outpointAt tx.txid entry.2
  if outpoint ∉ referencedInputs ∨ outpoint ∈ loop.rebuilt.utxo.utxos ∨
      outpoint ∈ loop.spentByAcceptedTransfer then
    pure skipped
  else
    match skipped[outpoint]? with
    | some (existing, unknownValue) =>
      ensure (existing.address = entry.1.address ∧ existing.amount = entry.1.amount ∧
          existing.coinbase = false)
        (invalidReplay "conflicting authenticated skipped output provenance")
      pure (skipped.insert outpoint (existing, unknownValue || hasImmatureReward))
    | none =>
      pure (skipped.insert outpoint
        ({ outpoint := outpoint, address := entry.1.address, amount := entry.1.amount,
           coinbase := false, height := height }, hasImmatureReward))

/-- Count an examined input down; its archived coin is dropped after the last reference. -/
def releaseReference (loop : ReplayLoopV3) (input : TxInput) : Except PulseError ReplayLoopV3 :=
  let outpoint := input.previousOutput
  match loop.repeatedInputReferences[outpoint]? with
  | none => .ok loop
  | some remaining => do
    ensure (remaining ≠ 0) (invalidReplay "input reference count underflow")
    if remaining - 1 = 0 then
      pure { loop with
        repeatedInputReferences := loop.repeatedInputReferences.erase outpoint
        spentByAcceptedTransfer := loop.spentByAcceptedTransfer.erase outpoint }
    else
      pure { loop with
        repeatedInputReferences := loop.repeatedInputReferences.insert outpoint (remaining - 1) }

section

variable [Crypto]

/-- `validate_signed_replay_spend`. -/
def validateSignedReplaySpend (tx : Transaction) (inputState : ChainState) (chainId : String)
    (site : ReplaySite) : Except PulseError Unit := do
  Except.mapError (fun error => invalidReplay
      (s!"ordered_pos={site.orderedPos} block={site.hash} invalid signed transfer {tx.txid}: " ++
        s!"{error.display}"))
    (validateTransactionV2 tx inputState chainId)
  let inputs ← replayInputSum inputState.utxo.utxos tx.inputs 0
  let outputs ← replayOutputSum tx.outputs 0
  ensure (outputs + tx.fee.toNat ≤ u128Max) (invalidReplay "signed transfer fee overflow")
  ensure (inputs = outputs + tx.fee.toNat) (invalidReplay
    (s!"ordered_pos={site.orderedPos} block={site.hash} signed input/output/fee " ++
      s!"nonconservation for {tx.txid}"))

/-- The checks on a transfer that spends a reward of unknown value: its shape, its id and its
signatures. -/
def validateImmatureTransfer (tx : Transaction) (historical : ChainState) (chainId : String)
    (site : ReplaySite) : Except PulseError Unit := do
  ensure (tx.outputs ≠ [] ∧ (∀ output ∈ tx.outputs, output.amount ≠ 0) ∧
      (tx.inputs.map TxInput.previousOutput).Nodup)
    (invalidReplay
    (s!"ordered_pos={site.orderedPos} block={site.hash} malformed immature signed transfer " ++
      s!"{tx.txid}"))
  let expectedTxid ← Except.mapError (fun error => invalidReplay error.display)
    (computeTxidV2 tx chainId)
  ensure (expectedTxid = tx.txid)
    (invalidReplay
    (s!"ordered_pos={site.orderedPos} block={site.hash} invalid immature signed transfer txid " ++
      s!"{tx.txid}"))
  Except.mapError (fun error => invalidReplay
      (s!"ordered_pos={site.orderedPos} block={site.hash} invalid immature signed transfer " ++
        s!"{tx.txid}: {error.display}"))
    (verifyTransactionSignaturesV2 tx historical chainId)

/-- Authenticate a transfer; the answer is `has_immature_reward`. -/
def authenticateTransfer (chainId : String) (site : ReplaySite) (loop : ReplayLoopV3)
    (tx : Transaction) : Except PulseError Bool :=
  if allInputsAvailable loop.rebuilt.utxo.utxos tx then do
    validateSignedReplaySpend tx loop.rebuilt chainId site
    pure false
  else do
    checkProvenance loop site tx
    let restored := historicalLedger loop tx
    let historical := { loop.rebuilt with utxo := restored.1 }
    (if restored.2 then validateImmatureTransfer tx historical chainId site
      else validateSignedReplaySpend tx historical chainId site)
    pure restored.2

/-- Apply a transfer in place where that is safe, and on a copy otherwise. `none` is a
transfer that lost a conflict. -/
def applyTransfer (site : ReplaySite) (loop : ReplayLoopV3) (tx : Transaction) :
    Except PulseError (Option ChainState) :=
  let height := site.block.header.height
  if inPlaceSafe loop.rebuilt.utxo.utxos tx then do
    let applied ← Except.mapError (fun error => invalidReplay
        s!"validated in-place transfer {tx.txid} unexpectedly failed: {error.display}")
      (applyTransaction tx loop.rebuilt height)
    pure (some applied)
  else
    applyAtomic tx loop.rebuilt height

/-- The bookkeeping for an applied transfer. -/
def acceptTransfer (site : ReplaySite) (loop : ReplayLoopV3) (tx : Transaction)
    (archived : List (OutPoint × Utxo)) (rebuilt : ChainState) :
    Except PulseError ReplayLoopV3 := do
  let fees ← okOr loop.eligibleFeesByScore[site.orderedPos]? (.internal "index out of bounds")
  let extended ← okOr (checkedAdd fees tx.fee)
    (invalidReplay "eligible fee arithmetic overflow")
  pure { loop with
    rebuilt := rebuilt
    spentByAcceptedTransfer := insertAll loop.spentByAcceptedTransfer archived
    eligibleFeesByScore := loop.eligibleFeesByScore.set site.orderedPos extended
    appliedTransactions := loop.appliedTransactions + 1 }

/-- The bookkeeping for a skipped transfer. -/
def skipTransfer (referencedInputs : TreeSet OutPoint) (site : ReplaySite) (loop : ReplayLoopV3)
    (tx : Transaction) (hasImmatureReward : Bool) : Except PulseError ReplayLoopV3 := do
  let skipped ←
    (if allInputsAvailable loop.rebuilt.utxo.utxos tx then pure loop.skippedSignedOutputs
    else
      tx.outputs.zipIdx.foldlM
        (recordSkippedOutput referencedInputs loop tx site.block.header.height hasImmatureReward)
        loop.skippedSignedOutputs)
  pure { loop with
    skippedSignedOutputs := skipped
    skippedConflictingTransactions := loop.skippedConflictingTransactions + 1
    conflictDiagnostics := loop.conflictDiagnostics ++
      [s!"ordered_pos={site.orderedPos} block={site.block.hash} tx={tx.txid} " ++
        "skipped_conflict_atomic"] }

/-- The loop body for one transfer. -/
def replayTransfer (chainId : String) (referencedInputs : TreeSet OutPoint) (site : ReplaySite)
    (loop : ReplayLoopV3) (tx : Transaction) : Except PulseError ReplayLoopV3 := do
  let hasImmatureReward ← authenticateTransfer chainId site loop tx
  let archived ←
    (if inPlaceSafe loop.rebuilt.utxo.utxos tx then archivedInputs loop tx else pure [])
  let applied ← applyTransfer site loop tx
  let next ←
    (match applied with
    | some rebuilt => acceptTransfer site loop tx archived rebuilt
    | none => skipTransfer referencedInputs site loop tx hasImmatureReward)
  tx.inputs.foldlM releaseReference next

/-- Settle the reward of one score. -/
def settleReward (state : ChainState) (segments : List MonetaryCadenceSegment)
    (orderedDag : OrderedDagV2) (loop : ReplayLoopV3) (rewardScore : ℕ) :
    Except PulseError ReplayLoopV3 := do
  let fees ← okOr loop.eligibleFeesByScore[rewardScore]? (.internal "index out of bounds")
  let settled ← materializeRewardAtScore loop.rebuilt state orderedDag rewardScore fees segments
  pure { loop with
    rebuilt := settled.2
    validatedRewardOutpoints := loop.validatedRewardOutpoints.erase settled.1
    materializedRewards := loop.materializedRewards + 1
    nextRewardScore := rewardScore + 1 }

/-- Settle the rewards that are mature after a score. -/
def settleMatureRewards (state : ChainState) (segments : List MonetaryCadenceSegment)
    (orderedDag : OrderedDagV2) (currentScore : ℕ) (loop : ReplayLoopV3) :
    Except PulseError ReplayLoopV3 := do
  let mature ← matureRewardPrefixScoreV3 currentScore segments
  (List.range' loop.nextRewardScore (mature + 1 - loop.nextRewardScore)).foldlM
    (settleReward state segments orderedDag) { loop with matureRewardPrefixScore := mature }

/-- Check the claim of a block and note where its reward will appear. -/
def registerClaim (state : ChainState) (site : ReplaySite) (loop : ReplayLoopV3) :
    Except PulseError ReplayLoopV3 := do
  let claim ← checkRewardBlock site.block state.chainId s!"block {site.hash} has no reward claim"
    s!"block {site.hash}: " s!"block {site.hash} contains an additional inputless transaction"
  let rewardOutpoint := settlementOutpointV3 state.chainId site.hash claim.txid
  let beneficiary ← okOr claim.outputs.head?
    (invalidReplay "validated claim lost its beneficiary")
  pure { loop with
    validatedRewardClaims := loop.validatedRewardClaims + 1
    validatedRewardOutpoints := loop.validatedRewardOutpoints.insert rewardOutpoint
      { outpoint := rewardOutpoint, address := beneficiary.address, amount := 0,
        coinbase := true, height := site.block.header.height } }

/-- The loop body for one position of the order. -/
def replayBlock (state : ChainState) (segments : List MonetaryCadenceSegment)
    (orderedDag : OrderedDagV2) (referencedInputs : TreeSet OutPoint) (loop : ReplayLoopV3)
    (entry : Hash × ℕ) : Except PulseError ReplayLoopV3 :=
  if entry.1 = state.dag.genesisHash then .ok loop
  else do
    let block ← okOr state.dag.blocks[entry.1]?
      (invalidReplay s!"ordered block {entry.1} is missing")
    let site : ReplaySite := ⟨entry.2, entry.1, block⟩
    let claimed ← registerClaim state site loop
    let transferred ← (block.transactions.drop 1).foldlM
      (replayTransfer state.chainId referencedInputs site) claimed
    settleMatureRewards state segments orderedDag entry.2 transferred

/-- `replay_authoritative_prefix_v3`. -/
def replayAuthoritativePrefixV3 (state : ChainState) (segments : List MonetaryCadenceSegment)
    (genesisTimestamp : UInt64) (orderedDag : OrderedDagV2) (endExclusive : ℕ) :
    Except PulseError ReplayLoopV3 := do
  ensure (endExclusive ≤ orderedDag.blocks.length)
    (invalidReplay "replay prefix exceeds ordered DAG length")
  let base ← initChainStateV3 state.chainId genesisTimestamp
  ensure (base.dag.genesisHash = state.dag.genesisHash) (invalidReplay
    (s!"v3 genesis identity mismatch: expected {state.dag.genesisHash}, rebuilt " ++
      s!"{base.dag.genesisHash}"))
  let rebuilt : ChainState :=
    { base with
      dag := { base.dag with
        consensusMode := state.dag.consensusMode
        selectedParentPolicy := state.dag.selectedParentPolicy } }
  let repeated ← repeatedReplayInputCountsV3 state orderedDag endExclusive
  let referencedInputs ← referencedReplayInputs state orderedDag endExclusive
  (orderedDag.blocks.take endExclusive).zipIdx.foldlM
    (replayBlock state segments orderedDag referencedInputs)
    { rebuilt := rebuilt
      eligibleFeesByScore := List.replicate orderedDag.blocks.length 0
      repeatedInputReferences := repeated }

/-- `validate_v3_replay_source`. -/
def validateV3ReplaySource (state : ChainState) : Except PulseError (Block × OrderedDagV2) := do
  let genesis ← okOr state.dag.blocks[state.dag.genesisHash]?
    (invalidReplay "full replay requires the v3 genesis block")
  ensure (genesis.transactions = [])
    (invalidReplay "v3 reward replay requires zero-allocation transactionless genesis")
  let orderedDag ← Except.mapError
    (fun error => invalidReplay ("ordered DAG unavailable: " ++ error.debug))
    (deriveOrderedDagV2 state)
  ensure (orderedDag.blocks.head? = some state.dag.genesisHash)
    (invalidReplay "ordered DAG does not start at genesis")
  pure (genesis, orderedDag)

/-- `rebuild_authoritative_state_v3`. -/
def rebuildAuthoritativeStateV3 (state : ChainState) (segments : List MonetaryCadenceSegment) :
    Except PulseError StateReplayV3 := do
  let (genesis, orderedDag) ← validateV3ReplaySource state
  let replay ← replayAuthoritativePrefixV3 state segments genesis.header.timestamp orderedDag
    orderedDag.blocks.length
  let stateRoot ← replay.rebuilt.utxo.computeStateRoot
  pure
    { utxo := replay.rebuilt.utxo
      orderedDag := orderedDag
      eligibleFeesByScore := replay.eligibleFeesByScore
      diagnostics :=
        { validatedRewardClaims := replay.validatedRewardClaims
          appliedTransactions := replay.appliedTransactions
          skippedConflictingTransactions := replay.skippedConflictingTransactions
          materializedRewards := replay.materializedRewards
          matureRewardPrefixScore := replay.matureRewardPrefixScore
          conflictDiagnostics := replay.conflictDiagnostics
          stateRoot := stateRoot
          orderedDagTip := orderedDag.blocks.getLast?
          orderedDagDigest := orderedDag.digest } }

/-- `materialize_authoritative_pre_candidate_state_v3`. -/
def materializeAuthoritativePreCandidateStateV3 (context : ChainState) (candidateHash : Hash)
    (segments : List MonetaryCadenceSegment) : Except PulseError ChainState := do
  let (genesis, orderedDag) ← validateV3ReplaySource context
  ensure (orderedDag.blocks.getLast? = some candidateHash) (invalidReplay
    ("candidate " ++ candidateHash ++ " is not the tip of its own authoritative context " ++
      debugOption orderedDag.blocks.getLast?))
  let candidatePos ← okOr (orderedDag.blocks.idxOf? candidateHash)
    (invalidReplay "candidate is missing from authoritative order")
  let replay ← replayAuthoritativePrefixV3 context segments genesis.header.timestamp orderedDag
    candidatePos
  let stateRoot ← replay.rebuilt.utxo.computeStateRoot
  pure
    { context with
      utxo := replay.rebuilt.utxo
      dag := { context.dag with
        orderedDag := orderedDag.blocks.take candidatePos
        orderingVersion := orderedDag.orderingVersion
        orderedDagTip := if candidatePos = 0 then none else orderedDag.blocks[candidatePos - 1]?
        orderedDagStateRoot := some stateRoot
        orderedDagConflictDiagnostics := replay.conflictDiagnostics }
      mempool := { context.mempool with
        transactions := ∅
        spentOutpoints := ∅
        firstSeen := ∅
        admissionHeight := ∅ } }

/-- `materialize_authoritative_state_v3`. -/
def materializeAuthoritativeStateV3 (state : ChainState)
    (segments : List MonetaryCadenceSegment) : Except PulseError ChainState := do
  let replay ← rebuildAuthoritativeStateV3 state segments
  pure
    { state with
      utxo := replay.utxo
      dag := { state.dag with
        orderedDag := replay.orderedDag.blocks
        orderingVersion := replay.orderedDag.orderingVersion
        orderedDagTip := replay.diagnostics.orderedDagTip
        orderedDagStateRoot := some replay.diagnostics.stateRoot
        orderedDagConflictDiagnostics := replay.diagnostics.conflictDiagnostics } }

end

end PulseDag
