import PulseDag.Core.Identity
import PulseDag.Ledger.Index
import PulseDag.Ledger.ReplayStep

/-!
# Where coins come from

A replay puts coins into the ledger by transfers and by settled rewards. With a collision-free
digest no outpoint is used twice: the id of a transfer determines its inputs, which are gone
once the transfer has been applied, and the outpoint of a reward determines its block.
-/

namespace PulseDag

open List

variable {outpoint : OutPoint} {tx : Transaction} {site : ReplaySite}

/-- The outpoints of a transaction have its id. -/
theorem txid_of_mem_outpointsOf (h : outpoint ∈ outpointsOf tx) : outpoint.txid = tx.txid := by
  obtain ⟨index, -, rfl⟩ := mem_map.mp h
  rfl

/-- An applied transfer spends coins that are there. -/
theorem TransferApplied.inputs_present {loop next : ReplayLoopV3}
    (h : TransferApplied site loop tx next) (hinputs : tx.inputs ≠ []) :
    ∀ input ∈ tx.inputs, input.previousOutput ∈ loop.rebuilt.utxo.utxos := by
  intro input hinput
  refine h.applicable.spent_mem _ ?_
  rw [spentOutpoints_of_inputs hinputs]
  exact mem_map_of_mem hinput

/-- The ledger after an applied transfer. -/
theorem TransferApplied.mem_utxos {loop next : ReplayLoopV3}
    (h : TransferApplied site loop tx next) :
    outpoint ∈ next.rebuilt.utxo.utxos ↔
      outpoint ∈ outpointsOf tx ∨ (outpoint ∉ spentOutpoints tx ∧
        outpoint ∈ loop.rebuilt.utxo.utxos) := by
  rw [(applyTransaction_eq_ok h.rebuilt).2.1, mem_spendAndCreate]

section

variable [Crypto]

variable {chainId : String}

/-- The outpoint of a settled reward determines the block. -/
theorem settlementOutpointV3_inj (hsha : Function.Injective Crypto.sha256)
    {hash hash' claim claim' : Hash} (hfits : FitsStr hash) (hfits' : FitsStr hash')
    (heq : settlementOutpointV3 chainId hash claim = settlementOutpointV3 chainId hash' claim') :
    hash = hash' := by
  have hpreimage := sha256Hex_injective hsha (congrArg OutPoint.txid heq)
  simp only [append_assoc, append_cancel_left_eq] at hpreimage
  exact (selfDelimiting_encodeLenPrefixedStr hfits hfits' hpreimage).1

/-- Rewards and transactions have different domains. -/
theorem settlementOutpointV3_txid_ne (hsha : Function.Injective Crypto.sha256)
    (hid : Identified tx chainId) (hash claim : Hash) :
    (settlementOutpointV3 chainId hash claim).txid ≠ tx.txid := by
  intro heq
  rw [computeTxidV2_eq_ok hid] at heq
  have hpreimage := sha256Hex_injective hsha heq
  simp only [txidPreimageV2, append_assoc] at hpreimage
  have hdomain := (selfDelimiting_encodeLenPrefixedStr (by decide) (by decide) hpreimage).1
  exact absurd hdomain (by decide)

/-- An authenticated transfer states its computed id. -/
theorem authenticateTransfer_identified {loop : ReplayLoopV3} {immature : Bool}
    (h : authenticateTransfer chainId site loop tx = .ok immature) : Identified tx chainId := by
  have hspend : ∀ (state : ChainState) (u : Unit),
      validateSignedReplaySpend tx state chainId site = .ok u → Identified tx chainId := by
    intro state u hspend
    simp only [validateSignedReplaySpend, validateTransactionV2, validateTransactionWith,
      bind_eq_ok, mapError_eq_ok, ensure_eq_ok] at hspend
    obtain ⟨-, ⟨-, -, -, -, -, -, -, -, computed, hcomputed, -, rfl, -⟩, -⟩ := hspend
    exact hcomputed
  unfold authenticateTransfer at h
  split at h
  · rw [bind_eq_ok] at h
    obtain ⟨u, hvalid, -⟩ := h
    exact hspend _ u hvalid
  · simp only [bind_eq_ok] at h
    obtain ⟨-, -, u, hvalid, -⟩ := h
    split at hvalid
    · simp only [validateImmatureTransfer, bind_eq_ok, mapError_eq_ok, ensure_eq_ok] at hvalid
      obtain ⟨-, -, computed, hcomputed, -, rfl, -⟩ := hvalid
      exact hcomputed
    · exact hspend _ u hvalid

/-- A replayed transfer is authenticated. -/
theorem replayTransfer_authenticated {referencedInputs : TreeSet OutPoint}
    {loop next : ReplayLoopV3}
    (h : replayTransfer chainId referencedInputs site loop tx = .ok next) :
    ∃ immature, authenticateTransfer chainId site loop tx = .ok immature := by
  simp only [replayTransfer, bind_eq_ok] at h
  obtain ⟨immature, hauth, -⟩ := h
  exact ⟨immature, hauth⟩

/-- Settling a reward puts one coin under the outpoint of its block. -/
theorem settleReward_inserts {state : ChainState} {segments : List MonetaryCadenceSegment}
    {orderedDag : OrderedDagV2} {loop next : ReplayLoopV3} {rewardScore : ℕ}
    (h : settleReward state segments orderedDag loop rewardScore = .ok next) :
    ∃ hash claim coin, orderedDag.blocks[rewardScore]? = some hash ∧
      settlementOutpointV3 state.chainId hash claim ∉ loop.rebuilt.utxo.utxos ∧
      next.rebuilt.utxo.utxos =
        loop.rebuilt.utxo.utxos.insert (settlementOutpointV3 state.chainId hash claim) coin ∧
      next.nextRewardScore = rewardScore + 1 := by
  simp only [settleReward, materializeRewardAtScore, ok_iff] at h
  obtain ⟨fees, -, settled, ⟨hash, hhash, -, -, block, -, claim, -, beneficiary, -, subsidy, -,
    amount, -, utxo, hutxo, rfl⟩, rfl⟩ := h
  obtain ⟨hfree, hinsert⟩ := addCoin_eq_ok hutxo
  exact ⟨hash, claim.txid, _, hhash, hfree, hinsert, rfl⟩

end

/-! ## Runs -/

/-- The records of a replay fit the length prefixes of their encodings; a longer field makes
the source panic. -/
structure ReplayFits (state : ChainState) (orderedDag : OrderedDagV2) : Prop where
  hashes : ∀ hash ∈ orderedDag.blocks, FitsStr hash
  transactions : ∀ (hash : Hash) (block : Block), state.dag.blocks[hash]? = some block →
    ∀ tx ∈ block.transactions, tx.Fits

/-- The lengths fit, as a check of all blocks. -/
theorem ReplayFits.of_toList {state : ChainState} {orderedDag : OrderedDagV2}
    (hhashes : ∀ hash ∈ orderedDag.blocks, FitsStr hash)
    (htransactions : ∀ entry ∈ state.dag.blocks.toList, ∀ tx ∈ entry.2.transactions, tx.Fits) :
    ReplayFits state orderedDag :=
  ⟨hhashes, fun hash block hblock tx htx =>
    htransactions (hash, block) ((TreeMap.mem_toList _ _ _).mpr hblock) tx htx⟩

section

variable [Crypto] (state : ChainState) (segments : List MonetaryCadenceSegment)
  (orderedDag : OrderedDagV2) (referencedInputs : TreeSet OutPoint)

/-- The steps of a replay, with the outpoints that they put into the ledger. -/
inductive CoinStep : ReplayLoopV3 → List OutPoint → ReplayLoopV3 → Prop
  | claimed {site : ReplaySite} {loop next : ReplayLoopV3} :
      registerClaim state site loop = .ok next → CoinStep loop [] next
  | applied {site : ReplaySite} {loop next : ReplayLoopV3} {tx : Transaction} :
      state.dag.blocks[site.hash]? = some site.block → tx ∈ site.block.transactions →
      replayTransfer state.chainId referencedInputs site loop tx = .ok next →
      TransferApplied site loop tx next → CoinStep loop (outpointsOf tx) next
  | skipped {site : ReplaySite} {loop next : ReplayLoopV3} {tx : Transaction} :
      replayTransfer state.chainId referencedInputs site loop tx = .ok next →
      TransferSkipped loop tx next → CoinStep loop [] next
  | matured {loop : ReplayLoopV3} (score : ℕ) :
      CoinStep loop [] { loop with matureRewardPrefixScore := score }
  | settled {loop next : ReplayLoopV3} {outpoint : OutPoint} {coin : Utxo} :
      settleReward state segments orderedDag loop loop.nextRewardScore = .ok next →
      outpoint ∉ loop.rebuilt.utxo.utxos →
      next.rebuilt.utxo.utxos = loop.rebuilt.utxo.utxos.insert outpoint coin →
      CoinStep loop [outpoint] next

/-- A sequence of steps, with the outpoints that it puts into the ledger, in order. -/
inductive CoinRun : ReplayLoopV3 → List OutPoint → ReplayLoopV3 → Prop
  | refl (loop : ReplayLoopV3) : CoinRun loop [] loop
  | step {first middle last : ReplayLoopV3} {log inserted : List OutPoint} :
      CoinRun first log middle →
      CoinStep state segments orderedDag referencedInputs middle inserted last →
      CoinRun first (log ++ inserted) last

variable {state segments orderedDag referencedInputs} {first middle last loop next : ReplayLoopV3}
  {log log' inserted : List OutPoint}

/-- Some run leads from one state of the loop to another. -/
def CoinReach (state : ChainState) (segments : List MonetaryCadenceSegment)
    (orderedDag : OrderedDagV2) (referencedInputs : TreeSet OutPoint)
    (first last : ReplayLoopV3) : Prop :=
  ∃ log, CoinRun state segments orderedDag referencedInputs first log last

/-- One step more. -/
theorem CoinReach.step (h : CoinReach state segments orderedDag referencedInputs first middle)
    (hstep : CoinStep state segments orderedDag referencedInputs middle inserted last) :
    CoinReach state segments orderedDag referencedInputs first last := by
  obtain ⟨log, hrun⟩ := h
  exact ⟨log ++ inserted, hrun.step hstep⟩

/-- A transfer is a step. -/
theorem CoinReach.transfer
    (hreach : CoinReach state segments orderedDag referencedInputs first loop)
    (hblock : state.dag.blocks[site.hash]? = some site.block) (htx : tx ∈ site.block.transactions)
    (h : replayTransfer state.chainId referencedInputs site loop tx = .ok next) :
    CoinReach state segments orderedDag referencedInputs first next := by
  rcases replayTransfer_cases h with happlied | hskipped
  · exact hreach.step (.applied hblock htx h happlied)
  · exact hreach.step (.skipped h hskipped)

/-- A settlement is a step. -/
theorem CoinReach.settle
    (hreach : CoinReach state segments orderedDag referencedInputs first loop)
    (h : settleReward state segments orderedDag loop loop.nextRewardScore = .ok next) :
    CoinReach state segments orderedDag referencedInputs first next := by
  obtain ⟨hash, claim, coin, -, hfree, hinsert, -⟩ := settleReward_inserts h
  exact hreach.step (.settled h hfree hinsert)

/-- Settlements are steps. -/
theorem CoinReach.settleRewards {count : ℕ}
    (hreach : CoinReach state segments orderedDag referencedInputs first loop)
    (h : (List.range' loop.nextRewardScore count).foldlM (settleReward state segments orderedDag)
      loop = .ok next) : CoinReach state segments orderedDag referencedInputs first next := by
  induction count generalizing loop with
  | zero =>
    obtain rfl := Except.ok.inj h
    exact hreach
  | succ count ih =>
    rw [range'_succ, foldlM_cons, bind_eq_ok] at h
    obtain ⟨settled, hsettled, hrest⟩ := h
    obtain ⟨_, _, _, -, -, -, hnext⟩ := settleReward_inserts hsettled
    rw [← hnext] at hrest
    exact ih (hreach.settle hsettled) hrest

/-- The transfers of a block are steps. -/
theorem CoinReach.transfers (site : ReplaySite)
    (hreach : CoinReach state segments orderedDag referencedInputs first loop)
    (hblock : state.dag.blocks[site.hash]? = some site.block)
    (h : (site.block.transactions.drop 1).foldlM
      (replayTransfer state.chainId referencedInputs site) loop = .ok next) :
    CoinReach state segments orderedDag referencedInputs first next :=
  foldlM_induction (fun _ _ _ htx hbefore hafter =>
    hbefore.transfer hblock (mem_of_mem_drop htx) hafter) hreach h

/-- One block of the replay is a run of steps. -/
theorem CoinReach.block {entry : Hash × ℕ}
    (hreach : CoinReach state segments orderedDag referencedInputs first loop)
    (h : replayBlock state segments orderedDag referencedInputs loop entry = .ok next) :
    CoinReach state segments orderedDag referencedInputs first next := by
  unfold replayBlock at h
  split at h
  · obtain rfl := Except.ok.inj h
    exact hreach
  · simp only [ok_iff, settleMatureRewards] at h
    obtain ⟨block, hblock, claimed, hclaimed, transferred, htransferred, mature, -, hsettled⟩ := h
    have hclaimedReach := hreach.step (.claimed hclaimed)
    have htransferredReach := CoinReach.transfers ⟨entry.2, entry.1, block⟩ hclaimedReach hblock
      htransferred
    exact (htransferredReach.step (.matured mature)).settleRewards hsettled

/-! ## No outpoint is used twice -/

/-- Where an outpoint that has been used comes from: a transfer whose inputs are gone, or the
reward of a settled score. -/
inductive CoinOrigin (state : ChainState) (orderedDag : OrderedDagV2) (log : List OutPoint)
    (loop : ReplayLoopV3) (outpoint : OutPoint) : Prop
  | transfer (tx : Transaction) (fits : tx.Fits) (identified : Identified tx state.chainId)
      (created : outpoint ∈ outpointsOf tx) (inputs : tx.inputs ≠ [])
      (gone : ∀ input ∈ tx.inputs, input.previousOutput ∈ log ∧
        input.previousOutput ∉ loop.rebuilt.utxo.utxos)
  | reward (score : ℕ) (hash claim : Hash) (settled : score < loop.nextRewardScore)
      (ordered : orderedDag.blocks[score]? = some hash)
      (eq : outpoint = settlementOutpointV3 state.chainId hash claim)

/-- The invariant of the replay: the outpoints used so far are distinct, include the ledger,
and have an origin. -/
structure CoinHistory (state : ChainState) (orderedDag : OrderedDagV2) (log : List OutPoint)
    (loop : ReplayLoopV3) : Prop where
  nodup : log.Nodup
  ledger : ∀ outpoint ∈ loop.rebuilt.utxo.utxos, outpoint ∈ log
  origin : ∀ outpoint ∈ log, CoinOrigin state orderedDag log loop outpoint

/-- A step that puts fresh outpoints into the ledger keeps the origins of the others. -/
theorem CoinOrigin.mono (h : CoinOrigin state orderedDag log loop outpoint)
    (hfresh : ∀ other ∈ next.rebuilt.utxo.utxos, other ∈ log → other ∈ loop.rebuilt.utxo.utxos)
    (hscore : loop.nextRewardScore ≤ next.nextRewardScore) :
    CoinOrigin state orderedDag (log ++ inserted) next outpoint := by
  cases h with
  | transfer tx fits identified created inputs gone =>
    refine .transfer tx fits identified created inputs fun input hinput => ?_
    obtain ⟨hlog, hgone⟩ := gone input hinput
    exact ⟨mem_append_left _ hlog, fun hmem => hgone (hfresh _ hmem hlog)⟩
  | reward score hash claim settled ordered eq =>
    exact .reward score hash claim (settled.trans_le hscore) ordered eq

/-- The history depends on the ledger and the next reward. -/
theorem CoinHistory.congr (h : CoinHistory state orderedDag log loop)
    (hrebuilt : next.rebuilt = loop.rebuilt)
    (hscore : next.nextRewardScore = loop.nextRewardScore) :
    CoinHistory state orderedDag log next := by
  refine ⟨h.nodup, by rw [hrebuilt]; exact h.ledger, fun outpoint hmem => ?_⟩
  have horigin : CoinOrigin state orderedDag (log ++ []) next outpoint :=
    (h.origin outpoint hmem).mono (by rw [hrebuilt]; exact fun _ hother _ => hother) hscore.ge
  rwa [append_nil] at horigin

/-- The outpoints of a transfer whose inputs are all there are new. -/
theorem CoinHistory.created_fresh (h : CoinHistory state orderedDag log loop)
    (hsha : Function.Injective Crypto.sha256) (hfits : tx.Fits)
    (hid : Identified tx state.chainId) (hinputs : tx.inputs ≠ [])
    (hpresent : ∀ input ∈ tx.inputs, input.previousOutput ∈ loop.rebuilt.utxo.utxos) :
    ∀ outpoint ∈ outpointsOf tx, outpoint ∉ log := by
  intro outpoint hcreated hlog
  have htxid := txid_of_mem_outpointsOf hcreated
  cases h.origin outpoint hlog with
  | transfer tx' fits identified created inputs gone =>
    -- the id determines the transaction, whose inputs are gone
    have hsame : tx' = tx := identified.eq_of_txid_eq hsha hid fits hfits
      ((txid_of_mem_outpointsOf created).symm.trans htxid)
    subst hsame
    obtain ⟨input, hinput⟩ := exists_mem_of_ne_nil _ hinputs
    exact (gone input hinput).2 (hpresent input hinput)
  | reward score hash claim settled ordered eq =>
    exact settlementOutpointV3_txid_ne hsha hid hash claim (eq ▸ htxid)

/-- The outpoint of the next reward is new. -/
theorem CoinHistory.reward_fresh (h : CoinHistory state orderedDag log loop)
    (hsha : Function.Injective Crypto.sha256) (hfits : ReplayFits state orderedDag)
    (hnodup : orderedDag.blocks.Nodup) {hash : Hash}
    (hhash : orderedDag.blocks[loop.nextRewardScore]? = some hash) (claim : Hash) :
    settlementOutpointV3 state.chainId hash claim ∉ log := by
  intro hlog
  cases h.origin _ hlog with
  | transfer tx fits identified created inputs gone =>
    exact settlementOutpointV3_txid_ne hsha identified hash claim (txid_of_mem_outpointsOf created)
  | reward score hash' claim' settled ordered eq =>
    have hsame : hash = hash' := settlementOutpointV3_inj hsha
      (hfits.hashes _ (mem_of_getElem? hhash)) (hfits.hashes _ (mem_of_getElem? ordered))
        eq
    subst hsame
    have hlt := (List.getElem?_eq_some_iff.mp hhash).1
    have hindex := (getElem?_inj hlt hnodup).mp (hhash.trans ordered.symm)
    omega

/-- Every step keeps the invariant. -/
theorem CoinHistory.step (h : CoinHistory state orderedDag log loop)
    (hsha : Function.Injective Crypto.sha256) (hfits : ReplayFits state orderedDag)
    (hnodup : orderedDag.blocks.Nodup)
    (hstep : CoinStep state segments orderedDag referencedInputs loop inserted next) :
    CoinHistory state orderedDag (log ++ inserted) next := by
  cases hstep with
  | claimed hclaim =>
    have hsame := registerClaim_sameLedger hclaim
    rw [append_nil]
    exact h.congr hsame.rebuilt hsame.nextRewardScore
  | skipped _ hskipped =>
    rw [append_nil]
    exact h.congr hskipped.rebuilt hskipped.nextRewardScore
  | matured score =>
    rw [append_nil]
    exact h.congr rfl rfl
  | @applied site _ _ tx hblock htx htransfer happlied =>
    obtain ⟨immature, hauth⟩ := replayTransfer_authenticated htransfer
    have hid := authenticateTransfer_identified hauth
    have hinputs := (authenticateTransfer_eq_ok hauth).1
    have hpresent := happlied.inputs_present hinputs
    have htxFits := hfits.transactions _ _ hblock tx htx
    have hfresh := h.created_fresh hsha htxFits hid hinputs hpresent
    have hspent := spentOutpoints_of_inputs hinputs
    refine ⟨?_, ?_, ?_⟩
    · rw [nodup_append]
      refine ⟨h.nodup, happlied.applicable.created_nodup, ?_⟩
      rintro outpoint hlog _ hcreated rfl
      exact hfresh outpoint hcreated hlog
    · intro outpoint hmem
      rcases happlied.mem_utxos.mp hmem with hcreated | ⟨-, hold⟩
      · exact mem_append_right _ hcreated
      · exact mem_append_left _ (h.ledger outpoint hold)
    · intro outpoint hmem
      rcases mem_append.mp hmem with hlog | hcreated
      · refine (h.origin outpoint hlog).mono (fun other hother hotherLog => ?_)
          happlied.nextRewardScore.ge
        rcases happlied.mem_utxos.mp hother with hcreated | ⟨-, hold⟩
        · exact absurd hotherLog (hfresh other hcreated)
        · exact hold
      · refine .transfer tx htxFits hid hcreated hinputs fun input hinput => ?_
        have hlog := h.ledger _ (hpresent input hinput)
        refine ⟨mem_append_left _ hlog, fun hmem' => ?_⟩
        rcases happlied.mem_utxos.mp hmem' with hcreated' | ⟨hnotSpent, -⟩
        · exact hfresh _ hcreated' hlog
        · rw [hspent] at hnotSpent
          exact hnotSpent (mem_map_of_mem hinput)
  | @settled _ _ outpoint coin hsettle hfree hinsert =>
    obtain ⟨hash, claim, coin', hhash, hfree', hinsert', hnext⟩ := settleReward_inserts hsettle
    have houtpoint : outpoint = settlementOutpointV3 state.chainId hash claim := by
      have hmem : outpoint ∈ next.rebuilt.utxo.utxos := by
        rw [hinsert, TreeMap.mem_insert]
        exact .inl rfl
      rw [hinsert', TreeMap.mem_insert] at hmem
      exact hmem.resolve_right hfree
    have hfresh := h.reward_fresh hsha hfits hnodup hhash claim
    rw [← houtpoint] at hfresh
    refine ⟨?_, ?_, ?_⟩
    · rw [nodup_append]
      refine ⟨h.nodup, nodup_singleton _, ?_⟩
      rintro other hlog _ hother rfl
      rw [mem_singleton] at hother
      exact hfresh (hother ▸ hlog)
    · intro other hmem
      rw [hinsert, TreeMap.mem_insert] at hmem
      rcases hmem with rfl | hold
      · exact mem_append_right _ (mem_singleton_self _)
      · exact mem_append_left _ (h.ledger other hold)
    · intro other hmem
      rcases mem_append.mp hmem with hlog | hnew
      · refine (h.origin other hlog).mono (fun third hthird hthirdLog => ?_) (by omega)
        rw [hinsert, TreeMap.mem_insert] at hthird
        refine hthird.resolve_left ?_
        rintro rfl
        exact hfresh hthirdLog
      · rw [mem_singleton] at hnew
        subst hnew
        exact .reward loop.nextRewardScore hash claim (by omega) hhash houtpoint

/-- Every run keeps the invariant. -/
theorem CoinHistory.run (hsha : Function.Injective Crypto.sha256)
    (hfits : ReplayFits state orderedDag) (hnodup : orderedDag.blocks.Nodup)
    (h : CoinHistory state orderedDag log first)
    (hrun : CoinRun state segments orderedDag referencedInputs first log' last) :
    CoinHistory state orderedDag (log ++ log') last := by
  induction hrun with
  | refl => rwa [append_nil]
  | step _ hstep ih =>
    rw [← append_assoc]
    exact ih.step hsha hfits hnodup hstep

end

end PulseDag
