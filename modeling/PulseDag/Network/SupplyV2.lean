import PulseDag.Ledger.BoundedProvenance
import PulseDag.Ledger.PrefixConsistency
import PulseDag.Network.PreCandidate
import PulseDag.Network.ReceiverIndependence

/-!
# The supply of version 2

A coinbase is checked once, in the past of its block, against the fees that the block declares.
The replay of a merged DAG may skip the transactions that declare them, and the coinbase stays.
The coins of the replay exceed the genesis coins and the subsidies of the blocks at most by what the
coinbases pay out beyond their subsidies and the fees of the transactions that are applied.
-/

namespace PulseDag

open List

section

variable [Crypto]

/-! ## The amount at an outpoint -/

/-- An amount that can be at an outpoint: that of the version 1 treasury, or that of an output of a
transaction with this id. -/
inductive HonestAmount (chainId : String) : OutPoint → UInt64 → Prop
  | treasury : HonestAmount chainId treasuryOutpointV1 genesisSupply
  | output {tx : Transaction} {index : ℕ} {output : TxOutput} (hid : Identified tx chainId)
    (hfits : tx.Fits) (houtput : tx.outputs[index]? = some output) :
    HonestAmount chainId (outpointAt tx.txid index) output.amount

variable {chainId : String} {tx : Transaction} {utxo : UtxoState} {height : UInt64}

omit [Crypto] in
/-- The indexes of its outputs are words. -/
theorem Transaction.Fits.index_lt (h : tx.Fits) {index : ℕ} {output : TxOutput}
    (houtput : tx.outputs[index]? = some output) : index < 2 ^ 32 :=
  (List.getElem?_eq_some_iff.mp houtput).1.trans h.outputs_length

/-- Version 1 and version 2 ids have different preimages. -/
theorem genesisTransaction_txid_ne (hsha : Function.Injective Crypto.sha256)
    (hid : Identified tx chainId) : genesisTransaction.txid ≠ tx.txid := by
  intro heq
  rw [computeTxidV2_eq_ok hid] at heq
  have hpreimage := sha256Hex_injective hsha heq
  rw [canonicalTransactionBytes, txidPreimageV2, append_assoc] at hpreimage
  obtain ⟨hlabel, -⟩ := selfDelimiting_encodeLenPrefixedStr (by decide) (by decide) hpreimage
  exact absurd hlabel (by decide)

/-- With a collision-free digest an outpoint has one honest amount. -/
theorem HonestAmount.unique (hsha : Function.Injective Crypto.sha256) {outpoint : OutPoint}
    {amount amount' : UInt64} (h : HonestAmount chainId outpoint amount)
    (h' : HonestAmount chainId outpoint amount') : amount = amount' := by
  generalize hother : outpoint = other at h'
  cases h with
  | treasury =>
    cases h' with
    | treasury => rfl
    | output hid' _ _ =>
      exact absurd (OutPoint.mk.inj hother).1 (genesisTransaction_txid_ne hsha hid')
  | output hid hfits houtput =>
    cases h' with
    | treasury => exact absurd (OutPoint.mk.inj hother).1.symm (genesisTransaction_txid_ne hsha hid)
    | output hid' hfits' houtput' =>
      obtain ⟨htxid, rfl⟩ := outpointAt_inj (hfits.index_lt houtput)
        (hfits'.index_lt houtput') hother
      obtain rfl := hid.eq_of_txid_eq hsha hid' hfits hfits' htxid
      rw [Option.some.inj (houtput.symm.trans houtput')]

/-- All coins of the ledger have honest amounts. -/
def HonestLedger (chainId : String) (utxo : UtxoState) : Prop :=
  ∀ (outpoint : OutPoint) (coin : Utxo), utxo.utxos[outpoint]? = some coin →
    HonestAmount chainId outpoint coin.amount

/-- The genesis ledger is honest. -/
theorem honestLedger_genesis : HonestLedger chainId (genesisUtxoState genesisTransaction) := by
  intro outpoint coin hcoin
  rw [genesisUtxoState, TreeMap.getElem?_insert] at hcoin
  split at hcoin
  · rename_i heq
    obtain rfl := Option.some.inj hcoin
    rw [heq]
    exact .treasury
  · simp at hcoin

/-- A transaction under its own id creates coins with honest amounts. -/
theorem HonestLedger.applyOrSkip (h : HonestLedger chainId utxo) (hid : Identified tx chainId)
    (hfits : tx.Fits) : HonestLedger chainId (applyOrSkip utxo tx height) := by
  rcases applyOrSkip_cases utxo tx height with ⟨happlicable, hutxos⟩ | ⟨-, hsame⟩
  · intro outpoint coin hcoin
    rw [hutxos, spendAndCreate, getElem?_insertAll_eq_some _
      (createdCoins_keys tx height ▸ happlicable.created_nodup)] at hcoin
    · rcases hcoin with hcreated | hkept
      · obtain ⟨coin', hcoin', heq⟩ := mem_map.mp hcreated
        obtain ⟨rfl, rfl⟩ := Prod.mk.inj heq
        obtain ⟨⟨outpoint, output⟩, hmem, rfl⟩ := mem_map.mp hcoin'
        obtain ⟨index, hindex⟩ := getElem?_of_mem hmem
        rw [getElem?_zip_eq_some] at hindex
        obtain ⟨houtpoint, houtput⟩ := hindex
        rw [outpointsOf, getElem?_map, Option.map_eq_some_iff] at houtpoint
        obtain ⟨position, hposition, rfl⟩ := houtpoint
        obtain ⟨hlt, hget⟩ := List.getElem?_eq_some_iff.mp hposition
        rw [getElem_range] at hget
        subst hget
        exact .output hid hfits houtput
      · rw [getElem?_eraseAll] at hkept
        split at hkept
        · cases hkept
        · exact h outpoint coin hkept
    · intro entry hentry
      obtain ⟨coin, hcoin, rfl⟩ := mem_map.mp hentry
      exact happlicable.coins_fresh height coin hcoin
  · rwa [hsame]

variable {entries : List (Transaction × UInt64)} {state : ChainState} {hash : Hash}
  {blocks : List Block}

/-- A replay of identified transactions keeps it honest. -/
theorem HonestLedger.replayLedger (h : HonestLedger chainId utxo)
    (hentries : ∀ entry ∈ entries, Identified entry.1 chainId ∧ entry.1.Fits) :
    HonestLedger chainId (replayLedger utxo entries) := by
  induction entries generalizing utxo with
  | nil => exact h
  | cons entry rest ih =>
    obtain ⟨⟨hid, hfits⟩, hrest⟩ := forall_mem_cons.mp hentries
    exact ih (h.applyOrSkip hid hfits) hrest

/-! ## What a validation says about a transaction -/

/-- The inputs of the transaction can only hold amounts that pay its outputs and its fee. -/
def Funded (chainId : String) (tx : Transaction) : Prop :=
  ∃ amount : OutPoint → UInt64,
    (∀ input ∈ tx.inputs, HonestAmount chainId input.previousOutput (amount input.previousOutput)) ∧
    outputTotal tx + tx.fee.toNat ≤
      (tx.inputs.map fun input => (amount input.previousOutput).toNat).sum

omit [Crypto] in
/-- Without pooled transactions the inputs are coins of the ledger. -/
theorem totalInput_eq_ok (hpool : state.mempool.transactions = ∅) {inputs : List TxInput}
    {start total : UInt64} (h : totalInput state inputs start = .ok total) :
    (∀ input ∈ inputs, input.previousOutput ∈ state.utxo.utxos) ∧
      total.toNat = start.toNat +
        (inputs.map fun input => amountAt state.utxo.utxos input.previousOutput).sum := by
  induction inputs generalizing start with
  | nil =>
    obtain rfl := Except.ok.inj h
    simp
  | cons input rest ih =>
    simp only [totalInput, ok_iff, checkedAdd_eq_some] at h
    obtain ⟨amount, hamount, -, -, next, hnext, hrest⟩ := h
    obtain ⟨hmem, htotal⟩ := ih hrest
    have hcoin : ∃ coin, state.utxo.utxos[input.previousOutput]? = some coin ∧
        coin.amount = amount := by
      rw [txOutputAmount] at hamount
      cases hget : state.utxo.utxos[input.previousOutput]? with
      | some coin =>
        rw [hget, Option.some.injEq] at hamount
        exact ⟨coin, rfl, hamount⟩
      | none =>
        rw [hget, pooledOutput, hpool] at hamount
        simp at hamount
    obtain ⟨coin, hget, rfl⟩ := hcoin
    refine ⟨forall_mem_cons.mpr ⟨(TreeMap.mem_iff _ _).mpr ⟨coin, hget⟩, hmem⟩, ?_⟩
    rw [map_cons, sum_cons, amountAt, hget, htotal, hnext]
    simp only [Option.map_some, Option.getD_some]
    omega

/-- A transaction that is valid on an honest ledger is funded. -/
theorem validateTransactionV2_funded (hpool : state.mempool.transactions = ∅)
    (hledger : HonestLedger chainId state.utxo)
    (h : validateTransactionV2 tx state chainId = .ok ()) : Funded chainId tx := by
  simp only [validateTransactionV2, validateTransactionWith, bind_eq_ok, ensure_eq_ok, okOr_eq_ok,
    checkedSum_eq_some, checkedAdd_eq_some] at h
  obtain ⟨-, -, -, -, -, -, -, -, -, -, -, -, -, -, inputs, hinputs, outputs, houtputs, required,
    hrequired, -, hle, -⟩ := h
  obtain ⟨hmem, htotal⟩ := totalInput_eq_ok hpool hinputs
  refine ⟨fun outpoint => (state.utxo.utxos[outpoint]?.map Utxo.amount).getD 0,
    fun input hinput => ?_, ?_⟩
  · obtain ⟨coin, hcoin⟩ := (TreeMap.mem_iff _ _).mp (hmem input hinput)
    simp only [hcoin, Option.map_some, Option.getD_some]
    exact hledger _ coin hcoin
  · have hamounts : (tx.inputs.map fun input => amountAt state.utxo.utxos input.previousOutput) =
        tx.inputs.map fun input =>
          ((state.utxo.utxos[input.previousOutput]?.map Utxo.amount).getD 0).toNat := by
      refine map_congr_left fun input hinput => ?_
      obtain ⟨coin, hcoin⟩ := (TreeMap.mem_iff _ _).mp (hmem input hinput)
      simp [amountAt, hcoin]
    rw [hamounts] at htotal
    rw [map_map] at houtputs
    rw [UInt64.le_iff_toNat_le] at hle
    have hzero : (0 : UInt64).toNat = 0 := rfl
    rw [hzero] at htotal houtputs
    unfold outputTotal
    simp only [Function.comp_def] at houtputs ⊢
    omega

omit [Crypto] in
/-- An empty pool stays empty. -/
theorem removeConfirmed_transactions {mempool : Mempool} (h : mempool.transactions = ∅) :
    (mempool.removeConfirmed tx).transactions = ∅ := by
  simp [Mempool.removeConfirmed, h]

/-- An applied transaction keeps it honest. -/
theorem applyTransaction_honest {next : ChainState} (hledger : HonestLedger chainId state.utxo)
    (hid : Identified tx chainId) (hfits : tx.Fits)
    (h : applyTransaction tx state height = .ok next) : HonestLedger chainId next.utxo := by
  have hutxo := applyAtomic_utxo tx state height
  rw [h] at hutxo
  have hnext : next.utxo = applyOrSkip state.utxo tx height := hutxo
  rw [hnext]
  exact hledger.applyOrSkip hid hfits

omit [Crypto] in
/-- Version 2 takes the activated path. -/
theorem resolveTransactionValidationPath_v2 {identity : ProtocolActivationIdentity}
    {path : TransactionValidationPath}
    (hversion : identity.transactionProtocolVersion = transactionVersionV2)
    (h : resolveTransactionValidationPath identity state = .ok path) : path = .activatedV2 := by
  have hnot : identity.transactionProtocolVersion ≠ transactionVersionV1 := by
    rw [hversion]
    decide
  simp only [resolveTransactionValidationPath, ok_iff, hnot, false_and, if_false] at h
  obtain ⟨-, -, -, -, -, -, h⟩ := h
  split at h
  · exact (Except.ok.inj h).symm
  · cases h

/-- The transactions of a candidate after its coinbase are funded. -/
theorem candidateTransactionContext_funded {block : Block} {pre after : ChainState}
    {identity : ProtocolActivationIdentity} (hledger : HonestLedger identity.chainId pre.utxo)
    (htxs : ∀ tx ∈ block.transactions, Identified tx identity.chainId ∧ tx.Fits)
    (hversion : identity.transactionProtocolVersion = transactionVersionV2)
    (h : candidateTransactionContext block pre identity = .ok after) :
    ∀ tx ∈ block.transactions.drop 1, Funded identity.chainId tx := by
  simp only [candidateTransactionContext, ok_iff] at h
  obtain ⟨-, -, coinbase, hcoinbase, first, hfirst, hloop⟩ := h
  have hcoinbaseOk := htxs coinbase (mem_of_mem_head? hcoinbase)
  have hfirstState := (applyTransaction_eq_ok hfirst).2.2
  have hstart : first.mempool.transactions = ∅ ∧ HonestLedger identity.chainId first.utxo := by
    constructor
    · rw [hfirstState]
      exact removeConfirmed_transactions rfl
    · refine applyTransaction_honest ?_ hcoinbaseOk.1 hcoinbaseOk.2 hfirst
      exact hledger
  have hrest : ∀ tx ∈ block.transactions.drop 1, Identified tx identity.chainId ∧ tx.Fits :=
    fun tx hmem => htxs tx (mem_of_mem_drop hmem)
  generalize block.transactions.drop 1 = rest at hloop hrest ⊢
  clear hfirstState hfirst hcoinbaseOk hcoinbase htxs hledger
  induction rest generalizing first with
  | nil => simp
  | cons tx rest ih =>
    rw [foldlM_cons, bind_eq_ok] at hloop
    obtain ⟨middle, hmiddle, hloop⟩ := hloop
    simp only [validateCandidateTransaction, bind_eq_ok] at hmiddle
    obtain ⟨⟨⟩, hvalid, happly⟩ := hmiddle
    obtain ⟨⟨hid, hfits⟩, hrest⟩ := forall_mem_cons.mp hrest
    have hmiddleState := (applyTransaction_eq_ok happly).2.2
    refine forall_mem_cons.mpr ⟨?_, ih middle ⟨?_, ?_⟩ hloop hrest⟩
    · simp only [validateTransactionForProtocol, ok_iff] at hvalid
      obtain ⟨path, hpath, -, -, hvalid⟩ := hvalid
      obtain rfl := resolveTransactionValidationPath_v2 hversion hpath
      exact validateTransactionV2_funded hstart.1 hstart.2 hvalid
    · rw [hmiddleState]
      exact removeConfirmed_transactions hstart.1
    · exact applyTransaction_honest hstart.2 hid hfits happly

/-! ## Blocks that are valid in their past -/

/-- The block has passed the validation of a receiver that holds exactly its past. -/
def ValidInPast (s0 s : ChainState) (identity : ProtocolActivationIdentity) (block : Block) :
    Prop :=
  ∃ clock past verdict, Built s0 past ∧
    (∀ (h : Hash) (b : Block), past.dag.blocks[h]? = some b ↔
      s.dag.blocks[h]? = some b ∧ InPast s block.header.parents h) ∧
    validateActivatedV2P2pBlockContext clock block past identity = .ok verdict

/-- The transactions of a checked block are identified. -/
theorem checkCandidateTransactions_identified {txs : List Transaction} {seen : TreeSet Hash}
    {u : Unit}
    (h : checkCandidateTransactions chainId txs seen = .ok u) :
    ∀ tx ∈ txs, Identified tx chainId := by
  induction txs generalizing seen with
  | nil => simp
  | cons tx rest ih =>
    simp only [checkCandidateTransactions, bind_eq_ok, ensure_eq_ok] at h
    obtain ⟨-, -, -, -, computed, hcomputed, -, rfl, hrest⟩ := h
    exact forall_mem_cons.mpr ⟨hcomputed, ih hrest⟩

/-- What the envelope of a block says about its transactions. -/
structure SoundEnvelope (identity : ProtocolActivationIdentity) (block : Block) : Prop where
  version : identity.transactionProtocolVersion = transactionVersionV2
  identified : ∀ tx ∈ block.transactions, Identified tx identity.chainId
  coinbase : ∃ coinbase rest, block.transactions = coinbase :: rest ∧ isCoinbase coinbase = true ∧
    (∀ tx ∈ rest, isCoinbase tx = false) ∧
    outputTotal coinbase ≤ (blockSubsidy block.header.height).toNat +
      (rest.map fun tx => tx.fee.toNat).sum

omit [Crypto] in
/-- The activated path has version 2 on the same chain. -/
theorem resolvePowValidationPath_v2 {identity : ProtocolActivationIdentity}
    (h : resolvePowValidationPath identity state = .ok .activatedV2) :
    identity.transactionProtocolVersion = transactionVersionV2 ∧
    identity.chainId = state.chainId := by
  simp only [resolvePowValidationPath, resolveValidatedPowIdentityPath, bind_eq_ok,
    ensure_eq_ok] at h
  obtain ⟨-, -, -, hchain, -, -, h⟩ := h
  split at h
  · cases h
  · split at h
    · rename_i hversions
      exact ⟨hversions.1, hchain⟩
    · cases h

/-- A checked envelope is sound. -/
theorem validateContextEnvelope_sound {clock : Clock} {block : Block}
    {identity : ProtocolActivationIdentity} {selectedParent : Hash}
    (h : validateContextEnvelope clock block state identity = .ok selectedParent) :
    SoundEnvelope identity block ∧ identity.chainId = state.chainId := by
  simp only [validateContextEnvelope, bind_eq_ok, ensure_eq_ok, okOr_eq_ok] at h
  obtain ⟨path, hpath, -, rfl, h⟩ := h
  obtain ⟨-, -, -, -, -, -, -, -, _, -, -, -, bounds, -, -, -, -, -, -, -, classification, -, -, -,
    parent, -, difficulty, -, -, -, coinbase, hcoinbase, -, hfirst, -, hothers, ⟨⟩, hids, -, -, ⟨⟩,
    hreward, -⟩ := h
  obtain ⟨hversion, hchain⟩ := resolvePowValidationPath_v2 hpath
  refine ⟨⟨hversion, checkCandidateTransactions_identified hids, ?_⟩, hchain⟩
  obtain ⟨rest, htxs⟩ := head?_eq_some_iff.mp hcoinbase
  rw [htxs, drop_one, tail_cons] at hothers
  refine ⟨coinbase, rest, htxs, hfirst, hothers, ?_⟩
  have hordinary : block.transactions.filter (fun tx => !isCoinbase tx) = rest := by
    rw [htxs, filter_cons, hfirst]
    exact filter_eq_self.mpr fun tx htx => by rw [hothers tx htx]; rfl
  simp only [validateCoinbaseReward, transactionOutputSum, totalBlockFees, bind_eq_ok, okOr_eq_ok,
    ensure_eq_ok, checkedSum_eq_some, checkedAdd_eq_some, hcoinbase, Option.some.injEq,
    exists_eq_left', hordinary] at hreward
  obtain ⟨outputs, houtputs, fees, hfees, reward, hreward, hle⟩ := hreward
  rw [UInt64.le_iff_toNat_le] at hle
  rw [map_map] at houtputs hfees
  have hzero : (0 : UInt64).toNat = 0 := rfl
  rw [hzero] at houtputs hfees
  simp only [outputTotal, Function.comp_def] at houtputs hfees ⊢
  omega

/-- The ledger before a candidate is the replay of transactions that its context stores. -/
theorem replayPreCandidateStateV2_utxo {context pre : ChainState} {candidate : Hash}
    (h : replayPreCandidateStateV2 context candidate = .ok pre) :
    ∃ hashes : List Hash, (∀ hash ∈ hashes, hash ∈ context.dag.blocks) ∧
      pre.utxo = replayLedger (genesisUtxoState genesisTransaction)
        (hashes.flatMap (replayedTransactions context)) := by
  simp only [replayPreCandidateStateV2, ok_iff] at h
  obtain ⟨ordered, horder, -, -, replay, hreplay, root, -, rfl⟩ := h
  have hstored : ∀ hash ∈ beforeCandidate context candidate ordered.blocks,
      hash ∈ context.dag.blocks :=
    fun hash hmem => (mem_of_deriveOrderedDagV2 horder).mp ((takeWhile_sublist _).subset hmem)
  obtain ⟨next, hnext, hutxo⟩ := replayAcceptedBlocks_ok hstored
    (withReplaySettings (initChainState context.chainId) context)
  rw [hreplay, Except.ok.injEq] at hnext
  subst hnext
  exact ⟨_, hstored, hutxo⟩

/-- All stored blocks but the genesis block have passed the validation in their pasts. -/
def AllValidInPast (s0 s : ChainState) (identity : ProtocolActivationIdentity) : Prop :=
  ∀ (hash : Hash) (block : Block), s.dag.blocks[hash]? = some block → hash ≠ s.dag.genesisHash →
    ValidInPast s0 s identity block

/-- All transactions of the blocks after the genesis block fit their encodings. -/
def TransactionsFit (s : ChainState) : Prop :=
  ∀ (hash : Hash) (block : Block), s.dag.blocks[hash]? = some block → hash ≠ s.dag.genesisHash →
    ∀ tx ∈ block.transactions, tx.Fits

variable {s0 s : ChainState} {identity : ProtocolActivationIdentity} {block : Block}

/-- So is that of a block valid in its past. -/
theorem ValidInPast.soundEnvelope (h : ValidInPast s0 s identity block) :
    SoundEnvelope identity block := by
  obtain ⟨clock, past, verdict, -, -, hvalid⟩ := h
  simp only [validateActivatedV2P2pBlockContext, validateActivatedV2P2pBlockContextWithMaterializer,
    bind_eq_ok] at hvalid
  obtain ⟨-, -, projection, -, selectedParent, henvelope, -⟩ := hvalid
  exact (validateContextEnvelope_sound henvelope).1

/-- A valid block belongs to the chain. -/
theorem ValidInPast.chainId_eq (h0 : IsGenesisState s0) (h : ValidInPast s0 s identity block) :
    identity.chainId = s0.chainId := by
  obtain ⟨clock, past, verdict, hpast, -, hvalid⟩ := h
  simp only [validateActivatedV2P2pBlockContext, validateActivatedV2P2pBlockContextWithMaterializer,
    bind_eq_ok] at hvalid
  obtain ⟨-, -, projection, hprojection, selectedParent, henvelope, -⟩ := hvalid
  obtain ⟨keys, hprojected⟩ := candidatePastProjection_projected hprojection
  rw [(validateContextEnvelope_sound henvelope).2, hprojected.chainId,
    (hpast.invariant h0).chainId_eq]

omit [Crypto] in
/-- The transactions that a replay takes from a block. -/
theorem mem_replayedTransactions {entry : Transaction × UInt64}
    (h : entry ∈ replayedTransactions state hash) :
    ∃ block, state.dag.blocks[hash]? = some block ∧ hash ≠ state.dag.genesisHash ∧
      entry.1 ∈ block.transactions := by
  rw [replayedTransactions] at h
  split at h
  · simp at h
  · rename_i hne
    split at h
    · rename_i block hblock
      obtain ⟨tx, htx, rfl⟩ := mem_map.mp h
      exact ⟨block, hblock, hne, htx⟩
    · simp at h

/-- The transactions after the coinbase of a block that is valid in its past are funded. -/
theorem ValidInPast.funded (hs : Built s0 s) (h0 : IsGenesisState s0)
    (hall : AllValidInPast s0 s identity) (hfits : TransactionsFit s)
    (hblock : s.dag.blocks[hash]? = some block) (hne : hash ≠ s.dag.genesisHash) :
    ∀ tx ∈ block.transactions.drop 1, Funded identity.chainId tx := by
  have hvalid := hall hash block hblock hne
  have henvelope := hvalid.soundEnvelope
  obtain ⟨clock, past, verdict, hpast, hblocks, hvalid⟩ := hvalid
  simp only [validateActivatedV2P2pBlockContext, validateActivatedV2P2pBlockContextWithMaterializer,
    ok_iff] at hvalid
  obtain ⟨-, -, projection, hprojection, selectedParent, -, ⟨out, context⟩, hcommit, pre, hpre, ⟨⟩,
    htxs, -⟩ := hvalid
  obtain ⟨keys, hprojected⟩ := candidatePastProjection_projected hprojection
  have hstep := commit_eq_ok_iff.mp hcommit
  have hgenesis : context.dag.genesisHash = s.dag.genesisHash := by
    rw [hstep.genesisHash_eq, hprojected.genesisHash, (hpast.invariant h0).genesisHash_eq,
      (hs.invariant h0).genesisHash_eq]
  -- the context stores blocks of the past and the block itself
  have hcontext : ∀ (h : Hash) (b : Block), context.dag.blocks[h]? = some b →
      h ≠ context.dag.genesisHash → ∃ h', s.dag.blocks[h']? = some b ∧ h' ≠ s.dag.genesisHash := by
    intro h b hb hnotGenesis
    rw [hstep.inserted.blocks, TreeMap.getElem?_insert] at hb
    split at hb
    · obtain rfl := Option.some.inj hb
      exact ⟨hash, hblock, hne⟩
    · rw [hprojected.blocks, getElem?_retainKeys] at hb
      split at hb
      · exact ⟨h, ((hblocks h b).mp hb).1, hgenesis ▸ hnotGenesis⟩
      · cases hb
  have hentries : ∀ (h : Hash), ∀ entry ∈ replayedTransactions context h,
      Identified entry.1 identity.chainId ∧ entry.1.Fits := by
    intro h entry hentry
    obtain ⟨b, hb, hnotGenesis, htx⟩ := mem_replayedTransactions hentry
    obtain ⟨h', hb', hne'⟩ := hcontext h b hb hnotGenesis
    exact ⟨(hall h' b hb' hne').soundEnvelope.identified _ htx, hfits h' b hb' hne' _ htx⟩
  obtain ⟨hashes, -, hutxo⟩ := replayPreCandidateStateV2_utxo hpre
  have hledger : HonestLedger identity.chainId pre.utxo := by
    rw [hutxo]
    refine honestLedger_genesis.replayLedger fun entry hentry => ?_
    obtain ⟨h, -, hentry⟩ := mem_flatMap.mp hentry
    exact hentries h entry hentry
  simp only [validateCandidateTransactions, bind_eq_ok] at htxs
  obtain ⟨after, hafter, -⟩ := htxs
  exact candidateTransactionContext_funded hledger
    (fun tx htx => ⟨henvelope.identified tx htx, hfits hash block hblock hne tx htx⟩)
    henvelope.version hafter

/-! ## Atoms -/

section

omit [Crypto]

end

omit [Crypto] in
/-- The check of all transactions. -/
theorem TransactionsFit.of_toList
    (h : ∀ entry ∈ s.dag.blocks.toList, entry.1 ≠ s.dag.genesisHash →
      ∀ tx ∈ entry.2.transactions, tx.Fits) : TransactionsFit s :=
  fun hash block hblock hne => h (hash, block) ((TreeMap.mem_toList _ _ _).mpr hblock) hne

end

section

variable [Crypto]

end

end PulseDag
