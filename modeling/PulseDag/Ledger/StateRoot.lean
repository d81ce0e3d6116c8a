import PulseDag.Core.Identity
import PulseDag.Ledger.PrefixConsistency
import PulseDag.Ledger.ReplayV2

/-!
# The state root

Every ledger that a replay builds passes the index check, so its state root exists. The root is
the digest of a self-delimiting list of the coins in the order of their outpoints: a collision-free
digest determines the coins, and the order in which a hash map lists them does not matter.
-/

namespace PulseDag

/-! ## Replayed ledgers have a root -/

variable {state : ChainState} {tx : Transaction} {loop next : ReplayLoopV2} {utxo : UtxoState}

/-- A transaction keeps the index good. -/
theorem applyTransaction_indexed {next : ChainState} {height : UInt64}
    (hindexed : state.utxo.Indexed) (h : applyTransaction tx state height = .ok next) :
    next.utxo.Indexed := by
  simp only [applyTransaction_eq, ok_iff] at h
  obtain ⟨utxo, hutxo, rfl⟩ := h
  exact applyToLedger_indexed hindexed hutxo

/-- A replayed transaction keeps the index good. -/
theorem replayTransactionV2_indexed {orderedPos : ℕ} {block : Block}
    (hindexed : loop.rebuilt.utxo.Indexed)
    (h : replayTransactionV2 orderedPos block loop tx = .ok next) : next.rebuilt.utxo.Indexed := by
  obtain ⟨found, hfound, hutxo, -⟩ := replayTransactionV2_ok orderedPos block loop tx
  rw [h, Except.ok.injEq] at hfound
  rw [hfound, hutxo]
  exact applyOrSkip_indexed hindexed tx block.header.height

/-- A replayed block keeps the index good. -/
theorem replayBlockV2_indexed {entry : Hash × ℕ} (hindexed : loop.rebuilt.utxo.Indexed)
    (h : replayBlockV2 state loop entry = .ok next) : next.rebuilt.utxo.Indexed := by
  rw [replayBlockV2] at h
  split at h
  · obtain rfl := Except.ok.inj h
    exact hindexed
  · simp only [ok_iff] at h
    obtain ⟨block, -, hrun⟩ := h
    exact foldlM_induction (P := fun reached : ReplayLoopV2 => reached.rebuilt.utxo.Indexed)
      (fun _ _ _ _ hbefore hafter => replayTransactionV2_indexed hbefore hafter) hindexed hrun

section

variable [Crypto]

/-- The version 2 replay of any part of an order, from the ledger of its genesis kind. -/
theorem replayBlocksV2_indexed {base : ChainState} {entries : List (Hash × ℕ)}
    (hbase : replayBaseStateForGenesis state = .ok base)
    (h : entries.foldlM (replayBlockV2 state) { rebuilt := withReplaySettings base state } =
      .ok loop) : loop.rebuilt.utxo.Indexed := by
  have hstart : base.utxo.Indexed := replayBaseStateForGenesis_indexed hbase
  exact foldlM_induction (P := fun reached : ReplayLoopV2 => reached.rebuilt.utxo.Indexed)
    (fun _ _ _ _ hbefore hafter => replayBlockV2_indexed hbefore hafter) hstart h

/-- A ledger with a good index has a root. -/
theorem UtxoState.Indexed.computeStateRoot_ok (h : utxo.Indexed) :
    ∃ root, utxo.computeStateRoot = .ok root := ⟨_, h.computeStateRoot_eq⟩

/-- The index stays exact: a ledger passes the check exactly when every coin is stored under its
own outpoint and listed once, under its own address. Applied transactions and inserted rewards keep
that, so the state root exists at every point of a replay of either version, the genesis ledgers
included. -/
theorem validateDeterministicIndexes_kept :
    (∀ utxo : UtxoState, utxo.validateDeterministicIndexes = .ok () ↔
      (∀ (outpoint : OutPoint) (coin : Utxo), utxo.utxos[outpoint]? = some coin →
        coin.outpoint = outpoint) ∧
      ∀ address, (utxo.entriesOf address).Nodup ∧ ∀ outpoint,
        outpoint ∈ utxo.entriesOf address ↔
          ∃ coin, utxo.utxos[outpoint]? = some coin ∧ coin.address = address) ∧
    (∀ tx state height next, state.utxo.validateDeterministicIndexes = .ok () →
      applyTransaction tx state height = .ok next →
      next.utxo.validateDeterministicIndexes = .ok ()) ∧
    (∀ utxo reward next, utxo.validateDeterministicIndexes = .ok () →
      insertRewardUtxo utxo reward = .ok next → next.validateDeterministicIndexes = .ok ()) ∧
    (∀ state base (entries : List (Hash × ℕ)) loop, replayBaseStateForGenesis state = .ok base →
      entries.foldlM (replayBlockV2 state) { rebuilt := withReplaySettings base state } = .ok loop →
      ∃ root, loop.rebuilt.utxo.computeStateRoot = .ok root) ∧
    (∀ state segments genesisTimestamp orderedDag endExclusive count loop,
      replayFirst state segments genesisTimestamp orderedDag endExclusive count = .ok loop →
      ∃ root, loop.rebuilt.utxo.computeStateRoot = .ok root) ∧
    (∀ state segments genesisTimestamp orderedDag endExclusive loop,
      replayAuthoritativePrefixV3 state segments genesisTimestamp orderedDag endExclusive =
        .ok loop →
      ∃ root, loop.rebuilt.utxo.computeStateRoot = .ok root) ∧
    (∃ root, UtxoState.empty.computeStateRoot = .ok root) ∧
    ∀ tx, ∃ root, (genesisUtxoState tx).computeStateRoot = .ok root := by
  have hcheck : ∀ utxo : UtxoState, utxo.validateDeterministicIndexes = .ok () ↔ utxo.Indexed :=
    fun _ => UtxoState.validateDeterministicIndexes_eq_ok
  simp only [hcheck]
  refine ⟨fun utxo => ⟨fun h => ⟨h.outpoint_eq, fun address =>
    ⟨h.nodup address, h.mem_iff address⟩⟩,
      fun h => ⟨h.1, fun address => (h.2 address).1, fun address => (h.2 address).2⟩⟩,
    fun _ _ _ _ hindexed happly => applyTransaction_indexed hindexed happly,
    fun _ _ _ hindexed hinsert => addCoin_indexed hindexed hinsert,
    fun _ _ _ _ hbase hrun => (replayBlocksV2_indexed hbase hrun).computeStateRoot_ok,
    fun _ _ _ _ _ _ _ hrun => (replayFirst_indexed hrun).computeStateRoot_ok,
    fun _ _ _ _ _ _ hrun => ?_, UtxoState.empty_indexed.computeStateRoot_ok,
    fun tx => (genesisUtxoState_indexed tx).computeStateRoot_ok⟩
  rw [replayAuthoritativePrefixV3_eq_replayFirst] at hrun
  exact (replayFirst_indexed hrun).computeStateRoot_ok

end

/-- A transfer of the treasury to two owners, one of them the treasury itself. -/
theorem validateDeterministicIndexes_kept_treasury :
    ∃ state next : ChainState, state.utxo.validateDeterministicIndexes = .ok () ∧
      next.utxo.utxos.size = 2 ∧ next.utxo.validateDeterministicIndexes = .ok () := by
  let := checksumCrypto
  let state := initChainState "c"
  let spend : Transaction :=
    { txid := "spend", version := 1, inputs := [⟨⟨genesisTransaction.txid, 0⟩, "", ""⟩],
      outputs := [⟨"owner", 7⟩, ⟨genesisTreasury, 8⟩], fee := 0, nonce := 0 }
  have hrun : ((applyTransaction spend state 1).toOption.map fun next => next.utxo.utxos.size) =
      some 2 := by decide +kernel
  obtain ⟨next, hnext, hsize⟩ := Option.map_eq_some_iff.mp hrun
  have hstate : state.utxo.validateDeterministicIndexes = .ok () :=
    genesisUtxoState_validateDeterministicIndexes genesisTransaction
  exact ⟨state, next, hstate, hsize, validateDeterministicIndexes_kept.2.1 spend state 1 next hstate
    (eq_ok_of_toOption hnext)⟩

/-! ## What the root determines -/

/-- A ledger that the source serialises without a panic: its texts and its number of coins fit
their prefixes. -/
def UtxoState.Fits (utxo : UtxoState) : Prop :=
  utxo.utxos.size < 2 ^ 64 ∧
    ∀ entry ∈ utxo.utxos.toList, FitsStr entry.1.txid ∧ FitsStr entry.2.address

instance (utxo : UtxoState) : Decidable utxo.Fits :=
  inferInstanceAs (Decidable (_ ∧ ∀ entry ∈ utxo.utxos.toList, _))

/-- A coin stored under its own outpoint, whose texts fit. -/
structure CoinFits (entry : OutPoint × Utxo) : Prop where
  outpoint_eq : entry.2.outpoint = entry.1
  txid : FitsStr entry.1.txid
  address : FitsStr entry.2.address

/-- Flags need no delimiter. -/
theorem selfDelimiting_flag :
    SelfDelimiting (fun _ : Bool => True) (fun flag => [if flag then (1 : UInt8) else 0]) := by
  refine .of_length (n := 1) (fun _ => rfl) fun a b _ _ heq => ?_
  cases a <;> cases b <;> simp_all

/-- Coins need no delimiter. -/
theorem selfDelimiting_utxoRootBytes : SelfDelimiting CoinFits utxoRootBytes := by
  rintro ⟨⟨txid, index⟩, ⟨outpoint, address, amount, coinbase, height⟩⟩
    ⟨⟨txid', index'⟩, ⟨outpoint', address', amount', coinbase', height'⟩⟩
    ⟨houtpoint, htxid, haddress⟩ ⟨houtpoint', htxid', haddress'⟩ rest rest' heq
  simp only at houtpoint houtpoint'
  subst houtpoint houtpoint'
  simp only [utxoRootBytes, List.append_assoc] at heq
  obtain ⟨rfl, hindex⟩ := selfDelimiting_encodeLenPrefixedStr htxid htxid' heq
  obtain ⟨rfl, howner⟩ := selfDelimiting_u32LeBytes trivial trivial hindex
  obtain ⟨rfl, hamount⟩ := selfDelimiting_encodeLenPrefixedStr haddress haddress' howner
  obtain ⟨rfl, hflag⟩ := selfDelimiting_u64LeBytes trivial trivial hamount
  obtain ⟨rfl, hheight⟩ := selfDelimiting_flag trivial trivial hflag
  obtain ⟨rfl, hrest⟩ := selfDelimiting_u64LeBytes trivial trivial hheight
  exact ⟨rfl, hrest⟩

/-- The coins of a ledger that fits fit. -/
theorem UtxoState.Indexed.coinFits (h : utxo.Indexed) (hfits : utxo.Fits) :
    ∀ entry ∈ utxo.utxos.toList, CoinFits entry := by
  rintro ⟨outpoint, coin⟩ hentry
  obtain ⟨htxid, haddress⟩ := hfits.2 (outpoint, coin) hentry
  exact ⟨h.outpoint_eq outpoint coin ((TreeMap.mem_toList _ _ _).mp hentry), htxid, haddress⟩

section

variable [Crypto]

/-- Without collisions the root tells ledgers apart. -/
theorem coinsRoot_inj (hsha : Function.Injective Crypto.sha256) {a b : UtxoState}
    (ha : a.Indexed) (hb : b.Indexed) (hfits : a.Fits) (hfits' : b.Fits)
    (h : coinsRoot a.utxos = coinsRoot b.utxos) : a.utxos = b.utxos := by
  have hpreimage := sha256Hex_injective hsha h
  simp only [List.append_assoc, List.append_cancel_left_eq] at hpreimage
  obtain ⟨hsize, hcoins⟩ := selfDelimiting_leBytes 8 hfits.1 hfits'.1 hpreimage
  have hlength : a.utxos.toList.length = b.utxos.toList.length := by
    rw [Std.ExtTreeMap.length_toList, Std.ExtTreeMap.length_toList, hsize]
  have hlist := selfDelimiting_utxoRootBytes.flatMap_inj (ha.coinFits hfits) (hb.coinFits hfits')
    hlength (congrArg (· ++ []) hcoins)
  exact Std.ExtTreeMap.toList_inj.mp hlist.1

/-- `compute_state_root` for a hash map that lists its entries in some order: the entries go
through a `BTreeMap`. -/
def stateRootOfIteration (entries : List (OutPoint × Utxo)) : Hash :=
  coinsRoot (insertAll ∅ entries)

/-- The state root binds the ledger: two ledgers that pass the index check have roots, and the
roots are equal exactly when the coins are. The order in which a ledger lists its coins does not
matter. -/
theorem computeStateRoot_binds (hsha : Function.Injective Crypto.sha256) (a b : UtxoState)
    (ha : a.validateDeterministicIndexes = .ok ()) (hb : b.validateDeterministicIndexes = .ok ())
    (hfits : a.Fits) (hfits' : b.Fits) :
    ∃ root root', a.computeStateRoot = .ok root ∧ b.computeStateRoot = .ok root' ∧
      (root = root' ↔ a.utxos = b.utxos) ∧
      ∀ entries, entries.Perm a.utxos.toList → stateRootOfIteration entries = root := by
  rw [UtxoState.validateDeterministicIndexes_eq_ok] at ha hb
  refine ⟨_, _, ha.computeStateRoot_eq, hb.computeStateRoot_eq,
    ⟨fun h => coinsRoot_inj hsha ha hb hfits hfits' h, fun h => by rw [h]⟩, fun entries hperm => ?_⟩
  rw [stateRootOfIteration, insertAll_of_perm_toList hperm]

end

/-- A coin of ten atoms, and a second one. -/
def twoCoins (amount : UInt64) : UtxoState where
  utxos := insertAll ∅ [(⟨"a", 0⟩, ⟨⟨"a", 0⟩, "alice", 10, false, 0⟩),
    (⟨"b", 1⟩, ⟨⟨"b", 1⟩, "bob", amount, false, 0⟩)]
  addressIndex := insertAll ∅ [("alice", [⟨"a", 0⟩]), ("bob", [⟨"b", 1⟩])]

/-- Two ledgers that differ in the amount of one of two coins have different roots. -/
theorem computeStateRoot_binds_twoCoins : letI := tableCrypto []
    (twoCoins 5).Fits ∧ (twoCoins 6).Fits ∧ ∃ root root', (twoCoins 5).computeStateRoot = .ok root ∧
      (twoCoins 6).computeStateRoot = .ok root' ∧ root ≠ root' := by
  let := tableCrypto []
  have hfits : (twoCoins 5).Fits ∧ (twoCoins 6).Fits := by decide +kernel
  have hindexed : ((twoCoins 5).validateDeterministicIndexes.toOption,
      (twoCoins 6).validateDeterministicIndexes.toOption) = (some (), some ()) := by decide +kernel
  obtain ⟨hfive, hsix⟩ := Prod.mk.inj hindexed
  have hne : (twoCoins 5).utxos ≠ (twoCoins 6).utxos := fun heq => by
    have hcoin := congrArg (fun utxos : TreeMap OutPoint Utxo => utxos[(⟨"b", 1⟩ : OutPoint)]?) heq
    revert hcoin
    decide +kernel
  obtain ⟨root, root', hroot, hroot', hiff, -⟩ :=
    computeStateRoot_binds (tableDigest_injective (by decide)) _ _ (eq_ok_of_toOption hfive)
      (eq_ok_of_toOption hsix) hfits.1 hfits.2
  exact ⟨hfits.1, hfits.2, root, root', hroot, hroot', fun heq => hne (hiff.mp heq)⟩

end PulseDag
