import PulseDag.Ledger.Transactions
import PulseDag.Lib.CoinMap

/-!
# Applying a transaction to the ledger

`apply_transaction` of `apply.rs`. It changes the state in place: when an input is missing,
the inputs before it are gone already. `applyTransactionInPlace` keeps that state beside the
error, and `applyTransaction` is for callers that work on a copy.
-/

namespace PulseDag

open List

/-- Take a coin out of the ledger and off the list of its owner. -/
def removeCoin (utxo : UtxoState) (outpoint : OutPoint) : Except PulseError UtxoState := do
  let spent ← okOr utxo.utxos[outpoint]? .utxoNotFound
  pure
    { utxos := utxo.utxos.erase outpoint
      addressIndex :=
        match utxo.addressIndex[spent.address]? with
        | some entries =>
          utxo.addressIndex.insert spent.address (entries.filter fun entry => entry ≠ outpoint)
        | none => utxo.addressIndex }

/-- Put a coin in under its outpoint, which must be free. -/
def addCoin (utxo : UtxoState) (coin : Utxo) : Except PulseError UtxoState := do
  ensure (coin.outpoint ∉ utxo.utxos) (.duplicateUtxoOutpoint (outpointLabel coin.outpoint))
  pure
    { utxos := utxo.utxos.insert coin.outpoint coin
      addressIndex := utxo.addressIndex.insert coin.address
        (utxo.addressIndex[coin.address]?.getD [] ++ [coin.outpoint]) }

/-- The outpoints that a transaction spends. The source skips the inputs of a coinbase,
which has none. -/
def spentOutpoints (tx : Transaction) : List OutPoint :=
  if isCoinbase tx then [] else tx.inputs.map TxInput.previousOutput

/-- The coins that a transaction creates at a height. -/
def createdCoins (tx : Transaction) (height : UInt64) : List Utxo :=
  ((outpointsOf tx).zip tx.outputs).map fun entry =>
    { outpoint := entry.1, address := entry.2.address, amount := entry.2.amount,
      coinbase := isCoinbase tx, height := height }

/-- Forget a transaction that has been applied. -/
def Mempool.removeConfirmed (mempool : Mempool) (tx : Transaction) : Mempool :=
  let cleaned : Mempool :=
    if tx.txid ∈ mempool.transactions then
      { mempool with
        transactions := mempool.transactions.erase tx.txid
        firstSeen := mempool.firstSeen.erase tx.txid
        admissionHeight := mempool.admissionHeight.erase tx.txid
        counters :=
          { mempool.counters with
            confirmedRemovedTotal := saturatingAdd mempool.counters.confirmedRemovedTotal 1 } }
    else mempool
  { cleaned with
    spentOutpoints := tx.inputs.foldl (fun spent input => spent.erase input.previousOutput)
      cleaned.spentOutpoints }

/-- The state after a transaction has been applied with this ledger as the result. -/
def ChainState.afterTransaction (state : ChainState) (tx : Transaction) (utxo : UtxoState) :
    ChainState :=
  { state with utxo := utxo, mempool := state.mempool.removeConfirmed tx }

/-- `apply_transaction` with the state that a failure leaves behind. -/
def applyTransactionInPlace (tx : Transaction) (state : ChainState) (height : UInt64) :
    Except (PulseError × ChainState) ChainState := do
  Except.mapError (fun error => (error, state))
    (checkCreatedOutpoints state.utxo.utxos (outpointsOf tx) ∅)
  let withUtxo := fun failed : PulseError × UtxoState => (failed.1, { state with utxo := failed.2 })
  let spent ← Except.mapError withUtxo (foldUntil removeCoin (spentOutpoints tx) state.utxo)
  let created ← Except.mapError withUtxo (foldUntil addCoin (createdCoins tx height) spent)
  pure (state.afterTransaction tx created)

/-- `apply_transaction` on a copy of the state, which a failure discards. -/
def applyTransaction (tx : Transaction) (state : ChainState) (height : UInt64) :
    Except PulseError ChainState :=
  Except.mapError Prod.fst (applyTransactionInPlace tx state height)

/-! ## What a successful application does -/

variable {created : TreeSet OutPoint} {outpoints : List OutPoint} {utxos : TreeMap OutPoint Utxo}
  {error : PulseError} {next utxo : UtxoState} {outpoint : OutPoint} {height : UInt64}
  {tx : Transaction} {state : ChainState}

/-- The outputs pass when they are new and distinct. -/
theorem checkCreatedOutpoints_eq_ok {u : Unit} :
    checkCreatedOutpoints utxos outpoints created = .ok u ↔
      outpoints.Nodup ∧ ∀ outpoint ∈ outpoints, outpoint ∉ utxos ∧ outpoint ∉ created := by
  induction outpoints generalizing created with
  | nil => simp [checkCreatedOutpoints]
  | cons outpoint rest ih =>
    rw [checkCreatedOutpoints, bind_eq_ok]
    simp only [ensure_eq_ok, ih, TreeSet.mem_insert, nodup_cons, forall_mem_cons, not_or]
    constructor
    · rintro ⟨-, hfree, hnodup, hrest⟩
      refine ⟨⟨fun hmem => (hrest outpoint hmem).2.1 rfl, hnodup⟩, hfree, fun other hother => ?_⟩
      exact ⟨(hrest other hother).1, (hrest other hother).2.2⟩
    · rintro ⟨⟨hnotMem, hnodup⟩, hfree, hrest⟩
      refine ⟨⟨⟩, hfree, hnodup, fun other hother => ⟨(hrest other hother).1, ?_⟩⟩
      exact ⟨fun heq => hnotMem (heq ▸ hother), (hrest other hother).2⟩

/-- The only error is a duplicate. -/
theorem checkCreatedOutpoints_error
    (h : checkCreatedOutpoints utxos outpoints created = .error error) :
    ∃ label, error = .duplicateUtxoOutpoint label := by
  induction outpoints generalizing created with
  | nil => simp [checkCreatedOutpoints] at h
  | cons outpoint rest ih =>
    rw [checkCreatedOutpoints] at h
    by_cases hfree : outpoint ∉ utxos ∧ outpoint ∉ created
    · rw [ensure_pos hfree, ok_bind] at h
      exact ih h
    · rw [ensure_neg hfree, error_bind] at h
      exact ⟨_, (Except.error.inj h).symm⟩

/-- A removed coin was there. -/
theorem removeCoin_eq_ok (h : removeCoin utxo outpoint = .ok next) :
    outpoint ∈ utxo.utxos ∧ next.utxos = utxo.utxos.erase outpoint := by
  simp only [removeCoin, ok_iff] at h
  obtain ⟨spent, hspent, rfl⟩ := h
  exact ⟨(TreeMap.mem_iff _ _).mpr ⟨spent, hspent⟩, rfl⟩

/-- A coin that is there is removed. -/
theorem removeCoin_ok (h : outpoint ∈ utxo.utxos) :
    ∃ next, removeCoin utxo outpoint = .ok next := by
  obtain ⟨spent, hspent⟩ := (TreeMap.mem_iff _ _).mp h
  simp [removeCoin, hspent]

/-- Coins are removed one by one exactly when they are distinct and present. -/
theorem removeCoins_eq_ok (h : outpoints.foldlM removeCoin utxo = .ok next) :
    outpoints.Nodup ∧ (∀ outpoint ∈ outpoints, outpoint ∈ utxo.utxos) ∧
      next.utxos = eraseAll utxo.utxos outpoints := by
  induction outpoints generalizing utxo with
  | nil =>
    obtain rfl := Except.ok.inj h
    simp
  | cons outpoint rest ih =>
    rw [foldlM_cons, bind_eq_ok] at h
    obtain ⟨middle, hmiddle, hrest⟩ := h
    obtain ⟨hmem, herase⟩ := removeCoin_eq_ok hmiddle
    obtain ⟨hnodup, hpresent, hutxos⟩ := ih hrest
    simp only [herase, TreeMap.mem_erase] at hpresent
    refine ⟨nodup_cons.mpr ⟨fun hin => (hpresent outpoint hin).1 rfl, hnodup⟩,
      forall_mem_cons.mpr ⟨hmem, fun other hother => (hpresent other hother).2⟩, ?_⟩
    rw [hutxos, herase, eraseAll_cons]

/-- Distinct coins that are there are removed. -/
theorem removeCoins_ok (hnodup : outpoints.Nodup)
    (hpresent : ∀ outpoint ∈ outpoints, outpoint ∈ utxo.utxos) :
    ∃ next, outpoints.foldlM removeCoin utxo = .ok next := by
  induction outpoints generalizing utxo with
  | nil => exact ⟨utxo, rfl⟩
  | cons outpoint rest ih =>
    obtain ⟨hnotMem, hnodup⟩ := nodup_cons.mp hnodup
    obtain ⟨middle, hmiddle⟩ := removeCoin_ok (hpresent outpoint mem_cons_self)
    have herase := (removeCoin_eq_ok hmiddle).2
    have hmiddlePresent : ∀ other ∈ rest, other ∈ middle.utxos := by
      intro other hother
      rw [herase, TreeMap.mem_erase]
      exact ⟨fun heq => hnotMem (heq ▸ hother), hpresent other (mem_cons_of_mem _ hother)⟩
    obtain ⟨next, hnext⟩ := ih hnodup hmiddlePresent
    exact ⟨next, by rw [foldlM_cons, hmiddle]; exact hnext⟩

/-- The only error is a missing coin. -/
theorem removeCoins_error (h : outpoints.foldlM removeCoin utxo = .error error) :
    error = .utxoNotFound := by
  induction outpoints generalizing utxo with
  | nil => simp at h
  | cons outpoint rest ih =>
    rw [foldlM_cons] at h
    cases hcoin : utxo.utxos[outpoint]? with
    | none =>
      simp only [removeCoin, hcoin, okOr_none, error_bind, Except.error.injEq] at h
      exact h.symm
    | some spent =>
      simp only [removeCoin, hcoin, okOr_some, ok_bind, pure_eq_ok] at h
      exact ih h

/-- An added coin is new. -/
theorem addCoin_eq_ok {coin : Utxo} (h : addCoin utxo coin = .ok next) :
    coin.outpoint ∉ utxo.utxos ∧ next.utxos = utxo.utxos.insert coin.outpoint coin := by
  simp only [addCoin, bind_eq_ok, ensure_eq_ok, pure_eq_ok, Except.ok.injEq] at h
  obtain ⟨-, hfree, rfl⟩ := h
  exact ⟨hfree, rfl⟩

/-- A new coin is added. -/
theorem addCoin_ok {coin : Utxo} (h : coin.outpoint ∉ utxo.utxos) :
    ∃ next, addCoin utxo coin = .ok next := by
  simp [addCoin, ensure_pos h]

/-- The entry of a coin in the ledger. -/
def coinEntry (coin : Utxo) : OutPoint × Utxo := (coin.outpoint, coin)

/-- Coins are added one by one exactly when their outpoints are distinct and free. -/
theorem addCoins_eq_ok {coins : List Utxo} (h : coins.foldlM addCoin utxo = .ok next) :
    (coins.map Utxo.outpoint).Nodup ∧ (∀ coin ∈ coins, coin.outpoint ∉ utxo.utxos) ∧
      next.utxos = insertAll utxo.utxos (coins.map coinEntry) := by
  induction coins generalizing utxo with
  | nil =>
    obtain rfl := Except.ok.inj h
    simp
  | cons coin rest ih =>
    rw [foldlM_cons, bind_eq_ok] at h
    obtain ⟨middle, hmiddle, hrest⟩ := h
    obtain ⟨hfree, hinsert⟩ := addCoin_eq_ok hmiddle
    obtain ⟨hnodup, hfresh, hutxos⟩ := ih hrest
    simp only [hinsert, TreeMap.mem_insert, not_or] at hfresh
    have hnotMem : coin.outpoint ∉ rest.map Utxo.outpoint := by
      intro hin
      obtain ⟨other, hother, heq⟩ := mem_map.mp hin
      exact (hfresh other hother).1 heq
    refine ⟨nodup_cons.mpr ⟨hnotMem, hnodup⟩,
      forall_mem_cons.mpr ⟨hfree, fun other hother => (hfresh other hother).2⟩, ?_⟩
    rw [hutxos, hinsert, map_cons, insertAll_cons, coinEntry]

/-- Distinct new coins are added. -/
theorem addCoins_ok {coins : List Utxo} (hnodup : (coins.map Utxo.outpoint).Nodup)
    (hfresh : ∀ coin ∈ coins, coin.outpoint ∉ utxo.utxos) :
    ∃ next, coins.foldlM addCoin utxo = .ok next := by
  induction coins generalizing utxo with
  | nil => exact ⟨utxo, rfl⟩
  | cons coin rest ih =>
    obtain ⟨hnotMem, hnodup⟩ := nodup_cons.mp hnodup
    have hfree := hfresh coin mem_cons_self
    obtain ⟨middle, hmiddle⟩ := addCoin_ok hfree
    have hmiddleFresh : ∀ other ∈ rest, other.outpoint ∉ middle.utxos := by
      intro other hother
      rw [(addCoin_eq_ok hmiddle).2, TreeMap.mem_insert, not_or]
      exact ⟨fun heq => hnotMem (heq ▸ mem_map_of_mem (f := Utxo.outpoint) hother),
        hfresh other (mem_cons_of_mem _ hother)⟩
    obtain ⟨next, hnext⟩ := ih hnodup hmiddleFresh
    exact ⟨next, by rw [foldlM_cons, hmiddle]; exact hnext⟩

/-- Every output has an outpoint. -/
theorem length_outpointsOf (tx : Transaction) : (outpointsOf tx).length = tx.outputs.length := by
  simp [outpointsOf]

/-- The outpoints of the created coins. -/
theorem createdCoins_outpoints (tx : Transaction) (height : UInt64) :
    (createdCoins tx height).map Utxo.outpoint = outpointsOf tx := by
  rw [createdCoins, map_map]
  exact map_fst_zip (length_outpointsOf tx).le

/-- The keys of the created coins. -/
theorem createdCoins_keys (tx : Transaction) (height : UInt64) :
    ((createdCoins tx height).map coinEntry).map Prod.fst = outpointsOf tx := by
  rw [map_map, ← createdCoins_outpoints tx height]
  rfl

/-- The amounts of the created coins. -/
theorem createdCoins_amounts (tx : Transaction) (height : UInt64) :
    (createdCoins tx height).map Utxo.amount = tx.outputs.map TxOutput.amount := by
  have hsnd : ((outpointsOf tx).zip tx.outputs).map Prod.snd = tx.outputs :=
    map_snd_zip (length_outpointsOf tx).ge
  have hamounts := congrArg (List.map TxOutput.amount) hsnd
  rw [map_map] at hamounts
  rw [createdCoins, map_map]
  exact hamounts

/-- When a transaction can be applied: it creates distinct free outpoints and spends distinct
coins of the ledger. -/
structure Applicable (tx : Transaction) (utxo : UtxoState) : Prop where
  created_nodup : (outpointsOf tx).Nodup
  created_fresh : ∀ outpoint ∈ outpointsOf tx, outpoint ∉ utxo.utxos
  spent_nodup : (spentOutpoints tx).Nodup
  spent_mem : ∀ outpoint ∈ spentOutpoints tx, outpoint ∈ utxo.utxos

/-- The ledger after a transaction: without the coins it spends, with those it creates. -/
def spendAndCreate (tx : Transaction) (height : UInt64) (utxos : TreeMap OutPoint Utxo) :
    TreeMap OutPoint Utxo :=
  insertAll (eraseAll utxos (spentOutpoints tx)) ((createdCoins tx height).map coinEntry)

/-- The outpoints after a transaction. -/
theorem mem_spendAndCreate {tx : Transaction} {height : UInt64} {utxos : TreeMap OutPoint Utxo}
    {outpoint : OutPoint} : outpoint ∈ spendAndCreate tx height utxos ↔
      outpoint ∈ outpointsOf tx ∨ (outpoint ∉ spentOutpoints tx ∧ outpoint ∈ utxos) := by
  rw [spendAndCreate, mem_insertAll, createdCoins_keys, mem_eraseAll]

/-- What `apply_transaction` does to the ledger alone. -/
def applyToLedger (tx : Transaction) (height : UInt64) (utxo : UtxoState) :
    Except PulseError UtxoState := do
  checkCreatedOutpoints utxo.utxos (outpointsOf tx) ∅
  let spent ← (spentOutpoints tx).foldlM removeCoin utxo
  (createdCoins tx height).foldlM addCoin spent

/-- A transaction changes the ledger and what follows from it. -/
theorem applyTransaction_eq (tx : Transaction) (state : ChainState) (height : UInt64) :
    applyTransaction tx state height = (do
      let utxo ← applyToLedger tx height state.utxo
      pure (state.afterTransaction tx utxo)) := by
  rw [applyTransaction, applyTransactionInPlace, applyToLedger]
  cases checkCreatedOutpoints state.utxo.utxos (outpointsOf tx) ∅ with
  | error error => rfl
  | ok _ =>
    rw [← mapError_foldUntil]
    cases foldUntil removeCoin (spentOutpoints tx) state.utxo with
    | error failed => rfl
    | ok spent =>
      simp only [Except.mapError, ok_bind]
      rw [← mapError_foldUntil]
      cases foldUntil addCoin (createdCoins tx height) spent <;> rfl

/-- A transaction that is applied changes the ledger by `spendAndCreate`. -/
theorem applyToLedger_eq_ok (h : applyToLedger tx height utxo = .ok next) :
    Applicable tx utxo ∧ next.utxos = spendAndCreate tx height utxo.utxos := by
  simp only [applyToLedger, bind_eq_ok, checkCreatedOutpoints_eq_ok] at h
  obtain ⟨-, ⟨hnodup, hfree⟩, spent, hspent, hcreated⟩ := h
  obtain ⟨hspentNodup, hspentMem, hspentUtxos⟩ := removeCoins_eq_ok hspent
  obtain ⟨-, -, hcreatedUtxos⟩ := addCoins_eq_ok hcreated
  refine ⟨⟨hnodup, fun outpoint hmem => (hfree outpoint hmem).1, hspentNodup, hspentMem⟩, ?_⟩
  rw [hcreatedUtxos, hspentUtxos, spendAndCreate]

/-- What a transaction that is applied does. -/
theorem applyTransaction_eq_ok {next : ChainState}
    (h : applyTransaction tx state height = .ok next) :
    Applicable tx state.utxo ∧ next.utxo.utxos = spendAndCreate tx height state.utxo.utxos ∧
      next = state.afterTransaction tx next.utxo := by
  simp only [applyTransaction_eq, ok_iff] at h
  obtain ⟨utxo, hutxo, rfl⟩ := h
  obtain ⟨happlicable, hutxos⟩ := applyToLedger_eq_ok hutxo
  exact ⟨happlicable, hutxos, rfl⟩

/-- The created coins are new after the spends. -/
theorem Applicable.coins_fresh (h : Applicable tx utxo) (height : UInt64) :
    ∀ coin ∈ createdCoins tx height, coin.outpoint ∉ eraseAll utxo.utxos (spentOutpoints tx) := by
  intro coin hcoin
  rw [mem_eraseAll]
  have hmem := mem_map_of_mem (f := Utxo.outpoint) hcoin
  rw [createdCoins_outpoints] at hmem
  exact fun hin => h.created_fresh _ hmem hin.2

/-- An applicable transaction changes the ledger. -/
theorem Applicable.applyToLedger_ok (h : Applicable tx utxo) (height : UInt64) :
    ∃ next, applyToLedger tx height utxo = .ok next := by
  have hcheck : checkCreatedOutpoints utxo.utxos (outpointsOf tx) ∅ = .ok () :=
    checkCreatedOutpoints_eq_ok.mpr ⟨h.created_nodup, fun outpoint hmem =>
      ⟨h.created_fresh outpoint hmem, Std.ExtTreeSet.not_mem_empty⟩⟩
  obtain ⟨spent, hspent⟩ := removeCoins_ok h.spent_nodup h.spent_mem
  have hcoins : ∀ coin ∈ createdCoins tx height, coin.outpoint ∉ spent.utxos := by
    rw [(removeCoins_eq_ok hspent).2.2]
    exact h.coins_fresh height
  have hnodup : ((createdCoins tx height).map Utxo.outpoint).Nodup := by
    rw [createdCoins_outpoints]
    exact h.created_nodup
  obtain ⟨created, hcreated⟩ := addCoins_ok hnodup hcoins
  exact ⟨created, by rw [applyToLedger, hcheck, ok_bind, hspent, ok_bind, hcreated]⟩

/-- An applicable transaction is applied. -/
theorem Applicable.applyTransaction_ok (h : Applicable tx state.utxo) (height : UInt64) :
    ∃ next, applyTransaction tx state height = .ok next := by
  obtain ⟨utxo, hutxo⟩ := h.applyToLedger_ok height
  exact ⟨state.afterTransaction tx utxo, by rw [applyTransaction_eq, hutxo, ok_bind, pure_eq_ok]⟩

/-- A transaction can only fail because a coin is missing or an outpoint is taken. -/
theorem applyToLedger_error (h : applyToLedger tx height utxo = .error error) :
    error = .utxoNotFound ∨ ∃ label, error = .duplicateUtxoOutpoint label := by
  rw [applyToLedger] at h
  cases hcheck : checkCreatedOutpoints utxo.utxos (outpointsOf tx) ∅ with
  | error found =>
    rw [hcheck, error_bind] at h
    exact .inr (Except.error.inj h ▸ checkCreatedOutpoints_error hcheck)
  | ok _ =>
    rw [hcheck, ok_bind] at h
    cases hspent : (spentOutpoints tx).foldlM removeCoin utxo with
    | error found =>
      rw [hspent, error_bind] at h
      exact .inl (Except.error.inj h ▸ removeCoins_error hspent)
    | ok spent =>
      obtain ⟨hnodup, hmem, -⟩ := removeCoins_eq_ok hspent
      have hcreated := checkCreatedOutpoints_eq_ok.mp hcheck
      have happlicable : Applicable tx utxo :=
        ⟨hcreated.1, fun outpoint hin => (hcreated.2 outpoint hin).1, hnodup, hmem⟩
      -- the outputs are inserted at outpoints that have been checked, so nothing fails here
      obtain ⟨next, hnext⟩ := happlicable.applyToLedger_ok height
      rw [applyToLedger, hcheck, ok_bind, h] at hnext
      exact absurd hnext (by simp)

/-- The errors of a transaction. -/
theorem applyTransaction_error (h : applyTransaction tx state height = .error error) :
    error = .utxoNotFound ∨ ∃ label, error = .duplicateUtxoOutpoint label := by
  rw [applyTransaction_eq] at h
  cases hledger : applyToLedger tx height state.utxo with
  | error found =>
    rw [hledger, error_bind] at h
    exact Except.error.inj h ▸ applyToLedger_error hledger
  | ok utxo =>
    rw [hledger, ok_bind] at h
    exact absurd h (by simp)

/-! ## Skipping what conflicts -/

/-- The atomic rule of the replays: apply a transaction to a copy of the state and keep the
copy, or skip the transaction when it lost a conflict, which is `none`. -/
def applyAtomic (tx : Transaction) (state : ChainState) (height : UInt64) :
    Except PulseError (Option ChainState) :=
  match applyTransaction tx state height with
  | .ok candidate => .ok (some candidate)
  | .error .utxoNotFound => .ok none
  | .error (.duplicateUtxoOutpoint _) => .ok none
  | .error error => .error error

/-- The rule never fails: every error of `apply_transaction` is a conflict. -/
theorem applyAtomic_eq (tx : Transaction) (state : ChainState) (height : UInt64) :
    applyAtomic tx state height = .ok (applyTransaction tx state height).toOption := by
  rw [applyAtomic]
  cases happly : applyTransaction tx state height with
  | ok candidate => rfl
  | error error =>
    rcases applyTransaction_error happly with rfl | ⟨label, rfl⟩ <;> rfl

/-- The ledger after a transaction under the atomic rule. -/
def applyOrSkip (utxo : UtxoState) (tx : Transaction) (height : UInt64) : UtxoState :=
  (applyToLedger tx height utxo).toOption.getD utxo

/-- Skipping a failed transaction keeps the ledger. -/
theorem applyAtomic_utxo (tx : Transaction) (state : ChainState) (height : UInt64) :
    ((applyTransaction tx state height).toOption.getD state).utxo =
      applyOrSkip state.utxo tx height := by
  rw [applyTransaction_eq, applyOrSkip]
  cases applyToLedger tx height state.utxo <;> rfl

/-- Under the atomic rule a transaction takes effect exactly when it is applicable. -/
theorem applyOrSkip_cases (utxo : UtxoState) (tx : Transaction) (height : UInt64) :
    (Applicable tx utxo ∧ (applyOrSkip utxo tx height).utxos =
      spendAndCreate tx height utxo.utxos) ∨
      (¬Applicable tx utxo ∧ applyOrSkip utxo tx height = utxo) := by
  cases hledger : applyToLedger tx height utxo with
  | ok next =>
    obtain ⟨happlicable, hutxos⟩ := applyToLedger_eq_ok hledger
    rw [applyOrSkip, hledger]
    exact .inl ⟨happlicable, hutxos⟩
  | error error =>
    refine .inr ⟨fun happlicable => ?_, by rw [applyOrSkip, hledger]; rfl⟩
    obtain ⟨next, hnext⟩ := happlicable.applyToLedger_ok height
    rw [hledger] at hnext
    exact absurd hnext (by simp)

/-! ## Atoms -/

/-- The atoms of a ledger. -/
def utxoTotal (utxos : TreeMap OutPoint Utxo) : ℕ := mapTotal (fun coin => coin.amount.toNat) utxos

/-- The atoms at an outpoint. -/
def amountAt (utxos : TreeMap OutPoint Utxo) (outpoint : OutPoint) : ℕ :=
  (utxos[outpoint]?.map fun coin => coin.amount.toNat).getD 0

/-- The atoms that the outputs of a transaction ask for. -/
def outputTotal (tx : Transaction) : ℕ := (tx.outputs.map fun output => output.amount.toNat).sum

/-- Removed coins take their amounts with them. -/
theorem utxoTotal_eraseAll (hnodup : outpoints.Nodup)
    (hmem : ∀ outpoint ∈ outpoints, outpoint ∈ utxos) :
    (outpoints.map (amountAt utxos)).sum + utxoTotal (eraseAll utxos outpoints) =
      utxoTotal utxos := by
  -- the coins at the outpoints, in the same order
  have hcoins : ∃ coins : List (OutPoint × Utxo), coins.map Prod.fst = outpoints ∧
      ∀ entry ∈ coins, utxos[entry.1]? = some entry.2 := by
    clear hnodup
    induction outpoints with
    | nil => exact ⟨[], rfl, by simp⟩
    | cons outpoint rest ih =>
      obtain ⟨coins, hfst, hlookup⟩ := ih fun other hother =>
        hmem other (mem_cons_of_mem _ hother)
      obtain ⟨coin, hcoin⟩ := (TreeMap.mem_iff _ _).mp (hmem outpoint mem_cons_self)
      exact ⟨(outpoint, coin) :: coins, by simp [hfst], forall_mem_cons.mpr ⟨hcoin, hlookup⟩⟩
  obtain ⟨coins, rfl, hlookup⟩ := hcoins
  have hamounts : (coins.map Prod.fst).map (amountAt utxos) =
      coins.map fun entry => entry.2.amount.toNat := by
    rw [map_map]
    refine map_congr_left fun entry hentry => ?_
    simp [amountAt, hlookup entry hentry]
  rw [hamounts]
  exact mapTotal_eraseAll (fun coin : Utxo => coin.amount.toNat) hnodup hlookup

/-- Applying a transaction takes the spent atoms out and puts the outputs in. -/
theorem Applicable.utxoTotal_spendAndCreate (h : Applicable tx utxo) (height : UInt64) :
    ((spentOutpoints tx).map (amountAt utxo.utxos)).sum +
        utxoTotal (spendAndCreate tx height utxo.utxos) =
      utxoTotal utxo.utxos + outputTotal tx := by
  have hfresh : ∀ entry ∈ (createdCoins tx height).map coinEntry,
      entry.1 ∉ eraseAll utxo.utxos (spentOutpoints tx) := by
    intro entry hentry
    obtain ⟨coin, hcoin, rfl⟩ := mem_map.mp hentry
    exact h.coins_fresh height coin hcoin
  have hinsert := mapTotal_insertAll (fun coin : Utxo => coin.amount.toNat)
    (createdCoins_keys tx height ▸ h.created_nodup) hfresh
  have herase := utxoTotal_eraseAll h.spent_nodup h.spent_mem
  have houtputs : (((createdCoins tx height).map coinEntry).map fun entry =>
      entry.2.amount.toNat).sum = outputTotal tx := by
    have hamounts := congrArg (List.map UInt64.toNat) (createdCoins_amounts tx height)
    rw [map_map, map_map] at hamounts
    rw [map_map]
    exact congrArg List.sum hamounts
  rw [houtputs] at hinsert
  unfold utxoTotal spendAndCreate at *
  omega

end PulseDag
