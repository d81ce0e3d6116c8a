import PulseDag.Ledger.ReplayV2
import PulseDag.Ledger.Supply

/-!
# Rebuilding the ledger along the stored order

`rebuild_state_from_ordered_dag` of `apply.rs`. Unlike the version 2 replay it applies each
transaction to the state itself. A transaction that fails at a later input is counted as
skipped, but the coins of its earlier inputs are gone.
-/

namespace PulseDag

open List

/-- `OrderedDagRebuildDiagnostics`. -/
structure OrderedDagRebuildDiagnostics where
  appliedTransactions : ℕ := 0
  skippedConflictingTransactions : ℕ := 0
  conflictDiagnostics : List String := []
  stateRoot : String := ""
  orderedDagTip : Option Hash := none
  deriving DecidableEq, Repr

/-- `OrderedDagRebuild`. -/
structure OrderedDagRebuild where
  utxo : UtxoState
  diagnostics : OrderedDagRebuildDiagnostics

/-- The variables of the loop of `rebuild_state_from_ordered_dag`. -/
structure RebuildLoop where
  rebuilt : ChainState
  diagnostics : OrderedDagRebuildDiagnostics

/-- How a replay tries a transaction at a height: whether it was applied, and the state that
is left. -/
abbrev TransactionRule := Transaction → ChainState → UInt64 → Except PulseError (Bool × ChainState)

/-- The rule of `rebuild_state_from_ordered_dag`: a conflict leaves the state as it is when
`apply_transaction` gives up. -/
def applyInPlace : TransactionRule := fun tx state height =>
  match applyTransactionInPlace tx state height with
  | .ok next => .ok (true, next)
  | .error (.utxoNotFound, left) => .ok (false, left)
  | .error (.duplicateUtxoOutpoint _, left) => .ok (false, left)
  | .error (error, _) => .error error

/-- The rule of `rebuild_authoritative_state_v2`: a conflict leaves the state as it was. -/
def applyToCopy : TransactionRule := fun tx state height => do
  let applied ← applyAtomic tx state height
  pure (applied.isSome, applied.getD state)

/-- One transaction of the loop. -/
def rebuildTransaction (apply : TransactionRule) (block : Block) (loop : RebuildLoop)
    (tx : Transaction) : Except PulseError RebuildLoop := do
  let tried ← apply tx loop.rebuilt block.header.height
  let d := loop.diagnostics
  if tried.1 then
    pure ⟨tried.2, { d with appliedTransactions := d.appliedTransactions + 1 }⟩
  else
    let skipped := d.skippedConflictingTransactions + 1
    let orderedPos := d.appliedTransactions + skipped
    pure ⟨tried.2,
      { d with
        skippedConflictingTransactions := skipped
        conflictDiagnostics := d.conflictDiagnostics ++
          [s!"ordered_pos={orderedPos} block={block.hash} tx={tx.txid} skipped_conflict"] }⟩

/-- One block of the loop. The genesis block is part of the base state. -/
def rebuildBlock (apply : TransactionRule) (state : ChainState) (loop : RebuildLoop) (hash : Hash) :
    Except PulseError RebuildLoop :=
  if hash = state.dag.genesisHash then .ok loop
  else do
    let block ← okOr state.dag.blocks[hash]?
      (.internal ("ordered DAG references missing block " ++ hash))
    block.transactions.foldlM (rebuildTransaction apply block) loop

section

variable [Crypto]

/-- `rebuild_state_from_ordered_dag` under a rule for its transactions. -/
def rebuildStateWith (apply : TransactionRule) (state : ChainState) :
    Except PulseError OrderedDagRebuild := do
  let loop ← state.dag.orderedDag.foldlM (rebuildBlock apply state)
    { rebuilt := withReplaySettings (initChainState state.chainId) state
      diagnostics := { orderedDagTip := state.dag.orderedDag.getLast? } }
  let stateRoot ← loop.rebuilt.utxo.computeStateRoot
  pure ⟨loop.rebuilt.utxo, { loop.diagnostics with stateRoot := stateRoot }⟩

/-- `rebuild_state_from_ordered_dag`. -/
def rebuildStateFromOrderedDag (state : ChainState) : Except PulseError OrderedDagRebuild :=
  rebuildStateWith applyInPlace state

/-- The same replay of the stored order with transactions applied all or nothing. -/
def rebuildStateAtomically (state : ChainState) : Except PulseError OrderedDagRebuild :=
  rebuildStateWith applyToCopy state

end

/-! ## One transaction -/

/-- A transaction whose failure is noticed before a coin is taken: an outpoint that it creates
is taken, or its first input is missing. -/
def FailsCleanly (tx : Transaction) (utxo : UtxoState) : Prop :=
  ¬((outpointsOf tx).Nodup ∧ ∀ outpoint ∈ outpointsOf tx, outpoint ∉ utxo.utxos) ∨
    ∃ outpoint, (spentOutpoints tx).head? = some outpoint ∧ outpoint ∉ utxo.utxos

variable {error : PulseError} {outpoints : List OutPoint} {utxo : UtxoState} {state : ChainState}
  {entries : List (Transaction × UInt64)}

variable {left : UtxoState} {tx : Transaction} {loop : RebuildLoop}

/-- A loop that removes coins only removes coins. -/
theorem foldUntil_removeCoin_mem (h : foldUntil removeCoin outpoints utxo = .error (error, left))
    {outpoint : OutPoint} (hmem : outpoint ∈ left.utxos) : outpoint ∈ utxo.utxos := by
  induction outpoints generalizing utxo with
  | nil => cases h
  | cons head rest ih =>
    rw [foldUntil] at h
    cases hremove : removeCoin utxo head with
    | error found =>
      simp only [hremove, Except.error.injEq, Prod.mk.injEq] at h
      exact h.2 ▸ hmem
    | ok next =>
      simp only [hremove] at h
      have hnext := ih h
      rw [(removeCoin_eq_ok hremove).2, TreeMap.mem_erase] at hnext
      exact hnext.2

/-- A loop that stops at a missing coin has removed nothing exactly when the first is missing. -/
theorem foldUntil_removeCoin_error
    (h : foldUntil removeCoin outpoints utxo = .error (error, left)) :
    (∃ outpoint, outpoints.head? = some outpoint ∧ outpoint ∉ utxo.utxos ∧ left = utxo) ∨
      ∃ outpoint, outpoints.head? = some outpoint ∧ outpoint ∈ utxo.utxos ∧
        outpoint ∉ left.utxos := by
  cases outpoints with
  | nil => cases h
  | cons head rest =>
    by_cases hpresent : head ∈ utxo.utxos
    · refine .inr ⟨head, rfl, hpresent, fun hleft => ?_⟩
      obtain ⟨next, hnext⟩ := removeCoin_ok hpresent
      rw [foldUntil, hnext] at h
      have hmem := foldUntil_removeCoin_mem h hleft
      rw [(removeCoin_eq_ok hnext).2, TreeMap.mem_erase] at hmem
      exact hmem.1 rfl
    · have hnone : utxo.utxos[head]? = none := Std.ExtTreeMap.getElem?_eq_none hpresent
      simp only [foldUntil, removeCoin, hnone, okOr_none, error_bind, Except.error.injEq,
        Prod.mk.injEq] at h
      exact .inl ⟨head, rfl, hpresent, h.2.symm⟩

/-- A transaction that fails in place takes no coin exactly when it fails cleanly, and then it
leaves the state alone. -/
theorem applyTransactionInPlace_error {left : ChainState} {height : UInt64}
    (h : applyTransactionInPlace tx state height = .error (error, left)) :
    (left.utxo.utxos = state.utxo.utxos ↔ FailsCleanly tx state.utxo) ∧
      (FailsCleanly tx state.utxo → left = state) := by
  have hfailed : applyTransaction tx state height = .error error := by
    rw [applyTransaction, h]
    rfl
  rw [applyTransactionInPlace] at h
  cases hcheck : checkCreatedOutpoints state.utxo.utxos (outpointsOf tx) ∅ with
  | error found =>
    have htaken : FailsCleanly tx state.utxo := by
      refine .inl fun hfree => ?_
      have hok : checkCreatedOutpoints state.utxo.utxos (outpointsOf tx) ∅ = .ok () :=
        checkCreatedOutpoints_eq_ok.mpr ⟨hfree.1, fun outpoint hmem =>
          ⟨hfree.2 outpoint hmem, Std.ExtTreeSet.not_mem_empty⟩⟩
      rw [hcheck] at hok
      cases hok
    simp only [hcheck, Except.mapError, error_bind, Except.error.injEq, Prod.mk.injEq] at h
    obtain ⟨-, rfl⟩ := h
    exact ⟨iff_of_true rfl htaken, fun _ => rfl⟩
  | ok _ =>
    have hcreated := checkCreatedOutpoints_eq_ok.mp hcheck
    have hfree : (outpointsOf tx).Nodup ∧ ∀ outpoint ∈ outpointsOf tx,
        outpoint ∉ state.utxo.utxos :=
      ⟨hcreated.1, fun outpoint hmem => (hcreated.2 outpoint hmem).1⟩
    rw [hcheck] at h
    simp only [Except.mapError, ok_bind] at h
    cases hspent : foldUntil removeCoin (spentOutpoints tx) state.utxo with
    | error failed =>
      obtain ⟨found, utxo⟩ := failed
      simp only [hspent, error_bind, Except.error.injEq, Prod.mk.injEq] at h
      obtain ⟨-, rfl⟩ := h
      rcases foldUntil_removeCoin_error hspent with
        ⟨outpoint, hhead, hmissing, rfl⟩ | ⟨outpoint, hhead, hpresent, hgone⟩
      · exact ⟨iff_of_true rfl (.inr ⟨outpoint, hhead, hmissing⟩), fun _ => rfl⟩
      · have hdirty : ¬FailsCleanly tx state.utxo := by
          rintro (htaken | ⟨other, hother, hmissing⟩)
          · exact htaken hfree
          · rw [hhead, Option.some.injEq] at hother
            exact hmissing (hother ▸ hpresent)
        have hchanged : utxo.utxos ≠ state.utxo.utxos := fun heq => hgone (heq ▸ hpresent)
        exact ⟨iff_of_false hchanged hdirty, fun hclean => absurd hclean hdirty⟩
    | ok spent =>
      -- with all inputs present the transaction is applicable, and cannot have failed
      obtain ⟨hnodup, hmem, -⟩ := removeCoins_eq_ok (foldUntil_eq_ok.mp hspent)
      have happlicable : Applicable tx state.utxo := ⟨hfree.1, hfree.2, hnodup, hmem⟩
      obtain ⟨next, hnext⟩ := happlicable.applyTransaction_ok height
      rw [hfailed] at hnext
      cases hnext

/-- In place, every failure is a conflict, as on a copy. -/
theorem applyInPlace_cases (tx : Transaction) (state : ChainState) (height : UInt64) :
    (∃ next, applyTransactionInPlace tx state height = .ok next ∧
      applyTransaction tx state height = .ok next ∧
      applyInPlace tx state height = .ok (true, next)) ∨
    ∃ error left, applyTransactionInPlace tx state height = .error (error, left) ∧
      applyTransaction tx state height = .error error ∧
      applyInPlace tx state height = .ok (false, left) := by
  have hcopy : applyTransaction tx state height =
      Except.mapError Prod.fst (applyTransactionInPlace tx state height) := rfl
  rw [applyInPlace]
  cases hplace : applyTransactionInPlace tx state height with
  | ok next =>
    rw [hplace] at hcopy
    exact .inl ⟨next, rfl, hcopy, rfl⟩
  | error failed =>
    obtain ⟨error, left⟩ := failed
    rw [hplace] at hcopy
    refine .inr ⟨error, left, rfl, hcopy, ?_⟩
    rcases applyTransaction_error hcopy with rfl | ⟨label, rfl⟩ <;> rfl

/-- The state that a transaction leaves when it is tried in place. -/
def leftInPlace (state : ChainState) (entry : Transaction × UInt64) : ChainState :=
  match applyTransactionInPlace entry.1 state entry.2 with
  | .ok next => next
  | .error failed => failed.2

/-- The transaction can be tried in place: it succeeds, or it fails cleanly. -/
def SafeInPlace (tx : Transaction) (utxo : UtxoState) : Prop :=
  Applicable tx utxo ∨ FailsCleanly tx utxo

/-- A transaction that is safe in place does the same in place and on a copy. -/
theorem SafeInPlace.applyInPlace_eq (h : SafeInPlace tx state.utxo) (height : UInt64) :
    applyInPlace tx state height = applyToCopy tx state height ∧
      applyInPlace tx state height =
        .ok ((applyTransaction tx state height).toOption.isSome, leftInPlace state (tx, height)) ∧
      (leftInPlace state (tx, height)).utxo = applyOrSkip state.utxo tx height := by
  have hutxo := applyAtomic_utxo tx state height
  rw [applyToCopy, applyAtomic_eq, ok_bind, pure_eq_ok]
  rcases applyInPlace_cases tx state height with
    ⟨next, hplace, hcopy, hrule⟩ | ⟨error, left, hplace, hcopy, hrule⟩
  · rw [hcopy] at hutxo ⊢
    rw [hrule, leftInPlace, hplace]
    exact ⟨rfl, rfl, hutxo⟩
  · have hclean : FailsCleanly tx state.utxo := by
      refine h.resolve_left fun happlicable => ?_
      obtain ⟨next, hnext⟩ := happlicable.applyTransaction_ok height
      rw [hcopy] at hnext
      cases hnext
    obtain rfl := (applyTransactionInPlace_error hplace).2 hclean
    rw [hcopy] at hutxo ⊢
    rw [hrule, leftInPlace, hplace]
    exact ⟨rfl, rfl, hutxo⟩

/-! ## The whole order -/

/-- Every transaction of the list is safe in place on the ledger of the atomic replay. -/
def SafeReplay : UtxoState → List (Transaction × UInt64) → Prop
  | _, [] => True
  | utxo, entry :: rest =>
    SafeInPlace entry.1 utxo ∧ SafeReplay (applyOrSkip utxo entry.1 entry.2) rest

/-- Safety of two lists one after the other. -/
theorem safeReplay_append {others : List (Transaction × UInt64)} :
    SafeReplay utxo (entries ++ others) ↔
      SafeReplay utxo entries ∧ SafeReplay (replayLedger utxo entries) others := by
  induction entries generalizing utxo with
  | nil => simp [SafeReplay, replayLedger]
  | cons entry rest ih =>
    rw [cons_append, SafeReplay, SafeReplay, ih, and_assoc]
    rfl

/-- The transactions that the loop reaches: it stops at the first block that is not stored. -/
def reachedTransactions (state : ChainState) (order : List Hash) : List (Transaction × UInt64) :=
  (order.takeWhile fun hash => hash = state.dag.genesisHash ∨ hash ∈ state.dag.blocks).flatMap
    (replayedTransactions state)

/-- A safe block is applied alike in place and on copies. -/
theorem rebuildTransactions_eq {block : Block} {txs : List Transaction}
    (h : SafeReplay loop.rebuilt.utxo (txs.map fun tx => (tx, block.header.height))) :
    ∃ next, txs.foldlM (rebuildTransaction applyInPlace block) loop = .ok next ∧
      txs.foldlM (rebuildTransaction applyToCopy block) loop = .ok next ∧
      next.rebuilt.utxo =
        replayLedger loop.rebuilt.utxo (txs.map fun tx => (tx, block.header.height)) := by
  induction txs generalizing loop with
  | nil => exact ⟨loop, rfl, rfl, rfl⟩
  | cons tx rest ih =>
    obtain ⟨hsafe, hrest⟩ := h
    obtain ⟨hsame, hleft, hutxo⟩ := hsafe.applyInPlace_eq block.header.height
    have hstep : ∃ middle, rebuildTransaction applyInPlace block loop tx = .ok middle ∧
        rebuildTransaction applyToCopy block loop tx = .ok middle ∧
        middle.rebuilt.utxo = applyOrSkip loop.rebuilt.utxo tx block.header.height := by
      rw [rebuildTransaction, rebuildTransaction, ← hsame, hleft, ok_bind]
      split <;> exact ⟨_, rfl, rfl, hutxo⟩
    obtain ⟨middle, hplace, hcopy, hmiddle⟩ := hstep
    rw [← hmiddle] at hrest
    obtain ⟨next, hnextPlace, hnextCopy, hnext⟩ := ih hrest
    refine ⟨next, ?_, ?_, ?_⟩
    · rw [foldlM_cons, hplace, ok_bind, hnextPlace]
    · rw [foldlM_cons, hcopy, ok_bind, hnextCopy]
    · rw [hnext, hmiddle]
      rfl

/-- So is a safe order. -/
theorem rebuildBlocks_eq {order : List Hash}
    (h : SafeReplay loop.rebuilt.utxo (reachedTransactions state order)) :
    order.foldlM (rebuildBlock applyInPlace state) loop =
      order.foldlM (rebuildBlock applyToCopy state) loop := by
  induction order generalizing loop with
  | nil => rfl
  | cons hash rest ih =>
    rw [foldlM_cons, foldlM_cons, rebuildBlock, rebuildBlock]
    rw [reachedTransactions] at h
    by_cases hgenesis : hash = state.dag.genesisHash
    · rw [if_pos hgenesis, if_pos hgenesis, ok_bind, ok_bind]
      rw [takeWhile_cons_of_pos (by simp [hgenesis]), flatMap_cons, replayedTransactions,
        if_pos hgenesis] at h
      exact ih h
    · rw [if_neg hgenesis, if_neg hgenesis]
      cases hblock : state.dag.blocks[hash]? with
      | none => rfl
      | some block =>
        have hstored : hash ∈ state.dag.blocks := (TreeMap.mem_iff _ _).mpr ⟨block, hblock⟩
        rw [takeWhile_cons_of_pos (by simp [hstored]), flatMap_cons, replayedTransactions,
          if_neg hgenesis, hblock, safeReplay_append] at h
        obtain ⟨next, hplace, hcopy, hnext⟩ := rebuildTransactions_eq h.1
        rw [okOr_some, ok_bind, ok_bind, hplace, hcopy, ok_bind, ok_bind]
        refine ih ?_
        rw [hnext]
        exact h.2

/-- Along a safe replay the state in place has the ledger of the atomic replay. -/
theorem SafeReplay.leftInPlace_utxo (h : SafeReplay state.utxo entries) :
    (entries.foldl leftInPlace state).utxo = replayLedger state.utxo entries := by
  induction entries generalizing state with
  | nil => rfl
  | cons entry rest ih =>
    obtain ⟨hsafe, hrest⟩ := h
    obtain ⟨-, -, hutxo⟩ := hsafe.applyInPlace_eq entry.2
    rw [← hutxo] at hrest
    rw [foldl_cons, ih hrest, hutxo]
    rfl

/-- In the replay in place of the list, a transaction that is skipped takes no coin. -/
def SkipsTakeNothing (base : ChainState) (entries : List (Transaction × UInt64)) : Prop :=
  ∀ before entry after error left, entries = before ++ entry :: after →
    applyTransactionInPlace entry.1 (before.foldl leftInPlace base) entry.2 = .error (error, left) →
    left.utxo.utxos = (before.foldl leftInPlace base).utxo.utxos

/-- Skipping takes nothing exactly in a safe replay. -/
theorem skipsTakeNothing_iff {base : ChainState} :
    SkipsTakeNothing base entries ↔ SafeReplay base.utxo entries := by
  constructor
  · intro h
    induction entries generalizing base with
    | nil => trivial
    | cons entry rest ih =>
      have hsafe : SafeInPlace entry.1 base.utxo := by
        rcases applyInPlace_cases entry.1 base entry.2 with
          ⟨next, -, hcopy, -⟩ | ⟨error, left, hplace, -, -⟩
        · exact .inl (applyTransaction_eq_ok hcopy).1
        · have hleft := h [] entry rest error left rfl hplace
          exact .inr ((applyTransactionInPlace_error hplace).1.mp hleft)
      obtain ⟨-, -, hutxo⟩ := hsafe.applyInPlace_eq entry.2
      refine ⟨hsafe, ?_⟩
      rw [← hutxo]
      refine ih fun before other after error left hsplit => ?_
      exact h (entry :: before) other after error left (by rw [hsplit, cons_append])
  · rintro h before entry after error left rfl hplace
    obtain ⟨hbefore, hentry⟩ := safeReplay_append.mp h
    rw [← hbefore.leftInPlace_utxo] at hentry
    refine (applyTransactionInPlace_error hplace).1.mpr
      (hentry.1.resolve_left fun happlicable => ?_)
    obtain ⟨next, hnext⟩ := happlicable.applyTransaction_ok entry.2
    rw [applyTransaction, hplace] at hnext
    cases hnext

section

variable [Crypto]

/-- The ledger that `rebuild_state_from_ordered_dag` starts with. -/
def rebuildBase (state : ChainState) : ChainState :=
  withReplaySettings (initChainState state.chainId) state

/-- The replay in place gives the coins of the atomic replay, and what it skips takes nothing. -/
def SkipsAtomically (state : ChainState) : Prop :=
  (fun rebuild => rebuild.utxo.utxos) <$> rebuildStateFromOrderedDag state =
      (fun rebuild => rebuild.utxo.utxos) <$> rebuildStateAtomically state ∧
    SkipsTakeNothing (rebuildBase state) (reachedTransactions state state.dag.orderedDag)

/-- The replay skips atomically exactly when, along the atomic replay, every transaction that
is not applicable has a taken outpoint or a missing first input. -/
theorem rebuildStateFromOrderedDag_skipsAtomically (state : ChainState) :
    SkipsAtomically state ↔
      SafeReplay (rebuildBase state).utxo (reachedTransactions state state.dag.orderedDag) := by
  rw [SkipsAtomically, skipsTakeNothing_iff]
  constructor
  · exact fun h => h.2
  · intro h
    refine ⟨?_, h⟩
    rw [rebuildStateFromOrderedDag, rebuildStateAtomically, rebuildStateWith, rebuildStateWith,
      rebuildBlocks_eq h]

/-- A state of the chain `c` whose stored order is the genesis block and one block for each
list of transactions. -/
def orderedSample (transactions : List (List Transaction)) : ChainState :=
  let s0 := initChainState "c"
  let blocks := transactions.zipIdx.map fun entry =>
    { bareBlock [s0.dag.genesisHash] 1 1 (UInt64.ofNat entry.2) with transactions := entry.1 }
  { s0 with
    dag := { s0.dag with
      blocks := insertAll s0.dag.blocks (blocks.map fun block => (block.hash, block))
      orderedDag := s0.dag.genesisHash :: blocks.map Block.hash } }

/-- Three blocks: one mints a coin, one spends the treasury coin, and one spends the minted
coin and then the treasury coin, which it no longer finds. -/
def lostCoin : ChainState :=
  let mint := sampleTransaction [] [7] 0 0
  let treasury : OutPoint := ⟨genesisTransaction.txid, 0⟩
  orderedSample [[mint], [sampleTransaction [treasury] [5] 0 1],
    [sampleTransaction [⟨mint.txid, 0⟩, treasury] [3] 0 2]]

end

/-- The last transaction is skipped, but the minted coin is lost: two coins are left on a copy,
one in place. -/
theorem rebuildStateFromOrderedDag_lostCoin : letI := checksumCrypto
    ∃ inPlace onCopy, rebuildStateFromOrderedDag lostCoin = .ok inPlace ∧
      rebuildStateAtomically lostCoin = .ok onCopy ∧
      inPlace.diagnostics.skippedConflictingTransactions = 1 ∧
      onCopy.diagnostics.skippedConflictingTransactions = 1 ∧
      inPlace.utxo.utxos.size = 1 ∧ onCopy.utxo.utxos.size = 2 := by
  let := checksumCrypto
  have hplace : ((rebuildStateFromOrderedDag lostCoin).toOption.map fun rebuild =>
      (rebuild.diagnostics.skippedConflictingTransactions, rebuild.utxo.utxos.size)) =
        some (1, 1) := by
    decide +kernel
  have hcopy : ((rebuildStateAtomically lostCoin).toOption.map fun rebuild =>
      (rebuild.diagnostics.skippedConflictingTransactions, rebuild.utxo.utxos.size)) =
        some (1, 2) := by
    decide +kernel
  simp only [Option.map_eq_some_iff, Prod.mk.injEq] at hplace hcopy
  obtain ⟨inPlace, hinPlace, hskipped, hsize⟩ := hplace
  obtain ⟨onCopy, honCopy, hcopySkipped, hcopySize⟩ := hcopy
  exact ⟨inPlace, onCopy, eq_ok_of_toOption hinPlace, eq_ok_of_toOption honCopy, hskipped,
    hcopySkipped, hsize, hcopySize⟩

end PulseDag
