import PulseDag.Core.Identity
import PulseDag.Ledger.Supply
import PulseDag.Mempool.PoolView

/-!
# Reconciliation is a projection

`reconcile_mempool` empties the pool and admits its transactions again in passes. The run is an
admission in passes (`reconcilePasses_of`): an accepted transaction enters the pool, one whose input
is not found waits, every other one is dropped. The survivors are free of conflicts, each of them is
valid beside the others, and they can be admitted again in any order, so a second run keeps them
all.

A pool may hold a transaction under a key other than its id. All that is needed of the pool is that
two different transactions in it do not both have one id as their computed id.
-/

namespace PulseDag

open List

/-! ## The order of the pool -/

instance (mempool : Mempool) : Std.TransCmp mempool.compareSeen :=
  inferInstanceAs (Std.TransCmp (compareLex
    (compareOn fun tx : Transaction => (mempool.sequenceKey tx.txid).1)
    (compareOn fun tx : Transaction => (mempool.sequenceKey tx.txid).2)))

variable {mempool : Mempool} {state : ChainState} {tx : Transaction}

/-- Only transactions with one id are tied. -/
theorem Mempool.txid_eq_of_compareSeen {a b : Transaction} (hab : (mempool.compareSeen a b).isLE)
    (hba : (mempool.compareSeen b a).isLE) : a.txid = b.txid := by
  have heq := Std.OrientedCmp.isLE_antisymm hab hba
  simp only [compareSeen, compareSequenceKeys, Ordering.then_eq_eq, Std.compare_eq_iff_eq] at heq
  exact heq.2

/-! ## Entering the pool -/

/-- What a successful `simulate_mempool_accept` does to the pool. -/
def Mempool.enter (mempool : Mempool) (tx : Transaction) : Mempool :=
  let seen := ({ mempool with spentOutpoints := markAll mempool.spentOutpoints tx.spends } :
    Mempool).assignFirstSeen tx.txid
  { seen with transactions := seen.transactions.insert tx.txid tx }

/-- The state after the listed transactions have entered. -/
def enterAll (base : ChainState) (pool : List Transaction) : ChainState :=
  { base with mempool := pool.foldl Mempool.enter base.mempool }

/-- One more transaction enters. -/
theorem enterAll_snoc (base : ChainState) (pool : List Transaction) (tx : Transaction) :
    enterAll base (pool ++ [tx]) =
      { enterAll base pool with mempool := (enterAll base pool).mempool.enter tx } := by
  rw [enterAll, foldl_append, foldl_cons, foldl_nil]
  rfl

/-- A sequence number changes no transaction. -/
theorem Mempool.assignFirstSeen_transactions (mempool : Mempool) (txid : Hash) :
    (mempool.assignFirstSeen txid).transactions = mempool.transactions := by
  rw [assignFirstSeen]
  split <;> rfl

/-- A sequence number spends nothing. -/
theorem Mempool.assignFirstSeen_spentOutpoints (mempool : Mempool) (txid : Hash) :
    (mempool.assignFirstSeen txid).spentOutpoints = mempool.spentOutpoints := by
  rw [assignFirstSeen]
  split <;> rfl

/-- What has a sequence number afterwards. -/
theorem Mempool.mem_assignFirstSeen (mempool : Mempool) (txid other : Hash) :
    other ∈ (mempool.assignFirstSeen txid).firstSeen ↔ other = txid ∨
    other ∈ mempool.firstSeen := by
  rw [assignFirstSeen]
  split
  case isTrue h => exact ⟨.inr, fun hor => hor.elim (fun heq => heq ▸ h) id⟩
  case isFalse h => exact TreeMap.mem_insert _ _ _ _

/-- Fresh inputs are all marked as spent. -/
theorem foldl_markSpent {inputs : List TxInput} {spent : TreeSet OutPoint}
    (hnodup : (inputs.map TxInput.previousOutput).Nodup)
    (hfresh : ∀ o ∈ inputs.map TxInput.previousOutput, o ∉ spent) :
    foldUntil markSpent inputs spent = .ok (markAll spent (inputs.map TxInput.previousOutput)) := by
  induction inputs generalizing spent with
  | nil => rfl
  | cons input rest ih =>
    rw [map_cons, nodup_cons] at hnodup
    obtain ⟨hinput, hrest⟩ := forall_mem_cons.mp hfresh
    have hstep : markSpent spent input = .ok (spent.insert input.previousOutput) := by
      rw [markSpent, ensure_pos hinput, ok_bind, pure_eq_ok]
    have hlater : ∀ o ∈ rest.map TxInput.previousOutput, o ∉ spent.insert input.previousOutput := by
      intro o ho hmem
      rcases (TreeSet.mem_insert _ _ _).mp hmem with rfl | hspent
      · exact hnodup.1 ho
      · exact hrest o ho hspent
    simp only [foldUntil, hstep, ih hnodup.2 hlater]
    rfl

/-- A transaction with fresh inputs enters. -/
theorem simulateMempoolAccept_eq (hnodup : tx.spends.Nodup)
    (hfresh : ∀ o ∈ tx.spends, o ∉ state.mempool.spentOutpoints) :
    simulateMempoolAccept tx state = .ok { state with mempool := state.mempool.enter tx } := by
  simp only [simulateMempoolAccept, foldl_markSpent hnodup hfresh, Except.mapError, ok_bind,
    pure_eq_ok]
  rfl

/-- The transactions after entering a list. -/
theorem foldl_enter_transactions (pool : List Transaction) (mempool : Mempool) :
    (pool.foldl Mempool.enter mempool).transactions =
      insertAll mempool.transactions (pool.map fun tx => (tx.txid, tx)) := by
  induction pool generalizing mempool with
  | nil => rfl
  | cons tx rest ih =>
    rw [foldl_cons, ih, map_cons, insertAll_cons]
    simp only [Mempool.enter, Mempool.assignFirstSeen_transactions]

/-- The spent outpoints after entering a list. -/
theorem mem_foldl_enter_spentOutpoints (pool : List Transaction) (mempool : Mempool)
    (o : OutPoint) : o ∈ (pool.foldl Mempool.enter mempool).spentOutpoints ↔
      o ∈ mempool.spentOutpoints ∨ ∃ tx ∈ pool, o ∈ tx.spends := by
  induction pool generalizing mempool with
  | nil => simp
  | cons tx rest ih =>
    rw [foldl_cons, ih]
    simp only [Mempool.enter, Mempool.assignFirstSeen_spentOutpoints, mem_markAll,
      exists_mem_cons_iff, or_assoc]

/-- The sequence numbers after entering a list. -/
theorem mem_foldl_enter_firstSeen (pool : List Transaction) (mempool : Mempool) (txid : Hash) :
    txid ∈ (pool.foldl Mempool.enter mempool).firstSeen ↔
      txid ∈ mempool.firstSeen ∨ txid ∈ pool.map Transaction.txid := by
  induction pool generalizing mempool with
  | nil => simp
  | cons tx rest ih =>
    rw [foldl_cons, ih]
    simp only [Mempool.enter, Mempool.mem_assignFirstSeen, map_cons, mem_cons]
    tauto

/-- A transaction that has a sequence number keeps it, and no other number changes. -/
theorem foldl_enter_firstSeen {pool : List Transaction}
    (h : ∀ tx ∈ pool, tx.txid ∈ mempool.firstSeen) :
    (pool.foldl Mempool.enter mempool).firstSeen = mempool.firstSeen := by
  induction pool generalizing mempool with
  | nil => rfl
  | cons tx rest ih =>
    obtain ⟨htx, hrest⟩ := forall_mem_cons.mp h
    have hsame : (mempool.enter tx).firstSeen = mempool.firstSeen := by
      simp only [Mempool.enter, Mempool.assignFirstSeen, htx, if_true]
    rw [foldl_cons, ih (fun other hother => hsame ▸ hrest other hother), hsame]

/-- Entering a list represents it. -/
theorem enterAll_represents {base : ChainState} {pool : List Transaction}
    (htransactions : base.mempool.transactions = ∅) (hspent : base.mempool.spentOutpoints = ∅)
    (hids : (pool.map Transaction.txid).Nodup) : Represents base (enterAll base pool) pool where
  chainId := rfl
  dag := rfl
  utxo := rfl
  transactions txid tx := by
    have hdistinct : ((pool.map fun tx => (tx.txid, tx)).map Prod.fst).Nodup := by
      rwa [map_map]
    rw [enterAll, foldl_enter_transactions, htransactions, getElem?_insertAll_eq_some _ hdistinct
      fun _ _ => Std.ExtTreeMap.not_mem_empty]
    simp only [mem_map, Prod.mk.injEq, Std.ExtTreeMap.getElem?_empty, reduceCtorEq, or_false]
    constructor
    · rintro ⟨a, ha, hid, rfl⟩
      exact ⟨ha, hid⟩
    · rintro ⟨ha, hid⟩
      exact ⟨tx, ha, hid, rfl⟩
  spent o := by
    rw [enterAll, mem_foldl_enter_spentOutpoints, hspent]
    simp

/-! ## The run -/

section

variable {identified : Transaction → Prop}
  {validate : Transaction → ChainState → Except PulseError Unit}

/-- The verdict on a transaction after others have entered. -/
def judgeAfter (validate : Transaction → ChainState → Except PulseError Unit) (base : ChainState)
    (pool : List Transaction) (tx : Transaction) : Verdict :=
  verdictOf (validate tx (enterAll base pool))

/-- The loop of `reconcile_mempool` that an admission stands for. -/
def ReconcileLoop.of (base : ChainState) (loop : Admission Transaction) : ReconcileLoop where
  working := enterAll base loop.accepted
  removedTxids := loop.dropped.map Transaction.txid
  keptTxids := loop.accepted.map Transaction.txid
  nextPending := loop.deferred
  progressed := loop.progressed

/-- One transaction of a pass is a step of the admission. -/
theorem reconcileTransaction_of (hv : PoolValidator identified validate) (base : ChainState)
    (loop : Admission Transaction) (tx : Transaction) :
    reconcileTransaction validate (.of base loop) tx =
      .of base (loop.step (judgeAfter validate base) tx) := by
  rw [reconcileTransaction, Admission.step, judgeAfter]
  split
  case h_1 hok =>
    have hok : validate tx (enterAll base loop.accepted) = .ok () := hok
    simp only [hok, verdictOf, ReconcileLoop.of,
      simulateMempoolAccept_eq (hv.nodup hok) (hv.unspent hok),
      enterAll_snoc, map_append, map_cons, map_nil]
  case h_2 hmissing =>
    have hmissing : validate tx (enterAll base loop.accepted) = .error .utxoNotFound := hmissing
    simp only [hmissing, verdictOf, ReconcileLoop.of]
  case h_3 error hother herror =>
    have herror : validate tx (enterAll base loop.accepted) = .error error := herror
    have hdrop : verdictOf (.error error) = .drop := by
      rw [verdictOf]
      exact hother
    simp only [herror, hdrop, ReconcileLoop.of, map_append, map_cons, map_nil]

/-- A pass is a pass of the admission. -/
theorem foldl_reconcileTransaction_of (hv : PoolValidator identified validate) (base : ChainState)
    (pending : List Transaction) (loop : Admission Transaction) :
    pending.foldl (reconcileTransaction validate) (.of base loop) =
      .of base (pending.foldl (Admission.step (judgeAfter validate base)) loop) := by
  induction pending generalizing loop with
  | nil => rfl
  | cons tx rest ih => rw [foldl_cons, foldl_cons, reconcileTransaction_of hv, ih]

/-- The passes of `reconcile_mempool` are an admission in passes. -/
theorem reconcilePasses_of (hv : PoolValidator identified validate) (base : ChainState) (fuel : ℕ)
    (pending : List Transaction) (loop : Admission Transaction) :
    reconcilePasses validate fuel pending (.of base loop) =
      .of base (admitAll (judgeAfter validate base) fuel pending loop) := by
  induction fuel generalizing pending loop with
  | zero =>
    cases pending with
    | nil => rfl
    | cons tx rest => simp [reconcilePasses, admitAll, ReconcileLoop.of]
  | succ fuel ih =>
    cases pending with
    | nil => rfl
    | cons tx rest =>
      have hpass := foldl_reconcileTransaction_of hv base (tx :: rest)
        { loop with deferred := [], progressed := false }
      have hunfold : reconcilePasses validate (fuel + 1) (tx :: rest) (.of base loop) =
          let pass := ReconcileLoop.of base (loop.pass (judgeAfter validate base) (tx :: rest))
          if pass.progressed then reconcilePasses validate fuel pass.nextPending pass
          else { pass with
            removedTxids := pass.removedTxids ++ pass.nextPending.map Transaction.txid } := by
        rw [Admission.pass, ← hpass]
        rfl
      rw [hunfold, admitAll_cons]
      by_cases hprogressed : (loop.pass (judgeAfter validate base) (tx :: rest)).progressed = true
      · rw [if_pos hprogressed, ← ih]
        exact if_pos hprogressed
      · rw [if_neg hprogressed]
        simp [ReconcileLoop.of, hprogressed]

/-! ## The survivors -/

/-- Transactions that can enter one after another: no two share an id or an input, and each one is
valid on the pool of those before it. -/
structure Survivors (identified : Transaction → Prop)
    (validate : Transaction → ChainState → Except PulseError Unit) (base : ChainState)
    (pool : List Transaction) : Prop where
  ids : (pool.map Transaction.txid).Nodup
  identified : ∀ tx ∈ pool, identified tx
  conflictFree : ∀ a ∈ pool, ∀ b ∈ pool, a ≠ b → ∀ o ∈ a.spends, o ∉ b.spends
  valid : ∀ earlier tx later, pool = earlier ++ tx :: later → ∀ s, Represents base s earlier →
    validate tx s = .ok ()

/-- The verdict on an accepted transaction. -/
theorem accept_iff {result : Except PulseError Unit} : verdictOf result = .accept ↔
    result = .ok () := by
  constructor
  · intro h
    rw [verdictOf.eq_def] at h
    split at h
    · rfl
    · cases h
    · cases h
  · rintro rfl
    rfl

/-- Among transactions without a shared id, what is admitted can enter one after another. -/
theorem Admitted.survivors (hv : PoolValidator identified validate) {base : ChainState}
    (htransactions : base.mempool.transactions = ∅) (hspent : base.mempool.spentOutpoints = ∅)
    {live pool : List Transaction}
    (hlive : ∀ a ∈ live, ∀ b ∈ live, identified a → identified b → a.txid = b.txid → a = b)
    (hpool : ∀ tx ∈ pool, tx ∈ live) (h : Admitted (judgeAfter validate base) pool) :
    Survivors identified validate base pool := by
  induction h with
  | nil => exact ⟨nodup_nil, by simp, by simp, fun earlier tx later heq => by simp at heq⟩
  | @snoc pool tx hadmitted haccept ih =>
    obtain ⟨hbefore, htx⟩ := forall_mem_append.mp hpool
    have hbase := ih hbefore
    have hvalid : validate tx (enterAll base pool) = .ok () := accept_iff.mp haccept
    have hrepresents := enterAll_represents htransactions hspent hbase.ids
    have hid : identified tx := hv.identified (by rw [hvalid]; simp [verdictOf])
    have hapart : ∀ a ∈ pool, ∀ o ∈ tx.spends, o ∉ a.spends := fun a ha o ho hother =>
      hv.unspent hvalid o ho ((hrepresents.spent o).mpr ⟨a, ha, hother⟩)
    -- a transaction of the pool with the same id would be the same one, with the same inputs
    have hfresh : ∀ a ∈ pool, a.txid ≠ tx.txid := by
      intro a ha hsame
      obtain rfl := hlive a (hbefore a ha) tx (htx tx (by simp)) (hbase.identified a ha) hid hsame
      obtain ⟨input, hinput⟩ := exists_mem_of_ne_nil _ (hv.inputs_ne_nil hvalid)
      exact hapart a ha _ (mem_spends hinput) (mem_spends hinput)
    refine ⟨?_, ?_, ?_, ?_⟩
    · rw [map_append, map_singleton, nodup_append]
      refine ⟨hbase.ids, nodup_singleton _, fun id hmem other hother => ?_⟩
      obtain ⟨a, ha, rfl⟩ := mem_map.mp hmem
      rw [mem_singleton.mp hother]
      exact hfresh a ha
    · exact forall_mem_append.mpr ⟨hbase.identified, forall_mem_singleton.mpr hid⟩
    · intro a ha b hb hne o ho hother
      rcases mem_append.mp ha with ha | ha
      · rcases mem_append.mp hb with hb | hb
        · exact hbase.conflictFree a ha b hb hne o ho hother
        · rw [mem_singleton.mp hb] at hother
          exact hapart a ha o hother ho
      · rw [mem_singleton.mp ha] at ho hne
        rcases mem_append.mp hb with hb | hb
        · exact hapart b hb o ho hother
        · exact hne (mem_singleton.mp hb).symm
    · intro earlier a later heq s hs
      rcases eq_nil_or_concat later with rfl | ⟨init, last, rfl⟩
      · obtain ⟨rfl, hlast⟩ := append_inj' heq rfl
        obtain rfl := singleton_inj.mp hlast
        exact (hv.congr (hs.sameInputs hrepresents tx)).trans hvalid
      · have hsplit : pool ++ [tx] = (earlier ++ a :: init) ++ [last] := by
          rw [heq]
          simp
        exact hbase.valid earlier a init (append_inj' hsplit rfl).1 s hs

namespace Survivors

variable {base s : ChainState} {pool part : List Transaction}

/-- Survivors are distinct. -/
theorem nodup (h : Survivors identified validate base pool) : pool.Nodup := h.ids.of_map

/-- Survivors have distinct ids. -/
theorem eq_of_txid (h : Survivors identified validate base pool) :
    ∀ a ∈ pool, ∀ b ∈ pool, a.txid = b.txid → a = b := fun _ ha _ hb heq =>
  inj_on_of_nodup_map h.ids ha hb heq

/-- A survivor on a part of the others is valid or waits, and it is valid if those before it are
there. -/
theorem ok_or_missing (hv : PoolValidator identified validate)
    (h : Survivors identified validate base pool) {earlier later : List Transaction}
    (hpool : pool = earlier ++ tx :: later) (hpart : part ⊆ pool)
    (hids : (earlier.map Transaction.txid).Nodup) (htx : tx ∉ part) (hs : Represents base s part) :
    (validate tx s = .ok () ∨ validate tx s = .error .utxoNotFound) ∧
      (earlier ⊆ part → validate tx s = .ok ()) := by
  have hearlier : earlier ⊆ pool := fun x hx => by
    rw [hpool]
    exact mem_append_left _ hx
  have hmem : tx ∈ pool := by simp [hpool]
  let empty := { base with mempool := { base.mempool with transactions := ∅, spentOutpoints := ∅ } }
  have hempty : Represents empty (enterAll empty earlier) earlier :=
    enterAll_represents rfl rfl hids
  have ht : Represents base (enterAll empty earlier) earlier :=
    ⟨⟨rfl, rfl⟩, rfl, hempty.transactions, hempty.spent⟩
  have hvalid := h.valid earlier tx later hpool _ ht
  have hresolved := fun o ho => hs.resolvedOutput_or ht h.eq_of_txid hpart hearlier
    (hv.resolved hvalid o ho)
  have hunspent : ∀ o ∈ tx.spends, o ∉ s.mempool.spentOutpoints := fun o ho hspent => by
    obtain ⟨other, hother, hspends⟩ := (hs.spent o).mp hspent
    exact h.conflictFree tx hmem other (hpart hother) (fun heq => htx (heq ▸ hother)) o ho hspends
  have hsame : SameChain s (enterAll empty earlier) := ⟨hs.chainId, hs.dag⟩
  refine ⟨hv.ok_or_missing hvalid ⟨hsame, fun o ho => (hresolved o ho).1, hunspent⟩, fun hsub => ?_⟩
  refine (hv.congr ⟨hsame, fun o ho => (hresolved o ho).2 hsub, fun o ho => ?_⟩).trans hvalid
  exact iff_of_false (hunspent o ho) (hv.unspent hvalid o ho)

/-- Survivors can be admitted again, in any order, from every state with an empty pool over the same
ledger. -/
theorem readmissible (hv : PoolValidator identified validate)
    (h : Survivors identified validate base pool) {start : ChainState}
    (hchain : SameChain start base)
    (hutxo : start.utxo = base.utxo) (htransactions : start.mempool.transactions = ∅)
    (hspent : start.mempool.spentOutpoints = ∅) :
    Readmissible (judgeAfter validate start) pool := by
  have hrepresents : ∀ {part : List Transaction}, part ⊆ pool → part.Nodup →
      Represents base (enterAll start part) part := by
    intro part hsub hnodup
    have hids : (part.map Transaction.txid).Nodup :=
      hnodup.map_on fun a ha b hb => h.eq_of_txid a (hsub ha) b (hsub hb)
    have hstart := enterAll_represents htransactions hspent hids
    exact ⟨⟨hchain.chainId, hchain.dag⟩, hutxo, hstart.transactions, hstart.spent⟩
  have hsplit : ∀ {earlier later : List Transaction} {tx : Transaction},
      pool = earlier ++ tx :: later → (earlier.map Transaction.txid).Nodup := by
    rintro earlier later tx heq
    have hids := h.ids
    rw [heq, map_append] at hids
    exact hids.of_append_left
  refine ⟨h.nodup, fun part tx hsub hnodup htx hfresh hdrop => ?_,
    fun part earlier tx later heq hsub hnodup hfresh hearlier => ?_⟩
  · obtain ⟨earlier, later, heq⟩ := append_of_mem htx
    rw [judgeAfter] at hdrop
    rcases (h.ok_or_missing hv heq hsub (hsplit heq) hfresh (hrepresents hsub hnodup)).1 with
      hok | hmissing
    · rw [hok] at hdrop
      cases hdrop
    · rw [hmissing] at hdrop
      cases hdrop
  · rw [judgeAfter, accept_iff]
    exact (h.ok_or_missing hv heq hsub (hsplit heq) hfresh (hrepresents hsub hnodup)).2 hearlier

end Survivors

/-! ## The result -/

/-- The state that the passes start from. -/
def emptiedState (state : ChainState) : ChainState :=
  { state with mempool :=
    { state.mempool.countReconcileRun with transactions := ∅, spentOutpoints := ∅ } }

/-- The pool in the order in which it is read. -/
def sortedLive (state : ChainState) : List Transaction :=
  state.mempool.live.insertionSort fun a b =>
    (state.mempool.countReconcileRun.compareSeen a b).isLE

/-- The admission that the run stands for. -/
def reconcileAdmission (validate : Transaction → ChainState → Except PulseError Unit)
    (state : ChainState) : Admission Transaction :=
  admitAll (judgeAfter validate (emptiedState state)) (sortedLive state).length (sortedLive state)
    {}

/-- The pool after a reconciliation, from the transactions that were admitted. -/
theorem reconcileMempoolWith_mempool (hv : PoolValidator identified validate) (state : ChainState)
    (hne : state.mempool.transactions.isEmpty = false) :
    let next := reconcileMempoolWith validate state
    let final := enterAll (emptiedState state) (reconcileAdmission validate state).accepted
    (∃ counters, next.1.mempool = { final.mempool.retainLive with
      counters := counters
      maxTransactions := state.mempool.maxTransactions
      maxSpentOutpoints := state.mempool.maxSpentOutpoints
      nextFirstSeen := nextSequence final.mempool.retainLive.firstSeen }) ∧
      next.2.removedTxids = (reconcileAdmission validate state).dropped.map Transaction.txid := by
  have hpasses := reconcilePasses_of hv (emptiedState state) (sortedLive state).length
    (sortedLive state) {}
  have hcounted : state.mempool.countReconcileRun.transactions.isEmpty = false := hne
  have hrun : reconcilePasses validate (sortedLive state).length (sortedLive state)
      ⟨emptiedState state, [], [], [], false⟩ =
        .of (emptiedState state) (reconcileAdmission validate state) := hpasses
  have hunfold : reconcileMempoolWith validate state =
      finishReconcile state (reconcilePasses validate (sortedLive state).length (sortedLive state)
        ⟨emptiedState state, [], [], [], false⟩) := by
    rw [reconcileMempoolWith, reconcileIterated]
    simp only [hcounted]
    rfl
  rw [hunfold, hrun]
  exact ⟨⟨_, rfl⟩, rfl⟩

/-- The fields of the pool after a reconciliation. -/
theorem reconcileMempoolWith_result (hv : PoolValidator identified validate) (state : ChainState)
    (hne : state.mempool.transactions.isEmpty = false) :
    let next := reconcileMempoolWith validate state
    let final := enterAll (emptiedState state) (reconcileAdmission validate state).accepted
    next.1.mempool.transactions = final.mempool.transactions ∧
      next.1.mempool.spentOutpoints = final.mempool.spentOutpoints ∧
      next.1.mempool.firstSeen =
        retainTransactions final.mempool.firstSeen final.mempool.transactions ∧
      next.2.removedTxids = (reconcileAdmission validate state).dropped.map Transaction.txid := by
  obtain ⟨⟨counters, hmempool⟩, hremoved⟩ := reconcileMempoolWith_mempool hv state hne
  simp only [hmempool]
  exact ⟨rfl, rfl, rfl, hremoved⟩

/-- Two different transactions of the pool do not have one id. -/
def NoSharedId (identified : Transaction → Prop) (mempool : Mempool) : Prop :=
  ∀ a ∈ mempool.live, ∀ b ∈ mempool.live, identified a → identified b → a.txid = b.txid → a = b

/-- What is retained. -/
theorem mem_retainTransactions {α : Type} (map : TreeMap Hash α) (live : TreeMap Hash Transaction)
    (txid : Hash) :
    (retainTransactions map live)[txid]? = if txid ∈ live then map[txid]? else none := by
  rw [retainTransactions, getElem?_retainKeys]
  simp only [mem_markAll, Std.ExtTreeSet.not_mem_empty, false_or, Std.ExtTreeMap.mem_keys]

/-- The shape of a reconciled pool: some of its transactions, which can enter one after another,
with their inputs and sequence numbers and no others. -/
structure Reconciled (identified : Transaction → Prop)
    (validate : Transaction → ChainState → Except PulseError Unit) (base next : ChainState)
    (pool : List Transaction) : Prop extends Represents base next pool where
  survivors : Survivors identified validate base pool
  firstSeen : ∀ txid, txid ∈ next.mempool.firstSeen ↔ txid ∈ next.mempool.transactions

/-- The ids of a represented pool. -/
theorem Represents.mem_transactions {base s : ChainState} {pool : List Transaction}
    (h : Represents base s pool) (txid : Hash) :
    txid ∈ s.mempool.transactions ↔ txid ∈ pool.map Transaction.txid := by
  rw [TreeMap.mem_iff, mem_map]
  exact exists_congr fun tx => h.transactions txid tx

/-- Chain and ledger stay. -/
theorem reconcileMempoolWith_frame (state : ChainState) :
    SameChain (reconcileMempoolWith validate state).1 state ∧
      (reconcileMempoolWith validate state).1.utxo = state.utxo := by
  rw [reconcileMempoolWith, reconcileIterated]
  split
  · exact ⟨⟨rfl, rfl⟩, rfl⟩
  · exact ⟨⟨rfl, rfl⟩, rfl⟩

/-- The live transactions are the stored ones. -/
theorem mem_live : tx ∈ mempool.live ↔ ∃ txid : Hash, mempool.transactions[txid]? = some tx := by
  rw [Mempool.live, mem_map]
  constructor
  · rintro ⟨⟨txid, tx⟩, hmem, rfl⟩
    exact ⟨txid, (TreeMap.mem_toList _ _ _).mp hmem⟩
  · rintro ⟨txid, hmem⟩
    exact ⟨(txid, tx), (TreeMap.mem_toList _ _ _).mpr hmem, rfl⟩

/-- Sorting keeps the live transactions. -/
theorem mem_sortedLive : tx ∈ sortedLive state ↔ tx ∈ state.mempool.live :=
  (perm_insertionSort _ _).mem_iff

/-- An empty pool has none. -/
theorem live_eq_nil (h : mempool.transactions.isEmpty = true) : mempool.live = [] := by
  rw [Std.ExtTreeMap.isEmpty_iff] at h
  simp [Mempool.live, h]

/-- The admitted transactions are live ones and could enter one after another. -/
theorem reconcileAdmission_admitted (state : ChainState) :
    (∀ tx ∈ (reconcileAdmission validate state).accepted, tx ∈ state.mempool.live) ∧
      Admitted (judgeAfter validate (emptiedState state))
      (reconcileAdmission validate state).accepted := by
  have hsorted : ∀ tx ∈ sortedLive state, tx ∈ state.mempool.live :=
    fun tx htx => mem_sortedLive.mp htx
  have hnone : ∀ tx ∈ ({} : Admission Transaction).accepted, tx ∈ state.mempool.live := by simp
  exact admitAll_admitted hsorted hnone .nil

/-- The pool after a reconciliation. -/
theorem reconcileMempoolWith_reconciled (hv : PoolValidator identified validate)
    (state : ChainState)
    (hids : NoSharedId identified state.mempool) : ∃ pool, (∀ tx ∈ pool, tx ∈ state.mempool.live) ∧
      Reconciled identified validate state (reconcileMempoolWith validate state).1 pool := by
  obtain ⟨hchain, hutxo⟩ : SameChain (reconcileMempoolWith validate state).1 state ∧
    (reconcileMempoolWith validate state).1.utxo = state.utxo := reconcileMempoolWith_frame state
  cases hempty : state.mempool.transactions.isEmpty with
  | true =>
    have hnone : state.mempool.transactions = ∅ := Std.ExtTreeMap.isEmpty_iff.mp hempty
    have hcounted : state.mempool.countReconcileRun.transactions.isEmpty = true := hempty
    refine ⟨[], by simp, ⟨hchain, hutxo, ?_, ?_⟩, ⟨nodup_nil, by simp, by simp, by simp⟩, ?_⟩
    · simp [reconcileMempoolWith, reconcileIterated, Mempool.countReconcileRun, hnone]
    · simp [reconcileMempoolWith, reconcileIterated, hcounted]
    · simp [reconcileMempoolWith, reconcileIterated, Mempool.countReconcileRun, hnone]
  | false =>
    obtain ⟨htransactions, hspent, hseen, -⟩ := reconcileMempoolWith_result hv state hempty
    let accepted := (reconcileAdmission validate state).accepted
    obtain ⟨hlive, hadmitted⟩ : (∀ tx ∈ accepted, tx ∈ state.mempool.live) ∧
      Admitted (judgeAfter validate (emptiedState state)) accepted :=
      reconcileAdmission_admitted state
    have hsurvivors := hadmitted.survivors hv rfl rfl hids hlive
    have hrepresents : Represents (emptiedState state) (enterAll (emptiedState state) accepted)
        accepted :=
      enterAll_represents rfl rfl hsurvivors.ids
    refine ⟨(reconcileAdmission validate state).accepted, hlive, ⟨hchain, hutxo, ?_, ?_⟩, ?_, ?_⟩
    · rw [htransactions]
      exact hrepresents.transactions
    · rw [hspent]
      exact hrepresents.spent
    · refine ⟨hsurvivors.ids, hsurvivors.identified, hsurvivors.conflictFree,
        fun earlier tx later heq s hs => ?_⟩
      exact hsurvivors.valid earlier tx later heq s ⟨⟨hs.chainId, hs.dag⟩, hs.utxo, hs.transactions,
        hs.spent⟩
    · intro txid
      rw [hseen, htransactions, TreeMap.mem_iff]
      simp only [mem_retainTransactions]
      by_cases hmem : txid ∈ (enterAll (emptiedState state)
          (reconcileAdmission validate state).accepted).mempool.transactions
      · refine iff_of_true ?_ hmem
        simp only [hmem, if_true]
        rw [← TreeMap.mem_iff, enterAll, mem_foldl_enter_firstSeen]
        exact .inr ((hrepresents.mem_transactions txid).mp hmem)
      · simp [hmem]

variable {next : ChainState}

/-- The survivors are the live transactions. -/
theorem Reconciled.perm_live {base : ChainState} {pool : List Transaction}
    (h : Reconciled identified validate base next pool) : next.mempool.live.Perm pool := by
  have hnodup : next.mempool.live.Nodup := by
    refine (TreeMap.nodup_toList _).map_on fun a ha b hb heq => ?_
    have hkey : ∀ e ∈ next.mempool.transactions.toList, e.2.txid = e.1 := fun e he =>
      ((h.transactions e.1 e.2).mp ((TreeMap.mem_toList _ _ _).mp he)).2
    exact Prod.ext (by rw [← hkey a ha, ← hkey b hb, heq]) heq
  refine (perm_ext_iff_of_nodup hnodup h.survivors.nodup).mpr fun tx => ?_
  rw [mem_live]
  constructor
  · rintro ⟨txid, hfound⟩
    exact ((h.transactions txid tx).mp hfound).1
  · exact fun hmem => ⟨tx.txid, (h.transactions tx.txid tx).mpr ⟨hmem, rfl⟩⟩

/-- A reconciled pool is reconciled again without a change. -/
theorem Reconciled.again (hv : PoolValidator identified validate) {base : ChainState}
    {pool : List Transaction} (h : Reconciled identified validate base next pool) :
    let again := reconcileMempoolWith validate next
    again.2.removedTxids = [] ∧ again.1.mempool.transactions = next.mempool.transactions ∧
      again.1.mempool.spentOutpoints = next.mempool.spentOutpoints ∧
      again.1.mempool.firstSeen = next.mempool.firstSeen := by
  cases hempty : next.mempool.transactions.isEmpty with
  | true =>
    have hnone : next.mempool.transactions = ∅ := Std.ExtTreeMap.isEmpty_iff.mp hempty
    have hcounted : next.mempool.countReconcileRun.transactions.isEmpty = true := hempty
    have hpool : pool = [] := by
      have hperm := h.perm_live
      rw [live_eq_nil hempty] at hperm
      exact hperm.nil_eq.symm
    have hspent : next.mempool.spentOutpoints = ∅ := Std.ExtTreeSet.ext_mem fun o => by
      rw [h.spent, hpool]
      simp
    have hseen : next.mempool.firstSeen = ∅ := by
      refine Std.ExtTreeMap.ext_getElem? fun txid => ?_
      rw [Std.ExtTreeMap.getElem?_empty]
      refine Std.ExtTreeMap.getElem?_eq_none fun hmem => ?_
      rw [h.firstSeen, hnone] at hmem
      exact Std.ExtTreeMap.not_mem_empty hmem
    have hunfold : reconcileMempoolWith validate next = ({ next with mempool :=
        { next.mempool.countReconcileRun with
          spentOutpoints := ∅, firstSeen := ∅, admissionHeight := ∅ } }, ⟨[], []⟩) := by
      rw [reconcileMempoolWith, reconcileIterated]
      exact if_pos hcounted
    rw [hunfold]
    exact ⟨rfl, rfl, hspent.symm, hseen.symm⟩
  | false =>
    obtain ⟨htransactions, hspent, hseen, hremoved⟩ := reconcileMempoolWith_result hv next hempty
    have hchain : SameChain (emptiedState next) base := ⟨h.chainId, h.dag⟩
    have hreadmissible := h.survivors.readmissible hv hchain h.utxo rfl rfl
    have hsorted : (sortedLive next).Perm pool :=
      (perm_insertionSort _ next.mempool.live).trans h.perm_live
    obtain ⟨hdropped, haccepted⟩ : (reconcileAdmission validate next).dropped = [] ∧
        (reconcileAdmission validate next).accepted.Perm pool :=
      hreadmissible.admitAll_perm le_rfl rfl hsorted
    have hids : ((reconcileAdmission validate next).accepted.map Transaction.txid).Nodup :=
      (haccepted.map Transaction.txid).nodup_iff.mpr h.survivors.ids
    have hrepresents : Represents (emptiedState next)
        (enterAll (emptiedState next) (reconcileAdmission validate next).accepted) _ :=
      enterAll_represents rfl rfl hids
    have htx : (reconcileMempoolWith validate next).1.mempool.transactions =
        next.mempool.transactions := by
      refine Std.ExtTreeMap.ext_getElem? fun txid => Option.ext fun tx => ?_
      rw [htransactions, hrepresents.transactions, h.transactions, haccepted.mem_iff]
    have hkept : (enterAll (emptiedState next)
        (reconcileAdmission validate next).accepted).mempool.firstSeen =
        next.mempool.firstSeen := by
      have hseenAll : ∀ tx ∈ (reconcileAdmission validate next).accepted,
          tx.txid ∈ (emptiedState next).mempool.firstSeen := fun tx hmem => ?_
      · exact foldl_enter_firstSeen hseenAll
      refine (h.firstSeen tx.txid).mpr ((TreeMap.mem_iff _ _).mpr ⟨tx, ?_⟩)
      exact (h.transactions _ _).mpr ⟨haccepted.subset hmem, rfl⟩
    refine ⟨?_, htx, ?_, ?_⟩
    · rw [hremoved]
      exact map_eq_nil_iff.mpr hdropped
    · refine Std.ExtTreeSet.ext_mem fun o => ?_
      rw [hspent, hrepresents.spent, h.spent]
      exact exists_congr fun tx => and_congr_left fun _ => haccepted.mem_iff
    · refine Std.ExtTreeMap.ext_getElem? fun txid => ?_
      rw [hseen, mem_retainTransactions, hkept, ← htransactions, htx]
      split
      · rfl
      · next hnot =>
        rw [← h.firstSeen] at hnot
        exact (Std.ExtTreeMap.getElem?_eq_none hnot).symm

/-- A survivor is valid on the ledger and the other survivors. -/
theorem Reconciled.valid_beside (hv : PoolValidator identified validate) {base : ChainState}
    {pool : List Transaction} (h : Reconciled identified validate base next pool)
    (htx : tx ∈ pool) : validate tx { next with mempool :=
      (next.mempool.removeLive tx.txid).rebuildSpentOutpoints } = .ok () := by
  obtain ⟨earlier, later, hpool⟩ := append_of_mem htx
  have hothers : ∀ txid other, (next.mempool.transactions.erase tx.txid)[txid]? = some other ↔
      other ∈ pool.filter (· ≠ tx) ∧ other.txid = txid := by
    intro txid other
    rw [TreeMap.getElem?_erase]
    simp only [mem_filter, decide_eq_true_eq]
    by_cases hsame : txid = tx.txid
    · rw [if_pos hsame]
      refine iff_of_false (by simp) ?_
      rintro ⟨⟨hmem, hne⟩, rfl⟩
      exact hne (h.survivors.eq_of_txid other hmem tx htx hsame)
    · rw [if_neg hsame, h.transactions]
      constructor
      · rintro ⟨hmem, rfl⟩
        exact ⟨⟨hmem, fun heq => hsame (by rw [heq])⟩, rfl⟩
      · rintro ⟨⟨hmem, -⟩, rfl⟩
        exact ⟨hmem, rfl⟩
  have hrepresents : Represents base { next with mempool :=
      (next.mempool.removeLive tx.txid).rebuildSpentOutpoints } (pool.filter (· ≠ tx)) := by
    refine ⟨⟨h.chainId, h.dag⟩, h.utxo, hothers, fun o => ?_⟩
    simp only [Mempool.rebuildSpentOutpoints, mem_markAll, Std.ExtTreeSet.not_mem_empty, false_or,
      Mempool.liveInputs, mem_flatMap, mem_live]
    constructor
    · rintro ⟨other, ⟨txid, hfound⟩, ho⟩
      exact ⟨other, ((hothers txid other).mp hfound).1, ho⟩
    · rintro ⟨other, hmem, ho⟩
      exact ⟨other, ⟨other.txid, (hothers _ _).mpr ⟨hmem, rfl⟩⟩, ho⟩
  have hids := h.survivors.ids
  have hnodup := h.survivors.nodup
  rw [hpool, map_append] at hids
  rw [hpool, nodup_middle, nodup_cons] at hnodup
  refine (h.survivors.ok_or_missing hv hpool (fun x hx => mem_of_mem_filter hx)
    hids.of_append_left (by simp) hrepresents).2 fun x hx => ?_
  simp only [mem_filter, decide_eq_true_eq]
  refine ⟨hpool ▸ mem_append_left _ hx, fun heq => hnodup.1 ?_⟩
  exact heq ▸ mem_append_left _ hx

/-! ## The order of iteration -/

/-- A transaction that does not state its id is removed, whatever the pool holds. -/
theorem reconcileTransaction_of_not_identified (hv : PoolValidator identified validate)
    (hnot : ¬identified tx) (loop : ReconcileLoop) :
    reconcileTransaction validate loop tx =
      { loop with removedTxids := loop.removedTxids ++ [tx.txid] } := by
  have hdrop : verdictOf (validate tx loop.working) = .drop := by
    by_contra hverdict
    exact hnot (hv.identified hverdict)
  rw [reconcileTransaction]
  split
  case h_1 hok =>
    rw [hok] at hdrop
    cases hdrop
  case h_2 hmissing =>
    rw [hmissing] at hdrop
    cases hdrop
  case h_3 => rfl

/-- A removal recorded earlier changes nothing else. -/
theorem reconcileTransaction_removed (loop : ReconcileLoop) (a : Transaction) (txid : Hash)
    (h : a.txid = txid) :
    reconcileTransaction validate { loop with removedTxids := loop.removedTxids ++ [txid] } a =
      { reconcileTransaction validate loop a with
        removedTxids := (reconcileTransaction validate loop a).removedTxids ++ [txid] } := by
  subst h
  rw [reconcileTransaction, reconcileTransaction]
  cases validate a loop.working with
  | ok _ => cases simulateMempoolAccept a loop.working <;> rfl
  | error error => cases error <;> rfl

/-- Transactions with one id may be exchanged: they are equal, or one of them is removed in any
case. -/
theorem reconcileTransaction_comm (hv : PoolValidator identified validate) {a b : Transaction}
    (h : identified a → identified b → a = b) (hid : a.txid = b.txid) (loop : ReconcileLoop) :
    reconcileTransaction validate (reconcileTransaction validate loop a) b =
      reconcileTransaction validate (reconcileTransaction validate loop b) a := by
  by_cases ha : identified a
  · by_cases hb : identified b
    · rw [h ha hb]
    · rw [reconcileTransaction_of_not_identified hv hb,
        reconcileTransaction_of_not_identified hv hb,
        reconcileTransaction_removed loop a b.txid hid]
  · rw [reconcileTransaction_of_not_identified hv ha, reconcileTransaction_of_not_identified hv ha,
      reconcileTransaction_removed loop b a.txid hid.symm]

/-- Passes that agree on the first one agree. -/
theorem reconcilePasses_of_first {pending other : List Transaction} {loop : ReconcileLoop}
    (hperm : pending.Perm other)
    (hfirst : pending.foldl (reconcileTransaction validate)
        { loop with nextPending := [], progressed := false } =
      other.foldl (reconcileTransaction validate)
        { loop with nextPending := [], progressed := false }) :
    reconcilePasses validate pending.length pending loop =
      reconcilePasses validate other.length other loop := by
  cases pending with
  | nil => rw [hperm.nil_eq]
  | cons a rest =>
    cases other with
    | nil => exact absurd hperm.eq_nil (cons_ne_nil a rest)
    | cons b others =>
      rw [hperm.length_eq, length_cons]
      simp only [reconcilePasses, hfirst]

/-- The result does not depend on the order in which the hash map is iterated. -/
theorem reconcileIterated_eq (hv : PoolValidator identified validate)
    (hids : NoSharedId identified state.mempool) {iterated : List Transaction}
    (hperm : iterated.Perm state.mempool.live) :
    reconcileIterated validate iterated state = reconcileMempoolWith validate state := by
  let counted := state.mempool.countReconcileRun
  have hleft := perm_insertionSort (fun a b => (counted.compareSeen a b).isLE) iterated
  have hright := perm_insertionSort (fun a b => (counted.compareSeen a b).isLE)
    state.mempool.live
  have hsorted := hleft.trans (hperm.trans hright.symm)
  have hmem := fun tx htx => hperm.subset (hleft.subset (a := tx) htx)
  have hpasses := fun loop : ReconcileLoop => reconcilePasses_of_first hsorted
    (foldl_eq_of_sorted_perm (f := reconcileTransaction validate)
      { loop with nextPending := [], progressed := false }
      (pairwise_insertionSort_isLE counted.compareSeen iterated)
      (pairwise_insertionSort_isLE counted.compareSeen state.mempool.live) hsorted
      fun a ha b hb hab hba =>
        have hid := Mempool.txid_eq_of_compareSeen hab hba
        reconcileTransaction_comm hv (fun hia hib => hids a (hmem a ha) b (hmem b hb) hia hib hid)
          hid)
  rw [reconcileMempoolWith, reconcileIterated, reconcileIterated]
  simp only [counted] at hpasses
  simp only [hpasses]

end

section

variable [Crypto]

/-- Two different transactions of the pool do not both have one id as their computed id. -/
def NoTxidCollision (mempool : Mempool) : Prop :=
  NoSharedId (fun tx => computeTxid tx = tx.txid) mempool

/-- A pool that keeps its transactions under their ids has no two with one id. -/
theorem noTxidCollision_of_keyed
    (h : ∀ (txid : Hash) tx, mempool.transactions[txid]? = some tx → tx.txid = txid) :
    NoTxidCollision mempool := by
  intro a ha b hb _ _ heq
  obtain ⟨txid, hfound⟩ := mem_live.mp ha
  obtain ⟨txid', hfound'⟩ := mem_live.mp hb
  rw [← h _ _ hfound] at hfound
  rw [← h _ _ hfound', ← heq, hfound] at hfound'
  exact Option.some.inj hfound'

/-- Neither has any pool, if the digest has no collisions. -/
theorem noTxidCollision_of_injective (hsha : Function.Injective Crypto.sha256)
    (hfits : ∀ tx ∈ mempool.live, tx.Fits) : NoTxidCollision mempool := by
  intro a ha b hb hid hid' heq
  have hbytes := sha256Hex_injective hsha (hid.trans (heq.trans hid'.symm))
  have hbody := transactionBodyBytes_inj (hfits a ha) (hfits b hb) (append_cancel_left hbytes)
  rwa [← heq] at hbody

/-- The survivors of a reconciliation are in the pool and free of conflicts, and each one is valid
on the ledger and the others. The order of the hash map does not matter, and a second reconciliation
changes nothing. -/
theorem reconcileMempool_projection (state : ChainState) (hids : NoTxidCollision state.mempool) :
    let next := (reconcileMempool state).1
    (∀ tx ∈ next.mempool.live, tx ∈ state.mempool.live) ∧
    (∀ (txid txid' : Hash) tx tx', next.mempool.transactions[txid]? = some tx →
      next.mempool.transactions[txid']? = some tx' → txid ≠ txid' →
      ∀ o ∈ tx.spends, o ∉ tx'.spends) ∧
    (∀ (txid : Hash) tx, next.mempool.transactions[txid]? = some tx →
      validateTransaction tx { next with mempool :=
        (next.mempool.removeLive txid).rebuildSpentOutpoints } = .ok ()) ∧
    (∀ iterated, iterated.Perm state.mempool.live →
      reconcileIterated validateTransaction iterated state = reconcileMempool state) ∧
    (reconcileMempool next).2.removedTxids = [] ∧
    (reconcileMempool next).1.mempool.transactions = next.mempool.transactions ∧
    (reconcileMempool next).1.mempool.spentOutpoints = next.mempool.spentOutpoints ∧
    (reconcileMempool next).1.mempool.firstSeen = next.mempool.firstSeen := by
  have hv := poolValidator_validateTransaction
  obtain ⟨pool, hlive, hpool⟩ := reconcileMempoolWith_reconciled hv state hids
  refine ⟨?_, ?_, ?_, ?_, hpool.again hv⟩
  · intro tx htx
    exact hlive tx (hpool.perm_live.subset htx)
  · intro txid txid' tx tx' hfound hfound' hne
    obtain ⟨htx, rfl⟩ := (hpool.transactions txid tx).mp hfound
    obtain ⟨htx', rfl⟩ := (hpool.transactions txid' tx').mp hfound'
    exact hpool.survivors.conflictFree tx htx tx' htx' fun heq => hne (by rw [heq])
  · intro txid tx hfound
    obtain ⟨htx, rfl⟩ := (hpool.transactions txid tx).mp hfound
    exact hpool.valid_beside hv htx
  · exact fun iterated hperm => reconcileIterated_eq hv hids hperm

/-! ## A pool with a conflict -/

/-- A transaction of version 1 under its own id. -/
def legacyTransaction (inputs : List OutPoint) (amounts : List UInt64) (fee nonce : UInt64) :
    Transaction :=
  let tx := { sampleTransaction inputs amounts fee nonce with version := 1 }
  { tx with txid := computeTxid tx }

/-- A coin, a transaction that spends it, a transaction on top of that one which was seen before it,
a rival for the coin, and a transaction that spends an unknown output. -/
def rivalPool : List Transaction :=
  let parent := legacyTransaction [⟨"coin", 0⟩] [9] 1 1
  let child := legacyTransaction [⟨parent.txid, 0⟩] [8] 1 2
  [child, parent, legacyTransaction [⟨"coin", 0⟩] [7] 3 3,
    legacyTransaction [⟨"unknown", 0⟩] [1] 0 4]

/-- The state with the coin and these transactions, seen in the order of the list. -/
def rivalState : ChainState :=
  let start := initChainState "c"
  let owner := ((legacyTransaction [] [10] 0 0).outputs.head?.map TxOutput.address).getD ""
  { start with
    utxo := { start.utxo with
      utxos := start.utxo.utxos.insert ⟨"coin", 0⟩ ⟨⟨"coin", 0⟩, owner, 10, false, 0⟩ }
    mempool := { start.mempool with
      transactions := insertAll ∅ (rivalPool.map fun tx => (tx.txid, tx))
      firstSeen := insertAll ∅ (rivalPool.zipIdx.map fun entry =>
        (entry.1.txid, UInt64.ofNat entry.2)) } }

end

/-- The first reconciliation keeps the parent and then its child, and removes the rival and the
transaction without a known input. The second one removes nothing. -/
theorem reconcileMempool_projection_rival : letI := checksumCrypto
    ∃ child parent rival orphan, rivalPool = [child, parent, rival, orphan] ∧
      (reconcileMempool rivalState).2 = ⟨[rival.txid, orphan.txid], [parent.txid, child.txid]⟩ ∧
      verdictOf (validateTransaction child (emptiedState rivalState)) = .defer ∧
      (reconcileMempool (reconcileMempool rivalState).1).2.removedTxids = [] ∧
      (reconcileMempool (reconcileMempool rivalState).1).1.mempool.transactions =
        (reconcileMempool rivalState).1.mempool.transactions := by
  let := checksumCrypto
  have hkeyed : ∀ entry ∈ rivalState.mempool.transactions.toList, entry.2.txid = entry.1 := by
    decide +kernel
  have hrun : ((rivalPool[0]?).bind fun child => (rivalPool[1]?).bind fun parent =>
      (rivalPool[2]?).bind fun rival => (rivalPool[3]?).map fun orphan =>
        (decide (rivalPool = [child, parent, rival, orphan]),
          decide ((reconcileMempool rivalState).2 =
            ⟨[rival.txid, orphan.txid], [parent.txid, child.txid]⟩),
          verdictOf (validateTransaction child (emptiedState rivalState)))) =
      some (true, true, .defer) := by decide +kernel
  simp only [Option.bind_eq_some_iff, Option.map_eq_some_iff, Prod.mk.injEq,
    decide_eq_true_eq] at hrun
  obtain ⟨child, -, parent, -, rival, -, orphan, -, hpool, hresult, hwaits⟩ := hrun
  have hprojection := reconcileMempool_projection rivalState
    (noTxidCollision_of_keyed fun txid tx h => hkeyed (txid, tx) ((TreeMap.mem_toList _ _ _).mpr h))
  generalize reconcileMempool rivalState = first at hprojection hresult ⊢
  obtain ⟨-, -, -, -, hremoved, hsame, -⟩ := hprojection
  exact ⟨child, parent, rival, orphan, hpool, hresult, hwaits, hremoved, hsame⟩

end PulseDag
