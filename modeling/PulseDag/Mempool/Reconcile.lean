import PulseDag.Ghostdag.Selection
import PulseDag.Ledger.Transactions
import PulseDag.Lib.CoinMap
import PulseDag.Lib.StackSearch
import PulseDag.Lib.Worklist

/-!
# Reconciling and expiring the mempool

`mempool.rs`: `reconcile_mempool` validates the pooled transactions again, in passes, because a
transaction may spend an output of a later one; `prune_expired_mempool` drops old transactions
together with everything that depends on them. `mempool_protocol.rs` reconciles with the validation
of a protocol identity.
-/

namespace PulseDag

/-- `MempoolReconcileResult`. -/
structure MempoolReconcileResult where
  removedTxids : List Hash
  keptTxids : List Hash
  deriving DecidableEq, Repr

/-- `MempoolExpiryResult`. -/
structure MempoolExpiryResult where
  expiredTxids : List Hash
  keptTxids : List Hash
  deriving DecidableEq, Repr

/-- The largest `u64`. -/
def u64Max : UInt64 := UInt64.ofNat (2 ^ 64 - 1)

/-- The transactions in the pool, in the order of their ids. -/
def Mempool.live (mempool : Mempool) : List Transaction := mempool.transactions.toList.map Prod.snd

/-- The key `(first_seen, txid)` that the pool is read in the order of. -/
def Mempool.sequenceKey (mempool : Mempool) (txid : Hash) : UInt64 × Hash :=
  (mempool.firstSeen[txid]?.getD u64Max, txid)

/-- The order of the keys. -/
def compareSequenceKeys (a b : UInt64 × Hash) : Ordering :=
  (compare a.1 b.1).then (compare a.2 b.2)

/-- `canonical_mempool_txids`. -/
def canonicalMempoolTxids (state : ChainState) : List Hash :=
  state.mempool.transactions.keys.insertionSort fun a b =>
    (compareSequenceKeys (state.mempool.sequenceKey a) (state.mempool.sequenceKey b)).isLE

/-- `mempool_logical_clock`. -/
def mempoolLogicalClock (state : ChainState) : UInt64 := state.dag.bestHeight

/-- The outpoints that the pooled transactions spend. -/
def Mempool.liveInputs (mempool : Mempool) : List OutPoint :=
  mempool.live.flatMap fun tx => tx.inputs.map TxInput.previousOutput

/-- `rebuild_spent_outpoints`, a loop that several functions have. -/
def Mempool.rebuildSpentOutpoints (mempool : Mempool) : Mempool :=
  { mempool with spentOutpoints := markAll ∅ mempool.liveInputs }

/-- Keep the entries of a map for the transactions of another. -/
def retainTransactions {α : Type} (map : TreeMap Hash α) (live : TreeMap Hash Transaction) :
    TreeMap Hash α :=
  retainKeys map (markAll ∅ live.keys)

/-- Drop the sequence numbers and admission heights of transactions that are not in the pool. -/
def Mempool.retainLive (mempool : Mempool) : Mempool :=
  { mempool with
    firstSeen := retainTransactions mempool.firstSeen mempool.transactions
    admissionHeight := retainTransactions mempool.admissionHeight mempool.transactions }

/-- `live_children`: for each pooled transaction those that spend its outputs. -/
def liveChildren (mempool : Mempool) : TreeMap Hash (TreeSet Hash) :=
  mempool.live.foldl (fun children tx => tx.inputs.foldl (fun children input =>
    let parent := input.previousOutput.txid
    if parent ∈ mempool.transactions then
      children.insert parent ((children[parent]?.getD ∅).insert tx.txid)
    else children) children) ∅

/-- The children of a transaction as a list. -/
def childrenOf (children : TreeMap Hash (TreeSet Hash)) (txid : Hash) : List Hash :=
  (children[txid]?.map fun kids => kids.toList).getD []

/-- The transactions that depend on some roots, with the roots. The queue of the source and the
stack here reach the same set. -/
def packageFromRoots (mempool : Mempool) (roots : List Hash) : TreeSet Hash :=
  let children := liveChildren mempool
  reachFrom (childrenOf children)
    (roots.length + pushesLeft (fun txid => (childrenOf children txid).length) children.keys ∅)
    roots ∅

/-- Take a transaction out of the pool. -/
def Mempool.removeLive (mempool : Mempool) (txid : Hash) : Mempool :=
  { mempool with
    transactions := mempool.transactions.erase txid
    firstSeen := mempool.firstSeen.erase txid
    admissionHeight := mempool.admissionHeight.erase txid }

/-- `mempool_tx_is_expired`. -/
def mempoolTxIsExpired (mempool : Mempool) (currentHeight maxAgeBlocks : UInt64) (txid : Hash) :
    Bool :=
  match mempool.admissionHeight[txid]? with
  | none => false
  | some admissionHeight =>
    if currentHeight < admissionHeight then false
    else match checkedAdd admissionHeight maxAgeBlocks with
      | none => false
      | some deadline => decide (deadline ≤ currentHeight)

/-- `prune_expired_mempool`. -/
def pruneExpiredMempool (state : ChainState) (currentHeight maxAgeBlocks : UInt64) :
    ChainState × MempoolExpiryResult :=
  let expiredRoots := state.mempool.transactions.keys.filter
    (mempoolTxIsExpired state.mempool currentHeight maxAgeBlocks)
  let expired := (packageFromRoots state.mempool expiredRoots).toList
  let mempool := (expired.foldl Mempool.removeLive state.mempool).retainLive.rebuildSpentOutpoints
  let next := { state with mempool := mempool }
  (next, ⟨expired, canonicalMempoolTxids next⟩)

/-! ## Reconciliation -/

/-- `assign_first_seen`. -/
def Mempool.assignFirstSeen (mempool : Mempool) (txid : Hash) : Mempool :=
  if txid ∈ mempool.firstSeen then mempool
  else
    { mempool with
      nextFirstSeen := saturatingAdd mempool.nextFirstSeen 1
      firstSeen := mempool.firstSeen.insert txid mempool.nextFirstSeen }

/-- One input of `simulate_mempool_accept`. -/
def markSpent (spent : TreeSet OutPoint) (input : TxInput) :
    Except PulseError (TreeSet OutPoint) := do
  ensure (input.previousOutput ∉ spent) .doubleSpend
  pure (spent.insert input.previousOutput)

/-- `simulate_mempool_accept`, with the state that a failure leaves behind. -/
def simulateMempoolAccept (tx : Transaction) (state : ChainState) :
    Except (PulseError × ChainState) ChainState := do
  let withSpent :=
    fun spent => { state with mempool := { state.mempool with spentOutpoints := spent } }
  let spent ← Except.mapError (fun failed => (failed.1, withSpent failed.2))
    (foldUntil markSpent tx.inputs state.mempool.spentOutpoints)
  let seen := ({ state.mempool with spentOutpoints := spent } : Mempool).assignFirstSeen tx.txid
  pure { state with mempool :=
    { seen with transactions := seen.transactions.insert tx.txid tx } }

/-- The variables of the loop of `reconcile_mempool`. -/
structure ReconcileLoop where
  working : ChainState
  removedTxids : List Hash
  keptTxids : List Hash
  nextPending : List Transaction
  progressed : Bool

section

variable [Crypto]

/-- One transaction of a pass. The validator is a parameter, since
`reconcile_mempool_for_protocol` is the same loop with another one. -/
def reconcileTransaction (validate : Transaction → ChainState → Except PulseError Unit)
    (loop : ReconcileLoop) (tx : Transaction) : ReconcileLoop :=
  match validate tx loop.working with
  | .ok () =>
    match simulateMempoolAccept tx loop.working with
    | .ok working =>
      { loop with working := working, keptTxids := loop.keptTxids ++ [tx.txid], progressed := true }
    | .error failed =>
      { loop with working := failed.2, removedTxids := loop.removedTxids ++ [tx.txid] }
  | .error .utxoNotFound => { loop with nextPending := loop.nextPending ++ [tx] }
  | .error _ => { loop with removedTxids := loop.removedTxids ++ [tx.txid] }

/-- The passes of `reconcile_mempool`. A pass without progress is the last one, so the number of
transactions bounds the passes. -/
def reconcilePasses (validate : Transaction → ChainState → Except PulseError Unit) :
    ℕ → List Transaction → ReconcileLoop → ReconcileLoop
  | _, [], loop => loop
  | 0, pending, loop =>
    { loop with removedTxids := loop.removedTxids ++ pending.map Transaction.txid }
  | fuel + 1, pending, loop =>
    let pass := pending.foldl (reconcileTransaction validate)
      { loop with nextPending := [], progressed := false }
    if pass.progressed then reconcilePasses validate fuel pass.nextPending pass
    else { pass with
      removedTxids := pass.removedTxids ++ pass.nextPending.map Transaction.txid }

/-- The number after the largest sequence number in use. -/
def nextSequence (firstSeen : TreeMap Hash UInt64) : UInt64 :=
  match maxBy compare (firstSeen.toList.map Prod.snd) with
  | none => 0
  | some sequence => saturatingAdd sequence 1

/-- The mempool that `reconcile_mempool` starts from, with the run counted. -/
def Mempool.countReconcileRun (mempool : Mempool) : Mempool :=
  { mempool with counters := { mempool.counters with
      reconcileRunsTotal := saturatingAdd mempool.counters.reconcileRunsTotal 1 } }

/-- The comparison by which `reconcile_mempool` sorts the transactions. -/
def Mempool.compareSeen (mempool : Mempool) (a b : Transaction) : Ordering :=
  compareSequenceKeys (mempool.sequenceKey a.txid) (mempool.sequenceKey b.txid)

/-- What `reconcile_mempool` makes of the state of its passes. -/
def finishReconcile (state : ChainState) (loop : ReconcileLoop) :
    ChainState × MempoolReconcileResult :=
  let counted := state.mempool.countReconcileRun
  let rebuilt := loop.working.mempool.retainLive
  let counters := { counted.counters with
    reconcileRemovedTotal := saturatingAdd counted.counters.reconcileRemovedTotal
      (UInt64.ofNat loop.removedTxids.length) }
  ({ state with mempool :=
    { rebuilt with
      counters := counters
      maxTransactions := counted.maxTransactions
      maxSpentOutpoints := counted.maxSpentOutpoints
      nextFirstSeen := nextSequence rebuilt.firstSeen } },
    ⟨loop.removedTxids, loop.keptTxids⟩)

/-- `reconcile_mempool` under a validator for its transactions, when the hash map of the pool yields
its values in a given order. -/
def reconcileIterated (validate : Transaction → ChainState → Except PulseError Unit)
    (iterated : List Transaction) (state : ChainState) : ChainState × MempoolReconcileResult :=
  let counted := state.mempool.countReconcileRun
  if counted.transactions.isEmpty then
    ({ state with mempool :=
      { counted with spentOutpoints := ∅, firstSeen := ∅, admissionHeight := ∅ } }, ⟨[], []⟩)
  else
    let txs := iterated.insertionSort fun a b => (counted.compareSeen a b).isLE
    let working := { state with mempool := { counted with transactions := ∅, spentOutpoints := ∅ } }
    finishReconcile state (reconcilePasses validate txs.length txs ⟨working, [], [], [], false⟩)

/-- `reconcile_mempool` under a validator, over the pool in the order of its keys. -/
def reconcileMempoolWith (validate : Transaction → ChainState → Except PulseError Unit)
    (state : ChainState) : ChainState × MempoolReconcileResult :=
  reconcileIterated validate state.mempool.live state

/-- `reconcile_mempool`. -/
def reconcileMempool (state : ChainState) : ChainState × MempoolReconcileResult :=
  reconcileMempoolWith validateTransaction state

end

end PulseDag
