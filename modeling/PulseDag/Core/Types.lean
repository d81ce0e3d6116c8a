import PulseDag.Core.Bytes

/-!
# Blocks, transactions and outputs

The records of `types.rs` and the protocol constants they are read with.
Fixed-width fields keep their width.
-/

namespace PulseDag

/-- A digest in hexadecimal text. The source compares these strings bytewise, which
is Lean's order on strings. -/
abbrev Hash := String

/-- The owner of an output. -/
abbrev Address := String

/-- One output of one transaction. -/
structure OutPoint where
  txid : Hash
  index : UInt32
  deriving DecidableEq, Repr

/-- `derive(Ord)` on `OutPoint`: by transaction id, then by index. -/
instance : Ord OutPoint where
  compare := compareLex (compareOn OutPoint.txid) (compareOn OutPoint.index)

instance : Std.TransOrd OutPoint :=
  inferInstanceAs (Std.TransCmp (compareLex (compareOn OutPoint.txid) (compareOn OutPoint.index)))

instance : Std.LawfulEqOrd OutPoint where
  eq_of_compare {a b} h := by
    have h' : compareLex (compareOn OutPoint.txid) (compareOn OutPoint.index) a b = .eq := h
    simp only [compareLex, compareOn, Ordering.then_eq_eq, Std.compare_eq_iff_eq] at h'
    cases a
    cases b
    simp_all

/-- An input: the output it spends and the key and signature that authorise it. -/
structure TxInput where
  previousOutput : OutPoint
  publicKey : String
  signature : String
  deriving DecidableEq, Repr

/-- An output: an amount in atoms owned by an address. -/
structure TxOutput where
  address : Address
  amount : UInt64
  deriving DecidableEq, Repr

/-- A transaction. The stored id is a claim that validation recomputes. -/
structure Transaction where
  txid : Hash
  version : UInt32
  inputs : List TxInput
  outputs : List TxOutput
  fee : UInt64
  nonce : UInt64
  deriving DecidableEq, Repr

/-- An unspent output as the ledger stores it. -/
structure Utxo where
  outpoint : OutPoint
  address : Address
  amount : UInt64
  coinbase : Bool
  height : UInt64
  deriving DecidableEq, Repr

/-- A block header. -/
structure BlockHeader where
  version : UInt32
  parents : List Hash
  timestamp : UInt64
  difficulty : UInt32
  nonce : UInt64
  merkleRoot : Hash
  stateRoot : Hash
  blueScore : UInt64
  height : UInt64
  deriving DecidableEq, Repr

/-- A block: the announced hash, the header and the transactions. -/
structure Block where
  hash : Hash
  header : BlockHeader
  transactions : List Transaction
  deriving DecidableEq, Repr

/-- `is_coinbase`: no inputs, some output and no fee. -/
def isCoinbase (tx : Transaction) : Bool :=
  tx.inputs.isEmpty && !tx.outputs.isEmpty && tx.fee == 0

/-- `TRANSACTION_VERSION_V1`. -/
def transactionVersionV1 : UInt32 := 1

/-- `TRANSACTION_VERSION_V2`. -/
def transactionVersionV2 : UInt32 := 2

/-- `BLOCK_HEADER_VERSION_V1`. -/
def blockHeaderVersionV1 : UInt32 := 1

/-- `BLOCK_HEADER_VERSION_V2`. -/
def blockHeaderVersionV2 : UInt32 := 2

/-- `GHOSTDAG_V1_MAX_PARENTS`. -/
def ghostdagV1MaxParents : ℕ := 64

end PulseDag
