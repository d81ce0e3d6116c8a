import PulseDag.Core.Types

/-!
# Errors

`PulseError` with the texts of its `Display` implementation. Other errors of the
consensus code are printed with `Debug` when they are wrapped, so each of them has a
`debug` text beside its declaration.
-/

namespace PulseDag

/-- `InvalidStateRootClassification`: why a state root did not match. -/
inductive InvalidStateRootClassification
  | staleTemplate
  | trueInvalid
  | unknownContext
  | parentStateContextUnavailable
  deriving DecidableEq, Repr

/-- `InvalidStateRootClassification::as_str`. -/
def InvalidStateRootClassification.asStr : InvalidStateRootClassification → String
  | .staleTemplate => "stale_template"
  | .trueInvalid => "true_invalid"
  | .unknownContext => "unknown_context"
  | .parentStateContextUnavailable => "parent_state_context_unavailable"

/-- `InvalidStateRootDiagnostics`: the evidence kept with a wrong state root. -/
structure InvalidStateRootDiagnostics where
  blockHash : Hash
  height : UInt64
  parentHashes : List Hash
  suppliedStateRoot : String
  computedStateRoot : String
  txCount : ℕ
  coinbaseMinerAddress : Option String
  selectedTip : Option Hash
  selectedTipHeight : Option UInt64
  currentTips : List Hash
  staleTemplate : Bool
  unknownContext : Bool
  classification : InvalidStateRootClassification
  stateValidationContextTip : Option Hash
  stateValidationContextHeight : Option UInt64
  stateValidationContextSource : Option String
  deriving DecidableEq, Repr

/-- The `Display` text of a wrong state root. -/
def InvalidStateRootDiagnostics.display (diagnostics : InvalidStateRootDiagnostics) : String :=
  "invalid state root: supplied " ++ diagnostics.suppliedStateRoot ++
    ", computed " ++ diagnostics.computedStateRoot ++
    "; classification=" ++ diagnostics.classification.asStr ++
    "; block_hash=" ++ diagnostics.blockHash ++
    "; height=" ++ toString diagnostics.height ++
    "; parents=" ++ ",".intercalate diagnostics.parentHashes ++
    "; tx_count=" ++ toString diagnostics.txCount ++
    "; coinbase_miner=" ++ diagnostics.coinbaseMinerAddress.getD "<none>" ++
    "; selected_tip=" ++ diagnostics.selectedTip.getD "<none>" ++
    "; current_tips=" ++ ",".intercalate diagnostics.currentTips ++
    "; stale_template=" ++ toString diagnostics.staleTemplate ++
    "; unknown_context=" ++ toString diagnostics.unknownContext

/-- `errors::PulseError`, the error of block and transaction processing. -/
inductive PulseError
  | invalidSignature
  | insufficientFunds
  | utxoNotFound
  | doubleSpend
  | txAlreadyExists
  | blockAlreadyExists
  | invalidBlock (message : String)
  | invalidTransaction (message : String)
  | invalidTxid
  | parentStateContextUnavailable (blockHash parentHash : Hash)
  | invalidStateRoot (diagnostics : InvalidStateRootDiagnostics)
  | missingCoinbase
  | multipleCoinbase
  | coinbaseNotFirst
  | excessiveCoinbaseReward
  | duplicateUtxoOutpoint (label : String)
  | rewardOverflow
  | duplicateOutpoint (label : String)
  | nonDeterministicState (message : String)
  | chainIdMismatch
  | storageError (message : String)
  | p2pDisabled
  | notFound (message : String)
  | internal (message : String)
  deriving DecidableEq, Repr

/-- The `Display` text of an error. -/
def PulseError.display : PulseError → String
  | .invalidSignature => "invalid signature"
  | .insufficientFunds => "insufficient funds"
  | .utxoNotFound => "utxo not found"
  | .doubleSpend => "double spend"
  | .txAlreadyExists => "transaction already exists"
  | .blockAlreadyExists => "block already exists"
  | .invalidBlock message => "invalid block: " ++ message
  | .invalidTransaction message => "invalid transaction: " ++ message
  | .invalidTxid => "invalid txid"
  | .parentStateContextUnavailable blockHash parentHash =>
    "parent state context unavailable for block " ++ blockHash ++ " parent " ++ parentHash
  | .invalidStateRoot diagnostics => diagnostics.display
  | .missingCoinbase => "missing coinbase transaction"
  | .multipleCoinbase => "multiple coinbase transactions"
  | .coinbaseNotFirst => "coinbase transaction is not first"
  | .excessiveCoinbaseReward => "excessive coinbase reward"
  | .duplicateUtxoOutpoint label => "duplicate UTXO outpoint: " ++ label
  | .rewardOverflow => "reward overflow"
  | .duplicateOutpoint label => "duplicate UTXO outpoint: " ++ label
  | .nonDeterministicState message => "non-deterministic state: " ++ message
  | .chainIdMismatch => "chain id mismatch"
  | .storageError message => "storage error: " ++ message
  | .p2pDisabled => "p2p disabled"
  | .notFound message => "not found: " ++ message
  | .internal message => "internal error: " ++ message

/-- `Debug` of a string without characters that need escapes, as hashes are. -/
def debugStr (value : String) : String := "\"" ++ value ++ "\""

/-- `Debug` of an optional string. -/
def debugOption : Option String → String
  | none => "None"
  | some value => "Some(" ++ debugStr value ++ ")"

/-- `Debug` of a list of strings. -/
def debugList (values : List String) : String :=
  "[" ++ ", ".intercalate (values.map debugStr) ++ "]"

/-- `Debug` of a variant with named fields. -/
def debugStruct (name : String) (fields : List (String × String)) : String :=
  name ++ " \x7b " ++
    ", ".intercalate (fields.map fun field => field.1 ++ ": " ++ field.2) ++ " \x7d"

end PulseDag
