import PulseDag.Ledger.Denomination
import PulseDag.Ledger.Snapshot
import PulseDag.Lib.DistinctChecks
import PulseDag.Wallet.Transfer

/-!
# The journal of pending transactions

`pending.rs`. A wallet reserves the coins of a signed transaction until it is confirmed. A call
changes the journal first and validates it afterwards, so it returns a result together with the
journal it leaves behind, also when the result is an error.
-/

namespace PulseDag

/-! ## Checks of the plan -/

/-- `WalletPlanError`, with the variants that the journal can meet. -/
inductive WalletPlanError
  | invalidIdentityField (field reason : String)
  | invalidPlanField (field reason : String)
  | networkMismatch (expectedNetworkProfile expectedChainId observedNetworkProfile
      observedChainId : String)
  deriving DecidableEq, Repr

/-- `validate_text` of `plan.rs`. -/
def validatePlanText (field value : String) : Except WalletPlanError Unit := do
  ensure (value ≠ "") (.invalidIdentityField field "must not be empty")
  ensure (trim value.toList = value.toList)
    (.invalidIdentityField field "must not contain leading or trailing whitespace")

/-- `WalletNetworkIdentity`. -/
structure WalletNetworkIdentity where
  networkProfile : String
  chainId : String
  deriving DecidableEq, Repr

/-- `WalletNetworkIdentity::validate`. -/
def WalletNetworkIdentity.validate (identity : WalletNetworkIdentity) :
    Except WalletPlanError Unit := do
  validatePlanText "network_profile" identity.networkProfile
  validatePlanText "chain_id" identity.chainId

/-- `WalletNetworkIdentity::ensure_matches`. -/
def WalletNetworkIdentity.ensureMatches (identity observed : WalletNetworkIdentity) :
    Except WalletPlanError Unit := do
  identity.validate
  observed.validate
  ensure (identity = observed) (.networkMismatch identity.networkProfile identity.chainId
    observed.networkProfile observed.chainId)

/-- The number of bytes of a text. -/
def utf8Length (text : List Char) : ℕ := (text.map Char.utf8Size).sum

/-- The bytes `0` to `9` and `a` to `f`. A character of more bytes has none of them. -/
def isLowerHex (c : Char) : Bool := ('0' ≤ c && c ≤ '9') || ('a' ≤ c && c ≤ 'f')

/-- `validate_canonical_legacy_address`. -/
def validateCanonicalLegacyAddress (field value : String) : Except WalletPlanError Unit := do
  validatePlanText field value
  let payload ← okOr (stripPrefix? "pulse1" value.toList)
    (.invalidPlanField field "must use the active canonical pulse1 legacy address format")
  ensure (utf8Length payload.toList = 40)
    (.invalidPlanField field "must contain exactly 40 lowercase hexadecimal payload characters")
  ensure (payload.toList.all isLowerHex)
    (.invalidPlanField field "must contain only lowercase hexadecimal payload characters")

/-- `WalletTransactionIntent::new`, which returns its arguments when they are valid. -/
def validateTransactionIntent (fromAddress toAddress : String) (amount : UInt64) :
    Except WalletPlanError Unit := do
  validateCanonicalLegacyAddress "intent.from" fromAddress
  validateCanonicalLegacyAddress "intent.to" toAddress
  ensure (amount ≠ 0) (.invalidPlanField "intent.amount" "must be greater than zero")

/-! ## Entries -/

/-- `WalletPendingState`. -/
inductive WalletPendingState
  | signed
  | submissionStarted
  | submissionOutcomeUnknown
  | relayAccepted
  | observedMempool
  | relayRejected
  | confirmed
  deriving DecidableEq, Repr

/-- `WalletPendingState::reserves_outpoints`. -/
def WalletPendingState.reservesOutpoints (state : WalletPendingState) : Bool := state ≠ .confirmed

/-- `WalletPendingTransaction`. -/
structure WalletPendingTransaction where
  finalTxid : String
  fromAddress : String
  selectedOutpoints : List OutPoint
  state : WalletPendingState
  rejectionCode : Option String
  rejectionMessage : Option String
  deriving DecidableEq, Repr

/-- `WalletPendingError`. -/
inductive WalletPendingError
  | invalidField (field reason : String)
  | unsupportedVersion (version : UInt32)
  | plan (error : WalletPlanError)
  | duplicateTransaction (txid : String)
  | duplicateOutpoint
  | conflictingReservations
  | reservedOutpoint (txid : String) (index : UInt32)
  | transactionIdentityMismatch (txid : String)
  | unknownTransaction (txid : String)
  | invalidTransition (current next : WalletPendingState)
  deriving DecidableEq, Repr

/-- `validate_wallet_address`. -/
def validateWalletAddress (value : String) : Except WalletPendingError Unit :=
  Except.mapError .plan (validateTransactionIntent value value 1)

/-- `validate_txid`. -/
def validateTxid (value : String) : Except WalletPendingError Unit := do
  let decoded ← okOr (hexDecode value) (.invalidField "final_txid" "must be hexadecimal")
  ensure (decoded.length = 32) (.invalidField "final_txid" "must encode exactly 32 bytes")
  ensure (hexEncode decoded = value)
    (.invalidField "final_txid" "must use canonical lowercase hexadecimal encoding")

/-- `validate_txid_component`. -/
def validateTxidComponent (value : String) : Except WalletPendingError Unit := do
  let decoded ← okOr (hexDecode value)
    (.invalidField "selected_outpoints.txid" "must be hexadecimal")
  ensure (decoded.length = 32 ∧ hexEncode decoded = value)
    (.invalidField "selected_outpoints.txid" "must be canonical lowercase 32-byte hexadecimal")

/-- `validate_selected_outpoints`. -/
def validateSelectedOutpoints (outpoints : List OutPoint) : Except WalletPendingError Unit := do
  ensure (outpoints ≠ []) (.invalidField "selected_outpoints" "must contain at least one outpoint")
  checkDistinct (fun outpoint => validateTxidComponent outpoint.txid) id
    (fun _ => .duplicateOutpoint) [] outpoints

/-- `WALLET_PENDING_REJECTION_CODE_MAX_BYTES`. -/
def walletPendingRejectionCodeMaxBytes : ℕ := 128

/-- `WALLET_PENDING_REJECTION_MESSAGE_MAX_BYTES`. -/
def walletPendingRejectionMessageMaxBytes : ℕ := 2048

/-- `validate_text_shape`. -/
def validateTextShape (field : String) (value : Option String) :
    Except WalletPendingError Unit := do
  let value ← okOr value (.invalidField field "must be present")
  ensure (value ≠ "" ∧ trim value.toList = value.toList)
    (.invalidField field "must be non-empty without leading or trailing whitespace")

/-- `validate_text` of `pending.rs`. -/
def validatePendingText (field : String) (value : Option String) (maxBytes : ℕ) :
    Except WalletPendingError Unit := do
  validateTextShape field value
  ensure (∀ text ∈ value, utf8Length text.toList ≤ maxBytes)
    (.invalidField field "exceeds persisted byte limit")

/-- `str::is_char_boundary`. -/
def isCharBoundary (text : List Char) (index : ℕ) : Bool :=
  text.inits.any fun start => utf8Length start = index

/-- The loop that moves `end` back to a character boundary. -/
def lastCharBoundary (text : List Char) : ℕ → ℕ
  | 0 => 0
  | index + 1 => if isCharBoundary text (index + 1) then index + 1 else lastCharBoundary text index

/-- `String::truncate` at a character boundary. -/
def truncateText (text : List Char) (index : ℕ) : List Char :=
  (text.inits.find? fun start => utf8Length start = index).getD text

/-- The text that `bound_rejection_text` keeps. -/
def boundedText (value : String) (maxBytes : ℕ) : String :=
  if maxBytes < utf8Length value.toList then
    String.ofList ((truncateText value.toList (lastCharBoundary value.toList maxBytes)).rdropWhile
      isWhitespace)
  else value

/-- `bound_rejection_text`. -/
def boundRejectionText (field value : String) (maxBytes : ℕ) :
    Except WalletPendingError String := do
  validateTextShape field (some value)
  validatePendingText field (some (boundedText value maxBytes)) maxBytes
  pure (boundedText value maxBytes)

/-- The check of the rejection of an entry. -/
def validateRejection (state : WalletPendingState) (code message : Option String) :
    Except WalletPendingError Unit :=
  match state with
  | .relayRejected => do
    validatePendingText "rejection_code" code walletPendingRejectionCodeMaxBytes
    validatePendingText "rejection_message" message walletPendingRejectionMessageMaxBytes
  | _ => ensure (code = none ∧ message = none)
      (.invalidField "rejection" "rejection metadata is allowed only for relay_rejected state")

/-- `WalletPendingTransaction::validate`. -/
def WalletPendingTransaction.validate (entry : WalletPendingTransaction) :
    Except WalletPendingError Unit := do
  validateTxid entry.finalTxid
  validateWalletAddress entry.fromAddress
  validateSelectedOutpoints entry.selectedOutpoints
  validateRejection entry.state entry.rejectionCode entry.rejectionMessage

/-- The entry holds its outpoints. -/
def WalletPendingTransaction.Reserves (entry : WalletPendingTransaction) : Prop :=
  entry.state.reservesOutpoints = true

instance (entry : WalletPendingTransaction) : Decidable entry.Reserves :=
  inferInstanceAs (Decidable (_ = true))

/-! ## The journal -/

/-- `WALLET_PENDING_JOURNAL_FORMAT`. -/
def walletPendingJournalFormat : String := "pulsedag-wallet-pending-journal"

/-- `WALLET_PENDING_JOURNAL_VERSION`. -/
def walletPendingJournalVersion : UInt32 := 1

/-- `WalletPendingJournal`. -/
structure WalletPendingJournal where
  format : String
  version : UInt32
  network : WalletNetworkIdentity
  entries : List WalletPendingTransaction
  deriving DecidableEq, Repr

/-- The loops that compare the reservations of every two entries. -/
def checkReservations : List WalletPendingTransaction → Except WalletPendingError Unit
  | [] => .ok ()
  | left :: rest => do
    ensure (left.Reserves → ∀ right ∈ rest, right.Reserves →
      ∀ outpoint ∈ left.selectedOutpoints, outpoint ∉ right.selectedOutpoints)
      .conflictingReservations
    checkReservations rest

namespace WalletPendingJournal

/-- `WalletPendingJournal::new`. -/
def new (network : WalletNetworkIdentity) : Except WalletPendingError WalletPendingJournal := do
  Except.mapError .plan network.validate
  pure { format := walletPendingJournalFormat
         version := walletPendingJournalVersion
         network := network
         entries := [] }

/-- `WalletPendingJournal::validate`. -/
def validate (journal : WalletPendingJournal) : Except WalletPendingError Unit := do
  ensure (journal.format = walletPendingJournalFormat)
    (.invalidField "format" "unsupported pending-journal format")
  ensure (journal.version = walletPendingJournalVersion) (.unsupportedVersion journal.version)
  Except.mapError .plan journal.network.validate
  checkDistinct WalletPendingTransaction.validate WalletPendingTransaction.finalTxid
    (fun entry => .duplicateTransaction entry.finalTxid) [] journal.entries
  checkReservations journal.entries

/-- `WalletPendingJournal::ensure_network`. -/
def ensureNetwork (journal : WalletPendingJournal) (observed : WalletNetworkIdentity) :
    Except WalletPendingError Unit := do
  journal.validate
  Except.mapError .plan (journal.network.ensureMatches observed)

/-- `WalletPendingJournal::entry`. -/
def entry (journal : WalletPendingJournal) (finalTxid : String) : Option WalletPendingTransaction :=
  journal.entries.find? fun entry => entry.finalTxid = finalTxid

/-- `WalletPendingJournal::reserved_outpoints`. -/
def reservedOutpoints (journal : WalletPendingJournal) : List OutPoint :=
  (journal.entries.filter fun entry => entry.Reserves).flatMap (·.selectedOutpoints)

/-- The state of an entry with the same id, which must have the same reservation. -/
def existingState (journal : WalletPendingJournal) (finalTxid fromAddress : String)
    (selectedOutpoints : List OutPoint) : Except WalletPendingError (Option WalletPendingState) :=
  match journal.entry finalTxid with
  | some existing => do
    ensure (existing.fromAddress = fromAddress ∧ existing.selectedOutpoints = selectedOutpoints)
      (.transactionIdentityMismatch finalTxid)
    pure (some existing.state)
  | none => pure none

/-- Whether a reservation that passed the other checks is new. -/
def isNewReservation : Option WalletPendingState → Except WalletPendingError Bool
  | some current => do
    ensure (current.reservesOutpoints = true) (.invalidTransition current .signed)
    pure false
  | none => pure true

/-- What `reserve_signed` checks before it changes the journal. -/
def checkReservation (journal : WalletPendingJournal) (finalTxid fromAddress : String)
    (selectedOutpoints : List OutPoint) : Except WalletPendingError Bool := do
  journal.validate
  validateTxid finalTxid
  validateWalletAddress fromAddress
  validateSelectedOutpoints selectedOutpoints
  let existing ← journal.existingState finalTxid fromAddress selectedOutpoints
  ensure (∀ entry ∈ journal.entries, entry.finalTxid ≠ finalTxid → entry.Reserves →
    ∀ outpoint ∈ entry.selectedOutpoints, outpoint ∉ selectedOutpoints) .conflictingReservations
  isNewReservation existing

/-- The journal after the confirmed entries are dropped and a signed one is added. -/
def withReservation (journal : WalletPendingJournal) (finalTxid fromAddress : String)
    (selectedOutpoints : List OutPoint) : WalletPendingJournal :=
  let kept := journal.entries.filter fun entry => entry.state ≠ .confirmed
  { journal with
    entries := kept ++ [⟨finalTxid, fromAddress, selectedOutpoints, .signed, none, none⟩] }

/-- `WalletPendingJournal::reserve_signed`. -/
def reserveSigned (journal : WalletPendingJournal) (finalTxid fromAddress : String)
    (selectedUtxos : List SelectedUtxo) : Except WalletPendingError Bool × WalletPendingJournal :=
  let selectedOutpoints := selectedUtxos.map (·.outpoint)
  match journal.checkReservation finalTxid fromAddress selectedOutpoints with
  | .error error => (.error error, journal)
  | .ok false => (.ok false, journal)
  | .ok true =>
    let next := journal.withReservation finalTxid fromAddress selectedOutpoints
    (next.validate.map fun _ => true, next)

/-- `WalletPendingJournal::ensure_selected_unreserved`. -/
def ensureSelectedUnreserved (journal : WalletPendingJournal) (selectedUtxos : List SelectedUtxo) :
    Except WalletPendingError Unit := do
  journal.validate
  selectedUtxos.forM fun selected =>
    ensure (∀ entry ∈ journal.entries, entry.Reserves → selected.outpoint ∉ entry.selectedOutpoints)
      (.reservedOutpoint selected.outpoint.txid selected.outpoint.index)

end WalletPendingJournal

/-- `transition_allowed`. -/
def transitionAllowed (current next : WalletPendingState) : Bool :=
  if current = next then true
  else
    match current with
    | .signed => next = .submissionStarted
    | .submissionStarted => next = .submissionOutcomeUnknown ∨ next = .relayAccepted ∨
        next = .observedMempool ∨ next = .relayRejected ∨ next = .confirmed
    | .submissionOutcomeUnknown =>
      next = .relayAccepted ∨ next = .observedMempool ∨ next = .confirmed
    | .relayAccepted => next = .observedMempool ∨ next = .confirmed
    | .observedMempool => next = .confirmed
    | .relayRejected => next = .observedMempool ∨ next = .confirmed
    | .confirmed => false

/-- Change the first entry with the given id. -/
def updateEntry (finalTxid : String) (next : WalletPendingState) (code message : Option String) :
    List WalletPendingTransaction → List WalletPendingTransaction
  | [] => []
  | entry :: rest =>
    if entry.finalTxid = finalTxid then
      { entry with state := next, rejectionCode := code, rejectionMessage := message } :: rest
    else entry :: updateEntry finalTxid next code message rest

namespace WalletPendingJournal

/-- What a change of state checks before it changes the journal. -/
def checkTransition (journal : WalletPendingJournal) (finalTxid : String)
    (allowed : WalletPendingState → Bool) (next : WalletPendingState) :
    Except WalletPendingError Unit := do
  journal.validate
  validateTxid finalTxid
  let entry ← okOr (journal.entry finalTxid) (.unknownTransaction finalTxid)
  ensure (allowed entry.state = true) (.invalidTransition entry.state next)

/-- Change the state of an entry and validate the journal. -/
def changeState (journal : WalletPendingJournal) (finalTxid : String)
    (allowed : WalletPendingState → Bool) (next : WalletPendingState)
    (code message : Option String) : Except WalletPendingError Unit × WalletPendingJournal :=
  match journal.checkTransition finalTxid allowed next with
  | .error error => (.error error, journal)
  | .ok _ =>
    let changed :=
      { journal with entries := updateEntry finalTxid next code message journal.entries }
    (changed.validate, changed)

/-- `WalletPendingJournal::mark_submission_started`. -/
def markSubmissionStarted (journal : WalletPendingJournal) (finalTxid : String) :
    Except WalletPendingError Unit × WalletPendingJournal :=
  journal.changeState finalTxid (fun current => current = .signed) .submissionStarted none none

/-- `WalletPendingJournal::transition`. -/
def transition (journal : WalletPendingJournal) (finalTxid : String) (next : WalletPendingState)
    (rejection : Option (String × String)) :
    Except WalletPendingError Unit × WalletPendingJournal :=
  journal.changeState finalTxid (fun current => transitionAllowed current next) next
    (rejection.map Prod.fst) (rejection.map Prod.snd)

/-- `WalletPendingJournal::mark_submission_outcome_unknown`. -/
def markSubmissionOutcomeUnknown (journal : WalletPendingJournal) (finalTxid : String) :
    Except WalletPendingError Unit × WalletPendingJournal :=
  journal.transition finalTxid .submissionOutcomeUnknown none

/-- `WalletPendingJournal::mark_relay_accepted`. -/
def markRelayAccepted (journal : WalletPendingJournal) (finalTxid : String) :
    Except WalletPendingError Unit × WalletPendingJournal :=
  journal.transition finalTxid .relayAccepted none

/-- `WalletPendingJournal::mark_observed_mempool`. -/
def markObservedMempool (journal : WalletPendingJournal) (finalTxid : String) :
    Except WalletPendingError Unit × WalletPendingJournal :=
  journal.transition finalTxid .observedMempool none

/-- `WalletPendingJournal::mark_confirmed`. -/
def markConfirmed (journal : WalletPendingJournal) (finalTxid : String) :
    Except WalletPendingError Unit × WalletPendingJournal :=
  journal.transition finalTxid .confirmed none

/-- The bounded texts of a rejection. -/
def boundRejection (code message : String) : Except WalletPendingError (String × String) := do
  let code ← boundRejectionText "rejection_code" code walletPendingRejectionCodeMaxBytes
  let message ← boundRejectionText "rejection_message" message walletPendingRejectionMessageMaxBytes
  pure (code, message)

/-- `WalletPendingJournal::mark_relay_rejected`. -/
def markRelayRejected (journal : WalletPendingJournal) (finalTxid code message : String) :
    Except WalletPendingError Unit × WalletPendingJournal :=
  match boundRejection code message with
  | .error error => (.error error, journal)
  | .ok rejection => journal.transition finalTxid .relayRejected (some rejection)

end WalletPendingJournal

end PulseDag
