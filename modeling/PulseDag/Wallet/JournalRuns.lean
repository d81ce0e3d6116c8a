import PulseDag.Wallet.PendingJournal

/-!
# Runs of the pending journal

A call leaves the journal as it was, adds one signed entry or changes the state of one entry
(`perform_cases`), and the validation at its end never fails. From this follow the invariants of all
runs: reservations do not overlap, last until the entry is confirmed, and an entry is submitted
once.
-/

namespace PulseDag

open List

/-! ## What the validation accepts -/

/-- What `validate` accepts. -/
structure WalletPendingJournal.Valid (journal : WalletPendingJournal) : Prop where
  format_eq : journal.format = walletPendingJournalFormat
  version_eq : journal.version = walletPendingJournalVersion
  network : journal.network.validate = .ok ()
  entry : ∀ entry ∈ journal.entries, entry.validate = .ok ()
  txids : journal.entries.Pairwise fun left right => left.finalTxid ≠ right.finalTxid
  reservations : journal.entries.Pairwise fun left right => left.Reserves → right.Reserves →
    left.selectedOutpoints.Disjoint right.selectedOutpoints

variable {entries : List WalletPendingTransaction} {outpoint : OutPoint}
  {allowed : WalletPendingState → Bool}

/-- When no outpoint is reserved twice. -/
theorem checkReservations_eq_ok :
    checkReservations entries = .ok () ↔ entries.Pairwise fun left right =>
      left.Reserves → right.Reserves → left.selectedOutpoints.Disjoint right.selectedOutpoints := by
  induction entries with
  | nil => simp [checkReservations]
  | cons left rest ih =>
    rw [checkReservations, seq_eq_ok, ensure_eq_ok, ih, pairwise_cons]
    refine and_congr_left fun _ => ?_
    exact ⟨fun h right hright hleft hreserves _ hl hr => h hleft right hright hreserves _ hl hr,
      fun h hleft right hright hreserves _ hl hr => h right hright hleft hreserves hl hr⟩

namespace WalletPendingJournal

variable {journal : WalletPendingJournal}

/-- The check of a journal. -/
theorem validate_eq_ok : journal.validate = .ok () ↔ journal.Valid := by
  rw [validate, seq_eq_ok, seq_eq_ok, seq_eq_ok, seq_eq_ok, ensure_eq_ok, ensure_eq_ok,
    mapError_eq_ok, checkDistinct_eq_ok, checkReservations_eq_ok]
  constructor
  · rintro ⟨hformat, hversion, hnetwork, ⟨hentry, htxids⟩, hreservations⟩
    exact ⟨hformat, hversion, hnetwork, hentry, htxids, hreservations⟩
  · intro h
    exact ⟨h.format_eq, h.version_eq, h.network, ⟨h.entry, h.txids⟩, h.reservations⟩

/-- A new journal is valid. -/
theorem valid_new {network : WalletNetworkIdentity} (h : new network = .ok journal) :
    journal.Valid := by
  simp only [new, ok_iff] at h
  obtain ⟨_, hnetwork, rfl⟩ := h
  exact ⟨rfl, rfl, hnetwork, fun _ hentry => absurd hentry not_mem_nil, .nil, .nil⟩

/-- Two entries with one id are the same. -/
theorem Valid.eq_of_finalTxid (h : journal.Valid) {left right : WalletPendingTransaction}
    (hleft : left ∈ journal.entries) (hright : right ∈ journal.entries)
    (heq : left.finalTxid = right.finalTxid) : left = right := by
  have hnodup : (journal.entries.map WalletPendingTransaction.finalTxid).Nodup :=
    pairwise_map.mpr h.txids
  exact inj_on_of_nodup_map hnodup hleft hright heq

/-- The entry found. -/
theorem entry_eq_some {finalTxid : String} {found : WalletPendingTransaction}
    (h : journal.entry finalTxid = some found) :
    found ∈ journal.entries ∧ found.finalTxid = finalTxid := by
  have hmatches := find?_some h
  exact ⟨mem_of_find?_eq_some h, of_decide_eq_true hmatches⟩

/-- The reserved outpoints. -/
theorem mem_reservedOutpoints :
    outpoint ∈ journal.reservedOutpoints ↔
      ∃ entry ∈ journal.entries, entry.Reserves ∧ outpoint ∈ entry.selectedOutpoints := by
  simp [reservedOutpoints, and_assoc]

end WalletPendingJournal

/-- The check of an entry. -/
theorem WalletPendingTransaction.validate_eq_ok {entry : WalletPendingTransaction} :
    entry.validate = .ok () ↔ validateTxid entry.finalTxid = .ok () ∧
      validateWalletAddress entry.fromAddress = .ok () ∧
      validateSelectedOutpoints entry.selectedOutpoints = .ok () ∧
      validateRejection entry.state entry.rejectionCode entry.rejectionMessage = .ok () := by
  rw [validate, seq_eq_ok, seq_eq_ok, seq_eq_ok]

/-! ## A change of state -/

/-- The entry with another state. -/
def WalletPendingTransaction.withState (entry : WalletPendingTransaction)
    (next : WalletPendingState) (code message : Option String) : WalletPendingTransaction :=
  { entry with state := next, rejectionCode := code, rejectionMessage := message }

/-- The change of the entry with the given id, and no change of the others. -/
def changeEntry (finalTxid : String) (next : WalletPendingState) (code message : Option String)
    (entry : WalletPendingTransaction) : WalletPendingTransaction :=
  if entry.finalTxid = finalTxid then entry.withState next code message else entry

section

variable {finalTxid : String} {next : WalletPendingState} {code message : Option String}
  {entry : WalletPendingTransaction}

/-- The entry with the id changes. -/
theorem changeEntry_of_eq (h : entry.finalTxid = finalTxid) :
    changeEntry finalTxid next code message entry = entry.withState next code message := if_pos h

/-- Other entries stay. -/
theorem changeEntry_of_ne (h : entry.finalTxid ≠ finalTxid) :
    changeEntry finalTxid next code message entry = entry := if_neg h

/-- Ids stay. -/
@[simp] theorem changeEntry_finalTxid :
    (changeEntry finalTxid next code message entry).finalTxid = entry.finalTxid := by
  unfold changeEntry
  split <;> rfl

/-- Outpoints stay. -/
@[simp] theorem changeEntry_selectedOutpoints :
    (changeEntry finalTxid next code message entry).selectedOutpoints =
    entry.selectedOutpoints := by
  unfold changeEntry
  split <;> rfl

/-- Ids are not repeated, so changing the first entry with an id changes all of them. -/
theorem updateEntry_eq_map
    (h : entries.Pairwise fun left right => left.finalTxid ≠ right.finalTxid) :
    updateEntry finalTxid next code message entries =
      entries.map (changeEntry finalTxid next code message) := by
  induction entries with
  | nil => rfl
  | cons entry rest ih =>
    obtain ⟨hentry, hrest⟩ := pairwise_cons.mp h
    rw [updateEntry, map_cons]
    split
    · rename_i htxid
      rw [changeEntry_of_eq htxid]
      have hkept : rest.map (changeEntry finalTxid next code message) = rest.map id :=
        map_congr_left fun other hother =>
          changeEntry_of_ne fun heq => hentry other hother (htxid.trans heq.symm)
      rw [hkept, map_id]
      rfl
    · rename_i htxid
      rw [changeEntry_of_ne htxid, ih hrest]

end

namespace WalletPendingJournal

variable {journal : WalletPendingJournal} {finalTxid : String} {next : WalletPendingState}
  {code message : Option String}

/-- The journal after a change of state. -/
def withState (journal : WalletPendingJournal) (finalTxid : String) (next : WalletPendingState)
    (code message : Option String) : WalletPendingJournal :=
  { journal with entries := journal.entries.map (changeEntry finalTxid next code message) }

/-- A change of state keeps the journal valid if it does not take a reservation up again. -/
theorem Valid.withState (h : journal.Valid)
    (hreserves : ∀ entry ∈ journal.entries, entry.finalTxid = finalTxid →
      next.reservesOutpoints = true → entry.Reserves)
    (hrejection : validateRejection next code message = .ok ()) :
    (journal.withState finalTxid next code message).Valid := by
  have hkept : ∀ entry ∈ journal.entries,
      (changeEntry finalTxid next code message entry).Reserves → entry.Reserves := by
    intro entry hentry hchanged
    by_cases htxid : entry.finalTxid = finalTxid
    · rw [changeEntry_of_eq htxid] at hchanged
      exact hreserves entry hentry htxid hchanged
    · rwa [changeEntry_of_ne htxid] at hchanged
  refine ⟨h.format_eq, h.version_eq, h.network, fun entry hentry => ?_, ?_, ?_⟩
  · obtain ⟨before, hbefore, rfl⟩ := mem_map.mp hentry
    have hvalid := h.entry before hbefore
    by_cases htxid : before.finalTxid = finalTxid
    · rw [WalletPendingTransaction.validate_eq_ok] at hvalid
      obtain ⟨htxidValid, haddress, houtpoints, -⟩ := hvalid
      rw [changeEntry_of_eq htxid]
      exact WalletPendingTransaction.validate_eq_ok.mpr
        ⟨htxidValid, haddress, houtpoints, hrejection⟩
    · rwa [changeEntry_of_ne htxid]
  · refine pairwise_map.mpr (h.txids.imp fun hne => ?_)
    rwa [changeEntry_finalTxid, changeEntry_finalTxid]
  · refine pairwise_map.mpr (h.reservations.imp_of_mem fun hleft hright hdisjoint => ?_)
    rw [changeEntry_selectedOutpoints, changeEntry_selectedOutpoints]
    exact fun hl hr => hdisjoint (hkept _ hleft hl) (hkept _ hright hr)

/-- What a change of state does: it fails and leaves the journal as it was, or it changes the
entry. -/
theorem changeState_cases (h : journal.Valid)
    (hallowed : ∀ current, allowed current = true → next.reservesOutpoints = true →
      current.reservesOutpoints = true)
    (hrejection : validateRejection next code message = .ok ()) :
    (∃ error, journal.changeState finalTxid allowed next code message = (.error error, journal)) ∨
    ∃ found ∈ journal.entries, found.finalTxid = finalTxid ∧ allowed found.state = true ∧
      journal.changeState finalTxid allowed next code message =
        (.ok (), journal.withState finalTxid next code message) ∧
      (journal.withState finalTxid next code message).Valid := by
  unfold changeState
  split
  · rename_i error _
    exact .inl ⟨error, rfl⟩
  · rename_i hcheck
    simp only [checkTransition, bind_eq_ok, okOr_eq_ok, ensure_eq_ok] at hcheck
    obtain ⟨_, -, _, -, found, hfound, hstate⟩ := hcheck
    obtain ⟨hmem, htxid⟩ := entry_eq_some hfound
    have hvalid : (journal.withState finalTxid next code message).Valid := by
      refine h.withState (fun entry hentry heq hnext => ?_) hrejection
      obtain rfl := h.eq_of_finalTxid hentry hmem (heq.trans htxid.symm)
      exact hallowed _ hstate hnext
    refine .inr ⟨found, hmem, htxid, hstate, ?_, hvalid⟩
    rw [updateEntry_eq_map h.txids]
    exact Prod.ext (validate_eq_ok.mpr hvalid) rfl

end WalletPendingJournal

/-- No state that has given its outpoints up is left again. -/
theorem reservesOutpoints_of_transitionAllowed {current next : WalletPendingState}
    (h : transitionAllowed current next = true) (hnext : next.reservesOutpoints = true) :
    current.reservesOutpoints = true := by
  cases current with
  | confirmed =>
    cases next with
    | confirmed => cases hnext
    | _ => cases h
  | _ => rfl

/-! ## A reservation -/

namespace WalletPendingJournal

variable {journal : WalletPendingJournal} {finalTxid fromAddress : String}
  {selectedOutpoints : List OutPoint}

/-- No entry means that the id is new. -/
theorem existingState_eq_ok {existing : Option WalletPendingState}
    (h : journal.existingState finalTxid fromAddress selectedOutpoints = .ok existing)
    (hexisting : existing = none) : ∀ entry ∈ journal.entries, entry.finalTxid ≠ finalTxid := by
  unfold existingState at h
  split at h
  · simp only [ok_iff] at h
    obtain ⟨_, -, rfl⟩ := h
    cases hexisting
  · rename_i hnone
    intro entry hentry
    exact of_decide_eq_false (Bool.eq_false_iff.mpr (find?_eq_none.mp hnone entry hentry))

/-- The checks of a new reservation make the journal with it valid. -/
theorem Valid.withReservation (h : journal.Valid)
    (hcheck : journal.checkReservation finalTxid fromAddress selectedOutpoints = .ok true) :
    (∀ entry ∈ journal.entries, entry.finalTxid ≠ finalTxid) ∧
      (journal.withReservation finalTxid fromAddress selectedOutpoints).Valid := by
  simp only [checkReservation, bind_eq_ok, ensure_eq_ok] at hcheck
  obtain ⟨_, -, _, htxid, _, haddress, _, houtpoints, existing, hexisting, _, hfree, hnew⟩ := hcheck
  have hfresh : ∀ entry ∈ journal.entries, entry.finalTxid ≠ finalTxid := by
    refine existingState_eq_ok hexisting ?_
    cases existing with
    | none => rfl
    | some current =>
      simp [isNewReservation, bind_eq_ok] at hnew
  have hkept : (journal.entries.filter fun entry => entry.state ≠ .confirmed).Sublist
    journal.entries := filter_sublist
  refine ⟨hfresh, h.format_eq, h.version_eq, h.network, fun entry hentry => ?_, ?_, ?_⟩
  · rcases mem_append.mp hentry with hentry | hentry
    · exact h.entry entry (hkept.subset hentry)
    · rw [mem_singleton.mp hentry]
      exact WalletPendingTransaction.validate_eq_ok.mpr ⟨htxid, haddress, houtpoints, rfl⟩
  · refine pairwise_append.mpr ⟨h.txids.sublist hkept, pairwise_singleton .., ?_⟩
    intro left hleft right hright
    rw [mem_singleton.mp hright]
    exact hfresh left (hkept.subset hleft)
  · refine pairwise_append.mpr ⟨h.reservations.sublist hkept, pairwise_singleton .., ?_⟩
    intro left hleft right hright hreserves _
    rw [mem_singleton.mp hright]
    have hmem := hkept.subset hleft
    exact fun outpoint hl => hfree left hmem (hfresh left hmem) hreserves outpoint hl

end WalletPendingJournal

/-! ## Calls -/

/-- The calls of a journal. -/
inductive PendingCall
  | reserveSigned (finalTxid fromAddress : String) (selectedUtxos : List SelectedUtxo)
  | markSubmissionStarted (finalTxid : String)
  | markSubmissionOutcomeUnknown (finalTxid : String)
  | markRelayAccepted (finalTxid : String)
  | markObservedMempool (finalTxid : String)
  | markConfirmed (finalTxid : String)
  | markRelayRejected (finalTxid code message : String)
  | ensureNetwork (observed : WalletNetworkIdentity)
  | ensureSelectedUnreserved (selectedUtxos : List SelectedUtxo)

/-- What a successful call returns. -/
inductive PendingReply
  | done
  | reserved (fresh : Bool)
  deriving DecidableEq, Repr

/-- The reply of a call without a value. -/
def withoutValue (outcome : Except WalletPendingError Unit × WalletPendingJournal) :
    Except WalletPendingError PendingReply × WalletPendingJournal :=
  (outcome.1.map fun _ => .done, outcome.2)

namespace WalletPendingJournal

/-- The result of a call and the journal it leaves behind. -/
def perform (journal : WalletPendingJournal) :
    PendingCall → Except WalletPendingError PendingReply × WalletPendingJournal
  | .reserveSigned finalTxid fromAddress selectedUtxos =>
    let outcome := journal.reserveSigned finalTxid fromAddress selectedUtxos
    (outcome.1.map .reserved, outcome.2)
  | .markSubmissionStarted finalTxid => withoutValue (journal.markSubmissionStarted finalTxid)
  | .markSubmissionOutcomeUnknown finalTxid =>
    withoutValue (journal.markSubmissionOutcomeUnknown finalTxid)
  | .markRelayAccepted finalTxid => withoutValue (journal.markRelayAccepted finalTxid)
  | .markObservedMempool finalTxid => withoutValue (journal.markObservedMempool finalTxid)
  | .markConfirmed finalTxid => withoutValue (journal.markConfirmed finalTxid)
  | .markRelayRejected finalTxid code message =>
    withoutValue (journal.markRelayRejected finalTxid code message)
  | .ensureNetwork observed => withoutValue (journal.ensureNetwork observed, journal)
  | .ensureSelectedUnreserved selectedUtxos =>
    withoutValue (journal.ensureSelectedUnreserved selectedUtxos, journal)

/-- The journal after a list of calls, whatever they return. -/
def after (journal : WalletPendingJournal) : List PendingCall → WalletPendingJournal
  | [] => journal
  | call :: rest => (journal.perform call).2.after rest

/-- Everything that a call can do to a valid journal. -/
inductive Outcome (journal : WalletPendingJournal) (call : PendingCall) :
    Except WalletPendingError PendingReply × WalletPendingJournal → Prop
  | failed (error : WalletPendingError) : Outcome journal call (.error error, journal)
  | unchanged (reply : PendingReply) (hreply : reply ≠ .reserved true) :
      Outcome journal call (.ok reply, journal)
  | reserved {finalTxid fromAddress : String} {selectedUtxos : List SelectedUtxo}
      (hcall : call = .reserveSigned finalTxid fromAddress selectedUtxos)
      (hfresh : ∀ entry ∈ journal.entries, entry.finalTxid ≠ finalTxid)
      (hvalid : (journal.withReservation finalTxid fromAddress
        (selectedUtxos.map (·.outpoint))).Valid) :
      Outcome journal call (.ok (.reserved true),
        journal.withReservation finalTxid fromAddress (selectedUtxos.map (·.outpoint)))
  | changed {finalTxid : String} {next : WalletPendingState} {code message : Option String}
      {found : WalletPendingTransaction} (hfound : found ∈ journal.entries)
      (htxid : found.finalTxid = finalTxid) (hsigned : next ≠ .signed)
      (hstarted : next = .submissionStarted → found.state = .signed)
      (hconfirmed : next = .confirmed → call = .markConfirmed finalTxid)
      (hvalid : (journal.withState finalTxid next code message).Valid) :
      Outcome journal call (.ok .done, journal.withState finalTxid next code message)

variable {journal : WalletPendingJournal} {finalTxid : String} {call : PendingCall}

/-- The outcome of a reservation. -/
theorem Outcome.of_reserveSigned (h : journal.Valid) (fromAddress : String)
    (selectedUtxos : List SelectedUtxo) :
    journal.Outcome (.reserveSigned finalTxid fromAddress selectedUtxos)
      (journal.perform (.reserveSigned finalTxid fromAddress selectedUtxos)) := by
  unfold perform reserveSigned
  dsimp only
  split
  · exact .failed _
  · exact .unchanged _ (by decide)
  · rename_i hcheck
    obtain ⟨hfresh, hvalid⟩ := h.withReservation hcheck
    rw [validate_eq_ok.mpr hvalid]
    exact .reserved rfl hfresh hvalid

/-- The outcome of a change of state. -/
theorem Outcome.of_changeState {next : WalletPendingState} {code message : Option String}
    (h : journal.Valid) (hsigned : next ≠ .signed)
    (hallowed : ∀ current, allowed current = true → next.reservesOutpoints = true →
      current.reservesOutpoints = true)
    (hstarted : ∀ current, allowed current = true → next = .submissionStarted → current = .signed)
    (hconfirmed : next = .confirmed → call = .markConfirmed finalTxid)
    (hrejection : validateRejection next code message = .ok ()) :
    journal.Outcome call
      (withoutValue (journal.changeState finalTxid allowed next code message)) := by
  rcases changeState_cases h hallowed hrejection with ⟨error, heq⟩ |
    ⟨found, hfound, htxid, hstate, heq, hvalid⟩
  · rw [heq]
    exact .failed error
  · rw [heq]
    exact .changed hfound htxid hsigned (hstarted _ hstate) hconfirmed hvalid

/-- A transition does not lead back to the states before the submission. -/
theorem Outcome.of_transition {next : WalletPendingState} {rejection : Option (String × String)}
    (h : journal.Valid) (hsigned : next ≠ .signed) (hstarted : next ≠ .submissionStarted)
    (hconfirmed : next = .confirmed → call = .markConfirmed finalTxid)
    (hrejection : validateRejection next (rejection.map Prod.fst) (rejection.map Prod.snd) =
      .ok ()) :
    journal.Outcome call (withoutValue (journal.transition finalTxid next rejection)) :=
  of_changeState h hsigned (fun _ => reservesOutpoints_of_transitionAllowed)
    (fun _ _ heq => absurd heq hstarted) hconfirmed hrejection

/-- The texts of a rejection are checked before the journal is changed. -/
theorem validateRejection_of_boundRejection {code message : String} {rejection : String × String}
    (h : boundRejection code message = .ok rejection) :
    validateRejection .relayRejected (some rejection.1) (some rejection.2) = .ok () := by
  simp only [boundRejection, boundRejectionText, ok_iff] at h
  obtain ⟨_, ⟨_, -, _, hcode, rfl⟩, _, ⟨_, -, _, hmessage, rfl⟩, rfl⟩ := h
  exact seq_eq_ok.mpr ⟨hcode, hmessage⟩

/-- The outcome of a call that reads. -/
theorem Outcome.of_read (result : Except WalletPendingError Unit) :
    journal.Outcome call (withoutValue (result, journal)) := by
  cases result with
  | error error => exact .failed error
  | ok => exact .unchanged .done (by decide)

/-- What a call on a valid journal does. In particular the validation at its end does not fail. -/
theorem perform_outcome (h : journal.Valid) (call : PendingCall) :
    journal.Outcome call (journal.perform call) := by
  cases call with
  | reserveSigned finalTxid fromAddress selectedUtxos => exact .of_reserveSigned h _ _
  | markSubmissionStarted finalTxid =>
    refine .of_changeState h (by decide) (fun current hcurrent _ => ?_)
      (fun _ hcurrent _ => of_decide_eq_true hcurrent) (fun heq => by cases heq) rfl
    rw [of_decide_eq_true hcurrent]
    rfl
  | markSubmissionOutcomeUnknown finalTxid =>
    exact .of_transition h (by decide) (by decide) (fun heq => by cases heq) rfl
  | markRelayAccepted finalTxid =>
    exact .of_transition h (by decide) (by decide) (fun heq => by cases heq) rfl
  | markObservedMempool finalTxid =>
    exact .of_transition h (by decide) (by decide) (fun heq => by cases heq) rfl
  | markConfirmed finalTxid => exact .of_transition h (by decide) (by decide) (fun _ => rfl) rfl
  | markRelayRejected finalTxid code message =>
    unfold perform markRelayRejected
    dsimp only
    split
    · exact .failed _
    · rename_i hbound
      exact .of_transition h (by decide) (by decide) (fun heq => by cases heq)
        (validateRejection_of_boundRejection hbound)
  | ensureNetwork observed => exact .of_read _
  | ensureSelectedUnreserved selectedUtxos => exact .of_read _

/-- A call keeps a journal valid. -/
theorem Valid.perform (h : journal.Valid) (call : PendingCall) :
    (journal.perform call).2.Valid := by
  have houtcome := perform_outcome h call
  generalize journal.perform call = outcome at houtcome
  cases houtcome with
  | failed | unchanged => exact h
  | reserved _ _ hvalid | changed _ _ _ _ _ hvalid => exact hvalid

/-- Every run keeps the journal valid. -/
theorem Valid.after (h : journal.Valid) (calls : List PendingCall) :
    (journal.after calls).Valid := by
  induction calls generalizing journal with
  | nil => exact h
  | cons call rest ih => exact ih (h.perform call)

/-- A call that returns an error has not changed the journal. -/
theorem perform_error (h : journal.Valid) {error : WalletPendingError}
    (herror : (journal.perform call).1 = .error error) : (journal.perform call).2 = journal := by
  have houtcome := perform_outcome h call
  generalize journal.perform call = outcome at houtcome herror
  cases houtcome with
  | failed | unchanged => rfl
  | reserved | changed => cases herror

/-! ## Reservations last -/

/-- The journal holds the outpoints of an entry, possibly in another state. -/
def Holds (journal : WalletPendingJournal) (entry : WalletPendingTransaction) : Prop :=
  ∃ current ∈ journal.entries, current.finalTxid = entry.finalTxid ∧
    current.fromAddress = entry.fromAddress ∧ current.selectedOutpoints = entry.selectedOutpoints ∧
    current.Reserves

variable {entry : WalletPendingTransaction}

/-- One call keeps the reservation of an entry unless it confirms that entry. -/
theorem Holds.perform (h : journal.Valid) (hholds : journal.Holds entry) (call : PendingCall) :
    (journal.perform call).2.Holds entry ∨
      call = .markConfirmed entry.finalTxid ∧ (journal.perform call).1 = .ok .done := by
  obtain ⟨current, hcurrent, htxid, haddress, houtpoints, hreserves⟩ := hholds
  have houtcome := perform_outcome h call
  generalize journal.perform call = outcome at houtcome
  cases houtcome with
  | failed | unchanged => exact .inl ⟨current, hcurrent, htxid, haddress, houtpoints, hreserves⟩
  | reserved _ _ _ =>
    refine .inl ⟨current, mem_append_left _ (mem_filter.mpr ⟨hcurrent, ?_⟩), htxid,
      haddress, houtpoints, hreserves⟩
    exact hreserves
  | @changed changedTxid next code message found hfound hfoundTxid _ _ hconfirmed _ =>
    by_cases hsame : current.finalTxid = changedTxid
    · by_cases hnext : next = .confirmed
      · exact .inr ⟨by rw [hconfirmed hnext, ← hsame, htxid], rfl⟩
      · refine .inl ⟨_, mem_map_of_mem hcurrent, ?_⟩
        rw [changeEntry_of_eq hsame]
        exact ⟨htxid, haddress, houtpoints, decide_eq_true hnext⟩
    · refine .inl ⟨_, mem_map_of_mem hcurrent, ?_⟩
      rw [changeEntry_of_ne hsame]
      exact ⟨htxid, haddress, houtpoints, hreserves⟩

/-- A list of calls confirms an entry that is still held before. -/
def Confirms (journal : WalletPendingJournal) (entry : WalletPendingTransaction)
    (calls : List PendingCall) : Prop :=
  ∃ before rest, calls = before ++ .markConfirmed entry.finalTxid :: rest ∧
    (journal.after before).Holds entry ∧
    ((journal.after before).perform (.markConfirmed entry.finalTxid)).1 = .ok .done

/-- A run keeps the reservation of an entry until it confirms that entry. -/
theorem Holds.after (h : journal.Valid) (hholds : journal.Holds entry) (calls : List PendingCall) :
    (journal.after calls).Holds entry ∨ journal.Confirms entry calls := by
  induction calls generalizing journal with
  | nil => exact .inl hholds
  | cons call rest ih =>
    rcases hholds.perform h call with hkept | ⟨rfl, hdone⟩
    · rcases ih (h.perform call) hkept with hafter | ⟨before, rest', hcalls, hbefore, hdone⟩
      · exact .inl hafter
      · exact .inr ⟨call :: before, rest', congrArg (call :: ·) hcalls, hbefore, hdone⟩
    · exact .inr ⟨[], rest, rfl, hholds, hdone⟩

/-- Held outpoints are reserved. -/
theorem Holds.mem_reservedOutpoints (hholds : journal.Holds entry)
    (houtpoint : outpoint ∈ entry.selectedOutpoints) : outpoint ∈ journal.reservedOutpoints := by
  obtain ⟨current, hcurrent, -, -, houtpoints, hreserves⟩ := hholds
  exact WalletPendingJournal.mem_reservedOutpoints.mpr
    ⟨current, hcurrent, hreserves, houtpoints ▸ houtpoint⟩

/-! ## Submissions start once -/

/-- The entry with the given id has started its submission. -/
def Started (journal : WalletPendingJournal) (finalTxid : String) : Prop :=
  ∃ entry ∈ journal.entries, entry.finalTxid = finalTxid ∧ entry.state = .submissionStarted

/-- The call moves the entry with the given id into `submission_started`. -/
def Enters (journal : WalletPendingJournal) (call : PendingCall) (finalTxid : String) : Prop :=
  ¬journal.Started finalTxid ∧ (journal.perform call).2.Started finalTxid

/-- The entry with the given id, if there is one, has left the state `signed`. -/
def PastSigned (journal : WalletPendingJournal) (finalTxid : String) : Prop :=
  ∀ entry ∈ journal.entries, entry.finalTxid = finalTxid → entry.state ≠ .signed

/-- The submission of an entry starts from `signed`, and `signed` is left by it. -/
theorem Enters.pastSigned (h : journal.Valid) (henters : journal.Enters call finalTxid) :
    ¬journal.PastSigned finalTxid ∧ (journal.perform call).2.PastSigned finalTxid := by
  have hafter := h.perform call
  obtain ⟨hbefore, entered, hentered, htxid, hstate⟩ := henters
  refine ⟨?_, fun other hother hotherTxid => ?_⟩
  · have houtcome := perform_outcome h call
    generalize journal.perform call = outcome at houtcome hentered
    cases houtcome with
    | failed | unchanged => exact absurd ⟨entered, hentered, htxid, hstate⟩ hbefore
    | reserved _ _ _ =>
      rcases mem_append.mp hentered with hkept | hnew
      · exact absurd ⟨entered, (mem_filter.mp hkept).1, htxid, hstate⟩ hbefore
      · rw [mem_singleton.mp hnew] at hstate
        cases hstate
    | @changed changedTxid next code message found hfound hfoundTxid _ hstarted _ _ =>
      obtain ⟨source, hsource, rfl⟩ := mem_map.mp hentered
      rw [changeEntry_finalTxid] at htxid
      by_cases hsame : source.finalTxid = changedTxid
      · rw [changeEntry_of_eq hsame] at hstate
        obtain rfl := h.eq_of_finalTxid hsource hfound (hsame.trans hfoundTxid.symm)
        exact fun hpast => hpast source hsource htxid (hstarted hstate)
      · rw [changeEntry_of_ne hsame] at hstate
        exact absurd ⟨source, hsource, htxid, hstate⟩ hbefore
  · rw [hafter.eq_of_finalTxid hother hentered (hotherTxid.trans htxid.symm), hstate]
    decide

/-- Only a new reservation brings the state `signed` back. -/
theorem PastSigned.perform (h : journal.Valid) (hpast : journal.PastSigned finalTxid)
    (call : PendingCall) :
    (journal.perform call).2.PastSigned finalTxid ∨
      ∃ fromAddress selectedUtxos, call = .reserveSigned finalTxid fromAddress selectedUtxos ∧
        (journal.perform call).1 = .ok (.reserved true) := by
  have houtcome := perform_outcome h call
  generalize journal.perform call = outcome at houtcome
  cases houtcome with
  | failed | unchanged => exact .inl hpast
  | @reserved newTxid fromAddress selectedUtxos hcall _ _ =>
    by_cases hsame : newTxid = finalTxid
    · exact .inr ⟨fromAddress, selectedUtxos, hsame ▸ hcall, rfl⟩
    · refine .inl fun entry hentry htxid => ?_
      rcases mem_append.mp hentry with hkept | hnew
      · exact hpast entry (mem_filter.mp hkept).1 htxid
      · rw [mem_singleton.mp hnew] at htxid
        exact absurd htxid hsame
  | @changed changedTxid next code message found hfound hfoundTxid hsigned _ _ _ =>
    refine .inl fun entry hentry htxid => ?_
    obtain ⟨source, hsource, rfl⟩ := mem_map.mp hentry
    rw [changeEntry_finalTxid] at htxid
    by_cases hsame : source.finalTxid = changedTxid
    · rw [changeEntry_of_eq hsame]
      exact hsigned
    · rw [changeEntry_of_ne hsame]
      exact hpast source hsource htxid

/-- A list of calls makes a new entry with the given id. -/
def Renews (journal : WalletPendingJournal) (finalTxid : String) (calls : List PendingCall) :
    Prop :=
  ∃ before rest fromAddress selectedUtxos,
    calls = before ++ .reserveSigned finalTxid fromAddress selectedUtxos :: rest ∧
    ((journal.after before).perform (.reserveSigned finalTxid fromAddress selectedUtxos)).1 =
      .ok (.reserved true)

/-- An entry past signing stays so until a new one is made. -/
theorem PastSigned.after (h : journal.Valid) (hpast : journal.PastSigned finalTxid)
    (calls : List PendingCall) :
    (journal.after calls).PastSigned finalTxid ∨ journal.Renews finalTxid calls := by
  induction calls generalizing journal with
  | nil => exact .inl hpast
  | cons call rest ih =>
    rcases hpast.perform h call with hkept | ⟨fromAddress, selectedUtxos, rfl, hreply⟩
    · rcases ih (h.perform call) hkept with hafter | ⟨before, rest', fromAddress, utxos, hcalls,
        hreply⟩
      · exact .inl hafter
      · exact .inr ⟨call :: before, rest', fromAddress, utxos, congrArg (call :: ·) hcalls, hreply⟩
    · exact .inr ⟨[], rest, fromAddress, selectedUtxos, rfl, hreply⟩

/-- In every run from a new journal: the journal is valid, no outpoint is held by two entries that
are not confirmed, a failed call changes nothing, an outpoint stays reserved until its own entry is
confirmed, and between two starts of a submission with one id a new entry is made. -/
theorem pendingJournal_safe {network : WalletNetworkIdentity} {start : WalletPendingJournal}
    (hstart : new network = .ok start) (calls : List PendingCall) :
    (start.after calls).validate = .ok () ∧
      ((start.after calls).entries.Pairwise fun left right => left.Reserves → right.Reserves →
        left.selectedOutpoints.Disjoint right.selectedOutpoints) ∧
      (∀ call error, ((start.after calls).perform call).1 = .error error →
        ((start.after calls).perform call).2 = start.after calls) ∧
      (∀ entry ∈ (start.after calls).entries, entry.Reserves →
        ∀ outpoint ∈ entry.selectedOutpoints, ∀ later,
          outpoint ∈ ((start.after calls).after later).reservedOutpoints ∨
            (start.after calls).Confirms entry later) ∧
      ∀ finalTxid first between last, (start.after calls).Enters first finalTxid →
        (((start.after calls).perform first).2.after between).Enters last finalTxid →
          ((start.after calls).perform first).2.Renews finalTxid between := by
  have hvalid := (valid_new hstart).after calls
  refine ⟨validate_eq_ok.mpr hvalid, hvalid.reservations, fun call error => perform_error hvalid,
    fun entry hentry hreserves outpoint houtpoint later => ?_,
    fun finalTxid first between last hfirst hlast => ?_⟩
  · have hholds : (start.after calls).Holds entry := ⟨entry, hentry, rfl, rfl, rfl, hreserves⟩
    exact (hholds.after hvalid later).imp (fun hafter => hafter.mem_reservedOutpoints houtpoint) id
  · have hpast := (hfirst.pastSigned hvalid).2
    have hbetween := (hvalid.perform first).after between
    rcases hpast.after (hvalid.perform first) between with hkept | hrenewed
    · exact absurd hkept (hlast.pastSigned hbetween).1
    · exact hrenewed

/-- The reservation of coins under an id. -/
def sampleReservation (txid : UInt8) (coins : List UInt8) : PendingCall :=
  .reserveSigned (hexEncode (List.replicate 32 txid))
    ("pulse1" ++ hexEncode (List.replicate 20 171))
    (coins.map fun coin => ⟨⟨hexEncode (List.replicate 32 coin), 0⟩, 100⟩)

/-- Two reservations. The submission of the first has started. -/
def sampleCalls : List PendingCall :=
  [sampleReservation 170 [17], .markSubmissionStarted (hexEncode (List.replicate 32 170)),
    sampleReservation 171 [18, 19]]

/-- A third reservation with a coin of the first fails and changes nothing. -/
theorem pendingJournal_safe_sampleCalls :
    ∃ start, new ⟨"public-testnet", "c"⟩ = .ok start ∧
      (start.after sampleCalls).entries.map (·.state) = [.submissionStarted, .signed] ∧
      (start.after sampleCalls).validate = .ok () ∧
      ((start.after sampleCalls).perform (sampleReservation 172 [20, 17])).2 =
        start.after sampleCalls := by
  have hrun : ((new ⟨"public-testnet", "c"⟩).toOption.map fun start =>
      ((start.after sampleCalls).entries.map (·.state),
        ((start.after sampleCalls).perform (sampleReservation 172 [20, 17])).1.toOption.isNone)) =
      some ([.submissionStarted, .signed], true) := by
    decide +kernel
  obtain ⟨start, hstart, hvalues⟩ := Option.map_eq_some_iff.mp hrun
  obtain ⟨hstates, hfails⟩ := Prod.mk.inj hvalues
  have hnew := eq_ok_of_toOption hstart
  obtain ⟨hvalid, -, hunchanged, -⟩ := pendingJournal_safe hnew sampleCalls
  refine ⟨start, hnew, hstates, hvalid, ?_⟩
  cases hresult : ((start.after sampleCalls).perform (sampleReservation 172 [20, 17])).1 with
  | error error => exact hunchanged _ error hresult
  | ok value =>
    rw [hresult] at hfails
    cases hfails

end WalletPendingJournal

end PulseDag
