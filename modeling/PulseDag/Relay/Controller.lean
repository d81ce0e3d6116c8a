import PulseDag.Ledger.Denomination
import PulseDag.Relay.CompactBlock

/-!
# The compact relay controller

`compact_relay_runtime_v1.rs` and `compact_relay_controller_v1.rs`. The session book knows which
peers speak the protocol and what is in flight to them, and the controller keeps the announcements
that wait for transactions. The two are changed by separate statements, so a call returns its result
together with the state that it leaves behind, also when the result is an error.
-/

namespace PulseDag

/-! ## Capabilities and messages -/

/-- `COMPACT_RELAY_TRANSPORT_MAX_BYTES_V1`. -/
def compactRelayTransportMaxBytesV1 : ℕ := 60 * 1024

/-- `CompactRelayCapabilitiesV1`. -/
structure CompactRelayCapabilitiesV1 where
  contractVersion : UInt16
  chainId : String
  maxAnnouncementTxids : UInt16
  maxRequestTxids : UInt16
  maxCarrierBytes : UInt32
  deriving DecidableEq, Repr

/-- `CompactRelayCapabilitiesV1::canonical`. -/
def CompactRelayCapabilitiesV1.canonical (chainId : String) : CompactRelayCapabilitiesV1 where
  contractVersion := compactDagRelayVersionV1
  chainId := chainId
  maxAnnouncementTxids := UInt16.ofNat p2pWireMaxInventoryItemsV1
  maxRequestTxids := UInt16.ofNat p2pWireMaxRequestItemsV1
  maxCarrierBytes := UInt32.ofNat compactRelayTransportMaxBytesV1

/-- The errors of `CompactRelayCarrierErrorV1` about capabilities. -/
inductive CompactRelayCarrierErrorV1
  | unsupportedVersion (version : UInt16)
  | chainIdMismatch (expected observed : String)
  | capabilityBoundsMismatch
  deriving DecidableEq, Repr

/-- `CompactRelayCapabilitiesV1::validate_for_chain`. -/
def CompactRelayCapabilitiesV1.validateForChain (capabilities : CompactRelayCapabilitiesV1)
    (expectedChainId : String) : Except CompactRelayCarrierErrorV1 Unit := do
  let expected := canonical expectedChainId
  ensure (capabilities.contractVersion = compactDagRelayVersionV1)
    (.unsupportedVersion capabilities.contractVersion)
  ensure (capabilities.chainId = expectedChainId)
    (.chainIdMismatch expectedChainId capabilities.chainId)
  ensure (capabilities.maxAnnouncementTxids = expected.maxAnnouncementTxids ∧
    capabilities.maxRequestTxids = expected.maxRequestTxids ∧
    capabilities.maxCarrierBytes = expected.maxCarrierBytes) .capabilityBoundsMismatch

/-- `CompactRelayWireV1`. -/
inductive CompactRelayWireV1
  | capabilityProbe
  | capabilities (capabilities : CompactRelayCapabilitiesV1)
  | announce (announcement : CompactBlockAnnouncementV1)
  | getTransactions (request : CompactTransactionRequestV1)
  | transactions (response : CompactTransactionResponseV1)

/-! ## The session book -/

/-- A peer and the hash of a block. -/
structure RelayKey where
  peerId : String
  blockHash : Hash
  deriving DecidableEq, Repr

/-- The order of pairs: by peer, then by hash. -/
instance : Ord RelayKey where
  compare := compareLex (compareOn RelayKey.peerId) (compareOn RelayKey.blockHash)

instance : Std.TransOrd RelayKey :=
  inferInstanceAs (Std.TransCmp (compareLex (compareOn RelayKey.peerId)
    (compareOn RelayKey.blockHash)))

instance : Std.LawfulEqOrd RelayKey where
  eq_of_compare {a b} h := by
    have h' : compareLex (compareOn RelayKey.peerId) (compareOn RelayKey.blockHash) a b = .eq := h
    simp only [compareLex, compareOn, Ordering.then_eq_eq, Std.compare_eq_iff_eq] at h'
    cases a
    cases b
    simp_all

/-- `COMPACT_RELAY_MAX_INFLIGHT_PER_PEER_V1`. -/
def compactRelayMaxInflightPerPeerV1 : ℕ := 64

/-- `COMPACT_RELAY_MAX_RETAINED_BYTES_PER_PEER_V1`. -/
def compactRelayMaxRetainedBytesPerPeerV1 : UInt64 := 48 * 1024 * 1024

/-- `COMPACT_RELAY_MAX_RETAINED_BYTES_GLOBAL_V1`. -/
def compactRelayMaxRetainedBytesGlobalV1 : UInt64 := 192 * 1024 * 1024

/-- `MEMPOOL_RESOURCE_MAX_TRANSACTION_BYTES_V1`. -/
def relayMaxTransactionBytes : UInt64 := 64 * 1024

/-- `CompactRelayRuntimeSessionErrorV1`, with the variants of the calls below. -/
inductive CompactRelayRuntimeSessionErrorV1
  | carrier (error : CompactRelayCarrierErrorV1)
  | compact (error : CompactRelayErrorV1)
  | localCapabilitiesMissing
  | localCapabilitySurfaceMismatch
  | peerCapabilitySessionMissing (peerId : String)
  | emptyPeerId
  | inFlightLimitExceeded (peerId : String) (maximum : ℕ)
  | inFlightRetainedBytesPerPeerLimitExceeded (peerId : String) (observed maximum : UInt64)
  | inFlightRetainedBytesGlobalLimitExceeded (observed maximum : UInt64)
  | inFlightAlreadyExists (peerId : String) (blockHash : Hash)
  | inFlightMissing (peerId : String) (blockHash : Hash)

/-- The result of a call of the session book. -/
abbrev SessionResult : Type → Type := Except CompactRelayRuntimeSessionErrorV1

/-- `require_peer_id`. -/
def requirePeerId (peerId : String) : SessionResult Unit :=
  ensure (trim peerId.toList ≠ []) .emptyPeerId

/-- `CompactRelayRuntimeSessionBookV1`. -/
structure CompactRelayRuntimeSessionBookV1 where
  localCapabilities : Option CompactRelayCapabilitiesV1 := none
  remoteCapabilities : TreeMap String CompactRelayCapabilitiesV1 := ∅
  inFlight : TreeMap RelayKey CompactBlockReconstructionRequestStateV1 := ∅

/-- A `usize` as a `u64`. -/
def saturatingLen (value : ℕ) : UInt64 := (u64TryFrom value).getD (UInt64.ofNat (2 ^ 64 - 1))

/-- `retained_state_upper_bound_bytes`. -/
def retainedStateUpperBoundBytes (state : CompactBlockReconstructionRequestStateV1) : UInt64 :=
  saturatingAdd
    (saturatingMul (saturatingLen state.knownTransactions.size) relayMaxTransactionBytes)
    (saturatingMul (saturatingLen compactRelayTransportMaxBytesV1) 2)

/-- Some of the states in flight, with their keys. -/
abbrev InFlightEntries : Type := List (RelayKey × CompactBlockReconstructionRequestStateV1)

/-- The bytes that some of the states in flight retain. -/
def retainedBytes (states : InFlightEntries) : UInt64 :=
  states.foldl (fun total entry => saturatingAdd total (retainedStateUpperBoundBytes entry.2)) 0

namespace CompactRelayRuntimeSessionBookV1

variable (book : CompactRelayRuntimeSessionBookV1)

/-- `configure_local`, which replaces every field. -/
def configureLocal (expectedChainId : String) (capabilities : CompactRelayCapabilitiesV1) :
    SessionResult CompactRelayRuntimeSessionBookV1 := do
  Except.mapError .carrier (capabilities.validateForChain expectedChainId)
  pure { localCapabilities := some capabilities, remoteCapabilities := ∅, inFlight := ∅ }

/-- `peer_session_authorized`. -/
def peerSessionAuthorized (peerId : String) : Bool :=
  book.localCapabilities.isSome && peerId ∈ book.remoteCapabilities

/-- `peer_disconnected`. -/
def peerDisconnected (peerId : String) : CompactRelayRuntimeSessionBookV1 :=
  { book with
    remoteCapabilities := book.remoteCapabilities.erase peerId
    inFlight := book.inFlight.filter fun key _ => key.peerId ≠ peerId }

/-- `note_inbound`. -/
def noteInbound (peerId : String) (wire : CompactRelayWireV1) :
    SessionResult CompactRelayRuntimeSessionBookV1 := do
  requirePeerId peerId
  let own ← okOr book.localCapabilities .localCapabilitiesMissing
  match wire with
  | .capabilityProbe => pure book
  | .capabilities remote => do
    Except.mapError .carrier (remote.validateForChain own.chainId)
    ensure (remote = own) .localCapabilitySurfaceMismatch
    pure { book with remoteCapabilities := book.remoteCapabilities.insert peerId remote }
  | _ => do
    ensure (book.peerSessionAuthorized peerId = true) (.peerCapabilitySessionMissing peerId)
    pure book

/-- The states in flight to a peer. -/
def inFlightTo (peerId : String) : InFlightEntries :=
  book.inFlight.toList.filter fun entry => entry.1.peerId = peerId

/-- `register_in_flight`. -/
def registerInFlight (peerId : String) (state : CompactBlockReconstructionRequestStateV1) :
    SessionResult CompactRelayRuntimeSessionBookV1 := do
  requirePeerId peerId
  ensure (book.peerSessionAuthorized peerId = true) (.peerCapabilitySessionMissing peerId)
  let key : RelayKey := ⟨peerId, state.request.blockHash⟩
  ensure (key ∉ book.inFlight) (.inFlightAlreadyExists peerId key.blockHash)
  ensure ((book.inFlightTo peerId).length < compactRelayMaxInflightPerPeerV1)
    (.inFlightLimitExceeded peerId compactRelayMaxInflightPerPeerV1)
  let candidateBytes := retainedStateUpperBoundBytes state
  let peerRetained := saturatingAdd (retainedBytes (book.inFlightTo peerId)) candidateBytes
  ensure (peerRetained ≤ compactRelayMaxRetainedBytesPerPeerV1)
    (.inFlightRetainedBytesPerPeerLimitExceeded peerId peerRetained
      compactRelayMaxRetainedBytesPerPeerV1)
  let globalRetained := saturatingAdd (retainedBytes book.inFlight.toList) candidateBytes
  ensure (globalRetained ≤ compactRelayMaxRetainedBytesGlobalV1)
    (.inFlightRetainedBytesGlobalLimitExceeded globalRetained compactRelayMaxRetainedBytesGlobalV1)
  pure { book with inFlight := book.inFlight.insert key state }

/-- `abandon_in_flight`, whose result is whether the key was in flight. -/
def abandonInFlight (key : RelayKey) : CompactRelayRuntimeSessionBookV1 :=
  { book with inFlight := book.inFlight.erase key }

/-- `abandon_block`, whose result is the number of keys that were in flight. -/
def abandonBlock (blockHash : Hash) : CompactRelayRuntimeSessionBookV1 :=
  { book with inFlight := book.inFlight.filter fun key _ => key.blockHash ≠ blockHash }

/-- `complete_in_flight`. -/
def completeInFlight [Crypto] (clock again : Clock) (peerId : String)
    (announcement : CompactBlockAnnouncementV1) (response : CompactTransactionResponseV1) :
    SessionResult (CompactBlockReconstructionPlanV1 × CompactRelayRuntimeSessionBookV1) := do
  requirePeerId peerId
  let key : RelayKey := ⟨peerId, announcement.blockHash⟩
  let state ← okOr book.inFlight[key]? (.inFlightMissing peerId announcement.blockHash)
  let own ← okOr book.localCapabilities .localCapabilitiesMissing
  let completed ← Except.mapError .compact
    (completeCompactBlockReconstruction clock again announcement state response (some own.chainId))
  pure (completed, book.abandonInFlight key)

end CompactRelayRuntimeSessionBookV1

/-! ## The controller -/

/-- `CompactRelayControllerActionV1`. -/
inductive CompactRelayControllerActionV1
  | send (peerId : String) (wire : CompactRelayWireV1)
  | reconstructedBlockReady (peerId : String) (block : Block)
  | requestFullBlock (peerId : String) (blockHash : Hash)
  | serveFullBlock (peerId : String) (blockHash : Hash)

/-- `CompactRelayControllerErrorV1`. -/
inductive CompactRelayControllerErrorV1
  | runtime (error : CompactRelayRuntimeSessionErrorV1)
  | compact (error : CompactRelayErrorV1)
  | pendingAnnouncementMissing (peerId : String) (blockHash : Hash)

/-- `RECENT_FULL_BLOCK_RESOLUTION_LIMIT` and `RECENT_TIMED_OUT_REQUEST_LIMIT`. -/
def recentLimit : ℕ := 256

/-- `CompactRelayControllerV1` without its telemetry. -/
structure CompactRelayControllerV1 where
  pendingAnnouncements : TreeMap RelayKey CompactBlockAnnouncementV1 := ∅
  pendingStartedAt : TreeMap RelayKey ℕ := ∅
  recentlyResolvedByFullBlock : List Hash := []
  recentlyTimedOutRequests : List RelayKey := []

/-- Move an item to the end of a list and keep the last ones up to the limit. -/
def noteRecent {α : Type} [DecidableEq α] (item : α) (recent : List α) : List α :=
  let recent := recent.filter (· ≠ item) ++ [item]
  recent.drop (recent.length - recentLimit)

/-- `CompactRelayDaemonRuntimeV1`: a controller and the session book it works on. -/
structure CompactRelayDaemonRuntimeV1 where
  controller : CompactRelayControllerV1 := {}
  sessions : CompactRelayRuntimeSessionBookV1

/-- What a call reads from its surroundings: the clock, once or twice, the monotone time and the
length of a serialized response. -/
structure RelayEnvironment where
  clock : Clock
  again : Clock
  instant : ℕ
  encodedLength : CompactTransactionResponseV1 → ℕ

/-- The result of a call. -/
abbrev RelayResult : Type := Except CompactRelayControllerErrorV1
    (List CompactRelayControllerActionV1)

/-- The result of a call and the state it leaves behind. -/
abbrev RelayOutcome : Type := RelayResult × CompactRelayDaemonRuntimeV1

namespace CompactRelayDaemonRuntimeV1

/-- `new`. -/
def new (chainId : String) : SessionResult CompactRelayDaemonRuntimeV1 := do
  let sessions ← CompactRelayRuntimeSessionBookV1.configureLocal chainId (.canonical chainId)
  pure { sessions }

variable (runtime : CompactRelayDaemonRuntimeV1)

/-- Take a key out of the announcements that wait, and their times. -/
def removePending (key : RelayKey) : CompactRelayDaemonRuntimeV1 :=
  { runtime with controller := { runtime.controller with
    pendingAnnouncements := runtime.controller.pendingAnnouncements.erase key
    pendingStartedAt := runtime.controller.pendingStartedAt.erase key } }

/-- Take a key out of the controller and of the session book. -/
def drop (key : RelayKey) : CompactRelayDaemonRuntimeV1 :=
  { runtime.removePending key with sessions := runtime.sessions.abandonInFlight key }

/-- The key is waiting or in flight. -/
def tracks (key : RelayKey) : Bool :=
  key ∈ runtime.controller.pendingAnnouncements || key ∈ runtime.sessions.inFlight

/-- One round of the loop of `expire_stale_pending`. -/
def expire (progress : CompactRelayDaemonRuntimeV1 × List CompactRelayControllerActionV1)
    (key : RelayKey) : CompactRelayDaemonRuntimeV1 × List CompactRelayControllerActionV1 :=
  let dropped := progress.1.drop key
  if progress.1.tracks key then
    ({ dropped with controller := { dropped.controller with
        recentlyTimedOutRequests := noteRecent key dropped.controller.recentlyTimedOutRequests } },
      progress.2 ++ [.requestFullBlock key.peerId key.blockHash])
  else (dropped, progress.2)

/-- `expire_stale_pending`. -/
def expireStalePending (instant timeout : ℕ) : RelayOutcome :=
  let expired := (runtime.controller.pendingStartedAt.toList.filter fun entry =>
    timeout ≤ instant - entry.2).map Prod.fst
  let progress := expired.foldl expire (runtime, [])
  (.ok progress.2, progress.1)

/-- `peer_disconnected`. -/
def peerDisconnected (peerId : String) : CompactRelayDaemonRuntimeV1 :=
  { controller := { runtime.controller with
      pendingAnnouncements :=
        runtime.controller.pendingAnnouncements.filter fun key _ => key.peerId ≠ peerId
      pendingStartedAt := runtime.controller.pendingStartedAt.filter fun key _ =>
        key.peerId ≠ peerId
      recentlyTimedOutRequests :=
        runtime.controller.recentlyTimedOutRequests.filter fun key => key.peerId ≠ peerId }
    sessions := runtime.sessions.peerDisconnected peerId }

/-- `observe_full_block`, whose result is whether a key with the hash was waiting or in flight. -/
def observeFullBlock (blockHash : Hash) : CompactRelayDaemonRuntimeV1 :=
  let pending := runtime.controller.pendingAnnouncements.filter fun key _ =>
    key.blockHash ≠ blockHash
  let sessions := runtime.sessions.abandonBlock blockHash
  let resolved := pending.size ≠ runtime.controller.pendingAnnouncements.size ∨
    0 < runtime.sessions.inFlight.size - sessions.inFlight.size
  { controller :=
      { pendingAnnouncements := pending
        pendingStartedAt :=
          runtime.controller.pendingStartedAt.filter fun key _ => key.blockHash ≠ blockHash
        recentlyTimedOutRequests :=
          runtime.controller.recentlyTimedOutRequests.filter fun key => key.blockHash ≠ blockHash
        recentlyResolvedByFullBlock :=
          if resolved then noteRecent blockHash runtime.controller.recentlyResolvedByFullBlock
          else runtime.controller.recentlyResolvedByFullBlock }
    sessions := sessions }

/-- `handle_send_failure`. -/
def handleSendFailure (peerId : String) : CompactRelayWireV1 → RelayOutcome
  | .getTransactions request =>
    let key : RelayKey := ⟨peerId, request.blockHash⟩
    (.ok (if runtime.tracks key then [.requestFullBlock peerId request.blockHash] else []),
      runtime.drop key)
  | .transactions response => (.ok [.serveFullBlock peerId response.blockHash], runtime)
  | _ => (.ok [], runtime)

variable [Crypto]

/-- `handle_wire` on a plan for an announcement. -/
def followPlan (environment : RelayEnvironment) (peerId : String)
    (announcement : CompactBlockAnnouncementV1) : CompactBlockReconstructionPlanV1 → RelayOutcome
  | .complete block =>
    (.ok [.reconstructedBlockReady peerId block], runtime.drop ⟨peerId, announcement.blockHash⟩)
  | .requestTransactions request =>
    match runtime.sessions.registerInFlight peerId request with
    | .error error => (.error (.runtime error), runtime)
    | .ok sessions =>
      let key : RelayKey := ⟨peerId, announcement.blockHash⟩
      (.ok [.send peerId (.getTransactions request.request)],
        { controller := { runtime.controller with
            pendingAnnouncements := runtime.controller.pendingAnnouncements.insert key announcement
            pendingStartedAt := runtime.controller.pendingStartedAt.insert key environment.instant }
          sessions := sessions })
  | .fullBlockFallback blockHash _ =>
    (.ok [.requestFullBlock peerId blockHash], runtime.drop ⟨peerId, blockHash⟩)

/-- `handle_wire` on an announcement. -/
def handleAnnounce (environment : RelayEnvironment) (peerId : String)
    (announcement : CompactBlockAnnouncementV1) (known : TreeMap Hash Transaction) : RelayOutcome :=
  if ⟨peerId, announcement.blockHash⟩ ∈ runtime.controller.recentlyTimedOutRequests then
    (.ok [.requestFullBlock peerId announcement.blockHash], runtime)
  else
    match runtime.sessions.localCapabilities with
    | none => (.error (.runtime .localCapabilitiesMissing), runtime)
    | some own =>
      match planCompactBlockReconstruction environment.clock announcement known
        (some own.chainId) with
      | .error error => (.error (.compact error), runtime)
      | .ok plan => runtime.followPlan environment peerId announcement plan

/-- `handle_wire` on the plan after a response. The key is no longer in flight. -/
def followCompletion (environment : RelayEnvironment) (key : RelayKey) :
    CompactBlockReconstructionPlanV1 → RelayOutcome
  | .complete block => (.ok [.reconstructedBlockReady key.peerId block], runtime.removePending key)
  | .requestTransactions request =>
    match runtime.sessions.registerInFlight key.peerId request with
    | .error error => (.error (.runtime error), runtime)
    | .ok sessions =>
      (.ok [.send key.peerId (.getTransactions request.request)],
        { controller := { runtime.controller with
            pendingStartedAt := runtime.controller.pendingStartedAt.insert key environment.instant }
          sessions := sessions })
  | .fullBlockFallback blockHash _ =>
    (.ok [.requestFullBlock key.peerId blockHash], runtime.removePending key)

/-- `handle_wire` on a response. -/
def handleResponse (environment : RelayEnvironment) (peerId : String)
    (response : CompactTransactionResponseV1) : RelayOutcome :=
  let key : RelayKey := ⟨peerId, response.blockHash⟩
  match runtime.controller.pendingAnnouncements[key]? with
  | none =>
    if response.blockHash ∈ runtime.controller.recentlyResolvedByFullBlock ∨
        key ∈ runtime.controller.recentlyTimedOutRequests then (.ok [], runtime)
    else (.error (.pendingAnnouncementMissing peerId response.blockHash), runtime)
  | some announcement =>
    match runtime.sessions.completeInFlight environment.clock environment.again peerId announcement
      response with
    | .error error => (.error (.runtime error), runtime)
    | .ok (plan, sessions) =>
      followCompletion { runtime with sessions } environment key plan

omit [Crypto] in
/-- `handle_wire` on a request. -/
def handleRequest (environment : RelayEnvironment) (peerId : String)
    (request : CompactTransactionRequestV1) (known : TreeMap Hash Transaction) : RelayResult :=
  match buildCompactTransactionResponseV1 environment.encodedLength request known with
  | .error error => .error (.compact error)
  | .ok (some response) => .ok [.send peerId (.transactions response)]
  | .ok none => .ok [.serveFullBlock peerId request.blockHash]

/-- `handle_wire` after `note_inbound`. -/
def handleNoted (environment : RelayEnvironment) (peerId : String)
    (known : TreeMap Hash Transaction) : CompactRelayWireV1 → RelayOutcome
  | .capabilityProbe =>
    match runtime.sessions.localCapabilities with
    | none => (.error (.runtime .localCapabilitiesMissing), runtime)
    | some own => (.ok [.send peerId (.capabilities own)], runtime)
  | .capabilities _ => (.ok [], runtime)
  | .announce announcement => runtime.handleAnnounce environment peerId announcement known
  | .getTransactions request => (handleRequest environment peerId request known, runtime)
  | .transactions response => runtime.handleResponse environment peerId response

/-- `handle_wire`. -/
def handleWire (environment : RelayEnvironment) (peerId : String)
    (wire : CompactRelayWireV1) (known : TreeMap Hash Transaction) : RelayOutcome :=
  match runtime.sessions.noteInbound peerId wire with
  | .error error => (.error (.runtime error), runtime)
  | .ok sessions => handleNoted { runtime with sessions } environment peerId known wire

/-- `handle_inbound_with_retained_block`, with the transactions that the node knows for the message.
Capabilities start the session of a peer afresh. -/
def handleInboundWithRetainedBlock (environment : RelayEnvironment) (peerId : String)
    (wire : CompactRelayWireV1) (known : TreeMap Hash Transaction) : RelayOutcome :=
  match wire with
  | .capabilities _ => (runtime.peerDisconnected peerId).handleWire environment peerId wire known
  | _ => runtime.handleWire environment peerId wire known

end CompactRelayDaemonRuntimeV1

end PulseDag
