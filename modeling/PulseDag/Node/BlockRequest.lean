import PulseDag.Core.Types
import PulseDag.Lib.Collections
import PulseDag.Lib.Words

/-!
# Block requests

`block_request.rs` of the node. The tracker remembers which blocks have been asked for and from
whom, which peers failed for which block, and what peers have said about their blocks. Left out are
the counters and the records that are only reported. Hash maps and hash sets are ordered here; the
only function that takes an order from one is `unblockAfterResolve`.
-/

namespace PulseDag

/-- The id of a peer. -/
abbrev PeerId := String

/-- `DEFAULT_BLOCK_REQUEST_BACKOFF_SECS`. -/
def defaultBlockRequestBackoffSecs : UInt64 := 8

/-- `MAX_BLOCK_REQUEST_BACKOFF_SECS`. -/
def maxBlockRequestBackoffSecs : UInt64 := 120

/-- `saturating_add(1)` on a `u8`. -/
def saturatingSuccU8 (a : UInt8) : UInt8 := if a = 255 then 255 else a + 1

/-- `PeerMissingParentHints`. -/
structure PeerMissingParentHints where
  inventory : TreeSet Hash := ∅
  tipAncestry : TreeSet Hash := ∅
  selectedTip : Option Hash := none
  bestHeight : Option UInt64 := none
  blueScore : Option UInt64 := none
  successfulBlockdataResponses : UInt64 := 0
  notFoundResponses : UInt64 := 0

/-- `PendingBlockRequest`. -/
structure PendingBlockRequest where
  firstRequestedAtUnix : UInt64
  lastRequestedAtUnix : UInt64
  retryCount : UInt8
  peer : Option PeerId
  deriving DecidableEq, Repr

/-- A request that is sent once more. -/
def PendingBlockRequest.again (request : PendingBlockRequest) (nowUnix : UInt64) :
    PendingBlockRequest :=
  { request with
    retryCount := saturatingSuccU8 request.retryCount, lastRequestedAtUnix := nowUnix }

/-- `RequestBackoff`. -/
structure RequestBackoff where
  retryAfterUnix : UInt64
  failures : UInt8
  deriving DecidableEq, Repr

/-- `BlockHeaderAnnouncement`, with the parents of its header. -/
structure BlockHeaderAnnouncement where
  hash : Hash
  parents : List Hash
  deriving DecidableEq, Repr

/-- `BlockRequestPeerRetryOutcome`. -/
structure BlockRequestPeerRetryOutcome where
  retry : Bool
  peer : Option PeerId
  allPeersExhausted : Bool
  deriving DecidableEq, Repr

/-- `BlockRequestTracker`. -/
structure BlockRequestTracker where
  pending : TreeMap Hash PendingBlockRequest
  timeoutSecs : UInt64
  retryLimit : UInt8
  maxPending : ℕ
  maxPendingPerPeer : ℕ
  knownHeaders : TreeMap Hash BlockHeaderAnnouncement
  deferredByMissingParent : TreeMap Hash (TreeSet Hash)
  backoffByHash : TreeMap Hash RequestBackoff
  notFoundByHash : TreeMap Hash (TreeSet PeerId)
  timedOutByHash : TreeMap Hash (TreeSet PeerId)
  peerHints : TreeMap PeerId PeerMissingParentHints
  exhaustedHashes : TreeSet Hash
  nextPeerIndex : ℕ

namespace BlockRequestTracker

/-- `with_limits`. -/
def withLimits (timeoutSecs : UInt64) (retryLimit : UInt8) (maxPending maxPendingPerPeer : ℕ) :
    BlockRequestTracker where
  pending := ∅
  timeoutSecs := timeoutSecs
  retryLimit := retryLimit
  maxPending := max maxPending 1
  maxPendingPerPeer := max maxPendingPerPeer 1
  knownHeaders := ∅
  deferredByMissingParent := ∅
  backoffByHash := ∅
  notFoundByHash := ∅
  timedOutByHash := ∅
  peerHints := ∅
  exhaustedHashes := ∅
  nextPeerIndex := 0

/-! ## Failures of peers -/

/-- The peers with a failure for a hash. -/
def failedPeers (failures : TreeMap Hash (TreeSet PeerId)) (hash : Hash) : TreeSet PeerId :=
  failures[hash]?.getD ∅

/-- The peer is recorded as not having the block, or as having timed out for it. -/
def Recorded (tracker : BlockRequestTracker) (hash : Hash) (peer : PeerId) : Prop :=
  peer ∈ failedPeers tracker.notFoundByHash hash ∨ peer ∈ failedPeers tracker.timedOutByHash hash

instance (tracker : BlockRequestTracker) (hash : Hash) (peer : PeerId) :
    Decidable (tracker.Recorded hash peer) :=
  inferInstanceAs (Decidable (_ ∨ _))

/-- Record a failure of a peer. -/
def addFailure (failures : TreeMap Hash (TreeSet PeerId)) (hash : Hash) (peer : PeerId) :
    TreeMap Hash (TreeSet PeerId) :=
  failures.insert hash ((failedPeers failures hash).insert peer)

/-- Forget a failure of a peer. -/
def removeFailure (failures : TreeMap Hash (TreeSet PeerId)) (hash : Hash) (peer : PeerId) :
    TreeMap Hash (TreeSet PeerId) :=
  match failures[hash]? with
  | none => failures
  | some failed =>
    if (failed.erase peer).isEmpty then failures.erase hash
    else failures.insert hash (failed.erase peer)

/-- Change the hints of a peer. -/
def updateHints (tracker : BlockRequestTracker) (peer : PeerId)
    (update : PeerMissingParentHints → PeerMissingParentHints) : BlockRequestTracker :=
  { tracker with peerHints :=
      tracker.peerHints.insert peer (update (tracker.peerHints[peer]?.getD {})) }

/-- `reopen_exhausted_hash`. -/
def reopenExhaustedHash (tracker : BlockRequestTracker) (hash : Hash) :
    BlockRequestTracker × Bool :=
  if hash ∈ tracker.exhaustedHashes then
    ({ tracker with
        exhaustedHashes := tracker.exhaustedHashes.erase hash
        backoffByHash := tracker.backoffByHash.erase hash
        notFoundByHash := tracker.notFoundByHash.erase hash
        timedOutByHash := tracker.timedOutByHash.erase hash }, true)
  else (tracker, false)

/-- `resolve`. -/
def resolve (tracker : BlockRequestTracker) (hash : Hash) : BlockRequestTracker :=
  { tracker with
    pending := tracker.pending.erase hash
    backoffByHash := tracker.backoffByHash.erase hash
    notFoundByHash := tracker.notFoundByHash.erase hash
    timedOutByHash := tracker.timedOutByHash.erase hash
    exhaustedHashes := tracker.exhaustedHashes.erase hash }

/-! ## Hints -/

/-- `note_peer_inventory`. -/
def notePeerInventory (tracker : BlockRequestTracker) (peer : PeerId) (hashes : List Hash) :
    BlockRequestTracker :=
  let known := (tracker.peerHints[peer]?.getD {}).inventory
  let changed := (hashes.foldl (fun (acc : TreeSet Hash × List Hash) hash =>
    if hash ∈ acc.1 then acc else (acc.1.insert hash, acc.2 ++ [hash])) (known, [])).2
  let tracker := tracker.updateHints peer fun hints =>
    { hints with inventory := hashes.foldl (fun set hash => set.insert hash) hints.inventory }
  changed.foldl (fun tracker hash => (tracker.reopenExhaustedHash hash).1) tracker

/-- Newer evidence that a peer has a block: the hash is reopened, or the failures of the peer and
the backoff are forgotten. -/
def notePeerAvailability (peer : PeerId) (tracker : BlockRequestTracker) (hash : Hash) :
    BlockRequestTracker :=
  let reopened := tracker.reopenExhaustedHash hash
  if reopened.2 then reopened.1
  else
    { tracker with
      notFoundByHash := removeFailure tracker.notFoundByHash hash peer
      timedOutByHash := removeFailure tracker.timedOutByHash hash peer
      backoffByHash := tracker.backoffByHash.erase hash }

/-- `note_selected_header_availability`. -/
def noteSelectedHeaderAvailability (tracker : BlockRequestTracker) (peer : PeerId)
    (hashes : List Hash) : BlockRequestTracker :=
  if hashes.isEmpty then tracker
  else
    let tracker := tracker.updateHints peer fun hints =>
      { hints with inventory := hashes.foldl (fun set hash => set.insert hash) hints.inventory }
    hashes.foldl (notePeerAvailability peer) tracker

/-- `note_selected_parent_references`. -/
def noteSelectedParentReferences (tracker : BlockRequestTracker) (peer : PeerId)
    (hashes : List Hash) : BlockRequestTracker :=
  hashes.foldl (notePeerAvailability peer) tracker

/-- `note_peer_set_changed`. -/
def notePeerSetChanged (tracker : BlockRequestTracker) : BlockRequestTracker :=
  tracker.exhaustedHashes.toList.foldl
    (fun tracker hash => (tracker.reopenExhaustedHash hash).1) tracker

/-- `note_quiescence_recovery_window`. -/
def noteQuiescenceRecoveryWindow (tracker : BlockRequestTracker) (hashes : List Hash) :
    BlockRequestTracker :=
  hashes.foldl (fun tracker hash => (tracker.reopenExhaustedHash hash).1) tracker

/-- `note_peer_tip_ancestry`. -/
def notePeerTipAncestry (tracker : BlockRequestTracker) (peer : PeerId)
    (selectedTip : Option Hash) (bestHeight : UInt64) (ancestry : List Hash) :
    BlockRequestTracker :=
  let known := (tracker.peerHints[peer]?.getD {}).tipAncestry
  let extended := ancestry.foldl (fun set hash => set.insert hash) known
  let tracker := tracker.updateHints peer fun hints =>
    { hints with
      selectedTip := selectedTip, bestHeight := some bestHeight, tipAncestry := extended }
  extended.toList.foldl (fun tracker hash => (tracker.reopenExhaustedHash hash).1) tracker

/-- `note_peer_sync_state`. -/
def notePeerSyncState (tracker : BlockRequestTracker) (peer : PeerId) (bestHeight : UInt64)
    (selectedTip : Option Hash) (blueScore : UInt64) : BlockRequestTracker :=
  let oldTip := (tracker.peerHints[peer]?.getD {}).selectedTip
  let tracker := tracker.updateHints peer fun hints =>
    { hints with
      bestHeight := some bestHeight, selectedTip := selectedTip, blueScore := some blueScore }
  if oldTip = selectedTip then tracker
  else
    match selectedTip with
    | some tip => (tracker.reopenExhaustedHash tip).1
    | none => tracker

/-- `note_successful_blockdata_response`. -/
def noteSuccessfulBlockdataResponse (tracker : BlockRequestTracker) (peer : PeerId) (hash : Hash) :
    BlockRequestTracker :=
  let tracker := tracker.updateHints peer fun hints =>
    { hints with
      successfulBlockdataResponses := saturatingAdd hints.successfulBlockdataResponses 1
      inventory := hints.inventory.insert hash }
  tracker.resolve hash

/-! ## Choosing a peer -/

/-- The cast `as i64`. -/
def asI64 (value : UInt64) : ℤ :=
  if value.toNat < 2 ^ 63 then value.toNat else (value.toNat : ℤ) - 2 ^ 64

/-- The score of a peer for a hash, in exact integers. The source computes in `i64`, where the
product overflows only after more than `2 ^ 60` answers. -/
def peerScore (tracker : BlockRequestTracker) (hash : Hash) (peer : PeerId) : ℤ :=
  match tracker.peerHints[peer]? with
  | none => 0
  | some hints =>
    (if hash ∈ hints.inventory then 100 else 0) + (if hash ∈ hints.tipAncestry then 80 else 0) +
      (if 0 < hints.bestHeight.getD 0 then 10 else 0) + min (asI64 (hints.blueScore.getD 0)) 20 +
      min (asI64 hints.successfulBlockdataResponses) 20 -
      min (asI64 hints.notFoundResponses * 5) 40

/-- `eligible_peers_for_hash`: when some peer has a positive score, only those that have one. -/
def eligiblePeersForHash (tracker : BlockRequestTracker) (hash : Hash) (peers : List PeerId) :
    List PeerId :=
  let scored := peers.map fun peer => (peer, tracker.peerScore hash peer)
  let kept := if scored.any fun entry => 0 < entry.2 then scored.filter fun entry => 0 < entry.2
    else scored
  (kept.insertionSort fun a b => b.2 < a.2 ∨ (a.2 = b.2 ∧ a.1 ≤ b.1)).map Prod.fst

/-- The number of requests that a peer has not answered. -/
def inflight (tracker : BlockRequestTracker) (peer : PeerId) : ℕ :=
  (tracker.pending.toList.filter fun entry => entry.2.peer = some peer).length

/-- The peer has no failure for the hash and is below its cap. -/
def available (tracker : BlockRequestTracker) (hash : Hash) (peer : PeerId) : Bool :=
  decide (¬tracker.Recorded hash peer) && decide (tracker.inflight peer < tracker.maxPendingPerPeer)

/-- `select_available_peer_for_hash`: the first available peer, round robin. -/
def selectAvailablePeerForHash (tracker : BlockRequestTracker) (hash : Hash) (peers : List PeerId) :
    Option PeerId × BlockRequestTracker :=
  let peers := tracker.eligiblePeersForHash hash peers
  let at_ := fun offset => (tracker.nextPeerIndex + offset) % peers.length
  match (List.range peers.length).find? fun offset =>
      (peers[at_ offset]?).any (tracker.available hash) with
  | none => (none, tracker)
  | some offset =>
    (peers[at_ offset]?, { tracker with nextPeerIndex := (at_ offset + 1) % peers.length })

/-! ## Requests -/

/-- `retry_backoff_secs`. The source panics on a timeout above the maximal backoff. -/
def retryBackoffSecs (timeoutSecs : UInt64) (retryCount : UInt8) : UInt64 :=
  let backoff := saturatingMul timeoutSecs (UInt64.ofNat (2 ^ min retryCount.toNat 6))
  if backoff < max timeoutSecs 1 then max timeoutSecs 1
  else if maxBlockRequestBackoffSecs < backoff then maxBlockRequestBackoffSecs
  else backoff

/-- `is_backing_off`: a backoff that is over is removed. -/
def isBackingOff (tracker : BlockRequestTracker) (hash : Hash) (nowUnix : UInt64) :
    Bool × BlockRequestTracker :=
  match tracker.backoffByHash[hash]? with
  | some backoff =>
    if nowUnix < backoff.retryAfterUnix then (true, tracker)
    else (false, { tracker with backoffByHash := tracker.backoffByHash.erase hash })
  | none => (false, tracker)

/-- `note_request_dropped`. -/
def noteRequestDropped (tracker : BlockRequestTracker) (hash : Hash) (nowUnix : UInt64) :
    BlockRequestTracker :=
  let failures := match tracker.backoffByHash[hash]? with
    | some backoff => saturatingSuccU8 backoff.failures
    | none => 1
  let delay := min (saturatingMul defaultBlockRequestBackoffSecs
    (UInt64.ofNat (2 ^ min failures.toNat 6))) maxBlockRequestBackoffSecs
  { tracker with backoffByHash :=
      tracker.backoffByHash.insert hash ⟨saturatingAdd nowUnix delay, failures⟩ }

/-- A request for a hash is put in flight. -/
def startRequest (tracker : BlockRequestTracker) (hash : Hash) (request : PendingBlockRequest) :
    BlockRequestTracker :=
  { tracker with
    pending := tracker.pending.insert hash request
    backoffByHash := tracker.backoffByHash.erase hash }

/-- `should_issue_getblock_from_peer`. -/
def shouldIssueGetblockFromPeer (tracker : BlockRequestTracker) (hash : Hash) (nowUnix : UInt64)
    (peer : PeerId) : Bool × BlockRequestTracker :=
  if hash ∈ tracker.exhaustedHashes then (false, tracker)
  else
    let (backingOff, tracker) := tracker.isBackingOff hash nowUnix
    if backingOff then (false, tracker)
    else if hash ∈ tracker.pending ∨ tracker.maxPending ≤ tracker.pending.size then (false, tracker)
    else if tracker.Recorded hash peer then (false, tracker)
    else if tracker.maxPendingPerPeer ≤ tracker.inflight peer then (false, tracker)
    else (true, tracker.startRequest hash ⟨nowUnix, nowUnix, 0, some peer⟩)

/-- `promote_getblock_to_peer`. -/
def promoteGetblockToPeer (tracker : BlockRequestTracker) (hash : Hash) (nowUnix : UInt64)
    (peer : PeerId) : Bool × BlockRequestTracker :=
  if hash ∈ tracker.exhaustedHashes then (false, tracker)
  else
    let (backingOff, tracker) := tracker.isBackingOff hash nowUnix
    if backingOff then (false, tracker)
    else if tracker.Recorded hash peer then (false, tracker)
    else
      let previous := tracker.pending[hash]?
      let freed := { tracker with pending := tracker.pending.erase hash }
      if freed.maxPending ≤ freed.pending.size ∨ freed.maxPendingPerPeer ≤ freed.inflight peer then
        (false, tracker)
      else
        (true, freed.startRequest hash
          { firstRequestedAtUnix :=
              (previous.map PendingBlockRequest.firstRequestedAtUnix).getD nowUnix
            lastRequestedAtUnix := nowUnix
            retryCount := (previous.map PendingBlockRequest.retryCount).getD 0
            peer := some peer })

/-- `should_issue_getblock_for_peers`. -/
def shouldIssueGetblockForPeers (tracker : BlockRequestTracker) (hash : Hash) (nowUnix : UInt64)
    (peers : List PeerId) : Bool × BlockRequestTracker :=
  if hash ∈ tracker.exhaustedHashes then (false, tracker)
  else
    let (backingOff, tracker) := tracker.isBackingOff hash nowUnix
    if backingOff then (false, tracker)
    else
      match tracker.pending[hash]? with
      | some request =>
        if saturatingSub nowUnix request.lastRequestedAtUnix <
            retryBackoffSecs tracker.timeoutSecs request.retryCount then (false, tracker)
        else if tracker.retryLimit ≤ request.retryCount then
          (false, tracker.noteRequestDropped hash nowUnix)
        else
          (true, { tracker with pending := tracker.pending.insert hash (request.again nowUnix) })
      | none =>
        if tracker.maxPending ≤ tracker.pending.size then (false, tracker)
        else
          -- without an available peer the request goes out unassigned
          let (peer, tracker) := tracker.selectAvailablePeerForHash hash peers
          (true, tracker.startRequest hash ⟨nowUnix, nowUnix, 0, peer⟩)

/-- `retry_after_peer_failure`. -/
def retryAfterPeerFailure (tracker : BlockRequestTracker) (hash : Hash) (nowUnix : UInt64)
    (peers : List PeerId) : BlockRequestPeerRetryOutcome × BlockRequestTracker :=
  if peers.isEmpty then (⟨false, none, false⟩, tracker.noteRequestDropped hash nowUnix)
  else if tracker.maxPending ≤ tracker.pending.size then (⟨false, none, false⟩, tracker)
  else
    let (peer, tracker) := tracker.selectAvailablePeerForHash hash peers
    match peer with
    | some peer =>
      (⟨true, some peer, false⟩, tracker.startRequest hash ⟨nowUnix, nowUnix, 0, some peer⟩)
    | none =>
      let exhausted :=
        { tracker with exhaustedHashes := tracker.exhaustedHashes.insert hash }
      (⟨false, none, true⟩, if hash ∈ tracker.exhaustedHashes then exhausted
        else exhausted.noteRequestDropped hash nowUnix)

/-- What `note_not_found` records before it looks for another peer. -/
def recordNotFound (tracker : BlockRequestTracker) (hash : Hash) : BlockRequestTracker :=
  let previousPeer := tracker.pending[hash]?.bind PendingBlockRequest.peer
  let tracker := { tracker with pending := tracker.pending.erase hash }
  match previousPeer with
  | none => tracker
  | some peer =>
    let tracker := tracker.updateHints peer fun hints =>
      { hints with notFoundResponses := saturatingAdd hints.notFoundResponses 1 }
    { tracker with notFoundByHash := addFailure tracker.notFoundByHash hash peer }

/-- `note_not_found`. -/
def noteNotFound (tracker : BlockRequestTracker) (hash : Hash) (nowUnix : UInt64)
    (peers : List PeerId) : BlockRequestPeerRetryOutcome × BlockRequestTracker :=
  (tracker.recordNotFound hash).retryAfterPeerFailure hash nowUnix peers

/-- What `retry_after_timeout` records before it looks for another peer. -/
def recordTimeout (tracker : BlockRequestTracker) (hash : Hash) : BlockRequestTracker :=
  let tracker := match tracker.pending[hash]?.bind PendingBlockRequest.peer with
    | none => tracker
    | some peer => { tracker with timedOutByHash := addFailure tracker.timedOutByHash hash peer }
  { tracker with pending := tracker.pending.erase hash }

/-- `retry_after_timeout`. -/
def retryAfterTimeout (tracker : BlockRequestTracker) (hash : Hash) (nowUnix : UInt64)
    (peers : List PeerId) : BlockRequestPeerRetryOutcome × BlockRequestTracker :=
  (tracker.recordTimeout hash).retryAfterPeerFailure hash nowUnix peers

/-- `reset_backoff`. -/
def resetBackoff (tracker : BlockRequestTracker) (hash : Hash) : BlockRequestTracker :=
  { tracker with backoffByHash := tracker.backoffByHash.erase hash }

/-- The hashes that `collect_timeouts` finds. -/
def collectTimeouts (tracker : BlockRequestTracker) (nowUnix : UInt64) : List Hash :=
  (tracker.pending.toList.filter fun entry =>
    retryBackoffSecs tracker.timeoutSecs entry.2.retryCount ≤
      saturatingSub nowUnix entry.2.lastRequestedAtUnix).map Prod.fst

/-- `drain_timeouts`. -/
def drainTimeouts (tracker : BlockRequestTracker) (nowUnix : UInt64) : BlockRequestTracker :=
  (tracker.collectTimeouts nowUnix).foldl (fun tracker hash =>
    match tracker.pending[hash]? with
    | none => tracker
    | some request =>
      { tracker with pending :=
          if tracker.retryLimit ≤ request.retryCount then tracker.pending.erase hash
          else tracker.pending.insert hash (request.again nowUnix) }) tracker

/-! ## Headers -/

/-- `note_headers`. -/
def noteHeaders (tracker : BlockRequestTracker) (headers : List BlockHeaderAnnouncement) :
    BlockRequestTracker :=
  { tracker with knownHeaders :=
      headers.foldl (fun known header => known.insert header.hash header) tracker.knownHeaders }

/-- `missing_parents`. -/
def missingParents (header : BlockHeaderAnnouncement) (knownBlocks : TreeSet Hash) : List Hash :=
  header.parents.filter (· ∉ knownBlocks)

/-- `remove_deferred_child`. -/
def removeDeferredChild (tracker : BlockRequestTracker) (child : Hash) : BlockRequestTracker :=
  { tracker with deferredByMissingParent :=
      tracker.deferredByMissingParent.filterMap fun _ children =>
        if (children.erase child).isEmpty then none else some (children.erase child) }

/-- `track_deferred_child`. -/
def trackDeferredChild (tracker : BlockRequestTracker) (child : Hash) (parents : List Hash) :
    BlockRequestTracker :=
  let tracker := tracker.removeDeferredChild child
  let deferred := parents.foldl (fun deferred parent =>
    deferred.insert parent ((deferred[parent]?.getD ∅).insert child))
      tracker.deferredByMissingParent
  { tracker with deferredByMissingParent := deferred }

/-- `should_issue_getblock`. -/
def shouldIssueGetblock (tracker : BlockRequestTracker) (hash : Hash) (nowUnix : UInt64) :
    BlockRequestTracker :=
  (tracker.shouldIssueGetblockForPeers hash nowUnix []).2

/-- `schedule_header_fetches`. -/
def scheduleHeaderFetches (tracker : BlockRequestTracker) (headers : List BlockHeaderAnnouncement)
    (knownBlocks : TreeSet Hash) (nowUnix : UInt64) : BlockRequestTracker :=
  headers.foldl (fun tracker header =>
    if header.hash ∈ knownBlocks then tracker
    else if (missingParents header knownBlocks).isEmpty then
      (tracker.removeDeferredChild header.hash).shouldIssueGetblock header.hash nowUnix
    else
      let missing := missingParents header knownBlocks
      missing.foldl (fun tracker parent =>
        if parent ∈ tracker.knownHeaders then tracker
        else tracker.shouldIssueGetblock parent nowUnix)
        (tracker.trackDeferredChild header.hash missing)) (tracker.noteHeaders headers)

/-- `unblock_after_resolve`. -/
def unblockAfterResolve (tracker : BlockRequestTracker) (hash : Hash) (knownBlocks : TreeSet Hash)
    (nowUnix : UInt64) : BlockRequestTracker :=
  let children := (tracker.deferredByMissingParent[hash]?.getD ∅).toList
  let tracker := { tracker with
    deferredByMissingParent := tracker.deferredByMissingParent.erase hash }
  children.foldl (fun tracker child =>
    match tracker.knownHeaders[child]? with
    | none => tracker
    | some header =>
      if (missingParents header knownBlocks).isEmpty then
        (tracker.shouldIssueGetblock child nowUnix).removeDeferredChild child
      else tracker.trackDeferredChild child (missingParents header knownBlocks)) tracker

end BlockRequestTracker

end PulseDag
