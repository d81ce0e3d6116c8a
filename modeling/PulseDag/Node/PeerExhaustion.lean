import PulseDag.Node.BlockRequest

/-!
# When peers are exhausted

A failed search for another peer is taken to mean that every peer has failed. The search looks at
the eligible peers only, and passes over peers at their cap. So exhaustion is real exactly when no
peer without a failure is left out for its hints or its cap.
-/

namespace PulseDag

namespace BlockRequestTracker

section

variable {tracker : BlockRequestTracker} {hash : Hash} {nowUnix : UInt64} {peers : List PeerId}

/-- When a peer is not available. -/
theorem available_eq_false {peer : PeerId} : tracker.available hash peer = false ↔
    tracker.Recorded hash peer ∨ tracker.maxPendingPerPeer ≤ tracker.inflight peer := by
  rw [available, Bool.and_eq_false_iff, decide_eq_false_iff_not, decide_eq_false_iff_not, not_not,
    not_lt]

/-- Round robin visits every position. -/
theorem exists_offset (next : ℕ) {length index : ℕ} (h : index < length) :
    ∃ offset < length, (next + offset) % length = index := by
  refine ⟨(index + (length - next % length)) % length, Nat.mod_lt _ (by omega), ?_⟩
  have hnext := Nat.mod_lt next (show 0 < length by omega)
  rw [Nat.add_mod, Nat.mod_mod, Nat.add_mod_mod, ← Nat.add_assoc, Nat.add_comm (next % length),
    Nat.add_assoc, Nat.add_sub_cancel' hnext.le, Nat.add_mod_right, Nat.mod_eq_of_lt h]

/-- The search fails exactly when no eligible peer is available. -/
theorem selectAvailablePeerForHash_eq_none :
    (tracker.selectAvailablePeerForHash hash peers).1 = none ↔
      ∀ peer ∈ tracker.eligiblePeersForHash hash peers, tracker.available hash peer = false := by
  rw [selectAvailablePeerForHash]
  set eligible := tracker.eligiblePeersForHash hash peers
  set found := (List.range eligible.length).find? fun offset =>
    (eligible[(tracker.nextPeerIndex + offset) % eligible.length]?).any (tracker.available hash)
    with hfound
  cases hcase : found with
  | none =>
    refine iff_of_true rfl fun peer hpeer => ?_
    obtain ⟨index, hindex, rfl⟩ := List.getElem_of_mem hpeer
    obtain ⟨offset, hoffset, hat⟩ := exists_offset tracker.nextPeerIndex hindex
    rw [hcase, eq_comm, List.find?_eq_none] at hfound
    have hnot := hfound offset (List.mem_range.mpr hoffset)
    simpa [hat, List.getElem?_eq_getElem hindex] using hnot
  | some offset =>
    rw [hcase, eq_comm] at hfound
    have hany := List.find?_some hfound
    rw [Option.any_eq_true] at hany
    obtain ⟨peer, hpeer, havailable⟩ := hany
    refine iff_of_false ?_ fun hall => ?_
    · change ¬eligible[(tracker.nextPeerIndex + offset) % eligible.length]? = none
      rw [hpeer]
      exact Option.some_ne_none peer
    · rw [hall peer (List.mem_of_getElem? hpeer)] at havailable
      cases havailable

/-- A selection moves the index only. -/
theorem selectAvailablePeerForHash_frame :
    ∃ index, (tracker.selectAvailablePeerForHash hash peers).2 =
      { tracker with nextPeerIndex := index } := by
  rw [selectAvailablePeerForHash]
  split
  · exact ⟨tracker.nextPeerIndex, rfl⟩
  · exact ⟨_, rfl⟩

/-- A retry reports exhaustion exactly when there is room for a request and every eligible peer has
failed or is at its cap. -/
theorem retryAfterPeerFailure_exhausted_iff (hpeers : peers ≠ []) :
    (tracker.retryAfterPeerFailure hash nowUnix peers).1.allPeersExhausted = true ↔
      tracker.pending.size < tracker.maxPending ∧
        ∀ peer ∈ tracker.eligiblePeersForHash hash peers,
          tracker.Recorded hash peer ∨ tracker.maxPendingPerPeer ≤ tracker.inflight peer := by
  have hsearch := @selectAvailablePeerForHash_eq_none tracker hash peers
  simp only [available_eq_false] at hsearch
  rw [retryAfterPeerFailure, if_neg (by simpa using hpeers)]
  split
  · exact iff_of_false (by simp) fun h => absurd h.1 (by omega)
  · rename_i hroom
    rw [← hsearch]
    dsimp only
    cases (tracker.selectAvailablePeerForHash hash peers).1 with
    | none => simpa using not_le.mp hroom
    | some peer => simp

/-- A retry keeps the recorded failures. -/
theorem retryAfterPeerFailure_recorded (peer : PeerId) :
    (tracker.retryAfterPeerFailure hash nowUnix peers).2.Recorded hash peer ↔
      tracker.Recorded hash peer := by
  obtain ⟨index, hframe⟩ := @selectAvailablePeerForHash_frame tracker hash peers
  rw [retryAfterPeerFailure]
  split
  · exact Iff.rfl
  · split
    · exact Iff.rfl
    · dsimp only
      rw [hframe]
      split
      · exact Iff.rfl
      · dsimp only
        split <;> exact Iff.rfl

end

/-- No peer of the list is left out of a search unless it has failed. -/
def Unobstructed (tracker : BlockRequestTracker) (hash : Hash) (peers : List PeerId) : Prop :=
  ∀ peer ∈ peers, ¬tracker.Recorded hash peer →
    peer ∈ tracker.eligiblePeersForHash hash peers ∧
      tracker.inflight peer < tracker.maxPendingPerPeer

instance (tracker : BlockRequestTracker) (hash : Hash) (peers : List PeerId) :
    Decidable (tracker.Unobstructed hash peers) := by
  unfold Unobstructed
  infer_instance

/-- The operations of the tracker. -/
inductive Op
  | shouldIssueGetblockFromPeer (hash : Hash) (nowUnix : UInt64) (peer : PeerId)
  | promoteGetblockToPeer (hash : Hash) (nowUnix : UInt64) (peer : PeerId)
  | shouldIssueGetblockForPeers (hash : Hash) (nowUnix : UInt64) (peers : List PeerId)
  | noteNotFound (hash : Hash) (nowUnix : UInt64) (peers : List PeerId)
  | retryAfterTimeout (hash : Hash) (nowUnix : UInt64) (peers : List PeerId)
  | notePeerInventory (peer : PeerId) (hashes : List Hash)
  | noteSelectedHeaderAvailability (peer : PeerId) (hashes : List Hash)
  | noteSelectedParentReferences (peer : PeerId) (hashes : List Hash)
  | notePeerSetChanged
  | noteQuiescenceRecoveryWindow (hashes : List Hash)
  | notePeerTipAncestry (peer : PeerId) (selectedTip : Option Hash) (bestHeight : UInt64)
    (ancestry : List Hash)
  | notePeerSyncState (peer : PeerId) (bestHeight : UInt64) (selectedTip : Option Hash)
    (blueScore : UInt64)
  | noteSuccessfulBlockdataResponse (peer : PeerId) (hash : Hash)
  | resolve (hash : Hash)
  | resetBackoff (hash : Hash)
  | drainTimeouts (nowUnix : UInt64)
  | noteHeaders (headers : List BlockHeaderAnnouncement)
  | scheduleHeaderFetches (headers : List BlockHeaderAnnouncement) (knownBlocks : TreeSet Hash)
    (nowUnix : UInt64)
  | unblockAfterResolve (hash : Hash) (knownBlocks : TreeSet Hash) (nowUnix : UInt64)

/-- An operation, with the outcome of those that report one. -/
def Op.apply (tracker : BlockRequestTracker) :
    Op → Option BlockRequestPeerRetryOutcome × BlockRequestTracker
  | .shouldIssueGetblockFromPeer hash nowUnix peer =>
    (none, (tracker.shouldIssueGetblockFromPeer hash nowUnix peer).2)
  | .promoteGetblockToPeer hash nowUnix peer =>
    (none, (tracker.promoteGetblockToPeer hash nowUnix peer).2)
  | .shouldIssueGetblockForPeers hash nowUnix peers =>
    (none, (tracker.shouldIssueGetblockForPeers hash nowUnix peers).2)
  | .noteNotFound hash nowUnix peers =>
    let (outcome, next) := tracker.noteNotFound hash nowUnix peers
    (some outcome, next)
  | .retryAfterTimeout hash nowUnix peers =>
    let (outcome, next) := tracker.retryAfterTimeout hash nowUnix peers
    (some outcome, next)
  | .notePeerInventory peer hashes => (none, tracker.notePeerInventory peer hashes)
  | .noteSelectedHeaderAvailability peer hashes =>
    (none, tracker.noteSelectedHeaderAvailability peer hashes)
  | .noteSelectedParentReferences peer hashes =>
    (none, tracker.noteSelectedParentReferences peer hashes)
  | .notePeerSetChanged => (none, tracker.notePeerSetChanged)
  | .noteQuiescenceRecoveryWindow hashes => (none, tracker.noteQuiescenceRecoveryWindow hashes)
  | .notePeerTipAncestry peer selectedTip bestHeight ancestry =>
    (none, tracker.notePeerTipAncestry peer selectedTip bestHeight ancestry)
  | .notePeerSyncState peer bestHeight selectedTip blueScore =>
    (none, tracker.notePeerSyncState peer bestHeight selectedTip blueScore)
  | .noteSuccessfulBlockdataResponse peer hash =>
    (none, tracker.noteSuccessfulBlockdataResponse peer hash)
  | .resolve hash => (none, tracker.resolve hash)
  | .resetBackoff hash => (none, tracker.resetBackoff hash)
  | .drainTimeouts nowUnix => (none, tracker.drainTimeouts nowUnix)
  | .noteHeaders headers => (none, tracker.noteHeaders headers)
  | .scheduleHeaderFetches headers knownBlocks nowUnix =>
    (none, tracker.scheduleHeaderFetches headers knownBlocks nowUnix)
  | .unblockAfterResolve hash knownBlocks nowUnix =>
    (none, tracker.unblockAfterResolve hash knownBlocks nowUnix)

/-- The calls that can report exhaustion: the hash, the peers, and the tracker in which the search
for another peer is made. -/
def Op.search (tracker : BlockRequestTracker) :
    Op → Option (Hash × List PeerId × BlockRequestTracker)
  | .noteNotFound hash _ peers => some (hash, peers, tracker.recordNotFound hash)
  | .retryAfterTimeout hash _ peers => some (hash, peers, tracker.recordTimeout hash)
  | _ => none

/-- The operations of a run, each with the tracker it was applied to. -/
def trace : BlockRequestTracker → List Op → List (BlockRequestTracker × Op)
  | _, [] => []
  | tracker, op :: rest => (tracker, op) :: trace (op.apply tracker).2 rest

/-- The operation, when it reports exhaustion, has recorded a failure of every peer of the list
exactly when its search was unobstructed. -/
def ExhaustionReal (tracker : BlockRequestTracker) (op : Op) : Prop :=
  ∀ hash peers searched outcome, op.search tracker = some (hash, peers, searched) → peers ≠ [] →
    (op.apply tracker).1 = some outcome → outcome.allPeersExhausted = true →
      ((∀ peer ∈ peers, (op.apply tracker).2.Recorded hash peer) ↔
        searched.Unobstructed hash peers)

/-- When a reported exhaustion is real. -/
theorem retryAfterPeerFailure_real {tracker : BlockRequestTracker} {hash : Hash}
    {nowUnix : UInt64} {peers : List PeerId} (hpeers : peers ≠ [])
    (h : (tracker.retryAfterPeerFailure hash nowUnix peers).1.allPeersExhausted = true) :
    (∀ peer ∈ peers, (tracker.retryAfterPeerFailure hash nowUnix peers).2.Recorded hash peer) ↔
      tracker.Unobstructed hash peers := by
  have hall := ((retryAfterPeerFailure_exhausted_iff hpeers).mp h).2
  simp only [retryAfterPeerFailure_recorded]
  constructor
  · intro hrecorded peer hpeer hnot
    exact absurd (hrecorded peer hpeer) hnot
  · intro hclear peer hpeer
    by_contra hnot
    obtain ⟨heligible, hbelow⟩ := hclear peer hpeer hnot
    rcases hall peer heligible with hrecorded | hcap
    · exact hnot hrecorded
    · omega

/-- The same for every call. -/
theorem exhaustionReal_apply (tracker : BlockRequestTracker) (op : Op) :
    ExhaustionReal tracker op := by
  intro hash peers searched outcome hsearch hpeers houtcome hexhausted
  cases op with
  | noteNotFound hash' nowUnix peers' =>
    obtain ⟨rfl, rfl, rfl⟩ : hash' = hash ∧ peers' = peers ∧ _ = searched := by
      simpa [Op.search] using hsearch
    obtain rfl := Option.some.inj houtcome
    exact retryAfterPeerFailure_real hpeers hexhausted
  | retryAfterTimeout hash' nowUnix peers' =>
    obtain ⟨rfl, rfl, rfl⟩ : hash' = hash ∧ peers' = peers ∧ _ = searched := by
      simpa [Op.search] using hsearch
    obtain rfl := Option.some.inj houtcome
    exact retryAfterPeerFailure_real hpeers hexhausted
  | _ => simp [Op.search] at hsearch

/-- In every run, exhaustion is real exactly where the search was unobstructed. -/
theorem trace_exhaustionReal (timeoutSecs : UInt64) (retryLimit : UInt8)
    (maxPending maxPendingPerPeer : ℕ) (ops : List Op) :
    ∀ event ∈ trace (withLimits timeoutSecs retryLimit maxPending maxPendingPerPeer) ops,
      ExhaustionReal event.1 event.2 := by
  suffices ∀ tracker, ∀ event ∈ trace tracker ops, ExhaustionReal event.1 event.2 from this _
  intro tracker
  induction ops generalizing tracker with
  | nil => simp [trace]
  | cons op rest ih =>
    rintro event (_ | ⟨_, hevent⟩)
    · exact exhaustionReal_apply tracker op
    · exact ih _ event hevent

/-- One peer does not have the block, then the other is asked and does not have it either. -/
theorem trace_exhaustionReal_asked :
    let first := Op.apply (withLimits 8 3 512 128) (.shouldIssueGetblockFromPeer "h" 0 "a")
    let second := Op.apply first.2 (.noteNotFound "h" 1 ["a", "b"])
    let last := Op.apply second.2 (.noteNotFound "h" 2 ["a", "b"])
    second.1 = some ⟨true, some "b", false⟩ ∧ last.1 = some ⟨false, none, true⟩ ∧
      ∀ peer ∈ ["a", "b"], last.2.Recorded "h" peer := by
  intro first second last
  have hretried : second.1 = some ⟨true, some "b", false⟩ := by decide +kernel
  have houtcome : last.1 = some ⟨false, none, true⟩ := by decide +kernel
  have hclear : (second.2.recordNotFound "h").Unobstructed "h" ["a", "b"] := by decide +kernel
  have hevent : (second.2, Op.noteNotFound "h" 2 ["a", "b"]) ∈ trace (withLimits 8 3 512 128)
      [.shouldIssueGetblockFromPeer "h" 0 "a", .noteNotFound "h" 1 ["a", "b"],
        .noteNotFound "h" 2 ["a", "b"]] := .tail _ (.tail _ (.head _))
  clear_value second
  have hreal := trace_exhaustionReal 8 3 512 128 _ _ hevent "h" ["a", "b"] _ _ rfl
    (List.cons_ne_nil _ _) houtcome rfl
  exact ⟨hretried, houtcome, hreal.mpr hclear⟩

/-- A peer has announced the block and does not have it. The other peer of the list, which was never
asked, has no positive score and is not looked at. -/
def hintedRun : List Op :=
  [.notePeerInventory "a" ["h"], .shouldIssueGetblockForPeers "h" 0 ["a", "b"],
    .noteNotFound "h" 1 ["a", "b"]]

/-- A peer does not have the block, and the other peer of the list, which was never asked for it,
is at its cap of one request. -/
def cappedRun : List Op :=
  [.shouldIssueGetblockFromPeer "x" 0 "b", .shouldIssueGetblockFromPeer "h" 0 "a",
    .retryAfterTimeout "h" 9 ["a", "b"]]

/-- The outcome of the last operation of a run, and which peers are recorded for a hash after it. -/
def lastOutcome (tracker : BlockRequestTracker) (ops : List Op) (hash : Hash)
    (peers : List PeerId) : Option (BlockRequestPeerRetryOutcome × List Bool) :=
  (trace tracker ops).getLast?.bind fun event =>
    let (outcome, next) := event.2.apply event.1
    outcome.map fun outcome => (outcome, peers.map fun peer => decide (next.Recorded hash peer))

/-- In both runs all peers are reported as exhausted, and `b` is not recorded. -/
theorem trace_exhaustionReal_unasked :
    lastOutcome (withLimits 8 3 512 128) hintedRun "h" ["a", "b"] =
        some (⟨false, none, true⟩, [true, false]) ∧
      lastOutcome (withLimits 8 3 512 1) cappedRun "h" ["a", "b"] =
        some (⟨false, none, true⟩, [true, false]) := by
  decide +kernel

end BlockRequestTracker

end PulseDag
