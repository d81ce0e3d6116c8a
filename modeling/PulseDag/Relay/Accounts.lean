import PulseDag.Relay.Controller
import PulseDag.Relay.Reconstruction

/-!
# Nothing that waits for transactions is lost

The controller and the session book keep the same keys in three maps, and each call changes them by
separate statements. Over every run of the daemon's runtime the three stay together, within the
limits on what is in flight, and every request for transactions ends in exactly the ways it should:
the block is handed on, the full block is asked for or observed, or the peer is gone
(`compactRelay_accounts`).
-/

namespace PulseDag

open List

/-! ## The bytes that requests retain -/

section

variable {entries others : InFlightEntries}
  {book : CompactRelayRuntimeSessionBookV1}

/-- The sum of the bounds, unless it saturates. -/
theorem retainedBytes_toNat (entries : InFlightEntries) :
    (retainedBytes entries).toNat =
      min (entries.map fun entry => (retainedStateUpperBoundBytes entry.2).toNat).sum
      (2 ^ 64 - 1) := by
  suffices h : ∀ total : UInt64, (entries.foldl (fun total entry =>
      saturatingAdd total (retainedStateUpperBoundBytes entry.2)) total).toNat =
        min (total.toNat + (entries.map fun entry =>
          (retainedStateUpperBoundBytes entry.2).toNat).sum) (2 ^ 64 - 1) by
    rw [retainedBytes, h 0]
    simp
  induction entries with
  | nil =>
    intro total
    have hlt := total.toNat_lt
    rw [foldl_nil, map_nil, sum_nil]
    omega
  | cons entry rest ih =>
    intro total
    rw [foldl_cons, ih, saturatingAdd_toNat, map_cons, sum_cons]
    omega

/-- Fewer entries retain less. -/
theorem retainedBytes_le_of_sublist (h : entries.Sublist others) :
    retainedBytes entries ≤ retainedBytes others := by
  rw [UInt64.le_iff_toNat_le, retainedBytes_toNat, retainedBytes_toNat]
  exact min_le_min_right _ ((h.map _).sum_le_sum fun _ _ => Nat.zero_le _)

/-- The order does not matter. -/
theorem retainedBytes_perm (h : entries.Perm others) :
    retainedBytes entries = retainedBytes others := by
  apply UInt64.toNat_inj.mp
  rw [retainedBytes_toNat, retainedBytes_toNat, (h.map _).sum_eq]

/-- One more entry adds its bound. -/
theorem retainedBytes_cons (entry : RelayKey × CompactBlockReconstructionRequestStateV1)
    (entries : InFlightEntries) :
    retainedBytes (entry :: entries) =
      saturatingAdd (retainedBytes entries) (retainedStateUpperBoundBytes entry.2) := by
  apply UInt64.toNat_inj.mp
  rw [saturatingAdd_toNat, retainedBytes_toNat, retainedBytes_toNat, map_cons, sum_cons]
  omega

/-- The limits on what is in flight. -/
structure CompactRelayRuntimeSessionBookV1.Bounded (book : CompactRelayRuntimeSessionBookV1) :
    Prop where
  count : ∀ peerId, (book.inFlightTo peerId).length ≤ compactRelayMaxInflightPerPeerV1
  perPeer : ∀ peerId, retainedBytes (book.inFlightTo peerId) ≤ compactRelayMaxRetainedBytesPerPeerV1
  overall : retainedBytes book.inFlight.toList ≤ compactRelayMaxRetainedBytesGlobalV1

namespace CompactRelayRuntimeSessionBookV1

/-- Fewer entries stay within the limits. -/
theorem Bounded.of_sublist {smaller : CompactRelayRuntimeSessionBookV1} (h : book.Bounded)
    (hsub : smaller.inFlight.toList.Sublist book.inFlight.toList) : smaller.Bounded where
  count peerId := (hsub.filter _).length_le.trans (h.count peerId)
  perPeer peerId := UInt64.le_trans (retainedBytes_le_of_sublist (hsub.filter _)) (h.perPeer peerId)
  overall := UInt64.le_trans (retainedBytes_le_of_sublist hsub) h.overall

/-- What a registration has checked, and what it does. -/
theorem registerInFlight_eq_ok {peerId : String} {state : CompactBlockReconstructionRequestStateV1}
    {after : CompactRelayRuntimeSessionBookV1}
    (h : book.registerInFlight peerId state = .ok after) :
    let key : RelayKey := ⟨peerId, state.request.blockHash⟩
    peerId ∈ book.remoteCapabilities ∧ key ∉ book.inFlight ∧
      (book.inFlightTo peerId).length < compactRelayMaxInflightPerPeerV1 ∧
      saturatingAdd (retainedBytes (book.inFlightTo peerId)) (retainedStateUpperBoundBytes state) ≤
        compactRelayMaxRetainedBytesPerPeerV1 ∧
      saturatingAdd (retainedBytes book.inFlight.toList) (retainedStateUpperBoundBytes state) ≤
        compactRelayMaxRetainedBytesGlobalV1 ∧
      after = { book with inFlight := book.inFlight.insert key state } := by
  simp only [registerInFlight, bind_eq_ok, ensure_eq_ok, exists_const, pure_eq_ok,
    Except.ok.injEq] at h
  obtain ⟨-, -, hauthorized, hfresh, hcount, hpeer, hglobal, rfl⟩ := h
  rw [peerSessionAuthorized, Bool.and_eq_true, decide_eq_true_eq] at hauthorized
  exact ⟨hauthorized.2, hfresh, hcount, hpeer, hglobal, rfl⟩

/-- A registration stays within the limits. -/
theorem Bounded.register {peerId : String} {state : CompactBlockReconstructionRequestStateV1}
    {after : CompactRelayRuntimeSessionBookV1} (hbounded : book.Bounded)
    (h : book.registerInFlight peerId state = .ok after) : after.Bounded := by
  obtain ⟨-, hfresh, hcount, hpeer, hglobal, rfl⟩ := registerInFlight_eq_ok h
  have hperm := TreeMap.toList_insert_perm book.inFlight _ state hfresh
  have hperm_to : ∀ other : String,
      List.Perm (inFlightTo { book with inFlight := book.inFlight.insert _ state } other)
        (List.filter (fun entry => entry.1.peerId = other) ((_, state) :: book.inFlight.toList)) :=
    fun other => hperm.filter _
  refine ⟨fun other => ?_, fun other => ?_, ?_⟩
  · rw [(hperm_to other).length_eq, filter_cons]
    split
    · rename_i hother
      obtain rfl := of_decide_eq_true hother
      exact hcount
    · exact hbounded.count other
  · rw [retainedBytes_perm (hperm_to other), filter_cons]
    split
    · rename_i hother
      obtain rfl := of_decide_eq_true hother
      rw [retainedBytes_cons]
      exact hpeer
    · exact hbounded.perPeer other
  · rw [retainedBytes_perm hperm, retainedBytes_cons]
    exact hglobal

end CompactRelayRuntimeSessionBookV1

end

/-! ## Actions -/

namespace CompactRelayControllerActionV1

/-- The key of a request for transactions. -/
def requested : CompactRelayControllerActionV1 → Option RelayKey
  | .send peerId (.getTransactions request) => some ⟨peerId, request.blockHash⟩
  | _ => none

/-- The key whose block is handed on or asked for in full. -/
def resolved : CompactRelayControllerActionV1 → Option RelayKey
  | .reconstructedBlockReady peerId block => some ⟨peerId, block.hash⟩
  | .requestFullBlock peerId blockHash => some ⟨peerId, blockHash⟩
  | _ => none

end CompactRelayControllerActionV1

/-- The number of requests for the transactions of a key. -/
def requestsFor (key : RelayKey) (actions : List CompactRelayControllerActionV1) : ℕ :=
  actions.countP fun action => action.requested = some key

/-- The number of times that the block of a key is handed on or asked for in full. -/
def resolutionsOf (key : RelayKey) (actions : List CompactRelayControllerActionV1) : ℕ :=
  actions.countP fun action => action.resolved = some key

/-! ## Coherence -/

/-- What is known and what has been asked for cover the announcement of a key. -/
structure Awaits (key : RelayKey) (announcement : CompactBlockAnnouncementV1)
    (state : CompactBlockReconstructionRequestStateV1) : Prop where
  blockHash : announcement.blockHash = key.blockHash
  covered : ∀ txid ∈ announcement.txids,
    txid ∈ state.knownTransactions ∨ txid ∈ state.request.txids

variable {progress : CompactRelayDaemonRuntimeV1 × List CompactRelayControllerActionV1}

namespace CompactRelayDaemonRuntimeV1

/-- The controller and the session book agree. -/
structure Coherent (runtime : CompactRelayDaemonRuntimeV1) : Prop where
  configured : runtime.sessions.localCapabilities.isSome
  startedAt : ∀ key, key ∈ runtime.controller.pendingStartedAt ↔
    key ∈ runtime.controller.pendingAnnouncements
  inFlight : ∀ key, key ∈ runtime.sessions.inFlight ↔ key ∈ runtime.controller.pendingAnnouncements
  authorized : ∀ key ∈ runtime.controller.pendingAnnouncements,
    key.peerId ∈ runtime.sessions.remoteCapabilities
  awaits : ∀ key announcement state, runtime.controller.pendingAnnouncements[key]? =
    some announcement → runtime.sessions.inFlight[key]? = some state → Awaits key announcement state
  timedOut : ∀ key ∈ runtime.controller.recentlyTimedOutRequests,
    key ∉ runtime.controller.pendingAnnouncements
  bounded : runtime.sessions.Bounded

/-- Only the keys that stay are left in the three maps. -/
structure Restricts (before after : CompactRelayDaemonRuntimeV1) (stays : RelayKey → Bool) :
    Prop where
  pending : after.controller.pendingAnnouncements =
    before.controller.pendingAnnouncements.filter fun key _ => stays key
  startedAt : after.controller.pendingStartedAt =
    before.controller.pendingStartedAt.filter fun key _ => stays key
  inFlight : after.sessions.inFlight = before.sessions.inFlight.filter fun key _ => stays key
  local_eq : after.sessions.localCapabilities = before.sessions.localCapabilities
  remote : ∀ key, stays key = true → key.peerId ∈ before.sessions.remoteCapabilities →
    key.peerId ∈ after.sessions.remoteCapabilities
  timedOut : after.controller.recentlyTimedOutRequests ⊆ before.controller.recentlyTimedOutRequests

variable {runtime before middle after : CompactRelayDaemonRuntimeV1} {stays : RelayKey → Bool}
  {actions later : List CompactRelayControllerActionV1} {dismissed dismissedLater : RelayKey → ℕ}
  {result : RelayResult} {key : RelayKey}

/-- The keys that still wait. -/
theorem Restricts.mem_pending (h : Restricts before after stays) (key : RelayKey) :
    key ∈ after.controller.pendingAnnouncements ↔
      key ∈ before.controller.pendingAnnouncements ∧ stays key = true := by
  rw [h.pending, TreeMap.mem_filter_key]

/-- Restricting keeps the maps together. -/
theorem Coherent.restrict (hcoherent : before.Coherent) (h : Restricts before after stays) :
    after.Coherent where
  configured := h.local_eq ▸ hcoherent.configured
  startedAt key := by
    rw [h.mem_pending, h.startedAt, TreeMap.mem_filter_key, hcoherent.startedAt]
  inFlight key := by
    rw [h.mem_pending, h.inFlight, TreeMap.mem_filter_key, hcoherent.inFlight]
  authorized key hkey := by
    obtain ⟨hbefore, hstays⟩ := (h.mem_pending key).mp hkey
    exact h.remote key hstays (hcoherent.authorized key hbefore)
  awaits key announcement state hpending hflight := by
    rw [h.pending, TreeMap.getElem?_filter_key] at hpending
    rw [h.inFlight, TreeMap.getElem?_filter_key] at hflight
    split at hpending
    · rename_i hstays
      rw [if_pos hstays] at hflight
      exact hcoherent.awaits key announcement state hpending hflight
    · cases hpending
  timedOut key hkey hpending := by
    exact hcoherent.timedOut key (h.timedOut hkey) ((h.mem_pending key).mp hpending).1
  bounded := by
    refine hcoherent.bounded.of_sublist ?_
    rw [h.inFlight, Std.ExtTreeMap.toList_filter]
    exact filter_sublist

/-- Dropping a key restricts the runtime to the other keys. -/
theorem restricts_drop (runtime : CompactRelayDaemonRuntimeV1) (key : RelayKey) :
    Restricts runtime (runtime.drop key) fun other => other ≠ key where
  pending := TreeMap.erase_eq_filter _ key
  startedAt := TreeMap.erase_eq_filter _ key
  inFlight := TreeMap.erase_eq_filter _ key
  local_eq := rfl
  remote _ _ := id
  timedOut := List.Subset.refl _

/-- A disconnected peer takes its keys with it. -/
theorem restricts_peerDisconnected (runtime : CompactRelayDaemonRuntimeV1) (peerId : String) :
    Restricts runtime (runtime.peerDisconnected peerId) fun key => key.peerId ≠ peerId where
  pending := rfl
  startedAt := rfl
  inFlight := rfl
  local_eq := rfl
  remote key hstays hremote :=
    (TreeMap.mem_erase _ peerId key.peerId).mpr ⟨of_decide_eq_true hstays, hremote⟩
  timedOut _ := mem_of_mem_filter

/-- A block that arrives in full takes its keys with it. -/
theorem restricts_observeFullBlock (runtime : CompactRelayDaemonRuntimeV1) (blockHash : Hash) :
    Restricts runtime (runtime.observeFullBlock blockHash) fun key =>
    key.blockHash ≠ blockHash where
  pending := rfl
  startedAt := rfl
  inFlight := rfl
  local_eq := rfl
  remote _ _ := id
  timedOut _ := mem_of_mem_filter

/-! ## Accounts of requests -/

/-- One if the key waits for transactions. -/
def waiting (runtime : CompactRelayDaemonRuntimeV1) (key : RelayKey) : ℕ :=
  if key ∈ runtime.controller.pendingAnnouncements then 1 else 0

/-- Every key that waited or was asked for is resolved, dismissed or waits, and a key that waits has
waited before or was asked for. -/
structure Accounts (before after : CompactRelayDaemonRuntimeV1)
    (actions : List CompactRelayControllerActionV1) (dismissed : RelayKey → ℕ) : Prop where
  settled : ∀ key, before.waiting key + requestsFor key actions ≤
    resolutionsOf key actions + dismissed key + after.waiting key
  asked : ∀ key, after.waiting key ≤ before.waiting key + requestsFor key actions

/-- Accounts add up. -/
theorem Accounts.trans (h : Accounts before middle actions dismissed)
    (hlater : Accounts middle after later dismissedLater) :
    Accounts before after (actions ++ later) fun key => dismissed key + dismissedLater key := by
  refine ⟨fun key => ?_, fun key => ?_⟩
  all_goals
    have hsettled := h.settled key
    have hsettledLater := hlater.settled key
    have hasked := h.asked key
    have haskedLater := hlater.asked key
    simp only [requestsFor, resolutionsOf, countP_append] at *
    omega

/-- The accounts are those of the announcements that wait. -/
theorem Accounts.congr (h : Accounts before middle actions dismissed)
    (hpending : after.controller.pendingAnnouncements = middle.controller.pendingAnnouncements) :
    Accounts before after actions dismissed := by
  have hwaiting : ∀ key, after.waiting key = middle.waiting key := fun key => by
    rw [waiting, waiting, hpending]
  exact ⟨fun key => hwaiting key ▸ h.settled key, fun key => hwaiting key ▸ h.asked key⟩

/-- Who waits after a restriction. -/
theorem Restricts.waiting_eq (h : Restricts before after stays) (key : RelayKey) :
    after.waiting key = if stays key = true then before.waiting key else 0 := by
  simp only [waiting, h.mem_pending]
  cases stays key <;> simp

/-- Keys may leave if each of them that waited is resolved or dismissed. -/
theorem Restricts.accounts (h : Restricts before after stays)
    (hrequests : ∀ key, requestsFor key actions = 0)
    (hleft : ∀ key ∈ before.controller.pendingAnnouncements, stays key = false →
      1 ≤ resolutionsOf key actions + dismissed key) :
    Accounts before after actions dismissed := by
  refine ⟨fun key => ?_, fun key => ?_⟩
  · rw [hrequests, h.waiting_eq]
    cases hstays : stays key with
    | true => exact Nat.le_add_left _ _
    | false =>
      rw [waiting]
      split
      · rename_i hkey
        exact hleft key hkey hstays
      · exact Nat.zero_le _
  · rw [hrequests, h.waiting_eq]
    split
    · exact le_rfl
    · exact Nat.zero_le _

/-- Nothing is asked for and nothing changes. -/
theorem Accounts.refl (hrequests : ∀ key, requestsFor key actions = 0) :
    Accounts runtime runtime actions dismissed := by
  refine ⟨fun key => ?_, fun key => ?_⟩
  all_goals
    rw [hrequests]
    omega

/-- An outcome keeps the runtime coherent and accounts for every key. -/
structure Keeps (before : CompactRelayDaemonRuntimeV1) (outcome : RelayOutcome)
    (dismissed : RelayKey → ℕ) : Prop where
  coherent : outcome.2.Coherent
  accounts : Accounts before outcome.2 (outcome.1.toOption.getD []) dismissed

/-- A call that leaves the runtime as it is and asks for no transactions. -/
theorem Coherent.keeps_unchanged
    (h : runtime.Coherent)
    (hrequests : ∀ key, requestsFor key (result.toOption.getD []) = 0) :
    Keeps runtime (result, runtime) dismissed :=
  ⟨h, .refl hrequests⟩

/-- A key that leaves with the one action that resolves it. -/
theorem Coherent.keeps_drop {action : CompactRelayControllerActionV1} (h : runtime.Coherent)
    (hrequested : action.requested = none)
    (hresolved : action.resolved = some key) :
    Keeps runtime (.ok [action], runtime.drop key) dismissed := by
  refine ⟨h.restrict (runtime.restricts_drop key), (runtime.restricts_drop key).accounts ?_ ?_⟩
  · exact fun other => by simp [requestsFor, Except.toOption, hrequested]
  · intro other _ hother
    obtain rfl : other = key := by simpa using hother
    simp [resolutionsOf, Except.toOption, hresolved]

variable {environment : RelayEnvironment} {peerId : String}
  {announcement : CompactBlockAnnouncementV1}
  {state : CompactBlockReconstructionRequestStateV1} {known : TreeMap Hash Transaction}

variable {sessions : CompactRelayRuntimeSessionBookV1} {wire : CompactRelayWireV1}
  {chainId : Option String} {clock again : Clock} {plan : CompactBlockReconstructionPlanV1}
  {response : CompactTransactionResponseV1}

/-- A registered request waits. -/
theorem Coherent.keeps_register {startedAt : ℕ} (h : runtime.Coherent)
    (hkey : key = ⟨peerId, state.request.blockHash⟩) (hawaits : Awaits key announcement state)
    (hnotTimedOut : key ∉ runtime.controller.recentlyTimedOutRequests)
    (hregister : runtime.sessions.registerInFlight peerId state = .ok sessions) :
    Keeps runtime (.ok [.send peerId (.getTransactions state.request)],
      { controller := { runtime.controller with
          pendingAnnouncements := runtime.controller.pendingAnnouncements.insert key announcement
          pendingStartedAt := runtime.controller.pendingStartedAt.insert key startedAt }
        sessions }) dismissed := by
  have hbounded := h.bounded.register hregister
  obtain ⟨hremote, hfresh, -, -, -, rfl⟩ :=
    CompactRelayRuntimeSessionBookV1.registerInFlight_eq_ok hregister
  subst hkey
  have hnotPending := (h.inFlight _).not.mp hfresh
  refine ⟨⟨h.configured, ?_, ?_, ?_, ?_, ?_, hbounded⟩, ?_, ?_⟩
  · intro other
    rw [TreeMap.mem_insert, TreeMap.mem_insert, h.startedAt]
  · intro other
    rw [TreeMap.mem_insert, TreeMap.mem_insert, h.inFlight]
  · intro other hother
    rcases (TreeMap.mem_insert _ _ _ _).mp hother with rfl | hother
    · exact hremote
    · exact h.authorized other hother
  · intro other announcement' state' hpending hflight
    rw [TreeMap.getElem?_insert] at hpending hflight
    split at hpending
    · rename_i hother
      rw [if_pos hother] at hflight
      cases hpending
      cases hflight
      exact hother ▸ hawaits
    · rename_i hother
      rw [if_neg hother] at hflight
      exact h.awaits other announcement' state' hpending hflight
  · intro other htimedOut hother
    rcases (TreeMap.mem_insert _ _ _ _).mp hother with rfl | hother
    · exact hnotTimedOut htimedOut
    · exact h.timedOut other htimedOut hother
  all_goals
    intro other
    simp only [waiting, TreeMap.mem_insert, requestsFor, Except.toOption, Option.getD_some,
      countP_singleton, CompactRelayControllerActionV1.requested, Option.some.injEq,
      decide_eq_true_eq]
    by_cases hother : other = ⟨peerId, state.request.blockHash⟩
    · subst hother
      simp [hnotPending]
    · simp [hother, Ne.symm hother]

/-- A key that leaves, with a request for the full block if it has been tracked. -/
theorem Coherent.keeps_drop_tracked (h : runtime.Coherent) (key : RelayKey) :
    Keeps runtime (.ok (if runtime.tracks key then [.requestFullBlock key.peerId key.blockHash] else
      []), runtime.drop key) dismissed := by
  split
  · exact h.keeps_drop rfl rfl
  · rename_i htracks
    rw [tracks, Bool.or_eq_true, not_or, decide_eq_true_eq] at htracks
    have hdrop := runtime.restricts_drop key
    refine ⟨h.restrict hdrop, hdrop.accounts (fun _ => rfl) fun other hother hgone => ?_⟩
    obtain rfl : other = key := by simpa using hgone
    exact absurd hother htracks.1

/-! ## Time -/

/-- Noting a timeout keeps the maps together. -/
theorem Coherent.noteTimedOut (h : runtime.Coherent)
    (hkey : key ∉ runtime.controller.pendingAnnouncements) :
    Coherent { runtime with controller := { runtime.controller with
      recentlyTimedOutRequests := noteRecent key runtime.controller.recentlyTimedOutRequests }
        } := by
  refine ⟨h.configured, h.startedAt, h.inFlight, h.authorized, h.awaits, fun other hother => ?_,
    h.bounded⟩
  dsimp only at hother
  rcases mem_append.mp (mem_of_mem_drop hother) with hold | hnew
  · exact h.timedOut other (mem_of_mem_filter hold)
  · exact mem_singleton.mp hnew ▸ hkey

/-- The loop over the keys that are stale. -/
theorem Coherent.foldl_expire (keys : List RelayKey) (h : progress.1.Coherent) :
    (keys.foldl expire progress).1.Coherent ∧ ∃ later,
      (keys.foldl expire progress).2 = progress.2 ++ later ∧
      Accounts progress.1 (keys.foldl expire progress).1 later fun _ => 0 := by
  induction keys generalizing progress with
  | nil => exact ⟨h, [], (append_nil _).symm, .refl fun _ => rfl⟩
  | cons key rest ih =>
    have hdrop : Keeps progress.1 _ fun _ => 0 := h.keeps_drop_tracked key
    have hexpire : (expire progress key).1.Coherent ∧ ∃ now,
        (expire progress key).2 = progress.2 ++ now ∧
        Accounts progress.1 (expire progress key).1 now fun _ => 0 := by
      rw [expire]
      split
      · rename_i htracks
        rw [if_pos htracks] at hdrop
        refine ⟨hdrop.coherent.noteTimedOut ?_, _, rfl, hdrop.accounts.congr rfl⟩
        exact fun hmem => ((TreeMap.mem_erase _ _ _).mp hmem).1 rfl
      · rename_i htracks
        rw [if_neg htracks] at hdrop
        exact ⟨hdrop.coherent, [], (append_nil _).symm, hdrop.accounts⟩
    obtain ⟨hcoherent, now, hnow, haccounts⟩ := hexpire
    obtain ⟨hfinal, later, hlater, haccountsLater⟩ := ih hcoherent
    refine ⟨hfinal, now ++ later, ?_, haccounts.trans haccountsLater⟩
    rw [foldl_cons, hlater, hnow, append_assoc]

/-! ## Messages -/

/-- Noting a message keeps the maps together. -/
theorem Coherent.note (h : runtime.Coherent)
    (hnote : runtime.sessions.noteInbound peerId wire = .ok sessions) :
    Coherent { runtime with sessions } := by
  simp only [CompactRelayRuntimeSessionBookV1.noteInbound, bind_eq_ok] at hnote
  obtain ⟨_, -, own, -, hnote⟩ := hnote
  cases wire with
  | capabilityProbe => exact Except.ok.inj hnote ▸ h
  | capabilities remote =>
    simp only [bind_eq_ok, ensure_eq_ok, exists_const, pure_eq_ok, Except.ok.injEq] at hnote
    obtain ⟨_, -, -, rfl⟩ := hnote
    have hauthorized := fun key hkey =>
      (TreeMap.mem_insert _ peerId _ remote).mpr (.inr (h.authorized key hkey))
    exact { h with
      authorized := hauthorized, bounded := h.bounded.of_sublist (List.Sublist.refl _) }
  | announce announcement | getTransactions request | transactions response =>
    simp only [bind_eq_ok, ensure_eq_ok, exists_const, pure_eq_ok, Except.ok.injEq] at hnote
    exact hnote.2 ▸ h

variable [Crypto]

/-- A plan that asks for transactions asks for what it does not keep. -/
theorem awaits_of_plan (peerId : String)
    (h : planCompactBlockReconstruction clock announcement known chainId =
      .ok (.requestTransactions state)) :
    state.request.blockHash = announcement.blockHash ∧
      Awaits ⟨peerId, announcement.blockHash⟩ announcement state := by
  obtain ⟨hshape, hfallback | ⟨-, -, -, hplan⟩⟩ := planCompactBlockReconstruction_eq_ok h
  · cases hfallback
  · obtain rfl := planForMissing_eq_request hplan.symm
    refine ⟨rfl, rfl, fun txid htxid => ?_⟩
    have hnodup := (expectedBlockHash_of_shape hshape).2
    cases hknown : known[txid]? with
    | none => exact .inr (mem_filter.mpr ⟨htxid, by rw [hknown]; rfl⟩)
    | some found => exact .inl ((TreeMap.mem_iff _ _).mpr
      ⟨found, (getElem?_retained hnodup htxid).trans hknown⟩)

/-- Following a plan is accounted for. -/
theorem Coherent.keeps_followPlan (h : runtime.Coherent)
    (hnotTimedOut : ⟨peerId, announcement.blockHash⟩ ∉ runtime.controller.recentlyTimedOutRequests)
    (hplan : planCompactBlockReconstruction clock announcement known chainId = .ok plan) :
    Keeps runtime (runtime.followPlan environment peerId announcement plan) dismissed := by
  cases plan with
  | complete block =>
    refine h.keeps_drop rfl ?_
    rw [CompactRelayControllerActionV1.resolved, (isAnnouncedBlock_of_plan hplan).hash_eq]
  | requestTransactions state =>
    obtain ⟨hblock, hawaits⟩ := awaits_of_plan peerId hplan
    rw [followPlan]
    split
    · exact h.keeps_unchanged fun _ => rfl
    · rename_i hregister
      exact h.keeps_register (hblock ▸ rfl) hawaits hnotTimedOut hregister
  | fullBlockFallback blockHash reason => exact h.keeps_drop rfl rfl

/-- An announcement is accounted for. -/
theorem Coherent.keeps_handleAnnounce (h : runtime.Coherent) :
    Keeps runtime (runtime.handleAnnounce environment peerId announcement known) dismissed := by
  rw [handleAnnounce]
  split
  · exact h.keeps_unchanged fun _ => rfl
  · rename_i hnotTimedOut
    split
    · exact h.keeps_unchanged fun _ => rfl
    · split
      · exact h.keeps_unchanged fun _ => rfl
      · rename_i hplan
        exact h.keeps_followPlan hnotTimedOut hplan

/-- With everything known or received there is nothing left to ask for. -/
theorem plan_of_awaits {key : RelayKey} (h : Awaits key announcement state)
    (hcomplete : completeCompactBlockReconstruction clock again announcement state response
      chainId = .ok plan) :
    (∃ block, plan = .complete block ∧ block.hash = key.blockHash) ∨
      ∃ reason, plan = .fullBlockFallback key.blockHash reason := by
  simp only [completeCompactBlockReconstruction, bind_eq_ok, ensure_eq_ok] at hcomplete
  obtain ⟨_, -, _, -, _, -, _, -, _, -, _, hcount, _, -, hplan⟩ := hcomplete
  obtain ⟨-, hfallback | ⟨-, -, -, hplan⟩⟩ := planCompactBlockReconstruction_eq_ok hplan
  · exact .inr ⟨_, h.blockHash ▸ hfallback⟩
  · have hmissing : announcement.missing (insertAll state.knownTransactions
        (state.request.txids.zip response.transactions)) = [] := by
      refine filter_eq_nil_iff.mpr fun txid htxid hnone => ?_
      refine absurd ?_ (Std.ExtTreeMap.mem_iff_isSome_getElem?.not.mpr
        (Option.not_isSome_iff_eq_none.mpr (Option.isNone_iff_eq_none.mp hnone)))
      rw [mem_insertAll, map_fst_zip hcount.ge]
      exact (h.covered txid htxid).symm
    rw [hmissing, planForMissing_nil] at hplan
    exact .inl ⟨_, hplan, h.blockHash⟩

/-- A response is accounted for. -/
theorem Coherent.keeps_handleResponse (h : runtime.Coherent) :
    Keeps runtime (runtime.handleResponse environment peerId response) dismissed := by
  rw [handleResponse]
  split
  · split
    · exact h.keeps_unchanged fun _ => rfl
    · exact h.keeps_unchanged fun _ => rfl
  · rename_i announcement hpending
    split
    · exact h.keeps_unchanged fun _ => rfl
    · rename_i plan sessions hcomplete
      simp only [CompactRelayRuntimeSessionBookV1.completeInFlight, ok_iff,
        Prod.mk.injEq] at hcomplete
      obtain ⟨_, -, state, hstate, own, -, _, hplan, rfl, rfl⟩ := hcomplete
      have hawaits : Awaits ⟨peerId, response.blockHash⟩ announcement state := by
        obtain ⟨inFlight, hinFlight⟩ := (TreeMap.mem_iff _ _).mp
          ((h.inFlight _).mpr ((TreeMap.mem_iff _ _).mpr ⟨_, hpending⟩))
        have hblock := (h.awaits _ _ _ hpending hinFlight).blockHash
        rw [hblock] at hstate
        exact h.awaits _ _ _ hpending hstate
      -- The book has dropped the key already, so that the rest of the call completes a `drop`.
      have hdropped : runtime.sessions.abandonInFlight ⟨peerId, announcement.blockHash⟩ =
          runtime.sessions.abandonInFlight ⟨peerId, response.blockHash⟩ := by
        rw [hawaits.blockHash]
      rcases plan_of_awaits hawaits hplan with ⟨block, rfl, hhash⟩ | ⟨reason, rfl⟩
      · rw [hdropped]
        exact h.keeps_drop rfl (by rw [CompactRelayControllerActionV1.resolved, hhash])
      · rw [hdropped]
        exact h.keeps_drop rfl rfl

omit [Crypto] in
/-- A request is answered without asking. -/
theorem requestsFor_handleRequest (request : CompactTransactionRequestV1) (key : RelayKey) :
    requestsFor key ((handleRequest environment peerId request known).toOption.getD []) = 0 := by
  rw [handleRequest]
  split <;> rfl

/-- Any message is accounted for. -/
theorem Coherent.keeps_handleWire (h : runtime.Coherent) :
    Keeps runtime (runtime.handleWire environment peerId wire known) dismissed := by
  rw [handleWire]
  split
  · exact h.keeps_unchanged fun _ => rfl
  · rename_i sessions hnote
    have hnoted := h.note hnote
    suffices hkeeps : Keeps { runtime with sessions }
        (handleNoted { runtime with sessions } environment peerId known wire) dismissed from
      ⟨hkeeps.coherent, hkeeps.accounts.settled, hkeeps.accounts.asked⟩
    cases wire with
    | capabilityProbe =>
      rw [handleNoted]
      split <;> exact hnoted.keeps_unchanged fun _ => rfl
    | capabilities remote => exact hnoted.keeps_unchanged fun _ => rfl
    | announce announcement => exact hnoted.keeps_handleAnnounce
    | getTransactions request => exact hnoted.keeps_unchanged (requestsFor_handleRequest request)
    | transactions response => exact hnoted.keeps_handleResponse

omit [Crypto] in
/-- A message that could not be sent is accounted for. -/
theorem Coherent.keeps_handleSendFailure (h : runtime.Coherent) :
    Keeps runtime (runtime.handleSendFailure peerId wire) dismissed := by
  cases wire with
  | getTransactions request => exact h.keeps_drop_tracked ⟨peerId, request.blockHash⟩
  | transactions response => exact h.keeps_unchanged fun _ => rfl
  | capabilityProbe | capabilities remote | announce announcement =>
    exact h.keeps_unchanged fun _ => rfl

omit [Crypto] in
/-- A tick is accounted for. -/
theorem Coherent.keeps_expireStalePending (h : runtime.Coherent) (instant timeout : ℕ) :
    Keeps runtime (runtime.expireStalePending instant timeout) fun _ => 0 := by
  have hstart : Coherent (runtime, ([] : List CompactRelayControllerActionV1)).1 := h
  obtain ⟨hcoherent, later, hlater, haccounts⟩ := hstart.foldl_expire _
  refine ⟨hcoherent, ?_⟩
  rw [nil_append] at hlater
  rw [← hlater] at haccounts
  exact haccounts

end CompactRelayDaemonRuntimeV1

/-! ## Runs -/

/-- A call of the daemon's runtime. -/
inductive RelayEvent
  | inbound (environment : RelayEnvironment) (peerId : String) (wire : CompactRelayWireV1)
    (known : TreeMap Hash Transaction)
  | fullBlock (blockHash : Hash)
  | tick (instant timeout : ℕ)
  | disconnected (peerId : String)
  | sendFailure (peerId : String) (wire : CompactRelayWireV1)

/-- The full block of the key has come, or its peer is gone or starts afresh. -/
def RelayEvent.dismisses (key : RelayKey) : RelayEvent → Bool
  | .inbound _ peerId (.capabilities _) _ | .disconnected peerId => key.peerId = peerId
  | .fullBlock blockHash => key.blockHash = blockHash
  | _ => false

namespace CompactRelayDaemonRuntimeV1

variable [Crypto] {runtime after : CompactRelayDaemonRuntimeV1} {result : RelayResult}

def perform (runtime : CompactRelayDaemonRuntimeV1) : RelayEvent → RelayOutcome
  | .inbound environment peerId wire known =>
    runtime.handleInboundWithRetainedBlock environment peerId wire known
  | .fullBlock blockHash => (.ok [], runtime.observeFullBlock blockHash)
  | .tick instant timeout => runtime.expireStalePending instant timeout
  | .disconnected peerId => (.ok [], runtime.peerDisconnected peerId)
  | .sendFailure peerId wire => runtime.handleSendFailure peerId wire

/-- The actions of a run, and the runtime after it. -/
def run (runtime : CompactRelayDaemonRuntimeV1) :
    List RelayEvent → List CompactRelayControllerActionV1 × CompactRelayDaemonRuntimeV1
  | [] => ([], runtime)
  | event :: rest =>
    let outcome := runtime.perform event
    let later := outcome.2.run rest
    (outcome.1.toOption.getD [] ++ later.1, later.2)

omit [Crypto] in
/-- Keys that are dismissed are accounted for. -/
theorem Coherent.keeps_dismiss {gone : RelayKey → Prop} [DecidablePred gone] (h : runtime.Coherent)
    (hrestricts : Restricts runtime after fun key => ¬gone key)
    (hrequests : ∀ key, requestsFor key (result.toOption.getD []) = 0) :
    Keeps runtime (result, after) fun key => (decide (gone key)).toNat := by
  refine ⟨h.restrict hrestricts, hrestricts.accounts hrequests fun key _ hgone => ?_⟩
  rw [decide_eq_true (not_not.mp (of_decide_eq_false hgone))]
  exact Nat.le_add_left _ _

/-- Any event is accounted for. -/
theorem Coherent.perform (h : runtime.Coherent) (event : RelayEvent) :
    Keeps runtime (runtime.perform event) fun key => (event.dismisses key).toNat := by
  cases event with
  | inbound environment peerId wire known =>
    cases wire with
    | capabilities remote =>
      -- The session of the peer ends first, and the message is handled by what is left.
      have hended : Keeps runtime (.ok [], runtime.peerDisconnected peerId) _ :=
        h.keeps_dismiss (runtime.restricts_peerDisconnected peerId) fun _ => rfl
      have hkeeps : Keeps (runtime.peerDisconnected peerId)
          ((runtime.peerDisconnected peerId).handleWire environment peerId
            (.capabilities remote) known) fun _ => 0 :=
        hended.coherent.keeps_handleWire
      exact ⟨hkeeps.coherent, hended.accounts.trans hkeeps.accounts⟩
    | _ => exact h.keeps_handleWire
  | fullBlock blockHash =>
    exact h.keeps_dismiss (runtime.restricts_observeFullBlock blockHash) fun _ => rfl
  | tick instant timeout => exact h.keeps_expireStalePending instant timeout
  | disconnected peerId =>
    exact h.keeps_dismiss (runtime.restricts_peerDisconnected peerId) fun _ => rfl
  | sendFailure peerId wire => exact h.keeps_handleSendFailure

/-- Any run keeps the maps together, and its accounts add up. -/
theorem Coherent.run (h : runtime.Coherent) (events : List RelayEvent) :
    (runtime.run events).2.Coherent ∧ Accounts runtime (runtime.run events).2 (runtime.run events).1
      fun key => events.countP (RelayEvent.dismisses key) := by
  induction events generalizing runtime with
  | nil => exact ⟨h, .refl fun _ => rfl⟩
  | cons event rest ih =>
    have hfirst := h.perform event
    obtain ⟨hcoherent, hlater⟩ := ih hfirst.coherent
    refine ⟨hcoherent, ?_⟩
    have hcount : (fun key => (event :: rest).countP (RelayEvent.dismisses key)) =
        fun key => (event.dismisses key).toNat + rest.countP (RelayEvent.dismisses key) := by
      funext key
      rw [countP_cons, Nat.add_comm]
      cases event.dismisses key <;> rfl
    rw [hcount]
    exact hfirst.accounts.trans hlater

omit [Crypto] in
/-- A new runtime is coherent. -/
theorem exists_new (chainId : String) : ∃ start, new chainId = .ok start ∧ start.Coherent := by
  have hvalid : (CompactRelayCapabilitiesV1.canonical chainId).validateForChain chainId =
      .ok () := by
    simp only [CompactRelayCapabilitiesV1.validateForChain, seq_eq_ok, ensure_eq_ok]
    exact ⟨rfl, rfl, trivial, trivial, trivial⟩
  have hempty : ∀ {β : Type} {key : RelayKey}, key ∉ (∅ : TreeMap RelayKey β) :=
    Std.ExtTreeMap.not_mem_empty
  have hlist : (∅ : TreeMap RelayKey CompactBlockReconstructionRequestStateV1).toList = [] := by
    simp
  refine ⟨⟨{}, { localCapabilities := some (.canonical chainId) }⟩, ?_, rfl,
    fun key => iff_of_false hempty hempty, fun key => iff_of_false hempty hempty,
    fun key hkey => absurd hkey hempty,
    fun key announcement _ hpending _ =>
      absurd ((TreeMap.mem_iff _ _).mpr ⟨announcement, hpending⟩) hempty,
    fun _ _ => hempty, ⟨fun peerId => ?_, fun peerId => ?_, ?_⟩⟩
  · rw [new, CompactRelayRuntimeSessionBookV1.configureLocal, hvalid]
    rfl
  · rw [CompactRelayRuntimeSessionBookV1.inFlightTo, hlist]
    exact Nat.zero_le _
  · rw [CompactRelayRuntimeSessionBookV1.inFlightTo, hlist]
    exact UInt64.zero_le
  · rw [hlist]
    exact UInt64.zero_le

/-- From the start of the runtime on, whatever is called in whatever order: the maps of the
controller and of the session book have the same keys, within the limits on what is in flight, and
in every part of a run the keys that waited or were asked for are the ones that are resolved,
dismissed or still wait. -/
theorem compactRelay_accounts (chainId : String) : ∃ start, new chainId = .ok start ∧
    ∀ earlier later : List RelayEvent,
      let before := (start.run earlier).2
      let after := (before.run later).2
      after.Coherent ∧ Accounts before after (before.run later).1 fun key =>
        later.countP (RelayEvent.dismisses key) := by
  obtain ⟨start, hstart, hcoherent⟩ := exists_new chainId
  exact ⟨start, hstart, fun earlier later => (hcoherent.run earlier).1.run later⟩

omit [Crypto] in
/-- The expired keys stop waiting. -/
theorem pending_foldl_expire (keys : List RelayKey)
    (progress : CompactRelayDaemonRuntimeV1 × List CompactRelayControllerActionV1) :
    (keys.foldl expire progress).1.controller.pendingAnnouncements =
      eraseAll progress.1.controller.pendingAnnouncements keys := by
  induction keys generalizing progress with
  | nil => rfl
  | cons key rest ih =>
    rw [foldl_cons, ih, expire]
    split <;> rfl

omit [Crypto] in
/-- The loop over the stale keys asks for the full block of each of them that waits. -/
theorem requestFullBlock_mem_foldl_expire {key : RelayKey} {keys : List RelayKey}
    (h : key ∈ keys ∧ key ∈ progress.1.controller.pendingAnnouncements ∨
      .requestFullBlock key.peerId key.blockHash ∈ progress.2) :
    .requestFullBlock key.peerId key.blockHash ∈ (keys.foldl expire progress).2 := by
  induction keys generalizing progress with
  | nil => exact h.resolve_left fun hkey => not_mem_nil hkey.1
  | cons other rest ih =>
    refine ih ?_
    rcases h with ⟨hkey, hwaits⟩ | hasked
    · by_cases hother : key = other
      · have htracks : progress.1.tracks key = true := by simp [tracks, hwaits]
        rw [← hother, expire, if_pos htracks]
        exact .inr (mem_append_right _ (mem_singleton_self _))
      · refine .inl ⟨(mem_cons.mp hkey).resolve_left hother, ?_⟩
        rw [show (expire progress other).1.controller.pendingAnnouncements =
          progress.1.controller.pendingAnnouncements.erase other from pending_foldl_expire
          [other] progress]
        exact (TreeMap.mem_erase _ _ _).mpr ⟨hother, hwaits⟩
    · rw [expire]
      split
      · exact .inr (mem_append_left _ hasked)
      · exact .inr hasked

/-- In every reachable runtime, a tick takes each key whose wait is older than the timeout out of
the three maps, and asks for its full block. -/
theorem tick_resolves_stale (chainId : String) : ∃ start, new chainId = .ok start ∧
    ∀ (events : List RelayEvent) (instant timeout : ℕ) (key : RelayKey) (since : ℕ),
      let before := (start.run events).2
      let after := before.run [.tick instant timeout]
      before.controller.pendingStartedAt[key]? = some since → timeout ≤ instant - since →
        key ∉ after.2.controller.pendingAnnouncements ∧
        key ∉ after.2.controller.pendingStartedAt ∧ key ∉ after.2.sessions.inFlight ∧
        .requestFullBlock key.peerId key.blockHash ∈ after.1 := by
  obtain ⟨start, hstart, hcoherent⟩ := exists_new chainId
  refine ⟨start, hstart, ?_⟩
  intro events instant timeout key since before after hsince hstale
  have hbefore := (hcoherent.run events).1
  have hafter := (hbefore.run [.tick instant timeout]).1
  have hexpired : key ∈ (before.controller.pendingStartedAt.toList.filter fun entry =>
      timeout ≤ instant - entry.2).map Prod.fst := mem_map_of_mem (mem_filter.mpr
    ⟨(TreeMap.mem_toList _ _ _).mpr hsince, decide_eq_true hstale⟩)
  have hgone : key ∉ after.2.controller.pendingAnnouncements := by
    refine (congrArg (key ∉ ·) (pending_foldl_expire _ _)).mpr fun hmem => ?_
    exact ((mem_eraseAll _ _ _).mp hmem).1 hexpired
  have hwaited := (hbefore.startedAt key).mp ((TreeMap.mem_iff _ _).mpr ⟨since, hsince⟩)
  refine ⟨hgone, (hafter.startedAt key).not.mpr hgone, (hafter.inFlight key).not.mpr hgone, ?_⟩
  exact mem_append_left _ (requestFullBlock_mem_foldl_expire (.inl ⟨hexpired, hwaited⟩))

end CompactRelayDaemonRuntimeV1

/-- Two peers open a session and announce a block, one at time 0 and one at time 8. -/
def twoAnnouncements [Crypto] : List RelayEvent :=
  let announcement : CompactBlockAnnouncementV1 :=
    ⟨compactDagRelayVersionV1, relayBlock.hash, relayBlock.header,
      relayBlock.transactions.map Transaction.txid⟩
  [("early", 0), ("late", 8)].flatMap fun (peerId, instant) =>
    let environment : RelayEnvironment := ⟨⟨1, 0⟩, ⟨1, 0⟩, instant, fun _ => 0⟩
    [.inbound environment peerId (.capabilities (.canonical "c")) ∅,
      .inbound environment peerId (.announce announcement) ∅]

/-- At time 10 a timeout of 5 ends the first wait, and the second goes on. -/
theorem CompactRelayDaemonRuntimeV1.tick_resolves_stale_early : letI := checksumCrypto
    ∃ start, new "c" = .ok start ∧
      let before := (start.run twoAnnouncements).2
      let after := before.run [.tick 10 5]
      ⟨"late", relayBlock.hash⟩ ∈ after.2.controller.pendingAnnouncements ∧
      ⟨"early", relayBlock.hash⟩ ∉ after.2.controller.pendingAnnouncements ∧
      .requestFullBlock "early" relayBlock.hash ∈ after.1 := by
  let := checksumCrypto
  obtain ⟨start, hstart, hresolves⟩ := tick_resolves_stale "c"
  have hrun : ((new "c").toOption.map fun start =>
      let before := (start.run twoAnnouncements).2
      (before.controller.pendingStartedAt[(⟨"early", relayBlock.hash⟩ : RelayKey)]?,
        decide (⟨"late", relayBlock.hash⟩ ∈
          (before.run [.tick 10 5]).2.controller.pendingAnnouncements))) = some (some 0, true) := by
    decide +kernel
  rw [hstart] at hrun
  obtain ⟨hsince, hlate⟩ := Prod.mk.inj (Option.some.inj hrun)
  obtain ⟨hgone, -, -, hasked⟩ :=
    hresolves twoAnnouncements 10 5 ⟨"early", relayBlock.hash⟩ 0 hsince (by decide)
  exact ⟨start, hstart, of_decide_eq_true hlate, hgone, hasked⟩

end PulseDag
