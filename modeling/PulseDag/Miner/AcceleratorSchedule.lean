import PulseDag.Lib.Collections
import PulseDag.Miner.NoncePartition

/-!
# The schedule of the accelerators

`accelerator_scheduler.rs`. Every lane of the nonce range has an owner among the devices, at most
one ticket in flight and the number of its next iteration. A ticket is accepted back only while it
is the one in flight. When a device fails, its lanes get new owners and their tickets are revoked.
-/

namespace PulseDag

open List

/-- `AcceleratorBackendKind`. -/
inductive AcceleratorBackendKind
  | cuda
  | openCl
  deriving DecidableEq, Repr

/-- The variant as `{:?}` prints it. -/
def AcceleratorBackendKind.debugText : AcceleratorBackendKind → String
  | .cuda => "Cuda"
  | .openCl => "OpenCl"

/-- The place of the variant in `derive(Ord)`. -/
def AcceleratorBackendKind.rank : AcceleratorBackendKind → ℕ
  | .cuda => 0
  | .openCl => 1

/-- `AcceleratorDeviceKey`. -/
structure AcceleratorDeviceKey where
  backend : AcceleratorBackendKind
  deviceIndex : ℕ
  deriving DecidableEq, Repr

/-- `derive(Ord)` on `AcceleratorDeviceKey`: by backend, then by index. -/
instance : Ord AcceleratorDeviceKey where
  compare := compareLex (compareOn fun key => key.backend.rank)
    (compareOn AcceleratorDeviceKey.deviceIndex)

instance : Std.TransOrd AcceleratorDeviceKey :=
  inferInstanceAs
    (Std.TransCmp (compareLex (compareOn fun key : AcceleratorDeviceKey => key.backend.rank)
    (compareOn AcceleratorDeviceKey.deviceIndex)))

instance : Std.LawfulEqOrd AcceleratorDeviceKey where
  eq_of_compare {a b} h := by
    have h' : compareLex (compareOn fun key : AcceleratorDeviceKey => key.backend.rank)
        (compareOn AcceleratorDeviceKey.deviceIndex) a b = .eq := h
    simp only [compareLex, compareOn, Ordering.then_eq_eq, Std.compare_eq_iff_eq] at h'
    obtain ⟨⟨backend⟩, index⟩ := a <;> obtain ⟨⟨backend'⟩, index'⟩ := b <;>
      simp_all [AcceleratorBackendKind.rank]

/-- The device as the messages name it. -/
def AcceleratorDeviceKey.label (key : AcceleratorDeviceKey) : String :=
  s!"accelerator device {key.backend.debugText}[{key.deviceIndex}]"

/-- `AcceleratorDispatchTicket`. -/
structure AcceleratorDispatchTicket where
  generation : UInt64
  laneIndex : ℕ
  owner : AcceleratorDeviceKey
  nonce : UInt64
  dispatchEpoch : UInt64
  deriving DecidableEq, Repr

/-- `AcceleratorLaneState`. -/
structure AcceleratorLaneState where
  laneIndex : ℕ
  owner : AcceleratorDeviceKey
  partition : ProtocolNoncePartition
  nextIteration : UInt64 := 0
  inFlight : Option AcceleratorDispatchTicket := none
  nextDispatchEpoch : UInt64 := 0
  deriving DecidableEq

/-- `AcceleratorSchedule`. -/
structure AcceleratorSchedule where
  devices : List AcceleratorDeviceKey
  unavailableDevices : TreeSet AcceleratorDeviceKey
  lanes : List AcceleratorLaneState
  maxTries : UInt64
  generation : UInt64

namespace AcceleratorSchedule

/-! ## The functions -/

/-- The check that the unavailable devices are in the inventory. -/
def requireKnown (devices : List AcceleratorDeviceKey)
    (unavailableDevices : TreeSet AcceleratorDeviceKey) : Except String Unit :=
  match unavailableDevices.toList.find? (· ∉ devices) with
  | some unknown => .error s!"unavailable {unknown.label} is not in the device inventory"
  | none => .ok ()

/-- The loop of `build_with_health` over the owners of the lanes. -/
def buildLanes (maxTries : UInt64) (activeLanes : ℕ) :
    List AcceleratorDeviceKey → ℕ → Except String (List AcceleratorLaneState)
  | [], _ => pure []
  | owner :: rest, laneIndex => do
    let partition ← protocolNoncePartition maxTries activeLanes laneIndex
    let lanes ← buildLanes maxTries activeLanes rest (laneIndex + 1)
    pure ({ laneIndex, owner, partition } :: lanes)

/-- `build_with_health`. -/
def buildWithHealth (devices : List AcceleratorDeviceKey)
    (unavailableDevices : TreeSet AcceleratorDeviceKey) (maxTries generation : UInt64) :
    Except String AcceleratorSchedule := do
  ensure (devices ≠ []) "accelerator schedule requires at least one device"
  let devices := devices.insertionSort fun a b => (compare a b).isLE
  ensure (devices.IsChain (· ≠ ·))
    "accelerator schedule contains a duplicate backend/device identity"
  requireKnown devices unavailableDevices
  let healthy := devices.filter (· ∉ unavailableDevices)
  ensure (healthy ≠ []) "accelerator schedule requires at least one healthy device"
  let maxTries := max maxTries 1
  let activeLanes := protocolNonceLaneCount maxTries healthy.length
  let lanes ← buildLanes maxTries activeLanes (healthy.take activeLanes) 0
  pure { devices, unavailableDevices, lanes, maxTries, generation }

/-- The schedule after an assignment to one lane. -/
def setLane (s : AcceleratorSchedule) (laneIndex : ℕ) (lane : AcceleratorLaneState) :
    AcceleratorSchedule :=
  { s with lanes := s.lanes.set laneIndex lane }

/-- `dispatch_lane`: the ticket, if the lane is not exhausted, and the schedule after the call. -/
def dispatchLane (s : AcceleratorSchedule) (laneIndex : ℕ) :
    Except String (Option AcceleratorDispatchTicket × AcceleratorSchedule) := do
  let lane ← okOr s.lanes[laneIndex]? s!"accelerator lane {laneIndex} does not exist"
  ensure (lane.inFlight = none) s!"accelerator lane {laneIndex} already has in-flight work"
  let nonce? ← lane.partition.nonceAt lane.nextIteration
  match nonce? with
  | none => pure (none, s)
  | some nonce => do
    let nextDispatchEpoch ← okOr (checkedAdd lane.nextDispatchEpoch 1)
      s!"accelerator lane {lane.laneIndex} dispatch epoch overflow"
    let ticket : AcceleratorDispatchTicket :=
      ⟨s.generation, laneIndex, lane.owner, nonce, lane.nextDispatchEpoch⟩
    pure (some ticket, s.setLane laneIndex
      { lane with nextDispatchEpoch := nextDispatchEpoch, inFlight := some ticket })

/-- `complete_lane`. All checks come before the first assignment, so a failed call leaves the
schedule as it was. -/
def completeLane (s : AcceleratorSchedule) (ticket : AcceleratorDispatchTicket) :
    Except String AcceleratorSchedule := do
  ensure (ticket.generation = s.generation)
    (s!"stale accelerator completion generation {ticket.generation} does not match current " ++
      s!"generation {s.generation}")
  let lane ← okOr s.lanes[ticket.laneIndex]? s!"accelerator lane {ticket.laneIndex} does not exist"
  ensure (lane.inFlight = some ticket)
    s!"stale or mismatched accelerator completion for lane {ticket.laneIndex}"
  let nextIteration ← okOr (checkedAdd lane.nextIteration 1)
    s!"accelerator lane {lane.laneIndex} iteration overflow"
  pure (s.setLane ticket.laneIndex { lane with nextIteration := nextIteration, inFlight := none })

/-- `min_by_key` over the number of lanes and the device. -/
def leastLoaded (counts : TreeMap AcceleratorDeviceKey ℕ) : Option AcceleratorDeviceKey :=
  match counts.toList with
  | [] => none
  | first :: rest => some (rest.foldl (fun best item =>
      if compareLex (compareOn Prod.snd) (compareOn Prod.fst) best item = .gt then item else best)
      first).1

/-- A device without lanes. -/
def countIdle (counts : TreeMap AcceleratorDeviceKey ℕ) (device : AcceleratorDeviceKey) :
    TreeMap AcceleratorDeviceKey ℕ :=
  counts.insert device 0

/-- Count a lane for its owner, if the owner is counted. -/
def countLane (counts : TreeMap AcceleratorDeviceKey ℕ) (lane : AcceleratorLaneState) :
    TreeMap AcceleratorDeviceKey ℕ :=
  match counts[lane.owner]? with
  | some count => counts.insert lane.owner (count + 1)
  | none => counts

/-- The loop of `redistribute_failed_device` over the lanes. -/
def reassignLanes (failed : AcceleratorDeviceKey) :
    List AcceleratorLaneState → TreeMap AcceleratorDeviceKey ℕ →
      Except String (List AcceleratorLaneState)
  | [], _ => pure []
  | lane :: rest, counts =>
    if lane.owner = failed then do
      let replacement ← okOr (leastLoaded counts) "no deterministic replacement device available"
      let others ← reassignLanes failed rest
        (counts.insert replacement (counts[replacement]?.getD 0 + 1))
      pure ({ lane with owner := replacement, inFlight := none } :: others)
    else do
      let others ← reassignLanes failed rest counts
      pure (lane :: others)

/-- `redistribute_failed_device`. -/
def redistributeFailedDevice (s : AcceleratorSchedule) (failed : AcceleratorDeviceKey) :
    Except String AcceleratorSchedule := do
  ensure (failed ∈ s.devices) (failed.label ++ " is not part of this schedule")
  ensure (failed ∉ s.unavailableDevices) (failed.label ++ " is already unavailable")
  let healthy := s.devices.filter fun device => device ≠ failed ∧ device ∉ s.unavailableDevices
  ensure (healthy ≠ []) "cannot redistribute accelerator work: no healthy device remains"
  let counts := s.lanes.foldl countLane (healthy.foldl countIdle ∅)
  let lanes ← reassignLanes failed s.lanes counts
  pure { s with unavailableDevices := s.unavailableDevices.insert failed, lanes := lanes }

/-- `recover_device`. -/
def recoverDevice (s : AcceleratorSchedule) (device : AcceleratorDeviceKey) :
    Except String AcceleratorSchedule := do
  ensure (device ∈ s.devices) (device.label ++ " is not part of this schedule")
  ensure (device ∈ s.unavailableDevices) (device.label ++ " is not unavailable")
  pure { s with unavailableDevices := s.unavailableDevices.erase device }

/-- `refresh_job`. -/
def refreshJob (s : AcceleratorSchedule) (maxTries : UInt64) :
    Except String AcceleratorSchedule := do
  let generation ← okOr (checkedAdd s.generation 1) "accelerator schedule generation overflow"
  buildWithHealth s.devices s.unavailableDevices maxTries generation

/-! ## What a call does -/

section

variable {s s' : AcceleratorSchedule} {ticket : AcceleratorDispatchTicket} {laneIndex : ℕ}

/-- What holds when a lane is exhausted. -/
theorem dispatchLane_none (h : s.dispatchLane laneIndex = .ok (none, s')) :
    ∃ lane, s.lanes[laneIndex]? = some lane ∧ lane.inFlight = none ∧
      lane.partition.nonceAt lane.nextIteration = .ok none := by
  simp only [dispatchLane, bind_eq_ok, okOr_eq_ok, ensure_eq_ok, exists_const] at h
  obtain ⟨lane, hlane, hidle, nonce?, hnonce, h⟩ := h
  cases nonce? with
  | none => exact ⟨lane, hlane, hidle, hnonce⟩
  | some nonce => simp [bind_eq_ok] at h

/-- What holds when a ticket is completed. -/
theorem completeLane_ok (h : s.completeLane ticket = .ok s') :
    ∃ lane next, ticket.generation = s.generation ∧ s.lanes[ticket.laneIndex]? = some lane ∧
      lane.inFlight = some ticket ∧ next.toNat = lane.nextIteration.toNat + 1 ∧
      s' = s.setLane ticket.laneIndex { lane with nextIteration := next, inFlight := none } := by
  simp only [completeLane, bind_eq_ok, okOr_eq_ok, ensure_eq_ok, exists_const, checkedAdd_eq_some,
    pure_eq_ok, Except.ok.injEq] at h
  obtain ⟨hgeneration, lane, hlane, hflight, next, hnext, rfl⟩ := h
  exact ⟨lane, next, hgeneration, hlane, hflight, hnext, rfl⟩

/-- A ticket is in flight. -/
def InFlight (s : AcceleratorSchedule) (ticket : AcceleratorDispatchTicket) : Prop :=
  ∃ lane ∈ s.lanes, lane.inFlight = some ticket

end

variable {counts : TreeMap AcceleratorDeviceKey ℕ} {device failed : AcceleratorDeviceKey}
  {lanes : List AcceleratorLaneState} {devices : List AcceleratorDeviceKey}

end AcceleratorSchedule

end PulseDag
