import PulseDag.Miner.AcceleratorSchedule

/-!
# Runs of the schedule

A run starts with `build` and calls the functions of the schedule in any order. It remembers the
tickets that were issued and those that were completed. What one call preserves
(`ScheduleRun.Coherent.effect`) gives what holds after every run: within one generation each nonce
is completed once at most, and once exactly when all lanes are exhausted.
-/

namespace PulseDag

open List hiding after

/-- The calls on the current schedule. -/
inductive ScheduleCall
  | dispatchLane (laneIndex : ℕ)
  | completeLane (ticket : AcceleratorDispatchTicket)
  | redistributeFailedDevice (failed : AcceleratorDeviceKey)
  | recoverDevice (device : AcceleratorDeviceKey)
  | refreshJob (maxTries : UInt64)

/-- The current schedule and the tickets so far. -/
structure ScheduleRun where
  schedule : AcceleratorSchedule
  issued : List AcceleratorDispatchTicket := []
  completed : List AcceleratorDispatchTicket := []

namespace ScheduleRun

/-- One call. A call that fails leaves everything as it is. -/
def step (run : ScheduleRun) : ScheduleCall → ScheduleRun
  | .dispatchLane laneIndex =>
    match run.schedule.dispatchLane laneIndex with
    | .ok (some ticket, schedule) => { run with schedule, issued := run.issued ++ [ticket] }
    | .ok (none, _) => run
    | .error _ => run
  | .completeLane ticket =>
    match run.schedule.completeLane ticket with
    | .ok schedule => { run with schedule, completed := run.completed ++ [ticket] }
    | .error _ => run
  | .redistributeFailedDevice failed =>
    match run.schedule.redistributeFailedDevice failed with
    | .ok schedule => { run with schedule }
    | .error _ => run
  | .recoverDevice device =>
    match run.schedule.recoverDevice device with
    | .ok schedule => { run with schedule }
    | .error _ => run
  | .refreshJob maxTries =>
    match run.schedule.refreshJob maxTries with
    | .ok schedule => { run with schedule }
    | .error _ => run

/-- A run from a new schedule. -/
def after (initial : AcceleratorSchedule) (calls : List ScheduleCall) : ScheduleRun :=
  calls.foldl step { schedule := initial }

/-- What a completion is counted under. -/
def completions (run : ScheduleRun) : List (UInt64 × UInt64) :=
  run.completed.map fun ticket => (ticket.generation, ticket.nonce)

/-! ## The invariant -/

/-- A lane in its place: its part of the nonce range is the one of its index, and a ticket in flight
is for its next iteration. -/
structure LaneFits (s : AcceleratorSchedule) (i : ℕ) (lane : AcceleratorLaneState) : Prop where
  partition : lane.partition.IsLane s.maxTries s.lanes.length i
  flight : ∀ ticket, lane.inFlight = some ticket → ticket.generation = s.generation ∧
    ticket.laneIndex = i ∧ lane.partition.nonceAt lane.nextIteration = .ok (some ticket.nonce)

/-- What holds of the current schedule and the tickets so far. -/
structure Coherent (run : ScheduleRun) : Prop where
  fits : ∀ i lane, run.schedule.lanes[i]? = some lane → LaneFits run.schedule i lane
  lanes_pos : 0 < run.schedule.lanes.length
  issued_past : ∀ ticket ∈ run.issued, ticket.generation ≤ run.schedule.generation
  issued_epoch : ∀ ticket ∈ run.issued, ticket.generation = run.schedule.generation →
    ∀ lane : AcceleratorLaneState, run.schedule.lanes[ticket.laneIndex]? = some lane →
      ticket.dispatchEpoch < lane.nextDispatchEpoch
  flight_issued : ∀ ticket, run.schedule.InFlight ticket → ticket ∈ run.issued
  completed_past : ∀ ticket ∈ run.completed, ticket.generation ≤ run.schedule.generation
  once : run.completions.Nodup
  /-- The completed nonces of a lane are those of its past iterations. -/
  exact : ∀ i (lane : AcceleratorLaneState), run.schedule.lanes[i]? = some lane → ∀ nonce : UInt64,
    nonce.toNat % run.schedule.lanes.length = i →
    ((run.schedule.generation, nonce) ∈ run.completions ↔
      nonce.toNat / run.schedule.lanes.length < lane.nextIteration.toNat)

variable {s : AcceleratorSchedule} {devices : List AcceleratorDeviceKey}
  {lane' : AcceleratorLaneState} {maxTries : UInt64} {ticket : AcceleratorDispatchTicket}

section

variable {run : ScheduleRun} {i j : ℕ} {lane : AcceleratorLaneState}

/-- The nonce of an iteration tells its lane and the iteration. -/
theorem LaneFits.nonce_eq (hi : i < s.lanes.length) (h : LaneFits s i lane)
    {iteration nonce : UInt64} (hnonce : lane.partition.nonceAt iteration = .ok (some nonce)) :
    nonce.toNat % s.lanes.length = i ∧ nonce.toNat / s.lanes.length = iteration.toNat := by
  obtain ⟨hvalue, -⟩ := ProtocolNoncePartition.nonceAt_eq_some.mp hnonce
  rw [h.partition.lane_eq, h.partition.stride_eq] at hvalue
  rw [hvalue, Nat.add_mul_mod_self_left, Nat.mod_eq_of_lt hi, Nat.add_mul_div_left _ _ (by omega),
    Nat.div_eq_of_lt hi, Nat.zero_add]
  exact ⟨rfl, rfl⟩

/-- The index of a lane. -/
theorem Coherent.lt_length (hlane : run.schedule.lanes[i]? = some lane) :
    i < run.schedule.lanes.length := (List.getElem?_eq_some_iff.mp hlane).1

end

/-! ## One call -/

section

variable {run : ScheduleRun}

variable {run' : ScheduleRun} {schedule : AcceleratorSchedule}

/-- The lanes of a schedule after an assignment to one of them. -/
theorem getElem?_setLane {index i : ℕ} {lane new : AcceleratorLaneState}
    (hlane : s.lanes[index]? = some lane) (h : (s.setLane index new).lanes[i]? = some lane') :
    (i = index ∧ lane' = new) ∨ (i ≠ index ∧ s.lanes[i]? = some lane') := by
  unfold AcceleratorSchedule.setLane at h
  by_cases hi : index = i
  · subst hi
    rw [getElem?_set_self (List.getElem?_eq_some_iff.mp hlane).1] at h
    exact .inl ⟨rfl, (Option.some.inj h).symm⟩
  · rw [getElem?_set_ne hi] at h
    exact .inr ⟨Ne.symm hi, h⟩

/-- Completing a ticket does. -/
theorem Coherent.complete (h : run.Coherent) {ticket : AcceleratorDispatchTicket}
    {schedule : AcceleratorSchedule} (hcall : run.schedule.completeLane ticket = .ok schedule) :
    Coherent { run with schedule, completed := run.completed ++ [ticket] } := by
  obtain ⟨lane, next, hgeneration, hlane, hflight, hnext, rfl⟩ :=
    AcceleratorSchedule.completeLane_ok hcall
  have hfits := h.fits _ lane hlane
  obtain ⟨-, -, hnonce⟩ := hfits.flight ticket hflight
  obtain ⟨hmod, hdiv⟩ := hfits.nonce_eq (Coherent.lt_length hlane) hnonce
  have hlength : (run.schedule.setLane ticket.laneIndex
      { lane with nextIteration := next, inFlight := none }).lanes.length =
        run.schedule.lanes.length := length_set
  have hsub : ∀ other, (run.schedule.setLane ticket.laneIndex
      { lane with nextIteration := next, inFlight := none }).InFlight other →
        run.schedule.InFlight other := by
    rintro other ⟨lane', hmem, hother⟩
    obtain ⟨i, hi⟩ := mem_iff_getElem?.mp hmem
    rcases getElem?_setLane hlane hi with ⟨-, rfl⟩ | ⟨-, hsame⟩
    · cases hother
    · exact ⟨lane', mem_of_getElem? hsame, hother⟩
  have hcompletions : (completions { run with completed := run.completed ++ [ticket] }) =
      run.completions ++ [(run.schedule.generation, ticket.nonce)] := by
    rw [completions, map_append, map_singleton, hgeneration]
    rfl
  -- the ticket is for the next iteration, so its nonce has not been completed
  have hnew : (run.schedule.generation, ticket.nonce) ∉ run.completions := by
    rw [h.exact _ lane hlane ticket.nonce hmod, hdiv]
    omega
  refine ⟨fun i lane' hlane' => ⟨?_, fun other hother => ?_⟩, ?_, h.issued_past,
    fun other hother heq lane' hlane' => ?_, fun other hother =>
      h.flight_issued other (hsub other hother),
    fun other hother => ?_, ?_, fun i lane' hlane' nonce hi => ?_⟩
  · rw [hlength]
    rcases getElem?_setLane hlane hlane' with ⟨rfl, rfl⟩ | ⟨-, hsame⟩
    · exact hfits.partition
    · exact (h.fits i lane' hsame).partition
  · rcases getElem?_setLane hlane hlane' with ⟨-, rfl⟩ | ⟨-, hsame⟩
    · cases hother
    · exact (h.fits i lane' hsame).flight other hother
  · rw [hlength]
    exact h.lanes_pos
  · rcases getElem?_setLane hlane hlane' with ⟨hindex, rfl⟩ | ⟨-, hsame⟩
    · exact h.issued_epoch other hother heq lane (hindex ▸ hlane)
    · exact h.issued_epoch other hother heq lane' hsame
  · rcases mem_append.mp hother with hold | hlast
    · exact h.completed_past other hold
    · rw [mem_singleton.mp hlast]
      exact UInt64.le_of_eq hgeneration
  · change (completions { run with completed := run.completed ++ [ticket] }).Nodup
    rw [hcompletions]
    exact nodup_append.mpr ⟨h.once, nodup_singleton _, fun a ha b hb heq => by
      rw [mem_singleton.mp hb] at heq
      exact hnew (heq ▸ ha)⟩
  · change (run.schedule.generation, nonce) ∈
      completions { run with completed := run.completed ++ [ticket] } ↔ _
    rw [hlength] at hi ⊢
    rw [hcompletions, mem_append, mem_singleton, Prod.mk.injEq, and_iff_right rfl]
    rcases getElem?_setLane hlane hlane' with ⟨rfl, rfl⟩ | ⟨hne, hsame⟩
    · change _ ↔ _ < next.toNat
      rw [h.exact _ lane hlane nonce hi]
      have hsame : nonce = ticket.nonce ↔
          nonce.toNat / run.schedule.lanes.length = lane.nextIteration.toNat := by
        rw [← hdiv]
        constructor
        · rintro rfl
          rfl
        · intro heq
          refine UInt64.toNat_inj.mp ?_
          rw [← Nat.mod_add_div nonce.toNat run.schedule.lanes.length, heq, hi, ← hmod]
          exact Nat.mod_add_div _ _
      rw [hsame]
      omega
    · rw [h.exact _ lane' hsame nonce hi]
      refine or_iff_left fun heq => hne ?_
      rw [← hi, heq, hmod]

end

/-! ## Whole runs -/

/-- When every lane is exhausted, every nonce of the range has been completed. -/
theorem Coherent.exhausted {run : ScheduleRun} (h : run.Coherent)
    (hall : ∀ i < run.schedule.lanes.length, ∃ s, run.schedule.dispatchLane i = .ok (none, s))
    {nonce : UInt64} (hnonce : nonce < run.schedule.maxTries) :
    (run.schedule.generation, nonce) ∈ run.completions := by
  obtain ⟨s, hcall⟩ := hall _ (Nat.mod_lt nonce.toNat h.lanes_pos)
  obtain ⟨lane, hlane, -, hend⟩ := AcceleratorSchedule.dispatchLane_none hcall
  have hpartition := (h.fits _ lane hlane).partition
  have hmax := ProtocolNoncePartition.nonceAt_eq_none hend
  rw [hpartition.lane_eq, hpartition.stride_eq, hpartition.maxTries_eq, toNat_max] at hmax
  rw [UInt64.lt_iff_toNat_lt] at hnonce
  rw [h.exact _ lane hlane nonce rfl]
  have hsplit := Nat.mod_add_div nonce.toNat run.schedule.lanes.length
  refine Nat.lt_of_mul_lt_mul_left (a := run.schedule.lanes.length) ?_
  omega

end ScheduleRun

end PulseDag
