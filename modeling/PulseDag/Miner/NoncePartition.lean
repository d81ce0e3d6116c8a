import PulseDag.Lib.Except
import PulseDag.Lib.Numerals
import PulseDag.Lib.Words

/-!
# Partitions of the nonce range

`protocol_backend.rs`. The nonces below `max_tries` are divided among lanes: lane `i` of `n` tries
`i`, `i + n`, `i + 2 n` and so on. Every nonce belongs to one lane and one iteration of it.
-/

namespace PulseDag

/-- `ProtocolNoncePartition`. -/
structure ProtocolNoncePartition where
  lane : UInt64
  stride : UInt64
  maxTries : UInt64
  lane_lt_stride : lane < stride
  lane_lt_maxTries : lane < maxTries
  deriving DecidableEq

/-- `ProtocolNoncePartition::new`. -/
def ProtocolNoncePartition.new (lane stride maxTries : UInt64) :
    Except String ProtocolNoncePartition :=
  if stride = 0 then .error "protocol nonce partition stride must be non-zero"
  else if hlane : lane < stride then
    if hmax : lane < max maxTries 1 then .ok ⟨lane, stride, max maxTries 1, hlane, hmax⟩
    else .error s!"protocol nonce partition lane {lane} is outside max_tries {max maxTries 1}"
  else .error s!"protocol nonce partition lane {lane} must be smaller than stride {stride}"

/-- `ProtocolNoncePartition::nonce_at`. -/
def ProtocolNoncePartition.nonceAt (p : ProtocolNoncePartition) (iteration : UInt64) :
    Except String (Option UInt64) := do
  let offset ← okOr (checkedMul p.stride iteration)
    s!"protocol nonce partition overflow: stride {p.stride} * iteration {iteration}"
  let nonce ← okOr (checkedAdd p.lane offset)
    s!"protocol nonce partition overflow: lane {p.lane} + offset {offset}"
  pure (if nonce < p.maxTries then some nonce else none)

/-- `protocol_nonce_lane_count`. A `usize` has 64 bits, so the conversion of `max_tries`
succeeds. -/
def protocolNonceLaneCount (maxTries : UInt64) (requestedLanes : ℕ) : ℕ :=
  min (max requestedLanes 1) (max maxTries 1).toNat

/-- `protocol_nonce_partition`. -/
def protocolNoncePartition (maxTries : UInt64) (requestedLanes lane : ℕ) :
    Except String ProtocolNoncePartition := do
  let activeLanes := protocolNonceLaneCount maxTries requestedLanes
  ensure (lane < activeLanes)
    s!"protocol nonce lane {lane} is outside active lane count {activeLanes}"
  let lane ← okOr (u64TryFrom lane) "protocol nonce lane index does not fit in u64"
  let stride ← okOr (u64TryFrom activeLanes) "protocol nonce lane count does not fit in u64"
  ProtocolNoncePartition.new lane stride (max maxTries 1)

/-! ## What a lane tries -/

namespace ProtocolNoncePartition

variable {p : ProtocolNoncePartition} {iteration nonce : UInt64}

/-- The nonces of a lane. -/
theorem nonceAt_eq_some : p.nonceAt iteration = .ok (some nonce) ↔
    nonce.toNat = p.lane.toNat + p.stride.toNat * iteration.toNat ∧ nonce < p.maxTries := by
  simp only [nonceAt, ok_iff, checkedMul_eq_some, checkedAdd_eq_some]
  constructor
  · rintro ⟨offset, hoffset, next, hnext, h⟩
    split at h
    · rename_i hlt
      obtain rfl := Option.some.inj h
      exact ⟨hoffset ▸ hnext, hlt⟩
    · cases h
  · rintro ⟨hvalue, hlt⟩
    have hword := nonce.toNat_lt
    have hoffset : (UInt64.ofNat (p.stride.toNat * iteration.toNat)).toNat =
        p.stride.toNat * iteration.toNat := by
      rw [UInt64.toNat_ofNat']
      exact Nat.mod_eq_of_lt (by omega)
    exact ⟨_, hoffset, nonce, by rw [hoffset, hvalue], if_pos hlt⟩

/-- A lane has ended. -/
theorem nonceAt_eq_none (h : p.nonceAt iteration = .ok none) :
    p.maxTries.toNat ≤ p.lane.toNat + p.stride.toNat * iteration.toNat := by
  simp only [nonceAt, ok_iff, checkedMul_eq_some, checkedAdd_eq_some] at h
  obtain ⟨offset, hoffset, next, hnext, h⟩ := h
  split at h
  · cases h
  · rename_i hge
    rw [UInt64.not_lt, UInt64.le_iff_toNat_le] at hge
    omega

end ProtocolNoncePartition

/-- The lane with a given index among the active ones. -/
structure ProtocolNoncePartition.IsLane (p : ProtocolNoncePartition) (maxTries : UInt64)
    (lanes index : ℕ) : Prop where
  lane_eq : p.lane.toNat = index
  stride_eq : p.stride.toNat = lanes
  maxTries_eq : p.maxTries = max maxTries 1

/-- A partition is a lane. -/
theorem protocolNoncePartition_eq_ok {maxTries : UInt64} {requestedLanes lane : ℕ}
    {p : ProtocolNoncePartition} (h : protocolNoncePartition maxTries requestedLanes lane = .ok p) :
    p.IsLane maxTries (protocolNonceLaneCount maxTries requestedLanes) lane := by
  simp only [protocolNoncePartition, bind_eq_ok, ensure_eq_ok, exists_const, okOr_eq_ok,
    u64TryFrom_eq_some] at h
  obtain ⟨-, word, hword, stride, hstride, h⟩ := h
  unfold ProtocolNoncePartition.new at h
  split at h
  · cases h
  split at h
  · split at h
    · obtain rfl := Except.ok.inj h
      refine ⟨hword, hstride, UInt64.toNat_inj.mp ?_⟩
      rw [toNat_max, toNat_max]
      omega
    · cases h
  · cases h

/-- Counting again changes nothing. -/
theorem protocolNonceLaneCount_idem (maxTries : UInt64) (requestedLanes : ℕ) :
    protocolNonceLaneCount maxTries (protocolNonceLaneCount maxTries requestedLanes) =
      protocolNonceLaneCount maxTries requestedLanes := by
  unfold protocolNonceLaneCount
  rw [toNat_max, UInt64.toNat_one]
  omega

/-- There is a lane. -/
theorem protocolNonceLaneCount_pos (maxTries : UInt64) (requestedLanes : ℕ) :
    0 < protocolNonceLaneCount maxTries requestedLanes := by
  unfold protocolNonceLaneCount
  rw [toNat_max, UInt64.toNat_one]
  omega

end PulseDag
