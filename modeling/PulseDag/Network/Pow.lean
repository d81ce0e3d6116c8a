import PulseDag.Core.Genesis

/-!
# Proof of work and difficulty

`pow_protocol.rs`, `pow_v2.rs`, `retarget.rs` and the compact targets of `pow.rs`. A target
is the number that its 32 big-endian bytes write; comparing targets as byte arrays is
comparing these numbers.
-/

namespace PulseDag

/-- The number that big-endian bytes write. -/
def beNat (bytes : List UInt8) : ℕ := bytes.foldl (fun value byte => 256 * value + byte.toNat) 0

/-- The number of a 32-byte array filled with `0xff`. -/
def maxTarget : ℕ := 2 ^ 256 - 1

/-- `target_from_bits`. -/
def targetFromBits (bits : UInt32) : ℕ :=
  let exponent := bits.toNat / 2 ^ 24
  let mantissa := bits.toNat % 2 ^ 23
  if exponent = 0 then
    let legacy := (2 ^ 64 - 1) / max bits.toNat 1
    legacy * 2 ^ 192 + (2 ^ 192 - 1)
  else if mantissa = 0 then 0
  else if exponent ≤ 3 then mantissa / 2 ^ (8 * (3 - exponent))
  else
    let start := 32 - exponent
    if start ≥ 32 ∨ start + 3 > 32 then maxTarget
    else mantissa * 2 ^ (8 * (29 - start))

/-- The byte of a target at an index, most significant first. -/
def targetByte (target index : ℕ) : ℕ := target / 256 ^ (31 - index) % 256

/-- `bits_from_target`. -/
def bitsFromTarget (target : ℕ) : UInt32 :=
  match (List.range 32).find? fun index => targetByte target index ≠ 0 with
  | none => 0
  | some firstNonzero =>
    let byteAfter := fun offset =>
      if firstNonzero + offset < 32 then targetByte target (firstNonzero + offset) else 0
    let top := targetByte target firstNonzero
    let encoded :=
      if top > 0x7f then (32 - firstNonzero + 1, top * 2 ^ 8 + byteAfter 1)
      else (32 - firstNonzero, top * 2 ^ 16 + byteAfter 1 * 2 ^ 8 + byteAfter 2)
    UInt32.ofNat (encoded.1 * 2 ^ 24 + encoded.2 % 2 ^ 23)

/-! ## Retargeting -/

/-- `CONSENSUS_TARGET_BLOCK_INTERVAL_SECS`. -/
def consensusTargetBlockIntervalSecs : UInt64 := 60

/-- `CONSENSUS_MIN_TARGET_BITS`. -/
def consensusMinTargetBits : UInt32 := 0x01010000

/-- `CONSENSUS_DIFFICULTY_WINDOW`. -/
def consensusDifficultyWindow : ℕ := 20

/-- `CONSENSUS_DIFFICULTY_USE_MEDIAN`. -/
def consensusDifficultyUseMedian : Bool := false

/-- `CONSENSUS_RETARGET_DEADBAND_BPS`. -/
def consensusRetargetDeadbandBps : ℕ := 800

/-- `CONSENSUS_RETARGET_DAMPING_DIVISOR`. -/
def consensusRetargetDampingDivisor : ℤ := 2

/-- `CONSENSUS_RETARGET_MIN_BPS`. -/
def consensusRetargetMinBps : ℕ := 8000

/-- `CONSENSUS_RETARGET_MAX_BPS`. -/
def consensusRetargetMaxBps : ℕ := 12500

/-- `BPS_DENOMINATOR`. -/
def bpsDenominator : ℕ := 10000

/-- The loop of `consensus_recent_blocks_from_parent`, down the selected parents. It stops
at a block that is unknown or collected before, or at the limit; the second component says
whether a known block was seen. -/
def recentBlocksFrom (state : ChainState) (limit : ℕ) :
    ℕ → Option Hash → List Block → Bool → List Block × Bool
  | 0, _, recent, sawKnownBlock => (recent, sawKnownBlock)
  | _, none, recent, sawKnownBlock => (recent, sawKnownBlock)
  | fuel + 1, some hash, recent, sawKnownBlock =>
    match state.dag.blocks[hash]? with
    | none => (recent, sawKnownBlock)
    | some block =>
      let parent := (state.dag.selectedParents[hash]?).join
      if recent.any fun known => known.hash = hash then (recent, true)
      else if block.header.height > 0 ∧ block.header.timestamp > 0 then
        if (recent ++ [block]).length ≥ limit then (recent ++ [block], true)
        else recentBlocksFrom state limit fuel parent (recent ++ [block]) true
      else recentBlocksFrom state limit fuel parent recent true

/-- `consensus_recent_blocks_from_parent`. Selected parents never form a cycle in a DAG that
was built by commits, so the walk ends within the number of blocks. -/
def consensusRecentBlocksFromParent (state : ChainState) (parentHash : Hash) (windowSize : ℕ) :
    Option (List Block) :=
  let walk := recentBlocksFrom state (max windowSize 2) (state.dag.blocks.size + 1)
    (some parentHash) [] false
  if walk.2 then some walk.1 else none

/-- `consensus_recent_intervals_secs`. -/
def consensusRecentIntervalsSecs : List Block → List UInt64
  | newer :: older :: rest =>
    saturatingSub newer.header.timestamp older.header.timestamp ::
      consensusRecentIntervalsSecs (older :: rest)
  | _ => []

/-- `consensus_median`. -/
def consensusMedian (values : List UInt64) : UInt64 :=
  let sorted := values.insertionSort (· ≤ ·)
  let mid := sorted.length / 2
  if values.isEmpty then 0
  else if sorted.length % 2 = 0 then
    saturatingAdd (sorted[mid - 1]?.getD 0) (sorted[mid]?.getD 0) / 2
  else sorted[mid]?.getD 0

/-- `consensus_recent_block_interval_secs_with_mode`; the sum wraps. -/
def consensusRecentBlockIntervalSecsWithMode (window : List Block) (useMedian : Bool) : UInt64 :=
  let intervals := consensusRecentIntervalsSecs window
  if intervals.isEmpty then 0
  else if useMedian then consensusMedian intervals
  else intervals.foldl (· + ·) 0 / UInt64.ofNat intervals.length

/-- `consensus_average_block_interval_secs`. -/
def consensusAverageBlockIntervalSecs (recentBlocks : List Block) : UInt64 :=
  if recentBlocks.length < 2 then consensusTargetBlockIntervalSecs
  else max (consensusRecentBlockIntervalSecsWithMode recentBlocks consensusDifficultyUseMedian) 1

/-- `consensus_current_bits_from_blocks`. -/
def consensusCurrentBitsFromBlocks (recentBlocks : List Block) : UInt32 :=
  match recentBlocks.find? fun block => block.header.height > 0 with
  | some block => block.header.difficulty
  | none => consensusPowLimitBits

/-- `consensus_retarget_multiplier_bps`. -/
def consensusRetargetMultiplierBps (avgBlockIntervalSecs : UInt64) : ℕ :=
  if avgBlockIntervalSecs = 0 then bpsDenominator
  else
    let raw := consensusTargetBlockIntervalSecs.toNat * bpsDenominator /
      max avgBlockIntervalSecs.toNat 1
    if bpsDenominator - consensusRetargetDeadbandBps ≤ raw ∧
        raw ≤ bpsDenominator + consensusRetargetDeadbandBps then bpsDenominator
    else
      let deviation : ℤ := (raw : ℤ) - bpsDenominator
      let damped := bpsDenominator + deviation.tdiv consensusRetargetDampingDivisor
      min (max damped.toNat consensusRetargetMinBps) consensusRetargetMaxBps

/-- `consensus_target_multiplier_bps_from_work_multiplier`. -/
def consensusTargetMultiplierBpsFromWorkMultiplier (workMultiplierBps : ℕ) : ℕ :=
  (bpsDenominator * bpsDenominator + workMultiplierBps / 2) / max workMultiplierBps 1

/-- `target_to_limbs`: the four 64-bit limbs, most significant first. -/
def targetToLimbs (target : ℕ) : List ℕ :=
  [target / 2 ^ 192 % 2 ^ 64, target / 2 ^ 128 % 2 ^ 64, target / 2 ^ 64 % 2 ^ 64, target % 2 ^ 64]

/-- `limbs_to_target`. -/
def limbsToTarget (limbs : List ℕ) : ℕ := limbs.foldl (fun value limb => value * 2 ^ 64 + limb) 0

/-- The first loop of `scale_target_ratio`: the limbs of the product, and the carry out of the
highest one. -/
def scaleLimbs (numerator : ℕ) : List ℕ → List ℕ × ℕ
  | [] => ([], 0)
  | limb :: rest =>
    let scaled := scaleLimbs numerator rest
    let value := limb * numerator + scaled.2
    (value % 2 ^ 64 :: scaled.1, value / 2 ^ 64)

/-- The second loop of `scale_target_ratio`: long division from the highest limb. -/
def divideLimbs (divisor : ℕ) : List ℕ → ℕ → List ℕ
  | [], _ => []
  | limb :: rest, remainder =>
    let dividend := remainder * 2 ^ 64 + limb
    dividend / divisor % 2 ^ 64 :: divideLimbs divisor rest (dividend % divisor)

/-- `scale_target_ratio`: the scaled target and whether it overflowed. -/
def scaleTargetRatio (target numerator denominator : ℕ) : ℕ × Bool :=
  let scaled := scaleLimbs numerator (targetToLimbs target)
  let quotient := divideLimbs (max denominator 1) (scaled.2 % 2 ^ 64 :: scaled.1) 0
  (limbsToTarget (quotient.drop 1), quotient.headD 0 ≠ 0)

/-- `consensus_adjust_target_for_interval`: the bits, their target and whether the target was
clamped to the limit. -/
def consensusAdjustTargetForInterval (currentBits : UInt32) (avgBlockIntervalSecs : UInt64) :
    UInt32 × ℕ × Bool :=
  let powLimit := targetFromBits consensusPowLimitBits
  let minTarget := targetFromBits consensusMinTargetBits
  let currentTarget := targetFromBits currentBits
  let boundedCurrent :=
    if currentTarget > powLimit then powLimit
    else if currentTarget < minTarget then minTarget
    else currentTarget
  let targetMultiplierBps := consensusTargetMultiplierBpsFromWorkMultiplier
    (consensusRetargetMultiplierBps avgBlockIntervalSecs)
  let scaled := scaleTargetRatio boundedCurrent targetMultiplierBps bpsDenominator
  let scaledWasAbovePowLimit := scaled.2 || decide (scaled.1 > powLimit)
  let bounded :=
    if scaledWasAbovePowLimit then powLimit
    else if scaled.1 < minTarget then minTarget
    else scaled.1
  let bits := bitsFromTarget bounded
  (bits, targetFromBits bits, decide (currentTarget > powLimit) || scaledWasAbovePowLimit)

/-- `expected_difficulty_for_parent`. -/
def expectedDifficultyForParent (state : ChainState) (parentHash : Hash) : Option UInt32 := do
  let recentBlocks ← consensusRecentBlocksFromParent state parentHash consensusDifficultyWindow
  let avgBlockIntervalSecs := consensusAverageBlockIntervalSecs recentBlocks
  let currentBits := consensusCurrentBitsFromBlocks recentBlocks
  pure (consensusAdjustTargetForInterval currentBits avgBlockIntervalSecs).1

/-! ## The proof of work of a header -/

/-- `PowValidationPath`. -/
inductive PowValidationPath
  | legacyV1
  | activatedV2
  deriving DecidableEq, Repr

/-- `PowTargetComparison`. -/
inductive PowTargetComparison
  | meetsTarget
  | aboveTarget
  deriving DecidableEq, Repr

/-- `PowRejectReason`. -/
inductive PowRejectReason
  | parentCountTooLarge
  | parentHashTooLong
  | merkleRootTooLong
  | stateRootTooLong
  | scoreAboveTarget
  deriving DecidableEq, Repr

/-- `PowRejectReason::code`. -/
def PowRejectReason.code : PowRejectReason → String
  | .parentCountTooLarge => "parent_count_too_large"
  | .parentHashTooLong => "parent_hash_too_long"
  | .merkleRootTooLong => "merkle_root_too_long"
  | .stateRootTooLong => "state_root_too_long"
  | .scoreAboveTarget => "score_above_target"

/-- The part of `CanonicalPowAttempt` that validation reads, and what it is computed from. -/
structure CanonicalPowAttempt where
  prePowBytes : List UInt8
  nonce : UInt64
  target : ℕ
  hash : List UInt8
  comparison : PowTargetComparison

/-- A string of a mining preimage, behind its 16-bit length. -/
def encodeLen16PrefixedStr (value : String) : List UInt8 :=
  leBytes 2 (asBytes value).length ++ asBytes value

/-- `canonical_mining_preimage_bytes`, the version 1 layout. -/
def canonicalMiningPreimageBytes (header : BlockHeader) : List UInt8 :=
  [1] ++ u32LeBytes header.version ++ leBytes 2 header.parents.length ++
    (header.parents.insertionSort (· ≤ ·)).flatMap encodeLen16PrefixedStr ++
    u64LeBytes header.timestamp ++ u32LeBytes header.difficulty ++
    encodeLen16PrefixedStr header.merkleRoot ++ encodeLen16PrefixedStr header.stateRoot ++
    u64LeBytes header.blueScore ++ u64LeBytes header.height

/-- `validate_pow_preimage_encoding`. -/
def validatePowPreimageEncoding (header : BlockHeader) : Except PowRejectReason Unit := do
  ensure (header.parents.length ≤ 65535) .parentCountTooLarge
  ensure (∀ parent ∈ header.parents, (asBytes parent).length ≤ 65535) .parentHashTooLong
  ensure ((asBytes header.merkleRoot).length ≤ 65535) .merkleRootTooLong
  ensure ((asBytes header.stateRoot).length ≤ 65535) .stateRootTooLong

/-- `pow_protocol::invalid_identity`. -/
def invalidPowIdentity (message : String) : PulseError :=
  .invalidBlock ("invalid protocol activation identity: " ++ message)

/-- `resolve_validated_pow_identity_path`. -/
def resolveValidatedPowIdentityPath (identity : ProtocolActivationIdentity) :
    Except PulseError PowValidationPath :=
  if identity.transactionProtocolVersion = transactionVersionV1 ∧
      identity.blockHeaderProtocolVersion = blockHeaderVersionV1 ∧
      (identity.consensusMode = .legacy ∨ identity.consensusMode = .ghostdagDev) then
    .ok .legacyV1
  else if identity.transactionProtocolVersion = transactionVersionV2 ∧
      identity.blockHeaderProtocolVersion = blockHeaderVersionV2 ∧
      identity.consensusMode = .ghostdagV1 then
    .ok .activatedV2
  else
    .error (invalidPowIdentity "mixed or unsupported transaction/header/consensus version tuple")

/-- `resolve_pow_validation_path`. -/
def resolvePowValidationPath (identity : ProtocolActivationIdentity) (state : ChainState) :
    Except PulseError PowValidationPath := do
  Except.mapError invalidPowIdentity identity.validate
  ensure (identity.chainId = state.chainId) .chainIdMismatch
  ensure (identity.genesisHash = state.dag.genesisHash)
    (invalidPowIdentity "genesis hash does not match chain state")
  resolveValidatedPowIdentityPath identity

section

variable [Crypto]

/-- `evaluate_material_with_nonce` of both adapters. -/
def evaluateMaterialWithNonce (prePowBytes : List UInt8) (nonce : UInt64) (bits : UInt32) :
    CanonicalPowAttempt :=
  let hash := Crypto.kHeavyHashDigest prePowBytes nonce
  let target := targetFromBits bits
  { prePowBytes := prePowBytes
    nonce := nonce
    target := target
    hash := hash
    comparison := if beNat hash ≤ target then .meetsTarget else .aboveTarget }

/-- `evaluate_pow_for_protocol`. -/
def evaluatePowForProtocol (header : BlockHeader) (state : ChainState)
    (identity : ProtocolActivationIdentity) : Except PulseError CanonicalPowAttempt := do
  let path ← resolvePowValidationPath identity state
  ensure (header.version = identity.blockHeaderProtocolVersion) (.invalidBlock
    ("protocol identity requires block header version " ++
      s!"{identity.blockHeaderProtocolVersion}, got {header.version}"))
  match path with
  | .legacyV1 => do
    Except.mapError (fun reason => .invalidBlock ("invalid PoW preimage: " ++ reason.code))
      (validatePowPreimageEncoding header)
    pure (evaluateMaterialWithNonce (canonicalMiningPreimageBytes header) header.nonce
      header.difficulty)
  | .activatedV2 => do
    let prePowBytes ← canonicalBlockHeaderMaterialV2 header identity.chainId false
    pure (evaluateMaterialWithNonce prePowBytes header.nonce header.difficulty)

/-- `validate_pow_for_protocol`. -/
def validatePowForProtocol (header : BlockHeader) (state : ChainState)
    (identity : ProtocolActivationIdentity) : Except PulseError Unit := do
  let attempt ← evaluatePowForProtocol header state identity
  ensure (attempt.comparison = .meetsTarget) (.invalidBlock "proof of work is above target")

end

end PulseDag
