import PulseDag.Mempool.Reconcile

/-!
# Resource limits of the mempool

`mempool_resource_v1.rs`, with the sizes it needs: the canonical bytes of a transaction of any
version and the length of its JSON carrier message. `normalize_production_mempool_resources_v1`
sets the production caps and drops what is too old, too large or too much.
-/

namespace PulseDag

/-- `TRANSACTION_VERSION_V3`. -/
def transactionVersionV3 : UInt32 := 3

/-! ## Hybrid key and signature envelopes -/

/-- `invalid_pqc_field`. -/
def invalidPqcField (field reason : String) : PulseError :=
  .invalidTransaction s!"invalid post-quantum {field}: {reason}"

/-- `decode_canonical_hex`. -/
def decodeCanonicalHex (field : String) (encoded : List Char) (expectedBytes : ℕ) :
    Except PulseError (List UInt8) := do
  ensure ((asBytes (String.ofList encoded)).length = 2 * expectedBytes)
    (invalidPqcField field "unexpected encoded length")
  ensure (∀ c ∈ encoded, c.isDigit = true ∨ ('a' ≤ c ∧ c ≤ 'f'))
    (invalidPqcField field "must use canonical lowercase hexadecimal")
  okOr (hexDecodeChars encoded) (invalidPqcField field "invalid hexadecimal")

/-- `split_envelope`. -/
def splitEnvelope (field envelope : String) : Except PulseError (List Char × List Char) :=
  match envelope.toList.splitOn ':' with
  | [] => .error (invalidPqcField field "missing version")
  | [_] => .error (invalidPqcField field "missing Ed25519 component")
  | [_, _] => .error (invalidPqcField field "missing ML-DSA-65 component")
  | [version, classical, postQuantum] =>
    if version = "pqc1".toList then .ok (classical, postQuantum)
    else .error (invalidPqcField field "unsupported envelope version")
  | _ => .error (invalidPqcField field "unexpected extra component")

/-- `decode_hybrid_public_key_v1`: the two keys. -/
def decodeHybridPublicKeyV1 (envelope : String) : Except PulseError (List UInt8 × List UInt8) := do
  let (ed25519, mlDsa65) ← splitEnvelope "public key" envelope
  let classical ← decodeCanonicalHex "Ed25519 public key" ed25519 32
  let postQuantum ← decodeCanonicalHex "ML-DSA-65 public key" mlDsa65 1952
  pure (classical, postQuantum)

/-- `decode_hybrid_signature_v1`: the two signatures. -/
def decodeHybridSignatureV1 (envelope : String) : Except PulseError (List UInt8 × List UInt8) := do
  let (ed25519, mlDsa65) ← splitEnvelope "signature" envelope
  let classical ← decodeCanonicalHex "Ed25519 signature" ed25519 64
  let postQuantum ← decodeCanonicalHex "ML-DSA-65 signature" mlDsa65 3309
  pure (classical, postQuantum)

/-- `validate_v3_domain`. -/
def validateV3Domain (tx : Transaction) (chainId : String) : Except PulseError Unit := do
  ensure (tx.version = transactionVersionV3) (.invalidTransaction
    s!"transaction/signing v3 requires version {transactionVersionV3}, got {tx.version}")
  ensure (chainId ≠ "") .chainIdMismatch

/-- `canonical_transaction_bytes_v3`. -/
def canonicalTransactionBytesV3 (tx : Transaction) (chainId : String) :
    Except PulseError (List UInt8) := do
  validateV3Domain tx chainId
  tx.inputs.forM fun input => discard (decodeHybridPublicKeyV1 input.publicKey)
  tx.inputs.forM fun input => discard (decodeHybridSignatureV1 input.signature)
  pure (encodeLenPrefixedStr "PulseDAG:tx:v3:pqc1" ++ encodeLenPrefixedStr chainId ++
    transactionBodyBytes canonicalTxInputBytes tx)

/-! ## Sizes -/

/-- `canonical_transaction_size_for_mempool_v3`. -/
def canonicalTransactionSizeForMempoolV3 (tx : Transaction) (chainId : String) :
    Except PulseError ℕ := do
  let bytes ←
    if tx.version = transactionVersionV1 then pure (canonicalTransactionBytes tx)
    else if tx.version = transactionVersionV2 then canonicalTransactionBytesV2 tx chainId
    else if tx.version = transactionVersionV3 then canonicalTransactionBytesV3 tx chainId
    else .error (.invalidTransaction
      s!"mempool v3 canonical-size policy does not support transaction version {tx.version}")
  pure bytes.length

/-- A character of a JSON string as `serde_json` writes it. -/
def jsonChar (c : Char) : String :=
  if c = '"' then "\\\""
  else if c = '\\' then "\\\\"
  else if c.toNat = 8 then "\\b"
  else if c.toNat = 9 then "\\t"
  else if c.toNat = 10 then "\\n"
  else if c.toNat = 12 then "\\f"
  else if c.toNat = 13 then "\\r"
  else if c.toNat < 32 then
    "\\u00" ++ String.ofList [hexDigit (c.toNat / 16), hexDigit (c.toNat % 16)]
  else String.singleton c

/-- A JSON string. -/
def jsonString (value : String) : String :=
  "\"" ++ String.join (value.toList.map jsonChar) ++ "\""

/-- A JSON array. -/
def jsonArray (items : List String) : String := "[" ++ ",".intercalate items ++ "]"

/-- A JSON object. -/
def jsonObject (fields : List (String × String)) : String :=
  "\x7b" ++ ",".intercalate (fields.map fun field => jsonString field.1 ++ ":" ++ field.2) ++ "\x7d"

/-- The JSON text of a transaction. -/
def jsonTransaction (tx : Transaction) : String :=
  jsonObject [
    ("txid", jsonString tx.txid),
    ("version", toString tx.version),
    ("inputs", jsonArray (tx.inputs.map fun input => jsonObject [
      ("previous_output", jsonObject [
        ("txid", jsonString input.previousOutput.txid),
        ("index", toString input.previousOutput.index)]),
      ("public_key", jsonString input.publicKey),
      ("signature", jsonString input.signature)])),
    ("outputs", jsonArray (tx.outputs.map fun output => jsonObject [
      ("address", jsonString output.address),
      ("amount", toString output.amount)])),
    ("fee", toString tx.fee),
    ("nonce", toString tx.nonce)]

/-- `transaction_message_size_for_resource_v1`: the length of `NewTransaction` in JSON. -/
def transactionMessageSizeForResourceV1 (tx : Transaction) (chainId : String) : ℕ :=
  (asBytes (jsonObject [
    ("type", jsonString "NewTransaction"),
    ("chain_id", jsonString chainId),
    ("transaction", jsonTransaction tx)])).length

/-! ## Normalization -/

/-- `MempoolResourcePolicyV1` with `production_default`; the two versions are left out. -/
structure MempoolResourcePolicyV1 where
  maxTransactions : ℕ := 4096
  maxSpentOutpoints : ℕ := 8192
  maxOrphans : ℕ := 512
  maxTransactionBytes : ℕ := 64 * 1024
  liveMaxAgeBlocks : UInt64 := 1440
  orphanMaxAgeBlocks : UInt64 := 1440

/-- `MEMPOOL_RESOURCE_MAX_TRANSACTION_MESSAGE_BYTES_V1`. -/
def mempoolResourceMaxTransactionMessageBytesV1 : ℕ := 64 * 1024

/-- `apply_production_mempool_resource_caps_v1`. -/
def Mempool.withProductionCaps (mempool : Mempool) : Mempool :=
  let policy : MempoolResourcePolicyV1 := {}
  { mempool with
    maxTransactions := policy.maxTransactions
    maxSpentOutpoints := policy.maxSpentOutpoints
    maxOrphans := policy.maxOrphans }

/-- `transaction_fits_production_resource_v1`. -/
def transactionFitsProductionResourceV1 (tx : Transaction) (chainId : String)
    (policy : MempoolResourcePolicyV1) : Bool :=
  (match canonicalTransactionSizeForMempoolV3 tx chainId with
    | .ok size => decide (size ≤ policy.maxTransactionBytes)
    | .error _ => false) &&
  decide (transactionMessageSizeForResourceV1 tx chainId ≤
    mempoolResourceMaxTransactionMessageBytesV1)

/-- Count evicted transactions. -/
def Mempool.countEvicted (mempool : Mempool) (count : ℕ) : Mempool :=
  { mempool with counters := { mempool.counters with
      evictedTotal := saturatingAdd mempool.counters.evictedTotal (UInt64.ofNat count) } }

/-- `remove_live_package`: the pool without the package of some roots, and what was removed. -/
def Mempool.removeLivePackage (mempool : Mempool) (roots : List Hash) : Mempool × List Hash :=
  let removed := (packageFromRoots mempool roots).toList.filter (· ∈ mempool.transactions)
  let left := removed.foldl Mempool.removeLive mempool
  (if removed = [] then left else left.rebuildSpentOutpoints, removed)

/-- The order of victims: lower fees first, then larger ids. -/
def compareVictims (a b : Transaction) : Ordering :=
  (compare a.fee b.fee).then (compare b.txid a.txid)

/-- `Iterator::min_by`: of several least elements the first. -/
def minBy {α : Type} (cmp : α → α → Ordering) : List α → Option α
  | [] => none
  | first :: rest =>
    some (rest.foldl (fun best item => if cmp best item = .gt then item else best) first)

/-- `lowest_live_resource_victim`, and `lowest_priority_txid` of `accept.rs`. -/
def Mempool.lowestVictim (mempool : Mempool) : Option Hash :=
  (minBy compareVictims mempool.live).map Transaction.txid

/-- The eviction loop. Every round removes a transaction, so the size of the pool bounds the
rounds. -/
def Mempool.evictToCaps : ℕ → Mempool → Mempool
  | 0, mempool => mempool
  | fuel + 1, mempool =>
    if mempool.maxTransactions < mempool.transactions.size ∨
        mempool.maxSpentOutpoints < mempool.spentOutpoints.size then
      match mempool.lowestVictim with
      | none => mempool
      | some victim =>
        let (left, removed) := mempool.removeLivePackage [victim]
        if removed = [] then left else evictToCaps fuel (left.countEvicted removed.length)
    else mempool

/-- `remove_orphan`. -/
def Mempool.dropOrphan (mempool : Mempool) (txid : Hash) : Mempool :=
  let removed := decide (txid ∈ mempool.orphanTransactions)
  let left := { mempool with
    orphanTransactions := mempool.orphanTransactions.erase txid
    orphanMissingOutpoints := mempool.orphanMissingOutpoints.erase txid
    orphanReceivedOrder := mempool.orphanReceivedOrder.erase txid
    orphanAdmissionHeight := mempool.orphanAdmissionHeight.erase txid }
  if removed then
    { left with counters := { left.counters with
        orphanDroppedTotal := saturatingAdd left.counters.orphanDroppedTotal 1
        orphanPrunedTotal := saturatingAdd left.counters.orphanPrunedTotal 1 } }
  else left

/-- `logical_expired`. -/
def logicalExpired (currentHeight admissionHeight maxAgeBlocks : UInt64) : Bool :=
  match checkedAdd admissionHeight maxAgeBlocks with
  | none => false
  | some deadline => decide (deadline ≤ currentHeight)

/-- `deterministic_orphan_victims`. -/
def Mempool.orphanVictims (mempool : Mempool) : List Hash :=
  ((mempool.orphanTransactions.toList.map Prod.snd).insertionSort fun a b =>
    (compareVictims a b).isLE).map Transaction.txid

/-- Give every transaction of a map without an admission height the current one. -/
def seedAdmissionHeights (transactions : TreeMap Hash Transaction) (heights : TreeMap Hash UInt64)
    (currentHeight : UInt64) : TreeMap Hash UInt64 :=
  transactions.keys.foldl (fun heights txid =>
    if txid ∈ heights then heights else heights.insert txid currentHeight) heights

/-- Keep the orphan records of the orphans that are left. -/
def Mempool.retainOrphans (mempool : Mempool) : Mempool :=
  { mempool with
    orphanMissingOutpoints := retainTransactions mempool.orphanMissingOutpoints
      mempool.orphanTransactions
    orphanReceivedOrder := retainTransactions mempool.orphanReceivedOrder mempool.orphanTransactions
    orphanAdmissionHeight := retainTransactions mempool.orphanAdmissionHeight
      mempool.orphanTransactions }

/-- The orphan part of the normalization: drop expired orphans, then those that are too large,
then the least valuable ones above the cap. -/
def Mempool.normalizeOrphans (mempool : Mempool) (chainId : String) (currentHeight : UInt64) :
    Mempool :=
  let policy : MempoolResourcePolicyV1 := {}
  let expired := fun txid =>
    (mempool.orphanAdmissionHeight[txid]?.map fun height =>
      logicalExpired currentHeight height policy.orphanMaxAgeBlocks).getD false
  let oversized := fun txid =>
    (mempool.orphanTransactions[txid]?.map fun tx =>
      !transactionFitsProductionResourceV1 tx chainId policy).getD false
  let orphans := mempool.orphanTransactions.keys
  let kept := (orphans.filter expired ++ orphans.filter fun txid => !expired txid && oversized txid)
    |>.foldl Mempool.dropOrphan mempool
  (kept.orphanVictims.take (kept.orphanTransactions.size - kept.maxOrphans)).foldl
    Mempool.dropOrphan kept

/-- The part of the normalization before the eviction loop: caps, admission heights, expiry and
size. -/
def normalizeLive (state : ChainState) (currentHeight : UInt64) : Mempool :=
  let policy : MempoolResourcePolicyV1 := {}
  let capped := state.mempool.withProductionCaps
  let seeded := { capped with
    admissionHeight := seedAdmissionHeights capped.transactions capped.admissionHeight currentHeight
    orphanAdmissionHeight := seedAdmissionHeights capped.orphanTransactions
      capped.orphanAdmissionHeight currentHeight }
  let pruned := (pruneExpiredMempool { state with mempool := seeded } currentHeight
    policy.liveMaxAgeBlocks).1.mempool
  let oversized := pruned.transactions.toList.filterMap fun entry =>
    if transactionFitsProductionResourceV1 entry.2 state.chainId policy then none else some entry.1
  let (fitting, removed) := pruned.removeLivePackage oversized
  (if removed = [] then fitting else fitting.countEvicted removed.length).rebuildSpentOutpoints

/-- `normalize_production_mempool_resources_v1`. The lists it returns are left out: its callers
here ignore them. -/
def normalizeProductionMempoolResourcesV1 (state : ChainState) : ChainState :=
  let currentHeight := mempoolLogicalClock state
  let live := normalizeLive state currentHeight
  let evicted := live.evictToCaps live.transactions.size
  let orphans := evicted.normalizeOrphans state.chainId currentHeight
  { state with mempool := orphans.retainLive.retainOrphans }

end PulseDag
