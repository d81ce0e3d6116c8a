import PulseDag.Core.Identity
import PulseDag.Lib.PairTree
import PulseDag.Network.Acceptance
import PulseDag.Network.ReceiverIndependence

/-!
# The Merkle root commits to the transactions

`compute_merkle_root_from_txids` pairs an odd last node with itself, so lists that repeat their
last entries share a root. Lists of distinct ids do not: level by level no node is repeated, the
pairs of a level determine it, and leaves and nodes are hashed under different domains, so trees of
different heights cannot meet. A digest of 32 bytes has collisions somewhere. The statements ask for
none among the inputs that the two trees hash.
-/

namespace PulseDag

open List

/-- A canonical transaction id: the hexadecimal text of 32 bytes. -/
def CanonicalTxid (txid : Hash) : Prop :=
  ∃ bytes : List UInt8, bytes.length = 32 ∧ txid = hexEncode bytes

/-- The bytes that `merkle_leaf` hashes. -/
def merkleLeafInput (txid : Hash) : List UInt8 :=
  asBytes "PulseDAG:merkle-leaf:v1" ++
    match hexDecode txid with
    | some bytes => if bytes.length = 32 then bytes else asBytes txid
    | none => asBytes txid

/-- The bytes that `merkle_parent` hashes. -/
def merkleNodeInput (pair : List UInt8 × List UInt8) : List UInt8 :=
  asBytes "PulseDAG:merkle-node:v1" ++ pair.1 ++ pair.2

/-- The preimage of a leaf with a canonical id. -/
theorem merkleLeafInput_hexEncode {bytes : List UInt8} (h : bytes.length = 32) :
    merkleLeafInput (hexEncode bytes) = asBytes "PulseDAG:merkle-leaf:v1" ++ bytes := by
  simp only [merkleLeafInput, hexDecode_hexEncode, h, ↓reduceIte]

/-- Different ids have different leaves. -/
theorem merkleLeafInput_inj {txid txid' : Hash} (h : CanonicalTxid txid) (h' : CanonicalTxid txid')
    (heq : merkleLeafInput txid = merkleLeafInput txid') : txid = txid' := by
  obtain ⟨bytes, hbytes, rfl⟩ := h
  obtain ⟨bytes', hbytes', rfl⟩ := h'
  rw [merkleLeafInput_hexEncode hbytes, merkleLeafInput_hexEncode hbytes'] at heq
  rw [append_cancel_left heq]

/-- Different pairs have different nodes. -/
theorem merkleNodeInput_inj {p q : List UInt8 × List UInt8} (hlength : p.1.length = q.1.length)
    (heq : merkleNodeInput p = merkleNodeInput q) : p = q := by
  simp only [merkleNodeInput, append_assoc] at heq
  obtain ⟨hfst, hsnd⟩ := append_inj (append_cancel_left heq) hlength
  exact Prod.ext hfst hsnd

/-- The two domains have one length and differ. -/
theorem merkleLeafInput_ne_merkleNodeInput (txid : Hash) (pair : List UInt8 × List UInt8) :
    merkleLeafInput txid ≠ merkleNodeInput pair := by
  intro heq
  rw [merkleLeafInput, merkleNodeInput, append_assoc] at heq
  have hdomain := (append_inj heq (by decide +kernel)).1
  exact absurd hdomain (by decide +kernel)

section

variable [Crypto]

/-- `merkle_parent` of a pair. -/
def merkleNode (pair : List UInt8 × List UInt8) : List UInt8 := merkleParent pair.1 pair.2

/-- A level is paired up. -/
theorem merkleNextLevel_eq_pairUp (level : List (List UInt8)) :
    merkleNextLevel level = pairUp merkleNode level := by
  induction level using neighbours.induct with
  | case1 => rfl
  | case2 last => rfl
  | case3 left right rest ih =>
    rw [merkleNextLevel, ih]
    rfl

/-- A level has half as many nodes. -/
theorem length_merkleNextLevel (level : List (List UInt8)) :
    (merkleNextLevel level).length = (level.length + 1) / 2 := by
  induction level using neighbours.induct with
  | case1 => rfl
  | case2 last => simp [merkleNextLevel]
  | case3 left right rest ih =>
    simp only [merkleNextLevel, length_cons, ih]
    omega

/-- The pairs that the reduction of a level hashes. -/
def merklePairs : ℕ → List (List UInt8) → List (List UInt8 × List UInt8)
  | 0, _ => []
  | fuel + 1, level =>
    if level.length > 1 then neighbours level ++ merklePairs fuel (merkleNextLevel level) else []

/-- All inputs that the root of a list of ids hashes. -/
def merkleHashInputs (txids : List Hash) : List (List UInt8) :=
  txids.map merkleLeafInput ++
    (merklePairs txids.length (txids.map merkleLeaf)).map merkleNodeInput

variable {level : List (List UInt8)} {txids : List Hash} {chainId : String} {block : Block}

/-- With as much fuel as nodes the reduction ends in one node, a number of levels up. -/
theorem merkleReduce_eq {fuel : ℕ} (hne : level ≠ []) (hfuel : level.length ≤ fuel) : ∃ depth,
      (pairUp merkleNode)^[depth] level = [merkleReduce fuel level] ∧
      merklePairs fuel level = treePairs merkleNode depth level := by
  induction fuel generalizing level with
  | zero => exact absurd (length_eq_zero_iff.mp (Nat.le_zero.mp hfuel)) hne
  | succ fuel ih =>
    have hpos := length_pos_iff.mpr hne
    by_cases hlong : level.length > 1
    · have hnext := length_merkleNextLevel level
      have hnextNe : merkleNextLevel level ≠ [] := length_pos_iff.mp (by omega)
      obtain ⟨depth, hroot, hpairs⟩ := ih hnextNe (by omega)
      refine ⟨depth + 1, ?_, ?_⟩
      · rw [Function.iterate_succ_apply, ← merkleNextLevel_eq_pairUp, hroot, merkleReduce,
          if_pos hlong]
      · rw [merklePairs, if_pos hlong, hpairs, treePairs, merkleNextLevel_eq_pairUp]
    · obtain ⟨node, rfl⟩ := length_eq_one_iff.mp (show level.length = 1 by omega)
      exact ⟨0, rfl, rfl⟩

/-- The digest has 32 bytes. -/
def DigestLength : Prop := ∀ bytes, (Crypto.sha256 bytes).length = 32

/-- The digest has no collision among the listed inputs. -/
def DigestInjOn (inputs : List (List UInt8)) : Prop :=
  ∀ a ∈ inputs, ∀ b ∈ inputs, Crypto.sha256 a = Crypto.sha256 b → a = b

instance (inputs : List (List UInt8)) : Decidable (DigestInjOn inputs) :=
  inferInstanceAs (Decidable (∀ a ∈ inputs, ∀ b ∈ inputs, Crypto.sha256 a = Crypto.sha256 b →
    a = b))

/-- Fewer inputs collide less. -/
theorem DigestInjOn.mono {inputs others : List (List UInt8)} (h : DigestInjOn others)
    (hsub : inputs ⊆ others) : DigestInjOn inputs := fun a ha b hb => h a (hsub ha) b (hsub hb)

/-- The nodes of the tree are digests. -/
theorem length_of_mem_treePairs (hlen : DigestLength) {depth : ℕ}
    (hlevel : ∀ node ∈ level, node.length = 32) :
    ∀ pair ∈ treePairs merkleNode depth level, pair.1.length = 32 := by
  induction depth generalizing level with
  | zero => exact fun pair hpair => nomatch hpair
  | succ depth ih =>
    intro pair hpair
    rcases mem_append.mp hpair with hhere | habove
    · exact hlevel _ (mem_of_mem_neighbours hhere).1
    · refine ih (fun node hnode => ?_) pair habove
      obtain ⟨below, -, rfl⟩ := mem_map.mp hnode
      exact hlen _

/-- Where the digest has no collision, neither has the node function. -/
theorem DigestInjOn.collisionFreeOn {pairs : List (List UInt8 × List UInt8)}
    (h : DigestInjOn (pairs.map merkleNodeInput)) (hlength : ∀ pair ∈ pairs, pair.1.length = 32) :
    CollisionFreeOn merkleNode pairs := by
  intro p hp q hq heq
  refine merkleNodeInput_inj ((hlength p hp).trans (hlength q hq).symm) ?_
  exact h _ (mem_map_of_mem hp) _ (mem_map_of_mem hq) heq

/-- Different ids have different digests. -/
theorem DigestInjOn.leaf_inj (h : DigestInjOn (txids.map merkleLeafInput))
    (hcanonical : ∀ txid ∈ txids, CanonicalTxid txid) :
    ∀ a ∈ txids, ∀ b ∈ txids, merkleLeaf a = merkleLeaf b → a = b := by
  intro a ha b hb heq
  refine merkleLeafInput_inj (hcanonical a ha) (hcanonical b hb) ?_
  exact h _ (mem_map_of_mem ha) _ (mem_map_of_mem hb) heq

/-- One tree at most as high as another with the same root has the same ids: were it lower, one of
its leaves would be a node of the other. -/
theorem txids_eq_of_root_eq (hlen : DigestLength) {txids' : List Hash} {depth more : ℕ}
    (hne : txids ≠ []) (hnodup : txids.Nodup) (hnodup' : txids'.Nodup)
    (hcanonical : ∀ txid ∈ txids ++ txids', CanonicalTxid txid)
    (hinj : DigestInjOn ((txids ++ txids').map merkleLeafInput ++
      (treePairs merkleNode depth (txids.map merkleLeaf) ++
      treePairs merkleNode (more + depth) (txids'.map merkleLeaf)).map merkleNodeInput))
    (hroot : (pairUp merkleNode)^[depth] (txids.map merkleLeaf) =
      (pairUp merkleNode)^[more + depth] (txids'.map merkleLeaf)) : txids = txids' := by
  have hleaf := (hinj.mono (subset_append_left _ _)).leaf_inj hcanonical
  have hdigest : ∀ (ids : List Hash), ∀ node ∈ ids.map merkleLeaf, node.length = 32 := by
    intro ids node hnode
    obtain ⟨txid, -, rfl⟩ := mem_map.mp hnode
    exact hlen _
  have hnodes : CollisionFreeOn merkleNode (treePairs merkleNode depth (txids.map merkleLeaf) ++
      treePairs merkleNode (more + depth) (txids'.map merkleLeaf)) := by
    refine (hinj.mono (subset_append_right _ _)).collisionFreeOn fun pair hpair => ?_
    rcases mem_append.mp hpair with hpair | hpair
    · exact length_of_mem_treePairs hlen (hdigest _) pair hpair
    · exact length_of_mem_treePairs hlen (hdigest _) pair hpair
  have hlevel := eq_iterate_pairUp
    (hnodup.map_on fun a ha b hb => hleaf a (mem_append_left _ ha) b
      (mem_append_left _ hb))
    (hnodup'.map_on fun a ha b hb =>
      hleaf a (mem_append_right _ ha) b (mem_append_right _ hb)) hnodes hroot
  cases more with
  | zero =>
    refine map_inj_of_injOn (fun a ha b hb => ?_) hlevel
    exact hleaf a (mem_append_left _ ha) b (mem_append_right _ hb)
  | succ more =>
    -- the first leaf on the left is a node of the last level on the right
    obtain ⟨txid, htxid⟩ := exists_mem_of_ne_nil _ hne
    have hmem := mem_map_of_mem (f := merkleLeaf) htxid
    rw [hlevel, Function.iterate_succ_apply'] at hmem
    obtain ⟨pair, hpair, heq⟩ := mem_map.mp hmem
    have hused : pair ∈ treePairs merkleNode (more + 1 + depth) (txids'.map merkleLeaf) := by
      rw [Nat.add_assoc, treePairs_add, Nat.add_comm 1, treePairs]
      exact mem_append_right _ (mem_append_left _ hpair)
    refine absurd
      (hinj _ (mem_append_left _ (mem_map_of_mem (mem_append_left _ htxid)))
      _ (mem_append_right _ (mem_map_of_mem (mem_append_right _ hused))) heq.symm) ?_
    exact merkleLeafInput_ne_merkleNodeInput txid pair

/-- The root of distinct canonical ids determines them and their order. -/
theorem computeMerkleRootFromTxids_inj (hlen : DigestLength) {txids' : List Hash}
    (hne : txids ≠ []) (hne' : txids' ≠ []) (hnodup : txids.Nodup) (hnodup' : txids'.Nodup)
    (hcanonical : ∀ txid ∈ txids ++ txids', CanonicalTxid txid)
    (hinj : DigestInjOn (merkleHashInputs txids ++ merkleHashInputs txids'))
    (hroot : computeMerkleRootFromTxids txids = computeMerkleRootFromTxids txids') :
    txids = txids' := by
  have hleaves : ∀ {ids : List Hash}, ids ≠ [] → ids.map merkleLeaf ≠ [] :=
    fun h hnil => h (map_eq_nil_iff.mp hnil)
  obtain ⟨depth, htop, hpairs⟩ := merkleReduce_eq (hleaves hne) (length_map _).le
  obtain ⟨depth', htop', hpairs'⟩ := merkleReduce_eq (hleaves hne') (length_map _).le
  rw [computeMerkleRootFromTxids, computeMerkleRootFromTxids,
    if_neg (by rwa [List.isEmpty_iff]), if_neg (by rwa [List.isEmpty_iff])] at hroot
  have hsame := hexEncode_injective hroot
  rw [hsame, ← htop'] at htop
  rw [merkleHashInputs, merkleHashInputs, hpairs, hpairs'] at hinj
  rcases Nat.le_total depth depth' with hle | hle
  · obtain ⟨more, rfl⟩ := Nat.exists_eq_add_of_le' hle
    exact txids_eq_of_root_eq hlen hne hnodup hnodup' hcanonical (hinj.mono (by grind)) htop
  · obtain ⟨more, rfl⟩ := Nat.exists_eq_add_of_le' hle
    refine (txids_eq_of_root_eq hlen hne' hnodup' hnodup (fun txid h => hcanonical txid ?_)
      (hinj.mono (by grind)) htop.symm).symm
    exact mem_append.mpr (mem_append.mp h).symm

/-! ## Network blocks -/

/-- Every transaction of a checked list has its own id, and the ids are distinct. -/
theorem checkNetworkTransactions_ok {transactions : List Transaction} {seen : TreeSet Hash}
    (h : checkNetworkTransactions chainId transactions seen = .ok ()) :
    (∀ tx ∈ transactions, Identified tx chainId ∧ tx.txid ∉ seen) ∧
      (transactions.map Transaction.txid).Nodup := by
  induction transactions generalizing seen with
  | nil =>
    refine ⟨fun tx htx => ?_, nodup_nil⟩
    cases htx
  | cons tx rest ih =>
    simp only [checkNetworkTransactions, bind_eq_ok, ensure_eq_ok] at h
    obtain ⟨-, hfresh, -, -, computed, hcomputed, -, rfl, -, -, hrest⟩ := h
    obtain ⟨hids, hnodup⟩ := ih hrest
    refine ⟨fun other hother => ?_, nodup_cons.mpr ⟨fun hmem => ?_, hnodup⟩⟩
    · rcases mem_cons.mp hother with rfl | hother
      · exact ⟨hcomputed, hfresh⟩
      · exact ⟨(hids other hother).1, fun hseen =>
          (hids other hother).2 (Std.ExtTreeSet.mem_insert.mpr (.inr hseen))⟩
    · obtain ⟨other, hother, heq⟩ := mem_map.mp hmem
      exact (hids other hother).2 (heq ▸ Std.ExtTreeSet.mem_insert_self)

/-- What an envelope guarantees of the transactions of a block. -/
structure Committed (chainId : String) (block : Block) : Prop where
  nonempty : block.transactions ≠ []
  identified : ∀ tx ∈ block.transactions, Identified tx chainId
  nodup : (block.transactions.map Transaction.txid).Nodup
  merkleRoot : computeMerkleRoot block.transactions = block.header.merkleRoot

/-- An accepted envelope commits to its block. -/
theorem validateNetworkBlockStagingEnvelope_committed {clock : Clock} {state : ChainState}
    {identity : ProtocolActivationIdentity}
    (h : validateNetworkBlockStagingEnvelope clock block state identity = .ok ()) :
    Committed identity.chainId block := by
  simp only [validateNetworkBlockStagingEnvelope, bind_eq_ok, ensure_eq_ok, okOr_eq_ok] at h
  obtain ⟨-, -, -, -, -, -, -, -, -, -, -, -, -, -, -, -, -, -, -, -, -, -, -, -, -, -, -, -, -, -,
    -, -, -, -, coinbase, hhead, -, -, -, -, _, htransactions, -, hroot, -⟩ := h
  obtain ⟨hids, hnodup⟩ := checkNetworkTransactions_ok htransactions
  exact ⟨fun hnil => by simp [hnil] at hhead, fun tx htx => (hids tx htx).1, hnodup, hroot⟩

/-- All inputs that the ids of a block and their root hash. -/
def blockHashInputs (chainId : String) (block : Block) : List (List UInt8) :=
  merkleHashInputs (block.transactions.map Transaction.txid) ++
    block.transactions.map fun tx => txidPreimageV2 tx chainId

/-- The ids of a committed block are canonical. -/
theorem Committed.canonical (hlen : DigestLength) (h : Committed chainId block) {txid : Hash}
    (hmem : txid ∈ block.transactions.map Transaction.txid) : CanonicalTxid txid := by
  obtain ⟨tx, htx, rfl⟩ := mem_map.mp hmem
  exact ⟨_, hlen _, computeTxidV2_eq_ok (h.identified tx htx)⟩

/-- Blocks with one root have the same transactions. -/
theorem Committed.transactions_eq (hlen : DigestLength) {block' : Block}
    (h : Committed chainId block) (h' : Committed chainId block')
    (hfits : ∀ tx ∈ block.transactions ++ block'.transactions, tx.Fits)
    (hinj : DigestInjOn (blockHashInputs chainId block ++ blockHashInputs chainId block'))
    (hroot : block.header.merkleRoot = block'.header.merkleRoot) :
    block.transactions = block'.transactions := by
  rw [← h.merkleRoot, ← h'.merkleRoot] at hroot
  have hne : ∀ {txs : List Transaction}, txs ≠ [] → txs.map Transaction.txid ≠ [] :=
    fun hne hnil => hne (map_eq_nil_iff.mp hnil)
  have htxids := computeMerkleRootFromTxids_inj hlen (hne h.nonempty)
    (hne h'.nonempty) h.nodup h'.nodup
    (fun txid hmem => (mem_append.mp hmem).elim (h.canonical hlen) (h'.canonical hlen))
    (hinj.mono (by grind [blockHashInputs])) hroot
  refine map_inj_of_injOn (fun tx htx tx' htx' heq => ?_) htxids
  have hfit := hfits tx (mem_append_left _ htx)
  have hfit' := hfits tx' (mem_append_right _ htx')
  refine (h.identified tx htx).eq_of_txid_eq_of_injOn (h'.identified tx' htx') hfit hfit' ?_ heq
  refine hinj _ ?_ _ ?_
  · grind [blockHashInputs]
  · grind [blockHashInputs]

/-- Distinct canonical ids have one root only in one order, and network blocks with the same root
have the same transactions. -/
theorem computeMerkleRoot_commits (hlen : DigestLength) :
    (∀ txids txids' : List Hash, txids ≠ [] → txids' ≠ [] → txids.Nodup → txids'.Nodup →
      (∀ txid ∈ txids ++ txids', CanonicalTxid txid) →
      DigestInjOn (merkleHashInputs txids ++ merkleHashInputs txids') →
      (computeMerkleRootFromTxids txids = computeMerkleRootFromTxids txids' ↔ txids = txids')) ∧
    (∀ (clock clock' : Clock) (state state' : ChainState) (identity : ProtocolActivationIdentity)
        (block block' : Block),
      validateNetworkBlockStagingEnvelope clock block state identity = .ok () →
      validateNetworkBlockStagingEnvelope clock' block' state' identity = .ok () →
      (∀ tx ∈ block.transactions ++ block'.transactions, tx.Fits) →
      DigestInjOn (blockHashInputs identity.chainId block ++
        blockHashInputs identity.chainId block') →
      (block.header.merkleRoot = block'.header.merkleRoot ↔
        block.transactions = block'.transactions)) := by
  constructor
  · intro txids txids' hne hne' hnodup hnodup' hcanonical hinj
    refine ⟨computeMerkleRootFromTxids_inj hlen hne hne' hnodup hnodup' hcanonical hinj, ?_⟩
    rintro rfl
    rfl
  · intro clock clock' state state' identity block block' henvelope henvelope' hfits hinj
    have h := validateNetworkBlockStagingEnvelope_committed henvelope
    have h' := validateNetworkBlockStagingEnvelope_committed henvelope'
    refine ⟨h.transactions_eq hlen h' hfits hinj, fun heq => ?_⟩
    rw [← h.merkleRoot, ← h'.merkleRoot, heq]

end

/-! ## A digest of 32 bytes -/

/-- A checksum of 32 bytes in place of SHA-256. -/
abbrev wideCrypto : Crypto where
  sha256 bytes :=
    leBytes 32 (bytes.foldl (fun acc byte => (acc * 257 + byte.toNat + 1) % (2 ^ 255 - 19)) 1)
  ed25519Verify _ _ _ := true
  kHeavyHashDigest _ _ := []

/-- An id of 32 equal bytes. -/
def sampleTxid (byte : UInt8) : Hash := hexEncode (List.replicate 32 byte)

/-- The sample ids are canonical. -/
theorem canonicalTxid_sampleTxid (byte : UInt8) : CanonicalTxid (sampleTxid byte) :=
  ⟨_, length_replicate, rfl⟩

/-- Three ids have another root than their continuation by a fourth, which would be the same if the
fourth repeated the third, and two coinbases on the genesis block give different roots. -/
theorem computeMerkleRoot_commits_oddLevel : letI := wideCrypto
    computeMerkleRootFromTxids [sampleTxid 1, sampleTxid 2, sampleTxid 3] ≠
      computeMerkleRootFromTxids [sampleTxid 1, sampleTxid 2, sampleTxid 3, sampleTxid 4] ∧
    computeMerkleRootFromTxids [sampleTxid 1, sampleTxid 2, sampleTxid 3] =
      computeMerkleRootFromTxids [sampleTxid 1, sampleTxid 2, sampleTxid 3, sampleTxid 3] ∧
    ∃ block block',
      validateNetworkBlockStagingEnvelope sampleClock block (initChainState "c") sampleIdentity =
      .ok () ∧
      validateNetworkBlockStagingEnvelope sampleClock block' (initChainState "c") sampleIdentity =
      .ok () ∧ block.header.merkleRoot ≠ block'.header.merkleRoot := by
  let := wideCrypto
  obtain ⟨hlists, hblocks⟩ := computeMerkleRoot_commits fun bytes => length_leBytes 32 _
  refine ⟨fun heq => ?_, by decide +kernel, ?_⟩
  · have hcanonical : ∀ txid ∈ [sampleTxid 1, sampleTxid 2, sampleTxid 3] ++
        [sampleTxid 1, sampleTxid 2, sampleTxid 3, sampleTxid 4], CanonicalTxid txid := by
      simp [canonicalTxid_sampleTxid]
    have hsame :=
      (hlists _ _ (by decide) (by decide) (by decide +kernel) (by decide +kernel) hcanonical
      (by decide +kernel)).mp heq
    exact absurd (congrArg List.length hsame) (by decide)
  · have hrun : ((mineBlock (initChainState "c") sampleIdentity [genesisBlock.hash] 1
          [sampleTransaction [] [50] 0 1]).toOption.bind fun block =>
        (mineBlock (initChainState "c") sampleIdentity [genesisBlock.hash] 1
          [sampleTransaction [] [50] 0 2]).toOption.bind fun block' =>
        (validateNetworkBlockStagingEnvelope sampleClock block (initChainState "c")
          sampleIdentity).toOption.bind fun _ =>
        (validateNetworkBlockStagingEnvelope sampleClock block' (initChainState "c")
          sampleIdentity).toOption.map fun _ =>
        (decide (∀ tx ∈ block.transactions ++ block'.transactions, tx.Fits),
          decide (DigestInjOn (blockHashInputs sampleIdentity.chainId block ++
            blockHashInputs sampleIdentity.chainId block')),
          decide (block.transactions ≠ block'.transactions))) = some (true, true, true) := by
      decide +kernel
    simp only [Option.bind_eq_some_iff, Option.map_eq_some_iff, Prod.mk.injEq,
      decide_eq_true_eq] at hrun
    obtain ⟨block, -, block', -, _, hvalid, _, hvalid', hfits, hinj, hne⟩ := hrun
    have hvalid := eq_ok_of_toOption hvalid
    have hvalid' := eq_ok_of_toOption hvalid'
    refine ⟨block, block', hvalid, hvalid', fun hroot => hne ?_⟩
    exact (hblocks _ _ _ _ _ _ _ hvalid hvalid' hfits hinj).mp hroot

end PulseDag
