import PulseDag.Ledger.PrefixConsistency
import PulseDag.Ledger.Settlement

/-!
# What a finality boundary binds

A boundary holds the digest of the canonical order up to its score. With a collision-free digest, a
later state accepts it exactly when its own order starts with the same blocks: the length prefixes
make the digest's preimage injective on lists of the same length.
-/

namespace PulseDag

open List

/-- Lists agree on the positions up to one of them when they start alike. -/
theorem take_succ_eq_iff {α : Type} {l l' : List α} {n : ℕ} :
    l.take (n + 1) = l'.take (n + 1) ↔ ∀ position ≤ n, l[position]? = l'[position]? := by
  constructor
  · intro heq position hle
    have hget := congrArg (fun list => list[position]?) heq
    simpa only [getElem?_take, Nat.lt_succ_iff.mpr hle, if_true] using hget
  · intro hagree
    refine ext_getElem? fun position => ?_
    rw [getElem?_take, getElem?_take]
    split
    · exact hagree position (by omega)
    · rfl

/-- The preimage of the digest of an ordered prefix. -/
def prefixPreimage (blocks : List Hash) (throughScore : ℕ) : List UInt8 :=
  encodeLenPrefixedStr "PulseDAG:reward-finality-prefix:v3" ++ leBytes 8 throughScore ++
    leBytes 8 (throughScore + 1) ++ (blocks.take (throughScore + 1)).flatMap encodeLenPrefixedStr

variable {blocks : List Hash} {score : ℕ}

/-- Equal preimages come from equal prefixes. -/
theorem take_eq_of_prefixPreimage_eq {blocks' : List Hash} (hfits : ∀ hash ∈ blocks, FitsStr hash)
    (hfits' : ∀ hash ∈ blocks', FitsStr hash) (hlength : score < blocks.length)
    (hlength' : score < blocks'.length)
    (heq : prefixPreimage blocks score = prefixPreimage blocks' score) :
    blocks.take (score + 1) = blocks'.take (score + 1) := by
  have hencoded := append_cancel_left heq
  refine (@SelfDelimiting.flatMap_inj _ _ _ _ selfDelimiting_encodeLenPrefixedStr
    _ _ (fun hash hhash => hfits hash (mem_of_mem_take hhash))
    (fun hash hhash => hfits' hash (mem_of_mem_take hhash)) ?_ [] [] ?_).1
  · rw [length_take, length_take]
    omega
  · rw [append_nil, append_nil, hencoded]

section

variable [Crypto]

/-- When the digest of a prefix exists, and its value. -/
theorem orderedPrefixDigest_eq_ok {digest : String} :
    orderedPrefixDigest blocks score = .ok digest ↔
      score < blocks.length ∧ digest = sha256Hex (prefixPreimage blocks score) := by
  simp only [orderedPrefixDigest, bind_eq_ok, ensure_eq_ok, pure_eq_ok, Except.ok.injEq,
    exists_const, Nat.succ_le_iff, prefixPreimage]
  exact and_congr_right fun _ => eq_comm

variable {boundary : RewardFinalityBoundaryV3} {state : ChainState}

/-- What a boundary holds. -/
theorem bindRewardFinalityBoundaryV3_eq_ok {policy : String} :
    bindRewardFinalityBoundaryV3 state score policy = .ok boundary ↔
      isBlank policy = false ∧ ∃ order, deriveOrderedDagV2 state = .ok order ∧
        order.blocks.head? = some state.dag.genesisHash ∧ ∃ hash,
          order.blocks[score]? = some hash ∧
          boundary = ⟨rewardFinalityBindingSchemaVersionV3, policy, score, hash,
            sha256Hex (prefixPreimage order.blocks score)⟩ := by
  simp only [bindRewardFinalityBoundaryV3, validateOrderedGenesis, bind_eq_ok, ensure_eq_ok,
    mapError_eq_ok, okOr_eq_ok, orderedPrefixDigest_eq_ok, pure_eq_ok, Except.ok.injEq,
    exists_const]
  constructor
  · rintro ⟨hpolicy, order, horder, hhead, -, hash, hhash, digest, ⟨-, rfl⟩, rfl⟩
    exact ⟨hpolicy, order, horder, hhead, hash, hhash, rfl⟩
  · rintro ⟨hpolicy, order, horder, hhead, hash, hhash, rfl⟩
    obtain ⟨hlt, -⟩ := List.getElem?_eq_some_iff.mp hhash
    exact ⟨hpolicy, order, horder, hhead, by omega, hash, hhash, _, ⟨hlt, rfl⟩, rfl⟩

/-- What makes a boundary acceptable. -/
theorem validateRewardFinalityBoundaryV3_eq_ok {expected : String} :
    validateRewardFinalityBoundaryV3 state boundary expected = .ok () ↔
      boundary.schemaVersion = rewardFinalityBindingSchemaVersionV3 ∧
      (isBlank boundary.policyVersion = false ∧ isBlank expected = false) ∧
      boundary.policyVersion = expected ∧ ∃ order, deriveOrderedDagV2 state = .ok order ∧
        order.blocks.head? = some state.dag.genesisHash ∧
        order.blocks[boundary.finalizedThroughScore]? = some boundary.finalizedBlockHash ∧
        sha256Hex (prefixPreimage order.blocks boundary.finalizedThroughScore) =
          boundary.orderedPrefixDigest := by
  simp only [validateRewardFinalityBoundaryV3, validateOrderedGenesis, bind_eq_ok, ensure_eq_ok,
    mapError_eq_ok, okOr_eq_ok, orderedPrefixDigest_eq_ok, exists_const]
  constructor
  · rintro ⟨hschema, hblank, hpolicy, order, horder, hhead, -, hash, hhash, rfl, digest, ⟨-, rfl⟩,
      hdigest⟩
    exact ⟨hschema, hblank, hpolicy, order, horder, hhead, hhash, hdigest⟩
  · rintro ⟨hschema, hblank, hpolicy, order, horder, hhead, hhash, hdigest⟩
    obtain ⟨hlt, -⟩ := List.getElem?_eq_some_iff.mp hhash
    exact ⟨hschema, hblank, hpolicy, order, horder, hhead, by omega, _, hhash, rfl, _, ⟨hlt, rfl⟩,
      hdigest⟩

/-- A boundary that was bound in one state is accepted in another state of the same chain exactly
when the canonical orders of the two agree through its score. The hash texts have lengths that fit
their prefixes; on longer texts the encoder panics. -/
theorem rewardFinalityBoundary_binds (hsha : Function.Injective Crypto.sha256)
    {bound state : ChainState} (hgenesis : state.dag.genesisHash = bound.dag.genesisHash)
    (hfits : ∀ hash, hash ∈ bound.dag.blocks ∨ hash ∈ state.dag.blocks → FitsStr hash)
    {score : ℕ} {policy : String} {boundary : RewardFinalityBoundaryV3}
    (hbind : bindRewardFinalityBoundaryV3 bound score policy = .ok boundary) (expected : String) :
    ∃ order, deriveOrderedDagV2 bound = .ok order ∧ score < order.blocks.length ∧
      (validateRewardFinalityBoundaryV3 state boundary expected = .ok () ↔
        expected = policy ∧ ∃ order', deriveOrderedDagV2 state = .ok order' ∧
          ∀ position ≤ score, order'.blocks[position]? = order.blocks[position]?) ∧
      (∀ order', deriveOrderedDagV2 state = .ok order' →
        ∀ position ≤ score, order'.blocks[position]? ≠ order.blocks[position]? →
          validateRewardFinalityBoundaryV3 state boundary expected ≠ .ok ()) ∧
      (∀ order', deriveOrderedDagV2 state = .ok order' →
        order.blocks.take (score + 1) <+: order'.blocks →
          validateRewardFinalityBoundaryV3 state boundary policy = .ok ()) := by
  obtain ⟨hpolicy, order, horder, hhead, last, hlast, rfl⟩ :=
    bindRewardFinalityBoundaryV3_eq_ok.mp hbind
  obtain ⟨hlength, -⟩ := List.getElem?_eq_some_iff.mp hlast
  have haccepted : ∀ expected, validateRewardFinalityBoundaryV3 state
      ⟨rewardFinalityBindingSchemaVersionV3, policy, score, last,
        sha256Hex (prefixPreimage order.blocks score)⟩ expected = .ok () ↔
      expected = policy ∧ ∃ order', deriveOrderedDagV2 state = .ok order' ∧
        ∀ position ≤ score, order'.blocks[position]? = order.blocks[position]? := by
    intro expected
    rw [validateRewardFinalityBoundaryV3_eq_ok]
    constructor
    · rintro ⟨-, -, hexpected, order', horder', -, hlast', hdigest⟩
      obtain ⟨hlength', -⟩ := List.getElem?_eq_some_iff.mp hlast'
      refine ⟨hexpected.symm, order', horder', take_succ_eq_iff.mp ?_⟩
      refine take_eq_of_prefixPreimage_eq (fun hash hhash => hfits hash (.inr ?_))
        (fun hash hhash => hfits hash (.inl ?_)) hlength' hlength (sha256Hex_injective hsha hdigest)
      · exact (mem_of_deriveOrderedDagV2 horder').mp hhash
      · exact (mem_of_deriveOrderedDagV2 horder).mp hhash
    · rintro ⟨rfl, order', horder', hagree⟩
      refine ⟨rfl, ⟨hpolicy, hpolicy⟩, rfl, order', horder', ?_, ?_, ?_⟩
      · rw [hgenesis, ← hhead, head?_eq_getElem?, head?_eq_getElem?]
        exact hagree 0 (Nat.zero_le score)
      · rw [hagree score le_rfl, hlast]
      · simp only [prefixPreimage]
        rw [take_succ_eq_iff.mpr hagree]
  refine ⟨order, horder, hlength, haccepted expected, fun order' horder' position hle hne hok => ?_,
    fun order' horder' hprefix => ?_⟩
  · obtain ⟨-, found, hfound, hagree⟩ := (haccepted expected).mp hok
    rw [horder', Except.ok.injEq] at hfound
    subst hfound
    exact hne (hagree position hle)
  · refine (haccepted policy).mpr ⟨rfl, order', horder', take_succ_eq_iff.mp ?_⟩
    have htake := prefix_iff_eq_take.mp hprefix
    rw [length_take, Nat.min_eq_left hlength] at htake
    exact htake.symm

end

/-- A boundary of a chain with three blocks is accepted two blocks later. -/
theorem rewardFinalityBoundary_binds_repeatedTransfer :
    letI := tableCrypto (sampleTable repeatedTransfer 4)
    ∃ (bound state : ChainState) (boundary : RewardFinalityBoundaryV3),
      Function.Injective Crypto.sha256 ∧ state.dag.genesisHash = bound.dag.genesisHash ∧
      (∀ hash, hash ∈ bound.dag.blocks ∨ hash ∈ state.dag.blocks → FitsStr hash) ∧
      bound.dag.blocks.size = 3 ∧ state.dag.blocks.size = 5 ∧
      bindRewardFinalityBoundaryV3 bound 1 "policy" = .ok boundary ∧
      validateRewardFinalityBoundaryV3 state boundary "policy" = .ok () := by
  let := tableCrypto (sampleTable repeatedTransfer 4)
  have hrun :
      ((sampleRun fun genesis => (repeatedTransfer genesis).take 2).toOption.bind fun early =>
      (sampleRun repeatedTransfer).toOption.bind fun late =>
      (bindRewardFinalityBoundaryV3 early.2 1 "policy").toOption.bind fun _ =>
      (deriveOrderedDagV2 early.2).toOption.bind fun order =>
      (deriveOrderedDagV2 late.2).toOption.map fun order' =>
        (decide (late.2.dag.genesisHash = early.2.dag.genesisHash),
          decide (∀ hash ∈ early.2.dag.blocks.keys ++ late.2.dag.blocks.keys, FitsStr hash),
          early.2.dag.blocks.size, late.2.dag.blocks.size,
          decide (order.blocks.take 2 <+: order'.blocks))) =
      some (true, true, 3, 5, true) := by decide +kernel
  simp only [Option.bind_eq_some_iff, Option.map_eq_some_iff, Prod.mk.injEq,
    decide_eq_true_eq] at hrun
  obtain ⟨⟨s0, bound⟩, -, ⟨s1, state⟩, -, boundary, hboundary, order, horder, order', horder',
    hgenesis, hkeys, hsize, hsize', hprefix⟩ := hrun
  have hsha : Function.Injective Crypto.sha256 := sampleTable_injective (by decide)
  have hfits : ∀ hash, hash ∈ bound.dag.blocks ∨ hash ∈ state.dag.blocks → FitsStr hash := by
    intro hash hmem
    refine hkeys hash (mem_append.mpr ?_)
    rwa [Std.ExtTreeMap.mem_keys, Std.ExtTreeMap.mem_keys]
  have hbind := eq_ok_of_toOption hboundary
  obtain ⟨found, hfound, -, -, -, hextended⟩ :=
    rewardFinalityBoundary_binds hsha hgenesis hfits hbind "policy"
  rw [eq_ok_of_toOption horder, Except.ok.injEq] at hfound
  subst hfound
  exact ⟨bound, state, boundary, hsha, hgenesis, hfits, hsize, hsize', hbind,
    hextended order' (eq_ok_of_toOption horder') hprefix⟩

end PulseDag
