import PulseDag.Core.Genesis
import PulseDag.Ghostdag.Ordering
import PulseDag.Lib.CoinMap

/-!
# The selected-chain locator

`selected_locator_v1.rs`. A node describes its selected chain by ten newest hashes and then hashes
at doubling distances. The receiver looks for the first of them in its own chain. The positions that
are visited have a closed form (`visitedFrom_eq`), from which the size of the locator and the
distance of the ancestor that is found are read off.
-/

namespace PulseDag

open List

/-! ## The contract -/

/-- `P2P_DAG_SYNC_CONTRACT_VERSION`. -/
def p2pDagSyncContractVersion : UInt32 := 1

/-- `MAX_SELECTED_CHAIN_LOCATOR_HASHES`. -/
def maxSelectedChainLocatorHashes : ℕ := 256

/-- `SELECTED_LOCATOR_LINEAR_WINDOW`. -/
def selectedLocatorLinearWindow : ℕ := 10

/-- `usize::MAX`. -/
def usizeMax : ℕ := 2 ^ 64 - 1

/-- `SelectedChainLocatorV1`. -/
structure SelectedChainLocatorV1 where
  contractVersion : UInt32
  protocolIdentity : ProtocolActivationIdentity
  selectedTip : Hash
  locator : List Hash

/-- The errors of `DagSyncContractError` that a locator can have. -/
inductive DagSyncContractError
  | contractVersionMismatch (observed : UInt32)
  | invalidProtocolIdentity (detail : String)
  | emptySelectedTip
  | locatorEmpty
  | locatorTooLarge (observed maximum : ℕ)
  | locatorTipMismatch
  | locatorDuplicate (hash : Hash)
  | emptyHash (field : String)

/-- `SelectedLocatorError`. -/
inductive SelectedLocatorError
  | emptySelectedChain
  | emptySelectedChainHash (index : ℕ)
  | duplicateSelectedChainHash (hash : Hash)
  | invalidProtocolIdentity (detail : String)
  | protocolIdentityMismatch
  | contract (error : DagSyncContractError)

/-- `SelectedCommonAncestorV1`. -/
structure SelectedCommonAncestorV1 where
  hash : Hash
  selectedChainIndex : ℕ
  deriving DecidableEq

/-- Fail if a search has found something. -/
def rejectFound {ε : Type} (found : Option Hash) (error : Hash → ε) : Except ε Unit :=
  match found with
  | some hash => .error (error hash)
  | none => .ok ()

/-- `SelectedChainLocatorV1::validate_shape`. -/
def SelectedChainLocatorV1.validateShape (l : SelectedChainLocatorV1) :
    Except DagSyncContractError Unit := do
  ensure (l.contractVersion = p2pDagSyncContractVersion)
    (.contractVersionMismatch l.contractVersion)
  Except.mapError .invalidProtocolIdentity l.protocolIdentity.validate
  ensure (l.selectedTip ≠ "") .emptySelectedTip
  ensure (l.locator ≠ []) .locatorEmpty
  ensure (l.locator.length ≤ maxSelectedChainLocatorHashes)
    (.locatorTooLarge l.locator.length maxSelectedChainLocatorHashes)
  ensure (l.locator.head? = some l.selectedTip) .locatorTipMismatch
  rejectFound (l.locator.find? fun hash => hash = "") fun hash => .emptyHash ("locator:" ++ hash)
  rejectFound (firstDuplicate l.locator ∅) .locatorDuplicate

/-! ## Building and resolving -/

/-- The loop of `validate_selected_chain`. -/
def validateSelectedChainFrom : List Hash → ℕ → TreeSet Hash → Except SelectedLocatorError Unit
  | [], _, _ => pure ()
  | hash :: rest, index, seen => do
    ensure (hash ≠ "") (.emptySelectedChainHash index)
    ensure (hash ∉ seen) (.duplicateSelectedChainHash hash)
    validateSelectedChainFrom rest (index + 1) (seen.insert hash)

/-- `validate_selected_chain`. -/
def validateSelectedChain (chain : List Hash) : Except SelectedLocatorError Unit := do
  ensure (chain ≠ []) .emptySelectedChain
  validateSelectedChainFrom chain 0 ∅

/-- The loop of `build_selected_chain_locator_v1`: the indexes whose hashes are pushed, after
`pushed` earlier ones. The index gets smaller in every round, so the length of the chain is enough
fuel. -/
def visitedFrom : ℕ → ℕ → ℕ → ℕ → List ℕ
  | 0, _, _, _ => []
  | fuel + 1, index, step, pushed =>
    index ::
      if index = 0 then []
      else if pushed + 1 < selectedLocatorLinearWindow then
        visitedFrom fuel (index - 1) step (pushed + 1)
      else
        visitedFrom fuel (index - max (min (step * 2) usizeMax) 2) (max (min (step * 2) usizeMax) 2)
          (pushed + 1)

/-- `build_selected_chain_locator_v1`. -/
def buildSelectedChainLocatorV1 (identity : ProtocolActivationIdentity) (chain : List Hash) :
    Except SelectedLocatorError SelectedChainLocatorV1 := do
  Except.mapError .invalidProtocolIdentity identity.validate
  validateSelectedChain chain
  let walked := (visitedFrom chain.length (chain.length - 1) 1 0).filterMap fun i => chain[i]?
  let locator := if walked.getLast? ≠ chain.head? then walked ++ chain.take 1 else walked
  ensure (locator.length ≤ maxSelectedChainLocatorHashes)
    (.contract (.locatorTooLarge locator.length maxSelectedChainLocatorHashes))
  let result : SelectedChainLocatorV1 :=
    { contractVersion := p2pDagSyncContractVersion, protocolIdentity := identity,
      selectedTip := chain.getLast?.getD "", locator := locator }
  Except.mapError .contract result.validateShape
  pure result

/-- `resolve_selected_common_ancestor_v1`. -/
def resolveSelectedCommonAncestorV1 (expected : ProtocolActivationIdentity)
    (locator : SelectedChainLocatorV1) (localChain : List Hash) :
    Except SelectedLocatorError (Option SelectedCommonAncestorV1) := do
  Except.mapError .invalidProtocolIdentity expected.validate
  Except.mapError .contract locator.validateShape
  ensure (locator.protocolIdentity = expected) .protocolIdentityMismatch
  validateSelectedChain localChain
  let localIndexes := insertAll (∅ : TreeMap Hash ℕ) localChain.zipIdx
  pure (locator.locator.findSome? fun hash =>
    localIndexes[hash]?.map fun index => ⟨hash, index⟩)

/-! ## Distances -/

/-- The distance from the tip of the hash that is pushed after `k` others. -/
def locatorDistance (k : ℕ) : ℕ := if k < 9 then k else 7 + 2 ^ (k - 8)

/-- The next distance. -/
theorem locatorDistance_succ (k : ℕ) :
    locatorDistance (k + 1) = locatorDistance k + if k < 9 then 1 else 2 ^ (k - 8) := by
  unfold locatorDistance
  rcases Nat.lt_trichotomy k 8 with hk | rfl | hk
  · rw [if_pos (by omega), if_pos (by omega), if_pos (by omega)]
  · rfl
  · rw [if_neg (by omega)]
    by_cases hnine : k < 9
    · omega
    · rw [if_neg hnine, if_neg hnine, Nat.succ_sub (by omega), Nat.pow_succ]
      omega

/-- Distances grow. -/
theorem locatorDistance_strictMono : StrictMono locatorDistance := by
  refine strictMono_nat_of_lt_succ fun k => ?_
  rw [locatorDistance_succ]
  have hpos : 0 < 2 ^ (k - 8) := Nat.two_pow_pos _
  split <;> omega

/-- Distances are unbounded. -/
theorem exists_le_locatorDistance (d : ℕ) : ∃ k, d ≤ locatorDistance k :=
  ⟨d, locatorDistance_strictMono.id_le d⟩

/-- How many hashes are pushed before the first one that is at least as far as `d`. -/
def firstVisit (d : ℕ) : ℕ := Nat.find (exists_le_locatorDistance d)

/-- The first visit reaches the distance. -/
theorem le_locatorDistance_firstVisit (d : ℕ) : d ≤ locatorDistance (firstVisit d) :=
  Nat.find_spec (exists_le_locatorDistance d)

variable {d k : ℕ} {hashes : List Hash} {seen : TreeSet Hash}

/-- No earlier visit does. -/
theorem locatorDistance_lt (h : k < firstVisit d) : locatorDistance k < d :=
  Nat.lt_of_not_le (Nat.find_min (exists_le_locatorDistance d) h)

/-- The first visit is the least. -/
theorem firstVisit_le (h : d ≤ locatorDistance k) : firstVisit d ≤ k :=
  Nat.find_min' (exists_le_locatorDistance d) h

/-- The recent hashes are all pushed. -/
theorem locatorDistance_firstVisit_of_le (h : d ≤ 9) : locatorDistance (firstVisit d) = d := by
  have hexact : locatorDistance d = d := by
    unfold locatorDistance
    split
    · rfl
    · obtain rfl : d = 9 := by omega
      rfl
  have hle := locatorDistance_strictMono.monotone (firstVisit_le hexact.ge)
  rw [hexact] at hle
  exact le_antisymm hle (le_locatorDistance_firstVisit d)

/-- Further back the next pushed hash is at most twice as far. -/
theorem locatorDistance_firstVisit_le (h : 9 < d) : locatorDistance (firstVisit d) ≤ 2 * d := by
  have hnine : 9 < firstVisit d := by
    by_contra hle
    have := locatorDistance_strictMono.monotone (Nat.le_of_not_lt hle)
    have hfar := le_locatorDistance_firstVisit d
    have hvalue : locatorDistance 9 = 9 := rfl
    omega
  obtain ⟨k, hk⟩ : ∃ k, firstVisit d = k + 1 := ⟨firstVisit d - 1, by omega⟩
  have hbefore := locatorDistance_lt (d := d) (k := k) (by omega)
  have hvalue : locatorDistance k = 7 + 2 ^ (k - 8) := if_neg (by omega)
  rw [hk, locatorDistance_succ, if_neg (by omega), hvalue]
  omega

/-- The number of hashes grows with the number of doublings. -/
theorem firstVisit_le_log (d : ℕ) : firstVisit d ≤ 9 + Nat.log 2 d := by
  by_contra hgt
  have hbefore := locatorDistance_lt (d := d) (k := 9 + Nat.log 2 d) (by omega)
  rw [locatorDistance, if_neg (by omega), show 9 + Nat.log 2 d - 8 =
    Nat.log 2 d + 1 by omega] at hbefore
  have hpow := Nat.lt_pow_succ_log_self (b := 2) (by omega) d
  omega

/-! ## The indexes that are visited -/

/-- The closed form of the loop: the `k`-th visited index is at distance `locatorDistance k`, and
the loop ends with the first one that reaches the beginning of the chain. -/
theorem visitedFrom_eq {n : ℕ} (hn : n ≤ usizeMax) (fuel k : ℕ) (hk : k ≤ firstVisit (n - 1))
    (hfuel : n - 1 - locatorDistance k < fuel) :
    visitedFrom fuel (n - 1 - locatorDistance k) (2 ^ (k - 9)) k =
      (List.range' k (firstVisit (n - 1) + 1 - k)).map fun k => n - 1 - locatorDistance k := by
  induction fuel generalizing k with
  | zero => omega
  | succ fuel ih =>
    rcases Nat.eq_or_lt_of_le hk with rfl | hlt
    · have hend : n - 1 - locatorDistance (firstVisit (n - 1)) = 0 := by
        have := le_locatorDistance_firstVisit (n - 1)
        omega
      rw [visitedFrom, if_pos hend, Nat.add_sub_cancel_left, range'_one, map_singleton]
    · have hinside := locatorDistance_lt hlt
      have hnext := locatorDistance_succ k
      rw [visitedFrom, if_neg (by omega),
        show firstVisit (n - 1) + 1 - k = firstVisit (n - 1) + 1 - (k + 1) + 1 by omega,
        range'_succ, map_cons]
      congr 1
      unfold selectedLocatorLinearWindow
      by_cases hwindow : k + 1 < 10
      · rw [if_pos (by omega)] at hnext
        have hstep : 2 ^ (k - 9) = 2 ^ (k + 1 - 9) := by
          rw [show k - 9 = 0 by omega, show k + 1 - 9 = 0 by omega]
        rw [if_pos hwindow, ← ih (k + 1) hlt (by omega), hstep]
        congr 1
        omega
      · rw [if_neg (by omega)] at hnext
        have hdouble : 2 ^ (k - 9) * 2 = 2 ^ (k + 1 - 9) := by
          rw [← Nat.pow_succ, Nat.succ_eq_add_one, show k - 9 + 1 = k + 1 - 9 by omega]
        have height : k + 1 - 9 = k - 8 := by omega
        have htwo : 2 ≤ 2 ^ (k - 8) := Nat.le_self_pow (by omega) 2
        -- the chain is longer than the step, so the product does not saturate
        have hsmall : 2 ^ (k - 8) ≤ usizeMax := by
          rw [locatorDistance, if_neg (by omega)] at hinside
          omega
        have hstep : max (min (2 ^ (k - 9) * 2) usizeMax) 2 = 2 ^ (k + 1 - 9) := by
          rw [hdouble, height, min_eq_left hsmall, max_eq_left htwo]
        rw [if_neg hwindow, hstep, ← ih (k + 1) hlt (by omega)]
        congr 1
        rw [height]
        omega

/-- A selected chain, from the genesis block to the tip: the hashes are distinct and not empty, and
the length of a slice is a machine word. -/
structure SelectedChain where
  hashes : List Hash
  ne_nil : hashes ≠ []
  nodup : hashes.Nodup
  ne_empty : ∀ hash ∈ hashes, hash ≠ ""
  length_le : hashes.length ≤ usizeMax

namespace SelectedChain

variable (chain : SelectedChain)

/-- A chain is not empty. -/
theorem length_pos : 0 < chain.hashes.length := length_pos_of_ne_nil chain.ne_nil

/-- The indexes of the hashes in the locator. -/
def visited : List ℕ := visitedFrom chain.hashes.length (chain.hashes.length - 1) 1 0

/-- The visited indexes in closed form. -/
theorem visited_eq : chain.visited =
    (List.range (firstVisit (chain.hashes.length - 1) + 1)).map fun k =>
      chain.hashes.length - 1 - locatorDistance k := by
  have hzero : locatorDistance 0 = 0 := rfl
  have hpos := chain.length_pos
  have hrun := visitedFrom_eq chain.length_le chain.hashes.length 0 (Nat.zero_le _) (by omega)
  rw [hzero, Nat.sub_zero] at hrun
  rw [visited, range_eq_range']
  exact hrun

/-- Visited indexes are in the chain. -/
theorem lt_length_of_mem_visited {i : ℕ} (hi : i ∈ chain.visited) : i < chain.hashes.length := by
  rw [visited_eq, mem_map] at hi
  obtain ⟨k, -, rfl⟩ := hi
  have := chain.length_pos
  omega

/-- The walk goes strictly downwards. -/
theorem pairwise_visited : chain.visited.Pairwise (· > ·) := by
  rw [visited_eq, pairwise_map]
  refine pairwise_lt_range.imp_of_mem fun {j k} _ hk hjk => ?_
  have hfar :=
    locatorDistance_lt (Nat.lt_of_lt_of_le hjk (Nat.lt_succ_iff.mp (mem_range.mp hk)))
  have hmono := locatorDistance_strictMono hjk
  omega

/-- The walk ends at the beginning of the chain. -/
theorem getLast?_visited : chain.visited.getLast? = some 0 := by
  have hend := le_locatorDistance_firstVisit (chain.hashes.length - 1)
  rw [visited_eq, range_succ, map_append, map_singleton, getLast?_concat,
    Nat.sub_eq_zero_of_le hend]

/-- The first visited index is the tip. -/
theorem head?_visited : chain.visited.head? = some (chain.hashes.length - 1) := by
  rw [visited_eq, range_succ_eq_map, map_cons, head?_cons]
  rfl

/-- The hashes in the locator. -/
def locator : List Hash := chain.visited.filterMap fun i => chain.hashes[i]?

/-- The locator lists the visited hashes. -/
theorem locator_eq_map : chain.locator = chain.visited.map fun i => chain.hashes[i]?.getD "" := by
  rw [locator, ← filterMap_eq_map]
  refine filterMap_congr fun i hi => ?_
  rw [Function.comp_apply, getElem?_eq_getElem (chain.lt_length_of_mem_visited hi),
    Option.getD_some]

/-- The length of a locator. -/
theorem length_locator : chain.locator.length ≤ 10 + Nat.log 2 chain.hashes.length := by
  have hlog := firstVisit_le_log (chain.hashes.length - 1)
  have hmono := Nat.log_mono_right (b := 2) (Nat.sub_le chain.hashes.length 1)
  rw [locator_eq_map, length_map, visited_eq, length_map, length_range]
  omega

/-- It is within the limit. -/
theorem length_locator_le_max : chain.locator.length ≤ maxSelectedChainLocatorHashes := by
  have hlength := chain.length_locator
  have hlog : Nat.log 2 chain.hashes.length < 64 := by
    refine Nat.log_lt_of_lt_pow (Nat.ne_of_gt chain.length_pos) ?_
    have := chain.length_le
    unfold usizeMax at this
    omega
  unfold maxSelectedChainLocatorHashes
  omega

/-- A locator lists hashes of the chain. -/
theorem mem_hashes_of_mem_locator {hash : Hash} (h : hash ∈ chain.locator) :
    hash ∈ chain.hashes := by
  obtain ⟨i, -, hi⟩ := mem_filterMap.mp h
  exact mem_of_getElem? hi

/-- It lists none twice. -/
theorem nodup_locator : chain.locator.Nodup := by
  rw [locator_eq_map, List.Nodup, pairwise_map]
  refine chain.pairwise_visited.imp_of_mem fun {i j} hi hj hgt heq => ?_
  have hi := chain.lt_length_of_mem_visited hi
  have hj := chain.lt_length_of_mem_visited hj
  rw [getElem?_eq_getElem hi, getElem?_eq_getElem hj, Option.getD_some,
    Option.getD_some, chain.nodup.getElem_inj_iff] at heq
  omega

/-- It ends with the first block. -/
theorem getLast?_locator : chain.locator.getLast? = chain.hashes.head? := by
  rw [locator_eq_map, getLast?_map, getLast?_visited,
    Option.map_some, ← head?_eq_getElem?]
  obtain ⟨first, rest, hcons⟩ := exists_cons_of_ne_nil chain.ne_nil
  rw [hcons]
  rfl

/-- It starts with the tip. -/
theorem head?_locator : chain.locator.head? = some (chain.hashes.getLast?.getD "") := by
  rw [locator_eq_map, head?_map, head?_visited, Option.map_some, getLast?_eq_getElem?]

end SelectedChain

/-! ## The checks pass -/

/-- Distinct hashes have no duplicate. -/
theorem firstDuplicate_eq_none (hnodup : hashes.Nodup) (hfresh : ∀ hash ∈ hashes, hash ∉ seen) :
    firstDuplicate hashes seen = none := by
  induction hashes generalizing seen with
  | nil => rfl
  | cons hash rest ih =>
    obtain ⟨hhash, hrest⟩ := nodup_cons.mp hnodup
    obtain ⟨hnew, hothers⟩ := forall_mem_cons.mp hfresh
    rw [firstDuplicate, if_neg hnew]
    refine ih hrest fun other hother => ?_
    rw [TreeSet.mem_insert, not_or]
    exact ⟨fun heq => hhash (heq ▸ hother), hothers other hother⟩

/-- Distinct nonempty hashes pass. -/
theorem validateSelectedChainFrom_ok {index : ℕ} (hnodup : hashes.Nodup)
    (hempty : ∀ hash ∈ hashes, hash ≠ "") (hfresh : ∀ hash ∈ hashes, hash ∉ seen) :
    validateSelectedChainFrom hashes index seen = .ok () := by
  induction hashes generalizing index seen with
  | nil => rfl
  | cons hash rest ih =>
    obtain ⟨hhash, hrest⟩ := nodup_cons.mp hnodup
    obtain ⟨hnew, hothers⟩ := forall_mem_cons.mp hfresh
    obtain ⟨hne, hrestEmpty⟩ := forall_mem_cons.mp hempty
    rw [validateSelectedChainFrom, ensure_pos hne, ok_bind, ensure_pos hnew, ok_bind]
    refine ih hrest hrestEmpty fun other hother => ?_
    rw [TreeSet.mem_insert, not_or]
    exact ⟨fun heq => hhash (heq ▸ hother), hothers other hother⟩

namespace SelectedChain

variable (chain : SelectedChain) {identity : ProtocolActivationIdentity}

/-- A selected chain passes the check. -/
theorem validate : validateSelectedChain chain.hashes = .ok () := by
  rw [validateSelectedChain, ensure_pos chain.ne_nil, ok_bind]
  exact validateSelectedChainFrom_ok chain.nodup chain.ne_empty fun _ _ =>
    Std.ExtTreeSet.not_mem_empty

/-- What is sent for a chain. -/
def toLocator (identity : ProtocolActivationIdentity) : SelectedChainLocatorV1 where
  contractVersion := p2pDagSyncContractVersion
  protocolIdentity := identity
  selectedTip := chain.hashes.getLast?.getD ""
  locator := chain.locator

/-- The locator of a chain passes the check of shapes. -/
theorem validateShape_toLocator (hidentity : identity.validate = .ok ()) :
    (chain.toLocator identity).validateShape = .ok () := by
  have htip : chain.hashes.getLast?.getD "" ≠ "" := by
    rw [getLast?_eq_getLast_of_ne_nil chain.ne_nil, Option.getD_some]
    exact chain.ne_empty _ (getLast_mem chain.ne_nil)
  have hlocator : chain.locator ≠ [] := by
    intro hnil
    have hhead := chain.head?_locator
    rw [hnil] at hhead
    cases hhead
  have hfind : chain.locator.find? (fun hash => hash = "") = none := by
    refine find?_eq_none.mpr fun hash hhash => ?_
    have hne := chain.ne_empty hash (chain.mem_hashes_of_mem_locator hhash)
    simpa using hne
  have hduplicate : firstDuplicate chain.locator ∅ = none :=
    firstDuplicate_eq_none chain.nodup_locator fun _ _ => Std.ExtTreeSet.not_mem_empty
  unfold SelectedChainLocatorV1.validateShape toLocator
  rw [ensure_pos rfl, hidentity, ensure_pos htip, ensure_pos hlocator,
    ensure_pos chain.length_locator_le_max, ensure_pos chain.head?_locator, hfind, hduplicate]
  rfl

/-- The builder returns the locator of the chain. -/
theorem build_eq (hidentity : identity.validate = .ok ()) :
    buildSelectedChainLocatorV1 identity chain.hashes = .ok (chain.toLocator identity) := by
  have hshape := chain.validateShape_toLocator hidentity
  have hwalked : (visitedFrom chain.hashes.length (chain.hashes.length - 1) 1 0).filterMap
      (fun i => chain.hashes[i]?) = chain.locator := rfl
  unfold toLocator at hshape ⊢
  simp only [buildSelectedChainLocatorV1, hwalked]
  rw [hidentity, chain.validate, if_neg (not_not_intro chain.getLast?_locator),
    ensure_pos chain.length_locator_le_max, hshape]
  rfl

/-- Where a hash stands in a chain, as the receiver looks it up. -/
theorem getElem?_localIndexes (hash : Hash) (i : ℕ) :
    (insertAll (∅ : TreeMap Hash ℕ) chain.hashes.zipIdx)[hash]? = some i ↔
      chain.hashes[i]? = some hash := by
  have hkeys : (chain.hashes.zipIdx.map Prod.fst).Nodup := by
    rw [zipIdx_map_fst]
    exact chain.nodup
  rw [getElem?_insertAll_eq_some _ hkeys fun _ _ => Std.ExtTreeMap.not_mem_empty,
    mem_zipIdx_iff_getElem?]
  simp

end SelectedChain

/-- The first hash of the locator that another chain has: the walk passes the positions behind the
shared part and stops at the first one in it. -/
theorem SelectedChain.findSome?_locator (remote localChain : SelectedChain) {shared : List Hash}
    (hshared : shared ≠ []) (hremote : shared <+: remote.hashes)
    (hlocal : shared <+: localChain.hashes)
    (hexact : ∀ hash ∈ remote.hashes, hash ∈ localChain.hashes → hash ∈ shared) :
    ∃ i hash, remote.hashes[i]? = some hash ∧ localChain.hashes[i]? = some hash ∧
    i < shared.length ∧
      remote.hashes.length - 1 - i =
        min (remote.hashes.length - 1)
          (locatorDistance (firstVisit (remote.hashes.length - shared.length))) ∧
      (remote.locator.findSome? fun hash =>
        (insertAll (∅ : TreeMap Hash ℕ) localChain.hashes.zipIdx)[hash]?.map fun index =>
          (⟨hash, index⟩ : SelectedCommonAncestorV1)) = some ⟨hash, i⟩ := by
  have hlength := length_pos_of_ne_nil hshared
  have hle := hremote.length_le
  obtain ⟨restRemote, hrestRemote⟩ := hremote
  obtain ⟨restLocal, hrestLocal⟩ := hlocal
  have hfirst := le_locatorDistance_firstVisit (remote.hashes.length - shared.length)
  have hin : firstVisit (remote.hashes.length - shared.length) ≤
      firstVisit (remote.hashes.length - 1) := by
    apply firstVisit_le
    have := le_locatorDistance_firstVisit (remote.hashes.length - 1)
    omega
  obtain ⟨before, after, hsplit⟩ := append_of_mem (mem_range.mpr (Nat.lt_succ_of_le hin))
  have hbefore : ∀ j ∈ before, j < firstVisit (remote.hashes.length - shared.length) := by
    have hsorted := pairwise_lt_range (n := firstVisit (remote.hashes.length - 1) + 1)
    rw [Nat.succ_eq_add_one] at hsplit
    rw [hsplit] at hsorted
    exact fun j hj => (pairwise_append.mp hsorted).2.2 j hj _ mem_cons_self
  generalize hi : remote.hashes.length - 1 -
    locatorDistance (firstVisit (remote.hashes.length - shared.length)) = i at *
  have hishared : i < shared.length := by omega
  have hremoteAt : remote.hashes[i]? = some shared[i] := by
    rw [← hrestRemote, getElem?_append_left hishared, getElem?_eq_getElem hishared]
  have hlocalAt : localChain.hashes[i]? = some shared[i] := by
    rw [← hrestLocal, getElem?_append_left hishared, getElem?_eq_getElem hishared]
  refine ⟨i, shared[i], hremoteAt, hlocalAt, hishared, by omega, ?_⟩
  rw [remote.locator_eq_map, remote.visited_eq, ← Nat.succ_eq_add_one, hsplit, map_append,
    map_append, map_cons, map_cons, hi, hremoteAt, findSome?_append,
    findSome?_eq_none_iff.mpr, Option.none_or, findSome?_cons,
    Option.getD_some, (localChain.getElem?_localIndexes _ _).mpr hlocalAt]
  · rfl
  · intro hash hhash
    simp only [mem_map, exists_exists_and_eq_and] at hhash
    obtain ⟨j, hj, rfl⟩ := hhash
    have hnear := locatorDistance_lt (hbefore j hj)
    have hjlt : remote.hashes.length - 1 - locatorDistance j < remote.hashes.length := by omega
    rw [getElem?_eq_getElem hjlt, Option.getD_some, Option.map_eq_none_iff,
      Option.eq_none_iff_forall_not_mem]
    intro m hm
    -- a hash behind the shared part is in the other chain only if it is listed twice
    have hlocalMem := mem_of_getElem? ((localChain.getElem?_localIndexes _ _).mp hm)
    have hmem := hexact _ (getElem_mem hjlt) hlocalMem
    obtain ⟨l, hl, hget⟩ := getElem_of_mem hmem
    have hsame : remote.hashes[l]? =
        some remote.hashes[remote.hashes.length - 1 - locatorDistance j] := by
      rw [← hget, ← hrestRemote, getElem?_append_left hl, getElem?_eq_getElem hl]
    rw [← getElem?_eq_getElem hjlt] at hsame
    have := (getElem?_inj (by omega) remote.nodup).mp hsame
    omega

/-- Building a locator for a chain succeeds, its length is ten and the number of doublings up to the
length of the chain at most, and a chain that shares exactly a nonempty beginning with it resolves
it to a block of that beginning: to its last block if that is at most nine blocks from the tip, and
otherwise to a block at most twice as far. -/
theorem selectedLocator_accurate {identity : ProtocolActivationIdentity}
    (hidentity : identity.validate = .ok ()) (remote : SelectedChain) :
    ∃ locator, buildSelectedChainLocatorV1 identity remote.hashes = .ok locator ∧
      locator.locator.length ≤ 10 + Nat.log 2 remote.hashes.length ∧
      ∀ (localChain : SelectedChain) (shared : List Hash), shared ≠ [] →
        shared <+: remote.hashes → shared <+: localChain.hashes →
        (∀ hash ∈ remote.hashes, hash ∈ localChain.hashes → hash ∈ shared) →
        ∃ ancestor, resolveSelectedCommonAncestorV1 identity locator localChain.hashes =
            .ok (some ancestor) ∧
          localChain.hashes[ancestor.selectedChainIndex]? = some ancestor.hash ∧
          ancestor.hash ∈ shared ∧
          ∃ i, remote.hashes[i]? = some ancestor.hash ∧
            (remote.hashes.length - shared.length ≤ 9 →
              remote.hashes.length - 1 - i = remote.hashes.length - shared.length) ∧
            (9 < remote.hashes.length - shared.length →
              remote.hashes.length - 1 - i ≤ 2 * (remote.hashes.length - shared.length)) := by
  refine ⟨remote.toLocator identity, remote.build_eq hidentity, remote.length_locator, ?_⟩
  intro localChain shared hshared hremote hlocal hexact
  obtain ⟨i, hash, hremoteAt, hlocalAt, hishared, hdistance, hfind⟩ :=
    remote.findSome?_locator localChain hshared hremote hlocal hexact
  have hlength := length_pos_of_ne_nil hshared
  refine ⟨⟨hash, i⟩, ?_, hlocalAt, ?_, i, hremoteAt, fun hnear => ?_, fun hfar => ?_⟩
  · simp only [resolveSelectedCommonAncestorV1]
    rw [hidentity, remote.validateShape_toLocator hidentity, localChain.validate,
      ensure_pos (show (remote.toLocator identity).protocolIdentity = identity from rfl),
      show (remote.toLocator identity).locator = remote.locator from rfl, hfind]
    rfl
  · exact hexact hash (mem_of_getElem? hremoteAt) (mem_of_getElem? hlocalAt)
  · rw [locatorDistance_firstVisit_of_le hnear] at hdistance
    omega
  · have := locatorDistance_firstVisit_le hfar
    omega

/-- The names of the first blocks of a chain. -/
def blockNames (count : ℕ) : List Hash := (List.range count).map fun height => s!"block {height}"

/-- A chain of 40 blocks. -/
def longChain : SelectedChain where
  hashes := blockNames 40
  ne_nil := by decide
  nodup := by decide +kernel
  ne_empty := by decide +kernel
  length_le := by decide +kernel

/-- A chain that leaves it after 28 blocks. -/
def forkedChain : SelectedChain where
  hashes := blockNames 28 ++ ["fork"]
  ne_nil := by decide
  nodup := by decide +kernel
  ne_empty := by decide +kernel
  length_le := by decide +kernel

/-- The fork is 12 blocks from the tip, and the block found at most 24. -/
theorem selectedLocator_accurate_fork :
    ∃ locator ancestor i,
      buildSelectedChainLocatorV1 (.activatedV2 "chain" "genesis" "ordering") longChain.hashes =
        .ok locator ∧
      resolveSelectedCommonAncestorV1 (.activatedV2 "chain" "genesis" "ordering") locator
        forkedChain.hashes = .ok (some ancestor) ∧
      ancestor.hash ∈ blockNames 28 ∧ longChain.hashes[i]? = some ancestor.hash ∧ 39 - i ≤ 24 := by
  have hidentity :
      (ProtocolActivationIdentity.activatedV2 "chain" "genesis" "ordering").validate = .ok () := rfl
  obtain ⟨locator, hbuild, -, hresolve⟩ := selectedLocator_accurate hidentity longChain
  obtain ⟨ancestor, hancestor, -, hmem, i, hi, -, hfar⟩ := hresolve forkedChain (blockNames 28)
    (by decide) (by decide +kernel) (prefix_append _ _) (by decide +kernel)
  exact ⟨locator, ancestor, i, hbuild, hancestor, hmem, hi, hfar (by decide +kernel)⟩

end PulseDag
