import PulseDag.Ledger.Apply
import PulseDag.Core.Genesis

/-!
# The address index

`validate_deterministic_indexes` of `state.rs` as a property of the ledger. Spending and
creating coins keep it, so every ledger that transactions build from a genesis ledger has
a state root.
-/

namespace PulseDag

open List

/-- The outpoints listed under an address. -/
def UtxoState.entriesOf (utxo : UtxoState) (address : Address) : List OutPoint :=
  utxo.addressIndex[address]?.getD []

/-- Every coin is stored under its own outpoint and listed once, under its own address. -/
structure UtxoState.Indexed (utxo : UtxoState) : Prop where
  outpoint_eq : ∀ (outpoint : OutPoint) (coin : Utxo), utxo.utxos[outpoint]? = some coin →
    coin.outpoint = outpoint
  nodup : ∀ address, (utxo.entriesOf address).Nodup
  mem_iff : ∀ (address : Address) (outpoint : OutPoint), outpoint ∈ utxo.entriesOf address ↔
    ∃ coin, utxo.utxos[outpoint]? = some coin ∧ coin.address = address

/-! ## The check -/

variable {indexed indexed' : TreeMap OutPoint Address} {coin : Utxo} {outpoint : OutPoint}
  {utxo next : UtxoState}

/-- Indexing succeeds on distinct outpoints that are new. -/
theorem indexAddressOutpoints_eq_ok {address : Address} {outpoints : List OutPoint}
    {seen : TreeSet OutPoint} :
    indexAddressOutpoints address outpoints seen indexed = .ok indexed' ↔
      outpoints.Nodup ∧ (∀ outpoint ∈ outpoints, outpoint ∉ seen ∧ outpoint ∉ indexed) ∧
        indexed' = insertAll indexed (outpoints.map fun outpoint => (outpoint, address)) := by
  induction outpoints generalizing seen indexed with
  | nil =>
    rw [indexAddressOutpoints, Except.ok.injEq]
    simp [eq_comm]
  | cons outpoint rest ih =>
    simp only [indexAddressOutpoints, bind_eq_ok, ensure_eq_ok, ih, nodup_cons,
      forall_mem_cons, map_cons, insertAll_cons, TreeSet.mem_insert, TreeMap.mem_insert,
      not_or]
    constructor
    · rintro ⟨-, hseen, -, hindexed, hnodup, hrest, rfl⟩
      have hnotMem : outpoint ∉ rest := fun hmem => (hrest outpoint hmem).1.1 rfl
      exact ⟨⟨hnotMem, hnodup⟩, ⟨⟨hseen, hindexed⟩,
        fun other hother => ⟨(hrest other hother).1.2, (hrest other hother).2.2⟩⟩, rfl⟩
    · rintro ⟨⟨hnotMem, hnodup⟩, ⟨⟨hseen, hindexed⟩, hrest⟩, rfl⟩
      refine ⟨⟨⟩, hseen, ⟨⟩, hindexed, hnodup, fun other hother => ?_, rfl⟩
      have hne : other ≠ outpoint := fun heq => hnotMem (heq ▸ hother)
      exact ⟨⟨hne, (hrest other hother).1⟩, hne, (hrest other hother).2⟩

/-- The outpoints of an index with the addresses that list them. -/
def indexEntries (index : List (Address × List OutPoint)) : List (OutPoint × Address) :=
  index.flatMap fun entry => entry.2.map fun outpoint => (outpoint, entry.1)

/-- The first loop inverts the index when no outpoint is listed twice. -/
theorem foldlM_indexAddressOutpoints_eq_ok {index : List (Address × List OutPoint)} :
    index.foldlM (fun indexed entry => indexAddressOutpoints entry.1 entry.2 ∅ indexed) indexed =
        .ok indexed' ↔
      ((indexEntries index).map Prod.fst).Nodup ∧
      (∀ entry ∈ indexEntries index, entry.1 ∉ indexed) ∧
        indexed' = insertAll indexed (indexEntries index) := by
  induction index generalizing indexed with
  | nil =>
    rw [foldlM_nil, pure_eq_ok, Except.ok.injEq]
    simp [indexEntries, eq_comm]
  | cons entry rest ih =>
    have hfst : (entry.2.map fun outpoint => (outpoint, entry.1)).map Prod.fst = entry.2 := by
      rw [map_map]
      exact map_id entry.2
    have hsplit : indexEntries (entry :: rest) =
        (entry.2.map fun outpoint => (outpoint, entry.1)) ++ indexEntries rest := rfl
    rw [foldlM_cons, bind_eq_ok, hsplit, insertAll_append, map_append, hfst,
      nodup_append]
    simp only [ih, indexAddressOutpoints_eq_ok, forall_mem_append, forall_mem_map]
    constructor
    · rintro ⟨_, ⟨hnodup, hfresh, rfl⟩, hrest, hrestFresh, rfl⟩
      simp only [mem_insertAll, hfst, not_or] at hrestFresh
      refine ⟨⟨hnodup, hrest, fun outpoint hmem found hfound heq => ?_⟩,
        ⟨fun outpoint hmem => (hfresh outpoint hmem).2,
          fun other hother => (hrestFresh other hother).2⟩, rfl⟩
      exact (hrestFresh found hfound).1 (heq ▸ hmem)
    · rintro ⟨⟨hnodup, hrest, hdisjoint⟩, ⟨hfresh, hrestFresh⟩, rfl⟩
      refine ⟨_, ⟨hnodup, fun outpoint hmem => ⟨Std.ExtTreeSet.not_mem_empty, hfresh outpoint hmem⟩,
        rfl⟩, hrest, fun other hother => ?_, rfl⟩
      rw [mem_insertAll, hfst, not_or]
      exact ⟨fun hmem => hdisjoint other.1 hmem other hother rfl, hrestFresh other hother⟩

/-- The indexed outpoints. -/
theorem map_fst_indexEntries (index : List (Address × List OutPoint)) :
    (indexEntries index).map Prod.fst = index.flatMap Prod.snd := by
  rw [indexEntries, map_flatMap]
  refine flatMap_congr fun entry _ => ?_
  rw [map_map]
  exact map_id entry.2

/-- The entries of the index of a ledger. -/
theorem UtxoState.mem_indexEntries (utxo : UtxoState) (outpoint : OutPoint) (address : Address) :
    (outpoint, address) ∈ indexEntries utxo.addressIndex.toList ↔
      outpoint ∈ utxo.entriesOf address := by
  simp only [indexEntries, mem_flatMap, mem_map, Prod.mk.injEq, Prod.exists,
    TreeMap.mem_toList, UtxoState.entriesOf]
  constructor
  · rintro ⟨_, entries, hentries, _, hmem, rfl, rfl⟩
    rwa [hentries]
  · intro hmem
    cases hentries : utxo.addressIndex[address]? with
    | none => simp [hentries] at hmem
    | some entries =>
      rw [hentries] at hmem
      exact ⟨address, entries, hentries, outpoint, hmem, rfl, rfl⟩

/-- A coin passes when it is indexed under its owner. -/
theorem checkIndexedUtxo_eq_ok {u : Unit} :
    checkIndexedUtxo indexed (outpoint, coin) = .ok u ↔
      coin.outpoint = outpoint ∧ indexed[outpoint]? = some coin.address := by
  simp only [checkIndexedUtxo, bind_eq_ok, ensure_eq_ok, exists_const]
  refine and_congr_right fun _ => ?_
  cases indexed[outpoint]? with
  | none => simp
  | some address => simp

/-- A good index has an outpoint once. -/
theorem UtxoState.Indexed.nodup_entries (h : utxo.Indexed) :
    ((indexEntries utxo.addressIndex.toList).map Prod.fst).Nodup := by
  rw [map_fst_indexEntries, nodup_flatMap]
  have hentries : ∀ entry ∈ utxo.addressIndex.toList, utxo.entriesOf entry.1 = entry.2 := by
    intro entry hentry
    rw [UtxoState.entriesOf, (TreeMap.mem_toList _ entry.1 entry.2).mp hentry]
    rfl
  refine ⟨fun entry hentry => hentries entry hentry ▸ h.nodup entry.1, ?_⟩
  refine List.Pairwise.imp_of_mem ?_ Std.ExtTreeMap.distinct_keys_toList
  -- an outpoint under two addresses would be a coin with two owners
  intro entry other hentry hother hne outpoint hmem hmem'
  rw [← hentries entry hentry, h.mem_iff] at hmem
  rw [← hentries other hother, h.mem_iff] at hmem'
  obtain ⟨coin, hcoin, haddress⟩ := hmem
  obtain ⟨coin', hcoin', haddress'⟩ := hmem'
  rw [hcoin, Option.some.injEq] at hcoin'
  apply hne
  rw [← haddress, ← haddress', hcoin']
  exact Std.ReflOrd.compare_self

/-- The code's check accepts exactly the indexed ledgers. -/
theorem UtxoState.validateDeterministicIndexes_eq_ok {u : Unit} :
    utxo.validateDeterministicIndexes = .ok u ↔ utxo.Indexed := by
  rw [UtxoState.validateDeterministicIndexes]
  simp only [bind_eq_ok, foldlM_indexAddressOutpoints_eq_ok, forM_eq_ok, ensure_eq_ok, Prod.forall,
    TreeMap.mem_toList, checkIndexedUtxo_eq_ok, Std.ExtTreeMap.mem_keys]
  have hempty : ∀ outpoint, outpoint ∉ (∅ : TreeMap OutPoint Address) := fun _ =>
    Std.ExtTreeMap.not_mem_empty
  have hlookup : ((indexEntries utxo.addressIndex.toList).map Prod.fst).Nodup →
      ∀ outpoint address,
        (insertAll (∅ : TreeMap OutPoint Address)
          (indexEntries utxo.addressIndex.toList))[outpoint]? =
          some address ↔ outpoint ∈ utxo.entriesOf address := by
    intro hnodup outpoint address
    rw [getElem?_insertAll_eq_some _ hnodup fun entry _ => hempty entry.1, utxo.mem_indexEntries,
      or_iff_left (by simp)]
  constructor
  · rintro ⟨_, ⟨hnodup, -, rfl⟩, -, hcoins, hlisted⟩
    refine ⟨fun outpoint coin hcoin => (hcoins outpoint coin hcoin).1, fun address => ?_,
      fun address outpoint => ⟨fun hmem => ?_, ?_⟩⟩
    · rw [map_fst_indexEntries, nodup_flatMap] at hnodup
      cases hentries : utxo.addressIndex[address]? with
      | none => simp [UtxoState.entriesOf, hentries]
      | some entries =>
        rw [UtxoState.entriesOf, hentries]
        exact hnodup.1 (address, entries) ((TreeMap.mem_toList _ _ _).mpr hentries)
    · have hindexed := (hlookup hnodup outpoint address).mpr hmem
      obtain ⟨coin, hcoin⟩ := (TreeMap.mem_iff _ _).mp
        (hlisted outpoint ((TreeMap.mem_iff _ _).mpr ⟨address, hindexed⟩))
      have howner := (hcoins outpoint coin hcoin).2
      rw [hindexed, Option.some.injEq] at howner
      exact ⟨coin, hcoin, howner.symm⟩
    · rintro ⟨coin, hcoin, rfl⟩
      exact (hlookup hnodup outpoint coin.address).mp (hcoins outpoint coin hcoin).2
  · intro h
    have hnodup := h.nodup_entries
    refine ⟨_, ⟨hnodup, fun _ _ _ => hempty _, rfl⟩, ⟨⟩, fun outpoint coin hcoin => ?_,
      fun outpoint hmem => ?_⟩
    · exact ⟨h.outpoint_eq outpoint coin hcoin, (hlookup hnodup outpoint coin.address).mpr
        ((h.mem_iff coin.address outpoint).mpr ⟨coin, hcoin, rfl⟩)⟩
    · obtain ⟨address, haddress⟩ := (TreeMap.mem_iff _ _).mp hmem
      obtain ⟨coin, hcoin, -⟩ := (h.mem_iff address outpoint).mp
        ((hlookup hnodup outpoint address).mp haddress)
      exact (TreeMap.mem_iff _ _).mpr ⟨coin, hcoin⟩

/-! ## Transactions keep the index -/

/-- Removing a coin changes the index of its owner. -/
theorem removeCoin_entriesOf {spent : Utxo} (hspent : utxo.utxos[outpoint]? = some spent)
    (h : removeCoin utxo outpoint = .ok next) (address : Address) :
    next.entriesOf address =
      if address = spent.address then (utxo.entriesOf address).filter fun entry => entry ≠ outpoint
      else utxo.entriesOf address := by
  simp only [removeCoin, hspent, okOr_some, ok_bind, ok_iff] at h
  obtain rfl := h
  cases hentries : utxo.addressIndex[spent.address]? with
  | none =>
    by_cases haddress : address = spent.address
    · simp [UtxoState.entriesOf, hentries, haddress]
    · rw [if_neg haddress]
      rfl
  | some entries =>
    simp only [UtxoState.entriesOf, TreeMap.getElem?_insert]
    split
    · next heq => rw [heq, hentries]; rfl
    · rfl

/-- Removing a coin keeps the index good. -/
theorem removeCoin_indexed (hutxo : utxo.Indexed) (h : removeCoin utxo outpoint = .ok next) :
    next.Indexed := by
  obtain ⟨hmem, hutxos⟩ := removeCoin_eq_ok h
  obtain ⟨spent, hspent⟩ := (TreeMap.mem_iff _ _).mp hmem
  have hentries := removeCoin_entriesOf hspent h
  refine ⟨fun other coin hcoin => ?_, fun address => ?_, fun address other => ?_⟩
  · rw [hutxos, TreeMap.getElem?_erase] at hcoin
    split at hcoin
    · exact absurd hcoin (by simp)
    · exact hutxo.outpoint_eq other coin hcoin
  · rw [hentries]
    split
    · exact (hutxo.nodup address).filter _
    · exact hutxo.nodup address
  · rw [hentries, hutxos, TreeMap.getElem?_erase]
    by_cases hother : other = outpoint
    · subst hother
      -- the spent coin is listed under its owner only, where it is filtered out
      have hnot : address ≠ spent.address → other ∉ utxo.entriesOf address := by
        intro hne hin
        obtain ⟨coin, hcoin, haddress⟩ := (hutxo.mem_iff address other).mp hin
        rw [hspent, Option.some.injEq] at hcoin
        exact hne (by rw [← haddress, hcoin])
      by_cases haddress : address = spent.address
      · simp [haddress]
      · simp [haddress, hnot haddress]
    · rw [if_neg hother, ← hutxo.mem_iff]
      by_cases haddress : address = spent.address
      · simp [haddress, hother]
      · simp [haddress]

/-- Adding a coin changes the index of its owner. -/
theorem addCoin_entriesOf (h : addCoin utxo coin = .ok next) (address : Address) :
    next.entriesOf address =
      if address = coin.address then utxo.entriesOf address ++ [coin.outpoint]
      else utxo.entriesOf address := by
  simp only [addCoin, ok_iff] at h
  obtain ⟨-, -, rfl⟩ := h
  simp only [UtxoState.entriesOf, TreeMap.getElem?_insert]
  split
  · next heq => rw [heq]; rfl
  · rfl

/-- Adding a coin keeps the index good. -/
theorem addCoin_indexed (hutxo : utxo.Indexed) (h : addCoin utxo coin = .ok next) :
    next.Indexed := by
  obtain ⟨hfree, hutxos⟩ := addCoin_eq_ok h
  have hentries := addCoin_entriesOf h
  have hunlisted : ∀ address, coin.outpoint ∉ utxo.entriesOf address := by
    intro address hin
    obtain ⟨found, hfound, -⟩ := (hutxo.mem_iff address coin.outpoint).mp hin
    exact hfree ((TreeMap.mem_iff _ _).mpr ⟨found, hfound⟩)
  refine ⟨fun other found hfound => ?_, fun address => ?_, fun address other => ?_⟩
  · rw [hutxos, TreeMap.getElem?_insert] at hfound
    split at hfound
    · next heq => rw [← Option.some.inj hfound, heq]
    · exact hutxo.outpoint_eq other found hfound
  · rw [hentries]
    split
    · exact nodup_append.mpr ⟨hutxo.nodup address, nodup_singleton _,
        fun other hother found hfound heq => hunlisted address
          (mem_singleton.mp hfound ▸ heq ▸ hother)⟩
    · exact hutxo.nodup address
  · rw [hentries, hutxos, TreeMap.getElem?_insert]
    by_cases hother : other = coin.outpoint
    · by_cases haddress : address = coin.address
      · simp [hother, haddress]
      · simp [hother, haddress, hunlisted address, Ne.symm haddress]
    · rw [if_neg hother, ← hutxo.mem_iff]
      by_cases haddress : address = coin.address
      · simp [haddress, hother]
      · simp [haddress]

/-- Applying a transaction keeps the index. -/
theorem applyToLedger_indexed {tx : Transaction} {height : UInt64} (hutxo : utxo.Indexed)
    (h : applyToLedger tx height utxo = .ok next) : next.Indexed := by
  simp only [applyToLedger, bind_eq_ok] at h
  obtain ⟨-, -, spent, hspent, hcreated⟩ := h
  have hspentIndexed : spent.Indexed :=
    foldlM_induction (fun _ _ _ _ hs hstep => removeCoin_indexed hs hstep) hutxo hspent
  exact foldlM_induction (fun _ _ _ _ hs hstep => addCoin_indexed hs hstep) hspentIndexed hcreated

/-- A transaction keeps the index good. -/
theorem applyOrSkip_indexed (hutxo : utxo.Indexed) (tx : Transaction) (height : UInt64) :
    (applyOrSkip utxo tx height).Indexed := by
  rw [applyOrSkip]
  cases hledger : applyToLedger tx height utxo with
  | ok next => exact applyToLedger_indexed hutxo hledger
  | error error => exact hutxo

/-- The index of the empty ledger is good. -/
theorem UtxoState.empty_indexed : UtxoState.empty.Indexed := by
  refine ⟨fun _ _ h => ?_, fun _ => ?_, fun _ _ => ?_⟩
  · simp [UtxoState.empty] at h
  · simp [UtxoState.entriesOf, UtxoState.empty]
  · simp [UtxoState.entriesOf, UtxoState.empty]

/-- The index of a genesis ledger is good. -/
theorem genesisUtxoState_indexed (tx : Transaction) : (genesisUtxoState tx).Indexed :=
  UtxoState.validateDeterministicIndexes_eq_ok.mp (genesisUtxoState_validateDeterministicIndexes tx)

/-! ## The state root -/

section

variable [Crypto]

/-- The state root of a set of coins. -/
def coinsRoot (utxos : TreeMap OutPoint Utxo) : Hash :=
  sha256Hex (encodeLenPrefixedStr "PulseDAG:utxo-state-root:v1" ++ leBytes 8 utxos.size ++
    utxos.toList.flatMap utxoRootBytes)

/-- An indexed ledger has a state root, which depends on its coins alone. -/
theorem UtxoState.Indexed.computeStateRoot_eq (h : utxo.Indexed) :
    utxo.computeStateRoot = .ok (coinsRoot utxo.utxos) := by
  have hcheck : utxo.validateDeterministicIndexes = .ok () :=
    UtxoState.validateDeterministicIndexes_eq_ok.mpr h
  rw [UtxoState.computeStateRoot, hcheck]
  rfl

end

end PulseDag
