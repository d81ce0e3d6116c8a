import PulseDag.Ghostdag.Ancestry
import PulseDag.Ghostdag.Priorities

/-!
# The canonical order is the greedy topological order

`derive_ordered_dag_v2` counts the known parents of every block and runs Kahn's loop. On
a state whose blocks have priorities, blue work and known parents, the result is the
greedy order of the graph of known parents under the ready keys.
-/

namespace PulseDag

open List

/-- The parents of a stored block that are stored themselves. -/
def knownParents (s : ChainState) (h : Hash) : Finset Hash :=
  match s.dag.blocks[h]? with
  | some block => (block.header.parents.filter (· ∈ s.dag.blocks)).toFinset
  | none => ∅

variable {s : ChainState} {parentSet : TreeSet Hash} {parents : List Hash} {block : Block}
  {hash h : Hash} {priorities : Priorities} {ready : TreeSet ReadyKey} {topology : Topology}
  {ordered : OrderedDagV2}

/-- The known parents are the listed ones that are stored. -/
theorem mem_knownParents {p c : Hash} :
    p ∈ knownParents s c ↔ ParentOf s p c ∧ p ∈ s.dag.blocks := by
  unfold knownParents ParentOf
  cases hc : s.dag.blocks[c]? with
  | none => simp
  | some block => simp

/-- Whether a block may have the parent `p`: a known block, or one below the floor of a
pruned checkpoint. -/
def ParentAllowed (s : ChainState) (block : Block) (p : Hash) : Prop :=
  p ∈ s.dag.blocks ∨ (compactPrunedCheckpoint s ∧ block.header.height = retainedFloor s)

/-- The children recorded for a parent. -/
def Topology.childSet (topology : Topology) (p : Hash) : TreeSet Hash :=
  topology.children[p]?.getD ∅

/-- The parents of the rest of a list that are counted: known and not counted before. -/
def uncountedParents (s : ChainState) (parents : List Hash) (parentSet : TreeSet Hash) :
    Finset Hash :=
  (parents.filter fun p => p ∈ s.dag.blocks ∧ p ∉ parentSet).toFinset

/-- What the loop has not counted yet. -/
theorem mem_uncountedParents {p : Hash} : p ∈ uncountedParents s parents parentSet ↔
      p ∈ parents ∧ p ∈ s.dag.blocks ∧ p ∉ parentSet := by
  simp [uncountedParents]

/-- The loop over the parents of one block counts each known parent once. -/
theorem addParentEdges_spec (parents : List Hash) (parentSet : TreeSet Hash) (topology : Topology)
    {degree : ℕ} (hallowed : ∀ p ∈ parents, ParentAllowed s block p)
    (hdegree : topology.indegree[hash]? = some degree) :
    ∃ topology', addParentEdges s hash block parents parentSet topology = .ok topology' ∧
      (∀ x, topology'.indegree[x]? = if x = hash then
        some (degree + (uncountedParents s parents parentSet).card) else topology.indegree[x]?) ∧
      ∀ p c, c ∈ topology'.childSet p ↔ c ∈ topology.childSet p ∨
        (c = hash ∧ p ∈ uncountedParents s parents parentSet) := by
  induction parents generalizing parentSet topology degree with
  | nil =>
    refine ⟨topology, rfl, fun x => ?_, fun p c => by simp [uncountedParents]⟩
    by_cases hx : x = hash <;> simp [hx, hdegree, uncountedParents]
  | cons parent rest ih =>
    have hrest : ∀ p ∈ rest, ParentAllowed s block p := fun p hp =>
      hallowed p (mem_cons_of_mem _ hp)
    rw [addParentEdges]
    by_cases hseen : parent ∈ parentSet
    · -- counted before: nothing changes
      have hsame : uncountedParents s (parent :: rest) parentSet =
          uncountedParents s rest parentSet := by
        ext p
        simp only [mem_uncountedParents, mem_cons]
        grind
      rw [if_pos hseen, hsame]
      exact ih parentSet topology hrest hdegree
    · rw [if_neg hseen]
      by_cases hknown : parent ∈ s.dag.blocks
      · have hnot : parent ∉ uncountedParents s rest (parentSet.insert parent) := by
          simp [mem_uncountedParents]
        have hinsert : uncountedParents s (parent :: rest) parentSet =
            insert parent (uncountedParents s rest (parentSet.insert parent)) := by
          ext p
          simp only [mem_uncountedParents, mem_cons, Finset.mem_insert, TreeSet.mem_insert]
          grind
        obtain ⟨topology', hrun, hindegree, hchildren⟩ := ih (parentSet.insert parent)
          { indegree := topology.indegree.insert hash (topology.indegree[hash]?.getD 0 + 1)
            children := topology.children.insert parent
              ((topology.children[parent]?.getD ∅).insert hash) } hrest
          (by rw [TreeMap.getElem?_insert, if_pos rfl])
        refine ⟨topology', by rw [if_pos hknown, hrun], fun x => ?_, fun p c => ?_⟩
        · rw [hindegree, hinsert, Finset.card_insert_of_notMem hnot, hdegree, Option.getD_some,
            TreeMap.getElem?_insert]
          by_cases hx : x = hash
          · simp only [hx, if_true]
            congr 1
            omega
          · simp [hx]
        · rw [hchildren, hinsert, Finset.mem_insert, Topology.childSet, TreeMap.getElem?_insert]
          by_cases hp : p = parent
          · subst hp
            simp only [if_true, Option.getD_some, TreeSet.mem_insert, Topology.childSet, true_or,
              and_true]
            tauto
          · simp only [hp, if_false, Topology.childSet, false_or]
      · have hfloor := (hallowed parent mem_cons_self).resolve_left hknown
        have hsame : uncountedParents s (parent :: rest) parentSet =
            uncountedParents s rest (parentSet.insert parent) := by
          ext p
          simp only [mem_uncountedParents, mem_cons, TreeSet.mem_insert]
          grind
        rw [if_neg hknown, if_pos hfloor, hsame]
        exact ih (parentSet.insert parent) topology hrest hdegree

/-- The loop over some of the stored blocks. -/
theorem foldlM_addParentEdges_spec {s : ChainState} (entries : List (Hash × Block))
    (topology : Topology) (hentries : ∀ e ∈ entries, s.dag.blocks[e.1]? = some e.2)
    (hkeys : (entries.map Prod.fst).Nodup)
    (hallowed : ∀ e ∈ entries, ∀ p ∈ e.2.header.parents, ParentAllowed s e.2 p)
    (hnew : ∀ e ∈ entries, topology.indegree[e.1]? = none) :
    ∃ topology', entries.foldlM (fun topology entry =>
        addParentEdges s entry.1 entry.2 entry.2.header.parents ∅
          { topology with indegree := topology.indegree.insertIfNew entry.1 0 }) topology =
        .ok topology' ∧
      (∀ x, topology'.indegree[x]? = if x ∈ entries.map Prod.fst then
        some (knownParents s x).card else topology.indegree[x]?) ∧
      ∀ p c, c ∈ topology'.childSet p ↔ c ∈ topology.childSet p ∨
        (c ∈ entries.map Prod.fst ∧ p ∈ knownParents s c) := by
  induction entries generalizing topology with
  | nil => exact ⟨topology, rfl, by simp, by simp⟩
  | cons entry rest ih =>
    obtain ⟨hnot, hrestKeys⟩ := nodup_cons.mp (map_cons ▸ hkeys)
    have hhead := @List.mem_cons_self _ entry rest
    have hnone : entry.1 ∉ topology.indegree := by
      intro hmem
      obtain ⟨d, hd⟩ := (TreeMap.mem_iff _ _).mp hmem
      rw [hnew entry hhead] at hd
      simp at hd
    have hparents : uncountedParents s entry.2.header.parents ∅ = knownParents s entry.1 := by
      ext p
      rw [mem_uncountedParents, mem_knownParents, ParentOf]
      simp [hentries entry hhead]
    obtain ⟨next, hrunEntry, hindegree, hchildren⟩ := addParentEdges_spec
      entry.2.header.parents ∅
      { topology with indegree := topology.indegree.insertIfNew entry.1 0 }
      (hallowed entry hhead)
      (by rw [Std.ExtTreeMap.getElem?_insertIfNew, if_pos ⟨Std.ReflOrd.compare_self, hnone⟩] :
        (topology.indegree.insertIfNew entry.1 0)[entry.1]? = some 0)
    have hget : ∀ x, next.indegree[x]? = if x = entry.1 then some (knownParents s x).card
        else topology.indegree[x]? := by
      intro x
      rw [hindegree, hparents]
      by_cases hx : x = entry.1
      · simp [hx]
      · have hx' : ¬entry.1 = x := fun h => hx h.symm
        simp [hx, Std.ExtTreeMap.getElem?_insertIfNew, hx']
    obtain ⟨topology', hrun, hindegree', hchildren'⟩ := ih next
      (fun e he => hentries e (mem_cons_of_mem _ he)) hrestKeys
      (fun e he => hallowed e (mem_cons_of_mem _ he))
      (fun e he => by
        rw [hget, if_neg, hnew e (mem_cons_of_mem _ he)]
        intro heq
        exact hnot (heq ▸ mem_map_of_mem he))
    refine ⟨topology', ?_, fun x => ?_, fun p c => ?_⟩
    · rw [foldlM_cons, hrunEntry, ok_bind, hrun]
    · rw [hindegree', hget, map_cons]
      by_cases hx : x ∈ rest.map Prod.fst
      · simp only [hx, if_true, mem_cons, or_true]
      · by_cases hxe : x = entry.1 <;> simp [hx, hxe]
    · rw [hchildren', hchildren, hparents, map_cons, mem_cons]
      have hset : ({ topology with indegree := topology.indegree.insertIfNew entry.1 0 } :
        Topology).childSet p = topology.childSet p := rfl
      rw [hset]
      constructor
      · rintro ((h | ⟨rfl, h⟩) | ⟨hc, h⟩)
        · exact .inl h
        · exact .inr ⟨.inl rfl, h⟩
        · exact .inr ⟨.inr hc, h⟩
      · rintro (h | ⟨rfl | hc, h⟩)
        · exact .inl (.inl h)
        · exact .inl (.inr ⟨rfl, h⟩)
        · exact .inr ⟨hc, h⟩

/-- All known parents are counted and recorded. -/
theorem buildTopology_spec
    (hallowed : ∀ (h : Hash) (block : Block), s.dag.blocks[h]? = some block →
      ∀ p ∈ block.header.parents, ParentAllowed s block p) :
    ∃ topology, buildTopology s = .ok topology ∧
      (∀ h ∈ s.dag.blocks, topology.indegree[h]? = some (knownParents s h).card) ∧
      (∀ h ∉ s.dag.blocks, topology.indegree[h]? = none) ∧
      ∀ p c, c ∈ topology.childSet p ↔ c ∈ s.dag.blocks ∧ p ∈ knownParents s c := by
  have hkeys : s.dag.blocks.toList.map Prod.fst = s.dag.blocks.keys :=
    Std.ExtTreeMap.map_fst_toList_eq_keys
  obtain ⟨topology, hrun, hindegree, hchildren⟩ := @foldlM_addParentEdges_spec s
    s.dag.blocks.toList ⟨∅, ∅⟩ (fun e he => (TreeMap.mem_toList _ _ _).mp he)
    (hkeys ▸ Std.ExtTreeMap.nodup_keys)
    (fun e he => hallowed e.1 e.2 ((TreeMap.mem_toList _ _ _).mp he)) (by simp)
  simp only [hkeys, Std.ExtTreeMap.mem_keys] at hindegree hchildren
  refine ⟨topology, hrun, fun h hh => ?_, fun h hh => ?_, fun p c => ?_⟩
  · rw [hindegree, if_pos hh]
  · rw [hindegree, if_neg hh]
    simp
  · rw [hchildren]
    simp [Topology.childSet]

/-! ## The order -/

/-- The ready key of a block; a block without a key is compared by its hash alone. -/
def orderKey (s : ChainState) (priorities : Priorities) (h : Hash) : ReadyKey :=
  match readyKey s priorities h with
  | .ok key => key
  | .error _ =>
    { anchorIndex := 0, cls := 0, blueWork := 0, blueScore := 0, height := 0, hash := h }

/-- The stored blocks with their known parents and ready keys. -/
def canonicalGraph (s : ChainState) (priorities : Priorities) : PriorityGraph Hash ReadyKey where
  nodes := s.dag.blocks.keys.toFinset
  parents := knownParents s
  key := orderKey s priorities

/-- The nodes are the blocks. -/
@[simp] theorem mem_canonicalGraph_nodes :
    h ∈ (canonicalGraph s priorities).nodes ↔ h ∈ s.dag.blocks := by
  simp [canonicalGraph]

/-- There are as many nodes as blocks. -/
theorem canonicalGraph_nodes_card (s : ChainState) (priorities : Priorities) :
    (canonicalGraph s priorities).nodes.card = s.dag.blocks.size := by
  rw [canonicalGraph, toFinset_card_of_nodup Std.ExtTreeMap.nodup_keys,
    Std.ExtTreeMap.length_keys]

/-- A block has a key when its work and priority are known. -/
theorem readyKey_eq_ok {key : ReadyKey} :
    readyKey s priorities h = .ok key ↔ ∃ block work priority,
      s.dag.blocks[h]? = some block ∧ s.dag.blueWork[h]? = some work ∧
      priorities[h]? = some priority ∧
      key = { anchorIndex := priority.1, cls := priority.2.toNat, blueWork := work,
              blueScore := block.header.blueScore, height := block.header.height, hash := h } := by
  simp only [readyKey, ok_iff]
  constructor
  · rintro ⟨block, hblock, work, hwork, priority, hpriority, rfl⟩
    exact ⟨block, work, priority, hblock, hwork, hpriority, rfl⟩
  · rintro ⟨block, work, priority, hblock, hwork, hpriority, rfl⟩
    exact ⟨block, hblock, work, hwork, priority, hpriority, rfl⟩

/-- The last part of a key is the hash. -/
@[simp] theorem orderKey_hash (s : ChainState) (priorities : Priorities) (h : Hash) :
    (orderKey s priorities h).hash = h := by
  unfold orderKey
  split
  · rename_i key hkey
    obtain ⟨_, _, _, _, _, _, rfl⟩ := readyKey_eq_ok.mp hkey
    rfl
  · rfl

/-- Different blocks have different keys. -/
theorem orderKey_injective (s : ChainState) (priorities : Priorities) :
    Function.Injective (orderKey s priorities) := by
  intro x y hxy
  rw [← orderKey_hash s priorities x, hxy, orderKey_hash]

/-- When all keys are known the ready set is built. -/
theorem initialReady_ok {s : ChainState} {priorities : Priorities} (entries : List (Hash × ℕ))
    (ready : TreeSet ReadyKey)
    (hkey : ∀ e ∈ entries, readyKey s priorities e.1 = .ok (orderKey s priorities e.1)) :
    ∃ ready', initialReady s priorities entries ready = .ok ready' := by
  induction entries generalizing ready with
  | nil => exact ⟨ready, rfl⟩
  | cons entry rest ih =>
    have hrest := fun e he => hkey e (mem_cons_of_mem _ he)
    rw [initialReady]
    by_cases hzero : entry.2 = 0
    · rw [if_pos hzero, hkey entry mem_cons_self, ok_bind]
      exact ih (ready.insert (orderKey s priorities entry.1)) hrest
    · rw [if_neg hzero]
      exact ih ready hrest

/-- The keys that are ready first, whenever they are all known. -/
theorem initialReady_eq_ok {entries : List (Hash × ℕ)} {ready' : TreeSet ReadyKey}
    (h : initialReady s priorities entries ready = .ok ready') (k : ReadyKey) :
    k ∈ ready' ↔ k ∈ ready ∨ ∃ e ∈ entries, e.2 = 0 ∧ k = orderKey s priorities e.1 := by
  induction entries generalizing ready with
  | nil =>
    obtain rfl := Except.ok.inj h
    simp
  | cons entry rest ih =>
    rw [initialReady] at h
    by_cases hzero : entry.2 = 0
    · rw [if_pos hzero, bind_eq_ok] at h
      obtain ⟨key, hkey, hrest⟩ := h
      rw [ih hrest, TreeSet.mem_insert]
      simp only [mem_cons, exists_eq_or_imp, hzero, true_and, orderKey, hkey]
      tauto
    · rw [if_neg hzero] at h
      rw [ih h]
      simp [hzero]

/-- From the counters of all parents, the loop computes the greedy order. -/
theorem kahnLoop_canonicalGraph {keyOf : Hash → Except OrderingV2Error ReadyKey}
    (hallowed : ∀ (h : Hash) (block : Block), s.dag.blocks[h]? = some block →
      ∀ p ∈ block.header.parents, ParentAllowed s block p)
    (htopology : buildTopology s = .ok topology)
    (hready : ∀ k, k ∈ ready ↔ ∃ e ∈ topology.indegree.toList, e.2 = 0 ∧
      k = orderKey s priorities e.1)
    (hkey : ∀ x ∈ s.dag.blocks, keyOf x = .ok (orderKey s priorities x)) :
    ∃ order, kahnLoop keyOf ReadyKey.hash topology.children s.dag.blocks.size topology.indegree
        ready = .ok order ∧ (canonicalGraph s priorities).GreedyRun ∅ order := by
  obtain ⟨found, hfound, hindegree, houtside, hchildren⟩ := buildTopology_spec hallowed
  rw [htopology, Except.ok.injEq] at hfound
  subst hfound
  have hchildList : ∀ x c, c ∈ childList topology.children x ↔ c ∈ topology.childSet x := by
    intro x c
    exact mem_childList
  -- at the start nothing is done: counters are parent counts, roots are ready
  have hinv : KahnInvariant (canonicalGraph s priorities) ∅ topology.indegree ready := by
    refine ⟨fun x hx => ?_, fun k => ?_, fun x _ hx => absurd hx (Finset.notMem_empty x)⟩
    · rw [hindegree x (mem_canonicalGraph_nodes.mp hx), Finset.sdiff_empty]
      rfl
    · rw [hready]
      constructor
      · rintro ⟨e, he, hzero, rfl⟩
        have hget := (TreeMap.mem_toList _ e.1 e.2).mp he
        have hblock : e.1 ∈ s.dag.blocks := by
          by_contra hnot
          rw [houtside e.1 hnot] at hget
          simp at hget
        rw [hindegree e.1 hblock, hzero] at hget
        refine ⟨e.1, ⟨mem_canonicalGraph_nodes.mpr hblock, Finset.notMem_empty _, ?_⟩, rfl⟩
        rw [Finset.subset_empty]
        exact Finset.card_eq_zero.mp (Option.some.inj hget)
      · rintro ⟨x, ⟨hnode, _, hparents⟩, rfl⟩
        have hblock := mem_canonicalGraph_nodes.mp hnode
        rw [Finset.subset_empty] at hparents
        refine ⟨(x, 0), (TreeMap.mem_toList _ _ _).mpr ?_, rfl, rfl⟩
        rw [hindegree x hblock, Option.some.injEq, Finset.card_eq_zero]
        exact hparents
  exact @kahnLoop_spec _ _ _ _ _ _ _ _ _ _
    (canonicalGraph s priorities) keyOf ReadyKey.hash topology.children
    (fun x _ y _ h => orderKey_injective s priorities h)
    (fun x hx => hkey x (mem_canonicalGraph_nodes.mp hx))
    (fun x _ => orderKey_hash s priorities x)
    (fun x _ c => by rw [hchildList, hchildren, mem_canonicalGraph_nodes]; rfl)
    s.dag.blocks.size ∅ topology.indegree ready hinv
    (by rw [Finset.sdiff_empty, canonicalGraph_nodes_card])

/-- The state can be ordered: every block has blue work and a priority, and its parents
are known or below the floor. -/
structure Orderable (s : ChainState) (priorities : Priorities) : Prop where
  priorities_eq : buildPriorities s = .ok priorities
  blueWork : ∀ h ∈ s.dag.blocks, h ∈ s.dag.blueWork
  allowed : ∀ (h : Hash) (block : Block), s.dag.blocks[h]? = some block →
    ∀ p ∈ block.header.parents, ParentAllowed s block p

/-- Every block gets a priority. -/
theorem mem_of_buildPriorities (h : buildPriorities s = .ok priorities) {x : Hash}
    (hx : x ∈ s.dag.blocks) : x ∈ priorities := by
  simp only [buildPriorities, bind_eq_ok, pure_eq_ok] at h
  obtain ⟨_, _, _, _, classified, _, _, hall, hok⟩ := h
  obtain rfl := Except.ok.inj hok
  by_contra hnot
  obtain ⟨y, _, _, hrun⟩ := @forM_ensure_error _ _ s.dag.blocks.keys
    (· ∈ classified.priorities) _ (fun hash => OrderingV2Error.unclassifiedBlock hash)
    ⟨x, Std.ExtTreeMap.mem_keys.mpr hx, hnot⟩
  rw [hrun] at hall
  simp at hall

/-- In an orderable state every block has its key. -/
theorem Orderable.readyKey_eq (hs : Orderable s priorities) (hh : h ∈ s.dag.blocks) :
    readyKey s priorities h = .ok (orderKey s priorities h) := by
  obtain ⟨block, hblock⟩ := (TreeMap.mem_iff _ _).mp hh
  obtain ⟨work, hwork⟩ := (TreeMap.mem_iff _ _).mp (hs.blueWork h hh)
  obtain ⟨priority, hpriority⟩ := (TreeMap.mem_iff _ _).mp
    (mem_of_buildPriorities hs.priorities_eq hh)
  have hkey := readyKey_eq_ok.mpr ⟨block, work, priority, hblock, hwork, hpriority, rfl⟩
  rw [hkey, orderKey, hkey]

/-- The first part of a key is the anchor of the block. -/
theorem Orderable.orderKey_anchorIndex (hs : Orderable s priorities) (hh : h ∈ s.dag.blocks)
    {priority : ℕ × OrderingClass} (hpriority : priorities[h]? = some priority) :
    (orderKey s priorities h).anchorIndex = priority.1 := by
  obtain ⟨_, _, priority', _, _, hpriority', heq⟩ := readyKey_eq_ok.mp (hs.readyKey_eq hh)
  rw [hpriority, Option.some.injEq] at hpriority'
  rw [heq, hpriority']

/-- On an orderable state the loop computes the greedy order; the only error left is a
cycle. -/
theorem Orderable.deriveOrderedDagV2_eq [Crypto] (hs : Orderable s priorities) :
    ∃ order, (canonicalGraph s priorities).GreedyRun ∅ order ∧
      deriveOrderedDagV2 s =
        (ensure (order.length = s.dag.blocks.size)
          (.topologyCycle (s.dag.blocks.keys.filter fun hash => hash ∉ order))) >>= fun _ =>
        .ok { orderingVersion := ghostdagV1OrderingVersion, blocks := order,
              digest := orderingDigest order } := by
  obtain ⟨topology, htopology, -, houtside, -⟩ := buildTopology_spec hs.allowed
  have hentries : ∀ e ∈ topology.indegree.toList, e.1 ∈ s.dag.blocks := by
    intro e he
    by_contra hnot
    have hget := (TreeMap.mem_toList _ e.1 e.2).mp he
    rw [houtside e.1 hnot] at hget
    simp at hget
  obtain ⟨ready, hready⟩ := @initialReady_ok s priorities topology.indegree.toList ∅
    fun e he => hs.readyKey_eq (hentries e he)
  obtain ⟨order, horder, hrun⟩ := kahnLoop_canonicalGraph hs.allowed htopology
    (fun k => by rw [initialReady_eq_ok hready, or_iff_right Std.ExtTreeSet.not_mem_empty])
    fun x hx => hs.readyKey_eq hx
  refine ⟨order, hrun, ?_⟩
  rw [deriveOrderedDagV2, hs.priorities_eq, ok_bind, htopology, ok_bind, hready, ok_bind, horder]
  rfl

/-- On an acyclic orderable state the derivation succeeds with the greedy order. -/
theorem Orderable.deriveOrderedDagV2_ok [Crypto] (hs : Orderable s priorities)
    (hacyclic : (canonicalGraph s priorities).Acyclic) :
    ∃ order, (canonicalGraph s priorities).GreedyRun ∅ order ∧
      deriveOrderedDagV2 s = .ok
        { orderingVersion := ghostdagV1OrderingVersion, blocks := order,
          digest := orderingDigest order } := by
  obtain ⟨order, hrun, heq⟩ := hs.deriveOrderedDagV2_eq
  refine ⟨order, hrun, ?_⟩
  have hlength : order.length = s.dag.blocks.size := by
    rw [← toFinset_card_of_nodup hrun.nodup, hrun.toFinset_eq hacyclic,
      canonicalGraph_nodes_card]
  rw [heq, ensure_pos hlength]
  rfl

/-! ## Orders of arbitrary states -/

/-- The parents that are linked are allowed. -/
theorem addParentEdges_allowed {topology' : Topology}
    (h : addParentEdges s hash block parents parentSet topology = .ok topology') :
    ∀ p ∈ parents, p ∉ parentSet → ParentAllowed s block p := by
  induction parents generalizing parentSet topology with
  | nil => simp
  | cons parent rest ih =>
    rw [addParentEdges] at h
    by_cases hseen : parent ∈ parentSet
    · rw [if_pos hseen] at h
      rintro p hp hnot
      rcases mem_cons.mp hp with rfl | hp
      · exact absurd hseen hnot
      · exact ih h p hp hnot
    · rw [if_neg hseen] at h
      have hhead : ParentAllowed s block parent := by
        by_contra hbad
        rw [ParentAllowed, not_or] at hbad
        rw [if_neg hbad.1, if_neg hbad.2] at h
        exact absurd h (by simp)
      have hrest : ∀ p ∈ rest, p ∉ parentSet.insert parent → ParentAllowed s block p := by
        by_cases hknown : parent ∈ s.dag.blocks
        · rw [if_pos hknown] at h
          exact ih h
        · rw [if_neg hknown, if_pos (hhead.resolve_left hknown)] at h
          exact ih h
      intro p hp hnot
      by_cases heq : p = parent
      · exact heq ▸ hhead
      · refine hrest p ((mem_cons.mp hp).resolve_left heq) ?_
        rw [TreeSet.mem_insert, not_or]
        exact ⟨heq, hnot⟩

/-- In a topology all parents are allowed. -/
theorem buildTopology_allowed (h : buildTopology s = .ok topology)
    (hblock : s.dag.blocks[hash]? = some block) :
    ∀ p ∈ block.header.parents, ParentAllowed s block p := by
  have hall : ∀ (entries : List (Hash × Block)) (start final : Topology),
      entries.foldlM (fun topology entry =>
        addParentEdges s entry.1 entry.2 entry.2.header.parents ∅
          { topology with indegree := topology.indegree.insertIfNew entry.1 0 }) start = .ok final →
      ∀ entry ∈ entries, ∀ p ∈ entry.2.header.parents, ParentAllowed s entry.2 p := by
    intro entries
    induction entries with
    | nil => simp
    | cons entry rest ih =>
      intro start final hrun
      rw [foldlM_cons, bind_eq_ok] at hrun
      obtain ⟨next, hnext, hrest⟩ := hrun
      refine forall_mem_cons.mpr ⟨fun p hp => ?_, ih next final hrest⟩
      exact addParentEdges_allowed hnext p hp Std.ExtTreeSet.not_mem_empty
  exact hall _ _ _ h (hash, block) ((TreeMap.mem_toList _ _ _).mpr hblock)

/-- Whenever an order is derived, it is the greedy order and lists every block. -/
theorem deriveOrderedDagV2_eq_ok [Crypto] (h : deriveOrderedDagV2 s = .ok ordered) :
    ∃ priorities, buildPriorities s = .ok priorities ∧
      (canonicalGraph s priorities).GreedyRun ∅ ordered.blocks ∧
      ordered.blocks.length = s.dag.blocks.size ∧
      ordered.orderingVersion = ghostdagV1OrderingVersion ∧
      ordered.digest = orderingDigest ordered.blocks := by
  simp only [deriveOrderedDagV2, bind_eq_ok, ensure_eq_ok, pure_eq_ok, Except.ok.injEq] at h
  obtain ⟨priorities, hpriorities, topology, htopology, ready, hready, order, horder, -, hlength,
    rfl⟩ := h
  have hmono : ∀ x k, readyKey s priorities x = .ok k →
      (.ok (orderKey s priorities x) : Except OrderingV2Error ReadyKey) = .ok k := by
    intro x k hk
    rw [orderKey, hk]
  obtain ⟨greedy, hgreedy, hrun⟩ := kahnLoop_canonicalGraph
    (fun hash block hblock => buildTopology_allowed htopology hblock) htopology
    (fun k => by rw [initialReady_eq_ok hready, or_iff_right Std.ExtTreeSet.not_mem_empty])
    fun x _ => rfl
  rw [kahnLoop_mono hmono horder, Except.ok.injEq] at hgreedy
  subst hgreedy
  exact ⟨priorities, hpriorities, hrun, hlength, rfl, rfl⟩

/-- The order lists a block once. -/
theorem deriveOrderedDagV2_nodup [Crypto] (h : deriveOrderedDagV2 s = .ok ordered) :
    ordered.blocks.Nodup := by
  obtain ⟨_, _, hrun, _⟩ := deriveOrderedDagV2_eq_ok h
  exact hrun.nodup

/-- The order lists exactly the blocks. -/
theorem mem_of_deriveOrderedDagV2 [Crypto] (h : deriveOrderedDagV2 s = .ok ordered) {x : Hash} :
    x ∈ ordered.blocks ↔ x ∈ s.dag.blocks := by
  obtain ⟨priorities, _, hrun, hlength, _⟩ := deriveOrderedDagV2_eq_ok h
  have hsub : ordered.blocks.toFinset ⊆ (canonicalGraph s priorities).nodes := by
    intro y hy
    exact (hrun.mem_nodes (mem_toFinset.mp hy)).1
  have hcard : (canonicalGraph s priorities).nodes.card ≤ ordered.blocks.toFinset.card := by
    rw [toFinset_card_of_nodup hrun.nodup, canonicalGraph_nodes_card, hlength]
  have hnodes : x ∈ (canonicalGraph s priorities).nodes ↔ x ∈ s.dag.blocks :=
    mem_canonicalGraph_nodes
  rw [← hnodes, ← Finset.eq_of_subset_of_card_le hsub hcard, mem_toFinset]

end PulseDag
