import PulseDag.Lib.Collections
import PulseDag.Lib.Except

/-!
# Greedy topological orders

Among the nodes whose parents have all been taken, a greedy topological order always
takes the one with the least key. `GreedyRun` states this for the rest of an order after
a set of nodes, and determines the order. Kahn's loop, with its indegree counters and
its set of ready keys, computes the order (`kahnLoop_spec`).
-/

namespace PulseDag

open List

/-- A finite graph whose nodes carry priorities. -/
structure PriorityGraph (κ K : Type) where
  nodes : Finset κ
  parents : κ → Finset κ
  key : κ → K

namespace PriorityGraph

variable {κ K : Type} [DecidableEq κ] [Ord K]

omit [DecidableEq κ] [Ord K] in
/-- `x` can be taken after `done`. -/
def Ready (G : PriorityGraph κ K) (done : Finset κ) (x : κ) : Prop :=
  x ∈ G.nodes ∧ x ∉ done ∧ G.parents x ⊆ done

/-- The list continues `done` greedily until nothing is ready. -/
def GreedyRun (G : PriorityGraph κ K) : Finset κ → List κ → Prop
  | done, [] => ∀ x, ¬G.Ready done x
  | done, x :: rest =>
    G.Ready done x ∧ (∀ y, G.Ready done y → (compare (G.key x) (G.key y)).isLE) ∧
      GreedyRun G (insert x done) rest

/-- Parents are nodes, and some rank increases from parents to children. -/
def Acyclic (G : PriorityGraph κ K) : Prop :=
  ∃ rank : κ → ℕ, ∀ x ∈ G.nodes, ∀ p ∈ G.parents x, p ∈ G.nodes ∧ rank p < rank x

/-- The subgraph on the nodes in `D`; it keeps the parents that are in `D`. -/
def restrict (G : PriorityGraph κ K) (D : Finset κ) : PriorityGraph κ K where
  nodes := G.nodes ∩ D
  parents x := G.parents x ∩ D
  key := G.key

variable {G : PriorityGraph κ K} {done : Finset κ} {l : List κ}

/-- A run takes nodes that have not been taken. -/
theorem GreedyRun.mem_nodes (hrun : G.GreedyRun done l) {x : κ} (hx : x ∈ l) :
    x ∈ G.nodes ∧ x ∉ done := by
  induction l generalizing done with
  | nil => simp at hx
  | cons y rest ih =>
    obtain ⟨hready, _, hrest⟩ := hrun
    rcases mem_cons.mp hx with rfl | hx
    · exact ⟨hready.1, hready.2.1⟩
    · obtain ⟨hnode, hnot⟩ := ih hrest hx
      exact ⟨hnode, fun hdone => hnot (Finset.mem_insert_of_mem hdone)⟩

/-- A run takes a node once. -/
theorem GreedyRun.nodup (hrun : G.GreedyRun done l) : l.Nodup := by
  induction l generalizing done with
  | nil => exact nodup_nil
  | cons y rest ih =>
    obtain ⟨_, _, hrest⟩ := hrun
    refine nodup_cons.mpr ⟨fun hy => ?_, ih hrest⟩
    exact (hrest.mem_nodes hy).2 (Finset.mem_insert_self y done)

/-- A run depends on the nodes with their parents and keys only. -/
theorem GreedyRun.congr {G' : PriorityGraph κ K} (hnodes : G'.nodes = G.nodes)
    (hparents : ∀ x ∈ G.nodes, G'.parents x = G.parents x)
    (hkey : ∀ x ∈ G.nodes, G'.key x = G.key x) (hrun : G.GreedyRun done l) :
    G'.GreedyRun done l := by
  have hready : ∀ done x, G'.Ready done x ↔ G.Ready done x := by
    intro done x
    rw [Ready, Ready, hnodes]
    exact and_congr_right fun hx => by rw [hparents x hx]
  induction l generalizing done with
  | nil => exact fun x hx => hrun x ((hready done x).mp hx)
  | cons x rest ih =>
    obtain ⟨hx, hmin, hrest⟩ := hrun
    refine ⟨(hready done x).mpr hx, fun y hy => ?_, ih hrest⟩
    have hy := (hready done y).mp hy
    rw [hkey x hx.1, hkey y hy.1]
    exact hmin y hy

/-- The parents of a node come before it. -/
theorem GreedyRun.parents_before {before after : List κ} {x : κ}
    (hrun : G.GreedyRun done (before ++ x :: after)) {p : κ} (hp : p ∈ G.parents x) :
    p ∈ done ∨ p ∈ before := by
  induction before generalizing done with
  | nil => exact .inl (hrun.1.2.2 hp)
  | cons y rest ih =>
    rcases ih hrun.2.2 with hdone | hrest
    · rcases Finset.mem_insert.mp hdone with rfl | hdone
      · exact .inr mem_cons_self
      · exact .inl hdone
    · exact .inr (mem_cons_of_mem y hrest)

/-- In an acyclic graph a run takes every node. -/
theorem GreedyRun.mem_of_mem_nodes (hacyclic : G.Acyclic) (hrun : G.GreedyRun done l) {x : κ}
    (hx : x ∈ G.nodes) : x ∈ done ∨ x ∈ l := by
  induction l generalizing done with
  | nil =>
    obtain ⟨rank, hrank⟩ := hacyclic
    refine .inl ?_
    induction hn : rank x using Nat.strong_induction_on generalizing x with
    | _ n ih =>
      by_contra hnot
      refine hrun x ⟨hx, hnot, fun p hp => ?_⟩
      obtain ⟨hnode, hlt⟩ := hrank x hx p hp
      exact ih (rank p) (hn ▸ hlt) hnode rfl
  | cons y rest ih =>
    rcases ih hrun.2.2 with hdone | hrest
    · rcases Finset.mem_insert.mp hdone with rfl | hdone
      · exact .inr mem_cons_self
      · exact .inl hdone
    · exact .inr (mem_cons_of_mem y hrest)

/-- A run from the start lists the nodes of an acyclic graph. -/
theorem GreedyRun.toFinset_eq (hacyclic : G.Acyclic) (hrun : G.GreedyRun ∅ l) :
    l.toFinset = G.nodes := by
  ext x
  rw [mem_toFinset]
  refine ⟨fun hx => (hrun.mem_nodes hx).1, fun hx => ?_⟩
  simpa using hrun.mem_of_mem_nodes hacyclic hx

omit [Ord K] in
/-- Taking `x` makes ready exactly the children that waited for `x` alone. -/
theorem ready_insert_iff {x y : κ} (hx : G.Ready done x)
    (hdone : ∀ z ∈ G.nodes, z ∈ done → G.parents z ⊆ done) :
    G.Ready (insert x done) y ↔ (G.Ready done y ∧ y ≠ x) ∨
      (y ∈ G.nodes ∧ x ∈ G.parents y ∧ G.parents y ⊆ insert x done) := by
  constructor
  · rintro ⟨hnode, hnot, hsub⟩
    rw [Finset.mem_insert, not_or] at hnot
    by_cases hxy : x ∈ G.parents y
    · exact .inr ⟨hnode, hxy, hsub⟩
    · exact .inl ⟨⟨hnode, hnot.2, (Finset.subset_insert_iff_of_notMem hxy).mp hsub⟩, hnot.1⟩
  · rintro (⟨⟨hnode, hnot, hsub⟩, hne⟩ | ⟨hnode, hxy, hsub⟩)
    · exact ⟨hnode, by simp [hne, hnot], hsub.trans (Finset.subset_insert x done)⟩
    · refine ⟨hnode, fun hy => ?_, hsub⟩
      rcases Finset.mem_insert.mp hy with rfl | hy
      · exact hx.2.1 (hx.2.2 hxy)
      · exact hx.2.1 (hdone y hnode hy hxy)

section

variable [Std.TransOrd K] [Std.LawfulEqOrd K]

omit [DecidableEq κ] in
/-- Two keys that are at most each other belong to one node. -/
theorem eq_of_isLE {x y : κ} (hkey : ∀ x ∈ G.nodes, ∀ y ∈ G.nodes, G.key x = G.key y → x = y)
    (hx : x ∈ G.nodes) (hy : y ∈ G.nodes) (hxy : (compare (G.key x) (G.key y)).isLE)
    (hyx : (compare (G.key y) (G.key x)).isLE) : x = y :=
  hkey x hx y hy (Std.LawfulEqOrd.eq_of_compare (Std.OrientedCmp.isLE_antisymm hxy hyx))

/-- A run with smaller nodes is a prefix of the whole run: `D` holds the parents of its
members, and its keys are below all other keys. -/
theorem GreedyRun.prefix_of_restrict {D : Finset κ} {l' : List κ}
    (hkey : ∀ x ∈ G.nodes, ∀ y ∈ G.nodes, G.key x = G.key y → x = y)
    (hparents : ∀ x ∈ G.nodes, x ∈ D → G.parents x ⊆ D)
    (hbelow : ∀ x ∈ G.nodes, ∀ y ∈ G.nodes, x ∈ D → y ∉ D →
      compare (G.key x) (G.key y) = .lt)
    (hrestrict : (G.restrict D).GreedyRun done l) (hrun : G.GreedyRun done l') :
    ∃ rest, l' = l ++ rest := by
  induction l generalizing done l' with
  | nil => exact ⟨l', rfl⟩
  | cons x rest ih =>
    obtain ⟨hready, hmin, hrest⟩ := hrestrict
    obtain ⟨hxnode, hxD⟩ := Finset.mem_inter.mp hready.1
    have hxready : G.Ready done x := by
      refine ⟨hxnode, hready.2.1, fun p hp => ?_⟩
      exact hready.2.2 (Finset.mem_inter.mpr ⟨hp, hparents x hxnode hxD hp⟩)
    cases l' with
    | nil => exact absurd hxready (hrun x)
    | cons y rest' =>
      obtain ⟨hyready, hymin, hyrest⟩ := hrun
      have hyx := hymin x hxready
      have hyD : y ∈ D := by
        by_contra hnot
        exact Std.OrientedCmp.not_lt_of_isLE hyx (hbelow x hxnode y hyready.1 hxD hnot)
      have hxy := hmin y ⟨Finset.mem_inter.mpr ⟨hyready.1, hyD⟩, hyready.2.1,
        fun p hp => hyready.2.2 (Finset.mem_inter.mp hp).1⟩
      obtain rfl : x = y := eq_of_isLE hkey hxnode hyready.1 hxy hyx
      obtain ⟨tail, htail⟩ := ih hrest hyrest
      exact ⟨tail, by rw [htail, cons_append]⟩

end

end PriorityGraph

/-! ## Kahn's loop -/

section Kahn

variable {κ K ε : Type} [Ord κ] [Std.TransOrd κ] [Std.LawfulEqOrd κ] [DecidableEq κ]
  [Ord K] [Std.TransOrd K] [Std.LawfulEqOrd K]

/-- Count one parent of `child` as taken; a child without parents left becomes ready. -/
def releaseChild (readyKey : κ → Except ε K) (state : TreeMap κ ℕ × TreeSet K) (child : κ) :
    Except ε (TreeMap κ ℕ × TreeSet K) :=
  let degree := state.1[child]?.getD 0 - 1
  let indegree := state.1.insert child degree
  if degree = 0 then do
    let key ← readyKey child
    pure (indegree, state.2.insert key)
  else pure (indegree, state.2)

/-- The children of a node in ascending order. -/
def childList (children : TreeMap κ (TreeSet κ)) (x : κ) : List κ :=
  (children[x]?.map Std.ExtTreeSet.toList).getD []

omit [DecidableEq κ] in
/-- The listed children are the stored ones. -/
theorem mem_childList {children : TreeMap κ (TreeSet κ)} {x c : κ} :
    c ∈ childList children x ↔ c ∈ children[x]?.getD ∅ := by
  rw [childList]
  cases children[x]? with
  | none => simp
  | some set => exact Std.ExtTreeSet.mem_toList

omit [DecidableEq κ] in
/-- A child is listed once. -/
theorem nodup_childList (children : TreeMap κ (TreeSet κ)) (x : κ) :
    (childList children x).Nodup := by
  rw [childList]
  cases children[x]? with
  | none => exact nodup_nil
  | some set => exact TreeSet.nodup_toList set

/-- Pop the least ready key, emit its node and release the children of the node. The loop
pops each node at most once, so the number of nodes is enough fuel. -/
def kahnLoop (readyKey : κ → Except ε K) (nodeOf : K → κ) (children : TreeMap κ (TreeSet κ)) :
    ℕ → TreeMap κ ℕ → TreeSet K → Except ε (List κ)
  | 0, _, _ => .ok []
  | fuel + 1, indegree, ready =>
    match TreeSet.first? ready with
    | none => .ok []
    | some key => do
      let state ← (childList children (nodeOf key)).foldlM (releaseChild readyKey)
        (indegree, ready.erase key)
      let rest ← kahnLoop readyKey nodeOf children fuel state.1 state.2
      pure (nodeOf key :: rest)

/-- Releasing a list of distinct children lowers their counters by one and makes those
ready whose counter reaches zero. -/
theorem releaseChildren_spec {readyKey : κ → Except ε K} {key : κ → K} (cs : List κ)
    (hnodup : cs.Nodup) (hkey : ∀ c ∈ cs, readyKey c = .ok (key c)) (indegree : TreeMap κ ℕ)
    (ready : TreeSet K) :
    ∃ indegree' ready', cs.foldlM (releaseChild readyKey) (indegree, ready) =
        .ok (indegree', ready') ∧
      (∀ x, indegree'[x]? = if x ∈ cs then some (indegree[x]?.getD 0 - 1) else indegree[x]?) ∧
      (∀ k, k ∈ ready' ↔ k ∈ ready ∨ ∃ c ∈ cs, indegree[c]?.getD 0 - 1 = 0 ∧ k = key c) := by
  induction cs generalizing indegree ready with
  | nil => exact ⟨indegree, ready, rfl, by simp, by simp⟩
  | cons c rest ih =>
    obtain ⟨hnot, hrest⟩ := nodup_cons.mp hnodup
    obtain ⟨ready₁, hstep, hready₁⟩ : ∃ ready₁, releaseChild readyKey (indegree, ready) c =
          .ok (indegree.insert c (indegree[c]?.getD 0 - 1), ready₁) ∧
        ∀ k, k ∈ ready₁ ↔ k ∈ ready ∨ (indegree[c]?.getD 0 - 1 = 0 ∧ k = key c) := by
      by_cases hzero : indegree[c]?.getD 0 - 1 = 0
      · refine ⟨ready.insert (key c), by simp [releaseChild, hzero, hkey c mem_cons_self], ?_⟩
        intro k
        rw [Std.ExtTreeSet.mem_insert, Std.compare_eq_iff_eq, or_comm]
        simp only [hzero, true_and, eq_comm]
      · exact ⟨ready, by simp [releaseChild, hzero], by simp [hzero]⟩
    obtain ⟨indegree', ready', hrun, hdegree, hready'⟩ := ih hrest
      (fun x hx => hkey x (mem_cons_of_mem c hx))
      (indegree.insert c (indegree[c]?.getD 0 - 1)) ready₁
    have hother : ∀ x ∈ rest, (indegree.insert c (indegree[c]?.getD 0 - 1))[x]? = indegree[x]? := by
      intro x hx
      rw [TreeMap.getElem?_insert, if_neg]
      rintro rfl
      exact hnot hx
    refine ⟨indegree', ready', ?_, fun x => ?_, fun k => ?_⟩
    · rw [foldlM_cons, hstep, ok_bind, hrun]
    · rw [hdegree]
      by_cases hx : x ∈ rest
      · simp [hx, hother x hx]
      · rw [if_neg hx, TreeMap.getElem?_insert]
        by_cases hxc : x = c <;> simp [hxc, hx]
    · rw [hready', hready₁, or_assoc]
      simp only [mem_cons, exists_eq_or_imp]
      refine or_congr_right (or_congr_right ?_)
      exact exists_congr fun x => and_congr_right fun hx => by rw [hother x hx]

/-- The state of Kahn's loop after `done`: counters of parents not taken, and the ready
keys. -/
structure KahnInvariant (G : PriorityGraph κ K) (done : Finset κ) (indegree : TreeMap κ ℕ)
    (ready : TreeSet K) : Prop where
  indegree_eq : ∀ x ∈ G.nodes, indegree[x]? = some (G.parents x \ done).card
  mem_ready : ∀ k, k ∈ ready ↔ ∃ x, G.Ready done x ∧ k = G.key x
  /-- Taken nodes had their parents taken before. -/
  parents_done : ∀ x ∈ G.nodes, x ∈ done → G.parents x ⊆ done

variable {G : PriorityGraph κ K} {readyKey : κ → Except ε K} {nodeOf : K → κ}
  {children : TreeMap κ (TreeSet κ)}

/-- One round of the loop keeps the invariant. -/
theorem KahnInvariant.step {done : Finset κ} {indegree : TreeMap κ ℕ} {ready : TreeSet K}
    (hinv : KahnInvariant G done indegree ready)
    (hkeyInj : ∀ x ∈ G.nodes, ∀ y ∈ G.nodes, G.key x = G.key y → x = y)
    (hkey : ∀ x ∈ G.nodes, readyKey x = .ok (G.key x))
    (hchildren : ∀ x ∈ G.nodes, ∀ c, c ∈ childList children x ↔ c ∈ G.nodes ∧ x ∈ G.parents c)
    {x : κ} (hx : G.Ready done x) :
    ∃ indegree' ready', (childList children x).foldlM (releaseChild readyKey)
        (indegree, ready.erase (G.key x)) = .ok (indegree', ready') ∧
      KahnInvariant G (insert x done) indegree' ready' := by
  obtain ⟨indegree', ready', hrun, hdegree, hready'⟩ := releaseChildren_spec
    (childList children x) (nodup_childList children x)
    (fun c hc => hkey c ((hchildren x hx.1 c).mp hc).1) indegree (ready.erase (G.key x))
  -- the counter of a child drops by exactly one, that of any other node stays
  have hcount : ∀ c ∈ G.nodes, x ∈ G.parents c →
      indegree[c]?.getD 0 - 1 = (G.parents c \ insert x done).card := by
    intro c hc hxc
    rw [hinv.indegree_eq c hc, Option.getD_some, Finset.sdiff_insert, Finset.card_erase_of_mem]
    exact Finset.mem_sdiff.mpr ⟨hxc, hx.2.1⟩
  refine ⟨indegree', ready', hrun, ⟨fun y hy => ?_, fun k => ?_, fun y hy hdone => ?_⟩⟩
  · rw [hdegree]
    by_cases hxy : x ∈ G.parents y
    · rw [if_pos ((hchildren x hx.1 y).mpr ⟨hy, hxy⟩), hcount y hy hxy]
    · rw [if_neg fun h => hxy ((hchildren x hx.1 y).mp h).2, hinv.indegree_eq y hy,
        Finset.sdiff_insert, Finset.erase_eq_of_notMem]
      exact fun h => hxy (Finset.mem_sdiff.mp h).1
  · simp only [PriorityGraph.ready_insert_iff hx hinv.parents_done, or_and_right, exists_or]
    rw [hready', Std.ExtTreeSet.mem_erase, ne_eq, Std.compare_eq_iff_eq, hinv.mem_ready]
    refine or_congr ⟨?_, ?_⟩ (exists_congr fun c => ?_)
    · rintro ⟨hne, y, hy, rfl⟩
      exact ⟨y, ⟨hy, fun h => hne (by rw [h])⟩, rfl⟩
    · rintro ⟨y, ⟨hy, hne⟩, rfl⟩
      exact ⟨fun h => hne (hkeyInj x hx.1 y hy.1 h).symm, y, hy, rfl⟩
    · rw [hchildren x hx.1]
      constructor
      · rintro ⟨⟨hc, hxc⟩, hzero, rfl⟩
        rw [hcount c hc hxc, Finset.card_eq_zero, Finset.sdiff_eq_empty_iff_subset] at hzero
        exact ⟨⟨hc, hxc, hzero⟩, rfl⟩
      · rintro ⟨⟨hc, hxc, hsub⟩, rfl⟩
        refine ⟨⟨hc, hxc⟩, ?_, rfl⟩
        rw [hcount c hc hxc, Finset.card_eq_zero, Finset.sdiff_eq_empty_iff_subset]
        exact hsub
  · rcases Finset.mem_insert.mp hdone with rfl | hdone
    · exact hx.2.2.trans (Finset.subset_insert y done)
    · exact (hinv.parents_done y hy hdone).trans (Finset.subset_insert x done)

/-- Kahn's loop succeeds and computes the greedy order. -/
theorem kahnLoop_spec
    (hkeyInj : ∀ x ∈ G.nodes, ∀ y ∈ G.nodes, G.key x = G.key y → x = y)
    (hkey : ∀ x ∈ G.nodes, readyKey x = .ok (G.key x))
    (hnodeOf : ∀ x ∈ G.nodes, nodeOf (G.key x) = x)
    (hchildren : ∀ x ∈ G.nodes, ∀ c, c ∈ childList children x ↔ c ∈ G.nodes ∧ x ∈ G.parents c)
    (fuel : ℕ) {done : Finset κ}
    {indegree : TreeMap κ ℕ} {ready : TreeSet K} (hinv : KahnInvariant G done indegree ready)
    (hfuel : (G.nodes \ done).card ≤ fuel) :
    ∃ l, kahnLoop readyKey nodeOf children fuel indegree ready = .ok l ∧ G.GreedyRun done l := by
  induction fuel generalizing done indegree ready with
  | zero =>
    refine ⟨[], rfl, fun x hx => ?_⟩
    have hempty := Finset.card_eq_zero.mp (Nat.le_zero.mp hfuel)
    exact Finset.notMem_empty x (hempty ▸ Finset.mem_sdiff.mpr ⟨hx.1, hx.2.1⟩)
  | succ fuel ih =>
    rw [kahnLoop]
    cases hmin : TreeSet.first? ready with
    | none =>
      refine ⟨[], rfl, fun x hx => ?_⟩
      rw [TreeSet.first?_eq_none.mp hmin] at hinv
      exact Std.ExtTreeSet.not_mem_empty ((hinv.mem_ready (G.key x)).mpr ⟨x, hx, rfl⟩)
    | some k =>
      obtain ⟨hk, hleast⟩ := TreeSet.first?_eq_some.mp hmin
      obtain ⟨x, hx, rfl⟩ := (hinv.mem_ready k).mp hk
      obtain ⟨indegree', ready', hrelease, hinv'⟩ :=
        hinv.step hkeyInj hkey hchildren hx
      have hcard : (G.nodes \ insert x done).card ≤ fuel := by
        rw [Finset.sdiff_insert, Finset.card_erase_of_mem (Finset.mem_sdiff.mpr ⟨hx.1, hx.2.1⟩)]
        omega
      obtain ⟨rest, hrest, hrun⟩ := ih hinv' hcard
      refine ⟨x :: rest, by simp [hnodeOf x hx.1, hrelease, hrest], hx, fun y hy => ?_, hrun⟩
      exact hleast (G.key y) ((hinv.mem_ready _).mpr ⟨y, hy, rfl⟩)

omit [Std.LawfulEqOrd κ] [DecidableEq κ] [Std.LawfulEqOrd K] in
/-- A successful step does not change when more keys are known. -/
theorem releaseChild_mono {readyKey' : κ → Except ε K}
    (hmono : ∀ x k, readyKey x = .ok k → readyKey' x = .ok k)
    {state state' : TreeMap κ ℕ × TreeSet K} {child : κ}
    (h : releaseChild readyKey state child = .ok state') :
    releaseChild readyKey' state child = .ok state' := by
  unfold releaseChild at h ⊢
  by_cases hzero : state.1[child]?.getD 0 - 1 = 0
  · simp only [hzero, if_true, ok_iff] at h ⊢
    obtain ⟨key, hkey, hok⟩ := h
    exact ⟨key, hmono child key hkey, hok⟩
  · simpa only [hzero, if_false] using h

omit [Std.LawfulEqOrd κ] [DecidableEq κ] [Std.LawfulEqOrd K] in
/-- The loop with keys for more nodes. -/
theorem kahnLoop_mono {readyKey' : κ → Except ε K}
    (hmono : ∀ x k, readyKey x = .ok k → readyKey' x = .ok k) {fuel : ℕ}
    {indegree : TreeMap κ ℕ} {ready : TreeSet K} {l : List κ}
    (h : kahnLoop readyKey nodeOf children fuel indegree ready = .ok l) :
    kahnLoop readyKey' nodeOf children fuel indegree ready = .ok l := by
  induction fuel generalizing indegree ready l with
  | zero => exact h
  | succ fuel ih =>
    rw [kahnLoop] at h ⊢
    cases hmin : TreeSet.first? ready with
    | none => rwa [hmin] at h
    | some key =>
      simp only [hmin, ok_iff] at h ⊢
      obtain ⟨state, hstate, rest, hrest, hl⟩ := h
      refine ⟨state, ?_, rest, ih hrest, hl⟩
      exact foldlM_mono (fun _ _ _ hstep => releaseChild_mono hmono hstep) hstate

end Kahn

end PulseDag
