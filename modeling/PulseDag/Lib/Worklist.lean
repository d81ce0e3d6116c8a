import PulseDag.Lib.Collections

/-!
# A stack search that marks on discovery

The search pops a node, skips it when it is marked, and otherwise marks it and all its
successors; some successors are pushed again. Since a successor is marked before it is
pushed, it is skipped when it is popped. So the search is one pass over the start stack
(`explore_eq`), and a start node is expanded unless a node expanded before it has it as a
successor (`mem_expandedNodes`).
-/

namespace PulseDag

open List

variable {κ : Type} [Ord κ] [Std.TransOrd κ] [Std.LawfulEqOrd κ]

/-- Mark all nodes of a list. -/
def markAll (marked : TreeSet κ) (nodes : List κ) : TreeSet κ :=
  nodes.foldl (fun marked node => marked.insert node) marked

/-- The marks after marking a list. -/
@[simp] theorem mem_markAll (marked : TreeSet κ) (nodes : List κ) (x : κ) :
    x ∈ markAll marked nodes ↔ x ∈ marked ∨ x ∈ nodes := by
  induction nodes generalizing marked with
  | nil => simp [markAll]
  | cons node rest ih =>
    have hstep : markAll marked (node :: rest) = markAll (marked.insert node) rest := rfl
    rw [hstep, ih, TreeSet.mem_insert, mem_cons]
    tauto

/-- Mark the successors of a node, and push those to be popped again. -/
def discover (again : κ → Bool) (found : TreeSet κ × List κ) (successors : List κ) :
    TreeSet κ × List κ :=
  successors.foldl (fun found successor =>
    (found.1.insert successor, if again successor then successor :: found.2 else found.2)) found

/-- The search loop. The fuel `exploreCost` is enough (`explore_eq`). -/
def explore (next : κ → List κ) (again : κ → Bool) : ℕ → List κ → TreeSet κ → Option (TreeSet κ)
  | _, [], marked => some marked
  | 0, _ :: _, _ => none
  | fuel + 1, node :: stack, marked =>
    if node ∈ marked then explore next again fuel stack marked
    else
      let found := discover again (marked.insert node, stack) (next node)
      explore next again fuel found.2 found.1

/-- What a node does to the marks when it is popped. -/
def expand (next : κ → List κ) (marked : TreeSet κ) (node : κ) : TreeSet κ :=
  if node ∈ marked then marked else markAll (marked.insert node) (next node)

/-- A bound for the rounds of the search: a node to be expanded may push its successors. -/
def exploreCost (next : κ → List κ) (marked : TreeSet κ) (stack : List κ) : ℕ :=
  (stack.map fun node => if node ∈ marked then 1 else 1 + (next node).length).sum

/-! ## The search is one pass -/

omit [Std.LawfulEqOrd κ] in
/-- What the loop over the successors of a node does. -/
theorem discover_eq (again : κ → Bool) (successors : List κ) (marked : TreeSet κ) (stack : List κ) :
    discover again (marked, stack) successors =
      (markAll marked successors, (successors.filter again).reverse ++ stack) := by
  induction successors generalizing marked stack with
  | nil => rfl
  | cons successor rest ih =>
    have hstep : discover again (marked, stack) (successor :: rest) =
        discover again (marked.insert successor,
          if again successor then successor :: stack else stack) rest := rfl
    rw [hstep, ih]
    cases hagain : again successor
    · simp [hagain, markAll]
    · simp [hagain, markAll]

variable {marked : TreeSet κ} {next : κ → List κ} {nodes : List κ}

omit [Std.LawfulEqOrd κ] in
/-- Nodes that are marked already change nothing. -/
theorem foldl_expand_marked (h : ∀ node ∈ nodes, node ∈ marked) :
    nodes.foldl (expand next) marked = marked := by
  induction nodes with
  | nil => rfl
  | cons node rest ih =>
    obtain ⟨hnode, hrest⟩ := forall_mem_cons.mp h
    rw [foldl_cons, expand, if_pos hnode, ih hrest]

omit [Std.LawfulEqOrd κ] in
/-- The cost of a node and the rest. -/
theorem exploreCost_cons (next : κ → List κ) (marked : TreeSet κ) (node : κ) (stack : List κ) :
    exploreCost next marked (node :: stack) =
      (if node ∈ marked then 1 else 1 + (next node).length) + exploreCost next marked stack := by
  rw [exploreCost, map_cons, sum_cons, exploreCost]

omit [Std.LawfulEqOrd κ] in
/-- The cost of two stacks. -/
theorem exploreCost_append (next : κ → List κ) (marked : TreeSet κ) (nodes stack : List κ) :
    exploreCost next marked (nodes ++ stack) =
      exploreCost next marked nodes + exploreCost next marked stack := by
  rw [exploreCost, map_append, sum_append, exploreCost, exploreCost]

omit [Std.LawfulEqOrd κ] in
/-- With more marks there is less to do. -/
theorem exploreCost_mono (next : κ → List κ) {marked' : TreeSet κ} (stack : List κ)
    (h : ∀ x ∈ marked, x ∈ marked') :
    exploreCost next marked' stack ≤ exploreCost next marked stack := by
  induction stack with
  | nil => exact le_rfl
  | cons node rest ih =>
    rw [exploreCost_cons, exploreCost_cons]
    by_cases hnode : node ∈ marked
    · rw [if_pos hnode, if_pos (h node hnode)]
      omega
    · rw [if_neg hnode]
      split <;> omega

omit [Std.LawfulEqOrd κ] in
/-- A marked node costs one step. -/
theorem exploreCost_marked (h : ∀ node ∈ nodes, node ∈ marked) :
    exploreCost next marked nodes = nodes.length := by
  induction nodes with
  | nil => rfl
  | cons node rest ih =>
    obtain ⟨hnode, hrest⟩ := forall_mem_cons.mp h
    rw [exploreCost_cons, if_pos hnode, ih hrest, length_cons, Nat.add_comm]

variable {stack : List κ}

/-- With enough fuel the search expands the nodes of the start stack one after the other. -/
theorem explore_eq (next : κ → List κ) (again : κ → Bool) {fuel : ℕ}
    (hfuel : exploreCost next marked stack ≤ fuel) :
    explore next again fuel stack marked = some (stack.foldl (expand next) marked) := by
  induction fuel generalizing stack marked with
  | zero =>
    cases stack with
    | nil => rfl
    | cons node rest =>
      rw [exploreCost_cons] at hfuel
      split at hfuel <;> omega
  | succ fuel ih =>
    cases stack with
    | nil => rfl
    | cons node rest =>
      rw [explore, foldl_cons, expand]
      rw [exploreCost_cons] at hfuel
      by_cases hnode : node ∈ marked
      · rw [if_pos hnode, if_pos hnode]
        rw [if_pos hnode] at hfuel
        exact ih (by omega)
      · rw [if_neg hnode] at hfuel
        rw [if_neg hnode, if_neg hnode, discover_eq]
        dsimp only
        have hpushed : ∀ x ∈ ((next node).filter again).reverse,
            x ∈ markAll (marked.insert node) (next node) := by
          intro x hx
          rw [mem_markAll]
          exact .inr (mem_of_mem_filter (mem_reverse.mp hx))
        have hmore : ∀ x ∈ marked, x ∈ markAll (marked.insert node) (next node) := by
          intro x hx
          rw [mem_markAll, TreeSet.mem_insert]
          exact .inl (.inr hx)
        rw [ih, foldl_append, foldl_expand_marked hpushed]
        -- the pushed successors cost one round each, which the expanded node paid for
        have hrest := exploreCost_mono next rest hmore
        have hlength : ((next node).filter again).reverse.length ≤ (next node).length := by
          rw [length_reverse]
          exact length_filter_le _ _
        rw [exploreCost_append, exploreCost_marked hpushed]
        omega

/-! ## The expanded nodes -/

/-- The nodes of the start stack that are expanded. -/
def expandedNodes (next : κ → List κ) : List κ → TreeSet κ → List κ
  | [], _ => []
  | node :: stack, marked =>
    if node ∈ marked then expandedNodes next stack marked
    else node :: expandedNodes next stack (expand next marked node)

omit [Std.LawfulEqOrd κ] in
/-- Only nodes of the stack are expanded. -/
theorem mem_of_mem_expandedNodes {x : κ} (h : x ∈ expandedNodes next stack marked) : x ∈ stack := by
  induction stack generalizing marked with
  | nil => cases h
  | cons node rest ih =>
    rw [expandedNodes] at h
    split at h
    · exact mem_cons_of_mem _ (ih h)
    · rcases mem_cons.mp h with rfl | hx
      · exact mem_cons_self
      · exact mem_cons_of_mem _ (ih hx)

/-- The search marks the start stack and the successors of its expanded nodes. -/
theorem mem_foldl_expand (next : κ → List κ) (stack : List κ) (marked : TreeSet κ) (x : κ) :
    x ∈ stack.foldl (expand next) marked ↔
      x ∈ marked ∨ x ∈ stack ∨ ∃ node ∈ expandedNodes next stack marked, x ∈ next node := by
  induction stack generalizing marked with
  | nil => simp [expandedNodes]
  | cons node rest ih =>
    rw [foldl_cons, ih, expandedNodes]
    by_cases hnode : node ∈ marked
    · have hsame : expand next marked node = marked := if_pos hnode
      rw [hsame, if_pos hnode, mem_cons]
      constructor
      · rintro (hx | hx | hx)
        · exact .inl hx
        · exact .inr (.inl (.inr hx))
        · exact .inr (.inr hx)
      · rintro (hx | (rfl | hx) | hx)
        · exact .inl hx
        · exact .inl hnode
        · exact .inr (.inl hx)
        · exact .inr (.inr hx)
    · have hmem : x ∈ expand next marked node ↔ (x = node ∨ x ∈ marked) ∨ x ∈ next node := by
        rw [expand, if_neg hnode, mem_markAll, TreeSet.mem_insert]
      rw [if_neg hnode, hmem, mem_cons]
      simp only [mem_cons, exists_eq_or_imp]
      tauto

section

variable {before : κ → κ → Prop} [Std.Asymm before]

/-- When the stack lists the nodes in the order `before`, a node is expanded exactly when no
node expanded before it has it as a successor. -/
theorem mem_expandedNodes (hstack : stack.Pairwise before) (x : κ) :
    x ∈ expandedNodes next stack marked ↔
      x ∈ stack ∧ x ∉ marked ∧
        ∀ node ∈ expandedNodes next stack marked, before node x → x ∉ next node := by
  induction stack generalizing marked with
  | nil => simp [expandedNodes]
  | cons head rest ih =>
    obtain ⟨hhead, hrest⟩ := pairwise_cons.mp hstack
    rw [expandedNodes]
    by_cases hmarked : head ∈ marked
    · rw [if_pos hmarked, ih hrest, mem_cons]
      refine ⟨fun h => ⟨.inr h.1, h.2⟩, fun h => ⟨h.1.resolve_left ?_, h.2⟩⟩
      rintro rfl
      exact h.2.1 hmarked
    · rw [if_neg hmarked]
      by_cases hx : x = head
      · subst hx
        refine iff_of_true mem_cons_self ⟨mem_cons_self, hmarked,
          fun node hnode hbefore => ?_⟩
        -- nothing on the stack comes before its head
        rcases mem_cons.mp hnode with rfl | hnode
        · exact absurd hbefore (Std.Asymm.asymm _ _ hbefore)
        · exact absurd hbefore (Std.Asymm.asymm _ _ (hhead node (mem_of_mem_expandedNodes hnode)))
      · rw [mem_cons, or_iff_right hx, ih hrest, mem_cons, or_iff_right hx, expand,
          if_neg hmarked, mem_markAll, TreeSet.mem_insert, or_iff_right hx, forall_mem_cons,
          not_or]
        constructor
        · rintro ⟨hmem, ⟨hfresh, hnext⟩, hall⟩
          exact ⟨hmem, hfresh, fun _ => hnext, hall⟩
        · rintro ⟨hmem, hfresh, hnext, hall⟩
          exact ⟨hmem, ⟨hfresh, hnext (hhead x hmem)⟩, hall⟩

/-- A set of nodes in which a node of the list is left out exactly when it is a successor of
an earlier member: the kernel of the list. -/
def IsKernel (before : κ → κ → Prop) (next : κ → List κ) (nodes : List κ) (kernel : Set κ) : Prop :=
  ∀ x, x ∈ kernel ↔ x ∈ nodes ∧ ∀ node ∈ kernel, before node x → x ∉ next node

omit [Std.TransOrd κ] [Std.LawfulEqOrd κ] [Ord κ] in
/-- A list in order has at most one kernel. -/
theorem IsKernel.unique {kernel kernel' : Set κ} (hnodes : nodes.Pairwise before)
    (h : IsKernel before next nodes kernel) (h' : IsKernel before next nodes kernel') :
    kernel = kernel' := by
  -- the members of a beginning of the list agree, since they depend on earlier nodes only
  have hbeginning : ∀ first second, nodes = first ++ second →
      ∀ x ∈ first, x ∈ kernel ↔ x ∈ kernel' := by
    intro first
    induction first using List.reverseRecOn with
    | nil => simp
    | append_singleton first last ih =>
      intro second hsplit x hx
      have hfirst := ih ([last] ++ second) (by rw [hsplit, append_assoc])
      rcases mem_append.mp hx with hx | hx
      · exact hfirst x hx
      · rw [mem_singleton] at hx
        subst hx
        have hearlier : ∀ node ∈ nodes, before node x → node ∈ first := by
          intro node hnode hbefore
          rw [hsplit] at hnode hnodes
          obtain ⟨hpair, -, -⟩ := pairwise_append.mp hnodes
          rcases mem_append.mp hnode with hnode | hnode
          · rcases mem_append.mp hnode with hnode | hnode
            · exact hnode
            · rw [mem_singleton] at hnode
              subst hnode
              exact absurd hbefore (Std.Asymm.asymm _ _ hbefore)
          · have hlater := (pairwise_append.mp hnodes).2.2 x
              (mem_append_right _ (mem_singleton_self x)) node hnode
            exact absurd hbefore (Std.Asymm.asymm _ _ hlater)
        rw [h x, h' x]
        refine and_congr_right fun _ => ⟨fun hall node hnode hbefore => ?_,
          fun hall node hnode hbefore => ?_⟩
        · have hmem := hearlier node ((h' node).mp hnode).1 hbefore
          exact hall node ((hfirst node hmem).mpr hnode) hbefore
        · have hmem := hearlier node ((h node).mp hnode).1 hbefore
          exact hall node ((hfirst node hmem).mp hnode) hbefore
  ext x
  constructor
  · exact fun hx => (hbeginning nodes [] (append_nil _).symm x ((h x).mp hx).1).mp hx
  · exact fun hx => (hbeginning nodes [] (append_nil _).symm x ((h' x).mp hx).1).mpr hx

/-- The expanded nodes of an unmarked stack are its kernel. -/
theorem expandedNodes_isKernel (hstack : stack.Pairwise before) :
    IsKernel before next stack {x | x ∈ expandedNodes next stack ∅} := by
  intro x
  have hmem : x ∈ expandedNodes next stack ∅ ↔ _ := mem_expandedNodes hstack x
  simpa using hmem

end

end PulseDag
