import PulseDag.Ghostdag.Ordering

/-!
# The anchors and classes of the canonical order

`build_priorities` succeeds on a chain of stored blocks that follow their selected
parents and whose merge sets are disjoint, and assigns to each block the index of its
anchor and its class. Blocks that no anchor classifies are the only remaining error.
-/

namespace PulseDag

open List

/-- The stored blue members of an anchor. -/
def bluesOf (s : ChainState) (anchor : Hash) : List Hash := s.dag.mergeSetBlues[anchor]?.getD []

/-- The stored red members of an anchor. -/
def redsOf (s : ChainState) (anchor : Hash) : List Hash := s.dag.mergeSetReds[anchor]?.getD []

/-- The stored merge set of an anchor. -/
def mergeMembers (s : ChainState) (anchor : Hash) : List Hash := bluesOf s anchor ++ redsOf s anchor

/-- The listed blocks follow their selected parents, the first one `previous`. -/
def ChainLinked (s : ChainState) : Option Hash → List Hash → Prop
  | _, [] => True
  | previous, hash :: rest =>
    s.dag.selectedParents[hash]? = some previous ∧ ChainLinked s (some hash) rest

/-- The selected chain is linked, and the merge sets of its blocks are stored, disjoint
and off the chain. -/
structure AnchoredChain (s : ChainState) : Prop where
  nodup : s.dag.selectedChain.Nodup
  stored : ∀ c ∈ s.dag.selectedChain, c ∈ s.dag.blocks
  linked : ChainLinked s none s.dag.selectedChain
  mergeSets : ∀ c ∈ s.dag.selectedChain, c ∈ s.dag.mergeSetBlues ∧ c ∈ s.dag.mergeSetReds
  members_nodup : ∀ c ∈ s.dag.selectedChain, (mergeMembers s c).Nodup
  members_stored : ∀ c ∈ s.dag.selectedChain, ∀ x ∈ mergeMembers s c,
    x ∈ s.dag.blocks ∧ x ∉ s.dag.selectedChain
  disjoint : s.dag.selectedChain.Pairwise fun c c' => ∀ x ∈ mergeMembers s c, x ∉ mergeMembers s c'

/-- `x` is the anchor with this index or a member of its merge set with this class. -/
def PriorityIn (s : ChainState) (chain : List Hash) (x : Hash) (priority : ℕ × OrderingClass) :
    Prop :=
  ∃ anchor, chain[priority.1]? = some anchor ∧
    match priority.2 with
    | .blue => x ∈ bluesOf s anchor
    | .red => x ∈ redsOf s anchor
    | .selectedChain => x = anchor

/-- The priority of a block of the state. -/
def PriorityOf (s : ChainState) (x : Hash) (priority : ℕ × OrderingClass) : Prop :=
  PriorityIn s s.dag.selectedChain x priority

variable {s : ChainState}

/-- The first loop gives the chain blocks their positions. -/
theorem chainPriorities_spec (chain : List Hash) (index : ℕ) (previous : Option Hash)
    (priorities : Priorities) (hnodup : chain.Nodup) (hstored : ∀ c ∈ chain, c ∈ s.dag.blocks)
    (hlinked : ChainLinked s previous chain) :
    ∃ priorities', chainPriorities s index previous chain priorities = .ok priorities' ∧
      ∀ x, priorities'[x]? = if x ∈ chain then some (index + chain.idxOf x, .selectedChain)
        else priorities[x]? := by
  induction chain generalizing index previous priorities with
  | nil => exact ⟨priorities, rfl, by simp⟩
  | cons hash rest ih =>
    obtain ⟨hnot, hrest⟩ := nodup_cons.mp hnodup
    obtain ⟨hparent, hlinked⟩ := hlinked
    obtain ⟨priorities', hrun, hget⟩ := ih (index + 1) (some hash)
      (priorities.insert hash (index, .selectedChain)) hrest
      (fun c hc => hstored c (mem_cons_of_mem _ hc)) hlinked
    refine ⟨priorities', ?_, fun x => ?_⟩
    · simp [chainPriorities, hparent, hstored hash mem_cons_self, ensure, hrun]
    · rw [hget, TreeMap.getElem?_insert]
      by_cases hx : x ∈ rest
      · have hne : hash ≠ x := fun h => hnot (h ▸ hx)
        rw [if_pos hx, if_pos (mem_cons_of_mem _ hx), idxOf_cons_ne _ hne,
          Nat.add_assoc, Nat.add_comm 1]
      · by_cases hxh : x = hash
        · simp [hxh, hnot]
        · simp [hx, hxh]

/-- The innermost loop classifies distinct new blocks. -/
theorem classifyHashes_spec {s : ChainState} {selectedSet redSet : TreeSet Hash} {index : ℕ}
    {anchor : Hash} {cls : OrderingClass} (hashes : List Hash) (localSeen : TreeSet Hash)
    (acc : ClassifiedBlocks) (hnodup : hashes.Nodup)
    (hlocal : ∀ h ∈ hashes, h ∉ localSeen) (hblue : cls = .blue → ∀ h ∈ hashes, h ∉ redSet)
    (hstored : ∀ h ∈ hashes, h ∈ s.dag.blocks ∧ h ∉ selectedSet)
    (hnew : ∀ h ∈ hashes, h ∉ acc.classifiedBy) :
    ∃ acc', classifyHashes s selectedSet redSet index anchor cls hashes localSeen acc = .ok acc' ∧
      (∀ x, x ∈ acc'.classifiedBy ↔ x ∈ acc.classifiedBy ∨ x ∈ hashes) ∧
      ∀ x, acc'.priorities[x]? = if x ∈ hashes then some (index, cls) else acc.priorities[x]? := by
  induction hashes generalizing localSeen acc with
  | nil => exact ⟨acc, rfl, by simp, by simp⟩
  | cons hash rest ih =>
    obtain ⟨hnot, hrest⟩ := nodup_cons.mp hnodup
    have hne : ∀ h ∈ rest, h ≠ hash := fun h hh heq => hnot (heq ▸ hh)
    obtain ⟨acc', hrun, hclassified, hget⟩ := ih (localSeen.insert hash)
      ⟨acc.classifiedBy.insert hash anchor, acc.priorities.insert hash (index, cls)⟩ hrest
      (fun h hh => by
        rw [TreeSet.mem_insert, not_or]
        exact ⟨hne h hh, hlocal h (mem_cons_of_mem _ hh)⟩)
      (fun hcls h hh => hblue hcls h (mem_cons_of_mem _ hh))
      (fun h hh => hstored h (mem_cons_of_mem _ hh))
      (fun h hh => by
        rw [TreeMap.mem_insert, not_or]
        exact ⟨hne h hh, hnew h (mem_cons_of_mem _ hh)⟩)
    have hhead := @List.mem_cons_self _ hash rest
    refine ⟨acc', ?_, fun x => ?_, fun x => ?_⟩
    · have hoverlap : ¬(cls = .blue ∧ hash ∈ redSet) := fun h => hblue h.1 hash hhead h.2
      rw [classifyHashes, ensure_pos (hlocal hash hhead), ensure_pos hoverlap,
        ensure_pos (hstored hash hhead).1, ensure_pos (hstored hash hhead).2,
        ensure_pos (hnew hash hhead)]
      exact hrun
    · rw [hclassified, TreeMap.mem_insert, mem_cons]
      tauto
    · rw [hget, TreeMap.getElem?_insert]
      by_cases hx : x ∈ rest
      · simp [hx]
      · by_cases hxh : x = hash <;> simp [hx, hxh]

/-- `x` is a blue or red member of the anchor with this index. -/
def ClassifiedIn (s : ChainState) (anchors : List Hash) (x : Hash) (index : ℕ)
    (cls : OrderingClass) : Prop :=
  ∃ anchor, anchors[index]? = some anchor ∧
    ((cls = .blue ∧ x ∈ bluesOf s anchor) ∨ (cls = .red ∧ x ∈ redsOf s anchor))

/-- Classes within the merge sets of a first anchor and the rest. -/
theorem classifiedIn_cons {anchor : Hash} {rest : List Hash} {x : Hash} {index : ℕ}
    {cls : OrderingClass} :
    ClassifiedIn s (anchor :: rest) x index cls ↔
      (index = 0 ∧ ((cls = .blue ∧ x ∈ bluesOf s anchor) ∨ (cls = .red ∧ x ∈ redsOf s anchor))) ∨
      ∃ i, index = i + 1 ∧ ClassifiedIn s rest x i cls := by
  unfold ClassifiedIn
  cases index with
  | zero => simp
  | succ i => simp

/-- The members of one anchor are classified in two passes, blue before red. -/
theorem classifyAnchor_spec {selectedSet : TreeSet Hash} (index : ℕ) {anchor : Hash}
    (acc : ClassifiedBlocks) (hnodup : (mergeMembers s anchor).Nodup)
    (hstored : ∀ x ∈ mergeMembers s anchor, x ∈ s.dag.blocks ∧ x ∉ selectedSet)
    (hnew : ∀ x ∈ mergeMembers s anchor, x ∉ acc.classifiedBy) :
    ∃ withBlues withReds,
      classifyHashes s selectedSet (Std.ExtTreeSet.ofList (redsOf s anchor) compare) index anchor
        .blue (bluesOf s anchor) ∅ acc = .ok withBlues ∧
      classifyHashes s selectedSet (Std.ExtTreeSet.ofList (redsOf s anchor) compare) index anchor
        .red (redsOf s anchor) ∅ withBlues = .ok withReds ∧
      (∀ x, x ∈ withReds.classifiedBy ↔ x ∈ acc.classifiedBy ∨ x ∈ mergeMembers s anchor) ∧
      ∀ x, withReds.priorities[x]? = if x ∈ bluesOf s anchor then some (index, .blue)
        else if x ∈ redsOf s anchor then some (index, .red) else acc.priorities[x]? := by
  obtain ⟨hblues, hreds, hdisjoint⟩ := nodup_append.mp hnodup
  have hmemBlue : ∀ x ∈ bluesOf s anchor, x ∈ mergeMembers s anchor := fun x hx =>
    mem_append_left _ hx
  have hmemRed : ∀ x ∈ redsOf s anchor, x ∈ mergeMembers s anchor := fun x hx =>
    mem_append_right _ hx
  obtain ⟨withBlues, hrunBlues, hclassBlues, hgetBlues⟩ := @classifyHashes_spec s selectedSet
    (Std.ExtTreeSet.ofList (redsOf s anchor) compare) index anchor .blue (bluesOf s anchor) ∅ acc
    hblues (fun _ _ => Std.ExtTreeSet.not_mem_empty)
    (fun _ x hx hred => by
      rw [Std.ExtTreeSet.mem_ofList, contains_iff_mem] at hred
      exact hdisjoint x hx x hred rfl)
    (fun x hx => hstored x (hmemBlue x hx)) (fun x hx => hnew x (hmemBlue x hx))
  obtain ⟨withReds, hrunReds, hclassReds, hgetReds⟩ := @classifyHashes_spec s selectedSet
    (Std.ExtTreeSet.ofList (redsOf s anchor) compare) index anchor .red (redsOf s anchor) ∅
    withBlues hreds (fun _ _ => Std.ExtTreeSet.not_mem_empty) (fun h => by simp at h)
    (fun x hx => hstored x (hmemRed x hx))
    (fun x hx => by
      rw [hclassBlues, not_or]
      exact ⟨hnew x (hmemRed x hx), fun hblue => hdisjoint x hblue x hx rfl⟩)
  refine ⟨withBlues, withReds, hrunBlues, hrunReds, fun x => ?_, fun x => ?_⟩
  · rw [hclassReds, hclassBlues, mergeMembers, mem_append, or_assoc]
  · rw [hgetReds, hgetBlues]
    by_cases hblue : x ∈ bluesOf s anchor
    · have hred : x ∉ redsOf s anchor := fun hred => hdisjoint x hblue x hred rfl
      simp [hblue, hred]
    · simp [hblue]

/-- The second loop classifies the members of all anchors and keeps other priorities. -/
theorem anchorPriorities_spec {s : ChainState} {selectedSet : TreeSet Hash} (anchors : List Hash)
    (index : ℕ) (acc : ClassifiedBlocks)
    (hsets : ∀ c ∈ anchors, c ∈ s.dag.mergeSetBlues ∧ c ∈ s.dag.mergeSetReds)
    (hnodup : ∀ c ∈ anchors, (mergeMembers s c).Nodup)
    (hstored : ∀ c ∈ anchors, ∀ x ∈ mergeMembers s c, x ∈ s.dag.blocks ∧ x ∉ selectedSet)
    (hdisjoint : anchors.Pairwise fun c c' => ∀ x ∈ mergeMembers s c, x ∉ mergeMembers s c')
    (hnew : ∀ c ∈ anchors, ∀ x ∈ mergeMembers s c, x ∉ acc.classifiedBy) :
    ∃ acc', anchorPriorities s selectedSet index anchors acc = .ok acc' ∧
      ∀ x i cls, acc'.priorities[x]? = some (i, cls) ↔
        (∃ j, i = index + j ∧ ClassifiedIn s anchors x j cls) ∨
        ((∀ c ∈ anchors, x ∉ mergeMembers s c) ∧ acc.priorities[x]? = some (i, cls)) := by
  induction anchors generalizing index acc with
  | nil => exact ⟨acc, rfl, by simp [ClassifiedIn]⟩
  | cons anchor rest ih =>
    obtain ⟨hanchor, hrest⟩ := pairwise_cons.mp hdisjoint
    have hhead := @List.mem_cons_self _ anchor rest
    have htail : ∀ c ∈ rest, c ∈ anchor :: rest := fun c hc => mem_cons_of_mem _ hc
    obtain ⟨withBlues, withReds, hrunBlues, hrunReds, hclass, hget⟩ :=
      classifyAnchor_spec index acc (hnodup anchor hhead) (hstored anchor hhead) (hnew anchor hhead)
    obtain ⟨acc', hrun, hpriorities⟩ := ih (index + 1) withReds (fun c hc => hsets c (htail c hc))
      (fun c hc => hnodup c (htail c hc)) (fun c hc => hstored c (htail c hc)) hrest
      (fun c hc x hx => by
        rw [hclass, not_or]
        exact ⟨hnew c (htail c hc) x hx, fun h => hanchor c hc x h hx⟩)
    obtain ⟨blues, hblues⟩ := (TreeMap.mem_iff _ _).mp (hsets anchor hhead).1
    obtain ⟨reds, hreds⟩ := (TreeMap.mem_iff _ _).mp (hsets anchor hhead).2
    have hbluesEq : bluesOf s anchor = blues := by rw [bluesOf, hblues, Option.getD_some]
    have hredsEq : redsOf s anchor = reds := by rw [redsOf, hreds, Option.getD_some]
    refine ⟨acc', ?_, fun x i cls => ?_⟩
    · rw [hbluesEq, hredsEq] at hrunBlues
      rw [hredsEq] at hrunReds
      rw [anchorPriorities, hblues, hreds]
      simp only [okOr_some, ok_bind, hrunBlues, hrunReds, hrun]
    · rw [hpriorities, hget]
      -- a member of this anchor is in no later merge set
      have hlater : x ∈ mergeMembers s anchor → ∀ c ∈ rest, x ∉ mergeMembers s c :=
        fun hx c hc => hanchor c hc x hx
      have hnone : x ∈ mergeMembers s anchor → ∀ j cls, ¬ClassifiedIn s rest x j cls := by
        rintro hx j cls ⟨c, hc, hmem⟩
        refine hlater hx c (mem_of_getElem? hc) ?_
        rw [mergeMembers, mem_append]
        exact hmem.imp And.right And.right
      have hdis : x ∈ bluesOf s anchor → x ∉ redsOf s anchor := fun hb hr =>
        (nodup_append.mp (hnodup anchor hhead)).2.2 x hb x hr rfl
      have hshift : (∃ j, i = index + 1 + j ∧ ClassifiedIn s rest x j cls) ↔
          ∃ j, i = index + j ∧ ∃ k, j = k + 1 ∧ ClassifiedIn s rest x k cls := by
        constructor
        · rintro ⟨j, hj, h⟩
          exact ⟨j + 1, by omega, j, rfl, h⟩
        · rintro ⟨_, hj, k, rfl, h⟩
          exact ⟨k, by omega, h⟩
      rw [hshift]
      simp only [classifiedIn_cons, forall_mem_cons]
      by_cases hmember : x ∈ mergeMembers s anchor
      · have hn := hnone hmember
        have hl := hlater hmember
        simp only [hn, hmember, and_false, exists_false, or_false, false_or, not_true_eq_false,
          false_and]
        rcases mem_append.mp hmember with hblue | hred
        · simp only [hblue, hdis hblue, if_true, and_true, and_false, or_false]
          grind
        · have hblue : x ∉ bluesOf s anchor := fun hblue => hdis hblue hred
          simp only [hblue, hred, if_true, if_false, and_true, and_false, false_or]
          grind
      · have hout := hmember
        rw [mergeMembers, mem_append, not_or] at hout
        simp [hout.1, hout.2, hmember]

/-- The priorities of the chain and of its merge sets, before uncovered blocks are looked
for. -/
theorem AnchoredChain.classified (hchain : AnchoredChain s) :
    ∃ chain classified, chainPriorities s 0 none s.dag.selectedChain ∅ = .ok chain ∧
      anchorPriorities s (Std.ExtTreeSet.ofList s.dag.selectedChain compare) 0
        s.dag.selectedChain ⟨∅, chain⟩ = .ok classified ∧
      ∀ x priority, classified.priorities[x]? = some priority ↔ PriorityOf s x priority := by
  obtain ⟨chain, hrunChain, hgetChain⟩ := chainPriorities_spec s.dag.selectedChain 0 none ∅
    hchain.nodup hchain.stored hchain.linked
  obtain ⟨classified, hrun, hget⟩ := @anchorPriorities_spec s
    (Std.ExtTreeSet.ofList s.dag.selectedChain compare) s.dag.selectedChain 0 ⟨∅, chain⟩
    hchain.mergeSets hchain.members_nodup
    (fun c hc x hx => by
      rw [Std.ExtTreeSet.mem_ofList, contains_iff_mem]
      exact hchain.members_stored c hc x hx)
    hchain.disjoint (fun _ _ _ _ => Std.ExtTreeMap.not_mem_empty)
  refine ⟨chain, classified, hrunChain, hrun, ?_⟩
  rintro x ⟨i, cls⟩
  rw [hget, hgetChain]
  simp only [Nat.zero_add, exists_eq_left', Std.ExtTreeMap.getElem?_empty]
  constructor
  · rintro (⟨anchor, hanchor, ⟨rfl, hx⟩ | ⟨rfl, hx⟩⟩ | ⟨_, hx⟩)
    · exact ⟨anchor, hanchor, hx⟩
    · exact ⟨anchor, hanchor, hx⟩
    · split at hx
      · rename_i hmem
        obtain ⟨rfl, rfl⟩ := Prod.mk.inj (Option.some.inj hx)
        exact ⟨x, getElem?_idxOf hmem, rfl⟩
      · simp at hx
  · rintro ⟨anchor, hanchor, hx⟩
    have hmem := mem_of_getElem? hanchor
    cases cls with
    | blue => exact .inl ⟨anchor, hanchor, .inl ⟨rfl, hx⟩⟩
    | red => exact .inl ⟨anchor, hanchor, .inr ⟨rfl, hx⟩⟩
    | selectedChain =>
      obtain rfl : x = anchor := hx
      refine .inr ⟨fun c hc hxc => (hchain.members_stored c hc x hxc).2 hmem, ?_⟩
      rw [if_pos hmem]
      obtain ⟨hlt, heq⟩ := List.getElem?_eq_some_iff.mp hanchor
      have hidx := hchain.nodup.idxOf_getElem i hlt
      rw [heq] at hidx
      rw [hidx]

/-- On an anchored chain the priorities are those of the definition. -/
theorem AnchoredChain.buildPriorities_eq (hchain : AnchoredChain s) :
    ∃ priorities : Priorities,
      (∀ x priority, priorities[x]? = some priority ↔ PriorityOf s x priority) ∧
      buildPriorities s = (s.dag.blocks.keys.forM fun hash =>
        ensure (hash ∈ priorities) (.unclassifiedBlock hash)) >>= fun _ => .ok priorities := by
  obtain ⟨chain, classified, hrunChain, hrun, hget⟩ := hchain.classified
  refine ⟨classified.priorities, hget, ?_⟩
  have hsize : (Std.ExtTreeSet.ofList s.dag.selectedChain compare).size =
      s.dag.selectedChain.length := by
    refine Std.ExtTreeSet.size_ofList ?_
    refine hchain.nodup.imp fun hne heq => hne (Std.LawfulEqOrd.eq_of_compare heq)
  rw [buildPriorities, ensure_pos hsize, hrunChain]
  simp only [ok_bind, hrun, pure_eq_ok]

/-- When every block has a priority, `build_priorities` returns the priorities. -/
theorem AnchoredChain.buildPriorities_ok (hchain : AnchoredChain s)
    (hcovered : ∀ h ∈ s.dag.blocks, ∃ priority, PriorityOf s h priority) :
    ∃ priorities, buildPriorities s = .ok priorities ∧
      ∀ x priority, priorities[x]? = some priority ↔ PriorityOf s x priority := by
  obtain ⟨priorities, hget, heq⟩ := hchain.buildPriorities_eq
  refine ⟨priorities, ?_, hget⟩
  rw [heq, forM_ensure_ok]
  · rfl
  · intro h hh
    obtain ⟨priority, hpriority⟩ := hcovered h (Std.ExtTreeMap.mem_keys.mp hh)
    exact (TreeMap.mem_iff _ _).mpr ⟨priority, (hget h priority).mpr hpriority⟩

/-- When some block has no priority, `build_priorities` reports such a block. -/
theorem AnchoredChain.buildPriorities_error (hchain : AnchoredChain s) {h : Hash}
    (hh : h ∈ s.dag.blocks) (hnone : ∀ priority, ¬PriorityOf s h priority) :
    ∃ hash, buildPriorities s = .error (.unclassifiedBlock hash) := by
  obtain ⟨priorities, hget, heq⟩ := hchain.buildPriorities_eq
  obtain ⟨x, _, _, hrun⟩ := @forM_ensure_error _ _ s.dag.blocks.keys (· ∈ priorities) _
    (fun hash => OrderingV2Error.unclassifiedBlock hash)
    ⟨h, Std.ExtTreeMap.mem_keys.mpr hh, fun hmem => by
      obtain ⟨priority, hpriority⟩ := (TreeMap.mem_iff _ _).mp hmem
      exact hnone priority ((hget h priority).mp hpriority)⟩
  exact ⟨x, by rw [heq, hrun]; rfl⟩

end PulseDag
