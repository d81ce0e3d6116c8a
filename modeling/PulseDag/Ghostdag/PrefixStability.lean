import PulseDag.Ghostdag.OrderTotality
import PulseDag.Ghostdag.Progress

/-!
# The canonical order only grows at its end

The blocks below a block of the selected chain come first in the canonical order, in the
order that they have on their own: no block of a later merge set is taken before the
anchor of an earlier one, even when all its parents are.
-/

namespace PulseDag

open List

/-- `t` holds of `s` exactly the block `c` and its past, with their metadata, and the
selected chain up to `c`. -/
structure PastOf (s : ChainState) (c : Hash) (t : ChainState) : Prop where
  blocks : ∀ (h : Hash) (b : Block), t.dag.blocks[h]? = some b ↔
    s.dag.blocks[h]? = some b ∧ Ancestor s h c
  selectedChain : t.dag.selectedChain <+: s.dag.selectedChain
  last : t.dag.selectedChain.getLast? = some c
  selectedParents : ∀ h, Ancestor s h c → t.dag.selectedParents[h]? = s.dag.selectedParents[h]?
  blues : ∀ h, Ancestor s h c → t.dag.mergeSetBlues[h]? = s.dag.mergeSetBlues[h]?
  reds : ∀ h, Ancestor s h c → t.dag.mergeSetReds[h]? = s.dag.mergeSetReds[h]?
  blueWork : ∀ h, Ancestor s h c → t.dag.blueWork[h]? = s.dag.blueWork[h]?

variable {chain : List Hash} {previous : Option Hash}

/-- The beginning of a linked chain is linked. -/
theorem chainLinked_append_left {s : ChainState} {rest : List Hash}
    (h : ChainLinked s previous (chain ++ rest)) : ChainLinked s previous chain := by
  induction chain generalizing previous with
  | nil => trivial
  | cons c tail ih => exact ⟨h.1, ih h.2⟩

/-- Links depend on the selected parents alone. -/
theorem chainLinked_congr {s t : ChainState}
    (heq : ∀ c ∈ chain, t.dag.selectedParents[c]? = s.dag.selectedParents[c]?)
    (h : ChainLinked s previous chain) : ChainLinked t previous chain := by
  induction chain generalizing previous with
  | nil => trivial
  | cons c tail ih =>
    refine ⟨?_, ih (fun d hd => heq d (mem_cons_of_mem _ hd)) h.2⟩
    rw [heq c mem_cons_self]
    exact h.1

/-- A linked chain is determined by its last block. -/
theorem chainLinked_unique {s : ChainState} {chain' : List Hash} (h : ChainLinked s none chain)
    (h' : ChainLinked s none chain') (hlast : chain.getLast? = chain'.getLast?) :
    chain = chain' := by
  induction chain using List.reverseRecOn generalizing chain' with
  | nil => exact (getLast?_eq_none_iff.mp hlast.symm).symm
  | append_singleton init c ih =>
    induction chain' using List.reverseRecOn with
    | nil => simp at hlast
    | append_singleton init' c' =>
      obtain rfl : c = c' := by simpa using hlast
      obtain ⟨hinit, hc⟩ := chainLinked_concat.mp h
      obtain ⟨hinit', hc'⟩ := chainLinked_concat.mp h'
      rw [hc, Option.or_none, Option.or_none, Option.some.injEq] at hc'
      rw [ih hinit hinit' hc']

section

variable [Crypto] {s0 s t : ChainState} {c : Hash}

namespace PastOf

omit [Crypto] in
/-- The state of a past has the ancestors. -/
theorem mem_blocks (h : PastOf s c t) (hgraph : BlockGraph s) (hc : c ∈ s.dag.blocks) {x : Hash} :
    x ∈ t.dag.blocks ↔ Ancestor s x c := by
  rw [TreeMap.mem_iff]
  simp only [h.blocks]
  constructor
  · rintro ⟨_, _, hanc⟩
    exact hanc
  · intro hanc
    obtain ⟨b, hb⟩ := (TreeMap.mem_iff _ _).mp (hgraph.mem_of_ancestor hc hanc)
    exact ⟨b, hb, hanc⟩

variable {x : Hash}

omit [Crypto] in
/-- The ancestors are stored alike. -/
theorem getElem?_blocks (h : PastOf s c t) (hx : Ancestor s x c) :
    t.dag.blocks[x]? = s.dag.blocks[x]? := by
  refine Option.ext fun b => ?_
  rw [h.blocks]
  exact and_iff_left hx

omit [Crypto] in
/-- The ancestors have the same merge sets. -/
theorem mergeMembers_eq (h : PastOf s c t) (hx : Ancestor s x c) :
    mergeMembers t x = mergeMembers s x := by
  rw [mergeMembers, mergeMembers, bluesOf, bluesOf, redsOf, redsOf, h.blues x hx, h.reds x hx]

/-- The chain of `t` is the part of the chain of `s` that lies below `c`. -/
theorem chainPart (h : PastOf s c t) (hinv : DagInvariant s0 s) (h0 : GenesisDag s0) :
    ChainPart s t.dag.selectedChain := by
  obtain ⟨rest, hrest⟩ := h.selectedChain
  obtain ⟨_, _, _, _, hlinked, _, hstored⟩ := hinv.selectedTip
  rw [← hrest] at hlinked hstored
  exact hinv.chainPart h0 _ (chainLinked_append_left hlinked)
    fun d hd => hstored d (mem_append_left _ hd)

/-- The chain of a past consists of ancestors. -/
theorem ancestor_of_mem_chain (h : PastOf s c t) (hinv : DagInvariant s0 s) (h0 : GenesisDag s0)
    {d : Hash} (hd : d ∈ t.dag.selectedChain) : Ancestor s d c :=
  ((h.chainPart hinv h0).covers c h.last d).mp (.inl hd)

/-- The chain of a past is anchored. -/
theorem anchoredChain (h : PastOf s c t) (hinv : DagInvariant s0 s) (h0 : GenesisDag s0)
    (hgenesis : GenesisClassified s) (hc : c ∈ s.dag.blocks) : AnchoredChain t := by
  obtain ⟨rest, hrest⟩ := h.selectedChain
  obtain ⟨hnodup, _, hlinked, hsets, hmembers, _, _⟩ := hinv.anchoredChain h0 hgenesis
  obtain ⟨hcovers, hoff, hdisjoint⟩ := h.chainPart hinv h0
  have hbelow := fun d => @h.ancestor_of_mem_chain _ s0 s t c hinv h0 d
  have hmem : ∀ d ∈ t.dag.selectedChain, d ∈ s.dag.selectedChain := fun d hd =>
    hrest ▸ mem_append_left _ hd
  rw [← hrest] at hnodup hlinked
  refine ⟨(nodup_append.mp hnodup).1, fun d hd => ?_, ?_, fun d hd => ?_, fun d hd => ?_,
    fun d hd x hx => ?_, ?_⟩
  · exact (h.mem_blocks hinv.graph hc).mpr (hbelow d hd)
  · exact chainLinked_congr (fun d hd => h.selectedParents d (hbelow d hd))
      (chainLinked_append_left hlinked)
  · obtain ⟨hblues, hreds⟩ := hsets d (hmem d hd)
    rw [TreeMap.mem_iff] at hblues hreds ⊢
    rw [TreeMap.mem_iff, h.blues d (hbelow d hd), h.reds d (hbelow d hd)]
    exact ⟨hblues, hreds⟩
  · rw [h.mergeMembers_eq (hbelow d hd)]
    exact hmembers d (hmem d hd)
  · rw [h.mergeMembers_eq (hbelow d hd)] at hx
    refine ⟨(h.mem_blocks hinv.graph hc).mpr ?_, hoff d hd x hx⟩
    exact (hcovers c h.last x).mp (.inr ⟨d, hd, hx⟩)
  · refine hdisjoint.imp_of_mem fun {d d'} hd hd' hne x hx => ?_
    rw [h.mergeMembers_eq (hbelow d' hd')]
    rw [h.mergeMembers_eq (hbelow d hd)] at hx
    exact hne x hx

/-- Priorities in `t` are priorities in `s`. -/
theorem priorityOf (h : PastOf s c t) (hinv : DagInvariant s0 s) (h0 : GenesisDag s0)
    {priority : ℕ × OrderingClass} (hx : PriorityOf t x priority) : PriorityOf s x priority := by
  obtain ⟨anchor, hanchor, hclass⟩ := hx
  have hbelow := h.ancestor_of_mem_chain hinv h0 (mem_of_getElem? hanchor)
  obtain ⟨rest, hrest⟩ := h.selectedChain
  refine ⟨anchor, ?_, ?_⟩
  · rw [← hrest, getElem?_append_left (List.getElem?_eq_some_iff.mp hanchor).1, hanchor]
  · obtain ⟨i, cls⟩ := priority
    cases cls with
    | selectedChain => exact hclass
    | blue => simpa only [bluesOf, h.blues anchor hbelow] using hclass
    | red => simpa only [redsOf, h.reds anchor hbelow] using hclass

/-- The blocks of `t` are those with an anchor in the chain of `t`. -/
theorem ancestor_of_priorityOf (h : PastOf s c t) (hinv : DagInvariant s0 s) (h0 : GenesisDag s0)
    {i : ℕ} {cls : OrderingClass} (hx : PriorityOf s x (i, cls))
    (hi : i < t.dag.selectedChain.length) : Ancestor s x c := by
  obtain ⟨anchor, hanchor, hclass⟩ := hx
  obtain ⟨rest, hrest⟩ := h.selectedChain
  have hget : t.dag.selectedChain[i]? = some anchor := by
    rw [← hrest, getElem?_append_left hi] at hanchor
    exact hanchor
  have hmem := mem_of_getElem? hget
  refine ((h.chainPart hinv h0).covers c h.last x).mp ?_
  cases cls with
  | selectedChain =>
    obtain rfl : x = anchor := hclass
    exact .inl hmem
  | blue => exact .inr ⟨anchor, hmem, mem_append_left _ hclass⟩
  | red => exact .inr ⟨anchor, hmem, mem_append_right _ hclass⟩

/-- Every block of `t` has a priority there. -/
theorem exists_priorityOf (h : PastOf s c t) (hinv : DagInvariant s0 s) (h0 : GenesisDag s0)
    (hx : Ancestor s x c) : ∃ priority, PriorityOf t x priority := by
  rcases ((h.chainPart hinv h0).covers c h.last x).mpr hx with hmem | ⟨d, hd, hmem⟩
  · exact ⟨(t.dag.selectedChain.idxOf x, .selectedChain), x, getElem?_idxOf hmem, rfl⟩
  · rw [← h.mergeMembers_eq (h.ancestor_of_mem_chain hinv h0 hd)] at hmem
    rcases mem_append.mp hmem with hmem | hmem
    · exact ⟨(t.dag.selectedChain.idxOf d, .blue), d, getElem?_idxOf hd, hmem⟩
    · exact ⟨(t.dag.selectedChain.idxOf d, .red), d, getElem?_idxOf hd, hmem⟩

omit [Crypto] in
/-- The known parents within a past. -/
theorem knownParents_eq (h : PastOf s c t) (hgraph : BlockGraph s) (hc : c ∈ s.dag.blocks)
    (hx : Ancestor s x c) : knownParents t x = knownParents s x ∩ t.dag.blocks.keys.toFinset := by
  ext p
  rw [Finset.mem_inter, mem_knownParents, mem_knownParents, ParentOf, ParentOf,
    h.getElem?_blocks hx, mem_toFinset, Std.ExtTreeMap.mem_keys, and_assoc]
  refine and_congr_right fun _ => ⟨fun hp => ⟨?_, hp⟩, fun hp => hp.2⟩
  exact hgraph.mem_of_ancestor hc ((h.mem_blocks hgraph hc).mp hp)

omit [Crypto] in
/-- Blocks of `t` have the same key in both states. -/
theorem orderKey_eq (h : PastOf s c t) (hx : Ancestor s x c) {priorities priorities' : Priorities}
    (hpriority : priorities'[x]? = priorities[x]?) :
    orderKey t priorities' x = orderKey s priorities x := by
  rw [orderKey, orderKey, readyKey, readyKey, h.getElem?_blocks hx, h.blueWork x hx, hpriority]

/-- The state below a chain block can be ordered, and its order is the first part of the
whole order. -/
theorem deriveOrderedDagV2_append (h : PastOf s c t) (hinv : DagInvariant s0 s)
    (h0 : GenesisDag s0) (hgenesis : GenesisClassified s) (htips : s.dag.tips.size = 1)
    (hc : c ∈ s.dag.blocks) :
    ∃ order past, deriveOrderedDagV2 s = .ok order ∧ deriveOrderedDagV2 t = .ok past ∧
      past.blocks <+: order.blocks ∧ order.blocks.Nodup ∧
      (∀ x, x ∈ order.blocks ↔ x ∈ s.dag.blocks) ∧ ∀ x, x ∈ past.blocks ↔ Ancestor s x c := by
  obtain ⟨priorities, order, hpriorities, hget, hrun, hok⟩ :=
    hinv.deriveOrderedDagV2_ok h0 hgenesis htips
  have hmemt := @h.mem_blocks s t c hinv.graph hc
  obtain ⟨priorities', hpriorities', hget'⟩ :=
    (h.anchoredChain hinv h0 hgenesis hc).buildPriorities_ok
      fun x hx => h.exists_priorityOf hinv h0 (hmemt.mp hx)
  have hpriority : ∀ x, Ancestor s x c → priorities'[x]? = priorities[x]? := by
    intro x hx
    obtain ⟨priority, hpriority⟩ := h.exists_priorityOf hinv h0 hx
    rw [(hget' x priority).mpr hpriority, (hget x priority).mpr (h.priorityOf hinv h0 hpriority)]
  have horderable : Orderable t priorities' := by
    refine ⟨hpriorities', fun x hx => ?_, fun x b hb p hp => .inl ?_⟩
    · rw [TreeMap.mem_iff, h.blueWork x (hmemt.mp hx), ← TreeMap.mem_iff]
      exact hinv.mem_blueWork (hinv.graph.mem_of_ancestor hc (hmemt.mp hx))
    · obtain ⟨hb, hx⟩ := (h.blocks x b).mp hb
      exact hmemt.mpr (Relation.ReflTransGen.head ⟨b, hb, hp⟩ hx)
  have hacyclic : (canonicalGraph t priorities').Acyclic := by
    obtain ⟨rank, hrank⟩ := hinv.graph.acyclic priorities
    refine ⟨rank, fun x hx p hp => ?_⟩
    have hx := mem_canonicalGraph_nodes.mp hx
    have hp : p ∈ knownParents t x := hp
    rw [h.knownParents_eq hinv.graph hc (hmemt.mp hx)] at hp
    obtain ⟨hp, hpt⟩ := Finset.mem_inter.mp hp
    refine ⟨hpt, (hrank x (mem_canonicalGraph_nodes.mpr ?_) p hp).2⟩
    exact hinv.graph.mem_of_ancestor hc (hmemt.mp hx)
  obtain ⟨past, hrunPast, hokPast⟩ := horderable.deriveOrderedDagV2_ok hacyclic
  have hlist := hinv.graph.canonicalList hrun
  -- the graph of `t` is the graph of `s` on the blocks of `t`
  have hrestrict : ((canonicalGraph s priorities).restrict
      t.dag.blocks.keys.toFinset).GreedyRun ∅ past := by
    refine hrunPast.congr ?_ (fun x hx => ?_) fun x hx => ?_
    · ext x
      rw [PriorityGraph.restrict, Finset.mem_inter, mem_canonicalGraph_nodes, mem_toFinset,
        Std.ExtTreeMap.mem_keys, mem_canonicalGraph_nodes]
      exact and_iff_right_of_imp fun hx => hinv.graph.mem_of_ancestor hc (hmemt.mp hx)
    · exact (h.knownParents_eq hinv.graph hc (hmemt.mp (mem_canonicalGraph_nodes.mp hx))).symm
    · have hx := hmemt.mp (mem_canonicalGraph_nodes.mp hx)
      exact (h.orderKey_eq hx (hpriority x hx)).symm
  have hbelow : ∀ x y, x ∈ s.dag.blocks → y ∈ s.dag.blocks → Ancestor s x c → ¬Ancestor s y c →
      (orderKey s priorities x).anchorIndex < (orderKey s priorities y).anchorIndex := by
    intro x y hx hy hxc hyc
    have horderable := hinv.orderable hpriorities
    obtain ⟨priority, hxp⟩ := h.exists_priorityOf hinv h0 hxc
    obtain ⟨⟨j, cls⟩, hyp⟩ := (TreeMap.mem_iff _ _).mp (mem_of_buildPriorities hpriorities hy)
    rw [horderable.orderKey_anchorIndex hx ((hget x _).mpr (h.priorityOf hinv h0 hxp)),
      horderable.orderKey_anchorIndex hy hyp]
    obtain ⟨anchor, hanchor, _⟩ := hxp
    have hlt := (List.getElem?_eq_some_iff.mp hanchor).1
    by_contra hge
    exact hyc (h.ancestor_of_priorityOf hinv h0 ((hget y _).mp hyp) (by omega))
  -- keys are compared by their anchors first, and those of `t` come first
  obtain ⟨rest, hrest⟩ := hrestrict.prefix_of_restrict
    (fun x _ y _ hxy => orderKey_injective s priorities hxy)
    (fun x _ hx p hp => by
      rw [mem_toFinset, Std.ExtTreeMap.mem_keys, hmemt] at hx ⊢
      exact Relation.ReflTransGen.head (mem_knownParents.mp hp).1 hx)
    (fun x hx y hy hxt hyt => by
      rw [mem_toFinset, Std.ExtTreeMap.mem_keys, hmemt] at hxt hyt
      exact ReadyKey.compare_lt_of_anchorIndex (hbelow x y (mem_canonicalGraph_nodes.mp hx)
        (mem_canonicalGraph_nodes.mp hy) hxt hyt)) hrun
  refine ⟨_, _, hok, hokPast, ⟨rest, hrest.symm⟩, hlist.nodup, hlist.mem_iff, fun x => ?_⟩
  rw [← hmemt, ← mem_toFinset, hrunPast.toFinset_eq hacyclic, mem_canonicalGraph_nodes]

end PastOf

/-! ## Reachable states below a chain block -/

/-- The genesis block has empty merge sets. -/
theorem DagInvariant.genesis_mergeSets (hinv : DagInvariant s0 s) (h0 : GenesisDag s0)
    (hgenesis : GenesisClassified s) :
    s.dag.mergeSetBlues[s0.dag.genesisHash]? = some [] ∧
      s.dag.mergeSetReds[s0.dag.genesisHash]? = some [] := by
  rw [← hinv.genesisHash_eq]
  obtain ⟨hblues, hreds⟩ := append_eq_nil_iff.mp (hinv.mergeMembers_genesis h0)
  obtain ⟨blues, hb⟩ := (TreeMap.mem_iff _ _).mp hgenesis.1
  obtain ⟨reds, hr⟩ := (TreeMap.mem_iff _ _).mp hgenesis.2
  rw [bluesOf, hb, Option.getD_some] at hblues
  rw [redsOf, hr, Option.getD_some] at hreds
  rw [hb, hr, hblues, hreds]
  exact ⟨rfl, rfl⟩

/-- A reachable state with the blocks below a chain block is the past of that block. -/
theorem DagInvariant.pastOf (hs : DagInvariant s0 s) (ht : DagInvariant s0 t)
    (h0 : GenesisDag s0) (hgs : GenesisClassified s) (hgt : GenesisClassified t)
    (hc : c ∈ s.dag.selectedChain)
    (hblocks : ∀ (h : Hash) (b : Block), t.dag.blocks[h]? = some b ↔
      s.dag.blocks[h]? = some b ∧ Ancestor s h c) : PastOf s c t := by
  obtain ⟨_, _, _, _, hlinked, _, hstored⟩ := hs.selectedTip
  have hcs := hstored c hc
  have hsame : SamePast (Ancestor s · c) s t := by
    refine ⟨fun h hh => hs.graph.mem_of_ancestor hcs hh, fun h hh => Option.ext fun b => ?_,
      fun p x hx hpx => Relation.ReflTransGen.head hpx hx⟩
    rw [hblocks]
    exact (and_iff_left hh).symm
  have hagree := hsame.agreeOn hs ht
  have hmem : ∀ x ∈ t.dag.blocks, Ancestor s x c := by
    intro x hx
    obtain ⟨b, hb⟩ := (TreeMap.mem_iff _ _).mp hx
    exact ((hblocks x b).mp hb).2
  have hsets : ∀ h, Ancestor s h c → t.dag.mergeSetBlues[h]? = s.dag.mergeSetBlues[h]? ∧
      t.dag.mergeSetReds[h]? = s.dag.mergeSetReds[h]? := by
    intro h hh
    by_cases hg : h = s0.dag.genesisHash
    · obtain ⟨hsb, hsr⟩ := hs.genesis_mergeSets h0 hgs
      obtain ⟨htb, htr⟩ := ht.genesis_mergeSets h0 hgt
      rw [hg, hsb, hsr, htb, htr]
      exact ⟨rfl, rfl⟩
    · obtain ⟨classification, hms, hmt⟩ := hsame.metadata_eq hs ht hh hg
      rw [hms.blues, hms.reds, hmt.blues, hmt.reds]
      exact ⟨rfl, rfl⟩
  -- the selected tip of `t` is its only block without children, which is `c`
  obtain ⟨tip, _, htip, hlast, hlinkedt, _, hstoredt⟩ := ht.selectedTip
  obtain rfl : tip = c := by
    refine ht.linked.eq_of_ancestor htip ((hagree.ancestor_iff (Ancestor.refl s c)).mp ?_)
    exact hmem tip ((ht.linked.mem_tips tip).mp htip).1
  obtain ⟨before, after, hsplit⟩ := append_of_mem hc
  have hsplit' : s.dag.selectedChain = (before ++ [tip]) ++ after := by
    rw [hsplit, append_assoc, singleton_append]
  have hchain : t.dag.selectedChain = before ++ [tip] := by
    refine chainLinked_unique (s := s) ?_ (chainLinked_append_left (hsplit' ▸ hlinked))
      (by simp [hlast])
    refine chainLinked_congr (fun d hd => ?_) hlinkedt
    exact hsame.selectedParents_eq hs ht (hmem d (hstoredt d hd))
  exact ⟨hblocks, ⟨after, by rw [hchain, hsplit']⟩, hlast,
    fun h hh => (hsame.selectedParents_eq hs ht hh).symm, fun h hh => (hsets h hh).1,
    fun h hh => (hsets h hh).2, fun h hh => (hagree.blueWork h hh).symm⟩

omit [Crypto] in
/-- The past of a chain block exists as a state. -/
theorem exists_pastOf (hc : c ∈ s.dag.selectedChain) : ∃ t, PastOf s c t := by
  classical
  obtain ⟨before, after, hsplit⟩ := append_of_mem hc
  refine ⟨{ s with dag := { s.dag with
      blocks := s.dag.blocks.filter fun h _ => Ancestor s h c
      selectedChain := before ++ [c] } }, fun h b => ?_, ⟨after, ?_⟩, ?_, fun _ _ => rfl,
    fun _ _ => rfl, fun _ _ => rfl, fun _ _ => rfl⟩
  · simp [Option.filter_eq_some_iff]
  · simp [hsplit]
  · simp

/-- The blocks below a stored block can be committed alone. -/
theorem Built.exists_past (h0 : IsGenesisState s0) (hs : Built s0 s) (hc : c ∈ s.dag.blocks) :
    ∃ t, Built s0 t ∧ ∀ (h : Hash) (b : Block), t.dag.blocks[h]? = some b ↔
      s.dag.blocks[h]? = some b ∧ Ancestor s h c := by
  classical
  obtain ⟨blocks, hs⟩ := hs
  obtain ⟨t, ht⟩ := hs.restrict h0 (Ancestor s · c) fun p x hx hpx =>
    Relation.ReflTransGen.head hpx hx
  have hinv := hs.invariant h0
  refine ⟨t, ⟨_, ht⟩, fun h b => ?_⟩
  rw [ht.getElem?_blocks, hs.getElem?_blocks, mem_filter, decide_eq_true_eq]
  constructor
  · rintro (hb | ⟨⟨hb, hanc⟩, rfl⟩)
    · refine ⟨.inl hb, ?_⟩
      obtain rfl := h0.genesisDag.mem_blocks.mp ((TreeMap.mem_iff _ _).mpr ⟨b, hb⟩)
      exact hinv.genesisHash_eq ▸ hinv.genesis_ancestor hc
    · exact ⟨.inr ⟨hb, rfl⟩, hanc⟩
  · rintro ⟨hb | ⟨hb, rfl⟩, hanc⟩
    · exact .inl hb
    · exact .inr ⟨⟨hb, hanc⟩, rfl⟩

/-! ## Growth -/

variable {blocks more : List Block} {s' : ChainState}

/-- Runs compose. -/
theorem CommitRun.trans (hs : CommitRun s0 blocks s) (hmore : CommitRun s more s') :
    CommitRun s0 (blocks ++ more) s' := by
  induction hmore with
  | genesis => simpa using hs
  | commit _ hcommit ih => simpa using ih.commit hcommit

/-- A commit records the genesis merge set. -/
theorem CommitRun.genesisClassified (hmore : CommitRun s more s') (hs : GenesisClassified s) :
    GenesisClassified s' := by
  induction hmore with
  | genesis => exact hs
  | commit _ hcommit =>
    have hstep := commit_eq_ok_iff.mp hcommit
    rw [GenesisClassified, hstep.genesisHash_eq, hstep.inserted.mergeSetBlues,
      hstep.inserted.mergeSetReds, TreeMap.mem_insert, TreeMap.mem_insert]
    exact ⟨.inr Std.ExtTreeMap.mem_insertIfNew_self, .inr Std.ExtTreeMap.mem_insertIfNew_self⟩

/-- Commits keep the stored blocks and their pasts. -/
theorem CommitRun.agreeOn (h0 : IsGenesisState s0) (hs : CommitRun s0 blocks s)
    (hmore : CommitRun s more s') : AgreeOn (· ∈ s.dag.blocks) s s' := by
  have hinv := hs.invariant h0
  have hsame : SamePast (· ∈ s.dag.blocks) s s' := by
    refine ⟨fun h hh => hh, fun h hh => ?_, fun p x _ hpx => hinv.graph.parent_mem p x hpx⟩
    obtain ⟨b, hb⟩ := (TreeMap.mem_iff _ _).mp hh
    rw [hb, (hmore.getElem?_blocks h b).mpr (.inl hb)]
  exact hsame.agreeOn hinv ((hs.trans hmore).invariant h0)

/-- After more commits, the old blocks are those below the old selected tip. -/
theorem CommitRun.pastOf (h0 : IsGenesisState s0) (hs : CommitRun s0 blocks s)
    (hmore : CommitRun s more s') (hgs : GenesisClassified s) (hgs' : GenesisClassified s')
    (htips : s.dag.tips.size = 1) (hchain : s.dag.selectedChain <+: s'.dag.selectedChain) :
    ∃ c ∈ s'.dag.blocks, PastOf s' c s := by
  have hinv := hs.invariant h0
  have hinv' := (hs.trans hmore).invariant h0
  have hagree := hs.agreeOn h0 hmore
  obtain ⟨tip, _, htip, hlast, _⟩ := hinv.selectedTip
  have hbelow := (hinv.tips_size_eq_one_iff htip).mp htips
  have htips := ((hinv.linked.mem_tips tip).mp htip).1
  have hmem : tip ∈ s'.dag.selectedChain := hchain.subset (mem_of_getLast? hlast)
  obtain ⟨_, _, _, _, _, _, hstored⟩ := hinv'.selectedTip
  refine ⟨tip, hstored tip hmem, hinv'.pastOf hinv h0.genesisDag hgs' hgs hmem fun h b => ?_⟩
  constructor
  · intro hb
    have hh := (TreeMap.mem_iff _ _).mpr ⟨b, hb⟩
    exact ⟨(hagree.blocks h hh).symm.trans hb, (hagree.ancestor_iff htips).mp (hbelow h hh)⟩
  · rintro ⟨hb, hanc⟩
    have hh : h ∈ s.dag.blocks :=
      hinv.graph.mem_of_ancestor htips ((hagree.ancestor_iff htips).mpr hanc)
    exact (hagree.blocks h hh).trans hb

/-- Prefix stability. In a state with one tip, the canonical order restricted to a block
of the selected chain and its past is the first part of the order; it is the order of the
state that holds this part only, and that state is reached by committing it. Commits that
extend the selected chain extend the order at its end. A version 1 genesis state without
commits has no order, because its genesis merge set is not recorded. -/
theorem deriveOrderedDagV2_prefix_stable (h0 : IsGenesisState s0) (hs : Built s0 s)
    (hgenesis : s ≠ s0 ∨ GenesisClassified s0) (htips : s.dag.tips.size = 1) :
    ∃ order, deriveOrderedDagV2 s = .ok order ∧
      (∀ c ∈ s.dag.selectedChain, ∃ past : Finset Hash,
        (∀ h, h ∈ past ↔ Ancestor s h c ∧ h ≠ c) ∧
        order.blocks.filter (· ∈ insert c past) = order.blocks.take (past.card + 1) ∧
        (∃ t, PastOf s c t) ∧
        (∀ t, PastOf s c t → ∃ orderPast, deriveOrderedDagV2 t = .ok orderPast ∧
          orderPast.blocks = order.blocks.take (past.card + 1)) ∧
        (∃ t, Built s0 t ∧ ∀ (h : Hash) (b : Block), t.dag.blocks[h]? = some b ↔
          s.dag.blocks[h]? = some b ∧ Ancestor s h c) ∧
        ∀ t, Built s0 t → t ≠ s0 ∨ GenesisClassified s0 →
          (∀ (h : Hash) (b : Block), t.dag.blocks[h]? = some b ↔
            s.dag.blocks[h]? = some b ∧ Ancestor s h c) → PastOf s c t) ∧
      ∀ more s', CommitRun s more s' → s'.dag.tips.size = 1 →
        s.dag.selectedChain <+: s'.dag.selectedChain →
        ∃ order', deriveOrderedDagV2 s' = .ok order' ∧ order.blocks <+: order'.blocks := by
  classical
  have hinv := hs.invariant h0
  have hclassified := hinv.genesisClassified hgenesis
  obtain ⟨_, order, _, _, hrun, hok⟩ := hinv.deriveOrderedDagV2_ok h0.genesisDag hclassified htips
  obtain ⟨_, _, _, _, _, _, hstored⟩ := hinv.selectedTip
  refine ⟨_, hok, fun c hc => ?_, fun more s' hmore htips' hchain => ?_⟩
  · have hcs := hstored c hc
    let past := (s.dag.blocks.keys.toFinset.filter (Ancestor s · c)).erase c
    have hpast : ∀ h, h ∈ past ↔ Ancestor s h c ∧ h ≠ c := by
      intro h
      rw [Finset.mem_erase, Finset.mem_filter, mem_toFinset, Std.ExtTreeMap.mem_keys, and_comm]
      exact and_congr_left fun _ =>
        and_iff_right_of_imp fun hanc => hinv.graph.mem_of_ancestor hcs hanc
    have hmem : ∀ h, h ∈ insert c past ↔ Ancestor s h c := by
      intro h
      rw [Finset.mem_insert, hpast]
      by_cases hh : h = c
      · simp [hh, Ancestor.refl]
      · simp [hh]
    have hprefix : ∀ t, PastOf s c t → ∃ orderPast, deriveOrderedDagV2 t = .ok orderPast ∧
        orderPast.blocks = order.take (past.card + 1) ∧
        order.filter (· ∈ insert c past) = order.take (past.card + 1) := by
      intro t ht
      obtain ⟨order', orderPast, hok', hokPast, hprefix, hnodup, _, hiff⟩ :=
        ht.deriveOrderedDagV2_append hinv h0.genesisDag hclassified htips hcs
      obtain rfl := Except.ok.inj (hok.symm.trans hok')
      obtain ⟨hfilter, htake⟩ := filter_eq_take_of_prefix hprefix hnodup (insert c past)
        fun h => (hiff h).trans (hmem h).symm
      rw [Finset.card_insert_of_notMem fun h => ((hpast c).mp h).2 rfl] at htake
      exact ⟨orderPast, hokPast, htake, hfilter.trans htake⟩
    obtain ⟨t, ht⟩ := exists_pastOf hc
    obtain ⟨_, _, _, hfilter⟩ := hprefix t ht
    refine ⟨past, hpast, hfilter, ⟨t, ht⟩, fun t ht => ?_, hs.exists_past h0 hcs,
      fun t ht hne hblocks => ?_⟩
    · obtain ⟨orderPast, hokPast, htake, _⟩ := hprefix t ht
      exact ⟨orderPast, hokPast, htake⟩
    · have hinvt := ht.invariant h0
      exact hinv.pastOf hinvt h0.genesisDag hclassified (hinvt.genesisClassified hne) hc hblocks
  · obtain ⟨blocks, hs⟩ := hs
    have hinv' := (hs.trans hmore).invariant h0
    have hclassified' := hmore.genesisClassified hclassified
    obtain ⟨c, hc, hpast⟩ := hs.pastOf h0 hmore hclassified hclassified' htips hchain
    obtain ⟨order', past, hok', hokPast, hprefix, _⟩ :=
      hpast.deriveOrderedDagV2_append hinv' h0.genesisDag hclassified' htips' hc
    rw [hok, Except.ok.injEq] at hokPast
    exact ⟨order', hok', hokPast ▸ hprefix⟩

end

/-- The order of the diamond starts with that of the past of each block of its chain. -/
theorem deriveOrderedDagV2_prefix_stable_diamond : letI := checksumCrypto
    ∃ s0 s, initChainStateV3 "c" 1 = .ok s0 ∧ Built s0 s ∧ s.dag.tips.size = 1 ∧
      s.dag.blocks.size = 4 ∧ s.dag.selectedChain.length = 3 ∧
      ∃ order, deriveOrderedDagV2 s = .ok order ∧ ∀ c ∈ s.dag.selectedChain, ∀ t, PastOf s c t →
        ∃ past, deriveOrderedDagV2 t = .ok past ∧ past.blocks <+: order.blocks := by
  let := checksumCrypto
  have heval : ((sampleRun diamond).toOption.map fun r =>
      (r.2.dag.tips.size, r.2.dag.blocks.size, r.2.dag.selectedChain.length)) =
      some (1, 4, 3) := by decide +kernel
  obtain ⟨⟨s0, s⟩, hrun, hsizes⟩ := Option.map_eq_some_iff.mp heval
  obtain ⟨htips, hsizes⟩ := Prod.mk.inj hsizes
  obtain ⟨hblocks, hchain⟩ := Prod.mk.inj hsizes
  obtain ⟨h0, hcommits⟩ := sampleRun_eq_some hrun
  obtain ⟨order, hok, hall, _⟩ := deriveOrderedDagV2_prefix_stable (.v3 h0) ⟨_, hcommits⟩
    (.inr (genesisClassified_of_v3 h0)) htips
  refine ⟨s0, s, h0, ⟨_, hcommits⟩, htips, hblocks, hchain, order, hok, fun c hc t ht => ?_⟩
  obtain ⟨past, _, _, _, hprefix, _⟩ := hall c hc
  obtain ⟨orderPast, hokPast, heq⟩ := hprefix t ht
  exact ⟨orderPast, hokPast, heq ▸ take_prefix _ _⟩

end PulseDag
