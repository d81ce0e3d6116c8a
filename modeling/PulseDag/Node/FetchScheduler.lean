import Mathlib.Data.List.Sort
import PulseDag.Core.Types
import PulseDag.Lib.Collections

/-!
# The fetch scheduler

`DependencyAwareFetchScheduler` of `block_request.rs`. Announced hashes wait in an inventory. A hash
whose header lists a parent that is neither known nor pending stays there, and the parent is
requested in its place. Such a parent is marked as queued without entering the inventory, and the
mark is never taken back. When the request is lost, the parent is not asked for again.
-/

namespace PulseDag

open List

/-- `HeaderFetchCandidate`. -/
structure HeaderFetchCandidate where
  hash : Hash
  parents : List Hash
  height : UInt64
  deriving DecidableEq, Repr

/-- `DependencyFetchPlan`. -/
structure DependencyFetchPlan where
  requests : List Hash := []
  deferred : List Hash := []
  parentFirstRequests : ℕ := 0
  deriving DecidableEq, Repr

/-- `DependencyAwareFetchScheduler`. The inventory lists the front of the queue first. -/
structure DependencyAwareFetchScheduler where
  candidates : TreeMap Hash HeaderFetchCandidate
  inventory : List Hash
  queued : TreeSet Hash
  maxQueueDepth : ℕ

namespace DependencyAwareFetchScheduler

/-- `with_limit`. -/
def withLimit (maxQueueDepth : ℕ) : DependencyAwareFetchScheduler where
  candidates := ∅
  inventory := []
  queued := ∅
  maxQueueDepth := max maxQueueDepth 1

/-- One hash of `queue_inventory`. A full inventory stays full, so the `break` of the source skips
nothing that this step would add. -/
def queueHash (scheduler : DependencyAwareFetchScheduler) (hash : Hash) :
    DependencyAwareFetchScheduler :=
  if scheduler.inventory.length < scheduler.maxQueueDepth ∧ hash ∉ scheduler.queued then
    { scheduler with
      queued := scheduler.queued.insert hash
      inventory := scheduler.inventory ++ [hash] }
  else scheduler

/-- `queue_inventory`. The count of added hashes is the growth of the inventory. -/
def queueInventory (scheduler : DependencyAwareFetchScheduler) (hashes : List Hash) :
    DependencyAwareFetchScheduler :=
  hashes.foldl queueHash scheduler

/-- One header of `queue_headers`. -/
def queueHeader (scheduler : DependencyAwareFetchScheduler) (candidate : HeaderFetchCandidate) :
    DependencyAwareFetchScheduler :=
  if scheduler.inventory.length < scheduler.maxQueueDepth ∧ candidate.hash ∉ scheduler.queued then
    { scheduler with
      queued := scheduler.queued.insert candidate.hash
      inventory := scheduler.inventory ++ [candidate.hash]
      candidates := scheduler.candidates.insert candidate.hash candidate }
  else scheduler

/-- The order in which `queue_headers` takes headers. -/
def headerLE (a b : HeaderFetchCandidate) : Prop :=
  a.height < b.height ∨ (a.height = b.height ∧ a.hash ≤ b.hash)

instance : DecidableRel headerLE := fun a b =>
  inferInstanceAs (Decidable (a.height < b.height ∨ (a.height = b.height ∧ a.hash ≤ b.hash)))

/-- `queue_headers`. -/
def queueHeaders (scheduler : DependencyAwareFetchScheduler) (headers : List HeaderFetchCandidate) :
    DependencyAwareFetchScheduler :=
  (headers.insertionSort headerLE).foldl queueHeader scheduler

/-- The parents of a hash that are neither known nor pending, if its header is there. -/
def missingParents (candidates : TreeMap Hash HeaderFetchCandidate) (known pending : TreeSet Hash)
    (hash : Hash) : List Hash :=
  ((candidates[hash]?.map HeaderFetchCandidate.parents).getD []).filter fun parent =>
    parent ∉ known ∧ parent ∉ pending

/-- The variables of the loop of `next_requests`. -/
structure FetchPass where
  queued : TreeSet Hash
  plan : DependencyFetchPlan := {}
  deferred : List Hash := []

/-- One missing parent: it is requested unless it is queued or the plan is full. -/
def requestParent (max : ℕ) (pass : FetchPass) (parent : Hash) : FetchPass :=
  if pass.plan.requests.length < max ∧ parent ∉ pass.queued then
    { pass with
      queued := pass.queued.insert parent
      plan := { pass.plan with
        parentFirstRequests := pass.plan.parentFirstRequests + 1
        requests := pass.plan.requests ++ [parent] } }
  else pass

/-- One hash of the inventory in the loop of `next_requests`. -/
def fetchStep (candidates : TreeMap Hash HeaderFetchCandidate) (known pending : TreeSet Hash)
    (max : ℕ) (pass : FetchPass) (hash : Hash) : FetchPass :=
  if max ≤ pass.plan.requests.length then
    { pass with deferred := pass.deferred ++ [hash] }
  else if hash ∈ known ∨ hash ∈ pending then
    { pass with queued := pass.queued.erase hash }
  else if missingParents candidates known pending hash = [] then
    { pass with
      queued := pass.queued.erase hash
      plan := { pass.plan with requests := pass.plan.requests ++ [hash] } }
  else
    let asked := (missingParents candidates known pending hash).foldl (requestParent max) pass
    { asked with
      plan := { asked.plan with deferred := asked.plan.deferred ++ [hash] }
      deferred := asked.deferred ++ [hash] }

/-- The loop of `next_requests`. -/
def fetchPass (scheduler : DependencyAwareFetchScheduler) (known pending : TreeSet Hash) (max : ℕ) :
    FetchPass :=
  scheduler.inventory.foldl (fetchStep scheduler.candidates known pending max)
    { queued := scheduler.queued }

/-- `next_requests`. -/
def nextRequests (scheduler : DependencyAwareFetchScheduler) (known pending : TreeSet Hash)
    (max : ℕ) : DependencyFetchPlan × DependencyAwareFetchScheduler :=
  if max = 0 then ({}, scheduler)
  else
    let pass := scheduler.fetchPass known pending max
    (pass.plan, { scheduler with inventory := pass.deferred, queued := pass.queued })

/-! ## Runs -/

/-- A call on the scheduler. -/
inductive Op
  | queueInventory (hashes : List Hash)
  | queueHeaders (headers : List HeaderFetchCandidate)
  | nextRequests (known pending : TreeSet Hash) (max : ℕ)

/-- The scheduler after a call. -/
def Op.apply (scheduler : DependencyAwareFetchScheduler) : Op → DependencyAwareFetchScheduler
  | .queueInventory hashes => scheduler.queueInventory hashes
  | .queueHeaders headers => scheduler.queueHeaders headers
  | .nextRequests known pending max => (scheduler.nextRequests known pending max).2

/-- The scheduler after a run from the empty one. -/
def run (maxQueueDepth : ℕ) (ops : List Op) : DependencyAwareFetchScheduler :=
  ops.foldl Op.apply (withLimit maxQueueDepth)

/-! ## What the calls keep -/

/-- The inventory holds every hash once, and every hash in it is marked as queued. -/
structure Marked (scheduler : DependencyAwareFetchScheduler) : Prop where
  nodup : scheduler.inventory.Nodup
  queued : ∀ hash ∈ scheduler.inventory, hash ∈ scheduler.queued

/-- In addition, nothing else is marked. -/
structure Exact (scheduler : DependencyAwareFetchScheduler) : Prop extends Marked scheduler where
  inventory : ∀ hash ∈ scheduler.queued, hash ∈ scheduler.inventory

/-- A new hash at the end of the inventory. -/
def push (scheduler : DependencyAwareFetchScheduler)
    (candidates : TreeMap Hash HeaderFetchCandidate) (hash : Hash) :
    DependencyAwareFetchScheduler :=
  { scheduler with
    candidates := candidates
    queued := scheduler.queued.insert hash
    inventory := scheduler.inventory ++ [hash] }

variable {hash : Hash} {pass : FetchPass}

section

variable {scheduler : DependencyAwareFetchScheduler}

variable {P : DependencyAwareFetchScheduler → Prop}

/-- What pushing new hashes keeps, queueing hashes keeps. -/
theorem queueInventory_induction
    (hpush : ∀ current candidates hash, P current → hash ∉ current.queued →
      P (current.push candidates hash)) (h : P scheduler) (hashes : List Hash) :
    P (scheduler.queueInventory hashes) := by
  refine List.foldlRecOn hashes queueHash h fun current hcurrent hash _ => ?_
  rw [queueHash]
  split
  · next hroom => exact hpush current current.candidates hash hcurrent hroom.2
  · exact hcurrent

/-- What pushing new hashes keeps, queueing headers keeps. -/
theorem queueHeaders_induction
    (hpush : ∀ current candidates hash, P current → hash ∉ current.queued →
      P (current.push candidates hash)) (h : P scheduler) (headers : List HeaderFetchCandidate) :
    P (scheduler.queueHeaders headers) := by
  refine List.foldlRecOn _ queueHeader h fun current hcurrent candidate _ => ?_
  rw [queueHeader]
  split
  · next hroom => exact hpush current _ candidate.hash hcurrent hroom.2
  · exact hcurrent

/-- A new hash is marked. -/
theorem Marked.push (h : scheduler.Marked) (candidates : TreeMap Hash HeaderFetchCandidate)
    (hnew : hash ∉ scheduler.queued) : (scheduler.push candidates hash).Marked := by
  refine ⟨nodup_append.mpr ⟨h.nodup, nodup_singleton hash, ?_⟩, fun other hother => ?_⟩
  · rintro x hx y hy rfl
    rw [mem_singleton.mp hy] at hx
    exact hnew (h.queued hash hx)
  · refine (TreeSet.mem_insert _ _ _).mpr ?_
    rcases mem_append.mp hother with hother | hother
    · exact .inr (h.queued other hother)
    · exact .inl (mem_singleton.mp hother)

/-- A new hash keeps the marks exact. -/
theorem Exact.push (h : scheduler.Exact) (candidates : TreeMap Hash HeaderFetchCandidate)
    (hnew : hash ∉ scheduler.queued) : (scheduler.push candidates hash).Exact := by
  refine ⟨h.toMarked.push candidates hnew, fun other hother => mem_append.mpr ?_⟩
  rcases (TreeSet.mem_insert _ _ _).mp hother with rfl | hother
  · exact .inr (mem_singleton.mpr rfl)
  · exact .inl (h.inventory other hother)

end

/-- The requests for a list of missing parents. -/
structure Asked (max : ℕ) (parents : List Hash) (pass asked : FetchPass) : Prop where
  deferred : asked.deferred = pass.deferred
  requests : ∀ hash ∈ pass.plan.requests, hash ∈ asked.plan.requests
  length : pass.plan.requests.length ≤ asked.plan.requests.length
  queued : ∀ hash ∈ pass.queued, hash ∈ asked.queued
  new : ∀ hash ∈ asked.queued, hash ∈ pass.queued ∨ hash ∈ asked.plan.requests
  /-- The parents are all marked unless the plan is full. -/
  parents : asked.plan.requests.length < max → ∀ parent ∈ parents, parent ∈ asked.queued

/-- What the loop over the parents asks for. -/
theorem asked_requestParents (max : ℕ) (parents : List Hash) (pass : FetchPass) :
    Asked max parents pass (parents.foldl (requestParent max) pass) := by
  induction parents generalizing pass with
  | nil =>
    exact ⟨rfl, fun _ => id, le_rfl, fun _ => id, fun _ => .inl,
      fun _ _ h => absurd h not_mem_nil⟩
  | cons parent rest ih =>
    rw [foldl_cons]
    have hrest := ih (requestParent max pass parent)
    by_cases hask : pass.plan.requests.length < max ∧ parent ∉ pass.queued
    · have hstep : requestParent max pass parent = { pass with
          queued := pass.queued.insert parent
          plan := { pass.plan with
            parentFirstRequests := pass.plan.parentFirstRequests + 1
            requests := pass.plan.requests ++ [parent] } } := if_pos hask
      rw [hstep] at hrest ⊢
      have hparent := hrest.queued parent ((TreeSet.mem_insert _ _ _).mpr (.inl rfl))
      refine ⟨hrest.deferred, fun hash hhash => hrest.requests hash (mem_append_left _ hhash), ?_,
        fun hash hhash => hrest.queued hash ((TreeSet.mem_insert _ _ _).mpr (.inr hhash)),
        fun hash hhash => ?_, fun hroom hash hhash => ?_⟩
      · have hlength := hrest.length
        rw [length_append] at hlength
        exact le_trans (Nat.le_add_right _ _) hlength
      · rcases hrest.new hash hhash with hold | hnew
        · rcases (TreeSet.mem_insert _ _ _).mp hold with rfl | hold
          · exact .inr (hrest.requests hash (mem_append_right _ (mem_singleton.mpr rfl)))
          · exact .inl hold
        · exact .inr hnew
      · rcases mem_cons.mp hhash with rfl | hhash
        · exact hparent
        · exact hrest.parents hroom hash hhash
    · have hstep : requestParent max pass parent = pass := if_neg hask
      rw [hstep] at hrest ⊢
      refine ⟨hrest.deferred, hrest.requests, hrest.length, hrest.queued, hrest.new,
        fun hroom hash hhash => ?_⟩
      rcases mem_cons.mp hhash with rfl | hhash
      · have hlength := hrest.length
        refine hrest.queued hash ?_
        by_contra hnew
        exact hask ⟨by omega, hnew⟩
      · exact hrest.parents hroom hash hhash

/-- Queued parents are not asked for. -/
theorem requestParents_eq_self {max : ℕ} {parents : List Hash}
    (h : ∀ parent ∈ parents, parent ∈ pass.queued) :
    parents.foldl (requestParent max) pass = pass := by
  induction parents with
  | nil => rfl
  | cons parent rest ih =>
    have hstep : requestParent max pass parent = pass :=
      if_neg fun hask => hask.2 (h parent mem_cons_self)
    rw [foldl_cons, hstep]
    exact ih fun other hother => h other (mem_cons_of_mem _ hother)

/-- A fold keeps what holds of the state and the rest of the list. -/
theorem foldl_rest_induction {σ α : Type} {step : σ → α → σ} {I : σ → List α → Prop}
    (hstep : ∀ state a rest, I state (a :: rest) → I (step state a) rest) {state : σ} {l : List α}
    (h : I state l) : I (l.foldl step state) [] := by
  induction l generalizing state with
  | nil => exact h
  | cons a rest ih => exact ih (hstep state a rest h)

section

variable {scheduler : DependencyAwareFetchScheduler}
  {candidates : TreeMap Hash HeaderFetchCandidate} {known pending : TreeSet Hash} {max : ℕ}

/-- The four things that the loop can do with a hash. -/
theorem fetchStep_cases (pass : FetchPass) (hash : Hash) :
    (max ≤ pass.plan.requests.length ∧ fetchStep candidates known pending max pass hash =
      { pass with deferred := pass.deferred ++ [hash] }) ∨
    ((hash ∈ known ∨ hash ∈ pending) ∧ fetchStep candidates known pending max pass hash =
      { pass with queued := pass.queued.erase hash }) ∨
    (fetchStep candidates known pending max pass hash =
      { pass with
        queued := pass.queued.erase hash
        plan := { pass.plan with requests := pass.plan.requests ++ [hash] } }) ∨
    ∃ asked, Asked max (missingParents candidates known pending hash) pass asked ∧
      ((∀ parent ∈ missingParents candidates known pending hash, parent ∈ pass.queued) →
        asked = pass) ∧
      fetchStep candidates known pending max pass hash =
        { asked with
          plan := { asked.plan with deferred := asked.plan.deferred ++ [hash] }
          deferred := asked.deferred ++ [hash] } := by
  rw [fetchStep]
  split
  · next hfull => exact .inl ⟨hfull, rfl⟩
  · split
    · next hthere => exact .inr (.inl ⟨hthere, rfl⟩)
    · split
      · exact .inr (.inr (.inl rfl))
      · exact .inr (.inr (.inr ⟨_, asked_requestParents max _ pass, requestParents_eq_self, rfl⟩))

/-- The hashes that are still to come or stay are distinct and marked. -/
def PassMarked (pass : FetchPass) (rest : List Hash) : Prop :=
  (pass.deferred ++ rest).Nodup ∧ ∀ hash ∈ pass.deferred ++ rest, hash ∈ pass.queued

variable {rest : List Hash}

/-- An entry moves to the rest. -/
theorem append_cons_assoc {l : List Hash} : l ++ [hash] ++ rest = l ++ hash :: rest := by
  rw [append_assoc, singleton_append]

/-- A dropped hash loses its mark. -/
theorem PassMarked.drop (h : PassMarked pass (hash :: rest)) (plan : DependencyFetchPlan) :
    PassMarked { pass with queued := pass.queued.erase hash, plan := plan } rest := by
  have hperm := nodup_middle.mp h.1
  obtain ⟨hnot, hnodup⟩ := nodup_cons.mp hperm
  refine ⟨hnodup, fun other hother => (TreeSet.mem_erase _ _ _).mpr ⟨?_, ?_⟩⟩
  · rintro rfl
    exact hnot hother
  · refine h.2 other ?_
    rcases mem_append.mp hother with hother | hother
    · exact mem_append_left _ hother
    · exact mem_append_right _ (mem_cons_of_mem _ hother)

/-- A step keeps the marks. -/
theorem PassMarked.step {pass : FetchPass} {hash : Hash} {rest : List Hash}
    (h : PassMarked pass (hash :: rest)) :
    PassMarked (fetchStep candidates known pending max pass hash) rest := by
  obtain ⟨-, hstep⟩ | ⟨-, hstep⟩ | hstep | ⟨asked, hasked, -, hstep⟩ :=
    @fetchStep_cases candidates known pending max pass hash
  · rw [hstep, PassMarked, append_cons_assoc]
    exact h
  · rw [hstep]
    exact h.drop pass.plan
  · rw [hstep]
    exact h.drop _
  · rw [hstep, PassMarked, append_cons_assoc, hasked.deferred]
    exact ⟨h.1, fun other hother => hasked.queued other (h.2 other hother)⟩

/-- A pass keeps the marks. -/
theorem Marked.nextRequests (h : scheduler.Marked) (known pending : TreeSet Hash) (max : ℕ) :
    (scheduler.nextRequests known pending max).2.Marked := by
  rw [DependencyAwareFetchScheduler.nextRequests]
  split
  · exact h
  · have hpass : PassMarked (scheduler.fetchPass known pending max) [] :=
      foldl_rest_induction (fun _ _ _ hpass => hpass.step) ⟨h.nodup, h.queued⟩
    rw [PassMarked, append_nil] at hpass
    exact ⟨hpass.1, hpass.2⟩

/-- Every missing parent of a hash of the list comes later in the list. -/
def ParentsBehind (candidates : TreeMap Hash HeaderFetchCandidate) (known pending : TreeSet Hash) :
    List Hash → Prop
  | [] => True
  | hash :: rest => (∀ parent ∈ missingParents candidates known pending hash, parent ∈ rest) ∧
    ParentsBehind candidates known pending rest

/-- As long as missing parents come later, nothing is marked that does not stay or come. -/
def PassExact (candidates : TreeMap Hash HeaderFetchCandidate) (known pending : TreeSet Hash)
    (pass : FetchPass) (rest : List Hash) : Prop :=
  PassMarked pass rest ∧ ParentsBehind candidates known pending rest ∧
    ∀ hash ∈ pass.queued, hash ∈ pass.deferred ++ rest

/-- A step keeps them exact. -/
theorem PassExact.step {pass : FetchPass} {hash : Hash} {rest : List Hash}
    (h : PassExact candidates known pending pass (hash :: rest)) :
    PassExact candidates known pending (fetchStep candidates known pending max pass hash) rest := by
  obtain ⟨hmarked, ⟨hbehind, hrest⟩, hexact⟩ := h
  have hdrop : ∀ other ∈ pass.queued.erase hash, other ∈ pass.deferred ++ rest := by
    intro other hother
    obtain ⟨hne, hqueued⟩ := (TreeSet.mem_erase _ _ _).mp hother
    rcases mem_append.mp (hexact other hqueued) with hmem | hmem
    · exact mem_append_left _ hmem
    · exact mem_append_right _ ((mem_cons.mp hmem).resolve_left hne)
  refine ⟨hmarked.step, hrest, ?_⟩
  obtain ⟨-, hstep⟩ | ⟨-, hstep⟩ | hstep | ⟨asked, -, hsame, hstep⟩ :=
    @fetchStep_cases candidates known pending max pass hash
  · rw [hstep, append_cons_assoc]
    exact hexact
  · rw [hstep]
    exact hdrop
  · rw [hstep]
    exact hdrop
  · -- the missing parents are still to come, so they are marked already
    have hparents : ∀ parent ∈ missingParents candidates known pending hash, parent ∈ pass.queued :=
      fun parent hparent => hmarked.2 parent
        (mem_append_right _ (mem_cons_of_mem _ (hbehind parent hparent)))
    rw [hstep, hsame hparents, append_cons_assoc]
    exact hexact

/-- A pass keeps them exact. -/
theorem Exact.nextRequests (h : scheduler.Exact)
    (hbehind : ParentsBehind scheduler.candidates known pending scheduler.inventory) (max : ℕ) :
    (scheduler.nextRequests known pending max).2.Exact := by
  refine ⟨h.toMarked.nextRequests known pending max, ?_⟩
  rw [DependencyAwareFetchScheduler.nextRequests]
  split
  · exact h.inventory
  · have hpass : PassExact scheduler.candidates known pending
        (scheduler.fetchPass known pending max) [] :=
      foldl_rest_induction (fun _ _ _ hpass => hpass.step)
        ⟨⟨h.nodup, h.queued⟩, hbehind, h.inventory⟩
    intro hash hhash
    have hmem := hpass.2.2 hash hhash
    rwa [append_nil] at hmem

/-! ## Missing parents -/

/-- The hash is requested, stays or is still to come. -/
def Covered (pass : FetchPass) (rest : List Hash) (hash : Hash) : Prop :=
  hash ∈ pass.plan.requests ∨ hash ∈ pass.deferred ∨ hash ∈ rest

/-- Marked hashes that are not there are covered, and so are the missing parents of the hashes that
stay, until the plan is full. -/
structure PassCovers (candidates : TreeMap Hash HeaderFetchCandidate) (known pending : TreeSet Hash)
    (max : ℕ) (pass : FetchPass) (rest : List Hash) : Prop where
  queued : ∀ hash ∈ pass.queued, hash ∉ known → hash ∉ pending → Covered pass rest hash
  parents : pass.plan.requests.length < max → ∀ hash ∈ pass.deferred,
    ∀ parent ∈ missingParents candidates known pending hash, Covered pass rest parent

/-- The missing parents. -/
theorem mem_missingParents {parent : Hash} :
    parent ∈ missingParents candidates known pending hash ↔
      (∃ candidate, candidates[hash]? = some candidate ∧ parent ∈ candidate.parents) ∧
        parent ∉ known ∧ parent ∉ pending := by
  rw [missingParents, mem_filter, decide_eq_true_iff]
  cases candidates[hash]? <;> simp

/-- Once a hash has been dealt with, what was covered still is, if the hash itself is. -/
theorem Covered.advance {next : FetchPass} {other : Hash}
    (hrequests : ∀ x ∈ pass.plan.requests, x ∈ next.plan.requests)
    (hdeferred : ∀ x ∈ pass.deferred, x ∈ next.deferred)
    (hhash : other = hash → Covered next rest other) (h : Covered pass (hash :: rest) other) :
    Covered next rest other := by
  rcases h with h | h | h
  · exact .inl (hrequests other h)
  · exact .inr (.inl (hdeferred other h))
  · rcases mem_cons.mp h with h | h
    · exact hhash h
    · exact .inr (.inr h)

/-- A step covers its hash. -/
theorem PassCovers.step {pass : FetchPass} {hash : Hash} {rest : List Hash}
    (h : PassCovers candidates known pending max pass (hash :: rest)) :
    PassCovers candidates known pending max (fetchStep candidates known pending max pass hash)
    rest := by
  have hlast : ∀ l : List Hash, hash ∈ l ++ [hash] := fun l =>
    mem_append_right l (mem_singleton.mpr rfl)
  obtain ⟨hfull, hstep⟩ | ⟨hthere, hstep⟩ | hstep | ⟨asked, hasked, -, hstep⟩ :=
    @fetchStep_cases candidates known pending max pass hash
  all_goals rw [hstep]
  · refine ⟨fun other hother hk hp => ?_, fun hroom => absurd hfull (Nat.not_le.mpr hroom)⟩
    refine (h.queued other hother hk hp).advance (fun x (hx : x ∈ pass.plan.requests) => hx)
      (fun x (hx : x ∈ pass.deferred) => mem_append_left _ hx) ?_
    rintro rfl
    exact .inr (.inl (hlast _))
  · -- a hash that is there is not missing
    refine ⟨fun other hother hk hp => ?_, fun hroom other hother parent hparent => ?_⟩
    · refine (h.queued other ((TreeSet.mem_erase _ _ _).mp hother).2 hk hp).advance (fun _ => id)
        (fun _ => id) ?_
      rintro rfl
      exact absurd hthere (not_or.mpr ⟨hk, hp⟩)
    · refine (h.parents hroom other hother parent hparent).advance (fun _ => id) (fun _ => id) ?_
      rintro rfl
      exact absurd hthere (not_or.mpr (mem_missingParents.mp hparent).2)
  · have hmove : ∀ other, Covered pass (hash :: rest) other → Covered { pass with
        queued := pass.queued.erase hash
        plan := { pass.plan with requests := pass.plan.requests ++ [hash] } } rest other := by
      refine fun other hcovered => hcovered.advance (fun x => mem_append_left _)
        (fun _ => id) ?_
      rintro rfl
      exact .inl (hlast _)
    refine ⟨fun other hother hk hp => ?_, fun hroom other hother parent hparent => ?_⟩
    · exact hmove other (h.queued other ((TreeSet.mem_erase _ _ _).mp hother).2 hk hp)
    · refine hmove parent (h.parents ?_ other hother parent hparent)
      exact lt_of_le_of_lt (length_append.symm ▸ Nat.le_add_right _ _) hroom
  · have hmove : ∀ other, Covered pass (hash :: rest) other → Covered { asked with
        plan := { asked.plan with deferred := asked.plan.deferred ++ [hash] }
        deferred := asked.deferred ++ [hash] } rest other := by
      refine fun other hcovered => hcovered.advance hasked.requests
        (fun x hx => mem_append_left _ (hasked.deferred ▸ hx)) ?_
      rintro rfl
      exact .inr (.inl (hlast _))
    have hqueued : ∀ other ∈ asked.queued, other ∉ known → other ∉ pending → Covered { asked with
        plan := { asked.plan with deferred := asked.plan.deferred ++ [hash] }
        deferred := asked.deferred ++ [hash] } rest other := by
      intro other hother hk hp
      rcases hasked.new other hother with hold | hnew
      · exact hmove other (h.queued other hold hk hp)
      · exact .inl hnew
    refine ⟨hqueued, fun hroom other hother parent hparent => ?_⟩
    rcases mem_append.mp hother with hother | hother
    · rw [hasked.deferred] at hother
      exact hmove parent (h.parents (hasked.length.trans_lt hroom) other hother parent hparent)
    · rw [mem_singleton.mp hother] at hparent
      obtain ⟨-, hk, hp⟩ := mem_missingParents.mp hparent
      exact hqueued parent (hasked.parents hroom parent hparent) hk hp

/-- When the plan has room left, the missing parents of the hashes that stay are requested or
stay. -/
theorem nextRequests_parents
    (hlost : ∀ hash ∈ scheduler.queued, hash ∉ scheduler.inventory → hash ∈ known ∨ hash ∈ pending)
    (hroom : (scheduler.nextRequests known pending max).1.requests.length < max)
    {hash parent : Hash} {candidate : HeaderFetchCandidate}
    (hhash : hash ∈ (scheduler.nextRequests known pending max).2.inventory)
    (hcandidate : (scheduler.nextRequests known pending max).2.candidates[hash]? = some candidate)
    (hparent : parent ∈ candidate.parents) (hknown : parent ∉ known) (hpending : parent ∉ pending) :
    parent ∈ (scheduler.nextRequests known pending max).1.requests ∨
      parent ∈ (scheduler.nextRequests known pending max).2.inventory := by
  have hmax : max ≠ 0 := by
    rintro rfl
    exact absurd hroom (Nat.not_lt_zero _)
  rw [nextRequests, if_neg hmax] at hroom hhash hcandidate ⊢
  have hpass : PassCovers scheduler.candidates known pending max
      (scheduler.fetchPass known pending max) [] := by
    refine foldl_rest_induction (fun _ _ _ hpass => hpass.step)
      ⟨fun other hother hk hp => .inr (.inr ?_), fun _ other hother =>
        absurd hother not_mem_nil⟩
    by_contra hnot
    exact (hlost other hother hnot).elim hk hp
  have hmissing := mem_missingParents.mpr ⟨⟨candidate, hcandidate, hparent⟩, hknown, hpending⟩
  rcases hpass.parents hroom hash hhash parent hmissing with h | h | h
  · exact .inl h
  · exact .inr h
  · exact absurd h not_mem_nil

end

/-- In every call of the run for requests, the missing parents of the hashes in the inventory come
later in the inventory. -/
def CallsBehind : DependencyAwareFetchScheduler → List Op → Prop
  | _, [] => True
  | scheduler, op :: rest =>
    (match op with
      | .nextRequests known pending _ =>
        ParentsBehind scheduler.candidates known pending scheduler.inventory
      | _ => True) ∧
    CallsBehind (op.apply scheduler) rest

/-- A run keeps the marks exact. -/
theorem Exact.run {scheduler : DependencyAwareFetchScheduler} (h : scheduler.Exact) {ops : List Op}
    (hbehind : CallsBehind scheduler ops) : (ops.foldl Op.apply scheduler).Exact := by
  induction ops generalizing scheduler with
  | nil => exact h
  | cons op rest ih =>
    refine ih ?_ hbehind.2
    cases op with
    | queueInventory hashes =>
      exact queueInventory_induction (fun _ candidates _ hcurrent => hcurrent.push candidates) h
        hashes
    | queueHeaders headers =>
      exact queueHeaders_induction (fun _ candidates _ hcurrent => hcurrent.push candidates) h
        headers
    | nextRequests known pending max => exact h.nextRequests hbehind.1 max

/-- What the scheduler does keep. The marks are the inventory in a run in which no missing parent
has to be requested ahead of its child. The missing parents of the hashes that stay are requested or
stay themselves when every marked hash outside of the inventory is known or pending, that is when no
earlier request for a parent has been lost. -/
theorem fetchScheduler_law (maxQueueDepth : ℕ) (ops : List Op) :
    (CallsBehind (withLimit maxQueueDepth) ops → ∀ hash,
      hash ∈ (run maxQueueDepth ops).queued ↔ hash ∈ (run maxQueueDepth ops).inventory) ∧
    ∀ (known pending : TreeSet Hash) (max : ℕ),
      (∀ hash ∈ (run maxQueueDepth ops).queued, hash ∉ (run maxQueueDepth ops).inventory →
        hash ∈ known ∨ hash ∈ pending) →
      ∀ plan next, (run maxQueueDepth ops).nextRequests known pending max = (plan, next) →
        plan.requests.length < max → ∀ hash ∈ next.inventory, ∀ candidate,
          next.candidates[hash]? = some candidate → ∀ parent ∈ candidate.parents,
            parent ∉ known → parent ∉ pending → parent ∈ plan.requests ∨
            parent ∈ next.inventory := by
  refine ⟨fun hbehind hash => ?_,
    fun known pending max hlost plan next hnext hroom hash hhash candidate
    hcandidate parent hparent hknown hpending => ?_⟩
  · have hstart : (withLimit maxQueueDepth).Exact :=
      ⟨⟨nodup_nil, fun _ h => absurd h not_mem_nil⟩,
        fun _ h => absurd h Std.ExtTreeSet.not_mem_empty⟩
    have hexact : (run maxQueueDepth ops).Exact := hstart.run hbehind
    exact ⟨hexact.inventory hash, hexact.queued hash⟩
  · have hparents := @nextRequests_parents (run maxQueueDepth ops) known pending max hlost
    rw [hnext] at hparents
    exact hparents hroom hhash hcandidate hparent hknown hpending

/-- A header whose parent is neither known nor pending. -/
def childHeader : HeaderFetchCandidate := ⟨"child", ["parent"], 1⟩

/-- The header is queued, then its parent, and the first call requests the parent. -/
def childRun : List Op :=
  [.queueHeaders [childHeader], .queueInventory ["parent"], .nextRequests ∅ ∅ 4]

/-- The header stays, and as its parent is still missing the next call requests it again. -/
theorem fetchScheduler_law_child :
    let scheduler := run 512 childRun
    scheduler.inventory = ["child"] ∧
      (∀ hash, hash ∈ scheduler.queued ↔ hash ∈ scheduler.inventory) ∧
      ("parent" ∈ (scheduler.nextRequests ∅ ∅ 4).1.requests ∨
        "parent" ∈ (scheduler.nextRequests ∅ ∅ 4).2.inventory) := by
  obtain ⟨hmarks, hparents⟩ := fetchScheduler_law 512 childRun
  have hinventory : (run 512 (childRun.take 2)).inventory = ["child", "parent"] := by
    decide +kernel
  have hbehind : ParentsBehind (run 512 (childRun.take 2)).candidates ∅ ∅
      (run 512 (childRun.take 2)).inventory := by
    rw [hinventory]
    exact ⟨by decide +kernel, by decide +kernel, trivial⟩
  have hexact := hmarks ⟨trivial, trivial, hbehind, trivial⟩
  refine ⟨by decide +kernel, hexact,
    hparents ∅ ∅ 4 (fun hash hqueued hnot => ?_) _ _ rfl (by decide +kernel) "child"
    (by decide +kernel) childHeader (by decide +kernel) "parent" (by decide)
    Std.ExtTreeSet.not_mem_empty Std.ExtTreeSet.not_mem_empty⟩
  exact absurd ((hexact hash).mp hqueued) hnot

/-- The header is queued, its parent is requested, and the request fails and is queued again, as the
node does for the frontier. -/
def lostParentRun : List Op :=
  [.queueHeaders [childHeader], .nextRequests ∅ ∅ 4, .queueInventory ["parent"]]

/-- After the failed request the marks are not the inventory, and the next call neither requests the
parent again nor has it in the inventory. -/
theorem fetchScheduler_lostParent :
    let scheduler := run 512 lostParentRun
    let call := scheduler.nextRequests ∅ ∅ 4
    ("parent" ∈ scheduler.queued ∧ "parent" ∉ scheduler.inventory) ∧
      call.1.requests = [] ∧ call.2.inventory = ["child"] ∧
      call.2.candidates["child"]? = some childHeader ∧ "parent" ∈ childHeader.parents := by
  decide +kernel

end DependencyAwareFetchScheduler

end PulseDag
