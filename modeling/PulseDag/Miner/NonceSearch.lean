import PulseDag.Miner.NoncePartition
import PulseDag.Network.Pow

/-!
# The parallel nonce search

`mine_header_strided_for_protocol`. Each thread walks over its lane of the nonce range until it
finds an accepted nonce, its lane ends or it reads that another thread has found one. The threads
share an atomic flag, a counter and the slot of the winner. A step of the model is one access of one
thread to them, and a relaxed load of the flag may return the value it had before it was set, so the
runs of the model include those that reorder it.
-/

namespace PulseDag

open List

/-! ## The hash -/

/-- The primitives of the node, with the KHeavyHash library taken apart into the functions that the
miner calls. -/
class KHeavyHashLibrary where
  sha256 : List UInt8 → List UInt8
  ed25519Verify : List UInt8 → List UInt8 → List UInt8 → Bool
  keccak256 : List UInt8 → List UInt8
  PowHash : Type
  Matrix : Type
  /-- `PowHash::new`. -/
  powHashNew : List UInt8 → UInt64 → PowHash
  /-- `PowHash::finalize_with_nonce`. -/
  finalizeWithNonce : PowHash → UInt64 → List UInt8
  /-- `Matrix::generate`. -/
  matrixGenerate : List UInt8 → Matrix
  /-- `Matrix::heavy_hash`. -/
  heavyHash : Matrix → List UInt8 → List UInt8

section

open KHeavyHashLibrary

variable [KHeavyHashLibrary]

/-- `kheavyhash_digest`. -/
def kheavyhashDigest (prePowBytes : List UInt8) (nonce : UInt64) : List UInt8 :=
  let prePowHash := keccak256 prePowBytes
  let initialHash := finalizeWithNonce (powHashNew prePowHash 0) nonce
  heavyHash (matrixGenerate prePowHash) initialHash

instance : Crypto where
  sha256 := sha256
  ed25519Verify := ed25519Verify
  kHeavyHashDigest := kheavyhashDigest

/-- `PreparedKHeavyHasher`. -/
structure PreparedKHeavyHasher where
  hasher : PowHash
  matrix : Matrix

/-- `PreparedKHeavyHasher::new`. -/
def PreparedKHeavyHasher.new (prePowBytes : List UInt8) : PreparedKHeavyHasher :=
  let prePowHash := keccak256 prePowBytes
  ⟨powHashNew prePowHash 0, matrixGenerate prePowHash⟩

/-- `PreparedKHeavyHasher::hash_nonce`. -/
def PreparedKHeavyHasher.hashNonce (prepared : PreparedKHeavyHasher) (nonce : UInt64) :
    List UInt8 :=
  heavyHash prepared.matrix (finalizeWithNonce prepared.hasher nonce)

/-- Preparing the part that does not depend on the nonce does not change the digest. -/
theorem PreparedKHeavyHasher.hashNonce_new (prePowBytes : List UInt8) (nonce : UInt64) :
    (new prePowBytes).hashNonce nonce = kheavyhashDigest prePowBytes nonce := rfl

end

/-! ## The work -/

/-- The errors of the miner: a message, or an error of the core that a message quotes. -/
inductive MinerError
  | text (message : String)
  | protocol (error : PulseError)

/-- `protocol_error`. -/
def protocolError (message : String) : MinerError := .text ("protocol-bound miner PoW: " ++ message)

/-- `ProtocolPowWork`, with the fields of its material that the search reads. -/
structure ProtocolPowWork where
  path : PowValidationPath
  prePowBytes : List UInt8
  targetBits : UInt32
  target : ℕ

/-- `PowValidationPath::as_str`. -/
def PowValidationPath.asStr : PowValidationPath → String
  | .legacyV1 => "legacy_v1"
  | .activatedV2 => "activated_v2"

/-- `resolve_mining_pow_path` with an identity. -/
def resolveMiningPowPath (header : BlockHeader) (identity : ProtocolActivationIdentity) :
    Except MinerError PowValidationPath := do
  Except.mapError (fun message => .protocol (invalidPowIdentity message)) identity.validate
  let path ← Except.mapError .protocol (resolveValidatedPowIdentityPath identity)
  ensure (header.version = identity.blockHeaderProtocolVersion) (protocolError
    (s!"PoW path {path.asStr} requires block header version " ++
      s!"{identity.blockHeaderProtocolVersion}, got {header.version}"))
  pure path

/-- The nonce-independent bytes of a header on a path. -/
def miningPreimageBytes (header : BlockHeader) (chainId : String) :
    PowValidationPath → Except MinerError (List UInt8)
  | .legacyV1 => do
    Except.mapError (fun reason => protocolError ("invalid v1 PoW material: " ++ reason.code))
      (validatePowPreimageEncoding header)
    pure (canonicalMiningPreimageBytes header)
  | .activatedV2 => Except.mapError .protocol (canonicalBlockHeaderMaterialV2 header chainId false)

/-- `build_protocol_pow_work` with an identity. -/
def buildProtocolPowWork (header : BlockHeader) (targetBits : UInt32)
    (identity : ProtocolActivationIdentity) : Except MinerError ProtocolPowWork := do
  ensure (targetBits ≠ 0) (protocolError "invalid target bits: 0")
  let path ← resolveMiningPowPath header identity
  let prePowBytes ← miningPreimageBytes { header with difficulty := targetBits } identity.chainId
    path
  pure { path, prePowBytes, targetBits, target := targetFromBits targetBits }

/-- The target of the bits. -/
theorem buildProtocolPowWork_target {header : BlockHeader} {targetBits : UInt32}
    {identity : ProtocolActivationIdentity} {work : ProtocolPowWork}
    (h : buildProtocolPowWork header targetBits identity = .ok work) :
    work.target = targetFromBits work.targetBits := by
  simp only [buildProtocolPowWork, ok_iff] at h
  obtain ⟨-, -, path, -, bytes, -, rfl⟩ := h
  rfl

section

variable [KHeavyHashLibrary]

/-- `ProtocolPowWork::evaluate_nonce`. Both adapters evaluate the material in the same way. -/
def ProtocolPowWork.evaluateNonce (work : ProtocolPowWork) (nonce : UInt64) : CanonicalPowAttempt :=
  match work.path with
  | .legacyV1 => evaluateMaterialWithNonce work.prePowBytes nonce work.targetBits
  | .activatedV2 => evaluateMaterialWithNonce work.prePowBytes nonce work.targetBits

/-- The nonce is accepted by the canonical evaluation. -/
def ProtocolPowWork.Accepts (work : ProtocolPowWork) (nonce : UInt64) : Prop :=
  (work.evaluateNonce nonce).comparison = .meetsTarget

/-- Accepted digests are at most the target. -/
theorem ProtocolPowWork.accepts_iff (work : ProtocolPowWork) (nonce : UInt64) :
    work.Accepts nonce ↔
      beNat (kheavyhashDigest work.prePowBytes nonce) ≤ targetFromBits work.targetBits := by
  have hevaluate : work.evaluateNonce nonce =
      evaluateMaterialWithNonce work.prePowBytes nonce work.targetBits := by
    unfold evaluateNonce
    split <;> rfl
  rw [Accepts, hevaluate]
  simp only [evaluateMaterialWithNonce, Crypto.kHeavyHashDigest]
  split
  · exact iff_of_true rfl ‹_›
  · exact iff_of_false (fun h => PowTargetComparison.noConfusion h) ‹_›

end

/-! ## The threads -/

/-- Where a thread stands, before its next access to the shared state. -/
inductive WorkerPhase
  | checking
  | searching
  | claiming (nonce : UInt64) (hashHex : String)
  | writing (nonce : UInt64) (hashHex : String)
  | leaving
  | finished (result : Except MinerError Unit)

/-- The variables of one thread. -/
structure Worker where
  partition : ProtocolNoncePartition
  iteration : UInt64 := 0
  localTries : UInt64 := 0
  phase : WorkerPhase := .checking

/-- `found`, `tries` and `winner`. -/
structure SharedSearch where
  found : Bool := false
  tries : UInt64 := 0
  winner : Option (BlockHeader × String) := none

/-- All threads and what they share. -/
structure SearchState where
  workers : List Worker
  shared : SharedSearch := {}

/-- `NonceSearchResult`. -/
structure NonceSearchResult where
  header : BlockHeader
  accepted : Bool
  tries : UInt64
  finalHashHex : String

section

variable [KHeavyHashLibrary] (work : ProtocolPowWork) (header : BlockHeader)

/-- The end of a round: an accepted nonce is verified again on the original material. -/
def Worker.judge (w : Worker) (nonce : UInt64) (digest : List UInt8) : Worker :=
  if beNat digest ≤ work.target then
    if (work.evaluateNonce nonce).comparison ≠ .meetsTarget ∨
      (work.evaluateNonce nonce).hash ≠ digest then
      { w with phase := .finished (.error (.text
        s!"prepared PoW disagrees with canonical verification at nonce {nonce}")) }
    else { w with phase := .claiming nonce (hexEncode (work.evaluateNonce nonce).hash) }
  else
    match checkedAdd w.iteration 1 with
    | some next => { w with iteration := next, phase := .checking }
    | none => { w with phase := .finished (.error (.text
        s!"protocol nonce partition iteration overflow for lane {w.partition.lane}")) }

/-- One round of the loop after the flag has been read as unset. -/
def Worker.search (w : Worker) : Worker :=
  match w.partition.nonceAt w.iteration with
  | .error message => { w with phase := .finished (.error (.text message)) }
  | .ok none => { w with phase := .leaving }
  | .ok (some nonce) =>
    ({ w with localTries := saturatingAdd w.localTries 1 } : Worker).judge work nonce
      ((PreparedKHeavyHasher.new work.prePowBytes).hashNonce nonce)

/-- One access of a thread. `observed` is what a load of the flag returns. -/
def Worker.step (observed : Bool) (shared : SharedSearch) (w : Worker) :
    Option (Worker × SharedSearch) :=
  match w.phase with
  | .checking => some ({ w with phase := if observed then .leaving else .searching }, shared)
  | .searching => some (w.search work, shared)
  | .claiming nonce hashHex =>
    -- `found.swap(true)`: only the thread that finds the flag unset goes on to the slot
    some ({ w with phase := if shared.found then .leaving else .writing nonce hashHex },
      { shared with found := true })
  | .writing nonce hashHex =>
    some ({ w with phase := .leaving },
      { shared with winner := some ({ header with nonce := nonce }, hashHex) })
  | .leaving =>
    some ({ w with phase := .finished (.ok ()) },
      { shared with tries := shared.tries + w.localTries })
  | .finished _ => none

/-- Some thread makes a step. A load that returns `true` reads the store of it, one that returns
`false` may be late. -/
inductive SearchStep : SearchState → SearchState → Prop
  | access {state : SearchState} {i : ℕ} {w w' : Worker} {shared : SharedSearch} {observed : Bool}
      (hworker : state.workers[i]? = some w) (hload : observed = true → state.shared.found = true)
      (hstep : w.step work header observed state.shared = some (w', shared)) :
      SearchStep state { workers := state.workers.set i w', shared := shared }

/-- The loop that spawns the threads. -/
def spawnWorkers (maxTries : UInt64) (threads : ℕ) : ℕ → Except MinerError (List Worker)
  | 0 => pure []
  | count + 1 => do
    let workers ← spawnWorkers maxTries threads count
    let partition ← Except.mapError .text (protocolNoncePartition maxTries threads count)
    pure (workers ++ [{ partition := partition }])

/-- What a thread returned. -/
def Worker.result (w : Worker) : Option (Except MinerError Unit) :=
  match w.phase with
  | .finished result => some result
  | _ => none

/-- The loop that joins the threads, once all of them have returned. -/
def joinWorkers : List Worker → Option (Except MinerError Unit)
  | [] => some (.ok ())
  | w :: rest => do
    let result ← w.result
    let others ← joinWorkers rest
    some (result >>= fun _ => others)

/-- The end of `mine_header_strided_for_protocol`. -/
def searchResult (maxTries : UInt64) (shared : SharedSearch) : NonceSearchResult :=
  let totalTries := min shared.tries maxTries
  match shared.winner with
  | some (winnerHeader, winnerHash) => ⟨winnerHeader, true, totalTries, winnerHash⟩
  | none =>
    let fallbackNonce := saturatingSub maxTries 1
    ⟨{ header with nonce := fallbackNonce }, false, max totalTries 1,
      hexEncode (work.evaluateNonce fallbackNonce).hash⟩

/-- `mine_header_strided_for_protocol`: what a call can return, over all interleavings. A thread
error ends the call as soon as it is joined. -/
inductive MinesHeader (header : BlockHeader) (maxTries : UInt64) (threads : ℕ) (targetBits : UInt32)
    (identity : ProtocolActivationIdentity) : Except MinerError NonceSearchResult → Prop
  | workError {error : MinerError}
      (h : buildProtocolPowWork header targetBits identity = .error error) :
      MinesHeader header maxTries threads targetBits identity (.error error)
  | spawnError {work : ProtocolPowWork} {error : MinerError}
      (hwork : buildProtocolPowWork header targetBits identity = .ok work)
      (h : spawnWorkers (max maxTries 1) (protocolNonceLaneCount (max maxTries 1) threads)
        (protocolNonceLaneCount (max maxTries 1) threads) = .error error) :
      MinesHeader header maxTries threads targetBits identity (.error error)
  | joined {work : ProtocolPowWork} {workers : List Worker} {final : SearchState}
      {outcome : Except MinerError Unit}
      (hwork : buildProtocolPowWork header targetBits identity = .ok work)
      (hspawn : spawnWorkers (max maxTries 1) (protocolNonceLaneCount (max maxTries 1) threads)
        (protocolNonceLaneCount (max maxTries 1) threads) = .ok workers)
      (hrun : Relation.ReflTransGen (SearchStep work header) { workers } final)
      (hjoin : joinWorkers final.workers = some outcome) :
      MinesHeader header maxTries threads targetBits identity
        (outcome.map fun _ => searchResult work header (max maxTries 1) final.shared)

end

/-! ## What holds in every interleaving -/

variable {workers : List Worker}

/-- The workers at the start. -/
theorem spawnWorkers_eq_ok {maxTries : UInt64} {threads count : ℕ}
    (h : spawnWorkers maxTries threads count = .ok workers) :
    workers.length = count ∧ ∀ (i : ℕ) (w : Worker), workers[i]? = some w →
      w = { partition := w.partition } ∧
        w.partition.IsLane maxTries (protocolNonceLaneCount maxTries threads) i := by
  induction count generalizing workers with
  | zero =>
    obtain rfl : [] = workers := Except.ok.inj h
    exact ⟨rfl, fun i w hw => by cases hw⟩
  | succ count ih =>
    simp only [spawnWorkers, ok_iff] at h
    obtain ⟨before, hbefore, partition, hpartition, rfl⟩ := h
    obtain ⟨hlength, hlanes⟩ := ih hbefore
    refine ⟨by rw [length_append, hlength, length_singleton], fun i w hw => ?_⟩
    rcases Nat.lt_or_ge i before.length with hi | hi
    · rw [getElem?_append_left hi] at hw
      exact hlanes i w hw
    · rw [getElem?_append_right hi, getElem?_singleton] at hw
      split at hw
      · rename_i hzero
        obtain rfl := Option.some.inj hw
        obtain rfl : i = count := by omega
        exact ⟨rfl, protocolNoncePartition_eq_ok hpartition⟩
      · cases hw

/-- A call that joins its threads without an error has let all of them finish. -/
theorem joinWorkers_eq_ok (h : joinWorkers workers = some (.ok ())) :
    ∀ w ∈ workers, w.phase = .finished (.ok ()) := by
  induction workers with
  | nil => exact fun w hw => absurd hw not_mem_nil
  | cons first rest ih =>
    simp only [joinWorkers, Option.bind_eq_bind, Option.bind_eq_some_iff, Option.some.injEq,
      bind_eq_ok] at h
    obtain ⟨result, hresult, others, hothers, value, rfl, rfl⟩ := h
    intro w hw
    rcases mem_cons.mp hw with rfl | hw
    · unfold Worker.result at hresult
      split at hresult
      · rename_i hphase
        rw [hphase, Option.some.inj hresult]
      · cases hresult
    · exact ih hothers w hw

section

variable [KHeavyHashLibrary] {work : ProtocolPowWork} {header : BlockHeader} {found : Bool}
  {w w' : Worker}

/-- What a phase says: a nonce that is claimed is accepted, a thread goes on to the slot after it
has set the flag, and it leaves the loop only because the flag is set or its lane has ended. -/
def PhaseSound (work : ProtocolPowWork) (found : Bool) (p : ProtocolNoncePartition)
    (iteration : UInt64) : WorkerPhase → Prop
  | .claiming nonce _ => nonce < p.maxTries ∧ work.Accepts nonce
  | .writing nonce _ => found = true ∧ nonce < p.maxTries ∧ work.Accepts nonce
  | .leaving | .finished (.ok _) => found = true ∨ p.nonceAt iteration = .ok none
  | .checking | .searching | .finished (.error _) => True

/-- What holds of one thread: its phase is sound, and the nonces of its past iterations are not
accepted. -/
structure WorkerSound (work : ProtocolPowWork) (found : Bool) (w : Worker) : Prop where
  phase : PhaseSound work found w.partition w.iteration w.phase
  tried : ∀ nonce : UInt64, ∀ j < w.iteration.toNat,
    nonce.toNat = w.partition.lane.toNat + w.partition.stride.toNat * j → ¬work.Accepts nonce

/-- Setting the flag keeps what other threads rely on. -/
theorem WorkerSound.setFound (h : WorkerSound work found w) : WorkerSound work true w := by
  refine ⟨?_, h.tried⟩
  have hphase := h.phase
  cases hw : w.phase with
  | checking | searching => trivial
  | claiming nonce hashHex => rwa [hw] at hphase
  | writing nonce hashHex =>
    rw [hw] at hphase
    exact ⟨rfl, hphase.2⟩
  | leaving => exact .inl rfl
  | finished result =>
    cases result with
    | ok => exact .inl rfl
    | error => trivial

/-- The prepared digest is the canonical one, so the test on it decides acceptance. -/
theorem WorkerSound.judge (htarget : work.target = targetFromBits work.targetBits) {nonce : UInt64}
    (hnonce : w.partition.nonceAt w.iteration = .ok (some nonce)) (h : WorkerSound work found w) :
    WorkerSound work found (w.judge work nonce (kheavyhashDigest work.prePowBytes nonce)) := by
  obtain ⟨hvalue, hmax⟩ := ProtocolNoncePartition.nonceAt_eq_some.mp hnonce
  unfold Worker.judge
  split
  · rename_i haccepted
    split
    · exact ⟨trivial, h.tried⟩
    · exact ⟨⟨hmax, (work.accepts_iff nonce).mpr (htarget ▸ haccepted)⟩, h.tried⟩
  · rename_i hrejected
    split
    · rename_i next hnext
      rw [checkedAdd_eq_some, UInt64.toNat_one] at hnext
      refine ⟨trivial, fun other j hj hother => ?_⟩
      change j < next.toNat at hj
      rcases Nat.lt_or_ge j w.iteration.toNat with hpast | hnow
      · exact h.tried other j hpast hother
      · obtain rfl : j = w.iteration.toNat := by omega
        obtain rfl : other = nonce := UInt64.toNat_inj.mp (hother.trans hvalue.symm)
        rw [work.accepts_iff, ← htarget]
        exact hrejected
    · exact ⟨trivial, h.tried⟩

/-- Searching keeps a worker sound. -/
theorem WorkerSound.search (htarget : work.target = targetFromBits work.targetBits)
    (h : WorkerSound work found w) : WorkerSound work found (w.search work) := by
  unfold Worker.search
  split
  · exact ⟨trivial, h.tried⟩
  · rename_i hend
    exact ⟨.inr hend, h.tried⟩
  · rename_i nonce hnonce
    rw [PreparedKHeavyHasher.hashNonce_new]
    exact judge htarget hnonce ⟨h.phase, h.tried⟩

/-- Judging keeps the lane. -/
theorem Worker.judge_partition (w : Worker) (nonce : UInt64) (digest : List UInt8) :
    (w.judge work nonce digest).partition = w.partition := by
  unfold judge
  repeat' split
  all_goals rfl

/-- So does searching. -/
theorem Worker.search_partition (w : Worker) : (w.search work).partition = w.partition := by
  unfold search
  split
  · rfl
  · rfl
  · rw [judge_partition]

/-- The thread is about to fill the slot of the winner. -/
def Worker.Writes (w : Worker) : Prop := ∃ nonce hashHex, w.phase = .writing nonce hashHex

/-- What a step does to the flag and to the slot. -/
structure SharedStep (work : ProtocolPowWork) (header : BlockHeader) (maxTries : UInt64)
    (shared shared' : SharedSearch) (w w' : Worker) : Prop where
  found_mono : shared.found = true → shared'.found = true
  winner : shared'.winner = shared.winner ∨ ∃ nonce hashHex, nonce < maxTries ∧ work.Accepts nonce ∧
    shared'.winner = some ({ header with nonce := nonce }, hashHex)
  /-- The flag is set by the thread that then fills the slot. -/
  found_new : shared.found = false → shared'.found = true → w'.Writes
  /-- A thread stops being about to fill the slot by filling it. -/
  writes : w.Writes → shared'.winner.isSome

variable {shared shared' : SharedSearch}

/-- What an access does, whatever a load of the flag returns. -/
theorem Worker.step_sound {observed : Bool}
    (htarget : work.target = targetFromBits work.targetBits)
    (hload : observed = true → shared.found = true)
    (hstep : w.step work header observed shared = some (w', shared'))
    (h : WorkerSound work shared.found w) :
    w'.partition = w.partition ∧ WorkerSound work shared'.found w' ∧
      SharedStep work header w.partition.maxTries shared shared' w w' := by
  have hphase := h.phase
  unfold Worker.step at hstep
  split at hstep
  · rename_i hw
    obtain ⟨rfl, rfl⟩ := Prod.mk.inj (Option.some.inj hstep)
    refine ⟨rfl, ⟨?_, h.tried⟩, id, .inl rfl, fun hfalse htrue => ?_, ?_⟩
    · cases observed with
      | true => exact .inl (hload rfl)
      | false => trivial
    · rw [hfalse] at htrue
      cases htrue
    · rintro ⟨_, _, hwrites⟩
      rw [hw] at hwrites
      cases hwrites
  · rename_i hw
    obtain ⟨rfl, rfl⟩ := Prod.mk.inj (Option.some.inj hstep)
    refine ⟨w.search_partition, h.search htarget, id, .inl rfl, fun hfalse htrue => ?_, ?_⟩
    · rw [hfalse] at htrue
      cases htrue
    · rintro ⟨_, _, hwrites⟩
      rw [hw] at hwrites
      cases hwrites
  · rename_i nonce hashHex hw
    obtain ⟨rfl, rfl⟩ := Prod.mk.inj (Option.some.inj hstep)
    rw [hw] at hphase
    refine ⟨rfl, ⟨?_, h.tried⟩, fun _ => rfl, .inl rfl, fun hfalse _ => ?_, ?_⟩
    · by_cases hfound : shared.found
      · rw [if_pos hfound]
        exact .inl rfl
      · rw [if_neg hfound]
        exact ⟨rfl, hphase⟩
    · exact ⟨nonce, hashHex, if_neg (by rw [hfalse]; exact Bool.false_ne_true)⟩
    · rintro ⟨_, _, hwrites⟩
      rw [hw] at hwrites
      cases hwrites
  · rename_i nonce hashHex hw
    obtain ⟨rfl, rfl⟩ := Prod.mk.inj (Option.some.inj hstep)
    rw [hw] at hphase
    obtain ⟨hset, hmax, haccepts⟩ := hphase
    refine ⟨rfl, ⟨.inl hset, h.tried⟩, id, .inr ⟨nonce, hashHex, hmax, haccepts, rfl⟩,
      fun hfalse htrue => ?_, fun _ => rfl⟩
    · rw [hfalse] at htrue
      cases htrue
  · rename_i hw
    obtain ⟨rfl, rfl⟩ := Prod.mk.inj (Option.some.inj hstep)
    rw [hw] at hphase
    refine ⟨rfl, ⟨hphase, h.tried⟩, id, .inl rfl, fun hfalse htrue => ?_, ?_⟩
    · rw [hfalse] at htrue
      cases htrue
    · rintro ⟨_, _, hwrites⟩
      rw [hw] at hwrites
      cases hwrites
  · cases hstep

/-! ## The whole search -/

/-- What holds of the threads together: thread `i` has lane `i`, the slot holds an accepted nonce,
and the flag is set only by a thread that fills the slot. -/
structure SearchSound (work : ProtocolPowWork) (header : BlockHeader) (maxTries : UInt64)
    (lanes : ℕ) (state : SearchState) : Prop where
  length_eq : state.workers.length = lanes
  lane : ∀ (i : ℕ) (w : Worker), state.workers[i]? = some w → w.partition.IsLane maxTries lanes i
  worker : ∀ (i : ℕ) (w : Worker), state.workers[i]? = some w →
    WorkerSound work state.shared.found w
  winner : ∀ entry, state.shared.winner = some entry → ∃ nonce hashHex,
    nonce < max maxTries 1 ∧ work.Accepts nonce ∧ entry = ({ header with nonce := nonce }, hashHex)
  found : state.shared.found = true →
    state.shared.winner.isSome ∨ ∃ (i : ℕ) (w : Worker), state.workers[i]? = some w ∧ w.Writes

variable {maxTries : UInt64} {lanes : ℕ} {state state' : SearchState}

/-- Every access keeps the invariant. -/
theorem SearchSound.step (htarget : work.target = targetFromBits work.targetBits)
    (hstep : SearchStep work header state state')
    (h : SearchSound work header maxTries lanes state) :
    SearchSound work header maxTries lanes state' := by
  obtain @⟨i, w, w', shared, observed, hworker, hload, haccess⟩ := hstep
  have hi : i < state.workers.length := (List.getElem?_eq_some_iff.mp hworker).1
  have hlane := h.lane i w hworker
  obtain ⟨hpartition, hsound, hshared⟩ := w.step_sound htarget hload haccess (h.worker i w hworker)
  rw [hlane.maxTries_eq] at hshared
  refine ⟨(length_set ..).trans h.length_eq, fun j v hv => ?_, fun j v hv => ?_,
    fun entry hentry => ?_, fun hfound => ?_⟩
  · by_cases hij : i = j
    · subst hij
      rw [getElem?_set_self hi] at hv
      rw [← Option.some.inj hv, hpartition]
      exact hlane
    · rw [getElem?_set_ne hij] at hv
      exact h.lane j v hv
  · by_cases hij : i = j
    · subst hij
      rw [getElem?_set_self hi] at hv
      exact Option.some.inj hv ▸ hsound
    · rw [getElem?_set_ne hij] at hv
      have hother := h.worker j v hv
      by_cases hset : shared.found = true
      · exact hset ▸ hother.setFound
      · have hunset : state.shared.found = shared.found := by
          have := mt hshared.found_mono hset
          rw [Bool.not_eq_true] at this hset
          rw [this, hset]
        exact hunset ▸ hother
  · rcases hshared.winner with hsame | ⟨nonce, hashHex, hmax, haccepts, hnew⟩
    · exact h.winner entry (hsame ▸ hentry)
    · exact ⟨nonce, hashHex, hmax, haccepts, Option.some.inj (hentry.symm.trans hnew)⟩
  · by_cases hbefore : state.shared.found = true
    · rcases h.found hbefore with hwinner | ⟨j, v, hv, hwrites⟩
      · rcases hshared.winner with hsame | ⟨_, _, -, -, hnew⟩
        · exact .inl (hsame ▸ hwinner)
        · exact .inl (hnew ▸ rfl)
      · by_cases hij : i = j
        · subst hij
          obtain rfl := Option.some.inj (hworker.symm.trans hv)
          exact .inl (hshared.writes hwrites)
        · exact .inr ⟨j, v, (getElem?_set_ne hij).trans hv, hwrites⟩
    · exact .inr ⟨i, w', getElem?_set_self hi,
        hshared.found_new (Bool.not_eq_true _ ▸ hbefore) hfound⟩

/-- Every interleaving keeps the invariant. -/
theorem SearchSound.run (htarget : work.target = targetFromBits work.targetBits)
    (hrun : Relation.ReflTransGen (SearchStep work header) state state')
    (h : SearchSound work header maxTries lanes state) :
    SearchSound work header maxTries lanes state' := by
  induction hrun with
  | refl => exact h
  | tail _ hstep ih => exact ih.step htarget hstep

/-- The invariant holds when the threads start. -/
theorem SearchSound.start {threads : ℕ}
    (h : spawnWorkers maxTries (protocolNonceLaneCount maxTries threads)
      (protocolNonceLaneCount maxTries threads) = .ok workers) :
    SearchSound work header maxTries (protocolNonceLaneCount maxTries threads) { workers } := by
  obtain ⟨hlength, hlanes⟩ := spawnWorkers_eq_ok h
  rw [protocolNonceLaneCount_idem] at hlanes
  refine ⟨hlength, fun i w hw => (hlanes i w hw).2, fun i w hw => ?_, fun entry hentry => ?_,
    fun hfound => ?_⟩
  · rw [(hlanes i w hw).1]
    exact ⟨trivial, fun nonce j hj _ => absurd hj (Nat.not_lt_zero j)⟩
  · cases hentry
  · cases hfound

/-- Once all threads have finished with the slot empty, every nonce was tried: nonce `n` in
iteration `n / lanes` of lane `n % lanes`. -/
theorem SearchSound.exhausted (h : SearchSound work header maxTries lanes state)
    (hlanes : 0 < lanes) (hfinished : ∀ w ∈ state.workers, w.phase = .finished (.ok ()))
    (hwinner : state.shared.winner = none) {nonce : UInt64} (hnonce : nonce < max maxTries 1) :
    ¬work.Accepts nonce := by
  have hunset : state.shared.found = false := by
    by_contra hfound
    rcases h.found ((Bool.not_eq_false _).mp hfound) with hsome | ⟨i, w, hw, _, _, hwrites⟩
    · rw [hwinner] at hsome
      cases hsome
    · rw [hfinished w (mem_of_getElem? hw)] at hwrites
      cases hwrites
  have hi : nonce.toNat % lanes < state.workers.length := h.length_eq.symm ▸ Nat.mod_lt _ hlanes
  have hw := getElem?_eq_getElem hi
  generalize state.workers[nonce.toNat % lanes] = w at hw
  have hlane := h.lane _ w hw
  have hsound := h.worker _ w hw
  have hend : w.partition.nonceAt w.iteration = .ok none := by
    have hphase := hsound.phase
    rw [hfinished w (mem_of_getElem? hw), hunset] at hphase
    exact hphase.resolve_left Bool.false_ne_true
  have hbound := ProtocolNoncePartition.nonceAt_eq_none hend
  rw [hlane.maxTries_eq, hlane.lane_eq, hlane.stride_eq] at hbound
  have hdivision := Nat.mod_add_div nonce.toNat lanes
  rw [UInt64.lt_iff_toNat_lt] at hnonce
  have hbefore : nonce.toNat / lanes < w.iteration.toNat :=
    Nat.lt_of_mul_lt_mul_left (by omega : lanes * (nonce.toNat / lanes) < lanes * w.iteration.toNat)
  refine hsound.tried nonce _ hbefore ?_
  rw [hlane.lane_eq, hlane.stride_eq, hdivision]

/-- Whatever the interleaving, an accepted result carries an accepted nonce of the range, and a
result that is not accepted means that the range has none. A bound of zero is taken as one. -/
theorem minesHeader_sound_and_complete {threads : ℕ} {targetBits : UInt32}
    {identity : ProtocolActivationIdentity} {result : NonceSearchResult}
    (h : MinesHeader header maxTries threads targetBits identity (.ok result)) :
    ∃ work, buildProtocolPowWork header targetBits identity = .ok work ∧
      (result.accepted = true →
        result.header.nonce < max maxTries 1 ∧ work.Accepts result.header.nonce) ∧
      (result.accepted = false → ∀ nonce < max maxTries 1, ¬work.Accepts nonce) := by
  generalize houtcome : Except.ok result = outcome at h
  cases h with
  | workError => cases houtcome
  | spawnError => cases houtcome
  | @joined work workers final joined hwork hspawn hrun hjoin =>
    cases joined with
    | error => cases houtcome
    | ok =>
      have hsound := (SearchSound.start hspawn).run (buildProtocolPowWork_target hwork) hrun
      have hlimit : max (max maxTries 1) 1 = max maxTries 1 := by
        apply UInt64.toNat_inj.mp
        rw [toNat_max, toNat_max]
        omega
      obtain rfl := Except.ok.inj houtcome
      refine ⟨work, hwork, ?_, ?_⟩
      all_goals
        unfold searchResult
        split
      · rename_i winner winnerHash hwinner
        intro _
        obtain ⟨nonce, hashHex, hmax, haccepts, hentry⟩ := hsound.winner _ hwinner
        rw [(Prod.mk.inj hentry).1]
        exact ⟨hlimit ▸ hmax, haccepts⟩
      · exact fun haccepted => Bool.noConfusion haccepted
      · exact fun haccepted => Bool.noConfusion haccepted
      · rename_i hwinner
        intro _ nonce hnonce
        exact hsound.exhausted (protocolNonceLaneCount_pos _ _) (joinWorkers_eq_ok hjoin) hwinner
          (hlimit.symm ▸ hnonce)

/-! ## Schedules -/

/-- The state after the accesses of a schedule: which thread makes one, and what a load returns. -/
def runSchedule (work : ProtocolPowWork) (header : BlockHeader) :
    SearchState → List (ℕ × Bool) → Option SearchState
  | state, [] => some state
  | state, (i, observed) :: rest =>
    if observed = true ∧ state.shared.found = false then none
    else do
      let w ← state.workers[i]?
      let (w', shared) ← w.step work header observed state.shared
      runSchedule work header { workers := state.workers.set i w', shared := shared } rest

/-- A schedule that can be followed is an interleaving. -/
theorem reflTransGen_runSchedule {state final : SearchState} {accesses : List (ℕ × Bool)}
    (h : runSchedule work header state accesses = some final) :
    Relation.ReflTransGen (SearchStep work header) state final := by
  induction accesses generalizing state with
  | nil => rw [Option.some.inj h]
  | cons access rest ih =>
    rw [runSchedule] at h
    split at h
    · cases h
    · rename_i hload
      simp only [Option.bind_eq_bind, Option.bind_eq_some_iff] at h
      obtain ⟨w, hworker, ⟨w', shared⟩, hstep, hrest⟩ := h
      refine .head (.access hworker (fun hobserved => ?_) hstep) (ih hrest)
      exact (Bool.not_eq_false _).mp fun hunset => hload ⟨hobserved, hunset⟩

end

/-- A library in which every proof of work has the same digest. -/
@[reducible]
def constHash (digest : List UInt8) : KHeavyHashLibrary where
  sha256 := fun _ => []
  ed25519Verify := fun _ _ _ => false
  keccak256 := fun _ => []
  PowHash := Unit
  Matrix := Unit
  powHashNew := fun _ _ => ()
  finalizeWithNonce := fun _ _ => []
  matrixGenerate := fun _ => ()
  heavyHash := fun _ _ => digest

/-- A version 1 template and the identity of its chain. -/
def sampleTemplate : BlockHeader :=
  { version := blockHeaderVersionV1, parents := ["p"], timestamp := 1, difficulty := 1, nonce := 0,
    merkleRoot := "m", stateRoot := "s", blueScore := 1, height := 1 }

def sampleLegacyIdentity : ProtocolActivationIdentity :=
  { chainId := "c", genesisHash := "g", transactionProtocolVersion := transactionVersionV1,
    blockHeaderProtocolVersion := blockHeaderVersionV1, consensusMode := .legacy,
    dagOrderingVersion := "o" }

/-- What a call on the template returns whose threads follow a schedule. -/
def sampleMine [KHeavyHashLibrary] (maxTries : UInt64) (threads : ℕ) (targetBits : UInt32)
    (accesses : List (ℕ × Bool)) : Option NonceSearchResult := do
  let limit := max maxTries 1
  let lanes := protocolNonceLaneCount limit threads
  let work ← (buildProtocolPowWork sampleTemplate targetBits sampleLegacyIdentity).toOption
  let workers ← (spawnWorkers limit lanes lanes).toOption
  let final ← runSchedule work sampleTemplate { workers } accesses
  let outcome ← joinWorkers final.workers
  let _ ← outcome.toOption
  pure (searchResult work sampleTemplate limit final.shared)

/-- Following a schedule is one way to make the call. -/
theorem minesHeader_sampleMine [KHeavyHashLibrary] {maxTries : UInt64} {threads : ℕ}
    {targetBits : UInt32} {accesses : List (ℕ × Bool)} {result : NonceSearchResult}
    (h : sampleMine maxTries threads targetBits accesses = some result) :
    MinesHeader sampleTemplate maxTries threads targetBits sampleLegacyIdentity (.ok result) := by
  simp only [sampleMine, Option.bind_eq_bind, Option.bind_eq_some_iff, Option.pure_def,
    Option.some.injEq] at h
  obtain ⟨work, hwork, workers, hworkers, final, hfinal, outcome, hjoin, _, houtcome, rfl⟩ := h
  obtain rfl := eq_ok_of_toOption houtcome
  exact .joined (eq_ok_of_toOption hwork) (eq_ok_of_toOption hworkers)
    (reflTransGen_runSchedule hfinal) hjoin

/-- A bound of zero does not keep nonce 0 from being tried and returned. -/
theorem minesHeader_zeroTries : letI := constHash []
    ∃ result, MinesHeader sampleTemplate 0 1 1 sampleLegacyIdentity (.ok result) ∧
      result.accepted = true ∧ ¬result.header.nonce < 0 := by
  let := constHash []
  have hrun : (sampleMine 0 1 1 (List.replicate 5 (0, false))).map NonceSearchResult.accepted =
      some true := by decide +kernel
  obtain ⟨result, hresult, haccepted⟩ := Option.map_eq_some_iff.mp hrun
  exact ⟨result, minesHeader_sampleMine hresult, haccepted, UInt64.not_lt_zero⟩

/-- Two threads find a nonce each, and the second is faster to claim the flag. With digests above
the target they search the range in vain. -/
theorem minesHeader_sound_and_complete_twoThreads : letI := constHash []
    (∃ result work, MinesHeader sampleTemplate 2 2 0x03000001 sampleLegacyIdentity (.ok result) ∧
      buildProtocolPowWork sampleTemplate 0x03000001 sampleLegacyIdentity = .ok work ∧
      result.header.nonce = 1 ∧ work.Accepts result.header.nonce) ∧
    letI := constHash (List.replicate 32 0xff)
    ∃ result work, MinesHeader sampleTemplate 2 2 0x03000001 sampleLegacyIdentity (.ok result) ∧
      buildProtocolPowWork sampleTemplate 0x03000001 sampleLegacyIdentity = .ok work ∧
      result.accepted = false ∧ ∀ nonce < max 2 1, ¬work.Accepts nonce := by
  constructor
  · let := constHash []
    have hrun : (sampleMine 2 2 0x03000001 ([0, 1, 0, 1, 1, 0, 1, 0, 1].map (·, false))).map
        (fun result => (result.accepted, result.header.nonce)) = some (true, 1) := by decide +kernel
    obtain ⟨result, hresult, hvalues⟩ := Option.map_eq_some_iff.mp hrun
    obtain ⟨haccepted, hnonce⟩ := Prod.mk.inj hvalues
    have hmines := minesHeader_sampleMine hresult
    obtain ⟨work, hwork, hsound, -⟩ := minesHeader_sound_and_complete hmines
    exact ⟨result, work, hmines, hwork, hnonce, (hsound haccepted).2⟩
  · let := constHash (List.replicate 32 0xff)
    have hrun : (sampleMine 2 2 0x03000001 ((List.replicate 5 [0, 1]).flatten.map (·, false))).map
        NonceSearchResult.accepted = some false := by decide +kernel
    obtain ⟨result, hresult, haccepted⟩ := Option.map_eq_some_iff.mp hrun
    have hmines := minesHeader_sampleMine hresult
    obtain ⟨work, hwork, -, hcomplete⟩ := minesHeader_sound_and_complete hmines
    exact ⟨result, work, hmines, hwork, haccepted, hcomplete haccepted⟩

end PulseDag
