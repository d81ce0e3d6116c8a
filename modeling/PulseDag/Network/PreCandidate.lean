import PulseDag.Ledger.Supply
import PulseDag.Network.Context

/-!
# The state before a candidate

`replay_pre_candidate_state_v2` and `rebuild_authoritative_state_v2` apply the same
transactions by the same rule, but the first always starts at the version 1 genesis ledger
and the second at the ledger of the genesis kind. They agree when the kind is version 1. For
the other kinds the first ledger holds the version 1 treasury coin, which the second lacks, and
from then on always a coin that descends from it, as long as the coin is not burnt.
-/

namespace PulseDag

open List

/-! ## The loop before the candidate -/

/-- The loop over a block is a replay of its transactions. -/
theorem replayAcceptedTransactions_ok (height : UInt64) (txs : List Transaction)
    (replay : ChainState) :
    ∃ next, txs.foldlM (replayAcceptedTransaction height) replay = .ok next ∧
      next.utxo = replayLedger replay.utxo (txs.map fun tx => (tx, height)) := by
  induction txs generalizing replay with
  | nil => exact ⟨replay, rfl, rfl⟩
  | cons tx rest ih =>
    have hstep : replayAcceptedTransaction height replay tx =
        .ok ((applyTransaction tx replay height).toOption.getD replay) := by
      rw [replayAcceptedTransaction, applyAtomic_eq, ok_bind, pure_eq_ok]
    obtain ⟨next, hnext, hutxo⟩ := ih ((applyTransaction tx replay height).toOption.getD replay)
    refine ⟨next, by rw [foldlM_cons, hstep, ok_bind, hnext], ?_⟩
    rw [hutxo, applyAtomic_utxo]
    rfl

variable {context : ChainState} {outpoint : OutPoint}

/-- A stored block is replayed. -/
theorem replayAcceptedBlock_ok {hash : Hash} (hstored : hash ∈ context.dag.blocks)
    (replay : ChainState) :
    ∃ next, replayAcceptedBlock context replay hash = .ok next ∧
      next.utxo = replayLedger replay.utxo (replayedTransactions context hash) := by
  by_cases hgenesis : hash = context.dag.genesisHash
  · refine ⟨replay, by rw [replayAcceptedBlock, if_pos hgenesis], ?_⟩
    rw [replayedTransactions, if_pos hgenesis]
    rfl
  · obtain ⟨block, hblock⟩ := (TreeMap.mem_iff _ _).mp hstored
    obtain ⟨next, hnext, hutxo⟩ :=
      replayAcceptedTransactions_ok block.header.height block.transactions replay
    refine ⟨next, ?_, ?_⟩
    · rw [replayAcceptedBlock, if_neg hgenesis, hblock, okOr_some, ok_bind, hnext]
    · rw [replayedTransactions, if_neg hgenesis, hblock, hutxo]

/-- The loop over stored blocks applies their transactions under the atomic rule. -/
theorem replayAcceptedBlocks_ok {hashes : List Hash}
    (hstored : ∀ hash ∈ hashes, hash ∈ context.dag.blocks) (replay : ChainState) :
    ∃ next, hashes.foldlM (replayAcceptedBlock context) replay = .ok next ∧
      next.utxo = replayLedger replay.utxo (hashes.flatMap (replayedTransactions context)) := by
  induction hashes generalizing replay with
  | nil => exact ⟨replay, rfl, rfl⟩
  | cons hash rest ih =>
    obtain ⟨hhash, hrest⟩ := forall_mem_cons.mp hstored
    obtain ⟨middle, hmiddle, hmiddleUtxo⟩ := replayAcceptedBlock_ok hhash replay
    obtain ⟨next, hnext, hutxo⟩ := ih hrest middle
    refine ⟨next, by rw [foldlM_cons, hmiddle, ok_bind, hnext], ?_⟩
    rw [hutxo, hmiddleUtxo, flatMap_cons, replayLedger_append]

/-- The blocks before a candidate that comes last, and then the candidate, hold the
transactions of the whole order. -/
theorem beforeCandidate_transactions {candidate : Hash} {before : List Hash}
    (hnodup : (before ++ [candidate]).Nodup) :
    (beforeCandidate context candidate (before ++ [candidate])).flatMap
        (replayedTransactions context) ++ replayedTransactions context candidate =
      (before ++ [candidate]).flatMap (replayedTransactions context) := by
  have hbefore : ∀ hash ∈ before, hash ≠ candidate := by
    intro hash hmem heq
    exact (nodup_append.mp hnodup).2.2 hash hmem candidate (mem_singleton_self _) heq
  rw [beforeCandidate, takeWhile_append_of_pos]
  · rw [flatMap_append, flatMap_append, flatMap_singleton, append_assoc]
    congr 1
    by_cases hgenesis : candidate = context.dag.genesisHash
    · -- the loop passes over the genesis block before it compares with the candidate
      simp [hgenesis, replayedTransactions]
    · simp [hgenesis]
  · intro hash hmem
    simp [hbefore hash hmem]

/-! ## Coins that descend from a coin -/

/-- The coins that descend from a coin by way of some transactions: the coin itself, and what a
transaction creates that spends a descendant. -/
inductive Descends (txs : Set Transaction) (source : OutPoint) : OutPoint → Prop
  | source : Descends txs source source
  | created {tx : Transaction} {spent outpoint : OutPoint} (htx : tx ∈ txs)
      (hspent : spent ∈ spentOutpoints tx) (hdescends : Descends txs source spent)
      (hcreated : outpoint ∈ outpointsOf tx) : Descends txs source outpoint

/-- The descendants of a coin are created by their own spenders only, and none is burnt. -/
structure Traceable (txs : Set Transaction) (source : OutPoint) : Prop where
  outputs : ∀ tx ∈ txs, ∀ spent ∈ spentOutpoints tx, Descends txs source spent → tx.outputs ≠ []
  creators : ∀ tx ∈ txs, (∀ spent ∈ spentOutpoints tx, ¬Descends txs source spent) →
    ∀ outpoint ∈ outpointsOf tx, ¬Descends txs source outpoint

variable {txs : Set Transaction} {source : OutPoint} {entries : List (Transaction × UInt64)}

/-- A ledger that holds a descendant keeps one. -/
theorem Traceable.replayLedger_holds (h : Traceable txs source)
    (hentries : ∀ entry ∈ entries, entry.1 ∈ txs) (utxo : UtxoState)
    (hholds : ∃ held ∈ utxo.utxos, Descends txs source held) :
    ∃ held ∈ (replayLedger utxo entries).utxos, Descends txs source held := by
  induction entries generalizing utxo with
  | nil => exact hholds
  | cons entry rest ih =>
    obtain ⟨htx, hrest⟩ := forall_mem_cons.mp hentries
    refine ih hrest (applyOrSkip utxo entry.1 entry.2) ?_
    obtain ⟨held, hheld, hdescends⟩ := hholds
    rcases applyOrSkip_cases utxo entry.1 entry.2 with ⟨-, hutxos⟩ | ⟨-, hsame⟩
    · rw [hutxos]
      by_cases hspent : held ∈ spentOutpoints entry.1
      · -- the spender has an output, which descends from the coin in turn
        have hne : outpointsOf entry.1 ≠ [] := by
          rw [← length_pos_iff, length_outpointsOf, length_pos_iff]
          exact h.outputs _ htx held hspent hdescends
        obtain ⟨created, hcreated⟩ := exists_mem_of_ne_nil _ hne
        exact ⟨created, mem_spendAndCreate.mpr (.inl hcreated),
          .created htx hspent hdescends hcreated⟩
      · exact ⟨held, mem_spendAndCreate.mpr (.inr ⟨hspent, hheld⟩), hdescends⟩
    · rw [hsame]
      exact ⟨held, hheld, hdescends⟩

/-- A ledger without descendants gets none. -/
theorem Traceable.replayLedger_lacks (h : Traceable txs source)
    (hentries : ∀ entry ∈ entries, entry.1 ∈ txs) {utxo : UtxoState}
    (hlacks : ∀ held ∈ utxo.utxos, ¬Descends txs source held) :
    ∀ held ∈ (replayLedger utxo entries).utxos, ¬Descends txs source held := by
  induction entries generalizing utxo with
  | nil => exact hlacks
  | cons entry rest ih =>
    obtain ⟨htx, hrest⟩ := forall_mem_cons.mp hentries
    refine ih hrest fun held hheld => ?_
    rcases applyOrSkip_cases utxo entry.1 entry.2 with ⟨happlicable, hutxos⟩ | ⟨-, hsame⟩
    · rw [hutxos, mem_spendAndCreate] at hheld
      rcases hheld with hcreated | ⟨-, hheld⟩
      · exact h.creators _ htx (fun spent hspent => hlacks spent
          (happlicable.spent_mem spent hspent)) held hcreated
      · exact hlacks held hheld
    · exact hlacks held (hsame ▸ hheld)

section

variable [Crypto]

/-! ## Both replays as one ledger -/

/-- The replay up to the candidate, then the candidate's own transactions: the ledger of all
ordered transactions, started at the version 1 genesis ledger. -/
theorem replayPreCandidateStateV2_ok {candidate : Hash} {ordered : OrderedDagV2}
    (horder : deriveOrderedDagV2 context = .ok ordered)
    (hlast : ordered.blocks.getLast? = some candidate) :
    ∃ pre after, replayPreCandidateStateV2 context candidate = .ok pre ∧
      replayAcceptedBlock context pre candidate = .ok after ∧
      after.utxo = replayLedger (initChainState context.chainId).utxo
        (ordered.blocks.flatMap (replayedTransactions context)) := by
  obtain ⟨before, hsplit⟩ := getLast?_eq_some_iff.mp hlast
  have hstored : ∀ hash ∈ ordered.blocks, hash ∈ context.dag.blocks := fun hash hmem =>
    (mem_of_deriveOrderedDagV2 horder).mp hmem
  have hnodup := deriveOrderedDagV2_nodup horder
  rw [hsplit] at hnodup hstored
  obtain ⟨replay, hreplay, hutxo⟩ := replayAcceptedBlocks_ok
    (fun hash hmem => hstored hash ((takeWhile_sublist _).subset hmem))
    (withReplaySettings (initChainState context.chainId) context)
  have hindexed : replay.utxo.Indexed := by
    rw [hutxo]
    exact replayLedger_indexed (genesisUtxoState_indexed _) _
  have hpre : ∃ pre, replayPreCandidateStateV2 context candidate = .ok pre ∧
      pre.utxo = replay.utxo := by
    simp only [replayPreCandidateStateV2, horder, Except.mapError, ok_bind, ensure_pos hlast]
    rw [hsplit, beforeCandidate, hreplay, ok_bind, hindexed.computeStateRoot_eq, ok_bind]
    exact ⟨_, rfl, rfl⟩
  obtain ⟨pre, hpre, hpreUtxo⟩ := hpre
  obtain ⟨after, hafter, hafterUtxo⟩ := replayAcceptedBlock_ok
    (hstored candidate (mem_append_right _ (mem_singleton_self _))) pre
  refine ⟨pre, after, hpre, hafter, ?_⟩
  rw [hafterUtxo, hpreUtxo, hutxo, hsplit, ← beforeCandidate_transactions hnodup,
    replayLedger_append]
  rfl

/-- Replaying up to the candidate and then applying its transactions gives the coins and the
state root of the authoritative replay. -/
def PreCandidateAgrees (context : ChainState) (candidate : Hash) : Prop :=
  ∃ pre after rebuilt, replayPreCandidateStateV2 context candidate = .ok pre ∧
    replayAcceptedBlock context pre candidate = .ok after ∧
    rebuildAuthoritativeStateV2 context = .ok rebuilt ∧
    after.utxo.utxos = rebuilt.utxo.utxos ∧
    after.utxo.computeStateRoot = .ok rebuilt.diagnostics.stateRoot

/-! ## The two genesis ledgers -/

/-- The outpoint of the version 1 treasury coin. -/
def treasuryOutpointV1 : OutPoint := ⟨genesisTransaction.txid, 0⟩

/-- The transactions that a replay of the context runs through. -/
def replayed (context : ChainState) : Set Transaction :=
  {tx | ∃ hash ∈ context.dag.blocks, ∃ height, (tx, height) ∈ replayedTransactions context hash}

/-- The descendants of the version 1 treasury can be traced, and the ledger of another genesis kind
holds none of them. -/
structure TreasuryTraced (context base : ChainState) (genesis : Block) : Prop where
  traceable : Traceable (replayed context) treasuryOutpointV1
  base : genesis.header.version ≠ blockHeaderVersionV1 →
    ∀ held ∈ base.utxo.utxos, ¬Descends (replayed context) treasuryOutpointV1 held

/-- The base of a version 1 genesis. -/
theorem replayBaseStateForGenesis_v1 {base : ChainState} {genesis : Block}
    (hgenesis : context.dag.blocks[context.dag.genesisHash]? = some genesis)
    (hversion : genesis.header.version = blockHeaderVersionV1)
    (hbase : replayBaseStateForGenesis context = .ok base) :
    base = initChainState context.chainId := by
  have hne : blockHeaderVersionV1 ≠ blockHeaderVersionV2 := by decide
  rw [replayBaseStateForGenesis, hgenesis, okOr_some, ok_bind] at hbase
  cases htxs : genesis.transactions with
  | nil =>
    simp only [htxs, hversion, bind_eq_ok, ensure_eq_ok] at hbase
    obtain ⟨-, hwrong, -⟩ := hbase
    exact absurd hwrong hne
  | cons firstTx rest =>
    simp only [htxs, hversion, bind_eq_ok, ensure_eq_ok, hne, false_and, if_false,
      true_and] at hbase
    obtain ⟨-, -, hbase⟩ := hbase
    split at hbase
    · exact (Except.ok.inj hbase).symm
    · cases hbase

/-- With a version 1 genesis the two replays agree, and when the descendants of the version 1
treasury can be traced they agree with no other genesis kind. -/
theorem preCandidateAgrees_v1Genesis {context base : ChainState} {candidate : Hash}
    {ordered : OrderedDagV2} {genesis : Block}
    (horder : deriveOrderedDagV2 context = .ok ordered)
    (hlast : ordered.blocks.getLast? = some candidate)
    (hgenesis : context.dag.blocks[context.dag.genesisHash]? = some genesis)
    (hbase : replayBaseStateForGenesis context = .ok base) :
    (genesis.header.version = blockHeaderVersionV1 → PreCandidateAgrees context candidate) ∧
    (TreasuryTraced context base genesis →
      (PreCandidateAgrees context candidate ↔ genesis.header.version = blockHeaderVersionV1)) := by
  obtain ⟨pre, after, hpre, hafter, hafterUtxo⟩ :=
    replayPreCandidateStateV2_ok horder hlast
  obtain ⟨rebuilt, hrebuilt, hreplayed⟩ := rebuildAuthoritativeStateV2_ok horder hbase
  have hagrees : genesis.header.version = blockHeaderVersionV1 →
      PreCandidateAgrees context candidate := by
    intro hversion
    have heq : after.utxo = rebuilt.utxo := by
      rw [hafterUtxo, hreplayed.utxo, replayBaseStateForGenesis_v1 hgenesis hversion hbase]
    refine ⟨pre, after, rebuilt, hpre, hafter, hrebuilt, by rw [heq], ?_⟩
    rw [heq, hreplayed.indexed.computeStateRoot_eq, hreplayed.stateRoot]
  refine ⟨hagrees, fun htraced => ⟨?_, hagrees⟩⟩
  rintro ⟨pre', after', rebuilt', hpre', hafter', hrebuilt', hcoins, -⟩
  by_contra hversion
  rw [hpre, Except.ok.injEq] at hpre'
  subst hpre'
  rw [hafter, Except.ok.injEq] at hafter'
  subst hafter'
  rw [hrebuilt, Except.ok.injEq] at hrebuilt'
  subst hrebuilt'
  have hentries : ∀ entry ∈ ordered.blocks.flatMap (replayedTransactions context),
      entry.1 ∈ replayed context := by
    intro entry hentry
    obtain ⟨hash, hhash, hmem⟩ := mem_flatMap.mp hentry
    exact ⟨hash, (mem_of_deriveOrderedDagV2 horder).mp hhash, entry.2, hmem⟩
  -- the first ledger starts with the treasury coin, the second without a descendant of it
  obtain ⟨held, hheld, hdescends⟩ := htraced.traceable.replayLedger_holds hentries
    (initChainState context.chainId).utxo ⟨_, Std.ExtTreeMap.mem_insert_self, .source⟩
  rw [← hafterUtxo, hcoins, hreplayed.utxo] at hheld
  exact htraced.traceable.replayLedger_lacks hentries (htraced.base hversion) held hheld hdescends

/-- The version 1 genesis state of the chain `c` after committing blocks. -/
def sampleRunV1 (blocks : Hash → List Block) : Except PulseError ChainState :=
  let s0 := initChainState "c"
  commitAll (.activatedV2 "c" s0.dag.genesisHash ghostdagV1OrderingVersion)
    (blocks s0.dag.genesisHash) s0

/-- A block with one transaction that mints `7`. -/
def mintingBlock (genesis : Hash) : Block :=
  { bareBlock [genesis] 1 1 0 with transactions := [sampleTransaction [] [7] 0 0] }

/-- A block with one transaction that spends the version 1 treasury. -/
def treasuryBlock (genesis : Hash) : Block :=
  { bareBlock [genesis] 1 1 0 with
    transactions := [sampleTransaction [treasuryOutpointV1] [7] 0 0] }

end

/-- A block that mints on a version 1 genesis, and one that spends the version 1 treasury on a
version 3 genesis. -/
theorem preCandidateAgrees_mintingBlock : letI := checksumCrypto
    (∃ context genesis, context.dag.blocks[context.dag.genesisHash]? = some genesis ∧
      genesis.header.version = blockHeaderVersionV1 ∧
      PreCandidateAgrees context (mintingBlock context.dag.genesisHash).hash) ∧
    ∃ s0 context, initChainStateV3 "c" 1 = .ok s0 ∧
      CommitRun s0 [treasuryBlock s0.dag.genesisHash] context ∧
      ¬PreCandidateAgrees context (treasuryBlock context.dag.genesisHash).hash := by
  let := checksumCrypto
  constructor
  · have hrun : ((sampleRunV1 fun genesis => [mintingBlock genesis]).toOption.bind fun context => do
        let ordered ← (deriveOrderedDagV2 context).toOption
        let base ← (replayBaseStateForGenesis context).toOption
        let genesis ← context.dag.blocks[context.dag.genesisHash]?
        pure (ordered.blocks.getLast? == some (mintingBlock context.dag.genesisHash).hash &&
          genesis.header.version == blockHeaderVersionV1)) = some true := by
      decide +kernel
    simp only [Option.bind_eq_some_iff, Option.bind_eq_bind, Option.pure_def, Option.some.injEq,
      Bool.and_eq_true, beq_iff_eq] at hrun
    obtain ⟨context, -, ordered, horder, base, hbase, genesis, hgenesis, hlast, hversion⟩ := hrun
    exact ⟨context, genesis, hgenesis, hversion, (preCandidateAgrees_v1Genesis
      (eq_ok_of_toOption horder) hlast hgenesis (eq_ok_of_toOption hbase)).1 hversion⟩
  · have hrun : ((sampleRun fun genesis => [treasuryBlock genesis]).toOption.bind fun run => do
        let ordered ← (deriveOrderedDagV2 run.2).toOption
        let base ← (replayBaseStateForGenesis run.2).toOption
        let genesis ← run.2.dag.blocks[run.2.dag.genesisHash]?
        pure (decide (ordered.blocks.getLast? = some (treasuryBlock run.2.dag.genesisHash).hash ∧
          genesis.header.version ≠ blockHeaderVersionV1 ∧ base.utxo.utxos.toList = [] ∧
          ∀ hash ∈ run.2.dag.blocks.keys, ∀ entry ∈ replayedTransactions run.2 hash,
            treasuryOutpointV1 ∈ spentOutpoints entry.1 ∧ entry.1.outputs ≠ []))) = some true := by
      decide +kernel
    simp only [Option.bind_eq_some_iff, Option.bind_eq_bind, Option.pure_def, Option.some.injEq,
      decide_eq_true_iff] at hrun
    obtain ⟨⟨s0, context⟩, hsample, ordered, horder, base, hbase, genesis, hgenesis, hlast,
      hversion, hempty, hspends⟩ := hrun
    obtain ⟨h0, hcommits⟩ := sampleRun_eq_some hsample
    have hreplayed : ∀ tx ∈ replayed context,
        treasuryOutpointV1 ∈ spentOutpoints tx ∧ tx.outputs ≠ [] := by
      rintro tx ⟨hash, hhash, height, hentry⟩
      exact hspends hash (Std.ExtTreeMap.mem_keys.mpr hhash) (tx, height) hentry
    have htraced : TreasuryTraced context base genesis := by
      refine ⟨⟨fun tx htx _ _ _ => (hreplayed tx htx).2, fun tx htx hnone => ?_⟩,
        fun _ held hheld => ?_⟩
      · exact absurd .source (hnone _ (hreplayed tx htx).1)
      · obtain ⟨coin, hcoin⟩ := (TreeMap.mem_iff _ _).mp hheld
        rw [← TreeMap.mem_toList, hempty] at hcoin
        cases hcoin
    exact ⟨s0, context, h0, hcommits, fun hagrees => hversion (((preCandidateAgrees_v1Genesis
      (eq_ok_of_toOption horder) hlast hgenesis (eq_ok_of_toOption hbase)).2 htraced).mp hagrees)⟩

/-- One block on a version 3 genesis: the replay before the candidate keeps the version 1
treasury coin, the authoritative ledger is empty, and the state roots differ. -/
theorem preCandidate_differs_v3Genesis : letI := checksumCrypto
    ∃ s0 context ordered candidate, initChainStateV3 "c" 1 = .ok s0 ∧
      CommitRun s0 [bareBlock [s0.dag.genesisHash] 1 1 0] context ∧
      deriveOrderedDagV2 context = .ok ordered ∧
      ordered.blocks.getLast? = some candidate ∧ candidate ≠ context.dag.genesisHash ∧
      ∃ pre after rebuilt root, replayPreCandidateStateV2 context candidate = .ok pre ∧
        replayAcceptedBlock context pre candidate = .ok after ∧
        rebuildAuthoritativeStateV2 context = .ok rebuilt ∧
        after.utxo.computeStateRoot = .ok root ∧
        after.utxo.utxos.size = 1 ∧ rebuilt.utxo.utxos.size = 0 ∧
        root ≠ rebuilt.diagnostics.stateRoot := by
  let := checksumCrypto
  have hrun : ((sampleRun fun genesis => [bareBlock [genesis] 1 1 0]).toOption.bind fun run => do
      let ordered ← (deriveOrderedDagV2 run.2).toOption
      let candidate ← ordered.blocks.getLast?
      let pre ← (replayPreCandidateStateV2 run.2 candidate).toOption
      let after ← (replayAcceptedBlock run.2 pre candidate).toOption
      let rebuilt ← (rebuildAuthoritativeStateV2 run.2).toOption
      let root ← after.utxo.computeStateRoot.toOption
      pure (candidate != run.2.dag.genesisHash && after.utxo.utxos.size == 1 &&
        rebuilt.utxo.utxos.size == 0 && root != rebuilt.diagnostics.stateRoot)) = some true := by
    decide +kernel
  simp only [Option.bind_eq_some_iff, Option.bind_eq_bind, Option.pure_def, Option.some.injEq,
    Bool.and_eq_true, beq_iff_eq, bne_iff_ne] at hrun
  obtain ⟨⟨s0, context⟩, hsample, ordered, horder, candidate, hlast, pre, hpre, after, hafter,
    rebuilt, hrebuilt, root, hroot, ⟨⟨hne, hsize⟩, hempty⟩, hroots⟩ := hrun
  obtain ⟨h0, hcommits⟩ := sampleRun_eq_some hsample
  exact ⟨s0, context, ordered, candidate, h0, hcommits, eq_ok_of_toOption horder, hlast, hne,
    pre, after, rebuilt, root, eq_ok_of_toOption hpre, eq_ok_of_toOption hafter,
    eq_ok_of_toOption hrebuilt, eq_ok_of_toOption hroot, hsize, hempty, hroots⟩

end PulseDag
