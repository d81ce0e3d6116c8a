import PulseDag.Relay.CompactBlock

/-!
# Reconstruction of announced blocks

A block put together from an announcement has the announced header and hash, a valid proof of work
and the transactions that the header's Merkle root commits to, whoever sent the messages
(`reconstructed_block_sound`). If the messages come from a holder of the block, the receiver gets
that block or falls back to the full block (`compactRelay_reconstructs`).
-/

namespace PulseDag

open List

variable {announcement : CompactBlockAnnouncementV1} {known : TreeMap Hash Transaction}
  {chainId : Option String}

/-! ## What a plan is -/

/-- Every known transaction is stored under its own id, as far as the ids of the list go. -/
def IdsMatch (known : TreeMap Hash Transaction) (txids : List Hash) : Prop :=
  ∀ txid ∈ txids, ∀ transaction, known[txid]? = some transaction → transaction.txid = txid

variable {txids : List Hash}

/-- The missing ids, if the known ones match. -/
theorem missingKnownTransactionIds_eq_ok {missing : List Hash} :
    missingKnownTransactionIds known txids = .ok missing ↔
      IdsMatch known txids ∧ missing = txids.filter fun txid => known[txid]?.isNone := by
  induction txids generalizing missing with
  | nil => simp [missingKnownTransactionIds, IdsMatch, eq_comm]
  | cons txid rest ih =>
    rw [missingKnownTransactionIds, IdsMatch, forall_mem_cons, filter_cons]
    cases hfound : known[txid]? with
    | none =>
      simp only [bind_eq_ok, ih, pure_eq_ok, Except.ok.injEq, Option.isNone_none, if_true]
      constructor
      · rintro ⟨others, ⟨hmatch, rfl⟩, rfl⟩
        exact ⟨⟨fun transaction h => (by cases h), hmatch⟩, rfl⟩
      · rintro ⟨⟨-, hmatch⟩, rfl⟩
        exact ⟨_, ⟨hmatch, rfl⟩, rfl⟩
    | some transaction =>
      simp only [bind_eq_ok, ensure_eq_ok, exists_const, ih, Option.isNone_some, Bool.false_eq_true,
        if_false]
      constructor
      · rintro ⟨htxid, hmatch, hmissing⟩
        exact ⟨⟨fun found h => Option.some.inj h ▸ htxid, hmatch⟩, hmissing⟩
      · rintro ⟨⟨htxid, hmatch⟩, hmissing⟩
        exact ⟨htxid transaction rfl, hmatch, hmissing⟩

section

variable [Crypto]

omit [Crypto] in
/-- Nothing missing completes the block. -/
theorem planForMissing_nil : planForMissing announcement known [] =
    .complete ⟨announcement.blockHash, announcement.header,
      announcement.txids.filterMap fun txid => known[txid]?⟩ := rfl

/-- The ids of an announcement that are not known. -/
def CompactBlockAnnouncementV1.missing (announcement : CompactBlockAnnouncementV1)
    (known : TreeMap Hash Transaction) : List Hash :=
  announcement.txids.filter fun txid => known[txid]?.isNone

variable {clock : Clock}

/-- The parts of a successful plan. -/
theorem planCompactBlockReconstruction_eq_ok {plan : CompactBlockReconstructionPlanV1}
    (h : planCompactBlockReconstruction clock announcement known chainId = .ok plan) :
    validateAnnouncementShape clock announcement chainId = .ok () ∧
      (plan = .fullBlockFallback announcement.blockHash .merkleRootMismatch ∨
        computeMerkleRootFromTxids announcement.txids = announcement.header.merkleRoot ∧
          validateHeaderPow announcement.header chainId = .ok () ∧
          IdsMatch known announcement.txids ∧
          plan = planForMissing announcement known (announcement.missing known)) := by
  rw [planCompactBlockReconstruction, bind_eq_ok] at h
  obtain ⟨_, hshape, h⟩ := h
  refine ⟨hshape, ?_⟩
  split at h
  · exact .inl (Except.ok.inj h).symm
  · rename_i hroot
    simp only [ok_iff, missingKnownTransactionIds_eq_ok] at h
    obtain ⟨_, hpow, _, ⟨hmatch, rfl⟩, rfl⟩ := h
    exact .inr ⟨not_not.mp hroot, hpow, hmatch, rfl⟩

/-- The shape of an announcement includes its hash. -/
theorem expectedBlockHash_of_shape
    (h : validateAnnouncementShape clock announcement chainId = .ok ()) :
    expectedBlockHash announcement.header chainId = .ok announcement.blockHash ∧
      announcement.txids.Nodup := by
  simp only [validateAnnouncementShape, validateTxids, checkTxids, bind_eq_ok,
    ensure_eq_ok] at h
  obtain ⟨_, -, _, -, _, -, _, -, _, -, _, ⟨_, -, _, -, hdistinct⟩, expected, hexpected, hhash⟩ := h
  exact ⟨hhash ▸ hexpected, (checkDistinct_eq_ok.mp hdistinct).2⟩

/-! ## Reconstructed blocks are sound -/

/-- The block is the announced one: its header and hash, with a valid proof of work and transactions
with the announced ids, which have the Merkle root of the header. -/
structure IsAnnouncedBlock (announcement : CompactBlockAnnouncementV1) (chainId : Option String)
    (block : Block) : Prop where
  header_eq : block.header = announcement.header
  hash_eq : block.hash = announcement.blockHash
  hash : expectedBlockHash block.header chainId = .ok block.hash
  pow : validateHeaderPow block.header chainId = .ok ()
  txids : block.transactions.map Transaction.txid = announcement.txids
  merkleRoot : computeMerkleRoot block.transactions = block.header.merkleRoot

omit [Crypto] in
/-- Known transactions have the listed ids. -/
theorem map_txid_filterMap (hmatch : IdsMatch known txids)
    (hknown : (txids.filter fun txid => known[txid]?.isNone) = []) :
    (txids.filterMap fun txid => known[txid]?).map Transaction.txid = txids := by
  induction txids with
  | nil => rfl
  | cons txid rest ih =>
    obtain ⟨hfirst, hrest⟩ := forall_mem_cons.mp hmatch
    rw [filter_cons] at hknown
    cases hfound : known[txid]? with
    | none =>
      rw [hfound] at hknown
      cases hknown
    | some transaction =>
      rw [hfound] at hknown
      rw [filterMap_cons, hfound, map_cons, hfirst transaction hfound, ih hrest hknown]

/-- A plan completes to the announced block. -/
theorem isAnnouncedBlock_of_plan {block : Block}
    (h : planCompactBlockReconstruction clock announcement known chainId = .ok (.complete block)) :
    IsAnnouncedBlock announcement chainId block := by
  obtain ⟨hshape, hfallback | ⟨hroot, hpow, hmatch, hplan⟩⟩ :=
    planCompactBlockReconstruction_eq_ok h
  · cases hfallback
  · unfold planForMissing at hplan
    split at hplan
    · cases hplan
    split at hplan
    · cases hplan
    · rename_i hcomplete
      obtain rfl := CompactBlockReconstructionPlanV1.complete.inj hplan
      have htxids := map_txid_filterMap hmatch (not_not.mp hcomplete)
      refine ⟨rfl, rfl, (expectedBlockHash_of_shape hshape).1, hpow, htxids, ?_⟩
      rw [computeMerkleRoot, htxids]
      exact hroot

/-- Whatever the announcement, the known transactions and the response, at every time, a block that
planning or completing puts together is the announced one. -/
theorem reconstructed_block_sound (clock again : Clock) (announcement : CompactBlockAnnouncementV1)
    (chainId : Option String) (block : Block) :
    (∀ known, planCompactBlockReconstruction clock announcement known chainId =
      .ok (.complete block) → IsAnnouncedBlock announcement chainId block) ∧
    ∀ state response,
      completeCompactBlockReconstruction clock again announcement state response chainId =
        .ok (.complete block) → IsAnnouncedBlock announcement chainId block := by
  refine ⟨fun known h => isAnnouncedBlock_of_plan h, fun state response h => ?_⟩
  simp only [completeCompactBlockReconstruction, bind_eq_ok] at h
  obtain ⟨_, -, _, -, _, -, _, -, _, -, _, -, _, -, hplan⟩ := h
  exact isAnnouncedBlock_of_plan hplan

/-! ## Announcements of a holder of the block -/

/-- The entries of the map for the ids of the block are the transactions of the block. -/
def AgreesWith (block : Block) (known : TreeMap Hash Transaction) : Prop :=
  ∀ transaction ∈ block.transactions, ∀ found,
    known[transaction.txid]? = some found → found = transaction

/-- The map has all transactions of the block. -/
def Covers (block : Block) (known : TreeMap Hash Transaction) : Prop :=
  ∀ transaction ∈ block.transactions, known[transaction.txid]? = some transaction

section

variable {block : Block}

section

omit [Crypto]

/-- What covers a block agrees with it. -/
theorem Covers.agreesWith (h : Covers block known) : AgreesWith block known :=
  fun transaction hmem _ hfound => Option.some.inj (hfound.symm.trans (h transaction hmem))

/-- What agrees with a block has its ids. -/
theorem AgreesWith.idsMatch (h : AgreesWith block known) :
    IdsMatch known (block.transactions.map Transaction.txid) := by
  intro txid htxid found hfound
  obtain ⟨transaction, hmem, rfl⟩ := mem_map.mp htxid
  rw [h transaction hmem found hfound]

/-- What has all its ids covers it. -/
theorem AgreesWith.covers (h : AgreesWith block known)
    (hmem : ∀ txid ∈ block.transactions.map Transaction.txid, txid ∈ known) :
    Covers block known := by
  intro transaction htransaction
  obtain ⟨found, hfound⟩ := (TreeMap.mem_iff known _).mp
    (hmem transaction.txid (mem_map_of_mem htransaction))
  rw [hfound, h transaction htransaction found hfound]

/-- Looking up the ids gives the transactions. -/
theorem Covers.filterMap (h : Covers block known) :
    ((block.transactions.map Transaction.txid).filterMap fun txid => known[txid]?) =
      block.transactions := by
  rw [filterMap_map]
  exact (filterMap_congr fun transaction hmem => h transaction hmem).trans filterMap_some

end

/-- The announcement of a block. -/
structure Announces (announcement : CompactBlockAnnouncementV1) (block : Block)
    (chainId : Option String) : Prop where
  eq : announcement = ⟨compactDagRelayVersionV1, block.hash, block.header,
    block.transactions.map Transaction.txid⟩
  merkleRoot : computeMerkleRootFromTxids announcement.txids = announcement.header.merkleRoot
  pow : validateHeaderPow announcement.header chainId = .ok ()
  nodup : announcement.txids.Nodup
  /-- Only the time of the receiver can make it refuse the shape. -/
  shape : ∀ clock, validateAnnouncementShape clock announcement chainId =
    ensure (announcement.header.timestamp ≤ clock.latest)
      (.headerTimestampTooFarInFuture announcement.header.timestamp clock.latest)

variable {sender : Clock} {available : TreeMap Hash Transaction}
  {response : CompactTransactionResponseV1} {state : CompactBlockReconstructionRequestStateV1}

/-- The shape of an announcement depends on the clock in one check. -/
theorem validateAnnouncementShape_clock
    (h : validateAnnouncementShape sender announcement chainId = .ok ()) (clock : Clock) :
    validateAnnouncementShape clock announcement chainId =
      ensure (announcement.header.timestamp ≤ clock.latest)
        (.headerTimestampTooFarInFuture announcement.header.timestamp clock.latest) := by
  simp only [validateAnnouncementShape, bind_eq_ok] at h
  obtain ⟨_, hversion, _, hheader, _, hparents, _, htimestamp, _, -, _, htxids, expected, hexpected,
    hhash⟩ := h
  rw [validateAnnouncementShape]
  simp only [hversion, hheader, hparents, htimestamp, htxids, hexpected, hhash, ok_bind]
  unfold ensure
  split <;> rfl

/-- A built announcement announces the block. -/
theorem announces_of_build
    (h : buildCompactBlockAnnouncement sender block chainId = .ok announcement) :
    Announces announcement block chainId := by
  simp only [buildCompactBlockAnnouncement, validateAnnouncement, bind_eq_ok, ensure_eq_ok,
    pure_eq_ok, Except.ok.injEq] at h
  obtain ⟨_, -, _, hroot, _, ⟨_, hshape, hpow⟩, rfl⟩ := h
  exact ⟨rfl, hroot, hpow, (expectedBlockHash_of_shape hshape).2,
    validateAnnouncementShape_clock hshape⟩

/-- The receiver has the block, asks for the full block, or finds its timestamp too far in the
future. -/
def Resolves (clock : Clock) (block : Block)
    (result : Except CompactRelayErrorV1 CompactBlockReconstructionPlanV1) : Prop :=
  result = .ok (.complete block) ∨
    (∃ reason, result = .ok (.fullBlockFallback block.hash reason)) ∨
    clock.latest < block.header.timestamp ∧
      result = .error (.headerTimestampTooFarInFuture block.header.timestamp clock.latest)

/-- What a receiver plans that knows no other transaction under an id of the block. -/
theorem Announces.plan (h : Announces announcement block chainId) (hknown : AgreesWith block known)
    (clock : Clock) :
    (clock.latest < block.header.timestamp ∧
      planCompactBlockReconstruction clock announcement known chainId =
        .error (.headerTimestampTooFarInFuture block.header.timestamp clock.latest)) ∨
    block.header.timestamp ≤ clock.latest ∧
      planCompactBlockReconstruction clock announcement known chainId =
        .ok (planForMissing announcement known (announcement.missing known)) := by
  obtain ⟨rfl, hroot, hpow, -, hshape⟩ := h
  rw [planCompactBlockReconstruction, hshape]
  by_cases htime : block.header.timestamp ≤ clock.latest
  · refine .inr ⟨htime, ?_⟩
    rw [ensure_pos htime, ok_bind, if_neg (not_not.mpr hroot), hpow, ok_bind,
      missingKnownTransactionIds_eq_ok.mpr ⟨hknown.idsMatch, rfl⟩]
    rfl
  · refine .inl ⟨UInt64.not_le.mp htime, ?_⟩
    rw [ensure_neg htime]
    rfl

/-- With all transactions known the plan is the block itself. -/
theorem Announces.plan_of_covers (h : Announces announcement block chainId)
    (hcovers : Covers block known) (clock : Clock) :
    Resolves clock block (planCompactBlockReconstruction clock announcement known chainId) := by
  rcases h.plan hcovers.agreesWith clock with hlate | ⟨-, hplan⟩
  · exact .inr (.inr hlate)
  · refine .inl (hplan.trans ?_)
    have hmissing : announcement.missing known = [] := by
      refine filter_eq_nil_iff.mpr fun txid htxid => ?_
      rw [h.eq] at htxid
      obtain ⟨transaction, hmem, rfl⟩ := mem_map.mp htxid
      rw [hcovers transaction hmem]
      exact Bool.false_ne_true
    rw [hmissing, planForMissing_nil, h.eq, hcovers.filterMap]

/-! ## Completing a request -/

section

omit [Crypto]

/-- The state of a request: it asks for what is missing and keeps the rest. -/
theorem planForMissing_eq_request {missing : List Hash}
    (h : planForMissing announcement known missing = .requestTransactions state) :
    state = { request := ⟨compactDagRelayVersionV1, announcement.blockHash, missing⟩
              knownTransactions := insertAll ∅ (announcement.txids.filterMap fun txid =>
                known[txid]?.map fun found => (txid, found)) } := by
  unfold planForMissing at h
  split at h
  · cases h
  split at h
  · exact (CompactBlockReconstructionPlanV1.requestTransactions.inj h).symm
  · cases h

/-- The ids that are retained. -/
theorem map_fst_retained (txids : List Hash) :
    (txids.filterMap fun txid => known[txid]?.map fun found => (txid, found)).map Prod.fst =
      txids.filter fun txid => known[txid]?.isSome := by
  induction txids with
  | nil => rfl
  | cons txid rest ih =>
    rw [filterMap_cons, filter_cons]
    cases known[txid]? with
    | none => exact ih
    | some found => exact congrArg (txid :: ·) ih

/-- The transactions that a request keeps are those known before. -/
theorem getElem?_retained (hnodup : txids.Nodup) {txid : Hash} (htxid : txid ∈ txids) :
    (insertAll (∅ : TreeMap Hash Transaction) (txids.filterMap fun txid =>
      known[txid]?.map fun found => (txid, found)))[txid]? = known[txid]? := by
  cases hfound : known[txid]? with
  | none =>
    rw [getElem?_insertAll_of_notMem, Std.ExtTreeMap.getElem?_empty]
    rw [map_fst_retained, mem_filter, hfound]
    exact fun h => absurd h.2 Bool.false_ne_true
  | some found =>
    apply getElem?_insertAll_of_mem
    · rw [map_fst_retained]
      exact hnodup.filter _
    · exact mem_filterMap.mpr ⟨txid, htxid, by rw [hfound]; rfl⟩

/-- What is collected has the ids asked for. -/
theorem collectTransactions_eq_some {transactions : List Transaction}
    (h : collectTransactions available txids = .ok (some transactions)) :
    List.Forall₂ (fun txid transaction => available[txid]? = some transaction ∧
      transaction.txid = txid) txids transactions := by
  induction txids generalizing transactions with
  | nil =>
    obtain rfl := Option.some.inj (Except.ok.inj h)
    exact .nil
  | cons txid rest ih =>
    rw [collectTransactions] at h
    split at h
    · cases h
    · rename_i transaction hfound
      simp only [bind_eq_ok, ensure_eq_ok, exists_const, pure_eq_ok, Except.ok.injEq,
        Option.map_eq_some_iff] at h
      obtain ⟨htxid, _, hothers, others, rfl, rfl⟩ := h
      exact .cons ⟨hfound, htxid⟩ (ih hothers)

/-- A response to a request carries the transactions asked for, in their order. -/
theorem buildCompactTransactionResponseV1_eq_some
    {encodedLength : CompactTransactionResponseV1 → ℕ} {request : CompactTransactionRequestV1}
    (h : buildCompactTransactionResponseV1 encodedLength request available = .ok (some response)) :
    validateCompactTransactionRequestV1 request = .ok () ∧
      response.version = compactDagRelayVersionV1 ∧ response.blockHash = request.blockHash ∧
      List.Forall₂ (fun txid transaction => available[txid]? = some transaction ∧
        transaction.txid = txid) request.txids response.transactions := by
  simp only [buildCompactTransactionResponseV1, ok_iff, Option.filter_eq_some_iff,
    Option.map_eq_some_iff] at h
  obtain ⟨_, hrequest, _, hcollect, ⟨transactions, rfl, rfl⟩, -⟩ := h
  exact ⟨hrequest, rfl, rfl, collectTransactions_eq_some hcollect⟩

/-- The ids of a response are compared one by one. -/
theorem checkResponseTxids_eq_ok {index : ℕ} {pairs : List (Hash × Transaction)} :
    checkResponseTxids index pairs = .ok () ↔ ∀ pair ∈ pairs, pair.2.txid = pair.1 := by
  induction pairs generalizing index with
  | nil => simp [checkResponseTxids]
  | cons pair rest ih =>
    obtain ⟨expected, transaction⟩ := pair
    rw [checkResponseTxids, seq_eq_ok, ensure_eq_ok, ih, forall_mem_cons]

end

/-- The parts of a successful completion. -/
theorem completeCompactBlockReconstruction_eq {again : Clock}
    (hshape : validateAnnouncementShape clock announcement chainId = .ok ())
    (hrequest : validateCompactTransactionRequestV1 state.request = .ok ())
    (hversion : response.version = compactDagRelayVersionV1)
    (hblock : state.request.blockHash = announcement.blockHash)
    (hresponse : response.blockHash = state.request.blockHash)
    (htxids : List.Forall₂ (fun txid (transaction : Transaction) => transaction.txid = txid)
      state.request.txids response.transactions) :
    completeCompactBlockReconstruction clock again announcement state response chainId =
      planCompactBlockReconstruction again announcement
        (insertAll state.knownTransactions (state.request.txids.zip response.transactions))
        chainId := by
  have hcheck : checkResponseTxids 0 (state.request.txids.zip response.transactions) = .ok () :=
    checkResponseTxids_eq_ok.mpr fun _ hpair => (forall₂_iff_zip.mp htxids).2 hpair
  rw [completeCompactBlockReconstruction, hshape, hrequest, requireVersion, ensure_pos hversion,
    ensure_pos hblock, ensure_pos hresponse, ensure_pos htxids.length_eq.symm, hcheck]
  rfl

/-- The known and the received transactions together are those of the block. -/
theorem Announces.covers_combined (h : Announces announcement block chainId)
    (hknown : AgreesWith block known) (havailable : AgreesWith block available)
    {received : List Transaction}
    (hreceived : List.Forall₂ (fun txid transaction => available[txid]? = some transaction ∧
      transaction.txid = txid) (announcement.missing known) received) :
    Covers block (insertAll (insertAll ∅ (announcement.txids.filterMap fun txid =>
      known[txid]?.map fun found => (txid, found)))
        ((announcement.missing known).zip received)) := by
  have hkeys : ((announcement.missing known).zip received).map Prod.fst =
      announcement.missing known :=
    map_fst_zip hreceived.length_eq.le
  intro transaction htransaction
  have htxid : transaction.txid ∈ announcement.txids := by
    rw [h.eq]
    exact mem_map_of_mem htransaction
  cases hfound : known[transaction.txid]? with
  | some found =>
    have hnotMissing : transaction.txid ∉ announcement.missing known := by
      intro hmissing
      have hnone := (mem_filter.mp hmissing).2
      rw [hfound] at hnone
      cases hnone
    rw [getElem?_insertAll_of_notMem _ (hkeys.symm ▸ hnotMissing), getElem?_retained h.nodup htxid,
      hfound, hknown transaction htransaction found hfound]
  | none =>
    have hmissing : transaction.txid ∈ announcement.missing known :=
      mem_filter.mpr ⟨htxid, by rw [hfound]; rfl⟩
    obtain ⟨⟨txid, answer⟩, hpair, rfl⟩ := mem_map.mp (hkeys.symm ▸ hmissing)
    have hanswer := ((forall₂_iff_zip.mp hreceived).2 hpair).1
    have heq := havailable transaction htransaction answer hanswer
    refine getElem?_insertAll_of_mem _ ?_ (heq ▸ hpair)
    rw [hkeys]
    exact h.nodup.filter _

/-- The exchange that follows an announcement ends with the block or the fallback: at once, or after
the answer to the request, whoever gives it from transactions of the block, and whatever the clock
is both times when it is completed. -/
def ExchangeResolves (receiver : Clock) (announcement : CompactBlockAnnouncementV1) (block : Block)
    (known : TreeMap Hash Transaction) (chainId : Option String) : Prop :=
  Resolves receiver block (planCompactBlockReconstruction receiver announcement known chainId) ∨
    ∃ state, planCompactBlockReconstruction receiver announcement known chainId =
        .ok (.requestTransactions state) ∧
      ∀ encodedLength available response, AgreesWith block available →
        buildCompactTransactionResponseV1 encodedLength state.request available =
        .ok (some response) →
          ∀ later again, ∃ clock ∈ [later, again], Resolves clock block
            (completeCompactBlockReconstruction later again announcement state response chainId)

/-- Announcing a block, planning with any part of its transactions known, answering the request with
transactions of the block and completing gives the block itself or a fallback to the full block. The
only error is a timestamp that the clock of the receiver does not admit yet. -/
theorem compactRelay_reconstructs {sender : Clock}
    (hbuild : buildCompactBlockAnnouncement sender block chainId = .ok announcement)
    (hknown : AgreesWith block known) (receiver : Clock) :
    ExchangeResolves receiver announcement block known chainId := by
  have h := announces_of_build hbuild
  by_cases hall : announcement.missing known = []
  · refine .inl (h.plan_of_covers (hknown.covers fun txid htxid => ?_) receiver)
    by_contra hunknown
    refine filter_eq_nil_iff.mp hall txid (h.eq ▸ htxid) ?_
    rw [Std.ExtTreeMap.getElem?_eq_none hunknown]
    rfl
  rcases h.plan hknown receiver with hlate | ⟨-, hplan⟩
  · exact .inl (.inr (.inr hlate))
  by_cases hfanout : p2pWireMaxRequestItemsV1 < (announcement.missing known).length
  · have hhash : announcement.blockHash = block.hash := by rw [h.eq]
    rw [planForMissing, if_pos hfanout, hhash] at hplan
    exact .inl (.inr (.inl ⟨_, hplan⟩))
  rw [planForMissing, if_neg hfanout, if_pos hall] at hplan
  refine .inr ⟨_, hplan, fun encodedLength available response havailable hresponse later again =>
    ?_⟩
  obtain ⟨hrequest, hversion, hblock, hreceived⟩ :=
    buildCompactTransactionResponseV1_eq_some hresponse
  have hcovers := h.covers_combined hknown havailable hreceived
  by_cases htime : announcement.header.timestamp ≤ later.latest
  · have hshape := (h.shape later).trans (ensure_pos htime)
    rw [completeCompactBlockReconstruction_eq hshape hrequest hversion rfl hblock
      (hreceived.imp fun _ _ hanswer => hanswer.2)]
    exact ⟨again, by simp, h.plan_of_covers hcovers again⟩
  · refine ⟨later, by simp, .inr (.inr ⟨?_, ?_⟩)⟩
    · rw [h.eq] at htime
      exact UInt64.not_le.mp htime
    · rw [completeCompactBlockReconstruction, h.shape, ensure_neg htime, h.eq]
      rfl

end

end

/-- A block with two transactions. -/
def relayBlock [Crypto] : Block :=
  let transactions : List Transaction :=
    [⟨"a", 1, [], [⟨"recipient", 1⟩], 0, 0⟩, ⟨"b", 1, [], [⟨"recipient", 1⟩], 0, 0⟩]
  let header : BlockHeader :=
    { version := blockHeaderVersionV1, parents := ["p"], timestamp := 1, difficulty := 1,
      nonce := 0, merkleRoot := computeMerkleRoot transactions, stateRoot := "s", blueScore := 1,
      height := 1 }
  ⟨computeBlockHash header, header, transactions⟩

/-- The block that a plan has put together. -/
def CompactBlockReconstructionPlanV1.completed : CompactBlockReconstructionPlanV1 → Option Block
  | .complete block => some block
  | _ => none

/-- A plan that has put a block together is complete. -/
theorem eq_ok_complete {result : Except CompactRelayErrorV1 CompactBlockReconstructionPlanV1}
    {block : Block} (h : (result.toOption.bind (·.completed)) = some block) :
    result = .ok (.complete block) := by
  obtain ⟨plan, hplan, hblock⟩ := Option.bind_eq_some_iff.mp h
  rw [eq_ok_of_toOption hplan]
  cases plan with
  | complete found => rw [Option.some.inj hblock]
  | requestTransactions state => cases hblock
  | fullBlockFallback hash reason => cases hblock

/-- A receiver that knows both transactions plans the block, and one that knows the first gets the
second in a response and completes it. -/
theorem reconstructed_block_sound_relayBlock : letI := checksumCrypto
    ∃ announcement known state response,
      planCompactBlockReconstruction ⟨1, 0⟩ announcement known none =
        .ok (.complete relayBlock) ∧
      completeCompactBlockReconstruction ⟨1, 0⟩ ⟨2, 0⟩ announcement state response none =
        .ok (.complete relayBlock) ∧
      IsAnnouncedBlock announcement none relayBlock := by
  let := checksumCrypto
  let known (n : ℕ) : TreeMap Hash Transaction :=
    insertAll ∅ ((relayBlock.transactions.take n).map fun transaction =>
      (transaction.txid, transaction))
  let announcement : CompactBlockAnnouncementV1 :=
    ⟨compactDagRelayVersionV1, relayBlock.hash, relayBlock.header, ["a", "b"]⟩
  let state : CompactBlockReconstructionRequestStateV1 :=
    ⟨⟨compactDagRelayVersionV1, relayBlock.hash, ["b"]⟩, known 1⟩
  let response : CompactTransactionResponseV1 :=
    ⟨compactDagRelayVersionV1, relayBlock.hash, relayBlock.transactions.drop 1⟩
  have hplan : planCompactBlockReconstruction ⟨1, 0⟩ announcement (known 2) none =
      .ok (.complete relayBlock) := eq_ok_complete (by decide +kernel)
  have hcomplete : completeCompactBlockReconstruction ⟨1, 0⟩ ⟨2, 0⟩ announcement state response
      none = .ok (.complete relayBlock) := eq_ok_complete (by decide +kernel)
  have hsound := reconstructed_block_sound ⟨1, 0⟩ ⟨2, 0⟩ announcement none relayBlock
  exact ⟨announcement, known 2, state, response, hplan, hcomplete, hsound.1 _ hplan⟩

/-- A receiver that knows nothing of the block. -/
theorem compactRelay_reconstructs_unknown : letI := checksumCrypto
    ∃ announcement, buildCompactBlockAnnouncement ⟨1, 0⟩ relayBlock none = .ok announcement ∧
      AgreesWith relayBlock ∅ ∧ ExchangeResolves ⟨1, 0⟩ announcement relayBlock ∅ none := by
  let := checksumCrypto
  have hrun : ((buildCompactBlockAnnouncement ⟨1, 0⟩ relayBlock none).toOption.map fun _ => true) =
      some true := by decide +kernel
  obtain ⟨announcement, hannouncement, -⟩ := Option.map_eq_some_iff.mp hrun
  have hbuild := eq_ok_of_toOption hannouncement
  have hknown : AgreesWith relayBlock ∅ := by
    intro transaction _ found hfound
    rw [Std.ExtTreeMap.getElem?_empty] at hfound
    cases hfound
  exact ⟨announcement, hbuild, hknown, compactRelay_reconstructs hbuild hknown ⟨1, 0⟩⟩

end PulseDag
