import ShardManager.Abstract.Chunks
import ShardManager.ExecutorStore.Undrains

open golang etcd chunk

namespace executorstore

open etcdtypes (Value)

variable {V : Type}

section Size

variable {maxEtcdTxnOps : Int} {ops extraOps : List (Op V)}

theorem one_le_maxOpsPerTxn (maxEtcdTxnOps : Int) (extraOps : List (Op V)) :
    1 ≤ maxOpsPerTxn maxEtcdTxnOps extraOps := by
  unfold maxOpsPerTxn
  dsimp only
  split <;> omega

theorem maxOpsPerTxn_lt (maxEtcdTxnOps : Int) (extraOps : List (Op V)) :
    maxOpsPerTxn maxEtcdTxnOps extraOps < 2 ^ 63 := by
  have hlt := int64_lt (maxEtcdTxnOps - guardOpOverhead - extraOps.length)
  unfold maxOpsPerTxn
  dsimp only
  split <;> omega

/-- The limit is what the overhead leaves, and at least one. -/
theorem maxOpsPerTxn_of_fits (hle : -2 ^ 63 ≤ maxEtcdTxnOps - guardOpOverhead - extraOps.length)
    (hlt : maxEtcdTxnOps < 2 ^ 63) :
    maxOpsPerTxn maxEtcdTxnOps extraOps = max 1 (maxEtcdTxnOps - guardOpOverhead - extraOps.length) := by
  have hfits : maxEtcdTxnOps - guardOpOverhead - extraOps.length < 2 ^ 63 := by
    unfold guardOpOverhead
    omega
  unfold maxOpsPerTxn
  rw [int64_of_fits hle hfits]
  dsimp only
  split <;> omega

theorem numBatches_eq (hpos : 0 < ops.length)
    (hsum : ops.length + maxOpsPerTxn maxEtcdTxnOps extraOps ≤ 2 ^ 63) :
    numBatches maxEtcdTxnOps ops extraOps =
      (ops.length + maxOpsPerTxn maxEtcdTxnOps extraOps - 1) / maxOpsPerTxn maxEtcdTxnOps extraOps := by
  have hone := one_le_maxOpsPerTxn maxEtcdTxnOps extraOps
  unfold numBatches
  dsimp only
  rw [int64_of_fits (by omega) (by omega), Int.tdiv_eq_ediv_of_nonneg (by omega)]

/-- Without an overflow the batches are of about equal size within the limit. -/
theorem batchSize_eq (hpos : 0 < ops.length) (hlength : ops.length < 2 ^ 62)
    (hsum : ops.length + maxOpsPerTxn maxEtcdTxnOps extraOps ≤ 2 ^ 63) :
    batchSize maxEtcdTxnOps ops extraOps =
      some ((evenSize ops.length (maxOpsPerTxn maxEtcdTxnOps extraOps)).toNat : Int) := by
  have hone := one_le_maxOpsPerTxn maxEtcdTxnOps extraOps
  have hbatches := numBatches_eq hpos hsum
  have hn : 0 < (ops.length : Int) := by omega
  have hlimit : 0 < maxOpsPerTxn maxEtcdTxnOps extraOps := by omega
  have hbatchesPos := ceil_pos hn hlimit
  have hbatchesLe : (ops.length + maxOpsPerTxn maxEtcdTxnOps extraOps - 1) / maxOpsPerTxn maxEtcdTxnOps extraOps ≤
      ops.length := ceil_le hlimit (by simpa using Int.mul_le_mul_of_nonneg_left hone hn.le)
  rw [Int.toNat_of_nonneg (evenSize_pos hn hlimit).le]
  unfold batchSize evenSize
  dsimp only
  rw [hbatches, if_neg (by omega), int64_of_fits (by omega) (by omega), Int.tdiv_eq_ediv_of_nonneg (by omega)]

theorem toNat_evenSize_pos (hpos : 0 < ops.length) :
    0 < (evenSize ops.length (maxOpsPerTxn maxEtcdTxnOps extraOps)).toNat := by
  have hone := one_le_maxOpsPerTxn maxEtcdTxnOps extraOps
  have := evenSize_pos (by omega : 0 < (ops.length : Int)) (by omega : 0 < maxOpsPerTxn maxEtcdTxnOps extraOps)
  omega

/-- An overflow in the number of batches makes it zero or negative. -/
theorem batchSize_eq_none (hlength : ops.length < 2 ^ 62)
    (hsum : 2 ^ 63 < ops.length + maxOpsPerTxn maxEtcdTxnOps extraOps) :
    batchSize maxEtcdTxnOps ops extraOps = none := by
  have hone := one_le_maxOpsPerTxn maxEtcdTxnOps extraOps
  have hlt := maxOpsPerTxn_lt maxEtcdTxnOps extraOps
  have hbatches : numBatches maxEtcdTxnOps ops extraOps ≤ 0 := by
    unfold numBatches
    dsimp only
    have hnonneg : 0 ≤ (2 ^ 64 - (ops.length + maxOpsPerTxn maxEtcdTxnOps extraOps - 1)).tdiv
        (maxOpsPerTxn maxEtcdTxnOps extraOps) := Int.tdiv_nonneg (by omega) (by omega)
    rw [int64_of_overflow (by omega) (by omega), ← Int.neg_sub, Int.neg_tdiv]
    exact Int.neg_nonpos_of_nonneg hnonneg
  unfold batchSize
  dsimp only
  rw [if_pos hbatches]

end Size

section Model

variable [DecidableEq V]

/-- What an iteration meets: what the guard returns, what becomes of the
commit, and the store that the transaction finds after whatever others did. -/
structure Turn (V : Type) where
  guard : Guarded V
  fate : Fate
  store : Store V

/-- An iteration that was made: its transaction, unless the guard returned
none, and the store before and after. -/
structure Iteration (V : Type) where
  txn : Option (Txn V)
  before : Store V
  after : Store V

namespace CommitOps

/-- The guard is called for every batch anew. -/
def meet (call : CommitOps V) (turn : Turn V) : CommitOps V := { call with guard := turn.guard }

/-- The transaction of the next iteration. -/
def nextTxn (call : CommitOps V) : Option (Txn V) :=
  match call.guard with
  | .txn cmps => call.batch.map (call.batchTxn cmps)
  | _ => none

end CommitOps

/-- The iterations of the loop, each at its turn, and how the call stands after
them. -/
def iterate : Progress V → List (Turn V) → List (Iteration V) × Progress V
  | .returned result, _ => ([], .returned result)
  | .running call, [] => ([], .running call)
  | .running call, turn :: turns =>
    let call := call.meet turn
    let (progress, after) := call.commitBatch turn.fate turn.store
    let (iterations, last) := iterate progress turns
    (⟨call.nextTxn, turn.store, after⟩ :: iterations, last)

/-- The iterations of the loop with nobody else around. -/
def finish : Progress V → List Fate → Store V → Progress V × Store V
  | .returned result, _, s => (.returned result, s)
  | .running call, [], s => (.running call, s)
  | .running call, fate :: fates, s =>
    let (progress, s) := call.commitBatch fate s
    finish progress fates s

namespace Turn

/-- The transaction that is sent with the operations. -/
def txn (turn : Turn V) (ops : List (Op V)) : Option (Txn V) :=
  match turn.guard with
  | .txn cmps => some (.flat cmps ops [])
  | _ => none

/-- The operations take place and the caller learns of it. -/
def Commits (turn : Turn V) (ops : List (Op V)) : Prop :=
  ∃ cmps, turn.guard = .txn cmps ∧ turn.fate = .delivered ∧ (Txn.flat cmps ops []).accepted = true ∧
    cmpsHold turn.store cmps = true

/-- The iteration in which the operations take place. -/
def applied (turn : Turn V) (ops : List (Op V)) : Iteration V where
  txn := turn.txn ops
  before := turn.store
  after := ((turn.txn ops).map fun txn => txn.next turn.store).getD turn.store

end Turn

/-- The batches of a call, whatever its iterations meet. -/
structure Batched (maxEtcdTxnOps : Int) (ops extraOps : List (Op V)) (batches : List (List (Op V))) : Prop where
  flatten : batches.flatten = ops
  nonempty : ∀ batch ∈ batches, batch ≠ []
  limit : ∀ batch ∈ batches, (batch.length : Int) ≤ max 1 (maxEtcdTxnOps - guardOpOverhead - extraOps.length)
  /-- The call ends, after at most one iteration for each batch. -/
  terminates : ∀ guard turns, batches.length ≤ turns.length →
    ∃ result, (iterate (commitOps maxEtcdTxnOps ops guard extraOps) turns).2 = .returned result ∧
      result ≠ .error .panic
  /-- If every batch commits, the call has sent one after the other and returns
  the responses to its own operations, from which the removed IDs are read. -/
  commits : ∀ guard turns, List.Forall₂ (fun batch (turn : Turn V) => turn.Commits (batch ++ extraOps)) batches turns →
    ∃ responses, iterate (commitOps maxEtcdTxnOps ops guard extraOps) turns =
        (List.zipWith (fun batch (turn : Turn V) => turn.applied (batch ++ extraOps)) batches turns,
          .returned (.ok responses)) ∧
      responses.flatMap (·.responses) =
        (List.zipWith (fun batch (turn : Turn V) => responsesTo turn.store batch) batches turns).flatten ∧
      (responses.flatMap (·.responses)).length = ops.length ∧
      ∀ ids : List String, ids.length = ops.length → deletedIDs responses ids = .ok (((ids.zip
        (List.zipWith (fun batch (turn : Turn V) => removals (turn.store.revision + 1) ⟨turn.store.kvs, []⟩ batch)
          batches turns).flatten).filter Prod.snd).map Prod.fst)
  /-- If a batch does not commit, those before it have been sent and applied,
  none after it is sent, and the call returns an error. The batch itself is
  applied only if its response is lost after that. -/
  fails : ∀ guard before batch after turns turn others, batches = before ++ batch :: after →
    List.Forall₂ (fun batch (turn : Turn V) => turn.Commits (batch ++ extraOps)) before turns →
    ¬turn.Commits (batch ++ extraOps) →
    ∃ e left, iterate (commitOps maxEtcdTxnOps ops guard extraOps) (turns ++ turn :: others) =
        (List.zipWith (fun batch (turn : Turn V) => turn.applied (batch ++ extraOps)) before turns ++
          [⟨turn.txn (batch ++ extraOps), turn.store, left⟩], .returned (.error e)) ∧
      e ≠ .panic ∧
      (left = turn.store ∨ turn.fate = .unknown true ∧ left = (turn.applied (batch ++ extraOps)).after)

end Model

namespace CommitOps

/-- The call is about to send the batch that starts at an operation. -/
structure At (call : CommitOps V) (size start : Nat) : Prop where
  batchSize : call.batchSize = size
  i : call.i = start
  size_pos : 0 < size
  start_lt : start < call.ops.length

/-- What the iteration that starts at an operation executes. -/
abbrev opsAt (call : CommitOps V) (size start : Nat) : List (Op V) :=
  (call.ops.drop start).take size ++ call.extraOps

variable {call : CommitOps V} {size start : Nat}

theorem At.batch (h : call.At size start) : call.batch = some ((call.ops.drop start).take size) := by
  have hlt := h.start_lt
  unfold CommitOps.batch
  dsimp only
  rw [h.i, h.batchSize, if_pos (by omega), Int.toNat_natCast, List.drop_take, Option.some.injEq,
    List.take_eq_take_iff, List.length_drop]
  omega

theorem At.chunks (h : call.At size start) :
    chunks size (call.ops.drop start) =
      (call.ops.drop start).take size :: chunks size (call.ops.drop (start + size)) := by
  have hne : call.ops.drop start ≠ [] := by
    rw [Ne, List.drop_eq_nil_iff]
    exact Nat.not_le.mpr h.start_lt
  rw [chunks_of_ne_nil h.size_pos hne, List.drop_drop]

theorem At.meet (h : call.At size start) (turn : Turn V) : (call.meet turn).At size start :=
  ⟨h.batchSize, h.i, h.size_pos, h.start_lt⟩

/-- The call after the responses to a batch: the next one starts behind it. -/
def next (call : CommitOps V) (s : Store V) (batch : List (Op V)) : CommitOps V := { call with
  i := call.i + call.batchSize
  responses := call.responses ++ [⟨true, responsesTo s batch⟩] }

/-- The responses to the extra operations are left out. -/
theorem advance_answered (call : CommitOps V) (s : Store V) (batch : List (Op V)) :
    call.advance ⟨true, responsesTo s (batch ++ call.extraOps)⟩ =
      if (call.next s batch).i < call.ops.length then .running (call.next s batch)
      else .returned (.ok (call.next s batch).responses) := by
  have hown : (responsesTo s (batch ++ call.extraOps)).take
      ((responsesTo s (batch ++ call.extraOps)).length - call.extraOps.length) = responsesTo s batch := by
    rw [length_responsesTo, List.length_append, Nat.add_sub_cancel, take_responsesTo]
  unfold CommitOps.advance
  dsimp only
  rw [hown]
  rfl

theorem At.next (h : call.At size start) (hlt : start + size < call.ops.length) (s : Store V) (batch : List (Op V)) :
    (call.next s batch).At size (start + size) := by
  refine ⟨h.batchSize, ?_, h.size_pos, hlt⟩
  change call.i + call.batchSize = _
  rw [h.i, h.batchSize, Int.natCast_add]

variable [DecidableEq V] {turn : Turn V}

/-- An iteration whose transaction fails. -/
theorem At.commitBatch_of_error (h : call.At size start) {cmps : List (Cmp V)} (hguard : call.guard = .txn cmps)
    {fate : Fate} {s s' : Store V} {cause : CommitError}
    (hsend : (Txn.flat cmps (call.opsAt size start) []).send fate s = (.error cause, s')) :
    call.commitBatch fate s = (.returned (.error (.commit cause)), s') := by
  have hbatch : (call.batchTxn cmps ((call.ops.drop start).take size)).send fate s = (.error cause, s') := hsend
  unfold commitBatch
  rw [hguard, h.batch]
  dsimp only
  rw [hbatch]

/-- An iteration whose transaction is answered. -/
theorem At.commitBatch_of_response (h : call.At size start) {cmps : List (Cmp V)} (hguard : call.guard = .txn cmps)
    {fate : Fate} {s s' : Store V} {response : TxnResponse V}
    (hsend : (Txn.flat cmps (call.opsAt size start) []).send fate s = (.ok response, s')) :
    call.commitBatch fate s =
      if response.succeeded then (call.advance response, s') else (.returned (.error .guardFailed), s') := by
  have hbatch : (call.batchTxn cmps ((call.ops.drop start).take size)).send fate s = (.ok response, s') := hsend
  unfold commitBatch
  rw [hguard, h.batch]
  dsimp only
  rw [hbatch]

/-- An iteration whose transaction commits. -/
theorem commitBatch_of_commits (h : call.At size start) (hcommits : turn.Commits (call.opsAt size start)) :
    (call.meet turn).commitBatch turn.fate turn.store =
      ((call.meet turn).advance ⟨true, responsesTo turn.store (call.opsAt size start)⟩,
        (turn.applied (call.opsAt size start)).after) := by
  obtain ⟨cmps, hguard, hfate, haccepted, hholds⟩ := hcommits
  have hmeet : (call.meet turn).guard = .txn cmps := hguard
  have hafter : (turn.applied (call.opsAt size start)).after =
      (Txn.flat cmps (call.opsAt size start) []).next turn.store := by
    rw [Turn.applied, Turn.txn, hguard]
    rfl
  rw [hfate, hafter]
  exact (h.meet turn).commitBatch_of_response hmeet (send_delivered haccepted hholds)

/-- An iteration whose transaction the server does not accept. -/
theorem commitBatch_of_duplicateKey (h : call.At size start) {cmps : List (Cmp V)} (hguard : call.guard = .txn cmps)
    (hrejected : ¬(Txn.flat cmps (call.opsAt size start) []).accepted = true) (fate : Fate) (s : Store V) :
    call.commitBatch fate s = (.returned (.error (.commit .duplicateKey)), s) := by
  refine h.commitBatch_of_error hguard ?_
  rw [Txn.send, Txn.commit, if_neg hrejected]

/-- Conditions that do not hold leave nothing to do. -/
theorem next_of_not_holds {cmps : List (Cmp V)} {ops : List (Op V)} {s : Store V} (h : cmpsHold s cmps = false) :
    (Txn.flat cmps ops []).next s = s := by
  have hevents : ((Txn.flat cmps ops []).draft s).events = [] := by
    rw [Txn.draft, Txn.branch, Txn.flat, h]
    rfl
  rw [Txn.next, if_pos (List.isEmpty_iff.mpr hevents)]

/-- An iteration whose transaction does not commit ends the call. -/
theorem commitBatch_of_not_commits (h : call.At size start) (hcommits : ¬turn.Commits (call.opsAt size start)) :
    ∃ e left, (call.meet turn).commitBatch turn.fate turn.store = (.returned (.error e), left) ∧ e ≠ .panic ∧
      (left = turn.store ∨ turn.fate = .unknown true ∧ left = (turn.applied (call.opsAt size start)).after) := by
  cases hguard : turn.guard with
  | error message =>
    have hmeet : (call.meet turn).guard = .error message := hguard
    unfold commitBatch
    rw [hmeet]
    exact ⟨_, _, rfl, by simp, .inl rfl⟩
  | invalidTransaction =>
    have hmeet : (call.meet turn).guard = .invalidTransaction := hguard
    unfold commitBatch
    rw [hmeet]
    exact ⟨_, _, rfl, by simp, .inl rfl⟩
  | txn cmps =>
    have hmeet : (call.meet turn).guard = .txn cmps := hguard
    by_cases haccepted : (Txn.flat cmps (call.opsAt size start) []).accepted = true
    swap
    · exact ⟨_, _, commitBatch_of_duplicateKey (h.meet turn) hmeet haccepted turn.fate turn.store, by simp, .inl rfl⟩
    cases hfate : turn.fate with
    | refused =>
      have hsend : (Txn.flat cmps (call.opsAt size start) []).send .refused turn.store =
          (.error .refused, turn.store) := by
        rw [Txn.send, Txn.commit, if_pos haccepted]
      exact ⟨_, _, (h.meet turn).commitBatch_of_error hmeet hsend, by simp, .inl rfl⟩
    | delivered =>
      have hholds : cmpsHold turn.store cmps = false := by
        refine Bool.eq_false_of_not_eq_true fun hholds => ?_
        exact hcommits ⟨cmps, hguard, hfate, haccepted, hholds⟩
      obtain ⟨responses, hsend⟩ : ∃ responses,
          (Txn.flat cmps (call.opsAt size start) []).send .delivered turn.store =
            (.ok ⟨false, responses⟩, turn.store) := by
        have hcmps : cmpsHold turn.store (Txn.flat cmps (call.opsAt size start) []).cmps = false := hholds
        rw [Txn.send, Txn.commit, if_pos haccepted]
        dsimp only
        rw [next_of_not_holds hholds, hcmps]
        exact ⟨_, rfl⟩
      exact ⟨_, _, (h.meet turn).commitBatch_of_response hmeet hsend, by simp, .inl rfl⟩
    | unknown applied =>
      have hsend : (Txn.flat cmps (call.opsAt size start) []).send (.unknown applied) turn.store = (.error .unknown,
          if applied then (Txn.flat cmps (call.opsAt size start) []).next turn.store else turn.store) := by
        rw [Txn.send, Txn.commit, if_pos haccepted]
      refine ⟨_, _, (h.meet turn).commitBatch_of_error hmeet hsend, by simp, ?_⟩
      cases applied with
      | false => exact .inl rfl
      | true =>
        refine .inr ⟨rfl, ?_⟩
        rw [Turn.applied, Turn.txn, hguard]
        rfl

end CommitOps

section Run

variable [DecidableEq V] {call : CommitOps V} {size start : Nat}

omit [DecidableEq V] in
/-- The transaction of the iteration that starts at an operation. -/
theorem CommitOps.At.nextTxn (h : call.At size start) (turn : Turn V) :
    (call.meet turn).nextTxn = turn.txn (call.opsAt size start) := by
  have hbatch : (call.meet turn).batch = some ((call.ops.drop start).take size) := (h.meet turn).batch
  have hguard : (call.meet turn).guard = turn.guard := rfl
  unfold CommitOps.nextTxn Turn.txn
  rw [hguard]
  cases turn.guard with
  | txn cmps =>
    dsimp only
    rw [hbatch]
    rfl
  | _ => rfl

/-- One iteration and what follows from there. -/
theorem iterate_cons (h : call.At size start) (turn : Turn V) (turns : List (Turn V)) {progress : Progress V}
    {after : Store V} (hcommit : (call.meet turn).commitBatch turn.fate turn.store = (progress, after)) :
    iterate (.running call) (turn :: turns) =
      (⟨turn.txn (call.opsAt size start), turn.store, after⟩ :: (iterate progress turns).1,
        (iterate progress turns).2) := by
  rw [iterate, hcommit, ← h.nextTxn]

theorem iterate_returned (result : Except CommitOpsError (List (TxnResponse V))) (turns : List (Turn V)) :
    iterate (.returned result) turns = ([], .returned result) := by
  cases turns <;> rfl

/-- A batch that commits leads to the next one, if there is one. -/
theorem commitBatch_goesOn (h : call.At size start) {turn : Turn V} (hcommits : turn.Commits (call.opsAt size start)) :
    ∃ progress, (call.meet turn).commitBatch turn.fate turn.store =
        (progress, (turn.applied (call.opsAt size start)).after) ∧
      ((call.ops.drop (start + size) = [] ∧ progress = .returned (.ok
          (call.responses ++ [⟨true, responsesTo turn.store ((call.ops.drop start).take size)⟩]))) ∨
        ∃ call', progress = .running call' ∧ call'.At size (start + size) ∧ call'.ops = call.ops ∧
          call'.extraOps = call.extraOps ∧ call'.guard = turn.guard ∧ call'.responses =
            call.responses ++ [⟨true, responsesTo turn.store ((call.ops.drop start).take size)⟩]) := by
  refine ⟨_, CommitOps.commitBatch_of_commits h hcommits, ?_⟩
  have hadvance := CommitOps.advance_answered (call.meet turn) turn.store ((call.ops.drop start).take size)
  have hi : ((call.meet turn).next turn.store ((call.ops.drop start).take size)).i = start + size := by
    change call.i + call.batchSize = _
    rw [h.i, h.batchSize]
  change (call.meet turn).advance ⟨true, responsesTo turn.store (call.opsAt size start)⟩ = _ at hadvance
  rw [hadvance, hi]
  by_cases hlt : start + size < call.ops.length
  · rw [if_pos (by exact_mod_cast hlt)]
    exact .inr ⟨_, rfl, (h.meet turn).next hlt _ _, rfl, rfl, rfl, rfl⟩
  · rw [if_neg (by exact_mod_cast hlt)]
    exact .inl ⟨List.drop_eq_nil_of_le (Nat.not_lt.mp hlt), rfl⟩

/-- If every batch commits, each is sent and answered in turn. -/
theorem iterate_of_all_commit (h : call.At size start) {turns : List (Turn V)}
    (hcommits : List.Forall₂ (fun batch turn => turn.Commits (batch ++ call.extraOps))
      (chunks size (call.ops.drop start)) turns) :
    iterate (.running call) turns =
      (List.zipWith (fun batch turn => turn.applied (batch ++ call.extraOps)) (chunks size (call.ops.drop start)) turns,
        .returned (.ok (call.responses ++ List.zipWith (fun batch turn => ⟨true, responsesTo turn.store batch⟩)
          (chunks size (call.ops.drop start)) turns))) := by
  induction turns generalizing call start with
  | nil =>
    rw [h.chunks] at hcommits
    cases hcommits
  | cons turn turns ih =>
    rw [h.chunks] at hcommits ⊢
    obtain ⟨hfirst, hrest⟩ := List.forall₂_cons.mp hcommits
    obtain ⟨progress, hcommit, hprogress⟩ := commitBatch_goesOn h hfirst
    rw [iterate_cons h turn turns hcommit]
    rcases hprogress with ⟨hlast, rfl⟩ | ⟨call', rfl, hnext, hops, hextra, -, hresponses⟩
    · rw [hlast, chunks_nil] at hrest ⊢
      cases hrest
      rfl
    · rw [← hops, ← hextra] at hrest
      rw [ih hnext hrest, hops, hextra, hresponses, List.append_assoc]
      rfl

/-- The first batch that does not commit ends the call. -/
theorem iterate_of_first_failure (h : call.At size start) {before after : List (List (Op V))} {batch : List (Op V)}
    {turns others : List (Turn V)} {turn : Turn V}
    (hbatches : chunks size (call.ops.drop start) = before ++ batch :: after)
    (hcommits : List.Forall₂ (fun batch turn => turn.Commits (batch ++ call.extraOps)) before turns)
    (hfails : ¬turn.Commits (batch ++ call.extraOps)) :
    ∃ e left, iterate (.running call) (turns ++ turn :: others) =
        (List.zipWith (fun batch turn => turn.applied (batch ++ call.extraOps)) before turns ++
          [⟨turn.txn (batch ++ call.extraOps), turn.store, left⟩], .returned (.error e)) ∧
      e ≠ .panic ∧
      (left = turn.store ∨ turn.fate = .unknown true ∧ left = (turn.applied (batch ++ call.extraOps)).after) := by
  induction turns generalizing call start before with
  | nil =>
    obtain rfl := List.forall₂_nil_right_iff.mp hcommits
    rw [h.chunks, List.nil_append, List.cons.injEq] at hbatches
    obtain ⟨rfl, -⟩ := hbatches
    obtain ⟨e, left, hcommit, hpanic, hleft⟩ := CommitOps.commitBatch_of_not_commits h hfails
    refine ⟨e, left, ?_, hpanic, hleft⟩
    rw [List.nil_append, iterate_cons h turn others hcommit, iterate_returned]
    rfl
  | cons first turns ih =>
    obtain ⟨batch', before', hfirst, hrest, rfl⟩ := List.forall₂_cons_right_iff.mp hcommits
    rw [h.chunks, List.cons_append, List.cons.injEq] at hbatches
    obtain ⟨rfl, hbatches⟩ := hbatches
    obtain ⟨progress, hcommit, ⟨hlast, -⟩ | ⟨call', rfl, hnext, hops, hextra, -⟩⟩ := commitBatch_goesOn h hfirst
    · rw [hlast, chunks_nil] at hbatches
      exact absurd hbatches.symm (by simp)
    · rw [← hops] at hbatches
      rw [← hextra] at hrest hfails
      obtain ⟨e, left, hothers, hpanic, hleft⟩ := ih hnext hbatches hrest hfails
      rw [hextra] at hothers hleft
      refine ⟨e, left, ?_, hpanic, hleft⟩
      rw [List.cons_append, iterate_cons h first _ hcommit, hothers]
      rfl

/-- With as many turns as batches the call ends. -/
theorem iterate_returns (h : call.At size start) {turns : List (Turn V)}
    (hlength : (chunks size (call.ops.drop start)).length ≤ turns.length) :
    ∃ result, (iterate (.running call) turns).2 = .returned result ∧ result ≠ .error .panic := by
  induction turns generalizing call start with
  | nil =>
    rw [h.chunks] at hlength
    simp at hlength
  | cons turn turns ih =>
    rw [h.chunks, List.length_cons, List.length_cons] at hlength
    by_cases hcommits : turn.Commits (call.opsAt size start)
    · obtain ⟨progress, hcommit, hprogress⟩ := commitBatch_goesOn h hcommits
      rw [iterate_cons h turn turns hcommit]
      rcases hprogress with ⟨-, rfl⟩ | ⟨call', rfl, hnext, hops, -⟩
      · rw [iterate_returned]
        exact ⟨_, rfl, by simp⟩
      · exact ih hnext (by rw [hops]; omega)
    · obtain ⟨e, left, hcommit, hpanic, -⟩ := CommitOps.commitBatch_of_not_commits h hcommits
      rw [iterate_cons h turn turns hcommit, iterate_returned]
      exact ⟨_, rfl, by simpa using hpanic⟩

/-- Every transaction of a run is that of one of the batches. -/
theorem txn_of_mem_iterate (h : call.At size start) {turns : List (Turn V)} {iteration : Iteration V}
    (hmem : iteration ∈ (iterate (.running call) turns).1) :
    ∃ batch ∈ chunks size (call.ops.drop start), ∃ turn : Turn V,
      iteration.txn = turn.txn (batch ++ call.extraOps) := by
  induction turns generalizing call start with
  | nil => cases hmem
  | cons turn turns ih =>
    rw [h.chunks]
    have hhead : ∀ {progress after}, (call.meet turn).commitBatch turn.fate turn.store = (progress, after) →
        iteration ∈ (iterate progress turns).1 ∨
          iteration.txn = turn.txn (call.opsAt size start) := by
      intro progress after hcommit
      rw [iterate_cons h turn turns hcommit] at hmem
      rcases List.mem_cons.mp hmem with rfl | hlater
      · exact .inr rfl
      · exact .inl hlater
    by_cases hcommits : turn.Commits (call.opsAt size start)
    · obtain ⟨progress, hcommit, hprogress⟩ := commitBatch_goesOn h hcommits
      rcases hhead hcommit with hlater | hfirst
      · rcases hprogress with ⟨-, rfl⟩ | ⟨call', rfl, hnext, hops, hextra, -⟩
        · rw [iterate_returned] at hlater
          cases hlater
        · obtain ⟨batch, hbatch, turn', htxn⟩ := ih hnext hlater
          rw [hops] at hbatch
          rw [hextra] at htxn
          exact ⟨batch, List.mem_cons_of_mem _ hbatch, turn', htxn⟩
      · exact ⟨_, List.mem_cons_self, turn, hfirst⟩
    · obtain ⟨e, left, hcommit, -⟩ := CommitOps.commitBatch_of_not_commits h hcommits
      rcases hhead hcommit with hlater | hfirst
      · rw [iterate_returned] at hlater
        cases hlater
      · exact ⟨_, List.mem_cons_self, turn, hfirst⟩

/-- The store after unconditional batches have been applied. -/
def applyBatches (extraOps : List (Op V)) (batches : List (List (Op V))) (s : Store V) : Store V :=
  batches.foldl (fun s batch => (Txn.flat [] (batch ++ extraOps) []).next s) s

theorem finish_returned (result : Except CommitOpsError (List (TxnResponse V))) (fates : List Fate) (s : Store V) :
    finish (.returned result) fates s = (.returned result, s) := by
  cases fates <;> rfl

/-- The turn of a batch that nothing stops. -/
def undisturbed (s : Store V) : Turn V := ⟨.txn [], .delivered, s⟩

theorem commits_undisturbed_iff {s : Store V} {ops : List (Op V)} :
    (undisturbed s).Commits ops ↔ (Txn.flat [] ops []).accepted = true := by
  constructor
  · rintro ⟨cmps, hguard, -, haccepted, -⟩
    cases hguard
    exact haccepted
  · intro haccepted
    exact ⟨[], rfl, rfl, haccepted, rfl⟩

theorem finish_cons (hguard : call.guard = .txn []) (n : Nat) (s : Store V) :
    finish (.running call) (List.replicate (n + 1) .delivered) s =
      finish ((call.meet (undisturbed s)).commitBatch .delivered s).1 (List.replicate n .delivered)
        ((call.meet (undisturbed s)).commitBatch .delivered s).2 := by
  have hmeet : call.meet (undisturbed s) = call := by
    rw [CommitOps.meet, undisturbed, ← hguard]
  rw [hmeet, List.replicate_succ, finish]

/-- With every commit delivered a call that has no conditions succeeds exactly
if the server accepts every batch. -/
theorem finish_delivered (h : call.At size start) (hguard : call.guard = .txn []) {n : Nat}
    (hlength : (chunks size (call.ops.drop start)).length ≤ n) (s : Store V) :
    (∀ batch ∈ chunks size (call.ops.drop start), (Txn.flat [] (batch ++ call.extraOps) []).accepted = true) ∧
      (∃ responses, finish (.running call) (List.replicate n .delivered) s =
        (.returned (.ok responses), applyBatches call.extraOps (chunks size (call.ops.drop start)) s)) ∨
    (¬∀ batch ∈ chunks size (call.ops.drop start), (Txn.flat [] (batch ++ call.extraOps) []).accepted = true) ∧
      ∃ e, (finish (.running call) (List.replicate n .delivered) s).1 = .returned (.error e) := by
  induction n generalizing call start s with
  | zero =>
    rw [h.chunks] at hlength
    cases hlength
  | succ n ih =>
    rw [h.chunks, List.length_cons] at hlength
    rw [h.chunks, finish_cons hguard, List.forall_mem_cons]
    by_cases haccepted : (Txn.flat [] (call.opsAt size start) []).accepted = true
    · obtain ⟨progress, hcommit, hprogress⟩ := commitBatch_goesOn h (commits_undisturbed_iff.mpr haccepted)
      have hcommit' : (call.meet (undisturbed s)).commitBatch .delivered s = _ := hcommit
      rw [hcommit']
      rcases hprogress with ⟨hlast, rfl⟩ | ⟨call', rfl, hnext, hops, hextra, hguard', -⟩
      · rw [hlast, chunks_nil, finish_returned]
        exact .inl ⟨⟨haccepted, List.forall_mem_nil _⟩, _, rfl⟩
      · have hrest := ih hnext hguard' (by rw [hops]; omega)
          ((undisturbed s).applied (call.opsAt size start)).after
        rw [hops, hextra] at hrest
        rcases hrest with ⟨hall, hfinish⟩ | ⟨hall, hfinish⟩
        · exact .inl ⟨⟨haccepted, hall⟩, hfinish⟩
        · exact .inr ⟨fun h => hall h.2, hfinish⟩
    · obtain ⟨e, left, hcommit, -⟩ :=
        CommitOps.commitBatch_of_not_commits h (fun h => haccepted (commits_undisturbed_iff.mp h))
      have hcommit' : (call.meet (undisturbed s)).commitBatch .delivered s = _ := hcommit
      rw [hcommit', finish_returned]
      exact .inr ⟨fun h => haccepted h.1, e, rfl⟩

end Run

section WholeCall

variable [DecidableEq V] {maxEtcdTxnOps : Int} {ops extraOps : List (Op V)}

omit [DecidableEq V] in
/-- A call that has something to commit is about to send its first batch. -/
theorem commitOps_at (guard : Guarded V) (hpos : 0 < ops.length) {size : Nat} (hsize : 0 < size)
    (hbatchSize : batchSize maxEtcdTxnOps ops extraOps = some (size : Int)) :
    ∃ call, commitOps maxEtcdTxnOps ops guard extraOps = .running call ∧ call.At size 0 ∧ call.ops = ops ∧
      call.extraOps = extraOps ∧ call.guard = guard ∧ call.responses = [] := by
  refine ⟨⟨ops, extraOps, guard, size, 0, []⟩, ?_, ⟨rfl, rfl, hsize, hpos⟩, rfl, rfl, rfl, rfl⟩
  rw [commitOps, if_neg (List.length_pos_iff.mp hpos), hbatchSize]

omit [DecidableEq V] in
theorem commitOps_panics (guard : Guarded V) (hpos : 0 < ops.length)
    (hbatchSize : batchSize maxEtcdTxnOps ops extraOps = none) :
    commitOps maxEtcdTxnOps ops guard extraOps = .returned (.error .panic) := by
  rw [commitOps, if_neg (List.length_pos_iff.mp hpos), hbatchSize]

omit [DecidableEq V] in
theorem flatMap_responses (batches : List (List (Op V))) (turns : List (Turn V)) :
    (List.zipWith (fun batch turn => (⟨true, responsesTo turn.store batch⟩ : TxnResponse V)) batches turns).flatMap
        (·.responses) =
      (List.zipWith (fun batch turn => responsesTo turn.store batch) batches turns).flatten := by
  rw [List.flatMap_def, List.map_zipWith]

omit [DecidableEq V] in
theorem length_flatten_responsesTo {batches : List (List (Op V))} {turns : List (Turn V)}
    (hlength : batches.length = turns.length) :
    (List.zipWith (fun batch turn => responsesTo turn.store batch) batches turns).flatten.length =
      batches.flatten.length := by
  induction batches generalizing turns with
  | nil => rfl
  | cons batch batches ih =>
    cases turns with
    | nil => cases hlength
    | cons turn turns =>
      rw [List.zipWith_cons_cons, List.flatten_cons, List.flatten_cons, List.length_append, List.length_append,
        length_responsesTo, ih (Nat.succ.inj hlength)]

omit [DecidableEq V] in
/-- The responses that a call returns tell by position which operations removed
a key. -/
theorem deletedIDs_of_zipWith {batches : List (List (Op V))} {turns : List (Turn V)} {ids : List String}
    (hlength : batches.length = turns.length) (hids : ids.length = batches.flatten.length) :
    deletedIDs (List.zipWith (fun batch turn => (⟨true, responsesTo turn.store batch⟩ : TxnResponse V)) batches turns)
        ids =
      .ok (((ids.zip (List.zipWith
        (fun batch turn => removals (turn.store.revision + 1) ⟨turn.store.kvs, []⟩ batch)
          batches turns).flatten).filter Prod.snd).map Prod.fst) := by
  have hflags : ((List.zipWith (fun batch turn => responsesTo turn.store batch) batches turns).flatten.map
      Response.removes) = (List.zipWith (fun batch turn => removals (turn.store.revision + 1) ⟨turn.store.kvs, []⟩ batch)
        batches turns).flatten := by
    simp only [List.map_flatten, List.map_zipWith, removes_responsesTo]
  rw [deletedIDs_eq, flatMap_responses, removedOf_eq, hflags]
  rw [flatMap_responses, length_flatten_responsesTo hlength, hids]

/-- A call with a batch size goes by its batches. -/
theorem batched_of_batchSize {size : Nat} (hsize : 0 < size)
    (hbatchSize : ops ≠ [] → batchSize maxEtcdTxnOps ops extraOps = some (size : Int))
    (hlimit : ∀ batch ∈ chunks size ops,
      (batch.length : Int) ≤ max 1 (maxEtcdTxnOps - guardOpOverhead - extraOps.length)) :
    Batched maxEtcdTxnOps ops extraOps (chunks size ops) := by
  have hpieces := forall_mem_chunks hsize ops
  have hflatten := flatten_chunks hsize ops
  rcases eq_or_ne ops [] with rfl | hne
  · rw [chunks_nil] at hlimit hpieces ⊢
    have hcommitOps : ∀ guard, commitOps maxEtcdTxnOps ([] : List (Op V)) guard extraOps = .returned (.ok []) :=
      fun guard => if_pos rfl
    refine ⟨rfl, fun batch hbatch => (hpieces batch hbatch).1, hlimit, fun guard turns _ => ?_, ?_, ?_⟩
    · rw [hcommitOps, iterate_returned]
      exact ⟨_, rfl, by simp⟩
    · intro guard turns hcommits
      cases hcommits
      rw [hcommitOps]
      refine ⟨[], rfl, rfl, rfl, fun ids hids => ?_⟩
      rw [List.length_eq_zero_iff.mp hids]
      rfl
    · intro guard before batch after turns turn others hbatches
      exact absurd hbatches (by simp)
  · have hpos := List.length_pos_iff.mpr hne
    refine ⟨hflatten, fun batch hbatch => (hpieces batch hbatch).1, hlimit, fun guard turns hlength => ?_, ?_, ?_⟩
    · obtain ⟨call, hcall, hat, hops, -⟩ := commitOps_at guard hpos hsize (hbatchSize hne)
      rw [hcall]
      refine iterate_returns hat ?_
      rwa [hops, List.drop_zero]
    · intro guard turns hcommits
      obtain ⟨call, hcall, hat, hops, hextra, -, hresponses⟩ := commitOps_at guard hpos hsize (hbatchSize hne)
      have hfirst : chunks size (call.ops.drop 0) = chunks size ops := by rw [hops, List.drop_zero]
      rw [← hfirst, ← hextra] at hcommits
      have hiterate := iterate_of_all_commit hat hcommits
      rw [hfirst, hextra, hresponses] at hiterate
      rw [hfirst] at hcommits
      rw [hcall]
      refine ⟨_, hiterate, flatMap_responses _ _, ?_, fun ids hids => ?_⟩
      · rw [List.nil_append, flatMap_responses, length_flatten_responsesTo hcommits.length_eq, hflatten]
      · exact deletedIDs_of_zipWith hcommits.length_eq (by rw [hids, hflatten])
    · intro guard before batch after turns turn others hbatches hcommits hfails
      obtain ⟨call, hcall, hat, hops, hextra, -⟩ := commitOps_at guard hpos hsize (hbatchSize hne)
      have hfirst : chunks size (call.ops.drop 0) = before ++ batch :: after := by rw [hops, List.drop_zero, hbatches]
      rw [← hextra] at hcommits hfails
      rw [hcall, ← hextra]
      exact iterate_of_first_failure hat hfirst hcommits hfails

/-- A panic is no way to end. -/
theorem Batched.sum_le {batches : List (List (Op V))} (h : Batched maxEtcdTxnOps ops extraOps batches)
    (hpos : 0 < ops.length) (hlength : ops.length < 2 ^ 62) :
    ops.length + maxOpsPerTxn maxEtcdTxnOps extraOps ≤ 2 ^ 63 := by
  by_contra hsum
  have hpanics := commitOps_panics .invalidTransaction hpos (batchSize_eq_none hlength (not_le.mp hsum))
  obtain ⟨result, hresult, hne⟩ := h.terminates .invalidTransaction
    (List.replicate batches.length ⟨.invalidTransaction, .refused, .empty⟩) (by simp)
  rw [hpanics, iterate_returned] at hresult
  cases hresult
  exact hne rfl

omit [DecidableEq V] in
theorem flat_inj {cmps : List (Cmp V)} {thens thens' : List (Op V)} (h : Txn.flat cmps thens [] = .flat cmps thens' []) :
    thens = thens' :=
  List.map_injective_iff.mpr (fun _ _ hop => RequestOp.op.inj hop) (Txn.mk.inj h).2.1

/-- The first batch is what the first transaction is sent with. -/
theorem Batched.take_mem {batches : List (List (Op V))} (h : Batched maxEtcdTxnOps ops extraOps batches)
    (hpos : 0 < ops.length) {size : Nat} (hsize : 0 < size)
    (hbatchSize : batchSize maxEtcdTxnOps ops extraOps = some (size : Int)) : ops.take size ∈ batches := by
  cases hbatches : batches with
  | nil =>
    have hflatten := h.flatten
    rw [hbatches] at hflatten
    exact absurd hflatten.symm (List.length_pos_iff.mp hpos)
  | cons batch rest =>
    let turn : Turn V := ⟨.txn [], .refused, .empty⟩
    have hfails : ∀ ops, ¬turn.Commits ops := by
      rintro ops ⟨cmps, -, hfate, -⟩
      cases hfate
    obtain ⟨call, hcall, hat, hops, hextra, -⟩ := commitOps_at (.txn []) hpos hsize hbatchSize
    obtain ⟨e, left, hsent, -⟩ := h.fails (.txn []) [] batch rest [] turn [] hbatches .nil (hfails _)
    obtain ⟨e', left', hcommit, -⟩ := CommitOps.commitBatch_of_not_commits hat (hfails _)
    rw [hcall, List.nil_append, iterate_cons hat turn [] hcommit] at hsent
    have htxn : turn.txn ((call.ops.drop 0).take size ++ call.extraOps) = turn.txn (batch ++ extraOps) :=
      (Iteration.mk.inj (List.cons.inj (Prod.mk.inj hsent).1).1).1
    have hbatch := flat_inj (Option.some.inj htxn)
    rw [hops, hextra, List.drop_zero] at hbatch
    rw [List.append_cancel_right hbatch]
    exact List.mem_cons_self

/-- The batches are as they should be exactly if the limit neither wraps around
nor makes the count of batches wrap around, or there is nothing to divide. The
lists fit into memory, where an operation takes more than two bytes. -/
theorem commitOps_batched_iff (maxEtcdTxnOps : Int) (ops extraOps : List (Op V))
    (hmin : -2 ^ 63 ≤ maxEtcdTxnOps) (hmax : maxEtcdTxnOps < 2 ^ 63) (hops : ops.length < 2 ^ 62)
    (hextraOps : extraOps.length < 2 ^ 62) :
    (∃ batches, Batched maxEtcdTxnOps ops extraOps batches) ↔
      ops.length ≤ 1 ∨ -2 ^ 63 ≤ maxEtcdTxnOps - guardOpOverhead - extraOps.length ∧
        ops.length + (maxEtcdTxnOps - guardOpOverhead - extraOps.length) ≤ 2 ^ 63 := by
  have hlimitLt := maxOpsPerTxn_lt maxEtcdTxnOps extraOps
  constructor
  · rintro ⟨batches, hbatched⟩
    by_contra hoverflow
    obtain ⟨hlength, hoverflow⟩ := not_or.mp hoverflow
    have hsum := hbatched.sum_le (by omega) hops
    by_cases hunderflow : -2 ^ 63 ≤ maxEtcdTxnOps - guardOpOverhead - extraOps.length
    · rw [maxOpsPerTxn_of_fits hunderflow hmax] at hsum
      omega
    · -- The limit has become huge, so that everything is one batch.
      have hlimit : ops.length ≤ maxOpsPerTxn maxEtcdTxnOps extraOps := by
        have hwrapped : int64 (maxEtcdTxnOps - guardOpOverhead - extraOps.length) =
            maxEtcdTxnOps - guardOpOverhead - extraOps.length + 2 ^ 64 := by
          unfold guardOpOverhead at hunderflow ⊢
          exact int64_of_underflow (by omega) (by omega)
        unfold maxOpsPerTxn
        rw [hwrapped]
        unfold guardOpOverhead
        dsimp only
        split <;> omega
      have hone := batchSize_eq (by omega) hops hsum
      rw [evenSize_of_le (by omega) hlimit, Int.toNat_natCast] at hone
      have hbatch := hbatched.take_mem (by omega) (by omega) hone
      have hbound := hbatched.limit _ hbatch
      rw [List.take_length] at hbound
      omega
  · intro hfits
    rcases Nat.eq_zero_or_pos ops.length with hzero | hpos
    · obtain rfl := List.length_eq_zero_iff.mp hzero
      refine ⟨_, batched_of_batchSize Nat.one_pos (absurd rfl) ?_⟩
      rw [chunks_nil]
      exact List.forall_mem_nil _
    · have hbounds : ops.length + maxOpsPerTxn maxEtcdTxnOps extraOps ≤ 2 ^ 63 ∧
          (ops.length ≤ 1 ∨ maxOpsPerTxn maxEtcdTxnOps extraOps =
            max 1 (maxEtcdTxnOps - guardOpOverhead - extraOps.length)) := by
        rcases hfits with hone | ⟨hle, hsum⟩
        · exact ⟨by omega, .inl hone⟩
        · have hlimit := maxOpsPerTxn_of_fits hle hmax
          exact ⟨by omega, .inr hlimit⟩
      have hsize : 0 < (evenSize ops.length (maxOpsPerTxn maxEtcdTxnOps extraOps)).toNat := toNat_evenSize_pos hpos
      refine ⟨_, batched_of_batchSize hsize (fun _ => batchSize_eq hpos hops hbounds.1) fun batch hbatch => ?_⟩
      have hone := one_le_maxOpsPerTxn maxEtcdTxnOps extraOps
      have hlimit := evenSize_le (by omega : 0 < (ops.length : Int))
        (by omega : 0 < maxOpsPerTxn maxEtcdTxnOps extraOps)
      have hle := (forall_mem_chunks hsize ops batch hbatch).2
      have hle' : batch.length ≤ ops.length := by
        have hsublist := (List.sublist_flatten_of_mem hbatch).length_le
        rwa [flatten_chunks hsize] at hsublist
      omega

/-- Deletes of the first keys. -/
def removalsOf (n : Nat) : List (Op (Value ExactFloat)) :=
  (List.range n).map fun i => .delete (.key (toString i))

theorem sevenRemovals_batched :
    ∃ batches, Batched 4 (removalsOf 7) [touchAssignmentVersion "/shards" "orders"] batches :=
  (commitOps_batched_iff 4 (removalsOf 7) [touchAssignmentVersion "/shards" "orders"] (by decide) (by decide) (by decide)
    (by decide)).mpr (.inr ⟨by decide, by decide⟩)

/-- With the largest limit there is, four operations overflow the count of
batches. -/
theorem largestLimit_panics :
    (∀ turns, iterate (commitOps (2 ^ 63 - 1) (removalsOf 4) nopGuard [touchAssignmentVersion "/shards" "orders"]) turns =
      ([], .returned (.error .panic))) ∧
    ¬∃ batches, Batched (2 ^ 63 - 1) (removalsOf 4) [touchAssignmentVersion "/shards" "orders"] batches := by
  have hsum : ¬((removalsOf 4).length +
      maxOpsPerTxn (2 ^ 63 - 1) [touchAssignmentVersion (F := ExactFloat) "/shards" "orders"] ≤ 2 ^ 63) := by decide
  have hnone := batchSize_eq_none (by decide) (not_le.mp hsum)
  refine ⟨fun turns => ?_, fun ⟨batches, hbatched⟩ => hsum (hbatched.sum_le (by decide) (by decide))⟩
  rw [commitOps_panics nopGuard (by decide) hnone, iterate_returned]

end WholeCall

end executorstore
