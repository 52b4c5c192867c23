import ShardManager.ExecutorStore.AssignShards

open golang etcd

namespace executorstore

variable {V : Type}

inductive CommitOpsError where
  | applyGuard (message : String)
  | invalidTransaction
  | commit (cause : CommitError)
  | guardFailed
  /-- A division, `make` or `ops[i:end:end]` panics. Only an overflow of the
  batch computation gets there. -/
  | panic
deriving DecidableEq, Repr

def CommitOpsError.message : CommitOpsError → String
  | .applyGuard message => "apply transaction guard: " ++ message
  | .invalidTransaction => "guard function returned invalid transaction type"
  | .commit cause => "commit batch: " ++ cause.message
  | .guardFailed => "transaction failed, leadership may have changed"
  | .panic => "panic: runtime error"

/-- Whether a transaction was sent before the error. -/
def CommitOpsError.isAfterSend : CommitOpsError → Bool
  | .commit _ => true
  | .guardFailed => true
  | _ => false

/-- The number of slots the leadership condition takes. -/
def guardOpOverhead : Int := 1

def maxOpsPerTxn (maxEtcdTxnOps : Int) (extraOps : List (Op V)) : Int :=
  let limit := int64 (maxEtcdTxnOps - guardOpOverhead - extraOps.length)
  if limit < 1 then 1 else limit

def numBatches (maxEtcdTxnOps : Int) (ops extraOps : List (Op V)) : Int :=
  let limit := maxOpsPerTxn maxEtcdTxnOps extraOps
  (int64 (ops.length + limit - 1)).tdiv limit

/-- Batches of about equal size. `none` is a division by zero, or a negative
capacity for the responses. -/
def batchSize (maxEtcdTxnOps : Int) (ops extraOps : List (Op V)) : Option Int :=
  let batches := numBatches maxEtcdTxnOps ops extraOps
  if batches ≤ 0 then none else some ((int64 (ops.length + batches - 1)).tdiv batches)

/-- A call of `commitOps` between two iterations of its loop. -/
structure CommitOps (V : Type) where
  ops : List (Op V)
  extraOps : List (Op V)
  guard : Guarded V
  batchSize : Int
  i : Int
  responses : List (TxnResponse V)

/-- How a call goes on after an iteration. -/
inductive Progress (V : Type) where
  | running (call : CommitOps V)
  | returned (result : Except CommitOpsError (List (TxnResponse V)))

/-- The call before its first iteration. Without operations it returns at once. -/
def commitOps (maxEtcdTxnOps : Int) (ops : List (Op V)) (guard : Guarded V) (extraOps : List (Op V)) :
    Progress V :=
  if ops = [] then .returned (.ok [])
  else match batchSize maxEtcdTxnOps ops extraOps with
    | none => .returned (.error .panic)
    | some batchSize => .running ⟨ops, extraOps, guard, batchSize, 0, []⟩

namespace CommitOps

/-- `ops[i:end:end]`, which panics unless `0 ≤ i ≤ end`. -/
def batch (call : CommitOps V) : Option (List (Op V)) :=
  let stop := min (call.i + call.batchSize) call.ops.length
  if 0 ≤ call.i ∧ call.i ≤ stop then some ((call.ops.take stop.toNat).drop call.i.toNat) else none

def batchTxn (call : CommitOps V) (cmps : List (Cmp V)) (batch : List (Op V)) : Txn V :=
  .flat cmps (batch ++ call.extraOps) []

/-- The call after a batch with the given response has been committed. -/
def advance (call : CommitOps V) (response : TxnResponse V) : Progress V :=
  let responses := response.responses.take (response.responses.length - call.extraOps.length)
  let next := { call with
    i := call.i + call.batchSize
    responses := call.responses ++ [{ response with responses }] }
  if next.i < next.ops.length then .running next else .returned (.ok next.responses)

variable [DecidableEq V]

/-- One iteration of the loop: a guarded transaction for the next batch. -/
def commitBatch (call : CommitOps V) (fate : Fate) (s : Store V) : Progress V × Store V :=
  match call.guard with
  | .error message => (.returned (.error (.applyGuard message)), s)
  | .invalidTransaction => (.returned (.error .invalidTransaction), s)
  | .txn cmps =>
    match call.batch with
    | none => (.returned (.error .panic), s)
    | some batch =>
      match (call.batchTxn cmps batch).send fate s with
      | (.error cause, s) => (.returned (.error (.commit cause)), s)
      | (.ok response, s) =>
        if response.succeeded then (call.advance response, s) else (.returned (.error .guardFailed), s)

omit [DecidableEq V] in
/-- The bounds of the next batch. -/
theorem batch_bounds {call : CommitOps V} {batch : List (Op V)} (h : call.batch = some batch) :
    ∃ start stop : Nat, call.i = start ∧ stop = min (call.i + call.batchSize) call.ops.length ∧ start ≤ stop ∧
      batch = (call.ops.drop start).take (stop - start) := by
  unfold CommitOps.batch at h
  dsimp only at h
  split at h
  · cases h
    refine ⟨call.i.toNat, (min (call.i + call.batchSize) call.ops.length).toNat, ?_, ?_, ?_, ?_⟩
    · omega
    · omega
    · omega
    · rw [List.drop_take]
  · cases h

omit [DecidableEq V] in
theorem mem_of_mem_batch {call : CommitOps V} {batch : List (Op V)} (h : call.batch = some batch)
    {op : Op V} (hop : op ∈ batch) : op ∈ call.ops := by
  obtain ⟨start, stop, -, -, -, rfl⟩ := batch_bounds h
  exact List.mem_of_mem_drop (List.mem_of_mem_take hop)

omit [DecidableEq V] in
/-- The operations of the next batch. -/
theorem mem_batch {call : CommitOps V} {batch : List (Op V)} (h : call.batch = some batch) {k : Nat} {op : Op V}
    (hop : call.ops[k]? = some op) (hle : call.i ≤ k) (hlt : k < call.i + call.batchSize) : op ∈ batch := by
  obtain ⟨hk, -⟩ := List.getElem?_eq_some_iff.mp hop
  obtain ⟨start, stop, hstart, hstop, hbounds, rfl⟩ := batch_bounds h
  have hget : ((call.ops.drop start).take (stop - start))[k - start]? = some op := by
    rw [List.getElem?_take, if_pos (by omega), List.getElem?_drop, Nat.add_sub_cancel' (by omega), hop]
  exact List.mem_of_getElem? hget

/-- Everything an iteration can do. Whatever it changes, it changes by the
whole next batch, under its guard, and then the call has either advanced or
ended without knowing. -/
theorem commitBatch_cases {call : CommitOps V} {fate : Fate} {s s' : Store V} {progress : Progress V}
    (h : call.commitBatch fate s = (progress, s')) :
    (s' = s ∧ ∃ e, progress = .returned (.error e)) ∨
    ∃ cmps batch, call.guard = .txn cmps ∧ call.batch = some batch ∧ cmpsHold s cmps = true ∧
      Applied (batch ++ call.extraOps) s s' ∧
      (progress = .returned (.error (.commit .unknown)) ∨ ∃ response, progress = call.advance response) := by
  unfold commitBatch at h
  cases hguard : call.guard with
  | error message =>
    rw [hguard] at h
    cases h
    exact .inl ⟨rfl, _, rfl⟩
  | invalidTransaction =>
    rw [hguard] at h
    cases h
    exact .inl ⟨rfl, _, rfl⟩
  | txn cmps =>
    cases hbatch : call.batch with
    | none =>
      rw [hguard, hbatch] at h
      cases h
      exact .inl ⟨rfl, _, rfl⟩
    | some batch =>
      rw [hguard, hbatch] at h
      dsimp only at h
      rcases hsend : (call.batchTxn cmps batch).send fate s with ⟨result, s''⟩
      rw [hsend] at h
      rcases Txn.send_flat_cases hsend with ⟨rfl, e, rfl⟩ | ⟨happlied, rfl | ⟨response, rfl, hsucceeded⟩⟩
      · cases h
        exact .inl ⟨rfl, _, rfl⟩
      · cases h
        cases hholds : cmpsHold s cmps with
        | false =>
          rw [hholds] at happlied
          exact .inl ⟨happlied.eq_of_nil, _, rfl⟩
        | true =>
          rw [hholds] at happlied
          exact .inr ⟨cmps, batch, rfl, rfl, hholds, happlied, .inl rfl⟩
      · dsimp only at h
        rw [hsucceeded] at h
        cases hholds : cmpsHold s cmps with
        | false =>
          rw [hholds] at h happlied
          cases h
          exact .inl ⟨happlied.eq_of_nil, _, rfl⟩
        | true =>
          rw [hholds] at h happlied
          cases h
          exact .inr ⟨cmps, batch, rfl, rfl, hholds, happlied, .inr ⟨response, rfl⟩⟩

/-- What never changes during a call. -/
structure SameCall (call call' : CommitOps V) : Prop where
  ops : call'.ops = call.ops
  extraOps : call'.extraOps = call.extraOps
  guard : call'.guard = call.guard
  batchSize : call'.batchSize = call.batchSize

omit [DecidableEq V] in
theorem running_of_advance {call call' : CommitOps V} {response : TxnResponse V}
    (h : call.advance response = .running call') :
    SameCall call call' ∧ call'.i = call.i + call.batchSize ∧ call'.i < call.ops.length := by
  unfold CommitOps.advance at h
  dsimp only at h
  split at h
  · cases h
    exact ⟨⟨rfl, rfl, rfl, rfl⟩, rfl, by assumption⟩
  · cases h

omit [DecidableEq V] in
theorem length_le_of_advance {call : CommitOps V} {response : TxnResponse V} {responses : List (TxnResponse V)}
    (h : call.advance response = .returned (.ok responses)) : call.ops.length ≤ call.i + call.batchSize := by
  unfold CommitOps.advance at h
  dsimp only at h
  split at h
  · cases h
  · exact Int.not_lt.mp (by assumption)

theorem sameCall_of_running {call call' : CommitOps V} {fate : Fate} {s s' : Store V}
    (h : call.commitBatch fate s = (.running call', s')) : SameCall call call' := by
  rcases commitBatch_cases h with ⟨-, e, hprogress⟩ | ⟨cmps, batch, -, -, -, -, hprogress | ⟨response, hprogress⟩⟩
  · cases hprogress
  · cases hprogress
  · exact (running_of_advance hprogress.symm).1

/-- How a call ends: with its error, the number of transactions it has sent and
the store it leaves. -/
structure Ended (V : Type) where
  err : Option CommitOpsError
  sent : Nat
  store : Store V

/-- The batches of a call one after another. `none` is a call that is still
running after the last fate. -/
def commitAll (call : CommitOps V) : List Fate → Store V → Option (Ended V)
  | [], _ => none
  | fate :: fates, s =>
    match call.commitBatch fate s with
    | (.returned (.ok _), s) => some ⟨none, 1, s⟩
    -- The batches before this one stay committed.
    | (.returned (.error e), s) => some ⟨some e, if e.isAfterSend then 1 else 0, s⟩
    | (.running call, s) => (call.commitAll fates s).map fun ended => { ended with sent := ended.sent + 1 }

/-- A call fails at its next batch, or commits it and then either ends or goes
on from there. -/
theorem commitAll_cons {call : CommitOps V} {fate : Fate} {fates : List Fate} {s : Store V} {ended : Ended V}
    (h : call.commitAll (fate :: fates) s = some ended) :
    ended.err ≠ none ∧ ended.store = s ∨
      ∃ batch next, call.batch = some batch ∧ Applied (batch ++ call.extraOps) s next ∧
        (next = ended.store ∧ (ended.err = none → call.ops.length ≤ call.i + call.batchSize) ∨
          ∃ call' rest, SameCall call call' ∧ call'.i = call.i + call.batchSize ∧ rest.err = ended.err ∧
            rest.store = ended.store ∧ call'.commitAll fates next = some rest) := by
  unfold commitAll at h
  rcases hcommit : call.commitBatch fate s with ⟨progress, next⟩
  rw [hcommit] at h
  rcases commitBatch_cases hcommit with
    ⟨rfl, e, rfl⟩ | ⟨cmps, batch, -, hbatch, -, happlied, rfl | ⟨response, rfl⟩⟩
  · cases h
    exact .inl ⟨Option.some_ne_none e, rfl⟩
  · cases h
    exact .inr ⟨batch, next, hbatch, happlied, .inl ⟨rfl, fun hnone => absurd hnone (Option.some_ne_none _)⟩⟩
  · refine .inr ⟨batch, next, hbatch, happlied, ?_⟩
    cases hadvance : call.advance response with
    | running call' =>
      rw [hadvance] at h
      obtain ⟨hsame, hi, -⟩ := running_of_advance hadvance
      obtain ⟨rest, hrest, rfl⟩ := Option.map_eq_some_iff.mp h
      exact .inr ⟨call', rest, hsame, hi, rfl, rfl, hrest⟩
    | returned result =>
      rw [hadvance] at h
      cases result with
      | error e =>
        cases h
        exact .inl ⟨rfl, fun hnone => absurd hnone (Option.some_ne_none e)⟩
      | ok responses =>
        cases h
        exact .inl ⟨rfl, fun _ => length_le_of_advance hadvance⟩

/-- What every batch keeps, a call keeps, also one that fails. -/
theorem commitAll_invariant {call : CommitOps V} {fates : List Fate} {s : Store V} {ended : Ended V}
    (h : call.commitAll fates s = some ended) (I : Store V → Prop)
    (hbatch : ∀ {batch s s'}, (∀ op ∈ batch, op ∈ call.ops) → Applied (batch ++ call.extraOps) s s' → I s → I s')
    (hinit : I s) : I ended.store := by
  induction fates generalizing call s ended with
  | nil => cases h
  | cons fate fates ih =>
    obtain ⟨-, hsame⟩ | ⟨batch, next, hnext, happlied, hend | ⟨call', rest, hsame, -, -, hstore, hrest⟩⟩ :=
      commitAll_cons h
    · exact hsame ▸ hinit
    · exact hend.1 ▸ hbatch (fun op hop => mem_of_mem_batch hnext hop) happlied hinit
    · rw [← hstore]
      refine ih hrest ?_ (hbatch (fun op hop => mem_of_mem_batch hnext hop) happlied hinit)
      rw [hsame.ops, hsame.extraOps]
      exact hbatch

/-- What a batch with a certain operation brings about and every batch keeps, a
call with that operation before it brings about, unless it fails. -/
theorem commitAll_establishes {call : CommitOps V} {fates : List Fate} {s : Store V} {ended : Ended V}
    (h : call.commitAll fates s = some ended) (herr : ended.err = none) {k : Nat} {op : Op V}
    (hop : call.ops[k]? = some op) (hk : call.i ≤ k) (I : Store V → Prop)
    (hbatch : ∀ {batch s s'}, (∀ op ∈ batch, op ∈ call.ops) → Applied (batch ++ call.extraOps) s s' → I s → I s')
    (hestablish : ∀ {batch s s'}, op ∈ batch → Applied (batch ++ call.extraOps) s s' → I s') : I ended.store := by
  induction fates generalizing call s ended with
  | nil => cases h
  | cons fate fates ih =>
    obtain ⟨hfailed, -⟩ | ⟨batch, next, hnext, happlied, hcase⟩ := commitAll_cons h
    · exact absurd herr hfailed
    by_cases hlt : (k : Int) < call.i + call.batchSize
    · have hinit : I next := hestablish (mem_batch hnext hop hk hlt) happlied
      rcases hcase with ⟨rfl, -⟩ | ⟨call', rest, hsame, -, -, hstore, hrest⟩
      · exact hinit
      · rw [← hstore]
        refine commitAll_invariant hrest I ?_ hinit
        rw [hsame.ops, hsame.extraOps]
        exact hbatch
    · rcases hcase with ⟨-, hlength⟩ | ⟨call', rest, hsame, hi, herr', hstore, hrest⟩
      · have hbound := (List.getElem?_eq_some_iff.mp hop).1
        have hlength := hlength herr
        omega
      · rw [← hstore]
        refine ih hrest (herr'.trans herr) (hsame.ops ▸ hop) (by omega) ?_ ?_
        · rw [hsame.ops, hsame.extraOps]
          exact hbatch
        · rw [hsame.extraOps]
          exact hestablish

end CommitOps

/-- A call that has something to commit starts at its first operation. -/
theorem commitOps_running {maxEtcdTxnOps : Int} {ops extraOps : List (Op V)} {guard : Guarded V}
    {call : CommitOps V} (h : commitOps maxEtcdTxnOps ops guard extraOps = .running call) :
    call.ops = ops ∧ call.extraOps = extraOps ∧ call.guard = guard ∧ call.i = 0 ∧ 0 < call.ops.length := by
  unfold commitOps at h
  split at h
  · cases h
  · rename_i hne
    split at h
    · cases h
    · cases h
      exact ⟨rfl, rfl, rfl, rfl, List.length_pos_iff.mpr hne⟩

/-- It returns at once only if it has nothing to commit. -/
theorem commitOps_returned_ok {maxEtcdTxnOps : Int} {ops extraOps : List (Op V)} {guard : Guarded V}
    {responses : List (TxnResponse V)} (h : commitOps maxEtcdTxnOps ops guard extraOps = .returned (.ok responses)) :
    ops = [] := by
  unfold commitOps at h
  split at h
  · assumption
  · split at h
    · cases h
    · cases h

section Finish

variable [DecidableEq V]

/-- A call to its end. -/
def Progress.finish (progress : Progress V) (fates : List Fate) (s : Store V) : Option (CommitOps.Ended V) :=
  match progress with
  | .returned (.ok _) => some ⟨none, 0, s⟩
  | .returned (.error e) => some ⟨some e, 0, s⟩
  | .running call => call.commitAll fates s

variable {maxEtcdTxnOps : Int} {ops extraOps : List (Op V)} {guard : Guarded V} {fates : List Fate} {s : Store V}
  {ended : CommitOps.Ended V}
  (h : (commitOps maxEtcdTxnOps ops guard extraOps).finish fates s = some ended)

include h

theorem finish_invariant (I : Store V → Prop)
    (hbatch : ∀ {batch s s'}, (∀ op ∈ batch, op ∈ ops) → Applied (batch ++ extraOps) s s' → I s → I s')
    (hinit : I s) : I ended.store := by
  cases hcall : commitOps maxEtcdTxnOps ops guard extraOps with
  | returned result =>
    rw [hcall] at h
    cases result with
    | error e =>
      cases h
      exact hinit
    | ok responses =>
      cases h
      exact hinit
  | running call =>
    rw [hcall] at h
    obtain ⟨rfl, rfl, -⟩ := commitOps_running hcall
    exact CommitOps.commitAll_invariant h I hbatch hinit

theorem finish_establishes (herr : ended.err = none) {op : Op V} (hop : op ∈ ops) (I : Store V → Prop)
    (hbatch : ∀ {batch s s'}, (∀ op ∈ batch, op ∈ ops) → Applied (batch ++ extraOps) s s' → I s → I s')
    (hestablish : ∀ {batch s s'}, op ∈ batch → Applied (batch ++ extraOps) s s' → I s') : I ended.store := by
  cases hcall : commitOps maxEtcdTxnOps ops guard extraOps with
  | returned result =>
    rw [hcall] at h
    cases result with
    | error e =>
      cases h
      cases herr
    | ok responses =>
      rw [commitOps_returned_ok hcall] at hop
      cases hop
  | running call =>
    rw [hcall] at h
    obtain ⟨rfl, rfl, -, hi, -⟩ := commitOps_running hcall
    obtain ⟨k, hk⟩ := List.mem_iff_getElem?.mp hop
    exact CommitOps.commitAll_establishes h herr hk (by omega) I hbatch hestablish

end Finish

end executorstore
