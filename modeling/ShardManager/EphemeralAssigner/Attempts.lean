import ShardManager.EphemeralAssigner.Flushes
import ShardManager.Replicas.Records

open golang etcd store batcher executorstore

namespace batcher

variable {ns : String} {b b' : ShardBatcher}

/-- The requests of every batch have been submitted. -/
theorem Core.id_lt_of_batched (h : Core ns b) {batch : List BatchRequest} (hbatch : batch ∈ b.batches)
    {req : BatchRequest} (hreq : req ∈ batch) : req.id < b.nextID := by
  have hreceived : req ∈ b.received := h.arrival.subset (List.mem_flatten.mpr ⟨batch, hbatch, hreq⟩)
  rw [← List.mem_range, ← h.ids]
  exact List.mem_map_of_mem (List.mem_append_left _ hreceived)

/-- A flush ends only when `processBatch` returns. -/
theorem flushes_of_step {label : Label} (hlabel : ∀ i res, label ≠ .flushReturns i res)
    (hstep : step ns label b = some b') : b'.flushed = b.flushed ∧ b.flushes <+: b'.flushes := by
  cases label with
  | flushReturns i res => exact absurd rfl (hlabel i res)
  | takeResponse _ | stop =>
    cases hstep
    exact ⟨rfl, List.prefix_rfl⟩
  | submit _ | timerFires | timerStops =>
    dsimp only [step] at hstep
    split at hstep
    · cases hstep
      exact ⟨rfl, List.prefix_rfl⟩
    · cases hstep
  | receive =>
    dsimp only [step] at hstep
    split at hstep
    · cases hstep
      split <;> exact ⟨rfl, List.prefix_rfl⟩
    · cases hstep
  | flushReady =>
    dsimp only [step] at hstep
    split at hstep
    · cases hstep
      exact ⟨rfl, List.prefix_append _ _⟩
    · cases hstep
  | flushDone =>
    dsimp only [step] at hstep
    split at hstep
    · obtain ⟨b'', hdeliver, rfl⟩ := Option.map_eq_some_iff.mp hstep
      obtain rfl := writeResponses_eq_some hdeliver
      dsimp only
      split
      · exact ⟨rfl, List.prefix_rfl⟩
      · exact ⟨rfl, List.prefix_append _ _⟩
    · cases hstep
  | cancel =>
    dsimp only [step] at hstep
    split at hstep
    · split at hstep
      · obtain ⟨b'', hwrite, rfl⟩ := Option.map_eq_some_iff.mp hstep
        obtain rfl := writeResponses_eq_some hwrite
        exact ⟨rfl, List.prefix_rfl⟩
      · cases hstep
        exact ⟨rfl, List.prefix_rfl⟩
    · cases hstep
  | drain =>
    dsimp only [step] at hstep
    split at hstep
    · obtain ⟨b'', hdeliver, hcancel⟩ := Option.bind_eq_some_iff.mp hstep
      obtain rfl := writeResponses_eq_some hdeliver
      obtain ⟨last, hwrite, rfl⟩ := Option.map_eq_some_iff.mp hcancel
      obtain rfl := writeResponses_eq_some hwrite
      exact ⟨rfl, List.prefix_rfl⟩
    · cases hstep
  | scan =>
    dsimp only [step] at hstep
    split at hstep
    · obtain rfl := writeResponse_eq_some hstep
      exact ⟨rfl, List.prefix_rfl⟩
    · cases hstep
      exact ⟨rfl, List.prefix_rfl⟩
    · cases hstep

end batcher

namespace ephemeralassigner

open replicas (Owns)
open etcdtypes (Value Encoding fromAssignedState)

variable {F : Type} [Float64 F] {order : RangeOrder} {cfg : loadbalancer.Config F} {now : Time}
  {state : NamespaceState F} {shardKeys : List String} {batch : Batch F}

/-- Where the owner of an answer comes from. -/
theorem tryAssignEphemeralBatch_owner {ns : String} {getExecutor : String → Except String cache.ShardOwner}
    (hcache : ∀ executorID owner, getExecutor executorID = .ok owner → owner.executorID = executorID)
    {results : Map String (Option GetShardOwnerResponse)} {drained : KeySet String}
    (h : (tryAssignEphemeralBatch order cfg now ns (.ok state) (fun _ => .ok ()) getExecutor shardKeys).result =
      .ok (results, drained)) :
    drained = state.drainedShards ∧
      ∀ {shardKey resp}, results.lookup shardKey = some (some resp) → resp.ns = ns ∧
        (state.Stores resp.owner shardKey ∨ ∃ batch, planBatch order cfg now state shardKeys = .ok (some batch) ∧
          ⟨shardKey, resp.owner⟩ ∈ batch.placements) := by
  -- The executor a shard was resolved to is the one in its response.
  have hresolved : ∀ {executorByShard}, respond order ns getExecutor shardKeys state.drainedShards executorByShard =
      .ok (results, drained) → drained = state.drainedShards ∧
        ∀ {shardKey resp}, results.lookup shardKey = some (some resp) → resp.ns = ns ∧
          executorByShard.lookup shardKey = some resp.owner := by
    intro executorByShard hrespond
    obtain ⟨hdrained, hanswered, honly⟩ := respond_spec hcache hrespond
    refine ⟨hdrained, fun {shardKey resp} hresult => ?_⟩
    obtain ⟨hmem, howned⟩ := honly shardKey (Map.mem_iff_exists_lookup.mpr ⟨_, hresult⟩)
    obtain ⟨executorID, hlookup⟩ := Map.mem_iff_exists_lookup.mp howned
    obtain ⟨resp', hresult', rfl, hns⟩ := hanswered shardKey hmem executorID hlookup
    rw [hresult, Option.some_inj, Option.some_inj] at hresult'
    subst hresult'
    exact ⟨hns, hlookup⟩
  unfold tryAssignEphemeralBatch at h
  dsimp only at h
  split at h
  · cases h
  · obtain ⟨hdrained, howner⟩ := hresolved h
    refine ⟨hdrained, fun hresult => ?_⟩
    obtain ⟨hns, hlookup⟩ := howner hresult
    exact ⟨hns, .inl (NamespaceState.stores_of_shardOwners (lookup_executorByShard.mp hlookup).2.2)⟩
  · rename_i batch hplan
    obtain ⟨hdrained, howner⟩ := hresolved h
    refine ⟨hdrained, fun hresult => ?_⟩
    obtain ⟨hns, hlookup⟩ := howner hresult
    refine ⟨hns, ?_⟩
    rcases (lookup_placed (places_of_planBatch hplan)).mp hlookup with hbefore | hplaced
    · exact .inl (NamespaceState.stores_of_shardOwners (lookup_executorByShard.mp hbefore).2.2)
    · exact .inr ⟨batch, hplan, hplaced⟩

/-- A batch that is written puts every placement into the store. -/
theorem owns_of_placed [DecidableEq F] [Encoding F] {pre ns : String} {s s' : Store (Value F)} {fate : Fate}
    (hplan : planBatch order cfg now state shardKeys = .ok (some batch))
    (h : assignShards pre ns order batch.request nopGuard fate s = (.ok (), s')) {executorID shardKey : String}
    (hplaced : ⟨shardKey, executorID⟩ ∈ batch.placements) : Owns pre ns s' executorID shardKey := by
  obtain ⟨-, hrequest⟩ := planBatch_ok hplan
  obtain ⟨entry, hentry, hshard⟩ : ∃ entry, (mergePlacements state batch.placements now).1.shardAssignments.lookup
      executorID = some entry ∧ shardKey ∈ entry.assignedShards := mem_mergePlacements.mpr (.inr hplaced)
  have hlookup : batch.request.newState.shardAssignments.lookup executorID = some entry := by
    rw [hrequest]
    exact hentry
  have hwritten : isWritten batch.request executorID = true := by
    rw [hrequest, isWritten, decide_eq_true_eq]
    exact mem_changedExecutors.mpr (mem_placementsByExecutor_iff.mpr ⟨shardKey, hplaced⟩)
  have hoperations : HasOperations batch.request :=
    .inr ⟨executorID, Map.mem_iff_exists_lookup.mpr ⟨entry, hlookup⟩, hwritten⟩
  rcases assignShards_cases h with ⟨hnone, -⟩ | ⟨-, e, he, -⟩ | ⟨-, -, hassigned, -⟩
  · exact absurd hoperations hnone
  · cases he
  · exact ⟨_, _, hassigned.written hlookup hwritten, rfl, etcdtypes.mem_fromAssignedState.mpr hshard⟩

end ephemeralassigner

namespace assigning

open ephemeralassigner

variable {F : Type} {fl : Rounding}

/-- The retrier of a flush has counted at most three failures. -/
structure Retries (loop : backoff.Loop AttemptError) : Prop where
  policy : loop.r.policy = throttleRetry.policy
  le : loop.r.currentAttempt ≤ 3

/-- An attempt is in progress or done, unless the flush is about to read. -/
structure Counted (flush : Flush F) : Prop where
  retries : Retries flush.loop
  reading : flush.phase = .reading → flush.attempts = flush.loop.r.currentAttempt
  busy : flush.phase ≠ .reading → flush.attempts = flush.loop.r.currentAttempt + 1

variable {flush : Flush F}

theorem Counted.attempts_le (h : Counted flush) : flush.attempts ≤ 4 := by
  have hle := h.retries.le
  by_cases hreading : flush.phase = .reading
  · rw [h.reading hreading]
    omega
  · rw [h.busy hreading]
    omega

theorem counted_newFlush (now : Time) (later since : ℕ) (reqs : List BatchRequest) :
    Counted (newFlush now later since reqs : Flush F) where
  retries := ⟨rfl, Nat.zero_le 3⟩
  reading _ := rfl
  busy h := absurd rfl h

theorem counted_of_busy (hretries : Retries flush.loop) (hattempts : flush.attempts = flush.loop.r.currentAttempt + 1)
    {phase : Phase F} (hphase : phase ≠ .reading) : Counted { flush with phase := phase } where
  retries := hretries
  reading hreading := absurd hreading hphase
  busy _ := hattempts

/-- What the end of an attempt does to the flush. -/
theorem finish_cases (fl : Rounding) (met : backoff.Turn AttemptError) (result : AttemptResult) (flush : Flush F) :
    (∃ results drained, result = .ok (results, drained) ∧
      flush.finish fl met result = { flush with phase := .returned ⟨results, drained, none⟩ }) ∨
    (∃ err : Option AttemptError, flush.finish fl met result =
      { flush with phase := .returned ⟨∅, ∅, err.map fun err => .failed err.message⟩ }) ∨
    ∃ err loop, throttleRetry.turn fl flush.loop { met with outcome := some err } = .continued loop ∧
      flush.finish fl met result = { flush with phase := .reading, loop := loop } := by
  cases result with
  | ok answer => exact .inl ⟨answer.1, answer.2, rfl, rfl⟩
  | error err =>
    dsimp only [Flush.finish]
    split
    · exact .inr (.inl ⟨_, rfl⟩)
    · rename_i loop hturn
      exact .inr (.inr ⟨err, loop, hturn, rfl⟩)

/-- `Do` goes on after at most three of the attempts. -/
theorem Retries.continued {loop next : backoff.Loop AttemptError} {met : backoff.Turn AttemptError} (h : Retries loop)
    (hturn : throttleRetry.turn fl loop met = .continued next) :
    Retries next ∧ next.r.currentAttempt = loop.r.currentAttempt + 1 := by
  obtain ⟨hr, hlimit⟩ := backoff.ThrottleRetry.turn_continued hturn
  have hlt : (loop.r.currentAttempt : ℤ) < 3 := by
    rw [h.policy] at hlimit
    exact hlimit (by decide)
  refine ⟨⟨?_, ?_⟩, ?_⟩
  · rw [hr]
    exact h.policy
  · rw [hr]
    exact_mod_cast hlt
  · rw [hr]

theorem counted_finish (met : backoff.Turn AttemptError) (result : AttemptResult) (hretries : Retries flush.loop)
    (hattempts : flush.attempts = flush.loop.r.currentAttempt + 1) :
    Counted (flush.finish fl met result) := by
  rcases finish_cases fl met result flush with ⟨results, drained, -, heq⟩ | ⟨err, heq⟩ | ⟨err, loop, hturn, heq⟩
  · rw [heq]
    exact counted_of_busy hretries hattempts (by rintro ⟨⟩)
  · rw [heq]
    exact counted_of_busy hretries hattempts (by rintro ⟨⟩)
  · obtain ⟨hnext, hcount⟩ := hretries.continued hturn
    rw [heq]
    exact ⟨hnext, fun _ => hattempts.trans hcount.symm, fun hbusy => absurd rfl hbusy⟩

end assigning
