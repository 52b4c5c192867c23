import ShardManager.EphemeralAssigner.Attempts

open golang etcd store batcher executorstore

namespace assigning

open ephemeralassigner trace transition
open replicas (Owns)
open etcdtypes (Value Encoding)

variable {F : Type} {pre ns : String} {fl : Rounding}

section Invariant

variable [Float64 F] [Encoding F] {stores : List (Store (Value F))} {submitted : ℕ → ℕ} {since : ℕ}

/-- A result is true of stores since a point: an owner holds its shard in one of
them, and a drained shard is drained in one of them. -/
structure Answers (pre ns : String) (stores : List (Store (Value F))) (since : ℕ) (res : FlushResult) : Prop where
  owned : ∀ {shardKey resp}, res.results.lookup shardKey = some (some resp) →
    resp.ns = ns ∧ Since since (fun s => Owns pre ns s resp.owner shardKey) stores
  drained : ∀ {shardKey}, shardKey ∈ res.drained → Since since (fun s => DrainedAt pre ns s shardKey) stores
  err : ∀ {err}, res.err = some err → ∃ message, err = .failed message

/-- The snapshot of an attempt has been read since a point. -/
def WasRead (pre ns : String) (stores : List (Store (Value F))) (since : ℕ) (input : Input F) : Prop :=
  Since since (fun s => getState pre ns input.order s = .ok input.state) stores

def Input.planBatch (input : Input F) (shardKeys : List String) : Except Failure (Option (Batch F)) :=
  ephemeralassigner.planBatch input.order input.cfg input.now input.state shardKeys

/-- What is known of the attempt of a flush. -/
def Backed (pre ns : String) (stores : List (Store (Value F))) (since : ℕ) (shardKeys : List String) :
    Phase F → Prop
  | .reading => True
  | .writing input request => WasRead pre ns stores since input ∧
      ∃ batch, input.planBatch shardKeys = .ok (some batch) ∧ request = batch.request
  | .fetching input => WasRead pre ns stores since input ∧
      ∀ batch, input.planBatch shardKeys = .ok (some batch) →
        Since since (fun s => ∀ placement ∈ batch.placements, Owns pre ns s placement.executorID placement.shardID) stores
  | .returned res => Answers pre ns stores since res

structure FlushInv (pre ns : String) (stores : List (Store (Value F))) (submitted : ℕ → ℕ) (flush : Flush F) :
    Prop where
  began : flush.since < stores.length
  submitted_le : ∀ req ∈ flush.reqs, submitted req.id ≤ flush.since
  counted : Counted flush
  backed : Backed pre ns stores flush.since flush.shardKeys flush.phase

structure Inv (pre ns : String) (sys : System F) : Prop where
  batcher : batcher.Inv ns sys.batcher
  reqs : sys.flushes.map Flush.reqs = sys.batcher.flushes
  flushes : ∀ flush ∈ sys.flushes, FlushInv pre ns sys.stores sys.submitted flush
  flushed : ∀ {batch res}, (batch, res) ∈ sys.batcher.flushed → ∀ req ∈ batch,
    Answers pre ns sys.stores (sys.submitted req.id) res
  submitted_le : ∀ id, sys.submitted id ≤ sys.past.length

theorem inv_initial : Inv pre ns (initial : System F) where
  batcher := inv_newShardBatcher
  reqs := rfl
  flushes _ h := absurd h List.not_mem_nil
  flushed h := absurd h List.not_mem_nil
  submitted_le _ := le_rfl

omit [Float64 F] [Encoding F] in
theorem Answers.append {res : FlushResult} (h : Answers pre ns stores since res) (later : List (Store (Value F))) :
    Answers pre ns (stores ++ later) since res where
  owned hresult := ⟨(h.owned hresult).1, (h.owned hresult).2.append later⟩
  drained hdrained := (h.drained hdrained).append later
  err := h.err

omit [Float64 F] [Encoding F] in
theorem Answers.mono {res : FlushResult} {earlier : ℕ} (h : Answers pre ns stores since res) (hle : earlier ≤ since) :
    Answers pre ns stores earlier res where
  owned hresult := ⟨(h.owned hresult).1, (h.owned hresult).2.mono hle⟩
  drained hdrained := (h.drained hdrained).mono hle
  err := h.err

omit [Float64 F] [Encoding F] in
theorem answers_empty (err : Option AttemptError) :
    Answers pre ns stores since ⟨∅, ∅, err.map fun err => .failed err.message⟩ where
  owned hresult := by cases hresult
  drained hdrained := absurd hdrained (AList.notMem_empty _)
  err herr := by
    obtain ⟨err, -, rfl⟩ := Option.map_eq_some_iff.mp herr
    exact ⟨_, rfl⟩

theorem Backed.append {shardKeys : List String} {phase : Phase F} (h : Backed pre ns stores since shardKeys phase)
    (later : List (Store (Value F))) : Backed pre ns (stores ++ later) since shardKeys phase := by
  cases phase with
  | reading => exact trivial
  | writing input request => exact ⟨Since.append h.1 later, h.2⟩
  | fetching input => exact ⟨Since.append h.1 later, fun batch hplan => (h.2 batch hplan).append later⟩
  | returned res => exact Answers.append h later

theorem FlushInv.append {flush : Flush F} (h : FlushInv pre ns stores submitted flush)
    (later : List (Store (Value F))) : FlushInv pre ns (stores ++ later) submitted flush where
  began := h.began.trans_le (by rw [List.length_append]; exact Nat.le_add_right _ _)
  submitted_le := h.submitted_le
  counted := h.counted
  backed := h.backed.append later

variable {sys : System F}

theorem Inv.setWriters (h : Inv pre ns sys) (writers : Writers F) : Inv pre ns (sys.setWriters writers) where
  batcher := h.batcher
  reqs := h.reqs
  flushes flush hmem := (h.flushes flush hmem).append _
  flushed hmem req hreq := (h.flushed hmem req hreq).append _
  submitted_le id := (h.submitted_le id).trans (by
    change sys.past.length ≤ (sys.past ++ [sys.writers.store]).length
    rw [List.length_append]
    exact Nat.le_add_right _ _)

theorem Inv.setFlush (h : Inv pre ns sys) {i : ℕ} {flush flush' : Flush F} (hflush : sys.flushes[i]? = some flush)
    (hreqs : flush'.reqs = flush.reqs) (hinv : FlushInv pre ns sys.stores sys.submitted flush') :
    Inv pre ns (sys.setFlush i flush') where
  batcher := h.batcher
  reqs := by
    change (sys.flushes.set i flush').map Flush.reqs = sys.batcher.flushes
    obtain ⟨hi, rfl⟩ := List.getElem?_eq_some_iff.mp hflush
    rw [List.map_set, hreqs, ← List.map_set, List.set_getElem_self, h.reqs]
  flushes := forall_mem_set h.flushes hinv
  flushed := h.flushed
  submitted_le := h.submitted_le

end Invariant

section Step

variable [Float64 F] [Encoding F] {sys sys' : System F} {i : ℕ} {flush : Flush F}

/-- The current store is one of those since the flush began. -/
theorem FlushInv.since_current (h : FlushInv pre ns sys.stores sys.submitted flush) {P : Store (Value F) → Prop}
    (hcurrent : P sys.writers.store) : Since flush.since P sys.stores := by
  have hlt := h.began
  rw [System.stores, List.length_append] at hlt
  exact since_last (Nat.le_of_lt_succ hlt) hcurrent

theorem FlushInv.finish (h : FlushInv pre ns sys.stores sys.submitted flush) (met : backoff.Turn AttemptError)
    {result : AttemptResult} {attempts : ℕ}
    (hattempts : attempts = flush.loop.r.currentAttempt + 1)
    (hanswers : ∀ {results drained}, result = .ok (results, drained) →
      Answers pre ns sys.stores flush.since ⟨results, drained, none⟩) :
    FlushInv pre ns sys.stores sys.submitted ({ flush with attempts := attempts }.finish fl met result) := by
  have hcounted : Counted ({ flush with attempts := attempts }.finish fl met result) :=
    counted_finish met result h.counted.retries hattempts
  rcases finish_cases fl met result { flush with attempts := attempts } with
    ⟨results, drained, hresult, heq⟩ | ⟨err, heq⟩ | ⟨err, loop, -, heq⟩
  · rw [heq] at hcounted ⊢
    exact ⟨h.began, h.submitted_le, hcounted, hanswers hresult⟩
  · rw [heq] at hcounted ⊢
    exact ⟨h.began, h.submitted_le, hcounted, answers_empty err⟩
  · rw [heq] at hcounted ⊢
    exact ⟨h.began, h.submitted_le, hcounted, trivial⟩

omit [Float64 F] [Encoding F] in
theorem reqs_finish (fl : Rounding) (met : backoff.Turn AttemptError) (result : AttemptResult) (flush : Flush F) :
    (flush.finish fl met result).reqs = flush.reqs := by
  rcases finish_cases fl met result flush with ⟨results, drained, -, heq⟩ | ⟨err, heq⟩ | ⟨err, loop, -, heq⟩
  · rw [heq]
  · rw [heq]
  · rw [heq]

theorem Inv.read (h : Inv pre ns sys) (hflush : sys.flushes[i]? = some flush) (hreading : flush.phase = .reading)
    (input : Input F) (hread : getState pre ns input.order sys.writers.store = .ok input.state) :
    Inv pre ns (sys.setFlush i { flush with
      attempts := flush.attempts + 1
      phase := match input.planBatch flush.shardKeys with
        | .ok (some batch) => .writing input batch.request
        | _ => .fetching input }) := by
  have hinv := h.flushes flush (List.mem_of_getElem? hflush)
  have hattempts := hinv.counted.reading hreading
  have hwas : WasRead pre ns sys.stores flush.since input := hinv.since_current hread
  refine h.setFlush hflush rfl ⟨hinv.began, hinv.submitted_le, ?_, ?_⟩
  · refine @counted_of_busy F { flush with attempts := flush.attempts + 1 } hinv.counted.retries
      (congrArg Nat.succ hattempts) _ ?_
    split
    · rintro ⟨⟩
    · rintro ⟨⟩
  · dsimp only
    split
    · rename_i batch hplan
      exact ⟨hwas, batch, hplan, rfl⟩
    · rename_i hplan
      exact ⟨hwas, fun batch hbatch => absurd hbatch (hplan batch)⟩

theorem Inv.readFails (h : Inv pre ns sys) (hflush : sys.flushes[i]? = some flush) (hreading : flush.phase = .reading)
    (cause : String) (met : backoff.Turn AttemptError) :
    Inv pre ns (sys.setFlush i
      ({ flush with attempts := flush.attempts + 1 }.finish fl met (.error (.getState cause)))) := by
  have hinv := h.flushes flush (List.mem_of_getElem? hflush)
  refine h.setFlush hflush (reqs_finish ..) (hinv.finish met ?_ ?_)
  · rw [hinv.counted.reading hreading]
  · intro results drained hresult
    cases hresult

/-- An attempt that has written its placements. -/
theorem Inv.sendSucceeds [DecidableEq F] (h : Inv pre ns sys) (hflush : sys.flushes[i]? = some flush) {input : Input F}
    {request : AssignShardsRequest F} (hwriting : flush.phase = .writing input request) {fate : Fate}
    {s : Store (Value F)}
    (hassign : assignShards pre ns input.order request nopGuard fate sys.writers.store = (.ok (), s)) :
    Inv pre ns ((sys.setWriters { sys.writers with store := s }).setFlush i { flush with phase := .fetching input }) := by
  have hinv := (h.setWriters { sys.writers with store := s }).flushes flush (List.mem_of_getElem? hflush)
  have hbacked := hinv.backed
  rw [hwriting] at hbacked
  obtain ⟨hwas, batch, hplan, rfl⟩ := hbacked
  refine (h.setWriters _).setFlush hflush rfl ⟨hinv.began, hinv.submitted_le, ?_, hwas, ?_⟩
  · exact counted_of_busy hinv.counted.retries (hinv.counted.busy (by rw [hwriting]; rintro ⟨⟩)) (by rintro ⟨⟩)
  · intro batch' hplan'
    change input.planBatch flush.shardKeys = .ok (some batch') at hplan'
    rw [hplan, Except.ok.injEq, Option.some_inj] at hplan'
    subst hplan'
    exact hinv.since_current fun placement hplaced => owns_of_placed hplan hassign hplaced

theorem Inv.sendFails (h : Inv pre ns sys) (hflush : sys.flushes[i]? = some flush) {input : Input F}
    {request : AssignShardsRequest F} (hwriting : flush.phase = .writing input request) (s : Store (Value F))
    (cause : AssignShardsError) (met : backoff.Turn AttemptError) :
    Inv pre ns ((sys.setWriters { sys.writers with store := s }).setFlush i
      (flush.finish fl met (.error (.assignShards cause)))) := by
  have hinv := (h.setWriters { sys.writers with store := s }).flushes flush (List.mem_of_getElem? hflush)
  refine (h.setWriters _).setFlush hflush (reqs_finish ..) (hinv.finish met ?_ ?_)
  · exact hinv.counted.busy (by rw [hwriting]; rintro ⟨⟩)
  · intro results drained hresult
    cases hresult

theorem executorID_of_cached {order : RangeOrder} {state : AssignmentState} {executorID : String}
    {owner : cache.ShardOwner}
    (h : (cache.fromNamespaceState order state).shardOwners.lookup executorID = some owner) :
    owner.executorID = executorID := by
  rw [cache.fromNamespaceState] at h
  dsimp only at h
  rw [Map.lookup_filterMapEntries] at h
  obtain ⟨metadata, -, howner⟩ := Option.bind_eq_some_iff.mp h
  cases howner
  rfl

theorem Inv.fetch (h : Inv pre ns sys) (hflush : sys.flushes[i]? = some flush) {input : Input F}
    (hfetching : flush.phase = .fetching input) {getExecutor : String → Except String cache.ShardOwner}
    (hcache : ∀ executorID owner, getExecutor executorID = .ok owner → owner.executorID = executorID)
    (met : backoff.Turn AttemptError) :
    Inv pre ns (sys.setFlush i (flush.finish fl met (tryAssignEphemeralBatch input.order input.cfg input.now ns
      (.ok input.state) (fun _ => .ok ()) getExecutor flush.shardKeys).result)) := by
  have hinv := h.flushes flush (List.mem_of_getElem? hflush)
  have hbusy := hinv.counted.busy (by rw [hfetching]; rintro ⟨⟩)
  have hbacked := hinv.backed
  rw [hfetching] at hbacked
  obtain ⟨hwas, hplaced⟩ := hbacked
  refine h.setFlush hflush (reqs_finish ..) (hinv.finish met hbusy fun {results drained} hresult => ?_)
  obtain ⟨rfl, howner⟩ := tryAssignEphemeralBatch_owner hcache hresult
  constructor
  · intro shardKey resp hlookup
    obtain ⟨hns, hstores | ⟨batch, hplan, hmem⟩⟩ := howner hlookup
    · exact ⟨hns, hwas.imp fun s hread => replicas.owns_of_stores (getState_describes hread).1 hstores⟩
    · exact ⟨hns, (hplaced batch hplan).imp fun s howns => howns ⟨shardKey, resp.owner⟩ hmem⟩
  · intro shardKey hdrained
    exact hwas.imp fun s hread => ((getState_describes hread).1.drained shardKey).mp hdrained
  · intro err herr
    cases herr

/-- The batcher receives, starts a flush or delivers. Each new flush begins now. -/
theorem Inv.batcherStep (h : Inv pre ns sys) {label : batcher.Label} (hlabel : ∀ i res, label ≠ .flushReturns i res)
    {b : ShardBatcher} (hstep : batcher.step ns label sys.batcher = some b) (now : Time) (later : ℕ) :
    Inv pre ns { sys with
      batcher := b
      flushes := sys.flushes ++ (b.flushes.drop sys.batcher.flushes.length).map (newFlush now later sys.past.length)
      submitted := sys.submittedBy label } := by
  obtain ⟨hflushed, hflushes⟩ := flushes_of_step hlabel hstep
  have hle : ∀ id, sys.submittedBy label id ≤ sys.past.length := by
    intro id
    unfold System.submittedBy
    split
    · rw [Function.update_apply]
      split
      · exact le_rfl
      · exact h.submitted_le id
    · exact h.submitted_le id
  -- Requests that are in a batch were submitted before.
  have hold : ∀ {batch}, batch ∈ sys.batcher.batches → ∀ req ∈ batch,
      sys.submittedBy label req.id = sys.submitted req.id := by
    intro batch hbatch req hreq
    unfold System.submittedBy
    split
    · exact Function.update_of_ne (h.batcher.id_lt_of_batched hbatch hreq).ne _ _
    · rfl
  have hflights := h.batcher.flights
  constructor
  · exact h.batcher.moves (moves_of_step hstep)
  · rw [List.map_append, h.reqs, List.map_map]
    change sys.batcher.flushes ++ (b.flushes.drop sys.batcher.flushes.length).map id = b.flushes
    rw [List.map_id]
    exact List.prefix_iff_eq_append.mp hflushes
  · intro flush hmem
    rcases List.mem_append.mp hmem with hmem | hmem
    · have hinv := h.flushes flush hmem
      have hbatch : flush.reqs ∈ sys.batcher.batches := by
        rw [← hflights, ← h.reqs]
        exact List.mem_append_right _ (List.mem_map_of_mem hmem)
      refine { hinv with submitted_le := fun req hreq => ?_ }
      dsimp only
      rw [hold hbatch req hreq]
      exact hinv.submitted_le req hreq
    · obtain ⟨reqs, -, rfl⟩ := List.mem_map.mp hmem
      refine ⟨?_, fun req _ => hle req.id, counted_newFlush .., trivial⟩
      change sys.past.length < (sys.past ++ [sys.writers.store]).length
      rw [List.length_append]
      exact Nat.lt_succ_self _
  · intro batch res hmem req hreq
    dsimp only at hmem ⊢
    rw [hflushed] at hmem
    have hbatch : batch ∈ sys.batcher.batches := by
      rw [← hflights]
      exact List.mem_append_left _ (List.mem_map_of_mem hmem)
    rw [hold hbatch req hreq]
    exact h.flushed hmem req hreq
  · exact hle

theorem Inv.flushReturns (h : Inv pre ns sys) (hflush : sys.flushes[i]? = some flush) {res : FlushResult}
    (hreturned : flush.phase = .returned res) {b : ShardBatcher}
    (hstep : batcher.step ns (.flushReturns i res) sys.batcher = some b) :
    Inv pre ns { sys with batcher := b, flushes := sys.flushes.eraseIdx i } := by
  have hinv := h.flushes flush (List.mem_of_getElem? hflush)
  have hbacked := hinv.backed
  rw [hreturned] at hbacked
  have hbatcher := h.batcher.moves (moves_of_step hstep)
  dsimp only [batcher.step] at hstep
  split at hstep
  case h_2 => cases hstep
  case h_1 reqs hreqs hdone =>
    cases hstep
    have heq : flush.reqs = reqs := by
      rw [← h.reqs, List.getElem?_map, hflush] at hreqs
      exact Option.some_inj.mp hreqs
    refine ⟨hbatcher, ?_, forall_mem_eraseIdx h.flushes, ?_, h.submitted_le⟩
    · rw [← List.eraseIdx_map, h.reqs]
    · intro batch res' hmem req hreq
      rcases List.mem_append.mp hmem with hmem | hmem
      · exact h.flushed hmem req hreq
      · cases List.mem_singleton.mp hmem
        rw [← heq] at hreq
        exact Answers.mono hbacked (hinv.submitted_le req hreq)

theorem Inv.step [DecidableEq F] {label : Label F} (h : Inv pre ns sys) (hcached : label.Cached)
    (hstep : step pre ns fl label sys = some sys') : Inv pre ns sys' := by
  cases label with
  | batcher label now later =>
    dsimp only [assigning.step] at hstep
    unfold System.batcherStep at hstep
    split at hstep
    · cases hstep
    · rename_i hlabel
      obtain ⟨b, hb, rfl⟩ := Option.map_eq_some_iff.mp hstep
      exact h.batcherStep hlabel hb now later
  | write write =>
    obtain ⟨writers, -, rfl⟩ := Option.map_eq_some_iff.mp hstep
    exact h.setWriters writers
  | read i order cfg now =>
    dsimp only [assigning.step] at hstep
    split at hstep
    case h_2 => cases hstep
    case h_1 flush hflush =>
      split at hstep
      · rename_i state hreading hread
        cases hstep
        exact h.read hflush hreading ⟨order, cfg, now, state⟩ hread
      · cases hstep
  | readFails i cause met =>
    dsimp only [assigning.step] at hstep
    split at hstep
    case h_2 => cases hstep
    case h_1 flush hflush =>
      split at hstep
      · rename_i hreading
        cases hstep
        exact h.readFails hflush hreading cause met
      · cases hstep
  | send i fate met =>
    dsimp only [assigning.step] at hstep
    split at hstep
    case h_2 => cases hstep
    case h_1 flush hflush =>
      split at hstep
      · rename_i input request hwriting
        split at hstep
        · rename_i s hassign
          cases hstep
          exact h.sendSucceeds hflush hwriting hassign
        · rename_i cause s hassign
          cases hstep
          exact h.sendFails hflush hwriting s cause met
      · cases hstep
  | fetch i getExecutor met =>
    have hcache : ∀ executorID owner, getExecutor executorID = .ok owner → owner.executorID = executorID := by
      intro executorID owner howner
      obtain ⟨order, state, hlookup⟩ := hcached executorID owner howner
      exact executorID_of_cached hlookup
    dsimp only [assigning.step] at hstep
    split at hstep
    case h_2 => cases hstep
    case h_1 flush hflush =>
      split at hstep
      · rename_i input hfetching
        split at hstep
        · cases hstep
        · cases hstep
          exact h.fetch hflush hfetching hcache met
      · cases hstep
  | flushReturns i =>
    dsimp only [assigning.step] at hstep
    split at hstep
    case h_2 => cases hstep
    case h_1 flush hflush =>
      split at hstep
      · rename_i res hreturned
        obtain ⟨b, hb, rfl⟩ := Option.map_eq_some_iff.mp hstep
        exact h.flushReturns hflush hreturned hb
      · cases hstep

end Step

section Run

/-- The answer to one request of a batch. -/
theorem answered_of_answers {stores : List (Store (Value F))} {since : ℕ} {res : FlushResult}
    (h : Answers pre ns stores since res) {shardKey : String} :
    (∀ resp, (getOrAssign (toBatchResponse ns res shardKey)).resp = some resp → resp.ns = ns ∧
      Since since (fun s => Owns pre ns s resp.owner shardKey) stores) ∧
    (∀ ns' key, (getOrAssign (toBatchResponse ns res shardKey)).err = some (.shardDrained ns' key) →
      ns' = ns ∧ key = shardKey ∧ Since since (fun s => DrainedAt pre ns s key) stores) := by
  cases herr : res.err with
  | some err =>
    obtain ⟨message, rfl⟩ := h.err herr
    rw [toBatchResponse, herr]
    constructor
    · intro resp hresp
      cases hresp
    · intro ns' key hdrained
      cases hdrained
  | none =>
    rw [toBatchResponse, herr]
    dsimp only
    split
    · rename_i hmem
      constructor
      · intro resp hresp
        cases hresp
      · intro ns' key hdrained
        cases hdrained
        exact ⟨rfl, rfl, h.drained hmem⟩
    · cases hlookup : (res.results.lookup shardKey).join with
      | none =>
        constructor
        · intro resp hresp
          cases hresp
        · intro ns' key hdrained
          cases hdrained
      | some resp =>
        constructor
        · intro resp' hresp
          cases hresp
          exact h.owned (Option.join_eq_some_iff.mp hlookup)
        · intro ns' key hdrained
          cases hdrained

variable [Float64 F] [DecidableEq F] [Encoding F]

/-- However callers, other replicas and the store interleave, `GetOrAssign`
answers with an executor that held the shard in the store at some point since
the request was submitted, or says that the shard is drained if it was at such a
point. No flush makes more than four attempts. -/
theorem getOrAssign_answers (pre ns : String) (fl : Rounding) (sys : System F)
    (hrun : Run (step pre ns fl) (fun _ label => label.Cached) initial sys) :
    (∀ req res, (req, res) ∈ sys.batcher.answers →
      (∀ resp, (getOrAssign res).resp = some resp → resp.ns = ns ∧
        Since (sys.submitted req.id) (fun s => Owns pre ns s resp.owner req.shardKey) sys.stores) ∧
      (∀ ns' shardKey, (getOrAssign res).err = some (.shardDrained ns' shardKey) →
        ns' = ns ∧ shardKey = req.shardKey ∧
          Since (sys.submitted req.id) (fun s => DrainedAt pre ns s shardKey) sys.stores)) ∧
    ∀ flush ∈ sys.flushes, flush.attempts ≤ 4 := by
  have hinv : Inv pre ns sys := hrun.invariant (Inv pre ns) (fun _ _ _ h hcached hstep => h.step hcached hstep) inv_initial
  refine ⟨fun req res hanswer => ?_, fun flush hmem => (hinv.flushes flush hmem).counted.attempts_le⟩
  rcases hinv.batcher.answered req res hanswer with ⟨batch, result, hflushed, hreq, rfl⟩ | ⟨rfl, -⟩
  · exact answered_of_answers (hinv.flushed hflushed req hreq)
  · constructor
    · intro resp hresp
      cases hresp
    · intro ns' shardKey herr
      cases herr

end Run

section Example

def isFetch : Label F → Bool
  | .fetch .. => true
  | _ => false

theorem cached_of_not_isFetch {label : Label F} (h : (!isFetch label) = true) : label.Cached := by
  cases label with
  | fetch => cases h
  | _ => exact trivial

/-- An operation that takes no time and is not cancelled. -/
def atOnce : backoff.Turn AttemptError := ⟨none, 0, fun _ => 0, 0, fun _ => 0, false, 0⟩

/-- A request for a shard is submitted, an executor joins, and the shard is
assigned to it. -/
def submitted : List (Label ExactFloat) :=
  [.batcher (.submit "s") 0 0, .batcher .receive 0 0, .batcher .timerFires 0 0,
    .write (.recordHeartbeat .stored "a" (heartbeatAt 1) .delivered), .batcher .flushReady 0 0,
    .read 0 .stored naiveMode 5, .send 0 .delivered atOnce]

/-- The cache knows the executor. -/
def loaded : cache.ShardCache :=
  cache.fromNamespaceState .stored ⟨Map.ofList [("a", Map.ofList [("zone", "east")])], ∅, ∅, 3, 3⟩

def loadedExecutor (executorID : String) : Except String cache.ShardOwner :=
  match loaded.shardOwners.lookup executorID with
  | some owner => .ok owner
  | none => .error "executor not found"

def fetched : Label ExactFloat := .fetch 0 loadedExecutor atOnce

theorem cached_fetched : fetched.Cached := by
  intro executorID owner howner
  refine ⟨_, _, (?_ : loaded.shardOwners.lookup executorID = some owner)⟩
  unfold loadedExecutor at howner
  split at howner
  · rename_i found hlookup
    cases howner
    exact hlookup
  · cases howner

/-- The owner is returned to the caller. -/
def delivered : List (Label ExactFloat) := [.flushReturns 0, .batcher .flushDone 0 0]

theorem submitted_answered : ∃ (sys : System ExactFloat) (res : BatchResponse) (resp : GetShardOwnerResponse),
    Run (step "/shards" "orders" .unrounded) (fun _ label => label.Cached) initial sys ∧
    (⟨0, "s"⟩, res) ∈ sys.batcher.answers ∧ (getOrAssign res).resp = some resp ∧ resp.owner = "a" ∧
    Since (sys.submitted 0) (fun s => Owns "/shards" "orders" s resp.owner "s") sys.stores := by
  have heval : (((submitted.foldlM
      (fun sys label => if !isFetch label then step "/shards" "orders" .unrounded label sys else none) initial).bind
      (step "/shards" "orders" .unrounded fetched)).bind fun sys => (delivered.foldlM
      (fun sys label => if !isFetch label then step "/shards" "orders" .unrounded label sys else none) sys).bind
      fun sys => sys.batcher.answers.head?.bind fun answer => (getOrAssign answer.2).resp.map fun resp =>
        decide (answer.1 = ⟨0, "s"⟩ ∧ resp.owner = "a")) = some true := by
    decide +kernel
  obtain ⟨sys₂, hfetched, heval⟩ := Option.bind_eq_some_iff.mp heval
  obtain ⟨sys₁, hsubmitted, hfetched⟩ := Option.bind_eq_some_iff.mp hfetched
  obtain ⟨sys, hdelivered, heval⟩ := Option.bind_eq_some_iff.mp heval
  obtain ⟨⟨req, res⟩, hhead, heval⟩ := Option.bind_eq_some_iff.mp heval
  obtain ⟨resp, hresp, heval⟩ := Option.map_eq_some_iff.mp heval
  obtain ⟨rfl, howner⟩ := of_decide_eq_true heval
  have hcheck : ∀ (sys : System ExactFloat) (label : Label ExactFloat), (!isFetch label) = true → label.Cached :=
    fun _ _ => cached_of_not_isFetch
  have hrun : Run (step "/shards" "orders" .unrounded) (fun _ label => label.Cached) initial sys :=
    ((run_of_foldlM _ hcheck hsubmitted).tail ⟨fetched, cached_fetched, hfetched⟩).trans
      (run_of_foldlM _ hcheck hdelivered)
  have hanswer := List.mem_of_head? hhead
  exact ⟨sys, res, resp, hrun, hanswer, hresp, howner,
    (((getOrAssign_answers _ _ _ sys hrun).1 _ _ hanswer).1 resp hresp).2⟩

end Example

end assigning
