import ShardManager.EphemeralAssigner.Batcher

open golang transition

namespace batcher

section Responses

variable {resp : BatchRequest → BatchResponse} {reqs : List BatchRequest} {b b' : ShardBatcher}

/-- Writing a response changes nothing else. -/
theorem writeResponse_eq_some {response : BatchResponse} {req : BatchRequest}
    (h : writeResponse response req b = some b') :
    b' = { b with
      respChans := b.respChans ++ [(req, response)]
      answers := b.answers ++ [(req, response)] } := by
  unfold writeResponse at h
  split at h
  · cases h
  · exact (Option.some.inj h).symm

theorem writeResponses_eq_some (h : writeResponses resp reqs b = some b') :
    b' = { b with
      respChans := b.respChans ++ reqs.map fun req => (req, resp req)
      answers := b.answers ++ reqs.map fun req => (req, resp req) } := by
  induction reqs generalizing b with
  | nil =>
    cases h
    simp
  | cons req reqs ih =>
    rw [writeResponses, List.foldlM_cons] at h
    obtain ⟨next, hnext, h⟩ := Option.bind_eq_some_iff.mp h
    obtain rfl := writeResponse_eq_some hnext
    rw [ih h]
    simp

theorem map_fst_answers (answers : List (BatchRequest × BatchResponse)) :
    (answers ++ reqs.map fun req => (req, resp req)).map Prod.fst = answers.map Prod.fst ++ reqs := by
  rw [List.map_append, List.map_map]
  exact congrArg _ (List.map_id _)

/-- Writing does not block if none of the requests has been answered before. -/
theorem writeResponses_of_nodup (hslots : ∀ req ∈ b.respChans.map Prod.fst, req ∈ b.answers.map Prod.fst)
    (hnodup : (b.answers.map Prod.fst ++ reqs).Nodup) : ∃ b', writeResponses resp reqs b = some b' := by
  induction reqs generalizing b with
  | nil => exact ⟨b, rfl⟩
  | cons req reqs ih =>
    have hfree : req ∉ b.respChans.map Prod.fst := fun hslot =>
      List.disjoint_of_nodup_append hnodup (hslots req hslot) List.mem_cons_self
    have hwrite : writeResponse (resp req) req b = some { b with
        respChans := b.respChans ++ [(req, resp req)], answers := b.answers ++ [(req, resp req)] } := if_neg hfree
    obtain ⟨b', hb'⟩ := @ih { b with
        respChans := b.respChans ++ [(req, resp req)], answers := b.answers ++ [(req, resp req)] }
      (by
        intro other hother
        simp only [List.map_append, List.mem_append] at hother ⊢
        exact hother.imp_left (hslots other))
      (by simpa using hnodup)
    refine ⟨b', ?_⟩
    rw [writeResponses, List.foldlM_cons, hwrite]
    exact hb'

end Responses

section Moves

/-- Everything a step can do, and whether it is up to a caller. -/
inductive Moves (ns : String) (b : ShardBatcher) : Bool → ShardBatcher → Prop where
  | submit (shardKey : String) : Moves ns b true
      { b with requestChan := b.requestChan ++ [⟨b.nextID, shardKey⟩], nextID := b.nextID + 1 }
  | takeResponse (req : BatchRequest) : Moves ns b true
      { b with respChans := b.respChans.filter fun slot => slot.1 ≠ req }
  | stop : Moves ns b true { b with cancelled := true }
  | timerFires (htimers : 0 < b.timers) (hready : b.flushReady = false) : Moves ns b false
      { b with timers := b.timers - 1, flushReady := true }
  | timerStops (htimers : 0 < b.timers) (hcancelled : b.cancelled = true) : Moves ns b false
      { b with timers := b.timers - 1 }
  | flushReturns {i : Nat} {reqs : List BatchRequest} (hflush : b.flushes[i]? = some reqs) (hdone : b.flushDone = none)
      (res : FlushResult) : Moves ns b false
      { b with flushes := b.flushes.eraseIdx i, flushDone := some res, flushed := b.flushed ++ [(reqs, res)] }
  | receive {req : BatchRequest} {requestChan : List BatchRequest} (hrunning : b.phase = .running)
      (hchan : b.requestChan = req :: requestChan) : Moves ns b false
      (let b := { b with requestChan, pending := b.pending ++ [req], received := b.received ++ [req] }
      if b.inflight = [] ∧ b.scheduled = false then scheduleFlush { b with scheduled := true } else b)
  | flushReady (hrunning : b.phase = .running) (hready : b.flushReady = true) : Moves ns b false
      (flushPending { b with flushReady := false, scheduled := false })
  | flushDone {res : FlushResult} {b' : ShardBatcher} (hrunning : b.phase = .running) (hdone : b.flushDone = some res)
      (hdeliver : deliverResults ns b.inflight res { b with flushDone := none } = some b') : Moves ns b false
      (if b'.pending = [] then { b' with inflight := [] } else flushPending { b' with inflight := [] })
  | cancel {b' : ShardBatcher} (hrunning : b.phase = .running) (hcancelled : b.cancelled = true)
      (hinflight : b.inflight = []) (hcancel : cancelPending b = some b') : Moves ns b false b'
  | wait (hrunning : b.phase = .running) (hcancelled : b.cancelled = true) (hinflight : b.inflight ≠ []) :
      Moves ns b false { b with phase := .waiting }
  | drain {res : FlushResult} {b' b'' : ShardBatcher} (hwaiting : b.phase = .waiting) (hdone : b.flushDone = some res)
      (hdeliver : deliverResults ns b.inflight res { b with flushDone := none } = some b')
      (hcancel : cancelPending { b' with inflight := [] } = some b'') : Moves ns b false b''
  | scan {req : BatchRequest} {requestChan : List BatchRequest} {b' : ShardBatcher} (hscanning : b.phase = .scanning)
      (hchan : b.requestChan = req :: requestChan)
      (hwrite : writeResponse cancellation req { b with requestChan, received := b.received ++ [req] } = some b') :
      Moves ns b false b'
  | exit (hscanning : b.phase = .scanning) (hchan : b.requestChan = []) : Moves ns b false { b with phase := .exited }

theorem moves_of_step {ns : String} {label : Label} {b b' : ShardBatcher} (hstep : step ns label b = some b') :
    Moves ns b label.External b' := by
  cases label with
  | submit shardKey =>
    dsimp only [step] at hstep
    split at hstep
    · cases hstep
      exact .submit shardKey
    · cases hstep
  | takeResponse req =>
    cases hstep
    exact .takeResponse req
  | stop =>
    cases hstep
    exact .stop
  | timerFires =>
    dsimp only [step] at hstep
    split at hstep
    case isTrue henabled =>
      cases hstep
      exact .timerFires henabled.1 henabled.2
    case isFalse => cases hstep
  | timerStops =>
    dsimp only [step] at hstep
    split at hstep
    case isTrue henabled =>
      cases hstep
      exact .timerStops henabled.1 henabled.2
    case isFalse => cases hstep
  | flushReturns i res =>
    dsimp only [step] at hstep
    split at hstep
    · rename_i reqs hflush hdone
      cases hstep
      exact .flushReturns hflush hdone res
    · cases hstep
  | receive =>
    dsimp only [step] at hstep
    split at hstep
    · rename_i req requestChan hrunning hchan
      cases hstep
      exact .receive hrunning hchan
    · cases hstep
  | flushReady =>
    dsimp only [step] at hstep
    split at hstep
    case isTrue henabled =>
      cases hstep
      exact .flushReady henabled.1 henabled.2
    case isFalse => cases hstep
  | flushDone =>
    dsimp only [step] at hstep
    split at hstep
    · rename_i res hrunning hdone
      obtain ⟨b'', hdeliver, rfl⟩ := Option.map_eq_some_iff.mp hstep
      exact .flushDone hrunning hdone hdeliver
    · cases hstep
  | cancel =>
    dsimp only [step] at hstep
    split at hstep
    case isTrue henabled =>
      split at hstep
      case isTrue hinflight => exact .cancel henabled.1 henabled.2 hinflight hstep
      case isFalse hinflight =>
        cases hstep
        exact .wait henabled.1 henabled.2 hinflight
    case isFalse => cases hstep
  | drain =>
    dsimp only [step] at hstep
    split at hstep
    · rename_i res hwaiting hdone
      obtain ⟨b'', hdeliver, hcancel⟩ := Option.bind_eq_some_iff.mp hstep
      exact .drain hwaiting hdone hdeliver hcancel
    · cases hstep
  | scan =>
    dsimp only [step] at hstep
    split at hstep
    · rename_i req requestChan hphase hchan
      exact .scan hphase hchan hstep
    · rename_i hphase hchan
      cases hstep
      exact .exit hphase hchan
    · cases hstep

end Moves

section Invariant

/-- The scan of the request channel has begun. -/
def Phase.drained : Phase → Bool
  | .running | .waiting => false
  | .scanning | .exited => true

/-- The flush of the requests in flight is running or its result is waiting. -/
inductive Flushing : List BatchRequest → List (List BatchRequest) → Option FlushResult →
    List (List BatchRequest × FlushResult) → Prop where
  | idle {flushed} : Flushing [] [] none flushed
  | running {reqs flushed} (hreqs : reqs ≠ []) : Flushing reqs [reqs] none flushed
  | done {reqs res flushed} (hreqs : reqs ≠ []) (hflushed : (reqs, res) ∈ flushed) : Flushing reqs [] (some res) flushed

/-- The request was answered with the result of its batch, or with the
cancellation after the last batch had been made without it. -/
def AnsweredWith (ns : String) (b : ShardBatcher) (req : BatchRequest) (resp : BatchResponse) : Prop :=
  (∃ batch res, (batch, res) ∈ b.flushed ∧ req ∈ batch ∧ resp = toBatchResponse ns res req.shardKey) ∨
    resp = cancellation ∧ (∀ batch ∈ b.batches, req ∉ batch) ∧ b.phase.drained = true

/-- What holds at every point of the loop's work. -/
structure Core (ns : String) (b : ShardBatcher) : Prop where
  /-- Requests are received in the order in which they were made. -/
  ids : (b.received ++ b.requestChan).map BatchRequest.id = List.range b.nextID
  /-- They are answered in this order, too. -/
  unanswered : b.answers.map Prod.fst ++ (b.inflight ++ b.pending) = b.received
  batched : b.phase.drained = false → b.batches.flatten ++ b.pending = b.received
  arrival : b.batches.flatten <+: b.received
  flights : b.flushed.map Prod.fst ++ b.flushes = b.batches
  flushing : Flushing b.inflight b.flushes b.flushDone b.flushed
  window : b.scheduled = true → b.inflight = []
  timers_le : b.timers + b.flushReady.toNat ≤ b.scheduled.toNat
  timers_eq : b.cancelled = false → b.timers + b.flushReady.toNat = b.scheduled.toNat
  stopping : b.phase ≠ .running → b.cancelled = true
  drained : b.phase.drained = true → b.inflight = [] ∧ b.pending = []
  slots : ∀ req ∈ b.respChans.map Prod.fst, req ∈ b.answers.map Prod.fst
  answered : ∀ req resp, (req, resp) ∈ b.answers → AnsweredWith ns b req resp

/-- What holds whenever the loop waits. -/
structure Inv (ns : String) (b : ShardBatcher) : Prop extends Core ns b where
  due : b.phase = .running → b.inflight = [] → (b.scheduled = true ↔ b.pending ≠ [])
  waiting : b.phase = .waiting → b.inflight ≠ []

variable {ns : String} {b b' : ShardBatcher}

theorem inv_newShardBatcher : Inv ns newShardBatcher where
  ids := rfl
  unanswered := rfl
  batched _ := rfl
  arrival := List.nil_prefix
  flights := rfl
  flushing := .idle
  window _ := rfl
  timers_le := le_rfl
  timers_eq _ := rfl
  stopping h := absurd rfl h
  drained _ := ⟨rfl, rfl⟩
  slots req h := absurd h List.not_mem_nil
  answered req resp h := absurd h List.not_mem_nil
  due _ _ := ⟨fun h => (by cases h), fun h => absurd rfl h⟩
  waiting h := by cases h

theorem Core.nodup_received (h : Core ns b) : (b.received ++ b.requestChan).Nodup :=
  List.Nodup.of_map _ (h.ids ▸ List.nodup_range)

theorem Core.nodup_batches (h : Core ns b) : b.batches.flatten.Nodup :=
  (List.nodup_append.mp h.nodup_received).1.sublist h.arrival.sublist

/-- The requests in flight have not been answered, nor those that are pending. -/
theorem Core.nodup_unanswered (h : Core ns b) :
    (b.answers.map Prod.fst ++ (b.inflight ++ b.pending)).Nodup :=
  h.unanswered ▸ (List.nodup_append.mp h.nodup_received).1

theorem Core.idle (h : Core ns b) (hinflight : b.inflight = []) : b.flushes = [] ∧ b.flushDone = none := by
  have hflushing := h.flushing
  rw [hinflight] at hflushing
  generalize b.flushes = flushes, b.flushDone = flushDone at hflushing
  cases hflushing with
  | idle => exact ⟨rfl, rfl⟩
  | running hreqs => exact absurd rfl hreqs
  | done hreqs => exact absurd rfl hreqs

/-- A result that is waiting is that of the requests in flight. -/
theorem Core.result (h : Core ns b) {res : FlushResult} (hdone : b.flushDone = some res) :
    b.flushes = [] ∧ b.inflight ≠ [] ∧ (b.inflight, res) ∈ b.flushed := by
  have hflushing := h.flushing
  rw [hdone] at hflushing
  generalize b.flushes = flushes, b.inflight = inflight at hflushing
  cases hflushing with
  | done hreqs hflushed => exact ⟨rfl, hreqs, hflushed⟩

/-- Only a scheduled flush has a token. -/
theorem Core.scheduled_of_ready (h : Core ns b) (hready : b.flushReady = true) :
    b.scheduled = true ∧ b.timers = 0 := by
  have htimers := h.timers_le
  rw [hready, Bool.toNat_true] at htimers
  have hle : b.scheduled.toNat ≤ 1 := Bool.toNat_le _
  exact ⟨Bool.toNat_eq_one.mp (by omega), by omega⟩

theorem Core.not_scheduled (h : Core ns b) (hinflight : b.inflight ≠ []) : b.scheduled = false :=
  Bool.eq_false_iff.mpr fun hscheduled => hinflight (h.window hscheduled)

/-- Until the scan begins, nothing but results has been delivered. -/
theorem Core.delivered (h : Core ns b) (hphase : b.phase.drained = false) {req : BatchRequest}
    {resp : BatchResponse} (hanswer : (req, resp) ∈ b.answers) :
    ∃ batch res, (batch, res) ∈ b.flushed ∧ req ∈ batch ∧ resp = toBatchResponse ns res req.shardKey := by
  rcases h.answered req resp hanswer with hdelivered | ⟨-, -, hdrained⟩
  · exact hdelivered
  · rw [hphase] at hdrained
    cases hdrained

/-- A batch has all requests that are pending when its flush starts. -/
theorem Core.flushPending (h : Core ns b) (hrunning : b.phase = .running) (hinflight : b.inflight = [])
    (hpending : b.pending ≠ []) (hscheduled : b.scheduled = false) : Inv ns (flushPending b) := by
  have hphase : b.phase.drained = false := by rw [hrunning]; rfl
  have hbatched := h.batched hphase
  obtain ⟨hflushes, hdone⟩ := h.idle hinflight
  have hflatten : (b.batches ++ [b.pending]).flatten = b.received := by
    rw [List.flatten_append, List.flatten_singleton, hbatched]
  have hunanswered := h.unanswered
  rw [hinflight, List.nil_append] at hunanswered
  have hflushing : Flushing b.pending (b.flushes ++ [b.pending]) b.flushDone b.flushed := by
    rw [hflushes, hdone]
    exact .running hpending
  exact {
    ids := h.ids
    unanswered := (congrArg (b.answers.map Prod.fst ++ ·) (List.append_nil _)).trans hunanswered
    batched := fun _ => (List.append_nil _).trans hflatten
    arrival := hflatten ▸ List.prefix_rfl
    flights := (List.append_assoc ..).symm.trans (congrArg (· ++ [b.pending]) h.flights)
    flushing := hflushing
    window := fun hwindow => by cases hscheduled.symm.trans hwindow
    timers_le := h.timers_le
    timers_eq := h.timers_eq
    stopping := h.stopping
    drained := fun hdrained => by cases hphase.symm.trans hdrained
    slots := h.slots
    answered := fun req resp hanswer => .inl (h.delivered hphase hanswer)
    due := fun _ hempty => absurd hempty hpending
    waiting := fun hwaiting => by cases hrunning.symm.trans hwaiting }

theorem Core.deliverResults (h : Core ns b) {res : FlushResult} (hdone : b.flushDone = some res)
    (hdeliver : deliverResults ns b.inflight res { b with flushDone := none } = some b') :
    b'.phase = b.phase ∧ b'.pending = b.pending ∧ b'.scheduled = b.scheduled ∧ b'.cancelled = b.cancelled ∧
      Core ns { b' with inflight := [] } := by
  obtain rfl := writeResponses_eq_some hdeliver
  obtain ⟨hflushes, -, hflushed⟩ := h.result hdone
  refine ⟨rfl, rfl, rfl, rfl, { h with
    unanswered := ?_
    flushing := ?_
    window := fun _ => rfl
    drained := fun hdrained => ⟨rfl, (h.drained hdrained).2⟩
    slots := ?_
    answered := ?_ }⟩
  · rw [map_fst_answers, List.append_assoc]
    exact h.unanswered
  · rw [hflushes]
    exact .idle
  · intro req hslot
    rw [map_fst_answers, List.mem_append] at hslot ⊢
    exact hslot.imp_left (h.slots req)
  · intro req resp hanswer
    rcases List.mem_append.mp hanswer with hanswer | hanswer
    · exact h.answered req resp hanswer
    · obtain ⟨req, hreq, heq⟩ := List.mem_map.mp hanswer
      cases heq
      exact .inl ⟨b.inflight, res, hflushed, hreq, rfl⟩

theorem Core.cancelPending (h : Core ns b) (hphase : b.phase.drained = false) (hinflight : b.inflight = [])
    (hcancelled : b.cancelled = true) (hcancel : cancelPending b = some b') : Inv ns b' := by
  obtain ⟨b'', hwrite, rfl⟩ := Option.map_eq_some_iff.mp hcancel
  obtain rfl := writeResponses_eq_some hwrite
  have hunanswered := h.unanswered
  have hbatched := h.batched hphase
  have hnodup := (List.nodup_append.mp h.nodup_received).1
  rw [hinflight, List.nil_append] at hunanswered
  refine { h with
    unanswered := ?_
    batched := fun hrunning => by cases hrunning
    stopping := fun _ => hcancelled
    drained := fun _ => ⟨hinflight, rfl⟩
    slots := ?_
    answered := ?_
    due := fun hrunning => by cases hrunning
    waiting := fun hwaiting => by cases hwaiting }
  · rw [map_fst_answers, hinflight, hunanswered]
    exact List.append_nil _
  · intro req hslot
    rw [map_fst_answers, List.mem_append] at hslot ⊢
    exact hslot.imp_left (h.slots req)
  · intro req resp hanswer
    rcases List.mem_append.mp hanswer with hanswer | hanswer
    · exact .inl (h.delivered hphase hanswer)
    · obtain ⟨req, hreq, heq⟩ := List.mem_map.mp hanswer
      cases heq
      refine .inr ⟨rfl, fun batch hbatch hmem => ?_, rfl⟩
      rw [← hbatched] at hnodup
      exact List.disjoint_of_nodup_append hnodup (List.mem_flatten.mpr ⟨batch, hbatch, hmem⟩) hreq

end Invariant

section Step

variable {ns : String} {b b' : ShardBatcher}

theorem Inv.submit (h : Inv ns b) (shardKey : String) :
    Inv ns { b with requestChan := b.requestChan ++ [⟨b.nextID, shardKey⟩], nextID := b.nextID + 1 } := by
  refine { h with ids := ?_ }
  have hids := h.ids
  rw [List.range_succ, ← hids]
  simp

theorem Inv.takeResponse (h : Inv ns b) (req : BatchRequest) :
    Inv ns { b with respChans := b.respChans.filter fun slot => slot.1 ≠ req } := by
  refine { h with slots := fun other hother => h.slots other ?_ }
  exact (List.filter_sublist.map Prod.fst).subset hother

theorem Inv.stop (h : Inv ns b) : Inv ns { b with cancelled := true } :=
  { h with
    timers_eq := fun hcancelled => by cases hcancelled
    stopping := fun _ => rfl }

theorem Inv.timerFires (h : Inv ns b) (htimers : 0 < b.timers) (hready : b.flushReady = false) :
    Inv ns { b with timers := b.timers - 1, flushReady := true } := by
  have hcount : b.timers - 1 + true.toNat = b.timers + b.flushReady.toNat := by
    rw [hready, Bool.toNat_true, Bool.toNat_false]
    omega
  exact { h with timers_le := hcount ▸ h.timers_le, timers_eq := hcount ▸ h.timers_eq }

theorem Inv.timerStops (h : Inv ns b) (hcancelled : b.cancelled = true) :
    Inv ns { b with timers := b.timers - 1 } := by
  refine { h with timers_le := ?_, timers_eq := fun hrunning => by cases hcancelled.symm.trans hrunning }
  exact le_trans (Nat.add_le_add_right (Nat.sub_le _ _) _) h.timers_le

theorem AnsweredWith.flushed {req : BatchRequest} {resp : BatchResponse} (h : AnsweredWith ns b req resp)
    (hflushed : b.flushed ⊆ b'.flushed) (hbatches : b'.batches = b.batches) (hphase : b'.phase = b.phase) :
    AnsweredWith ns b' req resp := by
  rw [AnsweredWith, hbatches, hphase]
  refine h.imp_left ?_
  rintro ⟨batch, res, hmem, hreq, rfl⟩
  exact ⟨batch, res, hflushed hmem, hreq, rfl⟩

theorem Inv.flushReturns (h : Inv ns b) {i : Nat} {reqs : List BatchRequest} (hflush : b.flushes[i]? = some reqs)
    (res : FlushResult) :
    Inv ns { b with
      flushes := b.flushes.eraseIdx i, flushDone := some res, flushed := b.flushed ++ [(reqs, res)] } := by
  have hone : b.flushes = [reqs] ∧ b.inflight = reqs ∧ i = 0 ∧ reqs ≠ [] := by
    have hflushing := h.flushing
    generalize b.flushes = flushes, b.inflight = inflight, b.flushDone = flushDone at hflushing hflush
    cases hflushing with
    | idle => cases hflush
    | running hreqs =>
      obtain ⟨hi, heq⟩ := List.getElem?_eq_some_iff.mp hflush
      obtain rfl : i = 0 := by simpa using hi
      cases heq
      exact ⟨rfl, rfl, rfl, hreqs⟩
    | done hreqs => cases hflush
  obtain ⟨hflushes, hinflight, rfl, hreqs⟩ := hone
  refine { h with flights := ?_, flushing := ?_, answered := ?_ }
  · have hflights := h.flights
    rw [hflushes] at hflights ⊢
    rw [List.map_append]
    exact (List.append_nil _).trans hflights
  · rw [hflushes, hinflight]
    exact .done hreqs (List.mem_append_right _ List.mem_cons_self)
  · intro req resp hanswer
    exact (h.answered req resp hanswer).flushed (List.subset_append_left _ _) rfl rfl

theorem Core.receive (h : Core ns b) (hrunning : b.phase = .running) {req : BatchRequest}
    {requestChan : List BatchRequest} (hchan : b.requestChan = req :: requestChan) :
    Core ns { b with requestChan, pending := b.pending ++ [req], received := b.received ++ [req] } := by
  have hphase : b.phase.drained = false := by rw [hrunning]; rfl
  have hbatched : b.batches.flatten ++ (b.pending ++ [req]) = b.received ++ [req] := by
    rw [← List.append_assoc, h.batched hphase]
  refine { h with
    ids := ?_
    unanswered := ?_
    batched := fun _ => hbatched
    arrival := ⟨_, hbatched⟩
    drained := fun hdrained => by cases hphase.symm.trans hdrained }
  · have hids := h.ids
    rw [hchan] at hids
    rw [List.append_assoc]
    exact hids
  · rw [← List.append_assoc, ← List.append_assoc, List.append_assoc (b.answers.map Prod.fst), h.unanswered]

theorem Core.scheduleFlush (h : Core ns b) (hrunning : b.phase = .running) (hinflight : b.inflight = [])
    (hscheduled : b.scheduled = false) (hpending : b.pending ≠ []) :
    Inv ns (scheduleFlush { b with scheduled := true }) := by
  have htimers := h.timers_le
  have htimers_eq := h.timers_eq
  rw [hscheduled, Bool.toNat_false] at htimers htimers_eq
  refine { h with
    window := fun _ => hinflight
    timers_le := ?_
    timers_eq := ?_
    due := fun _ _ => ⟨fun _ => hpending, fun _ => rfl⟩
    waiting := fun hwaiting => by cases hrunning.symm.trans hwaiting }
  · change b.timers + 1 + b.flushReady.toNat ≤ 1
    omega
  · change b.cancelled = false → b.timers + 1 + b.flushReady.toNat = 1
    omega

/-- A request joins the pending ones, and a flush is scheduled unless there is
one to wait for. -/
theorem Inv.receive (h : Inv ns b) (hrunning : b.phase = .running) {req : BatchRequest}
    {requestChan : List BatchRequest} (hchan : b.requestChan = req :: requestChan) :
    let b := { b with requestChan, pending := b.pending ++ [req], received := b.received ++ [req] }
    Inv ns (if b.inflight = [] ∧ b.scheduled = false then scheduleFlush { b with scheduled := true } else b) := by
  intro b₁
  have hcore : Core ns b₁ := h.toCore.receive hrunning hchan
  have hpending : b₁.pending ≠ [] := List.append_ne_nil_of_right_ne_nil _ (List.cons_ne_nil _ _)
  split
  case isTrue hidle => exact hcore.scheduleFlush hrunning hidle.1 hidle.2 hpending
  case isFalse hbusy =>
    refine { hcore with due := fun _ hinflight => ?_, waiting := fun hwaiting => by cases hrunning.symm.trans hwaiting }
    refine ⟨fun _ => hpending, fun _ => ?_⟩
    exact Bool.not_eq_false _ |>.mp fun hscheduled => hbusy ⟨hinflight, hscheduled⟩

theorem Inv.flushReady (h : Inv ns b) (hrunning : b.phase = .running) (hready : b.flushReady = true) :
    Inv ns (flushPending { b with flushReady := false, scheduled := false }) := by
  obtain ⟨hscheduled, htimers⟩ := h.scheduled_of_ready hready
  have hinflight := h.window hscheduled
  have hcore : Core ns { b with flushReady := false, scheduled := false } :=
    { h with
      window := fun _ => hinflight
      timers_le := htimers.le
      timers_eq := fun _ => htimers }
  exact hcore.flushPending hrunning hinflight ((h.due hrunning hinflight).mp hscheduled) rfl

theorem Inv.flushDone (h : Inv ns b) (hrunning : b.phase = .running) {res : FlushResult}
    (hdone : b.flushDone = some res)
    (hdeliver : deliverResults ns b.inflight res { b with flushDone := none } = some b') :
    Inv ns (if b'.pending = [] then { b' with inflight := [] } else flushPending { b' with inflight := [] }) := by
  obtain ⟨hphase, -, hscheduled', -, hcore⟩ := h.toCore.deliverResults hdone hdeliver
  have hscheduled : b'.scheduled = false := hscheduled'.trans (h.not_scheduled (h.result hdone).2.1)
  split
  case isTrue hpending =>
    refine { hcore with
      due := fun _ _ => ⟨fun htrue => ?_, fun hne => absurd hpending hne⟩
      waiting := fun hwaiting => by cases (hphase.trans hrunning).symm.trans hwaiting }
    cases hscheduled.symm.trans htrue
  case isFalse hpending => exact hcore.flushPending (hphase.trans hrunning) rfl hpending hscheduled

theorem Inv.wait (h : Inv ns b) (hphase : b.phase.drained = false) (hinflight : b.inflight ≠ [])
    (hcancelled : b.cancelled = true) : Inv ns { b with phase := .waiting } :=
  { h with
    batched := fun _ => h.batched hphase
    stopping := fun _ => hcancelled
    drained := fun hdrained => by cases hdrained
    answered := fun _ _ hanswer => .inl (h.delivered hphase hanswer)
    due := fun hrunning => by cases hrunning
    waiting := fun _ => hinflight }

theorem Inv.exit (h : Inv ns b) (hphase : b.phase = .scanning) : Inv ns { b with phase := .exited } := by
  have hdrained : b.phase.drained = true := by rw [hphase]; rfl
  exact { h with
    batched := fun hbatched => by cases hbatched
    stopping := fun _ => h.stopping (by rw [hphase]; decide)
    drained := fun _ => h.drained hdrained
    answered := fun req resp hanswer => (h.answered req resp hanswer).imp_right fun hcancelled =>
      ⟨hcancelled.1, hcancelled.2.1, rfl⟩
    due := fun hrunning => by cases hrunning
    waiting := fun hwaiting => by cases hwaiting }

theorem Inv.drain (h : Inv ns b) (hwaiting : b.phase = .waiting) {res : FlushResult} (hdone : b.flushDone = some res)
    {b'' : ShardBatcher} (hdeliver : deliverResults ns b.inflight res { b with flushDone := none } = some b')
    (hcancel : cancelPending { b' with inflight := [] } = some b'') : Inv ns b'' := by
  obtain ⟨hphase, -, -, hcancelled, hcore⟩ := h.toCore.deliverResults hdone hdeliver
  refine hcore.cancelPending ?_ rfl ?_ hcancel
  · change b'.phase.drained = false
    rw [hphase, hwaiting]
    rfl
  · exact hcancelled.trans (h.stopping (by rw [hwaiting]; decide))

theorem Inv.scan (h : Inv ns b) (hphase : b.phase = .scanning) {req : BatchRequest}
    {requestChan : List BatchRequest} (hchan : b.requestChan = req :: requestChan)
    (hwrite : writeResponse cancellation req { b with requestChan, received := b.received ++ [req] } = some b') :
    Inv ns b' := by
  have hdrained : b.phase.drained = true := by rw [hphase]; rfl
  obtain ⟨hinflight, hpending⟩ := h.drained hdrained
  have hanswers := h.unanswered
  rw [hinflight, hpending, List.append_nil, List.append_nil] at hanswers
  have hids := h.ids
  rw [hchan] at hids
  have hnew : req ∉ b.received := by
    have hnodup := h.nodup_received
    rw [hchan] at hnodup
    exact fun hreq => List.disjoint_of_nodup_append hnodup hreq List.mem_cons_self
  obtain rfl := writeResponse_eq_some hwrite
  refine { h with
    ids := ?_
    unanswered := ?_
    batched := fun hbatched => by cases hdrained.symm.trans hbatched
    arrival := h.arrival.trans (List.prefix_append _ _)
    slots := ?_
    answered := ?_
    due := fun hrunning => by cases hphase.symm.trans hrunning }
  · rw [List.append_assoc]
    exact hids
  · rw [hinflight, hpending, List.map_append, hanswers]
    exact List.append_nil _
  · intro other hslot
    rw [List.map_append, List.mem_append] at hslot ⊢
    exact hslot.imp_left (h.slots other)
  · intro other resp hanswer
    rcases List.mem_append.mp hanswer with hanswer | hanswer
    · exact h.answered other resp hanswer
    · cases List.mem_singleton.mp hanswer
      refine .inr ⟨rfl, fun batch hbatch hmem => hnew (h.arrival.subset ?_), hdrained⟩
      exact List.mem_flatten.mpr ⟨batch, hbatch, hmem⟩

theorem Inv.moves {external : Bool} (h : Inv ns b) (hmoves : Moves ns b external b') : Inv ns b' := by
  cases hmoves with
  | submit shardKey => exact h.submit shardKey
  | takeResponse req => exact h.takeResponse req
  | stop => exact h.stop
  | timerFires htimers hready => exact h.timerFires htimers hready
  | timerStops htimers hcancelled => exact h.timerStops hcancelled
  | flushReturns hflush hdone res => exact h.flushReturns hflush res
  | receive hrunning hchan => exact h.receive hrunning hchan
  | flushReady hrunning hready => exact h.flushReady hrunning hready
  | flushDone hrunning hdone hdeliver => exact h.flushDone hrunning hdone hdeliver
  | cancel hrunning hcancelled hinflight hcancel =>
    exact h.toCore.cancelPending (by rw [hrunning]; rfl) hinflight hcancelled hcancel
  | wait hrunning hcancelled hinflight => exact h.wait (by rw [hrunning]; rfl) hinflight hcancelled
  | drain hwaiting hdone hdeliver hcancel => exact h.drain hwaiting hdone hdeliver hcancel
  | scan hscanning hchan hwrite => exact h.scan hscanning hchan hwrite
  | exit hscanning hchan => exact h.exit hscanning

end Step

section Progress

variable {ns : String} {b b' : ShardBatcher}

def Phase.work : Phase → Nat
  | .running => 3
  | .waiting => 2
  | .scanning => 1
  | .exited => 0

/-- What the batcher has left to do. -/
def work (b : ShardBatcher) : Nat :=
  7 * b.requestChan.length + 2 * b.pending.length + 4 * b.timers + 3 * b.flushReady.toNat +
    2 * b.flushes.length + b.flushDone.isSome.toNat + b.phase.work

theorem work_flushPending (b : ShardBatcher) : work (flushPending b) + 2 * b.pending.length = work b + 2 := by
  simp only [work, flushPending, startFlush, List.length_append, List.length_nil, List.length_singleton]
  omega

theorem work_cancelPending (h : cancelPending b = some b') : work b' + b.phase.work ≤ work b + 1 := by
  obtain ⟨b'', hwrite, rfl⟩ := Option.map_eq_some_iff.mp h
  obtain rfl := writeResponses_eq_some hwrite
  simp only [work, List.length_nil, Phase.work]
  omega

theorem work_deliverResults {reqs : List BatchRequest} {res : FlushResult} (hdone : b.flushDone = some res)
    (h : deliverResults ns reqs res { b with flushDone := none } = some b') :
    b'.phase = b.phase ∧ work { b' with inflight := [] } + 1 = work b := by
  obtain rfl := writeResponses_eq_some h
  refine ⟨rfl, ?_⟩
  simp only [work, hdone, Option.isSome_none, Option.isSome_some, Bool.toNat_false, Bool.toNat_true]
  omega

/-- By itself the batcher gets less to do with every step. -/
theorem work_lt_of_moves (hmoves : Moves ns b false b') : work b' < work b := by
  cases hmoves with
  | timerFires htimers hready =>
    simp only [work, hready, Bool.toNat_true, Bool.toNat_false]
    omega
  | timerStops htimers hcancelled =>
    simp only [work]
    omega
  | flushReturns hflush hdone res =>
    obtain ⟨hi, -⟩ := List.getElem?_eq_some_iff.mp hflush
    simp only [work, hdone, List.length_eraseIdx_of_lt hi, Option.isSome_some, Option.isSome_none, Bool.toNat_true,
      Bool.toNat_false]
    omega
  | receive hrunning hchan =>
    dsimp only
    split
    · simp only [work, scheduleFlush, hchan, List.length_cons, List.length_append, List.length_nil]
      omega
    · simp only [work, hchan, List.length_cons, List.length_append, List.length_nil]
      omega
  | flushReady hrunning hready =>
    have hflush := work_flushPending { b with flushReady := false, scheduled := false }
    have htoken : work { b with flushReady := false, scheduled := false } + 3 = work b := by
      simp only [work, hready, Bool.toNat_true, Bool.toNat_false]
      omega
    omega
  | @flushDone res b' hrunning hdone hdeliver =>
    obtain ⟨-, hdelivered⟩ := work_deliverResults hdone hdeliver
    split
    case isTrue => omega
    case isFalse hpending =>
      have hflush := work_flushPending { b' with inflight := [] }
      have hlength : 0 < b'.pending.length := List.length_pos_iff.mpr hpending
      dsimp only at hflush
      omega
  | cancel hrunning hcancelled hinflight hcancel =>
    have hwork := work_cancelPending hcancel
    rw [hrunning, Phase.work] at hwork
    omega
  | wait hrunning hcancelled hinflight =>
    simp only [work, hrunning, Phase.work]
    omega
  | @drain res b' _ hwaiting hdone hdeliver hcancel =>
    obtain ⟨hphase, hdelivered⟩ := work_deliverResults hdone hdeliver
    have hcancelled := work_cancelPending hcancel
    dsimp only at hcancelled
    have htwo : b'.phase.work = 2 := by rw [hphase, hwaiting]; rfl
    omega
  | scan hscanning hchan hwrite =>
    obtain rfl := writeResponse_eq_some hwrite
    simp only [work, hchan, List.length_cons]
    omega
  | exit hscanning hchan =>
    simp only [work, hscanning, Phase.work]
    omega

/-- The batcher can do nothing until a caller does something. -/
def AtRest (ns : String) (b : ShardBatcher) : Prop :=
  ∀ label, label.External = false → step ns label b = none

theorem deliverResults_of_core (h : Core ns b) (res : FlushResult) :
    ∃ b', deliverResults ns b.inflight res { b with flushDone := none } = some b' := by
  have hnodup := h.nodup_unanswered
  rw [← List.append_assoc] at hnodup
  exact writeResponses_of_nodup h.slots (List.nodup_append.mp hnodup).1

theorem cancelPending_of_core (h : Core ns b) (hinflight : b.inflight = []) : ∃ b', cancelPending b = some b' := by
  have hnodup := h.nodup_unanswered
  rw [hinflight, List.nil_append] at hnodup
  obtain ⟨b', hwrite⟩ := writeResponses_of_nodup h.slots hnodup
  exact ⟨_, Option.map_eq_some_iff.mpr ⟨b', hwrite, rfl⟩⟩

/-- At rest every flush has finished. -/
theorem AtRest.flushes (hrest : AtRest ns b) (hdone : b.flushDone = none) : b.flushes = [] := by
  cases hflushes : b.flushes with
  | nil => rfl
  | cons reqs flushes =>
    have hnone := hrest (.flushReturns 0 ⟨∅, ∅, none⟩) rfl
    simp [step, hflushes, hdone] at hnone

theorem AtRest.timers (hrest : AtRest ns b) (hready : b.flushReady = false) : b.timers = 0 := by
  have hnone := hrest .timerFires rfl
  by_contra hpos
  simp [step, hready, Nat.pos_of_ne_zero hpos] at hnone

theorem Inv.running_at_rest (h : Inv ns b) (hrest : AtRest ns b) (hrunning : b.phase = .running) :
    b.requestChan = [] ∧ b.inflight = [] ∧ b.pending = [] := by
  have hchan : b.requestChan = [] := by
    cases hchan : b.requestChan with
    | nil => rfl
    | cons req requestChan =>
      have hnone := hrest .receive rfl
      simp [step, hrunning, hchan] at hnone
  have hready : b.flushReady = false := by
    have hnone := hrest .flushReady rfl
    simpa [step, hrunning] using hnone
  have hdone : b.flushDone = none := by
    cases hdone : b.flushDone with
    | none => rfl
    | some res =>
      obtain ⟨b', hdeliver⟩ := deliverResults_of_core h.toCore res
      have hnone := hrest .flushDone rfl
      rw [hrunning] at hdeliver
      simp [step, hrunning, hdone, hdeliver] at hnone
  have hinflight : b.inflight = [] := by
    have hflushing := h.flushing
    rw [hrest.flushes hdone, hdone] at hflushing
    generalize b.inflight = inflight at hflushing
    cases hflushing
    rfl
  have hcancelled : b.cancelled = false := by
    obtain ⟨b', hcancel⟩ := cancelPending_of_core h.toCore hinflight
    have hnone := hrest .cancel rfl
    simpa [step, hrunning, hinflight, hcancel] using hnone
  have hscheduled : b.scheduled = false := by
    have htimers := h.timers_eq hcancelled
    rw [hrest.timers hready, hready, Bool.toNat_false] at htimers
    exact Bool.toNat_eq_zero.mp htimers.symm
  refine ⟨hchan, hinflight, ?_⟩
  by_contra hpending
  cases hscheduled.symm.trans ((h.due hrunning hinflight).mpr hpending)

theorem Inv.not_waiting_at_rest (h : Inv ns b) (hrest : AtRest ns b) : b.phase ≠ .waiting := by
  intro hwaiting
  have hinflight := h.waiting hwaiting
  cases hdone : b.flushDone with
  | none =>
    have hflushing := h.flushing
    rw [hrest.flushes hdone, hdone] at hflushing
    generalize b.inflight = inflight at hflushing hinflight
    cases hflushing
    exact hinflight rfl
  | some res =>
    obtain ⟨b', hdeliver⟩ := deliverResults_of_core h.toCore res
    obtain ⟨-, -, -, -, hcore⟩ := h.toCore.deliverResults hdone hdeliver
    obtain ⟨b'', hcancel⟩ := cancelPending_of_core hcore rfl
    have hnone := hrest .drain rfl
    rw [hwaiting] at hdeliver
    simp [step, hwaiting, hdone, hdeliver, hcancel] at hnone

theorem Inv.not_scanning_at_rest (h : Inv ns b) (hrest : AtRest ns b) : b.phase ≠ .scanning := by
  intro hscanning
  have hnone := hrest .scan rfl
  cases hchan : b.requestChan with
  | nil => simp [step, hscanning, hchan] at hnone
  | cons req requestChan =>
    have hreceived := h.nodup_received
    rw [← h.unanswered, hchan] at hreceived
    have hfree : req ∉ b.respChans.map Prod.fst := fun hslot =>
      List.disjoint_of_nodup_append hreceived (List.mem_append_left _ (h.slots req hslot)) List.mem_cons_self
    simp only [step, hscanning, hchan, writeResponse, if_neg hfree] at hnone
    cases hnone

/-- A batcher at rest has returned, or it waits with nothing left to do. In
particular no write to a response channel blocks. -/
theorem Inv.at_rest (h : Inv ns b) (hrest : AtRest ns b) :
    (b.phase = .exited ∨ b.phase = .running ∧ b.requestChan = []) ∧ b.inflight = [] ∧ b.pending = [] := by
  cases hphase : b.phase with
  | running =>
    obtain ⟨hchan, hempty⟩ := h.running_at_rest hrest hphase
    exact ⟨.inr ⟨rfl, hchan⟩, hempty⟩
  | waiting => exact absurd hphase (h.not_waiting_at_rest hrest)
  | scanning => exact absurd hphase (h.not_scanning_at_rest hrest)
  | exited => exact ⟨.inl rfl, h.drained (by rw [hphase]; rfl)⟩

end Progress

section Run

variable {ns : String} {b b' : ShardBatcher}

theorem inv_of_run (h : Reaches (step ns) newShardBatcher b) : Inv ns b :=
  h.invariant (Inv ns) (fun _ _ _ hinv _ hstep => hinv.moves (moves_of_step hstep)) inv_newShardBatcher

/-- How often a request has been answered. -/
def timesAnswered (b : ShardBatcher) (req : BatchRequest) : Nat :=
  (b.answers.map Prod.fst).count req

theorem Core.timesAnswered_le (h : Core ns b) (req : BatchRequest) : timesAnswered b req ≤ 1 :=
  List.nodup_iff_count_le_one.mp (List.nodup_append.mp h.nodup_unanswered).1 req

theorem Core.timesAnswered_eq (h : Core ns b) (hinflight : b.inflight = []) (hpending : b.pending = [])
    {req : BatchRequest} (hreq : req ∈ b.received) : timesAnswered b req = 1 := by
  have hanswers := h.unanswered
  rw [hinflight, hpending, List.append_nil, List.append_nil] at hanswers
  refine le_antisymm (h.timesAnswered_le req) (List.count_pos_iff.mpr ?_)
  rw [hanswers]
  exact hreq

/-- A request is in the channel of a loop that has not returned, or it has been
received. -/
def Taken (b : ShardBatcher) (req : BatchRequest) : Prop :=
  req ∈ b.received ∨ b.phase ≠ .exited ∧ req ∈ b.requestChan

theorem taken_cancelPending {req : BatchRequest} (hcancel : cancelPending b = some b') (h : Taken b req) :
    Taken b' req := by
  obtain ⟨b'', hwrite, rfl⟩ := Option.map_eq_some_iff.mp hcancel
  obtain rfl := writeResponses_eq_some hwrite
  exact h.imp_right fun hchan => ⟨fun hexited => (by cases hexited), hchan.2⟩

/-- Nothing is left in the channel when the loop returns. -/
theorem Taken.moves {external : Bool} {req : BatchRequest} (h : Taken b req) (hmoves : Moves ns b external b') :
    Taken b' req := by
  -- What happens to the first request of the channel.
  have hreceived : ∀ {next requestChan}, b.requestChan = next :: requestChan →
      req ∈ b.received ++ [next] ∨ b.phase ≠ .exited ∧ req ∈ requestChan := by
    intro next requestChan hchan
    rcases h with hreceived | ⟨hphase, hmem⟩
    · exact .inl (List.mem_append_left _ hreceived)
    · rw [hchan, List.mem_cons] at hmem
      rcases hmem with rfl | hmem
      · exact .inl (List.mem_append_right _ List.mem_cons_self)
      · exact .inr ⟨hphase, hmem⟩
  cases hmoves with
  | submit shardKey => exact h.imp_right fun hchan => ⟨hchan.1, List.mem_append_left _ hchan.2⟩
  | takeResponse req => exact h
  | stop => exact h
  | timerFires => exact h
  | timerStops => exact h
  | flushReturns => exact h
  | receive hrunning hchan =>
    dsimp only
    split
    · exact hreceived hchan
    · exact hreceived hchan
  | flushReady => exact h
  | flushDone hrunning hdone hdeliver =>
    obtain rfl := writeResponses_eq_some hdeliver
    split
    · exact h
    · exact h
  | cancel hrunning hcancelled hinflight hcancel => exact taken_cancelPending hcancel h
  | wait => exact h.imp_right fun hchan => ⟨fun hexited => (by cases hexited), hchan.2⟩
  | drain hwaiting hdone hdeliver hcancel =>
    obtain rfl := writeResponses_eq_some hdeliver
    exact taken_cancelPending hcancel h
  | scan hscanning hchan hwrite =>
    obtain rfl := writeResponse_eq_some hwrite
    exact hreceived hchan
  | exit hscanning hchan =>
    rcases h with hreceived | ⟨-, hmem⟩
    · exact .inl hreceived
    · rw [hchan] at hmem
      cases hmem

theorem taken_of_run {req : BatchRequest} (hrun : Reaches (step ns) b b') (h : Taken b req) : Taken b' req :=
  hrun.invariant (Taken · req) (fun _ _ _ htaken _ hstep => htaken.moves (moves_of_step hstep)) h

/-- The batcher answers every request exactly once. At most one flush is in
flight, and a token of `flushReady` is received only while there is none. Once
the loop has returned or the batcher is at rest, every request that was received
has been answered; it comes to rest since its own steps leave it less and less to
do. The loop returns with every request answered that was in the channel before.
A request that was in a batch is answered with the result of this batch, all
others with the cancellation. Batches are disjoint and in arrival order. -/
theorem answered_exactly_once (ns : String) (b : ShardBatcher) (hrun : Reaches (step ns) newShardBatcher b) :
    b.flushes.length ≤ 1 ∧
    (∀ b', step ns .flushReady b = some b' → b.inflight = []) ∧
    (∀ req, timesAnswered b req ≤ 1) ∧
    (b.phase = .exited ∨ AtRest ns b → ∀ req ∈ b.received, timesAnswered b req = 1) ∧
    (∀ label b', label.External = false → step ns label b = some b' → work b' < work b) ∧
    (∀ b', b.phase ≠ .exited → Reaches (step ns) b b' → b'.phase = .exited →
      ∀ req ∈ b.requestChan, timesAnswered b' req = 1) ∧
    (∀ req resp, (req, resp) ∈ b.answers →
      (∃ batch res, (batch, res) ∈ b.flushed ∧ req ∈ batch ∧ resp = toBatchResponse ns res req.shardKey) ∨
        resp = cancellation ∧ ∀ batch ∈ b.batches, req ∉ batch) ∧
    b.flushed.map Prod.fst <+: b.batches ∧ b.batches.flatten.Nodup ∧ b.batches.flatten <+: b.received := by
  have hinv := inv_of_run hrun
  refine ⟨?_, ?_, hinv.timesAnswered_le, ?_, ?_, ?_, ?_, ⟨_, hinv.flights⟩, hinv.nodup_batches, hinv.arrival⟩
  · have hflushing := hinv.flushing
    generalize b.flushes = flushes, b.inflight = inflight, b.flushDone = flushDone at hflushing ⊢
    cases hflushing with
    | idle => exact Nat.zero_le _
    | running => exact le_rfl
    | done => exact Nat.zero_le _
  · intro b' hstep
    dsimp only [step] at hstep
    split at hstep
    case isTrue henabled => exact hinv.window (hinv.scheduled_of_ready henabled.2).1
    case isFalse => cases hstep
  · intro hend req hreq
    have hempty : b.inflight = [] ∧ b.pending = [] := by
      rcases hend with hexited | hrest
      · exact hinv.drained (by rw [hexited]; rfl)
      · exact (hinv.at_rest hrest).2
    exact hinv.timesAnswered_eq hempty.1 hempty.2 hreq
  · intro label b' hexternal hstep
    exact work_lt_of_moves (hexternal ▸ moves_of_step hstep)
  · intro b' hphase hrun' hexited req hreq
    have hinv' := inv_of_run (hrun.trans hrun')
    obtain ⟨hinflight, hpending⟩ := hinv'.drained (by rw [hexited]; rfl)
    rcases taken_of_run hrun' (.inr ⟨hphase, hreq⟩) with hreceived | ⟨hnot, -⟩
    · exact hinv'.timesAnswered_eq hinflight hpending hreceived
    · exact absurd hexited hnot
  · intro req resp hanswer
    exact (hinv.answered req resp hanswer).imp_right fun hcancelled => ⟨hcancelled.1, hcancelled.2.1⟩

end Run

section Examples

/-- Two requests arrive while the first is being flushed and make up the second
batch. A fourth is in the channel when the batcher is stopped. -/
def stoppedLate : List Label :=
  let res : FlushResult := ⟨Map.ofList [("s1", some ⟨"a", "orders", ∅⟩), ("s2", some ⟨"b", "orders", ∅⟩)],
    Map.ofList [("s3", ())], none⟩
  [.submit "s1", .receive, .timerFires, .flushReady, .submit "s2", .submit "s3", .receive, .receive,
    .flushReturns 0 res, .flushDone, .submit "s4", .stop, .cancel, .flushReturns 0 res, .drain, .scan, .scan]

theorem stoppedLate_answered : ∃ b, Reaches (step "orders") newShardBatcher b ∧ b.phase = .exited ∧
    b.batches = [[⟨0, "s1"⟩], [⟨1, "s2"⟩, ⟨2, "s3"⟩]] ∧
    b.answers.map (fun (req, answer) => (req.shardKey, answer.resp.map (·.owner), answer.err)) =
      [("s1", some "a", none), ("s2", some "b", none), ("s3", none, some (.shardDrained "orders" "s3")),
        ("s4", none, some .canceled)] ∧
    ∀ req ∈ b.received, timesAnswered b req = 1 := by
  have heval : (stoppedLate.foldlM (fun b label => step "orders" label b) newShardBatcher).map (fun b =>
      decide (b.phase = .exited ∧ b.batches = [[⟨0, "s1"⟩], [⟨1, "s2"⟩, ⟨2, "s3"⟩]] ∧
        b.answers.map (fun (req, answer) => (req.shardKey, answer.resp.map (·.owner), answer.err)) =
          [("s1", some "a", none), ("s2", some "b", none), ("s3", none, some (.shardDrained "orders" "s3")),
            ("s4", none, some .canceled)])) = some true := by
    decide +kernel
  obtain ⟨b, hfold, heval⟩ := Option.map_eq_some_iff.mp heval
  obtain ⟨hexited, hbatches, hanswers⟩ := of_decide_eq_true heval
  have hreach := reaches_of_foldlM hfold
  exact ⟨b, hreach, hexited, hbatches, hanswers, (answered_exactly_once _ b hreach).2.2.2.1 (.inl hexited)⟩

end Examples

end batcher
