import ShardManager.ExecutorClient.Heartbeats

open golang types

namespace executorclient

/-- Which processors there are, and on which of them `Start` was invoked. -/
def Registry.startsInvoked (r : Registry) : List Bool := r.processors.map (·.startInvoked)

/-- The loop has handled a drain, a stop or a cancelled context, and no undrain
since. -/
def Loop.outOfService : Loop → Bool
  | .waitingForUndrain | .ended => true
  | _ => false

/-- The next step of the loop completes the handling of a signal. -/
def Loop.completes (loop : Loop) (e : Executor) : Bool :=
  match loop with
  | .draining _ => !e.enabled
  | .drainingSent _ => true
  | _ => false

def Beat.over : Beat → Bool
  | .done _ => true
  | _ => false

/-- The call is in the middle of a heartbeat or of the update after it. -/
def Caller.busy (c : Caller) : Bool :=
  match c.phase with
  | .beating beat => !beat.over
  | _ => false

/-- The call is about to ask whether the executor is enabled. -/
def Caller.checksEnabled (c : Caller) : Bool :=
  match c.phase with
  | .checkEnabled => true
  | _ => false

namespace System

/-- No call is in the middle of a heartbeat, and `Start` was invoked on every
processor there is. -/
def quiet (sys : System) : Bool :=
  (sys.callers.all fun c => !c.busy) && sys.executor.registry.startsInvoked.all id

/-- Out of service no call finds the executor enabled after it missed its
processor, and the loop goes out of service when everything is quiet. -/
def undisturbed (sys : System) : Label → Bool
  | .caller i .next =>
    !(sys.loop.outOfService && sys.executor.enabled && sys.callers[i]?.any Caller.checksEnabled)
  | .loop .next => !sys.loop.completes sys.executor || sys.quiet
  | _ => true

/-- The executor has sent no further heartbeat with status ACTIVE and has
neither created nor started a processor. -/
structure Silent (sys sys' : System) : Prop where
  activeSent : sys'.executor.activeSent = sys.executor.activeSent
  startsInvoked : sys'.executor.registry.startsInvoked = sys.executor.registry.startsInvoked

end System

/-- A call that is not busy leaves the executor alone, and becomes busy only by
finding it enabled. -/
theorem Caller.advance_of_not_busy {order : RangeOrder} {i : Nat} {c c' : Caller} {e e' : Executor}
    {label : CallLabel} (hbusy : c.busy = false) (h : c.advance order i e label = some (c', e')) :
    e' = e ∧ (c'.busy = false ∨ label = .next ∧ c.checksEnabled = true ∧ e.enabled = true) := by
  obtain ⟨shardID, since, phase⟩ := c
  cases label with
  | next =>
    cases phase with
    | firstLoad =>
      dsimp only [advance] at h
      split at h <;> cases h <;> exact ⟨rfl, .inl rfl⟩
    | checkEnabled =>
      dsimp only [advance] at h
      split at h
      · rename_i henabled
        cases h
        exact ⟨rfl, .inr ⟨rfl, rfl, henabled⟩⟩
      · cases h
        exact ⟨rfl, .inl rfl⟩
    | beating beat =>
      cases beat with
      | done ok => cases ok <;> cases h <;> exact ⟨rfl, .inl rfl⟩
      | _ => cases hbusy
    | secondLoad =>
      dsimp only [advance] at h
      split at h <;> cases h <;> exact ⟨rfl, .inl rfl⟩
    | returned result => cases h
  | beat label =>
    cases phase with
    | beating beat =>
      cases beat with
      | done ok => cases label <;> cases h
      | _ => cases hbusy
    | _ => cases h

/-- A loop that is out of service stays so unless it is undrained, and gets
there only by completing the handling of a signal. -/
theorem Loop.advance_outOfService {order : RangeOrder} {loop loop' : Loop} {e e' : Executor}
    {label : LoopLabel} (h : loop.advance order e label = some (loop', e'))
    (hout : loop'.outOfService = true) :
    loop.outOfService = true ∨ e' = e ∧ label = .next ∧ loop.completes e = true := by
  cases loop with
  | selecting =>
    cases label with
    | tick =>
      cases h
      cases hout
    | signal signal =>
      cases h
      cases hout
    | _ => cases h
  | ticked =>
    cases label with
    | next =>
      dsimp only [advance] at h
      split at h <;> cases h <;> cases hout
    | _ => cases h
  | beating beat =>
    cases label with
    | beat label =>
      obtain ⟨_, _, heq⟩ := Option.map_eq_some_iff.mp h
      cases heq
      cases hout
    | next =>
      cases beat with
      | done ok =>
        cases h
        cases hout
      | _ => cases h
    | _ => cases beat <;> cases h
  | stopping signal work =>
    cases label with
    | work label =>
      obtain ⟨_, _, heq⟩ := Option.map_eq_some_iff.mp h
      cases heq
      cases hout
    | next =>
      dsimp only [advance] at h
      split at h <;> cases h
      cases hout
    | _ => cases h
  | draining signal =>
    cases label with
    | next =>
      dsimp only [advance] at h
      split at h
      · cases h
        cases hout
      · rename_i hdisabled
        cases h
        exact .inr ⟨rfl, rfl, by simpa [completes] using hdisabled⟩
    | _ => cases h
  | drainingSent signal =>
    cases label with
    | next =>
      cases h
      exact .inr ⟨rfl, rfl, rfl⟩
    | _ => cases h
  | waitingForUndrain => exact .inl rfl
  | ended => exact .inl rfl

theorem Loop.advance_eq_of_outOfService {order : RangeOrder} {loop loop' : Loop} {e e' : Executor}
    {label : LoopLabel} (h : loop.advance order e label = some (loop', e'))
    (hout : loop.outOfService = true) : e' = e := by
  cases loop with
  | waitingForUndrain =>
    cases label with
    | undrain =>
      cases h
      rfl
    | signal signal => 
      cases signal <;> cases h <;> rfl
    | _ => cases h
  | ended => cases h
  | _ => cases hout

theorem Registry.startsInvoked_setState (r : Registry) (p : Nat) (state : ProcessorState) :
    (r.setState p state).startsInvoked = r.startsInvoked := by
  refine List.ext_getElem? fun q => ?_
  simp only [startsInvoked, setState, List.getElem?_map, List.getElem?_modify]
  cases r.processors[q]? with
  | none => rfl
  | some processor => by_cases hp : p = q <;> simp [hp, Processor.startInvoked]

theorem Registry.startsInvoked_setStart {r : Registry} (p : Nat) {start : StartCall}
    (hstarts : r.startsInvoked.all id = true) (hstart : (start != .launched) = true) :
    (r.setStart p start).startsInvoked = r.startsInvoked := by
  refine List.ext_getElem? fun q => ?_
  simp only [startsInvoked, setStart, List.getElem?_map, List.getElem?_modify]
  cases hq : r.processors[q]? with
  | none => rfl
  | some processor =>
    have hinvoked : processor.startInvoked = true :=
      List.all_eq_true.mp hstarts _ (List.mem_map_of_mem (List.mem_of_getElem? hq))
    by_cases hp : p = q
    · subst hp
      simp only [Option.map_eq_map, Option.map_some, if_true, hinvoked]
      rw [Processor.startInvoked, hstart]
    · simp [hp]

/-- When `Start` was invoked on every processor, it is not invoked any more. -/
theorem Registry.Acts.startsInvoked {r r' : Registry} {label : Async} (hacts : r.Acts label r')
    (hstarts : r.startsInvoked.all id = true) : r'.startsInvoked = r.startsInvoked := by
  cases hacts with
  | invokeStart p processor hprocessor hstart => exact startsInvoked_setStart p hstarts rfl
  | startReturns p ok processor hprocessor hstart => exact startsInvoked_setStart p hstarts rfl
  | startSucceeded p processor hprocessor hstart =>
    have hstate := startsInvoked_setState r p .started
    exact (startsInvoked_setStart p (hstate ▸ hstarts) rfl).trans hstate
  | startFailed p processor hprocessor hstart =>
    have hdelete : (r.delete processor.shardID).startsInvoked.all id = true := hstarts
    exact startsInvoked_setStart p hdelete rfl
  | stopReturns => rfl

namespace System

variable {order : RangeOrder} {sys sys' : System} {label : Label}

theorem quiet_iff : sys.quiet = true ↔
    (∀ c ∈ sys.callers, c.busy = false) ∧ sys.executor.registry.startsInvoked.all id = true := by
  simp [quiet]

/-- Out of service and quiet, a step is silent and leaves everything quiet. -/
theorem silent_of_step (hout : sys.loop.outOfService = true) (hquiet : sys.quiet = true)
    (hundisturbed : sys.undisturbed label = true) (hstep : step order label sys = some sys') :
    sys.Silent sys' ∧ sys'.quiet = true := by
  obtain ⟨hcallers, hstarts⟩ := quiet_iff.mp hquiet
  cases label with
  | call shardID =>
    cases hstep
    exact ⟨⟨rfl, rfl⟩, quiet_iff.mpr
      ⟨transition.forall_mem_concat hcallers rfl, hstarts⟩⟩
  | caller i label =>
    dsimp only [step] at hstep
    split at hstep
    · rename_i c hc
      obtain ⟨⟨c', e'⟩, hadvance, rfl⟩ := Option.map_eq_some_iff.mp hstep
      have hbusy := hcallers c (List.mem_of_getElem? hc)
      obtain ⟨rfl, hbusy' | ⟨rfl, hchecks, henabled⟩⟩ := Caller.advance_of_not_busy hbusy hadvance
      · exact ⟨⟨rfl, rfl⟩, quiet_iff.mpr ⟨transition.forall_mem_set hcallers hbusy', hstarts⟩⟩
      · simp [undisturbed, hout, henabled, hc, hchecks] at hundisturbed
    · cases hstep
  | loop label =>
    obtain ⟨⟨loop', e'⟩, hadvance, rfl⟩ := Option.map_eq_some_iff.mp hstep
    obtain rfl := Loop.advance_eq_of_outOfService hadvance hout
    exact ⟨⟨rfl, rfl⟩, quiet_iff.mpr ⟨hcallers, hstarts⟩⟩
  | async label =>
    obtain ⟨r', hasync, rfl⟩ := Option.map_eq_some_iff.mp hstep
    have hsame := (Registry.acts_of_async hasync).startsInvoked hstarts
    exact ⟨⟨rfl, hsame⟩, quiet_iff.mpr ⟨hcallers, hsame ▸ hstarts⟩⟩
  | setEnabled enabled =>
    cases hstep
    exact ⟨⟨rfl, rfl⟩, quiet_iff.mpr ⟨hcallers, hstarts⟩⟩

/-- When the loop gets out of service everything is quiet. -/
theorem quiet_of_step (hin : sys.loop.outOfService = false) (hundisturbed : sys.undisturbed label = true)
    (hstep : step order label sys = some sys') (hout : sys'.loop.outOfService = true) : sys'.quiet = true := by
  cases label with
  | loop label =>
    obtain ⟨⟨loop', e'⟩, hadvance, rfl⟩ := Option.map_eq_some_iff.mp hstep
    rcases Loop.advance_outOfService hadvance hout with hout' | ⟨rfl, rfl, hcompletes⟩
    · cases hin.symm.trans hout'
    · rw [undisturbed, hcompletes] at hundisturbed
      exact hundisturbed
  | call shardID =>
    cases hstep
    cases hin.symm.trans hout
  | caller i label =>
    dsimp only [step] at hstep
    split at hstep
    · obtain ⟨_, _, rfl⟩ := Option.map_eq_some_iff.mp hstep
      cases hin.symm.trans hout
    · cases hstep
  | async label =>
    obtain ⟨_, _, rfl⟩ := Option.map_eq_some_iff.mp hstep
    cases hin.symm.trans hout
  | setEnabled enabled =>
    cases hstep
    cases hin.symm.trans hout

theorem quiet_of_run {enabled : Bool}
    (hrun : transition.Run (step order) (fun sys label => sys.undisturbed label = true) (initial enabled) sys)
    (hout : sys.loop.outOfService = true) : sys.quiet = true := by
  refine hrun.invariant (fun sys => sys.loop.outOfService = true → sys.quiet = true) ?_ (fun h => nomatch h) hout
  intro s label s' hquiet hundisturbed hstep hout'
  cases hin : s.loop.outOfService with
  | true => exact (silent_of_step hin (hquiet hin) hundisturbed hstep).2
  | false => exact quiet_of_step hin hundisturbed hstep hout'

/-- From the moment the loop is out of service and as long as it is, the
executor sends no heartbeat with status ACTIVE and starts no processor, if no
call finds it enabled meanwhile and everything was quiet at that moment. -/
theorem silent_of_run {enabled : Bool}
    (hrun : transition.Run (step order) (fun sys label => sys.undisturbed label = true) (initial enabled) sys)
    (hrest : transition.Run (step order)
      (fun sys label => sys.loop.outOfService = true ∧ sys.undisturbed label = true) sys sys') :
    sys.Silent sys' := by
  refine (hrest.invariant (fun s => sys.Silent s ∧ (s.loop.outOfService = true → s.quiet = true)) ?_
    ⟨⟨rfl, rfl⟩, quiet_of_run hrun⟩).1
  rintro s label s' ⟨hsilent, hquiet⟩ ⟨hout, hundisturbed⟩ hstep
  obtain ⟨hsilent', hquiet'⟩ := silent_of_step hout (hquiet hout) hundisturbed hstep
  exact ⟨⟨hsilent'.activeSent.trans hsilent.activeSent, hsilent'.startsInvoked.trans hsilent.startsInvoked⟩,
    fun _ => hquiet'⟩

section Examples

/-- A call for shard 1 that misses its processor and sends a heartbeat. The
response assigns the shard, and its processor is started. -/
def asks : List Label :=
  [.call "1", .caller 0 .next, .caller 0 .next, .caller 0 (.beat .next), .caller 0 (.beat .send),
    .caller 0 (.beat (.answer (.assigned (some (Map.ofList [("1", ⟨.ready⟩)]))))), .caller 0 (.beat .finish),
    .caller 0 (.beat .next), .caller 0 (.beat .next), .caller 0 (.beat (.work .rangeDone)),
    .caller 0 (.beat (.work .next)), .caller 0 (.beat (.work .next)), .caller 0 (.beat .next), .async (.invokeStart 0)]

/-- The loop handles a drain when there is no processor. -/
def drains : List Label :=
  [.loop (.signal .drain), .loop (.work .rangeDone), .loop .next, .loop .next, .loop .next]

/-- The loop handles a drain and stops the processor of shard 1. -/
def drainsOne : List Label :=
  [.loop (.signal .drain), .loop (.work (.visit "1")), .loop (.work .next), .loop (.work .next),
    .loop (.work .next), .loop (.work .rangeDone), .async (.stopReturns 0), .loop .next, .loop .next, .loop .next]

/-- The executor is disabled after the drain, and a call is refused. -/
def refused : List Label := [.setEnabled false, .call "1", .caller 1 .next, .caller 1 .next]

theorem refused_silent : ∃ sys sys' : System,
    transition.Run (step .stored) (fun sys label => sys.undisturbed label = true) (initial true) sys ∧
    transition.Run (step .stored)
      (fun sys label => sys.loop.outOfService = true ∧ sys.undisturbed label = true) sys sys' ∧
    sys.loop.outOfService = true ∧ sys.executor.activeSent = 1 ∧ sys'.callers.length = 2 ∧ sys.Silent sys' := by
  have hrun : ((asks ++ drainsOne).foldlM
      (fun (sys : System) label => if sys.undisturbed label then step .stored label sys else none)
      (initial true)).any (fun sys => (refused.foldlM
        (fun (sys : System) label =>
          if sys.loop.outOfService && sys.undisturbed label then step .stored label sys else none) sys).any
        (fun sys' => decide (sys.loop.outOfService = true ∧ sys.executor.activeSent = 1 ∧
          sys'.callers.length = 2))) = true := by
    decide +kernel
  obtain ⟨sys, hfold, hrest⟩ := (Option.any_eq_true _ _).mp hrun
  obtain ⟨sys', hfold', hfacts⟩ := (Option.any_eq_true _ _).mp hrest
  obtain ⟨hout, hsent, hlength⟩ := of_decide_eq_true hfacts
  have hreached : transition.Run (step .stored) (fun sys label => sys.undisturbed label = true)
      (initial true) sys := transition.run_of_foldlM _ (fun _ _ h => h) hfold
  have hreached' : transition.Run (step .stored)
      (fun sys label => sys.loop.outOfService = true ∧ sys.undisturbed label = true) sys sys' :=
    transition.run_of_foldlM _ (fun _ _ h => Bool.and_eq_true_iff.mp h) hfold'
  exact ⟨sys, sys', hreached, hreached', hout, hsent, hlength, silent_of_run hreached hreached'⟩

/-- A call while the executor waits for an undrain sends a heartbeat with status
ACTIVE and starts a processor. -/
theorem drains_asks_not_silent : ∃ sys sys' : System, transition.Reaches (step .stored) (initial true) sys ∧
    sys.loop.outOfService = true ∧
    transition.Run (step .stored) (fun sys _ => sys.loop.outOfService = true) sys sys' ∧
    sys.executor.activeSent = 0 ∧ sys'.executor.activeSent = 1 ∧ sys.executor.registry.startsInvoked = [] ∧
    sys'.executor.registry.startsInvoked = [true] := by
  have hrun : (drains.foldlM (fun sys label => step .stored label sys) (initial true)).any
      (fun sys => (asks.foldlM (fun (sys : System) label =>
          if sys.loop.outOfService then step .stored label sys else none) sys).any
        (fun sys' => decide (sys.loop.outOfService = true ∧
          sys.executor.activeSent = 0 ∧ sys'.executor.activeSent = 1 ∧
          sys.executor.registry.startsInvoked = [] ∧
          sys'.executor.registry.startsInvoked = [true]))) = true := by
    decide +kernel
  obtain ⟨sys, hfold, hrest⟩ := (Option.any_eq_true _ _).mp hrun
  obtain ⟨sys', hfold', hfacts⟩ := (Option.any_eq_true _ _).mp hrest
  obtain ⟨hout, hfacts⟩ := of_decide_eq_true hfacts
  exact ⟨sys, sys', transition.reaches_of_foldlM hfold, hout, transition.run_of_foldlM _ (fun _ _ h => h) hfold',
    hfacts⟩

end Examples

end System

end executorclient
