import ShardManager.ExecutorClient.Processors

open golang types

namespace executorclient

namespace Registry

/-- The shard for which a processor was created. -/
def shardOf (r : Registry) (p : Nat) : Option String := r.processors[p]?.map (·.shardID)

/-- `Start` was invoked on the processor and has not returned an error, and
`Stop` was not invoked on it. -/
structure Live (r : Registry) (p : Nat) (processor : Processor) : Prop where
  created : r.processors[p]? = some processor
  startInvoked : processor.startInvoked = true
  startFailed : processor.startFailed = false
  stopInvoked : r.stopInvoked p = false

/-- Every live processor is the one registered for its shard, and so a shard
has one live processor at most. -/
structure Tracked (r : Registry) : Prop where
  registered : ∀ p processor, r.Live p processor → r.managed.lookup processor.shardID = some p
  unique : ∀ p processor p' processor', r.Live p processor → r.Live p' processor' →
    processor.shardID = processor'.shardID → p = p'

/-- A processor stays registered from its creation until `Start` fails or
`Stop` is called, and an entry belongs to a processor of its shard. -/
structure Sound (r : Registry) : Prop where
  registered : ∀ p processor, r.processors[p]? = some processor → processor.startFailed = false →
    r.stopInvoked p = false → r.managed.lookup processor.shardID = some p
  owner : ∀ shardID p, r.managed.lookup shardID = some p → r.shardOf p = some shardID

/-- The entry of the shard, if there is one, is that of the processor. -/
def owns (r : Registry) (p : Nat) (shardID : String) : Bool :=
  (r.managed.lookup shardID).all (· == p)

section

variable {r : Registry}

@[simp] theorem shardOf_setState (p q : Nat) (state : ProcessorState) :
    (r.setState p state).shardOf q = r.shardOf q := by
  simp only [shardOf, setState, List.getElem?_modify]
  cases r.processors[q]? with
  | none => rfl
  | some processor => by_cases h : p = q <;> simp [h]

@[simp] theorem shardOf_setStart (p q : Nat) (start : StartCall) :
    (r.setStart p start).shardOf q = r.shardOf q := by
  simp only [shardOf, setStart, List.getElem?_modify]
  cases r.processors[q]? with
  | none => rfl
  | some processor => by_cases h : p = q <;> simp [h]

theorem shardOf_create {q : Nat} {shardID shardID' : String} (h : r.shardOf q = some shardID) :
    (r.create shardID').shardOf q = some shardID := by
  obtain ⟨processor, hprocessor, rfl⟩ := Option.map_eq_some_iff.mp h
  have hlt := (List.getElem?_eq_some_iff.mp hprocessor).1
  simp only [shardOf, create, List.getElem?_append_left hlt, hprocessor, Option.map_some]

theorem Sound.setState (hsound : r.Sound) (p : Nat) (state : ProcessorState) :
    (r.setState p state).Sound where
  registered q processor hprocessor hfailed hstop := by
    obtain ⟨before, hbefore, ⟨_, rfl⟩ | ⟨_, heq⟩⟩ := exists_of_modify hprocessor
    · exact hsound.registered q before hbefore hfailed hstop
    · exact hsound.registered q processor (heq ▸ hbefore) hfailed hstop
  owner shardID q hlookup := by
    rw [shardOf_setState]
    exact hsound.owner shardID q hlookup

theorem Sound.setStart (hsound : r.Sound) {p : Nat} {processor : Processor} {start : StartCall}
    (hprocessor : r.processors[p]? = some processor)
    (hstart : processor.startFailed = true → { processor with start }.startFailed = true) :
    (r.setStart p start).Sound where
  registered q other hother hfailed hstop := by
    obtain ⟨before, hbefore, ⟨rfl, rfl⟩ | ⟨_, heq⟩⟩ := exists_of_modify hother
    · obtain rfl := Option.some.inj (hprocessor.symm.trans hbefore)
      have hfailed' : processor.startFailed = false :=
        Bool.eq_false_iff.mpr fun htrue => Bool.false_ne_true (hfailed.symm.trans (hstart htrue))
      exact hsound.registered p processor hprocessor hfailed' hstop
    · exact hsound.registered q other (heq ▸ hbefore) hfailed hstop
  owner shardID q hlookup := by
    rw [shardOf_setStart]
    exact hsound.owner shardID q hlookup

/-- Deleting an entry of the processor's own is sound once its `Start` has
failed or its `Stop` was called. -/
theorem Sound.delete (hsound : r.Sound) {p : Nat} {processor : Processor}
    (hprocessor : r.processors[p]? = some processor) (howns : r.owns p processor.shardID = true)
    (hdone : processor.startFailed = true ∨ r.stopInvoked p = true) : (r.delete processor.shardID).Sound where
  registered q other hother hfailed hstop := by
    have hregistered := hsound.registered q other hother hfailed hstop
    have hne : other.shardID ≠ processor.shardID := by
      intro heq
      rw [owns, ← heq, hregistered, Option.all_some, beq_iff_eq] at howns
      obtain rfl := howns
      obtain rfl := Option.some.inj (hother.symm.trans hprocessor)
      rcases hdone with hdone | hdone
      · exact Bool.false_ne_true (hfailed.symm.trans hdone)
      · exact Bool.false_ne_true (hstop.symm.trans hdone)
    exact (Map.lookup_erase_eq ..).trans ((if_neg hne).trans hregistered)
  owner shardID q hlookup := by
    have hlookup' : (if shardID = processor.shardID then none else r.managed.lookup shardID) = some q :=
      (Map.lookup_erase_eq ..).symm.trans hlookup
    split at hlookup'
    · cases hlookup'
    · exact hsound.owner shardID q hlookup'

theorem Sound.call (hsound : r.Sound) (p : Nat) : Sound { r with stops := r.stops ++ [⟨p, false⟩] } where
  registered q processor hprocessor hfailed hstop := by
    refine hsound.registered q processor hprocessor hfailed ?_
    simp only [stopInvoked, List.any_append, Bool.or_eq_false_iff] at hstop
    exact hstop.1
  owner := hsound.owner

theorem Sound.stop (hsound : r.Sound) {p : Nat} {shardID : String} (hshard : r.shardOf p = some shardID)
    (howns : r.owns p shardID = true) : (r.stop shardID p).Sound := by
  obtain ⟨processor, hprocessor, rfl⟩ := Option.map_eq_some_iff.mp hshard
  exact (hsound.call p).delete hprocessor howns (.inr (by simp [stopInvoked]))

theorem Sound.create (hsound : r.Sound) {shardID : String} (hnone : r.managed.lookup shardID = none) :
    (r.create shardID).Sound where
  registered q processor hprocessor hfailed hstop := by
    refine (Map.lookup_insert_eq ..).trans ?_
    rcases processor_of_create hprocessor with hbefore | ⟨rfl, rfl⟩
    · have hregistered := hsound.registered q processor hbefore hfailed hstop
      have hne : processor.shardID ≠ shardID := by
        rintro rfl
        cases hnone.symm.trans hregistered
      rw [if_neg hne, hregistered]
    · rw [if_pos rfl]
  owner shardID' q hlookup := by
    have hlookup' := (Map.lookup_insert_eq ..).symm.trans hlookup
    split at hlookup'
    · rename_i heq
      cases hlookup'
      simp [shardOf, Registry.create, heq]
    · exact shardOf_create (hsound.owner shardID' q hlookup')

theorem Sound.stopReturns (hsound : r.Sound) {i : Nat} {stop : StopCall} (hstop : r.stops[i]? = some stop) :
    Sound { r with stops := r.stops.set i { stop with returned := true } } where
  registered q processor hprocessor hfailed hstopped := by
    refine hsound.registered q processor hprocessor hfailed ?_
    obtain ⟨hlt, rfl⟩ := List.getElem?_eq_some_iff.mp hstop
    simp only [stopInvoked, List.any_eq_false, beq_iff_eq] at hstopped ⊢
    intro other hother heq
    obtain ⟨j, hj, rfl⟩ := List.getElem_of_mem hother
    by_cases hij : i = j
    · subst hij
      exact hstopped _ (List.mem_set hlt _) heq
    · exact hstopped _ (List.mem_of_getElem (h := by simpa using hj) (List.getElem_set_ne hij _)) heq
  owner := hsound.owner

theorem Sound.tracked (hsound : r.Sound) : r.Tracked where
  registered p processor hlive := hsound.registered p processor hlive.created hlive.startFailed hlive.stopInvoked
  unique p processor p' processor' hlive hlive' heq := by
    have hp := hsound.registered p processor hlive.created hlive.startFailed hlive.stopInvoked
    have hp' := hsound.registered p' processor' hlive'.created hlive'.startFailed hlive'.stopInvoked
    rw [heq, hp'] at hp
    exact (Option.some.inj hp).symm

end

end Registry

namespace Work

/-- The step deletes no entry but that of the processor to be stopped. -/
def deletesOwn (w : Work) (r : Registry) : Bool :=
  match w.phase with
  | .marked shardID p => r.owns p shardID
  | _ => true

/-- The processor that a goroutine is about to stop belongs to the shard. -/
def Targets (w : Work) (r : Registry) : Prop :=
  ∀ shardID p, w.target = some (shardID, p) → r.shardOf p = some shardID

/-- A goroutine that found no processor for a shard is right until it creates
one. -/
def Creates (w : Work) (r : Registry) : Prop :=
  ∀ shardID, w.phase = .creating shardID → r.managed.lookup shardID = none

/-- The goroutine does not add processors. -/
structure StopsOnly (w : Work) : Prop where
  toAdd : w.toAdd = []
  phase : ∀ shardID, w.phase ≠ .creating shardID

section

variable {w w' : Work} {r r' : Registry} {label : WorkLabel}

theorem Moves.shardOf (hmoves : w.Moves r label w' r') {p : Nat} {shardID : String} (h : r.shardOf p = some shardID) :
    r'.shardOf p = some shardID := by
  cases hmoves with
  | mark => rwa [Registry.shardOf_setState]
  | create => exact Registry.shardOf_create h
  | _ => exact h

theorem Moves.sound (hmoves : w.Moves r label w' r') (hsound : r.Sound) (htargets : w.Targets r)
    (hcreates : w.Creates r) (hown : w.deletesOwn r = true) : r'.Sound := by
  cases hmoves with
  | mark shardID p hphase => exact hsound.setState p .stopping
  | stop shardID p hphase =>
    rw [deletesOwn, hphase] at hown
    exact hsound.stop (htargets shardID p (by rw [target, hphase])) hown
  | create shardID hphase => exact hsound.create (hcreates shardID hphase)
  | _ => exact hsound

theorem Moves.targets (hmoves : w.Moves r label w' r') (hsound : r.Sound) (htargets : w.Targets r) :
    w'.Targets r' := by
  intro shardID' p' htarget
  cases hmoves with
  | skip _ _ _ hphase => exact htargets shardID' p' htarget
  | load _ _ shardID p hphase _ hlookup =>
    cases htarget
    exact hsound.owner shardID' p' hlookup
  | check shardID p hphase =>
    cases htarget
    exact htargets shardID' p' (by rw [target, hphase])
  | mark shardID p hphase =>
    cases htarget
    rw [Registry.shardOf_setState]
    exact htargets shardID' p' (by rw [target, hphase])
  | present _ _ _ hphase => exact htargets shardID' p' htarget
  | _ => cases htarget

theorem Moves.creates (hmoves : w.Moves r label w' r') : w'.Creates r' := by
  intro shardID' hcreating
  cases hmoves with
  | skip _ _ _ hphase => cases hphase.symm.trans hcreating
  | present _ _ _ hphase => cases hphase.symm.trans hcreating
  | absent shardID _ _ _ hlookup =>
    cases hcreating
    exact hlookup
  | _ => cases hcreating

theorem Moves.stopsOnly (hmoves : w.Moves r label w' r') (honly : w.StopsOnly) : w'.StopsOnly := by
  cases hmoves with
  | skip => exact ⟨honly.toAdd, honly.phase⟩
  | present shardID _ _ _ htoAdd => cases honly.toAdd.symm.trans htoAdd
  | absent shardID _ _ htoAdd => cases honly.toAdd.symm.trans htoAdd
  | _ => exact ⟨honly.toAdd, fun _ h => nomatch h⟩

/-- A goroutine that only stops processors leaves no entry where none was. -/
theorem Moves.lookup_eq_none (hmoves : w.Moves r label w' r') (honly : w.StopsOnly) {shardID : String}
    (h : r.managed.lookup shardID = none) : r'.managed.lookup shardID = none := by
  cases hmoves with
  | stop shardID' p =>
    refine (Map.lookup_erase_eq ..).trans ?_
    rw [h, ite_self]
  | create shardID' hphase => exact absurd hphase (honly.phase shardID')
  | _ => exact h

end

end Work

section

variable {r r' : Registry} {label : Async}

theorem Registry.Acts.shardOf (hacts : r.Acts label r') (p : Nat) : r'.shardOf p = r.shardOf p := by
  cases hacts with
  | stopReturns => rfl
  | startSucceeded => rw [shardOf_setStart, shardOf_setState]
  | startFailed =>
    rw [shardOf_setStart]
    rfl
  | _ => rw [shardOf_setStart]

theorem Registry.Acts.lookup_eq_none (hacts : r.Acts label r') {shardID : String}
    (h : r.managed.lookup shardID = none) : r'.managed.lookup shardID = none := by
  cases hacts with
  | startFailed p processor =>
    refine (Map.lookup_erase_eq ..).trans ?_
    rw [h, ite_self]
  | _ => exact h

/-- The entry that is deleted after a failed `Start` is its own. -/
def Registry.deletesOwn (r : Registry) : Async → Bool
  | .startHandled p =>
    (r.processors[p]?).all fun processor => !processor.startFailed || r.owns p processor.shardID
  | _ => true

theorem Registry.Acts.sound (hacts : r.Acts label r') (hsound : r.Sound) (hown : r.deletesOwn label = true) :
    r'.Sound := by
  cases hacts with
  | invokeStart p processor hprocessor hstart =>
    refine hsound.setStart hprocessor ?_
    simp [Processor.startFailed, hstart]
  | startReturns p ok processor hprocessor hstart =>
    refine hsound.setStart hprocessor ?_
    simp [Processor.startFailed, hstart]
  | startSucceeded p processor hprocessor hstart =>
    have hprocessor' : (r.setState p .started).processors[p]? = some { processor with state := .started } := by
      simp [setState, hprocessor]
    refine (hsound.setState p .started).setStart hprocessor' ?_
    simp [Processor.startFailed, hstart]
  | startFailed p processor hprocessor hstart =>
    have hfailed : processor.startFailed = true := by rw [Processor.startFailed, hstart]
    rw [deletesOwn, hprocessor, Option.all_some, hfailed] at hown
    exact (hsound.delete hprocessor hown (.inl hfailed)).setStart hprocessor fun _ => rfl
  | stopReturns i stop hstop => exact hsound.stopReturns hstop

end

/-- The goroutines that change the registry: the update that has the
`assignmentMutex`, and the heartbeat loop in `stopShardProcessors`, which does
not take it. -/
structure Tracking where
  registry : Registry
  update : Option Work
  shutdown : Option Work

namespace Tracking

inductive Label where
  | beginUpdate (assignments : Map String ShardAssignment)
  | update (label : WorkLabel)
  | endUpdate
  | beginShutdown
  | shutdown (label : WorkLabel)
  | endShutdown
  | async (label : Async)

def initial : Tracking := ⟨.empty, none, none⟩

def step (order : RangeOrder) : Label → Tracking → Option Tracking
  | .beginUpdate assignments, sys =>
    match sys.update with
    | none => some { sys with update := some (updateShardAssignment order assignments sys.registry) }
    | some _ => none
  | .update label, sys =>
    match sys.update with
    | some w => (w.advance sys.registry label).map fun (w, registry) => { sys with registry, update := some w }
    | none => none
  | .endUpdate, sys =>
    match sys.update with
    | some w => if w.finished then some { sys with update := none } else none
    | none => none
  | .beginShutdown, sys =>
    match sys.shutdown with
    | none => some { sys with shutdown := some (stopShardProcessors sys.registry) }
    | some _ => none
  | .shutdown label, sys =>
    match sys.shutdown with
    | some w => (w.advance sys.registry label).map fun (w, registry) => { sys with registry, shutdown := some w }
    | none => none
  | .endShutdown, sys =>
    match sys.shutdown with
    | some w => if w.finished && w.stopped sys.registry then some { sys with shutdown := none } else none
    | none => none
  | .async label, sys => (sys.registry.async label).map fun registry => { sys with registry }

/-- A step that deletes the entry of a shard, for a stop or after a failed
`Start`, finds there no entry but that of the processor it is about. -/
def deletesOwn (sys : Tracking) : Label → Bool
  | .update _ => sys.update.all fun w => w.deletesOwn sys.registry
  | .shutdown _ => sys.shutdown.all fun w => w.deletesOwn sys.registry
  | .async label => sys.registry.deletesOwn label
  | _ => true

/-- What holds in every state that is reached by steps that delete entries of
their own. -/
structure Inv (sys : Tracking) : Prop where
  registry : sys.registry.Sound
  updateTargets : ∀ w ∈ sys.update, w.Targets sys.registry
  updateCreates : ∀ w ∈ sys.update, w.Creates sys.registry
  shutdownTargets : ∀ w ∈ sys.shutdown, w.Targets sys.registry
  shutdownStops : ∀ w ∈ sys.shutdown, w.StopsOnly

theorem inv_initial : initial.Inv where
  registry := ⟨fun _ _ h => (nomatch h), fun _ _ h => (nomatch h)⟩
  updateTargets _ h := nomatch h
  updateCreates _ h := nomatch h
  shutdownTargets _ h := nomatch h
  shutdownStops _ h := nomatch h

theorem inv_step {order : RangeOrder} {sys sys' : Tracking} {label : Label} (hinv : sys.Inv)
    (hown : sys.deletesOwn label = true) (hstep : step order label sys = some sys') : sys'.Inv := by
  cases label with
  | beginUpdate assignments =>
    dsimp only [step] at hstep
    split at hstep
    · cases hstep
      refine { hinv with updateTargets := ?_, updateCreates := ?_ }
      · rintro w ⟨⟩ _ _ htarget
        cases htarget
      · rintro w ⟨⟩ _ hcreating
        cases hcreating
    · cases hstep
  | update label =>
    dsimp only [step] at hstep
    split at hstep
    · rename_i w hw
      obtain ⟨⟨w', r'⟩, hadvance, rfl⟩ := Option.map_eq_some_iff.mp hstep
      have hmoves := Work.moves_of_advance hadvance
      rw [deletesOwn, hw, Option.all_some] at hown
      have htargets := hinv.updateTargets w hw
      refine ⟨hmoves.sound hinv.registry htargets (hinv.updateCreates w hw) hown, ?_, ?_, ?_, hinv.shutdownStops⟩
      · rintro w ⟨⟩
        exact hmoves.targets hinv.registry htargets
      · rintro w ⟨⟩
        exact hmoves.creates
      · intro w hw shardID p htarget
        exact hmoves.shardOf (hinv.shutdownTargets w hw shardID p htarget)
    · cases hstep
  | endUpdate =>
    dsimp only [step] at hstep
    split at hstep
    · split at hstep <;> cases hstep
      exact { hinv with updateTargets := fun _ h => (nomatch h), updateCreates := fun _ h => (nomatch h) }
    · cases hstep
  | beginShutdown =>
    dsimp only [step] at hstep
    split at hstep
    · cases hstep
      refine { hinv with shutdownTargets := ?_, shutdownStops := ?_ }
      · rintro w ⟨⟩ _ _ htarget
        cases htarget
      · rintro w ⟨⟩
        exact ⟨rfl, fun _ h => nomatch h⟩
    · cases hstep
  | shutdown label =>
    dsimp only [step] at hstep
    split at hstep
    · rename_i w hw
      obtain ⟨⟨w', r'⟩, hadvance, rfl⟩ := Option.map_eq_some_iff.mp hstep
      have hmoves := Work.moves_of_advance hadvance
      rw [deletesOwn, hw, Option.all_some] at hown
      have htargets := hinv.shutdownTargets w hw
      have hstops := hinv.shutdownStops w hw
      have hcreates : w.Creates sys.registry := fun shardID hphase => absurd hphase (hstops.phase shardID)
      refine ⟨hmoves.sound hinv.registry htargets hcreates hown, ?_, ?_, ?_, ?_⟩
      · intro w hw shardID p htarget
        exact hmoves.shardOf (hinv.updateTargets w hw shardID p htarget)
      · intro w hw shardID hphase
        exact hmoves.lookup_eq_none hstops (hinv.updateCreates w hw shardID hphase)
      · rintro w ⟨⟩
        exact hmoves.targets hinv.registry htargets
      · rintro w ⟨⟩
        exact hmoves.stopsOnly hstops
    · cases hstep
  | endShutdown =>
    dsimp only [step] at hstep
    split at hstep
    · split at hstep <;> cases hstep
      exact { hinv with shutdownTargets := fun _ h => (nomatch h), shutdownStops := fun _ h => (nomatch h) }
    · cases hstep
  | async label =>
    obtain ⟨r', hasync, rfl⟩ := Option.map_eq_some_iff.mp hstep
    have hacts := Registry.acts_of_async hasync
    refine ⟨hacts.sound hinv.registry hown, ?_, ?_, ?_, hinv.shutdownStops⟩
    · intro w hw shardID p htarget
      exact (hacts.shardOf p).trans (hinv.updateTargets w hw shardID p htarget)
    · intro w hw shardID hphase
      exact hacts.lookup_eq_none (hinv.updateCreates w hw shardID hphase)
    · intro w hw shardID p htarget
      exact (hacts.shardOf p).trans (hinv.shutdownTargets w hw shardID p htarget)

/-- No live processor is lost as long as a stop and a failed `Start` delete no
entry but that of their own processor. -/
theorem tracked_of_run {order : RangeOrder} {sys : Tracking}
    (hrun : transition.Run (step order) (fun sys label => sys.deletesOwn label = true) initial sys) :
    sys.registry.Tracked := by
  have hinv := hrun.invariant Inv (fun _ _ _ hinv hown hstep => inv_step hinv hown hstep) inv_initial
  exact hinv.registry.tracked

section Examples

/-- An assignment of shard 1, which makes a new processor for it if there is
none. -/
def adds : List Label :=
  [.beginUpdate (Map.ofList [("1", ⟨.ready⟩)]), .update .rangeDone, .update .next, .update .next, .endUpdate]

/-- Shard 1 is taken away. -/
def removes : List Label :=
  [.beginUpdate ∅, .update (.visit "1"), .update .next, .update .next, .update .next, .update .rangeDone,
    .endUpdate]

/-- Shard 1 is taken away and assigned again while `Start` of its first
processor is running. -/
def reassigned : List Label :=
  adds ++ [.async (.invokeStart 0)] ++ removes ++ adds ++ [.async (.invokeStart 1)]

/-- The first `Start` succeeds after that. -/
def startsLate : List Label := reassigned ++ [.async (.startReturns 0 true), .async (.startHandled 0)]

theorem startsLate_tracked : ∃ sys : Tracking,
    transition.Run (step .stored) (fun sys label => sys.deletesOwn label = true) initial sys ∧
    sys.registry.processors = [⟨"1", .started, .returned true true⟩, ⟨"1", .starting, .running⟩] ∧
    sys.registry.Tracked := by
  have hrun : (startsLate.foldlM
      (fun (sys : Tracking) label => if sys.deletesOwn label then step .stored label sys else none) initial).map
      (fun sys => decide (sys.registry.processors =
        [⟨"1", .started, .returned true true⟩, ⟨"1", .starting, .running⟩])) = some true := by
    decide +kernel
  obtain ⟨sys, hfold, hprocessors⟩ := Option.map_eq_some_iff.mp hrun
  have hreached : transition.Run (step .stored) (fun sys label => sys.deletesOwn label = true) initial sys :=
    transition.run_of_foldlM _ (fun _ _ h => h) hfold
  exact ⟨sys, hreached, of_decide_eq_true hprocessors, tracked_of_run hreached⟩

/-- The first `Start` fails after the second processor was registered. That
deletes the entry of the second, and the next update makes a third. -/
def failsLate : List Label :=
  reassigned ++ [.async (.startReturns 0 false), .async (.startHandled 0)] ++ adds ++ [.async (.invokeStart 2)]

theorem failsLate_lost : ∃ sys : Tracking, transition.Reaches (step .stored) initial sys ∧
    sys.registry.Live 1 ⟨"1", .starting, .running⟩ ∧ sys.registry.Live 2 ⟨"1", .starting, .running⟩ ∧
    sys.registry.managed.lookup "1" = some 2 ∧ ¬sys.registry.Tracked := by
  have hrun : (failsLate.foldlM (fun sys label => step .stored label sys) initial).map
      (fun sys => decide (sys.registry.processors[1]? = some ⟨"1", .starting, .running⟩ ∧
        sys.registry.processors[2]? = some ⟨"1", .starting, .running⟩ ∧
        sys.registry.stopInvoked 1 = false ∧ sys.registry.stopInvoked 2 = false ∧
        sys.registry.managed.lookup "1" = some 2)) = some true := by
    decide +kernel
  obtain ⟨sys, hfold, hfacts⟩ := Option.map_eq_some_iff.mp hrun
  obtain ⟨hfirst, hsecond, hstopFirst, hstopSecond, hlookup⟩ := of_decide_eq_true hfacts
  have hliveFirst : sys.registry.Live 1 ⟨"1", .starting, .running⟩ := ⟨hfirst, rfl, rfl, hstopFirst⟩
  have hliveSecond : sys.registry.Live 2 ⟨"1", .starting, .running⟩ := ⟨hsecond, rfl, rfl, hstopSecond⟩
  refine ⟨sys, transition.reaches_of_foldlM hfold, hliveFirst, hliveSecond, hlookup, fun htracked => ?_⟩
  cases htracked.unique 1 _ 2 _ hliveFirst hliveSecond rfl

end Examples

end Tracking

end executorclient
