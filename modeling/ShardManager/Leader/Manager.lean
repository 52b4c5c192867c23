import ShardManager.Abstract.Transition

namespace election

/-- A leader processor: not made yet, made, run or terminated. -/
inductive ProcessorState where
  | none
  | created
  | running
  | terminated
deriving DecidableEq, Repr

/-- What `resign` makes of a processor, and whether `Terminate` fails, as it does
for a processor that was not started. -/
def ProcessorState.terminate : ProcessorState → ProcessorState × Bool
  | .none => (.none, false)
  | .running => (.terminated, false)
  | processor => (processor, true)

theorem ProcessorState.terminate_ne_running (processor : ProcessorState) : processor.terminate.1 ≠ .running := by
  cases processor <;> decide

/-- The error that `runElection` returns, if any. -/
inductive Outcome where
  | ok
  | selfResign
  | error
deriving DecidableEq, Repr

/-- The error of `runElection` after that of `resign`. -/
def Outcome.after (outcome : Outcome) (failed : Bool) : Outcome :=
  match outcome with
  | .ok => if failed then .error else .ok
  | outcome => outcome

/-- Where the goroutine of an elector is: in `runElection`, with or without an
election, in its deferred `resign`, or in the loop of `Run` around it. -/
inductive Phase where
  | delaying
  | creating
  | campaigning
  | starting
  | announcing
  | leading
  | terminating (processor : ProcessorState) (outcome : Outcome)
  | resigning (processor : ProcessorState) (outcome : Outcome) (failed : Bool)
  | cleaning (processor : ProcessorState) (resigned : Bool) (outcome : Outcome) (failed : Bool)
  | reporting (outcome : Outcome)
  | deciding (outcome : Outcome)
  | cooling
  | checking
  | closing
  | finished
deriving DecidableEq, Repr

/-- An election that `runElection` has left, with what became of it. -/
structure Election where
  processor : ProcessorState
  resigned : Bool
  cleaned : Bool
deriving DecidableEq, Repr

/-- Its processor is not running, and it was resigned and cleaned up. -/
def Election.closed (e : Election) : Bool := e.processor != .running && e.resigned && e.cleaned

structure Elector where
  phase : Phase
  /-- The handler has cancelled the context of the elector. -/
  cancelled : Bool
  /-- The buffer of the leader channel, which holds one value. -/
  leaderCh : Option Bool
  left : List Election
deriving DecidableEq, Repr

namespace Elector

/-- What comes next at a phase: the usual, a failed call, or the branch of a
select. -/
inductive Label where
  | next
  | failed
  | ctxDone
  | sessionDone
  | leaderTimer
deriving DecidableEq, Repr

def run : Elector := ⟨.delaying, false, none, []⟩

/-- Sends on the leader channel, which blocks while the buffer is full. -/
def send (e : Elector) (isLeader : Bool) (phase : Phase) : Option Elector :=
  match e.leaderCh with
  | none => some { e with leaderCh := some isLeader, phase }
  | some _ => none

/-- A step of the goroutine, with `runCtx` cancelled or not. -/
def advance (ctxDone : Bool) (e : Elector) : Phase → Label → Option Elector
  | .delaying, .next => some { e with phase := .creating }
  | .delaying, .ctxDone => if ctxDone then some { e with phase := .deciding .error } else none
  | .creating, .next => some { e with phase := .campaigning }
  | .creating, .failed => some { e with phase := .deciding .error }
  | .campaigning, .next => some { e with phase := .starting }
  | .campaigning, .failed => some { e with phase := .terminating .none .error }
  | .starting, .next => some { e with phase := .announcing }
  | .starting, .failed => some { e with phase := .terminating .created .error }
  | .announcing, .next => e.send true .leading
  | .leading, .ctxDone => if ctxDone then some { e with phase := .terminating .running .ok } else none
  | .leading, .sessionDone => some { e with phase := .terminating .running .error }
  | .leading, .leaderTimer => some { e with phase := .terminating .running .selfResign }
  | .terminating processor outcome, .next =>
    some { e with phase := .resigning processor.terminate.1 outcome processor.terminate.2 }
  | .resigning processor outcome failed, .next => some { e with phase := .cleaning processor true outcome failed }
  | .resigning processor outcome _, .failed => some { e with phase := .cleaning processor false outcome true }
  | .cleaning processor resigned outcome failed, .next =>
    some { e with phase := .reporting (outcome.after failed), left := ⟨processor, resigned, true⟩ :: e.left }
  | .cleaning processor resigned outcome _, .failed =>
    some { e with phase := .reporting (outcome.after true), left := ⟨processor, resigned, false⟩ :: e.left }
  | .reporting outcome, .next => e.send false (.deciding outcome)
  | .deciding .ok, .next => some { e with phase := .checking }
  | .deciding .selfResign, .next => some { e with phase := if ctxDone then .closing else .checking }
  | .deciding .error, .next => some { e with phase := if ctxDone then .closing else .cooling }
  | .cooling, .next => some { e with phase := .checking }
  | .cooling, .ctxDone => if ctxDone then some { e with phase := .closing } else none
  | .checking, .next => some { e with phase := if ctxDone then .closing else .delaying }
  | .closing, .next => some { e with phase := .finished }
  -- `rand.Intn` panics when `MaxRandomDelay` is not positive, which `Run` recovers from.
  | .delaying, .failed => some { e with phase := .closing }
  | _, _ => none

/-- The step is not a failed `Resign` or `Cleanup`. -/
def releases (e : Elector) : Label → Bool
  | .failed =>
    match e.phase with
    | .resigning .. | .cleaning .. => false
    | _ => true
  | _ => true

/-- What `resign` has done so far with the election that is open. -/
def PhaseSound : Phase → Prop
  | .resigning processor _ _ => processor ≠ .running
  | .cleaning processor resigned _ _ => processor ≠ .running ∧ resigned = true
  | _ => True

/-- No election is left open. -/
structure Sound (e : Elector) : Prop where
  phase : PhaseSound e.phase
  left : ∀ election ∈ e.left, election.closed = true

variable {ctxDone : Bool} {e e' : Elector} {label : Label}

theorem sound_run : run.Sound := ⟨trivial, fun _ h => nomatch h⟩

theorem Sound.goto (hsound : e.Sound) {phase : Phase} (hphase : PhaseSound phase) : Sound { e with phase } :=
  ⟨hphase, hsound.left⟩

theorem Sound.send (hsound : e.Sound) {isLeader : Bool} {phase : Phase} (hphase : PhaseSound phase)
    (h : e.send isLeader phase = some e') : e'.Sound := by
  unfold Elector.send at h
  split at h
  · cases h
    exact ⟨hphase, hsound.left⟩
  · cases h

theorem Sound.advance {phase : Phase} (hsound : e.Sound) (hreleases : e.releases label = true)
    (hphase : e.phase = phase) (h : e.advance ctxDone phase label = some e') : e'.Sound := by
  have hopen := hsound.phase
  rw [hphase] at hopen
  unfold Elector.advance at h
  split at h
  -- Selects on the context.
  case h_2 | h_10 | h_23 =>
    split at h
    · cases h
      exact hsound.goto trivial
    · cases h
  case h_9 | h_18 =>
    refine hsound.send ?_ h
    trivial
  case h_13 processor outcome =>
    cases h
    exact hsound.goto processor.terminate_ne_running
  case h_14 =>
    cases h
    exact hsound.goto ⟨hopen, rfl⟩
  case h_15 => simp [releases, hphase] at hreleases
  case h_16 processor resigned outcome failed =>
    cases h
    refine ⟨trivial, List.forall_mem_cons.mpr ⟨?_, hsound.left⟩⟩
    simp [Election.closed, hopen.1, hopen.2]
  case h_17 => simp [releases, hphase] at hreleases
  case h_20 | h_21 | h_24 =>
    cases h
    cases ctxDone <;> exact hsound.goto trivial
  case h_27 => cases h
  all_goals
    cases h
    exact hsound.goto trivial

end Elector

end election

namespace leader

open election

/-- Where the goroutine of a handler is in its state machine. -/
inductive HandlerPhase where
  | entering
  | starting
  | campaigning (elector : Nat)
  | idle
  | stopping
  | stopped
deriving DecidableEq, Repr

/-- A `namespaceHandler` with all electors it has started. -/
structure NamespaceHandler where
  name : String
  phase : HandlerPhase
  electors : List Elector
deriving DecidableEq, Repr

inductive HandlerLabel where
  | next
  | failed
  | ctxDone
  | drain
  | undrain
  | leaderCh
deriving DecidableEq, Repr

namespace NamespaceHandler

/-- Leaves `campaigning`, whose deferred call cancels the elector. -/
def leave (h : NamespaceHandler) (i : Nat) (phase : HandlerPhase) : NamespaceHandler :=
  { h with phase, electors := h.electors.modify i fun e => { e with cancelled := true } }

/-- Receives from the leader channel of an elector. The channel is closed when
the elector has finished. -/
def receive (ctxDone : Bool) (h : NamespaceHandler) (i : Nat) : Option NamespaceHandler :=
  match h.electors[i]? with
  | some e =>
    match e.leaderCh, e.phase with
    | some _, _ => some { h with electors := h.electors.set i { e with leaderCh := none } }
    | none, .finished => some (h.leave i (if ctxDone then .stopping else .entering))
    | none, _ => none
  | none => none

/-- A step of the handler, with the context of the manager cancelled or not. -/
def advance (ctxDone : Bool) (h : NamespaceHandler) : HandlerPhase → HandlerLabel → Option NamespaceHandler
  | .entering, .drain => some { h with phase := .idle }
  | .entering, .next => some { h with phase := .starting }
  | .starting, .next => some { h with phase := .campaigning h.electors.length, electors := h.electors ++ [.run] }
  | .starting, .failed => some { h with phase := .stopping }
  | .campaigning i, .ctxDone => if ctxDone then some (h.leave i .stopping) else none
  | .campaigning i, .drain => some (h.leave i .idle)
  | .campaigning i, .leaderCh => h.receive ctxDone i
  | .idle, .ctxDone => if ctxDone then some { h with phase := .stopping } else none
  | .idle, .undrain => some { h with phase := .entering }
  -- `cleanupWg.Done`.
  | .stopping, .next => some { h with phase := .stopped }
  | _, _ => none

/-- Every elector that the handler has started has finished. -/
def electorsFinished (h : NamespaceHandler) : Bool := h.electors.all fun e => e.phase == .finished

/-- The electors leave no election open, and those of a stopped handler have
finished. -/
structure Sound (h : NamespaceHandler) : Prop where
  electors : ∀ e ∈ h.electors, e.Sound
  finished : h.phase = .stopped → ∀ e ∈ h.electors, e.phase = .finished

variable {ctxDone : Bool} {h h' : NamespaceHandler} {label : HandlerLabel}

theorem Sound.goto (hsound : h.Sound) {phase : HandlerPhase} (hphase : phase ≠ .stopped) :
    Sound { h with phase } :=
  ⟨hsound.electors, fun hstopped => absurd hstopped hphase⟩

theorem Sound.leave (hsound : h.Sound) (i : Nat) {phase : HandlerPhase} (hphase : phase ≠ .stopped) :
    (h.leave i phase).Sound := by
  refine ⟨fun e he => ?_, fun hstopped => absurd hstopped hphase⟩
  obtain ⟨j, hj⟩ := List.getElem?_of_mem he
  rw [NamespaceHandler.leave, List.getElem?_modify] at hj
  obtain ⟨before, hbefore, rfl⟩ := Option.map_eq_some_iff.mp hj
  have hbefore' := hsound.electors before (List.mem_of_getElem? hbefore)
  split
  · exact ⟨hbefore'.phase, hbefore'.left⟩
  · exact hbefore'

theorem Sound.receive (hsound : h.Sound) {i : Nat} (hphase : h.phase ≠ .stopped)
    (hreceive : h.receive ctxDone i = some h') : h'.Sound := by
  unfold NamespaceHandler.receive at hreceive
  split at hreceive
  · rename_i e he
    split at hreceive
    · cases hreceive
      have hbefore := hsound.electors e (List.mem_of_getElem? he)
      refine ⟨transition.forall_mem_set hsound.electors ?_, fun hstopped => absurd hstopped hphase⟩
      exact ⟨hbefore.phase, hbefore.left⟩
    · cases hreceive
      refine hsound.leave i ?_
      split <;> exact nofun
    · cases hreceive
  · cases hreceive

theorem Sound.advance {phase : HandlerPhase} (hsound : h.Sound) (hphase : h.phase = phase)
    (hfinished : label = .next → phase = .stopping → h.electorsFinished = true)
    (hadvance : h.advance ctxDone phase label = some h') : h'.Sound := by
  unfold NamespaceHandler.advance at hadvance
  split at hadvance
  case h_3 =>
    cases hadvance
    exact ⟨transition.forall_mem_concat hsound.electors Elector.sound_run, nofun⟩
  case h_5 =>
    split at hadvance
    · cases hadvance
      exact hsound.leave _ nofun
    · cases hadvance
  case h_6 =>
    cases hadvance
    exact hsound.leave _ nofun
  case h_7 => exact hsound.receive (hphase ▸ nofun) hadvance
  case h_8 =>
    split at hadvance
    · cases hadvance
      exact hsound.goto nofun
    · cases hadvance
  case h_10 =>
    cases hadvance
    refine ⟨hsound.electors, fun _ e he => ?_⟩
    exact beq_iff_eq.mp (List.all_eq_true.mp (hfinished rfl rfl) e he)
  case h_11 => cases hadvance
  all_goals
    cases hadvance
    exact hsound.goto nofun

/-- A step of an elector. -/
theorem Sound.elector (hsound : h.Sound) {j : Nat} {e e' : Elector} {label : Elector.Label}
    (he : h.electors[j]? = some e) (hreleases : e.releases label = true)
    (hadvance : e.advance ctxDone e.phase label = some e') :
    Sound { h with electors := h.electors.set j e' } := by
  have hmem := List.mem_of_getElem? he
  refine ⟨transition.forall_mem_set hsound.electors ?_, fun hstopped => ?_⟩
  · exact (hsound.electors e hmem).advance hreleases rfl hadvance
  · rw [hsound.finished hstopped e hmem] at hadvance
    cases label <;> cases hadvance

end NamespaceHandler

/-- Where `Stop` is. -/
inductive StopState where
  | idle
  | waiting
  | returned
deriving DecidableEq, Repr

structure Manager where
  cancelled : Bool
  handlers : List NamespaceHandler
  stop : StopState

namespace Manager

def handleNamespace (handlers : List NamespaceHandler) (name : String) : Except String (List NamespaceHandler) :=
  if handlers.any fun h => h.name == name then .error s!"namespace {name} already running"
  else .ok (handlers ++ [⟨name, .entering, []⟩])

/-- The handlers that `Start` has started, and its error. -/
def start (handlers : List NamespaceHandler) : List String → List NamespaceHandler × Option String
  | [] => (handlers, none)
  | name :: rest =>
    match handleNamespace handlers name with
    | .ok handlers => start handlers rest
    | .error err => (handlers, some err)

/-- The manager after `Start`. -/
def initial (names : List String) : Manager := ⟨false, (start [] names).1, .idle⟩

inductive Label where
  | handler (i : Nat) (label : HandlerLabel)
  | elector (i j : Nat) (label : Elector.Label)
  | stop

def step : Label → Manager → Option Manager
  | .handler i label, m =>
    match m.handlers[i]? with
    | some h => (h.advance m.cancelled h.phase label).map fun h => { m with handlers := m.handlers.set i h }
    | none => none
  | .elector i j label, m =>
    match m.handlers[i]? with
    | some h =>
      match h.electors[j]? with
      | some e =>
        (e.advance (m.cancelled || e.cancelled) e.phase label).map fun e =>
          { m with handlers := m.handlers.set i { h with electors := h.electors.set j e } }
      | none => none
    | none => none
  | .stop, m =>
    match m.stop with
    | .idle => some { m with stop := .waiting, cancelled := true }
    | .waiting =>
      if m.handlers.all fun h => h.phase == .stopped then some { m with stop := .returned } else none
    | .returned => none

/-- When `Stop` has returned, every elector has finished and has left no
election open. -/
def Released (m : Manager) : Prop :=
  m.stop = .returned → ∀ h ∈ m.handlers, ∀ e ∈ h.electors,
    e.phase = .finished ∧ ∀ election ∈ e.left, election.closed = true

/-- A handler stops when its electors have finished, and no `Resign` or
`Cleanup` fails. -/
def waitsForElectors (m : Manager) : Label → Bool
  | .handler i .next => m.handlers[i]?.all fun h => h.phase != .stopping || h.electorsFinished
  | .elector i j label => m.handlers[i]?.all fun h => h.electors[j]?.all fun e => e.releases label
  | _ => true

structure Inv (m : Manager) : Prop where
  handlers : ∀ h ∈ m.handlers, h.Sound
  returned : m.stop = .returned → ∀ h ∈ m.handlers, h.phase = .stopped

theorem sound_start (names : List String) {handlers : List NamespaceHandler} (h : ∀ h ∈ handlers, h.Sound) :
    ∀ h ∈ (start handlers names).1, h.Sound := by
  induction names generalizing handlers with
  | nil => exact h
  | cons name rest ih =>
    unfold start
    split
    · rename_i handlers' hhandle
      unfold handleNamespace at hhandle
      split at hhandle <;> cases hhandle
      refine ih (transition.forall_mem_concat h ⟨fun _ he => ?_, nofun⟩)
      cases he
    · exact h

theorem inv_initial (names : List String) : (initial names).Inv :=
  ⟨sound_start names fun _ h => (nomatch h), nofun⟩

variable {m m' : Manager} {label : Label}

theorem Inv.set (hinv : m.Inv) {i : Nat} {h h' : NamespaceHandler} (hh : m.handlers[i]? = some h)
    (hsound : h'.Sound) (hphase : h.phase = .stopped → h'.phase = .stopped) :
    Inv { m with handlers := m.handlers.set i h' } := by
  refine ⟨transition.forall_mem_set hinv.handlers hsound, fun hreturned => ?_⟩
  refine transition.forall_mem_set (hinv.returned hreturned) ?_
  exact hphase (hinv.returned hreturned h (List.mem_of_getElem? hh))

theorem inv_step (hinv : m.Inv) (hwaits : m.waitsForElectors label = true) (hstep : step label m = some m') :
    m'.Inv := by
  cases label with
  | handler i label =>
    dsimp only [step] at hstep
    split at hstep
    · rename_i h hh
      obtain ⟨h', hadvance, rfl⟩ := Option.map_eq_some_iff.mp hstep
      have hsound := hinv.handlers h (List.mem_of_getElem? hh)
      refine hinv.set hh (hsound.advance rfl ?_ hadvance) fun hstopped => ?_
      · rintro rfl hstopping
        simpa [waitsForElectors, hh, hstopping] using hwaits
      · rw [hstopped] at hadvance
        cases label <;> cases hadvance
    · cases hstep
  | elector i j label =>
    dsimp only [step] at hstep
    split at hstep
    · rename_i h hh
      split at hstep
      · rename_i e he
        obtain ⟨e', hadvance, rfl⟩ := Option.map_eq_some_iff.mp hstep
        rw [waitsForElectors, hh, Option.all_some, he, Option.all_some] at hwaits
        have hsound := hinv.handlers h (List.mem_of_getElem? hh)
        exact hinv.set hh (hsound.elector he hwaits hadvance) id
      · cases hstep
    · cases hstep
  | stop =>
    dsimp only [step] at hstep
    split at hstep
    · cases hstep
      exact ⟨hinv.handlers, nofun⟩
    · split at hstep
      · rename_i hstopped
        cases hstep
        exact ⟨hinv.handlers, fun _ h hh => beq_iff_eq.mp (List.all_eq_true.mp hstopped h hh)⟩
      · cases hstep
    · cases hstep

/-- When `Stop` has returned no elector is running and no election is open, if
no handler stops before its electors have finished and no `Resign` or
`Cleanup` fails. -/
theorem elections_released_of_run {names : List String}
    (hrun : transition.Run step (fun m label => m.waitsForElectors label = true) (initial names) m) :
    m.Released := by
  have hinv := hrun.invariant Inv (fun _ _ _ hinv hwaits hstep => inv_step hinv hwaits hstep) (inv_initial names)
  intro hreturned h hh e he
  have hsound := hinv.handlers h hh
  exact ⟨hsound.finished (hinv.returned hreturned h hh) e he, (hsound.electors e he).left⟩

section Examples

/-- The handler of the one namespace starts an elector, which becomes leader. -/
def leads : List Label :=
  [.handler 0 .next, .handler 0 .next, .elector 0 0 .next, .elector 0 0 .next, .elector 0 0 .next,
    .elector 0 0 .next, .elector 0 0 .next]

/-- The elector sees the cancelled context first, and finishes. -/
def finishes : List Label :=
  leads ++ ([.handler 0 .leaderCh, .stop, .elector 0 0 .ctxDone, .elector 0 0 .next, .elector 0 0 .next,
    .elector 0 0 .next, .elector 0 0 .next, .elector 0 0 .next, .elector 0 0 .next, .elector 0 0 .next,
    .handler 0 .ctxDone, .handler 0 .next, .stop] : List Label)

theorem finishes_released_elections : ∃ m : Manager,
    transition.Run step (fun m label => m.waitsForElectors label = true) (initial ["n"]) m ∧
    m.stop = .returned ∧ m.handlers.map (fun h => h.electors.map (·.left)) = [[[⟨.terminated, true, true⟩]]] ∧
    m.Released := by
  have hrun : (finishes.foldlM (fun (m : Manager) label =>
      if m.waitsForElectors label then step label m else none) (initial ["n"])).map
      (fun m => decide (m.stop = .returned ∧
        m.handlers.map (fun h => h.electors.map (·.left)) = [[[⟨.terminated, true, true⟩]]])) = some true := by
    decide +kernel
  obtain ⟨m, hfold, hfacts⟩ := Option.map_eq_some_iff.mp hrun
  obtain ⟨hstop, hleft⟩ := of_decide_eq_true hfacts
  have hreached : transition.Run step (fun m label => m.waitsForElectors label = true) (initial ["n"]) m :=
    transition.run_of_foldlM _ (fun _ _ h => h) hfold
  exact ⟨m, hreached, hstop, hleft, elections_released_of_run hreached⟩

/-- The handler sees the cancelled context first, and `Stop` returns. -/
def abandons : List Label := leads ++ ([.stop, .handler 0 .ctxDone, .handler 0 .next, .stop] : List Label)

/-- The elector is still leader then, and its processor is running. -/
theorem abandons_not_released : ∃ m : Manager, transition.Reaches step (initial ["n"]) m ∧
    m.stop = .returned ∧ m.handlers.map (fun h => h.electors.map (·.phase)) = [[.leading]] ∧ ¬m.Released := by
  have hrun : (abandons.foldlM (fun m label => step label m) (initial ["n"])).map
      (fun m => decide (m.stop = .returned ∧
        m.handlers.map (fun h => h.electors.map (·.phase)) = [[.leading]] ∧
        ∃ h ∈ m.handlers, ∃ e ∈ h.electors, e.phase ≠ .finished)) = some true := by
    decide +kernel
  obtain ⟨m, hfold, hfacts⟩ := Option.map_eq_some_iff.mp hrun
  obtain ⟨hstop, hleading, h, hh, e, he, hphase⟩ := of_decide_eq_true hfacts
  exact ⟨m, transition.reaches_of_foldlM hfold, hstop, hleading,
    fun hreleased => hphase (hreleased hstop h hh e he).1⟩

end Examples

end Manager

end leader
