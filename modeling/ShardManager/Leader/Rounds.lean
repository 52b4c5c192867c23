import ShardManager.Abstract.Trace
import ShardManager.Leader.Manager

open trace

namespace election

/-- What `runElection` does to the outside, with the outcome of each call. -/
inductive Event where
  | createElection (ok : Bool)
  | campaign (ok : Bool)
  | createProcessor
  | run (ok : Bool)
  | terminate (ok : Bool)
  | resign (ok : Bool)
  | cleanup (ok : Bool)
  | send (isLeader : Bool)
deriving DecidableEq, Repr

def Event.isTerminate : Event → Bool
  | .terminate _ => true
  | _ => false

/-- The goroutine is in `runElection`. -/
def Phase.inElection : Phase → Bool
  | .deciding _ | .cooling | .checking | .closing | .finished => false
  | _ => true

/-- What a step of the goroutine does to the outside. -/
def Phase.events : Phase → Elector.Label → List Event
  | .creating, .next => [.createElection true]
  | .creating, .failed => [.createElection false]
  | .campaigning, .next => [.campaign true]
  | .campaigning, .failed => [.campaign false]
  | .starting, .next => [.createProcessor, .run true]
  | .starting, .failed => [.createProcessor, .run false]
  | .announcing, .next => [.send true]
  | .terminating .none _, .next => []
  | .terminating processor _, .next => [.terminate !processor.terminate.2]
  | .resigning .., .next => [.resign true]
  | .resigning .., .failed => [.resign false]
  | .cleaning .., .next => [.cleanup true]
  | .cleaning .., .failed => [.cleanup false]
  | .reporting _, .next => [.send false]
  | _, _ => []

/-- An elector with what it has done: in the rounds that have ended, and in the
current one. -/
structure Rounds where
  elector : Elector
  ended : List (List Event)
  current : List Event

namespace Rounds

inductive Label where
  | elector (label : Elector.Label)
  /-- `Terminate` of any processor, which may fail. -/
  | terminate (ok : Bool)
  /-- The context is cancelled. -/
  | cancel
  /-- The owner of the elector receives from the leader channel. -/
  | receive

def initial : Rounds := ⟨.run, [], []⟩

/-- Everything that the elector has done. -/
def history (sys : Rounds) : List Event := sys.ended.flatten ++ sys.current

/-- A round ends when `runElection` returns. -/
def record (sys : Rounds) (events : List Event) (elector : Elector) : Rounds :=
  if sys.elector.phase.inElection && !elector.phase.inElection then
    ⟨elector, sys.ended ++ [sys.current ++ events], []⟩
  else ⟨elector, sys.ended, sys.current ++ events⟩

def step : Label → Rounds → Option Rounds
  | .elector label, sys =>
    (sys.elector.advance sys.elector.cancelled sys.elector.phase label).map
      (sys.record (sys.elector.phase.events label))
  | .terminate ok, sys =>
    match sys.elector.phase with
    | .terminating .none _ => none
    | .terminating processor outcome =>
      some (sys.record [.terminate ok]
        { sys.elector with phase := .resigning (if ok then .terminated else processor) outcome !ok })
    | _ => none
  | .cancel, sys => some { sys with elector := { sys.elector with cancelled := true } }
  | .receive, sys => some { sys with elector := { sys.elector with leaderCh := none } }

end Rounds

def Terminated (es : List Event) : Prop := ∃ ok, .terminate ok ∈ es

def Resigned (es : List Event) : Prop := ∃ ok, .resign ok ∈ es

def Cleaned (es : List Event) : Prop := ∃ ok, .cleanup ok ∈ es

/-- In which order a round does what it does, as far as it has come. -/
structure Orderly (round : List Event) : Prop where
  created : ∀ ok, Before (.createElection ok) (fun earlier => earlier = []) round
  processor : Before .createProcessor (fun earlier => .campaign true ∈ earlier ∧ .createProcessor ∉ earlier) round
  announced : Before (.send true)
    (fun earlier => .campaign true ∈ earlier ∧ .run true ∈ earlier ∧ ∀ isLeader, .send isLeader ∉ earlier) round
  resigned : ∀ ok, Before (.resign ok)
    (fun earlier => .createElection true ∈ earlier ∧ (.createProcessor ∈ earlier → Terminated earlier) ∧
      ¬Resigned earlier) round
  cleaned : ∀ ok, Before (.cleanup ok) (fun earlier => Resigned earlier ∧ ¬Cleaned earlier) round
  reported : Before (.send false) (fun earlier => Resigned earlier ∧ .send false ∉ earlier) round

/-- What a round has done when it ends. -/
structure Complete (round : List Event) : Prop where
  released : .createElection true ∈ round → Resigned round ∧ Cleaned round
  reported : .send true ∈ round → .send false ∈ round

/-- `Terminate` was called for every processor. -/
def AllTerminated (es : List Event) : Prop := es.countP Event.isTerminate = es.count .createProcessor

/-- Leadership was reported lost as often as it was reported won, and once for
each failed `Campaign` and each failed `Run`. -/
def AllReported (es : List Event) : Prop :=
  es.count (.send false) = es.count (.send true) + es.count (.campaign false) + es.count (.run false)

/-- The discipline of an elector over all its rounds. -/
structure Rounds.Disciplined (sys : Rounds) : Prop where
  ended : ∀ round ∈ sys.ended, Orderly round ∧ Complete round
  current : Orderly sys.current
  processors : Before .createProcessor AllTerminated sys.history
  /-- Between two reports that leadership was won, one that it was lost, and one
  for each round whose `Campaign` or `Run` failed. -/
  between : ∀ before middle after,
    sys.history = before ++ .send true :: (middle ++ .send true :: after) → .send true ∉ middle →
      middle.count (.send false) = 1 + middle.count (.campaign false) + middle.count (.run false)

/-- How a round leaves `runElection` once it has an election. -/
inductive Exit where
  | notElected
  | notStarted
  | led

namespace Exit

def events : Exit → List Event
  | .notElected => [.createElection true, .campaign false]
  | .notStarted => [.createElection true, .campaign true, .createProcessor, .run false]
  | .led => [.createElection true, .campaign true, .createProcessor, .run true, .send true]

def hasProcessor : Exit → Bool
  | .notElected => false
  | _ => true

/-- What `resign` does with the processor. -/
def terminates (exit : Exit) (ok : Bool) : List Event := if exit.hasProcessor then [.terminate ok] else []

/-- Everything that a round with an election does. -/
def round (exit : Exit) (terminated resigned cleaned : Bool) : List Event :=
  exit.events ++ exit.terminates terminated ++ [.resign resigned, .cleanup cleaned, .send false]

theorem orderly_round (exit : Exit) (terminated resigned cleaned : Bool) :
    Orderly (exit.round terminated resigned cleaned) := by
  cases exit <;> constructor <;>
    simp [round, events, terminates, hasProcessor, Terminated, Resigned, Cleaned]

theorem complete_round (exit : Exit) (terminated resigned cleaned : Bool) :
    Complete (exit.round terminated resigned cleaned) := by
  cases exit <;> constructor <;> simp [round, events, terminates, hasProcessor, Resigned, Cleaned]

theorem allTerminated_round (exit : Exit) (terminated resigned cleaned : Bool) :
    AllTerminated (exit.round terminated resigned cleaned) := by
  cases exit <;> rfl

theorem allReported_round (exit : Exit) (terminated resigned cleaned : Bool) :
    AllReported (exit.round terminated resigned cleaned) := by
  cases exit <;> rfl

end Exit

/-- What the current round has done when the goroutine is in a phase. -/
inductive At : Phase → List Event → Prop where
  | deciding (outcome : Outcome) : At (.deciding outcome) []
  | cooling : At .cooling []
  | checking : At .checking []
  | closing : At .closing []
  | finished : At .finished []
  | delaying : At .delaying []
  | creating : At .creating []
  | campaigning : At .campaigning [.createElection true]
  | starting : At .starting [.createElection true, .campaign true]
  | announcing : At .announcing [.createElection true, .campaign true, .createProcessor, .run true]
  | leading : At .leading Exit.led.events
  | terminating (exit : Exit) (processor : ProcessorState) (outcome : Outcome)
      (hprocessor : processor = .none ↔ exit.hasProcessor = false) :
      At (.terminating processor outcome) exit.events
  | resigning (exit : Exit) (terminated : Bool) (processor : ProcessorState) (outcome : Outcome) (failed : Bool) :
      At (.resigning processor outcome failed) (exit.events ++ exit.terminates terminated)
  | cleaning (exit : Exit) (terminated resigned : Bool) (processor : ProcessorState) (ok : Bool) (outcome : Outcome)
      (failed : Bool) :
      At (.cleaning processor ok outcome failed) (exit.events ++ exit.terminates terminated ++ [.resign resigned])
  | reporting (exit : Exit) (terminated resigned cleaned : Bool) (outcome : Outcome) :
      At (.reporting outcome)
        (exit.events ++ exit.terminates terminated ++ [.resign resigned, .cleanup cleaned])

/-- Everything that a step of the goroutine can do. -/
inductive Phase.Moves : Phase → List Event → Phase → Prop where
  | loop (phase phase' : Phase) (hphase : phase.inElection = false)
      (hphase' : phase'.inElection = false ∨ phase' = .delaying) : Moves phase [] phase'
  | skip (phase' : Phase) (hphase' : phase'.inElection = false) : Moves .delaying [] phase'
  | delay : Moves .delaying [] .creating
  | create : Moves .creating [.createElection true] .campaigning
  | notCreated (outcome : Outcome) : Moves .creating [.createElection false] (.deciding outcome)
  | campaign : Moves .campaigning [.campaign true] .starting
  | notElected (outcome : Outcome) : Moves .campaigning [.campaign false] (.terminating .none outcome)
  | start : Moves .starting [.createProcessor, .run true] .announcing
  | notStarted (outcome : Outcome) :
      Moves .starting [.createProcessor, .run false] (.terminating .created outcome)
  | announce : Moves .announcing [.send true] .leading
  | leave (outcome : Outcome) : Moves .leading [] (.terminating .running outcome)
  | noProcessor (outcome : Outcome) (failed : Bool) :
      Moves (.terminating .none outcome) [] (.resigning .none outcome failed)
  | terminate (processor processor' : ProcessorState) (outcome : Outcome) (ok failed : Bool)
      (hprocessor : processor ≠ .none) :
      Moves (.terminating processor outcome) [.terminate ok] (.resigning processor' outcome failed)
  | resign (processor : ProcessorState) (outcome : Outcome) (failed ok failed' : Bool) :
      Moves (.resigning processor outcome failed) [.resign ok] (.cleaning processor ok outcome failed')
  | cleanup (processor : ProcessorState) (resigned : Bool) (outcome : Outcome) (failed ok : Bool)
      (outcome' : Outcome) :
      Moves (.cleaning processor resigned outcome failed) [.cleanup ok] (.reporting outcome')
  | report (outcome : Outcome) : Moves (.reporting outcome) [.send false] (.deciding outcome)

theorem Elector.phase_of_send {e e' : Elector} {isLeader : Bool} {phase : Phase}
    (h : e.send isLeader phase = some e') : e'.phase = phase := by
  unfold send at h
  split at h
  · cases h
    rfl
  · cases h

theorem Elector.moves_of_advance {e e' : Elector} {ctxDone : Bool} {phase : Phase} {label : Label}
    (h : e.advance ctxDone phase label = some e') : phase.Moves (phase.events label) e'.phase := by
  unfold advance at h
  split at h
  case h_1 =>
    cases h
    exact .delay
  case h_2 =>
    split at h
    · cases h
      exact .skip _ rfl
    · cases h
  case h_3 =>
    cases h
    exact .create
  case h_4 =>
    cases h
    exact .notCreated _
  case h_5 =>
    cases h
    exact .campaign
  case h_6 =>
    cases h
    exact .notElected _
  case h_7 =>
    cases h
    exact .start
  case h_8 =>
    cases h
    exact .notStarted _
  case h_9 =>
    rw [phase_of_send h]
    exact .announce
  case h_10 =>
    split at h
    · cases h
      exact .leave _
    · cases h
  case h_11 | h_12 =>
    cases h
    exact .leave _
  case h_13 processor outcome =>
    cases h
    cases processor with
    | none => exact .noProcessor outcome _
    | _ => exact .terminate _ _ outcome _ _ nofun
  case h_14 | h_15 =>
    cases h
    exact .resign _ _ _ _ _
  case h_16 | h_17 =>
    cases h
    exact .cleanup _ _ _ _ _ _
  case h_18 outcome =>
    rw [phase_of_send h]
    exact .report outcome
  case h_19 | h_22 | h_25 =>
    cases h
    exact .loop _ _ rfl (.inl rfl)
  case h_20 | h_21 =>
    cases h
    cases ctxDone <;> exact .loop _ _ rfl (.inl rfl)
  case h_23 =>
    split at h
    · cases h
      exact .loop _ _ rfl (.inl rfl)
    · cases h
  case h_24 =>
    cases h
    cases ctxDone with
    | false => exact .loop _ _ rfl (.inr rfl)
    | true => exact .loop _ _ rfl (.inl rfl)
  case h_26 =>
    cases h
    exact .skip _ rfl
  case h_27 => cases h

/-- What holds of a round that has ended. -/
structure Ended (round : List Event) : Prop where
  orderly : Orderly round
  complete : Complete round
  terminated : AllTerminated round
  reported : AllReported round

theorem ended_nil : Ended [] := by
  refine ⟨?_, ?_, rfl, rfl⟩ <;> constructor <;> simp

theorem ended_notCreated : Ended [.createElection false] := by
  refine ⟨?_, ?_, rfl, rfl⟩ <;> constructor <;> simp

theorem Exit.ended_round (exit : Exit) (terminated resigned cleaned : Bool) :
    Ended (exit.round terminated resigned cleaned) := by
  refine ⟨?_, ?_, ?_, ?_⟩
  · exact exit.orderly_round terminated resigned cleaned
  · exact exit.complete_round terminated resigned cleaned
  · exact exit.allTerminated_round terminated resigned cleaned
  · exact exit.allReported_round terminated resigned cleaned

theorem At.eq_nil {phase : Phase} {es : List Event} (hat : At phase es) (hphase : phase.inElection = false) :
    es = [] := by
  cases hat with
  | deciding | cooling | checking | closing | finished => rfl
  | _ => cases hphase

namespace Phase

variable {phase phase' : Phase} {es events : List Event}

theorem at_outside (hphase : phase.inElection = false) : At phase [] := by
  cases phase with
  | deciding outcome => exact .deciding outcome
  | cooling => exact .cooling
  | checking => exact .checking
  | closing => exact .closing
  | finished => exact .finished
  | _ => cases hphase

/-- A step in a round, or between two rounds. -/
theorem Moves.at_of_stays (hmoves : phase.Moves events phase') (hat : At phase es)
    (hstays : (phase.inElection && !phase'.inElection) = false) : At phase' (es ++ events) := by
  cases hmoves with
  | loop _ _ hphase hphase' =>
    rw [hat.eq_nil hphase]
    rcases hphase' with hphase' | rfl
    · exact at_outside hphase'
    · exact .delaying
  | skip _ hphase' =>
    rw [hphase'] at hstays
    cases hstays
  | delay =>
    cases hat
    exact .creating
  | create =>
    cases hat
    exact .campaigning
  | notCreated => cases hstays
  | campaign =>
    cases hat
    exact .starting
  | notElected outcome =>
    cases hat
    exact .terminating .notElected .none outcome (iff_of_true rfl rfl)
  | start =>
    cases hat
    exact .announcing
  | notStarted outcome =>
    cases hat
    exact .terminating .notStarted .created outcome (iff_of_false nofun nofun)
  | announce =>
    cases hat
    exact .leading
  | leave outcome =>
    cases hat
    exact .terminating .led .running outcome (iff_of_false nofun nofun)
  | noProcessor outcome failed =>
    cases hat with
    | terminating exit _ _ hprocessor =>
      have hnone : exit.terminates false = [] := if_neg (Bool.eq_false_iff.mp (hprocessor.mp rfl))
      rw [← hnone]
      exact .resigning exit false .none outcome failed
  | terminate processor processor' outcome ok failed hne =>
    cases hat with
    | terminating exit _ _ hprocessor =>
      have hsome : exit.terminates ok = [.terminate ok] :=
        if_pos (eq_true_of_ne_false fun hnone => hne (hprocessor.mpr hnone))
      rw [← hsome]
      exact .resigning exit ok processor' outcome failed
  | resign processor outcome failed ok failed' =>
    cases hat with
    | resigning exit terminated => exact .cleaning exit terminated ok processor ok outcome failed'
  | cleanup processor resigned outcome failed ok outcome' =>
    cases hat with
    | cleaning exit terminated resigned =>
      rw [List.append_assoc]
      exact .reporting exit terminated resigned ok outcome'
  | report => cases hstays

/-- A step that ends a round. -/
theorem Moves.ended_of_ends (hmoves : phase.Moves events phase') (hat : At phase es)
    (hends : (phase.inElection && !phase'.inElection) = true) : Ended (es ++ events) := by
  cases hmoves with
  | loop _ _ hphase =>
    rw [hphase] at hends
    cases hends
  | skip =>
    cases hat
    exact ended_nil
  | notCreated =>
    cases hat
    exact ended_notCreated
  | report =>
    cases hat with
    | reporting exit terminated resigned cleaned =>
      rw [List.append_assoc]
      exact exit.ended_round terminated resigned cleaned
  | _ => cases hends

/-- A processor is made, and leadership announced, when nothing is owed. -/
theorem Moves.before (hmoves : phase.Moves events phase') (hat : At phase es) :
    Before .createProcessor (fun earlier => AllTerminated (es ++ earlier)) events ∧
      Before (.send true) (fun earlier => AllReported (es ++ earlier)) events := by
  cases hmoves with
  | start | notStarted =>
    cases hat
    refine ⟨?_, by simp⟩
    rw [before_cons]
    exact ⟨fun _ => rfl, by simp⟩
  | announce =>
    cases hat
    refine ⟨by simp, ?_⟩
    rw [before_cons]
    exact ⟨fun _ => rfl, before_nil⟩
  | _ => simp

end Phase

theorem Orderly.mono {es round : List Event} (h : Orderly round) (hpre : es <+: round) : Orderly es where
  created ok := (h.created ok).mono hpre
  processor := h.processor.mono hpre
  announced := h.announced.mono hpre
  resigned ok := (h.resigned ok).mono hpre
  cleaned ok := (h.cleaned ok).mono hpre
  reported := h.reported.mono hpre

/-- What the current round has done is the beginning of a whole round. -/
theorem At.orderly {phase : Phase} {es : List Event} (hat : At phase es) : Orderly es := by
  cases hat with
  | terminating exit => exact (exit.orderly_round true true true).mono ⟨_, (List.append_assoc ..).symm⟩
  | resigning exit terminated => exact (exit.orderly_round terminated true true).mono (List.prefix_append _ _)
  | cleaning exit terminated resigned =>
    exact (exit.orderly_round terminated resigned true).mono ⟨_, List.append_assoc ..⟩
  | reporting exit terminated resigned cleaned =>
    exact (exit.orderly_round terminated resigned cleaned).mono ⟨_, List.append_assoc ..⟩
  | _ => exact (Exit.led.orderly_round true true true).mono ⟨_, rfl⟩

theorem AllTerminated.append {es es' : List Event} (h : AllTerminated es) (h' : AllTerminated es') :
    AllTerminated (es ++ es') := by
  rw [AllTerminated, List.countP_append, List.count_append, h, h']

theorem AllReported.append {es es' : List Event} (h : AllReported es) (h' : AllReported es') :
    AllReported (es ++ es') := by
  unfold AllReported at h h' ⊢
  simp only [List.count_append]
  omega

theorem all_flatten {rounds : List (List Event)} (h : ∀ round ∈ rounds, Ended round) :
    AllTerminated rounds.flatten ∧ AllReported rounds.flatten := by
  induction rounds with
  | nil => exact ⟨rfl, rfl⟩
  | cons round rounds ih =>
    obtain ⟨hround, hrounds⟩ := List.forall_mem_cons.mp h
    obtain ⟨hterminated, hreported⟩ := ih hrounds
    rw [List.flatten_cons]
    exact ⟨hround.terminated.append hterminated, hround.reported.append hreported⟩

namespace Rounds

variable {sys sys' : Rounds}

structure Inv (sys : Rounds) : Prop where
  current : At sys.elector.phase sys.current
  ended : ∀ round ∈ sys.ended, Ended round
  processors : Before .createProcessor AllTerminated sys.history
  announced : Before (.send true) AllReported sys.history

theorem history_record (sys : Rounds) (events : List Event) (elector : Elector) :
    (sys.record events elector).history = sys.history ++ events := by
  unfold record
  split <;> simp [history]

/-- Everything that a step can do. -/
theorem cases_of_step {label : Label} (h : step label sys = some sys') :
    (∃ elector : Elector, elector.phase = sys.elector.phase ∧ sys' = { sys with elector }) ∨
      ∃ events elector, sys.elector.phase.Moves events elector.phase ∧ sys' = sys.record events elector := by
  cases label with
  | elector label =>
    obtain ⟨elector, hadvance, rfl⟩ := Option.map_eq_some_iff.mp h
    exact .inr ⟨_, elector, Elector.moves_of_advance hadvance, rfl⟩
  | terminate ok =>
    dsimp only [step] at h
    split at h
    · cases h
    · rename_i processor outcome hprocessor hphase
      cases h
      refine .inr ⟨_, _, ?_, rfl⟩
      rw [hphase]
      exact .terminate processor _ outcome ok _ (fun hnone => hprocessor (hnone ▸ rfl))
    · cases h
  | cancel =>
    cases h
    exact .inl ⟨{ sys.elector with cancelled := true }, rfl, rfl⟩
  | receive =>
    cases h
    exact .inl ⟨{ sys.elector with leaderCh := none }, rfl, rfl⟩

theorem inv_initial : initial.Inv := ⟨.delaying, fun _ h => (nomatch h), before_nil, before_nil⟩

theorem Inv.record (hinv : sys.Inv) {events : List Event} {elector : Elector}
    (hmoves : sys.elector.phase.Moves events elector.phase) : (sys.record events elector).Inv := by
  obtain ⟨hterminated, hreported⟩ := all_flatten hinv.ended
  obtain ⟨hprocessors, hannounced⟩ := hmoves.before hinv.current
  have hprocessors' : Before .createProcessor AllTerminated (sys.record events elector).history := by
    rw [history_record, before_append]
    refine ⟨hinv.processors, hprocessors.imp fun earlier hearlier => ?_⟩
    rw [history, List.append_assoc]
    exact hterminated.append hearlier
  have hannounced' : Before (.send true) AllReported (sys.record events elector).history := by
    rw [history_record, before_append]
    refine ⟨hinv.announced, hannounced.imp fun earlier hearlier => ?_⟩
    rw [history, List.append_assoc]
    exact hreported.append hearlier
  cases hends : sys.elector.phase.inElection && !elector.phase.inElection with
  | true =>
    have hround := hmoves.ended_of_ends hinv.current hends
    have houtside : elector.phase.inElection = false := Bool.not_eq_eq_eq_not.mp (Bool.and_eq_true_iff.mp hends).2
    rw [Rounds.record, if_pos hends] at hprocessors' hannounced' ⊢
    exact ⟨Phase.at_outside houtside, transition.forall_mem_concat hinv.ended hround,
      hprocessors', hannounced'⟩
  | false =>
    have hat := hmoves.at_of_stays hinv.current hends
    rw [Rounds.record, if_neg (Bool.eq_false_iff.mp hends)] at hprocessors' hannounced' ⊢
    exact ⟨hat, hinv.ended, hprocessors', hannounced'⟩

theorem Inv.step {label : Label} (hinv : sys.Inv) (hstep : step label sys = some sys') : sys'.Inv := by
  rcases cases_of_step hstep with ⟨elector, hphase, rfl⟩ | ⟨events, elector, hmoves, rfl⟩
  · exact ⟨hphase ▸ hinv.current, hinv.ended, hinv.processors, hinv.announced⟩
  · exact hinv.record hmoves

/-- In every run of an elector, with every outcome of the calls, its rounds are
in order. -/
theorem disciplined_of_run (hrun : transition.Reaches step initial sys) : sys.Disciplined := by
  have hinv := hrun.invariant Inv (fun _ _ _ hinv _ hstep => hinv.step hstep) inv_initial
  refine ⟨fun round hround => ?_, hinv.current.orderly, hinv.processors, ?_⟩
  · have hended := hinv.ended round hround
    exact ⟨hended.orderly, hended.complete⟩
  · intro before middle after hhistory hmiddle
    have hfirst : AllReported before := by
      refine hinv.announced before ⟨middle ++ .send true :: after, ?_⟩
      rw [hhistory, List.append_assoc, List.singleton_append]
    have hsecond : AllReported (before ++ .send true :: middle) := by
      refine hinv.announced _ ⟨after, ?_⟩
      rw [hhistory]
      simp
    unfold AllReported at hfirst hsecond
    simp only [List.count_append, ne_eq, Event.send.injEq, Bool.true_eq_false, not_false_eq_true,
      List.count_cons_of_ne, List.count_cons_self, List.count_eq_zero_of_not_mem hmiddle, Nat.zero_add,
      reduceCtorEq] at hsecond
    omega

section Examples

/-- The elector leads for a period. Its next campaign fails, and then it leads
again. -/
def retries : List Label :=
  [.elector .next, .elector .next, .elector .next, .elector .next, .elector .next, .receive,
    .elector .leaderTimer, .elector .next, .elector .next, .elector .next, .elector .next, .receive,
    .elector .next, .elector .next,
    .elector .next, .elector .next, .elector .failed, .elector .next, .elector .next, .elector .next,
    .elector .next, .receive, .elector .next, .elector .next, .elector .next,
    .elector .next, .elector .next, .elector .next, .elector .next, .elector .next]

theorem history_retries :
    (retries.foldlM (fun sys label => step label sys) initial).map history =
      some [.createElection true, .campaign true, .createProcessor, .run true, .send true,
        .terminate true, .resign true, .cleanup true, .send false,
        .createElection true, .campaign false, .resign true, .cleanup true, .send false,
        .createElection true, .campaign true, .createProcessor, .run true, .send true] := by
  decide +kernel

theorem retries_disciplined :
    ∃ sys, transition.Reaches step initial sys ∧ sys.history.count (.send true) = 2 ∧ sys.Disciplined := by
  obtain ⟨sys, hfold, hhistory⟩ := Option.map_eq_some_iff.mp history_retries
  have hrun := transition.reaches_of_foldlM hfold
  refine ⟨sys, hrun, ?_, disciplined_of_run hrun⟩
  rw [hhistory]
  rfl

/-- Leadership is reported lost twice between two reports that it was won. -/
theorem retries_reports_twice :
    ∃ sys before middle after, transition.Reaches step initial sys ∧
      sys.history = before ++ .send true :: (middle ++ .send true :: after) ∧ .send true ∉ middle ∧
      middle.count (.send false) ≠ 1 := by
  obtain ⟨sys, hfold, hhistory⟩ := Option.map_eq_some_iff.mp history_retries
  refine ⟨sys, [.createElection true, .campaign true, .createProcessor, .run true],
    [.terminate true, .resign true, .cleanup true, .send false,
      .createElection true, .campaign false, .resign true, .cleanup true, .send false,
      .createElection true, .campaign true, .createProcessor, .run true], [],
    transition.reaches_of_foldlM hfold, hhistory, ?_, ?_⟩
  · decide
  · decide

end Examples

end Rounds

end election
