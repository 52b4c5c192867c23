import ShardManager.ExecutorClient.Flights

open golang types

namespace executorclient

/-- The flight has returned a response to an RPC that was sent after the given
number of others, and the shard is not ready in it. -/
def Flight.denies (since : Nat) (shardID : String) (flight : Flight) : Bool :=
  match flight.phase with
  | .answered rpc (.assigned assignments) => decide (since ≤ rpc) && !readyIn assignments shardID
  | _ => false

namespace Executor

variable {mover : Owner} {e e' : Executor} {since : Nat} {shardID : String}

def Denied (e : Executor) (since : Nat) (shardID : String) : Prop :=
  ∃ flight ∈ e.flights, flight.denies since shardID = true

/-- What a call can count on when it looks for its processor again: it was
denied the shard, or the last response that was applied assigns the shard to
the executor and its processor is there. -/
def Settled (e : Executor) (since : Nat) (shardID : String) : Prop :=
  e.Denied since shardID ∨ ∃ rpc assignments, e.applied = some rpc ∧ since ≤ rpc + 1 ∧
    e.Answered rpc (some assignments) ∧ ready assignments shardID = true ∧ shardID ∈ e.registry.managed

/-- The RPC of the flight is sent after the given number of others. -/
def Fresh (e : Executor) (since f : Nat) : Prop := ∀ rpc, e.rpcOf f = some rpc → since ≤ rpc

/-- The RPC of the flight is at most one too old. -/
def Near (e : Executor) (since f : Nat) : Prop := ∀ rpc, e.rpcOf f = some rpc → since ≤ rpc + 1

theorem Denied.intro {rpc : Nat} {assignments : Option (Map String ShardAssignment)}
    (hanswered : e.Answered rpc assignments) (hsince : since ≤ rpc)
    (hready : readyIn assignments shardID = false) : e.Denied since shardID := by
  obtain ⟨f, hphase⟩ := hanswered
  obtain ⟨flight, hflight, hphase⟩ := Option.map_eq_some_iff.mp hphase
  refine ⟨flight, List.mem_of_getElem? hflight, ?_⟩
  simp [Flight.denies, hphase, hsince, hready]

theorem Denied.elim (h : e.Denied since shardID) :
    ∃ rpc assignments, e.Answered rpc assignments ∧ since ≤ rpc ∧ readyIn assignments shardID = false := by
  obtain ⟨flight, hmem, hdenies⟩ := h
  obtain ⟨f, hflight⟩ := List.getElem?_of_mem hmem
  unfold Flight.denies at hdenies
  split at hdenies
  · rename_i rpc assignments hphase
    rw [Bool.and_eq_true, Bool.not_eq_true'] at hdenies
    refine ⟨rpc, assignments, ⟨f, ?_⟩, of_decide_eq_true hdenies.1, hdenies.2⟩
    rw [phaseOf, hflight, Option.map_some, hphase]
  · cases hdenies

section

variable (hevolves : e.Evolves mover e')
include hevolves

theorem Evolves.denied (h : e.Denied since shardID) : e'.Denied since shardID := by
  obtain ⟨rpc, assignments, hanswered, hsince, hready⟩ := h.elim
  exact .intro (hevolves.answered rpc assignments hanswered) hsince hready

theorem Evolves.fresh (hsince : since ≤ e.activeSent) {f : Nat} (h : e.Fresh since f) : e'.Fresh since f := by
  intro rpc hrpc
  rcases hevolves.rpc f rpc hrpc with hbefore | hlater
  · exact h rpc hbefore
  · exact hsince.trans hlater

theorem Evolves.near (hsince : since ≤ e.activeSent) {f : Nat} (h : e.Near since f) : e'.Near since f := by
  intro rpc hrpc
  rcases hevolves.rpc f rpc hrpc with hbefore | hlater
  · exact h rpc hbefore
  · exact (hsince.trans hlater).trans (Nat.le_succ rpc)

/-- A flight that becomes current later is fresh. -/
theorem Evolves.current_fresh (hsince : since ≤ e.activeSent) {P : Nat → Prop}
    (h : ∀ f, e.current = some f → P f ∨ e.Fresh since f) {f : Nat} (hcurrent : e'.current = some f) :
    P f ∨ e'.Fresh since f := by
  rcases hevolves.current f hcurrent with hbefore | hnone
  · exact (h f hbefore).imp_right (hevolves.fresh hsince)
  · exact .inr fun rpc hrpc => nomatch hnone.symm.trans hrpc

/-- An update under way does not remove a processor that the last applied
response asks for, and a newer response that does not ask for it denies the
shard. -/
theorem Evolves.settled (hsound : e.Sound) (h : e.Settled since shardID) : e'.Settled since shardID := by
  rcases h with hdenied | ⟨rpc, assignments, happlied, hsince, hanswered, hready, hmem⟩
  · exact .inl (hevolves.denied hdenied)
  have hmem' : shardID ∈ e'.registry.managed := by
    rcases hevolves.registered shardID hmem with hmem' | ⟨u, hu, hfalse⟩
    · exact hmem'
    · have hrpc := Option.some.inj (happlied.symm.trans (hsound.applied u hu))
      cases hanswered.unique hsound.sequential (hrpc ▸ hsound.answered u hu)
      exact absurd (hfalse.symm.trans hready) Bool.false_ne_true
  rcases hevolves.applied with hsame | ⟨newer, assignments', happlied', hanswered', hle⟩
  · exact .inr ⟨rpc, assignments, hsame.trans happlied, hsince, hevolves.answered _ _ hanswered, hready, hmem'⟩
  · have hrpc := hle rpc happlied
    cases hready' : ready assignments' shardID with
    | true =>
      exact .inr ⟨newer, assignments', happlied', by omega, hevolves.answered _ _ hanswered', hready', hmem'⟩
    | false =>
      have hne : rpc ≠ newer := by
        rintro rfl
        cases hanswered.unique hsound.sequential hanswered'
        exact absurd (hready'.symm.trans hready) Bool.false_ne_true
      exact .inl (.intro (hevolves.answered _ _ hanswered') (by omega) hready')

end

end Executor

/-- Applying the response brings the call its processor, or denies it the shard. -/
def Promises (since : Nat) (shardID : String) (rpc : Nat) (assignments : Map String ShardAssignment) : Prop :=
  since ≤ rpc ∨ since ≤ rpc + 1 ∧ ready assignments shardID = true

namespace Beat

variable {order : RangeOrder} {mover : Owner} {e e' : Executor} {since : Nat} {shardID : String}
  {beat beat' : Beat} {label : BeatLabel}

/-- How old the responses are that a call waits for. Only a flight that it
joined in its first `doHeartbeat` can be too old. -/
def Sound (e : Executor) (since : Nat) (shardID : String) : Beat → Prop
  | .calling false | .updating | .done false => True
  | .calling true => ∀ f, e.current = some f → e.Fresh since f
  | .waiting false f leader => e.Near since f ∧ (leader = true → e.Fresh since f) ∧
      ∀ f', e.current = some f' → f' = f ∨ e.Fresh since f'
  | .waiting true f _ => e.Fresh since f
  | .locking rpc assignments => Promises since shardID rpc assignments
  | .done true => e.Settled since shardID

/-- A response that the call shares and that names its shard names it ready. -/
def namesReady (e : Executor) (shardID : String) : Beat → Bool
  | .waiting false f leader =>
    match e.flights[f]? with
    | some ⟨.answered _ (.assigned assignments), dups⟩ =>
      !(shared leader dups && names shardID assignments) || readyIn assignments shardID
    | _ => true
  | _ => true

theorem Sound.evolves (hsound : e.Sound) (hsince : since ≤ e.activeSent) (hevolves : e.Evolves mover e')
    (hbeat : beat.Sound e since shardID) : beat.Sound e' since shardID := by
  cases beat with
  | calling again =>
    cases again with
    | false => trivial
    | true =>
      intro f hcurrent
      rcases hevolves.current f hcurrent with hbefore | hnone
      · exact hevolves.fresh hsince (hbeat f hbefore)
      · exact fun rpc hrpc => nomatch hnone.symm.trans hrpc
  | waiting again f leader =>
    cases again with
    | false =>
      obtain ⟨hnear, hleader, hothers⟩ := hbeat
      exact ⟨hevolves.near hsince hnear, fun h => hevolves.fresh hsince (hleader h),
        fun _ hcurrent => hevolves.current_fresh hsince hothers hcurrent⟩
    | true => exact hevolves.fresh hsince hbeat
  | locking rpc assignments => exact hbeat
  | updating => trivial
  | done ok =>
    cases ok with
    | false => trivial
    | true => exact hevolves.settled hsound hbeat

/-- What a call does with a response. -/
theorem respond_sound {again leader : Bool} {f rpc dups : Nat} {answer : Answer}
    (hflight : e.flights[f]? = some ⟨.answered rpc answer, dups⟩) (hcurrent : e.current ≠ some f)
    (hbeat : (waiting again f leader).Sound e since shardID)
    (hnames : (waiting again f leader).namesReady e shardID = true) :
    (respond shardID again (shared leader dups) rpc answer).Sound e since shardID := by
  have hphase : e.phaseOf f = some (.answered rpc answer) := by rw [Executor.phaseOf, hflight, Option.map_some]
  have hrpc : e.rpcOf f = some rpc := Executor.rpcOf_eq hphase
  cases answer with
  | failed => trivial
  | assigned assignments =>
    have hanswered : e.Answered rpc assignments := ⟨f, hphase⟩
    cases again with
    | true =>
      have hsince := hbeat rpc hrpc
      cases assignments with
      | none => exact .inl (.intro hanswered hsince rfl)
      | some assignments => exact .inl hsince
    | false =>
      obtain ⟨hnear, hleader, hothers⟩ := hbeat
      cases hshared : shared leader dups with
      | false =>
        have hsince : since ≤ rpc := by
          rw [shared, Bool.or_eq_false_iff, Bool.not_eq_false'] at hshared
          exact hleader hshared.1 rpc hrpc
        cases assignments with
        | none => exact .inl (.intro hanswered hsince rfl)
        | some assignments => exact .inl hsince
      | true =>
        cases hnamed : names shardID assignments with
        | false =>
          have hrespond : respond shardID false true rpc (.assigned assignments) = .calling true := by
            simp [respond, hnamed]
          rw [hrespond]
          intro f' hf'
          rcases hothers f' hf' with rfl | hfresh
          · exact absurd hf' hcurrent
          · exact hfresh
        | true =>
          have hready : readyIn assignments shardID = true := by
            simpa [namesReady, hflight, hshared, hnamed] using hnames
          cases assignments with
          | none => cases hready
          | some assignments =>
            have hrespond : respond shardID false true rpc (.assigned (some assignments)) =
                .locking rpc assignments := by
              simp [respond, hnamed]
            rw [hrespond]
            exact .inr ⟨hnear rpc hrpc, hready⟩

/-- Every step of a call keeps its responses in order. -/
theorem Moves.beat_sound {owner : Owner} (hmoves : Moves order owner shardID e beat label beat' e') (hsound : e.Sound)
    (hsince : since ≤ e.activeSent) (hevolves : e.Evolves owner e') (hbeat : beat.Sound e since shardID)
    (hupdate : ∀ u ∈ e.update, u.owner = owner → Promises since shardID u.rpc u.work.assignments)
    (hnames : label = .next → beat.namesReady e shardID = true) : beat'.Sound e' since shardID := by
  cases hmoves with
  | join again f hcurrent =>
    cases again with
    | false =>
      refine ⟨fun rpc hrpc => ?_, fun h => (nomatch h), fun f' hf' => ?_⟩
      · rw [Executor.rpcOf_congr (Executor.phaseOf_join f)] at hrpc
        rw [hsound.sequential.last f rpc hcurrent hrpc]
        exact hsince
      · exact .inl (Option.some.inj (hf'.symm.trans hcurrent))
    | true => exact hevolves.fresh hsince (hbeat f hcurrent)
  | lead again hcurrent =>
    have hfresh : Executor.Fresh { e with
        flights := e.flights ++ [⟨.entered, 0⟩], current := some e.flights.length } since e.flights.length := by
      intro rpc hrpc
      rw [Executor.rpcOf, Executor.phaseOf_lead, if_pos rfl] at hrpc
      cases hrpc
    cases again with
    | false =>
      exact ⟨fun rpc hrpc => (hfresh rpc hrpc).trans (Nat.le_succ rpc), fun _ => hfresh,
        fun f' hf' => .inl (Option.some.inj hf').symm⟩
    | true => exact hfresh
  | send => exact hbeat.evolves hsound hsince hevolves
  | answer => exact hbeat.evolves hsound hsince hevolves
  | finish => exact hbeat.evolves hsound hsince hevolves
  | respond again f leader rpc answer dups hflight hcurrent =>
    exact respond_sound hflight hcurrent hbeat (hnames rfl)
  | lock => trivial
  | work => trivial
  | unlock u hu howner hfinished =>
    have hanswered := hsound.answered u hu
    have happlied := hsound.applied u hu
    cases hready : ready u.work.assignments shardID with
    | true =>
      have hmem := (hsound.serves u hu).mem_of_finished hfinished hready
      refine .inr ⟨u.rpc, u.work.assignments, happlied, ?_, hanswered, hready, hmem⟩
      rcases hupdate u hu howner with hle | ⟨hle, _⟩
      · omega
      · exact hle
    | false =>
      rcases hupdate u hu howner with hle | ⟨_, htrue⟩
      · exact .inl (.intro hanswered hle hready)
      · cases hready.symm.trans htrue

end Beat

/-- What holds of a call. -/
def CallPhase.Sound (e : Executor) (since : Nat) (shardID : String) : CallPhase → Prop
  | .beating beat => beat.Sound e since shardID ∧ beat.Backed e
  | .secondLoad => e.Settled since shardID
  | .returned .notFound => e.Denied since shardID
  | _ => True

structure Caller.Sound (e : Executor) (i : Nat) (c : Caller) : Prop where
  since : c.since ≤ e.activeSent
  update : ∀ u ∈ e.update, u.owner = .caller i → Promises c.since c.shardID u.rpc u.work.assignments
  phase : c.phase.Sound e c.since c.shardID

/-- The step applies responses in the order of their RPCs, and takes a response
that it shares only if that does not name the shard as not ready. -/
def Caller.inOrder (e : Executor) (c : Caller) : Bool :=
  match c.phase with
  | .beating beat => beat.inOrder e && beat.namesReady e c.shardID
  | _ => true

section

variable {order : RangeOrder} {mover : Owner} {e e' : Executor} {i : Nat} {c c' : Caller}

theorem Caller.Sound.evolves (hc : c.Sound e i) (hsound : e.Sound) (hevolves : e.Evolves mover e')
    (hmover : mover ≠ .caller i) : c.Sound e' i where
  since := hc.since.trans hevolves.sent
  update u' hu' howner := by
    rcases hevolves.update u' hu' with hmoved | ⟨u, hu, howner', hrpc, hassignments⟩
    · exact absurd (hmoved.symm.trans howner) hmover
    · rw [hrpc, hassignments]
      exact hc.update u hu (howner'.symm.trans howner)
  phase := by
    have hphase := hc.phase
    cases hp : c.phase with
    | beating beat =>
      rw [hp] at hphase
      exact ⟨hphase.1.evolves hsound hc.since hevolves, hphase.2.evolves hevolves⟩
    | secondLoad =>
      rw [hp] at hphase
      exact hevolves.settled hsound hphase
    | returned result =>
      rw [hp] at hphase
      cases result with
      | notFound => exact hevolves.denied hphase
      | _ => trivial
    | _ => trivial

theorem Caller.Sound.beat {beat beat' : Beat} {label : BeatLabel} (hc : c.Sound e i) (hsound : e.Sound)
    (hphase : c.phase = .beating beat) (hinOrder : label = .next → c.inOrder e = true)
    (hmoves : beat.Moves order (.caller i) c.shardID e label beat' e') :
    e.Evolves (.caller i) e' ∧ Caller.Sound e' i { c with phase := .beating beat' } := by
  have hbeat := hc.phase
  rw [hphase] at hbeat
  rw [inOrder, hphase, Bool.and_eq_true] at hinOrder
  have hevolves := hmoves.evolves hsound hbeat.2 fun h => (hinOrder h).1
  refine ⟨hevolves, hc.since.trans hevolves.sent, fun u' hu' howner => ?_,
    hmoves.beat_sound hsound hc.since hevolves hbeat.1 hc.update fun h => (hinOrder h).2, hmoves.backed⟩
  cases hmoves with
  | lock rpc assignments =>
    cases hu'
    exact hbeat.1
  | work u label work registry hupdate howner' hwork =>
    cases hu'
    rw [hwork.assignments]
    exact hc.update u hupdate howner'
  | unlock => cases hu'
  | _ => exact hc.update u' hu' howner

theorem Caller.Sound.next (hc : c.Sound e i) (hsound : e.Sound)
    (h : c.advance order i e .next = some (c', e')) : e' = e ∧ c'.Sound e i := by
  obtain ⟨hsince, hupdate, hphase⟩ := hc
  obtain ⟨shardID, since, phase⟩ := c
  cases phase with
  | firstLoad =>
    dsimp only [advance] at h
    split at h <;> cases h <;> exact ⟨rfl, hsince, hupdate, trivial⟩
  | checkEnabled =>
    dsimp only [advance] at h
    rw [if_pos hsound.enabled] at h
    cases h
    exact ⟨rfl, hsince, hupdate, trivial, trivial⟩
  | beating beat =>
    cases beat with
    | done ok =>
      cases ok with
      | true =>
        cases h
        exact ⟨rfl, hsince, hupdate, hphase.1⟩
      | false =>
        cases h
        exact ⟨rfl, hsince, hupdate, trivial⟩
    | _ => cases h
  | secondLoad =>
    dsimp only [advance] at h
    split at h
    · cases h
      exact ⟨rfl, hsince, hupdate, trivial⟩
    · rename_i hlookup
      cases h
      refine ⟨rfl, hsince, hupdate, ?_⟩
      rcases hphase with hdenied | ⟨_, _, _, _, _, _, hmem⟩
      · exact hdenied
      · obtain ⟨p, hp⟩ := Map.mem_iff_exists_lookup.mp hmem
        cases hlookup.symm.trans hp
  | returned result => cases h

end

/-- The loop is in service, and its heartbeat is in order. -/
def Loop.Sound (e : Executor) : Loop → Prop
  | .selecting | .ticked => True
  | .beating beat => beat.Backed e
  | _ => False

def Loop.inOrder (e : Executor) : Loop → Bool
  | .beating beat => beat.inOrder e
  | _ => true

/-- No drain, stop or cancelled context is signalled. -/
def LoopLabel.isSignal : LoopLabel → Bool
  | .signal _ => true
  | _ => false

/-- The processor factory fails. -/
def BeatLabel.isFailure : BeatLabel → Bool
  | .work .factoryFails => true
  | _ => false

theorem Loop.Sound.evolves {mover : Owner} {loop : Loop} {e e' : Executor} (hloop : loop.Sound e)
    (hevolves : e.Evolves mover e') : loop.Sound e' := by
  cases loop with
  | beating beat => exact Beat.Backed.evolves hloop hevolves
  | _ => exact hloop

theorem Loop.Sound.advance {order : RangeOrder} {loop loop' : Loop} {e e' : Executor} {label : LoopLabel}
    (hloop : loop.Sound e) (hsound : e.Sound) (hsignal : label.isSignal = false)
    (hbeat : ∀ beat, label = .beat beat → beat.isFailure = false)
    (hinOrder : label = .beat .next → loop.inOrder e = true)
    (h : loop.advance order e label = some (loop', e')) :
    e.Evolves .loop e' ∧ e'.Sound ∧ loop'.Sound e' := by
  have hsame := e.evolves_of_managed .loop e.enabled rfl
  cases loop with
  | selecting =>
    cases label with
    | tick =>
      cases h
      exact ⟨hsame, hsound, trivial⟩
    | signal => cases hsignal
    | _ => cases h
  | ticked =>
    cases label with
    | next =>
      dsimp only [Loop.advance] at h
      split at h <;> cases h <;> exact ⟨hsame, hsound, trivial⟩
    | _ => cases h
  | beating beat =>
    cases label with
    | beat label =>
      obtain ⟨⟨beat', e''⟩, hadvance, heq⟩ := Option.map_eq_some_iff.mp h
      cases heq
      have hmoves := Beat.moves_of_advance hadvance
      have hlabel : label ≠ .work .factoryFails := by
        rintro rfl
        cases hbeat _ rfl
      exact ⟨hmoves.evolves hsound hloop fun h => hinOrder (h ▸ rfl), hmoves.sound hsound hloop hlabel, hmoves.backed⟩
    | next =>
      cases beat with
      | done ok =>
        cases h
        exact ⟨hsame, hsound, trivial⟩
      | _ => cases h
    | _ => cases beat <;> cases h
  | _ => cases hloop

namespace System

/-- The executor stays enabled and is not drained or stopped, and neither the
processor factory nor a `Start` fails. -/
def healthy : Label → Bool
  | .caller _ (.beat label) => !label.isFailure
  | .loop (.beat label) => !label.isFailure
  | .loop label => !label.isSignal
  | .async (.startReturns _ ok) => ok
  | .setEnabled enabled => enabled
  | _ => true

/-- No response is applied after that of a newer RPC, and a response that a call
shares with others does not name its shard as not ready. -/
def inOrder (sys : System) : Label → Bool
  | .caller i (.beat .next) => sys.callers[i]?.all fun c => c.inOrder sys.executor
  | .loop (.beat .next) => sys.loop.inOrder sys.executor
  | _ => true

/-- A call that reports its shard as not found was denied it by a response to
an RPC that was sent after it began. -/
def Truthful (sys : System) : Prop :=
  ∀ c ∈ sys.callers, c.phase = .returned .notFound → sys.executor.Denied c.since c.shardID

structure Inv (sys : System) : Prop where
  executor : sys.executor.Sound
  callers : ∀ (i : Nat) (c : Caller), sys.callers[i]? = some c → c.Sound sys.executor i
  loop : sys.loop.Sound sys.executor
  owner : ∀ u ∈ sys.executor.update, ∀ i, u.owner = .caller i → i < sys.callers.length

theorem inv_initial : (initial true).Inv where
  executor := {
    sequential := ⟨fun _ _ h => (nomatch h), fun _ _ _ h => (nomatch h), fun _ _ h => (nomatch h),
      fun _ _ h => (nomatch h)⟩
    applied := fun _ h => (nomatch h)
    answered := fun _ h => (nomatch h)
    serves := fun _ h => (nomatch h)
    noneFailed := fun _ _ h => (nomatch h)
    enabled := rfl }
  callers _ _ h := nomatch h
  loop := trivial
  owner _ h := nomatch h

variable {order : RangeOrder} {sys sys' : System} {label : Label}

/-- A step that is not one of a call. -/
theorem Inv.evolves (hinv : sys.Inv) {e' : Executor} {loop' : Loop} (hevolves : sys.executor.Evolves .loop e')
    (hsound : e'.Sound) (hloop : loop'.Sound e') : Inv { sys with executor := e', loop := loop' } where
  executor := hsound
  callers i c hc := (hinv.callers i c hc).evolves hinv.executor hevolves (nofun)
  loop := hloop
  owner u' hu' i howner := by
    rcases hevolves.update u' hu' with hmoved | ⟨u, hu, howner', _⟩
    · cases hmoved.symm.trans howner
    · exact hinv.owner u hu i (howner'.symm.trans howner)

/-- A step of a call. -/
theorem Inv.evolves_caller (hinv : sys.Inv) {i : Nat} {c c' : Caller} {e' : Executor}
    (hc : sys.callers[i]? = some c) (hevolves : sys.executor.Evolves (.caller i) e') (hsound : e'.Sound)
    (hc' : c'.Sound e' i) : Inv { sys with executor := e', callers := sys.callers.set i c' } where
  executor := hsound
  callers j other hother := by
    by_cases hij : i = j
    · subst hij
      rw [List.getElem?_set_self (List.getElem?_eq_some_iff.mp hc).1, Option.some.injEq] at hother
      exact hother ▸ hc'
    · rw [List.getElem?_set_ne hij] at hother
      exact (hinv.callers j other hother).evolves hinv.executor hevolves fun h => hij (Owner.caller.inj h)
  loop := hinv.loop.evolves hevolves
  owner u' hu' j howner := by
    rw [List.length_set]
    rcases hevolves.update u' hu' with hmoved | ⟨u, hu, howner', _⟩
    · cases hmoved.symm.trans howner
      exact (List.getElem?_eq_some_iff.mp hc).1
    · exact hinv.owner u hu j (howner'.symm.trans howner)

theorem inv_call (hinv : sys.Inv) (shardID : String) :
    Inv { sys with callers := sys.callers ++ [⟨shardID, sys.executor.activeSent, .firstLoad⟩] } where
  executor := hinv.executor
  callers i c hc := by
    rw [List.getElem?_append] at hc
    split at hc
    · exact hinv.callers i c hc
    · rename_i hge
      rw [List.getElem?_singleton] at hc
      split at hc
      · cases hc
        exact ⟨le_rfl, fun u hu howner => absurd (hinv.owner u hu i howner) hge, trivial⟩
      · cases hc
  loop := hinv.loop
  owner u hu i howner := by
    rw [List.length_append]
    exact Nat.lt_add_right _ (hinv.owner u hu i howner)

theorem inv_step (hinv : sys.Inv) (hhealthy : healthy label = true) (hinOrder : sys.inOrder label = true)
    (hstep : step order label sys = some sys') : sys'.Inv := by
  cases label with
  | call shardID =>
    cases hstep
    exact inv_call hinv shardID
  | caller i label =>
    dsimp only [step] at hstep
    split at hstep
    · rename_i c hc
      obtain ⟨⟨c', e'⟩, hadvance, rfl⟩ := Option.map_eq_some_iff.mp hstep
      have hsound := hinv.callers i c hc
      cases label with
      | next =>
        obtain ⟨rfl, hsound'⟩ := hsound.next hinv.executor hadvance
        exact hinv.evolves_caller hc (sys.executor.evolves_of_managed _ _ rfl) hinv.executor hsound'
      | beat label =>
        dsimp only [Caller.advance] at hadvance
        split at hadvance
        · rename_i beat hphase
          obtain ⟨⟨beat', e''⟩, hbeat, heq⟩ := Option.map_eq_some_iff.mp hadvance
          cases heq
          have hmoves := Beat.moves_of_advance hbeat
          have hnext : label = .next → c.inOrder sys.executor = true := by
            rintro rfl
            rwa [inOrder, hc, Option.all_some] at hinOrder
          have hlabel : label ≠ .work .factoryFails := by
            rintro rfl
            cases hhealthy
          have hbacked := hsound.phase
          rw [hphase] at hbacked
          obtain ⟨hevolves, hsound'⟩ := hsound.beat hinv.executor hphase hnext hmoves
          exact hinv.evolves_caller hc hevolves (hmoves.sound hinv.executor hbacked.2 hlabel) hsound'
        · cases hadvance
    · cases hstep
  | loop label =>
    obtain ⟨⟨loop', e'⟩, hadvance, rfl⟩ := Option.map_eq_some_iff.mp hstep
    have hsignal : label.isSignal = false := by
      cases label with
      | signal => cases hhealthy
      | _ => rfl
    have hbeat : ∀ beat, label = .beat beat → beat.isFailure = false := by
      rintro beat rfl
      simpa [healthy] using hhealthy
    have hnext : label = .beat .next → sys.loop.inOrder sys.executor = true := by
      rintro rfl
      exact hinOrder
    obtain ⟨hevolves, hsound, hloop⟩ := hinv.loop.advance hinv.executor hsignal hbeat hnext hadvance
    exact hinv.evolves hevolves hsound hloop
  | async label =>
    obtain ⟨registry, hasync, rfl⟩ := Option.map_eq_some_iff.mp hstep
    have hlabel : ∀ p, label ≠ .startReturns p false := by
      rintro p rfl
      cases hhealthy
    obtain ⟨hmanaged, hnone⟩ := (Registry.acts_of_async hasync).healthy hlabel hinv.executor.noneFailed
    have hevolves := sys.executor.evolves_of_managed .loop sys.executor.enabled hmanaged
    have hsound := hinv.executor
    refine hinv.evolves hevolves ⟨hsound.sequential.congr (fun _ => rfl) rfl rfl, hsound.applied, hsound.answered,
      fun u hu => ?_, hnone, hsound.enabled⟩ (hinv.loop.evolves hevolves)
    exact (hsound.serves u hu).congr hmanaged
  | setEnabled enabled =>
    cases hstep
    have hevolves := sys.executor.evolves_of_managed .loop enabled rfl
    have hsound := hinv.executor
    exact hinv.evolves hevolves ⟨hsound.sequential.congr (fun _ => rfl) rfl rfl, hsound.applied, hsound.answered,
      hsound.serves, hsound.noneFailed, hhealthy⟩ (hinv.loop.evolves hevolves)

/-- A call that reports its shard as not found is right, if responses are
applied in the order of their RPCs and a response that the call shares does
not name its shard as not ready. -/
theorem truthful_of_run
    (hrun : transition.Run (step order)
      (fun sys label => healthy label = true ∧ sys.inOrder label = true) (initial true) sys) :
    sys.Truthful := by
  have hinv := hrun.invariant Inv (fun _ _ _ hinv hmeets hstep => inv_step hinv hmeets.1 hmeets.2 hstep) inv_initial
  intro c hmem hphase
  obtain ⟨i, hc⟩ := List.getElem?_of_mem hmem
  have hdenied := (hinv.callers i c hc).phase
  rwa [hphase] at hdenied

section Examples

/-- What a call has returned. -/
def resultOf (c : Caller) : Option Result :=
  match c.phase with
  | .returned result => some result
  | _ => none

theorem phase_of_resultOf {c : Caller} {result : Result} (h : resultOf c = some result) :
    c.phase = .returned result := by
  unfold resultOf at h
  split at h
  · rename_i hphase
    cases h
    exact hphase
  · cases h

/-- A call joins the heartbeat of the loop, whose response does not name its
shard. It sends one of its own, and is denied the shard. -/
def joins : List Label :=
  [.loop .tick, .loop .next, .loop (.beat .next), .loop (.beat .send), .call "1", .caller 0 .next, .caller 0 .next,
    .caller 0 (.beat .next), .loop (.beat (.answer (.assigned (some ∅)))), .loop (.beat .finish),
    .caller 0 (.beat .next), .caller 0 (.beat .next), .caller 0 (.beat .send),
    .caller 0 (.beat (.answer (.assigned (some ∅)))), .caller 0 (.beat .finish), .caller 0 (.beat .next),
    .caller 0 (.beat .next), .caller 0 (.beat (.work .rangeDone)), .caller 0 (.beat .next), .caller 0 .next,
    .caller 0 .next]

theorem joins_truthful : ∃ sys : System,
    transition.Run (step .stored) (fun sys label => healthy label = true ∧ sys.inOrder label = true)
      (initial true) sys ∧ sys.callers.map resultOf = [some .notFound] ∧ sys.Truthful := by
  have hrun : (joins.foldlM (fun (sys : System) label =>
      if healthy label && sys.inOrder label then step .stored label sys else none) (initial true)).map
      (fun sys => decide (sys.callers.map resultOf = [some .notFound])) = some true := by
    decide +kernel
  obtain ⟨sys, hfold, hresult⟩ := Option.map_eq_some_iff.mp hrun
  have hreached : transition.Run (step .stored) (fun sys label => healthy label = true ∧ sys.inOrder label = true)
      (initial true) sys := transition.run_of_foldlM _ (fun _ _ h => Bool.and_eq_true_iff.mp h) hfold
  exact ⟨sys, hreached, of_decide_eq_true hresult, truthful_of_run hreached⟩

/-- The response to the heartbeat of the loop, without any shard, is applied
between the update of a call and its second look for the processor. -/
def overtaken : List Label :=
  [.loop .tick, .loop .next, .loop (.beat .next), .loop (.beat .send),
    .loop (.beat (.answer (.assigned (some ∅)))), .loop (.beat .finish), .loop (.beat .next),
    .call "1", .caller 0 .next, .caller 0 .next, .caller 0 (.beat .next), .caller 0 (.beat .send),
    .caller 0 (.beat (.answer (.assigned (some (Map.ofList [("1", ⟨.ready⟩)]))))), .caller 0 (.beat .finish),
    .caller 0 (.beat .next), .caller 0 (.beat .next), .caller 0 (.beat (.work .rangeDone)),
    .caller 0 (.beat (.work .next)), .caller 0 (.beat (.work .next)), .caller 0 (.beat .next),
    .loop (.beat .next), .loop (.beat (.work (.visit "1"))), .loop (.beat (.work .next)),
    .loop (.beat (.work .next)), .loop (.beat (.work .next)), .loop (.beat (.work .rangeDone)),
    .loop (.beat .next), .caller 0 .next, .caller 0 .next]

/-- The only RPC that was sent after the call began assigned it the shard. -/
theorem overtaken_not_truthful : ∃ sys : System,
    transition.Run (step .stored) (fun _ label => healthy label = true) (initial true) sys ∧ ¬sys.Truthful := by
  have hrun : (overtaken.foldlM (fun (sys : System) label =>
      if healthy label then step .stored label sys else none) (initial true)).map
      (fun sys => decide (∃ c ∈ sys.callers, resultOf c = some .notFound ∧
        ¬∃ flight ∈ sys.executor.flights, flight.denies c.since c.shardID = true)) = some true := by
    decide +kernel
  obtain ⟨sys, hfold, hfacts⟩ := Option.map_eq_some_iff.mp hrun
  obtain ⟨c, hmem, hresult, hdenied⟩ := of_decide_eq_true hfacts
  refine ⟨sys, transition.run_of_foldlM _ (fun _ _ h => h) hfold, fun htruthful => ?_⟩
  exact hdenied (htruthful c hmem (phase_of_resultOf hresult))

end Examples

end System

end executorclient
