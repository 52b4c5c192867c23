import ShardManager.Abstract.Transition
import ShardManager.ExecutorClient.Flights

open golang types executorclient

namespace heartbeat

/-- What the callers of a `Manager` share: the calls of its singleflight group,
of which `current` is the one in the map of the group, and how many RPCs with
status ACTIVE were sent. -/
structure Manager where
  flights : List Flight
  current : Option Nat
  sent : Nat

namespace Manager

def initial : Manager := ⟨[], none, 0⟩

/-- `sf.Do` joins the current flight, or starts one that the caller leads. -/
def enter (m : Manager) : (Nat × Bool) × Manager :=
  match m.current with
  | some f =>
    ((f, false), { m with flights := m.flights.modify f fun flight => { flight with dups := flight.dups + 1 } })
  | none =>
    ((m.flights.length, true),
      { m with flights := m.flights ++ [⟨.entered, 0⟩], current := some m.flights.length })

/-- What the leader does for its flight: `sendRPC`, the return of the RPC, and
taking the flight out of the group. -/
def lead (m : Manager) (f : Nat) : BeatLabel → Option Manager
  | .send =>
    match m.flights[f]? with
    | some ⟨.entered, dups⟩ =>
      some { m with flights := m.flights.set f ⟨.sent m.sent, dups⟩, sent := m.sent + 1 }
    | _ => none
  | .answer answer =>
    match m.flights[f]? with
    | some ⟨.sent rpc, dups⟩ => some { m with flights := m.flights.set f ⟨.answered rpc answer, dups⟩ }
    | _ => none
  | .finish =>
    match m.flights[f]? with
    | some ⟨.answered _ _, _⟩ => if m.current = some f then some { m with current := none } else none
    | _ => none
  | _ => none

/-- An executor with the flights of the manager. -/
def executor (m : Manager) (e : Executor) : Executor :=
  { e with flights := m.flights, current := m.current, activeSent := m.sent }

end Manager

/-- Where a call of `Heartbeat` is: before or in its first or second
`doHeartbeat`, or it has returned an error or the assignments of an RPC. -/
inductive Phase where
  | calling (again : Bool)
  | waiting (again : Bool) (flight : Nat) (leader : Bool)
  | failed
  | returned (rpc : Nat) (assignments : Option (Map String ShardAssignment))

/-- What `Heartbeat` does with the result of a flight. -/
def Phase.respond (shardID : String) (again shared : Bool) (rpc : Nat) : Answer → Phase
  | .failed => .failed
  | .assigned assignments =>
    if !again && shared && !Beat.names shardID assignments then .calling true else .returned rpc assignments

/-- A call of `Heartbeat`, with the number of RPCs sent before it began and the
flights it has taken part in. -/
structure Call where
  shardID : String
  since : Nat
  flights : List Nat
  phase : Phase

/-- One step of a call. -/
def Call.advance (m : Manager) (c : Call) (label : BeatLabel) : Option (Call × Manager) :=
  match c.phase, label with
  | .calling again, .next =>
    some ({ c with flights := c.flights ++ [m.enter.1.1], phase := .waiting again m.enter.1.1 m.enter.1.2 }, m.enter.2)
  | .waiting again f leader, .next =>
    match m.flights[f]? with
    | some ⟨.answered rpc answer, dups⟩ =>
      if m.current = some f then none
      else some ({ c with phase := .respond c.shardID again (Beat.shared leader dups) rpc answer }, m)
    | _ => none
  | .waiting _ f true, label => (m.lead f label).map fun m => (c, m)
  | _, _ => none

structure System where
  manager : Manager
  calls : List Call

namespace System

inductive Label where
  | call (shardID : String)
  | advance (i : Nat) (label : BeatLabel)

def initial : System := ⟨.initial, []⟩

def step : Label → System → Option System
  | .call shardID, sys =>
    some { sys with calls := sys.calls ++ [⟨shardID, sys.manager.sent, [], .calling false⟩] }
  | .advance i label, sys => sys.calls[i]?.bind fun c =>
    (c.advance sys.manager label).map fun next => ⟨next.2, sys.calls.set i next.1⟩

end System

/-- What a goroutine of the executor is doing when its call of `Heartbeat` is in
a phase. -/
def Phase.beat : Phase → Beat
  | .calling again => .calling again
  | .waiting again f leader => .waiting again f leader
  | .failed => .done false
  | .returned rpc (some assignments) => .locking rpc assignments
  | .returned _ none => .done true

theorem Phase.beat_respond (shardID : String) (again shared : Bool) (rpc : Nat) (answer : Answer) :
    (respond shardID again shared rpc answer).beat = Beat.respond shardID again shared rpc answer := by
  cases answer with
  | failed => rfl
  | assigned assignments =>
    dsimp only [respond, Beat.respond]
    split
    · rfl
    · cases assignments <;> rfl

/-- What the leader does for its flight is what its goroutine does. -/
theorem Manager.beat_of_lead {m m' : Manager} {f : Nat} {label : BeatLabel} (hlead : m.lead f label = some m')
    (order : RangeOrder) (owner : Owner) (shardID : String) (again : Bool) (e : Executor) :
    (Beat.waiting again f true).advance order owner shardID (m.executor e) label =
      some (.waiting again f true, m'.executor e) := by
  cases label with
  | send =>
    dsimp only [lead] at hlead
    split at hlead
    · rename_i dups hflight
      cases hlead
      simp only [Beat.advance, executor, hflight]
    · cases hlead
  | answer answer =>
    dsimp only [lead] at hlead
    split at hlead
    · rename_i rpc dups hflight
      cases hlead
      simp only [Beat.advance, executor, hflight]
    · cases hlead
  | finish =>
    dsimp only [lead] at hlead
    split at hlead
    · rename_i rpc answer dups hflight
      split at hlead
      · rename_i hcurrent
        cases hlead
        simp only [Beat.advance, executor, hflight]
        exact if_pos hcurrent
      · cases hlead
    · cases hlead
  | next => cases hlead
  | work label => cases hlead

namespace Call

variable {m m' : Manager} {c c' : Call} {label : BeatLabel}

/-- Everything that a step can do. -/
inductive Moves (m : Manager) (c : Call) : BeatLabel → Call → Manager → Prop where
  | enter (again) (hphase : c.phase = .calling again) :
      Moves m c .next
        { c with flights := c.flights ++ [m.enter.1.1], phase := .waiting again m.enter.1.1 m.enter.1.2 } m.enter.2
  | respond (again f leader rpc answer dups) (hphase : c.phase = .waiting again f leader)
      (hflight : m.flights[f]? = some ⟨.answered rpc answer, dups⟩) (hcurrent : m.current ≠ some f) :
      Moves m c .next { c with phase := .respond c.shardID again (Beat.shared leader dups) rpc answer } m
  | lead (again f label m') (hphase : c.phase = .waiting again f true) (hlead : m.lead f label = some m') :
      Moves m c label c m'

theorem moves_of_advance (h : c.advance m label = some (c', m')) : c.Moves m label c' m' := by
  unfold advance at h
  split at h
  case h_1 again hphase =>
    cases h
    exact .enter again hphase
  case h_2 again f leader hphase =>
    split at h
    · rename_i rpc answer dups hflight
      split at h
      · cases h
      · rename_i hcurrent
        cases h
        exact .respond again f leader rpc answer dups hphase hflight hcurrent
    · cases h
  case h_3 again f hphase _ =>
    obtain ⟨next, hlead, heq⟩ := Option.map_eq_some_iff.mp h
    cases heq
    exact .lead again f _ m' hphase hlead
  case h_4 => cases h

/-- The goroutines of an executor go through `Heartbeat` step by step. -/
theorem Moves.beat (hmoves : c.Moves m label c' m') (order : RangeOrder) (owner : Owner) (e : Executor) :
    c.phase.beat.advance order owner c.shardID (m.executor e) label = some (c'.phase.beat, m'.executor e) := by
  cases hmoves with
  | enter again hphase =>
    rw [hphase]
    cases hcurrent : m.current with
    | none => simp only [Phase.beat, Beat.advance, Beat.enter, Manager.enter, Manager.executor, hcurrent]
    | some f => simp only [Phase.beat, Beat.advance, Beat.enter, Manager.enter, Manager.executor, hcurrent]
  | respond again f leader rpc answer dups hphase hflight hcurrent =>
    rw [hphase, Phase.beat_respond]
    simp only [Phase.beat, Beat.advance, Manager.executor, hflight]
    exact if_neg hcurrent
  | lead again f label m' hphase hlead =>
    rw [hphase]
    exact Manager.beat_of_lead hlead order owner c.shardID again e

end Call

namespace Manager

variable {m m' : Manager}

/-- The RPC that a flight has sent. -/
def rpcOf (m : Manager) (f : Nat) : Option Nat := (m.executor (.initial true)).rpcOf f

/-- The RPC returned these assignments. -/
def Answered (m : Manager) (rpc : Nat) (assignments : Option (Map String ShardAssignment)) : Prop :=
  (m.executor (.initial true)).Answered rpc assignments

/-- If the flight has sent its RPC, then not among the first ones. -/
def SentAfter (m : Manager) (since f : Nat) : Prop := ∀ rpc, m.rpcOf f = some rpc → since ≤ rpc

/-- What a call can rely on when another one takes a step. -/
structure Evolves (m m' : Manager) : Prop where
  sent : m.sent ≤ m'.sent
  rpc : ∀ f rpc, m'.rpcOf f = some rpc → m.rpcOf f = some rpc ∨ m.sent ≤ rpc
  answered : ∀ rpc assignments, m.Answered rpc assignments → m'.Answered rpc assignments
  current : ∀ f, m'.current = some f → m.current = some f ∨ m'.rpcOf f = none

theorem SentAfter.evolves {since f : Nat} (hafter : m.SentAfter since f) (hsince : since ≤ m.sent)
    (hevolves : m.Evolves m') : m'.SentAfter since f := by
  intro rpc hrpc
  rcases hevolves.rpc f rpc hrpc with hbefore | hsent
  · exact hafter rpc hbefore
  · exact hsince.trans hsent

/-- A flight that has just started has sent nothing. -/
theorem Evolves.sentAfter_current (hevolves : m.Evolves m') {since f : Nat} (hsince : since ≤ m.sent)
    (hcurrent : m'.current = some f) (hbefore : m.current = some f → m.SentAfter since f) :
    m'.SentAfter since f := by
  rcases hevolves.current f hcurrent with hsame | hnone
  · exact (hbefore hsame).evolves hsince hevolves
  · intro rpc hrpc
    cases hnone.symm.trans hrpc

theorem enter_current (m : Manager) :
    m.enter.2.current = some m.enter.1.1 ∧
      (m.enter.1.2 = false ∧ m.current = some m.enter.1.1 ∨ m.enter.1.2 = true ∧ m.current = none) := by
  unfold enter
  split
  · rename_i f hcurrent
    exact ⟨hcurrent, .inl ⟨rfl, hcurrent⟩⟩
  · rename_i hcurrent
    exact ⟨rfl, .inr ⟨rfl, hcurrent⟩⟩

theorem answered_of_flight {f rpc dups : Nat} {assignments : Option (Map String ShardAssignment)}
    (hflight : m.flights[f]? = some ⟨.answered rpc (.assigned assignments), dups⟩) :
    m.rpcOf f = some rpc ∧ m.Answered rpc assignments := by
  have hphase : (m.executor (.initial true)).phaseOf f = some (.answered rpc (.assigned assignments)) := by
    rw [Executor.phaseOf, executor, hflight, Option.map_some]
  exact ⟨Executor.rpcOf_eq hphase, f, hphase⟩

end Manager

/-- How many flights a call may still take part in. -/
def Phase.left : Phase → Nat
  | .calling again => if again then 1 else 2
  | .waiting again _ _ => if again then 0 else 1
  | .failed => 0
  | .returned _ _ => 0

/-- In the first `doHeartbeat` only a flight that others lead may have sent its
RPC before the call began. When that flight is over, so are all others of its
time. -/
def Phase.Fresh (m : Manager) (shardID : String) (since : Nat) : Phase → Prop
  | .calling again => again = true → ∀ f, m.current = some f → m.SentAfter since f
  | .waiting again f leader =>
    (again = true ∨ leader = true → m.SentAfter since f) ∧
      ∀ g, m.current = some g → g ≠ f → m.SentAfter since g
  | .failed => True
  | .returned rpc assignments =>
    m.Answered rpc assignments ∧
      (since ≤ rpc ∨ shardID ≠ "" ∧ ∃ found ∈ assignments, shardID ∈ found)

namespace Call

variable {m m' : Manager} {c c' : Call} {label : BeatLabel}

structure Inv (m : Manager) (c : Call) : Prop where
  since : c.since ≤ m.sent
  flights : c.flights.length + c.phase.left ≤ 2
  fresh : c.phase.Fresh m c.shardID c.since

theorem Moves.evolves (hmoves : c.Moves m label c' m') : m.Evolves m' := by
  have hbeat := Beat.moves_of_advance (hmoves.beat .stored .loop (.initial true))
  exact ⟨hbeat.sent_le, fun f rpc h => hbeat.rpc h, fun rpc assignments h => hbeat.answered h,
    fun f h => hbeat.current h⟩

/-- The steps of the other calls. -/
theorem Inv.evolves (hinv : c.Inv m) (hevolves : m.Evolves m') : c.Inv m' := by
  refine ⟨hinv.since.trans hevolves.sent, hinv.flights, ?_⟩
  have hfresh := hinv.fresh
  cases hphase : c.phase with
  | calling again =>
    rw [hphase] at hfresh
    intro hagain f hcurrent
    exact hevolves.sentAfter_current hinv.since hcurrent (hfresh hagain f)
  | waiting again f leader =>
    rw [hphase] at hfresh
    refine ⟨fun hleader => (hfresh.1 hleader).evolves hinv.since hevolves, fun g hcurrent hne => ?_⟩
    exact hevolves.sentAfter_current hinv.since hcurrent fun hbefore => hfresh.2 g hbefore hne
  | failed => trivial
  | returned rpc assignments =>
    rw [hphase] at hfresh
    exact ⟨hevolves.answered rpc assignments hfresh.1, hfresh.2⟩

/-- A call that enters a flight leads it, or joins the current one. -/
theorem Inv.enter (hinv : c.Inv m) {again : Bool} (hphase : c.phase = .calling again)
    (hevolves : m.Evolves m.enter.2) :
    Inv m.enter.2
      { c with flights := c.flights ++ [m.enter.1.1], phase := .waiting again m.enter.1.1 m.enter.1.2 } := by
  obtain ⟨hcurrent, hentered⟩ := m.enter_current
  have hfresh := hinv.fresh
  have hflights := hinv.flights
  rw [hphase] at hfresh hflights
  refine ⟨hinv.since.trans hevolves.sent, ?_, fun hleader => ?_, fun g hg hne => ?_⟩
  · rw [List.length_append, List.length_singleton]
    cases again <;> simpa [Phase.left, Nat.add_assoc] using hflights
  · refine hevolves.sentAfter_current hinv.since hcurrent fun hbefore => ?_
    rcases hentered with ⟨hjoins, -⟩ | ⟨-, hnone⟩
    · exact hfresh (hleader.resolve_right (Bool.eq_false_iff.mp hjoins)) _ hbefore
    · cases hnone.symm.trans hbefore
  · exact absurd (Option.some.inj (hg.symm.trans hcurrent)) hne

theorem names_iff {shardID : String} {assignments : Option (Map String ShardAssignment)} :
    Beat.names shardID assignments = true ↔ shardID ≠ "" ∧ ∃ found ∈ assignments, shardID ∈ found := by
  rw [Beat.names, Bool.and_eq_true, bne_iff_ne, Option.any_eq_true]
  exact and_congr_right' (exists_congr fun found => and_congr_right' decide_eq_true_iff)

/-- A call that is answered by a flight it has not led alone looks for its shard
in the answer, the first time. -/
theorem Inv.respond (hinv : c.Inv m) {again leader : Bool} {f rpc dups : Nat} {answer : Answer}
    (hphase : c.phase = .waiting again f leader)
    (hflight : m.flights[f]? = some ⟨.answered rpc answer, dups⟩) (hcurrent : m.current ≠ some f) :
    Inv m { c with phase := .respond c.shardID again (Beat.shared leader dups) rpc answer } := by
  have hfresh := hinv.fresh
  have hflights := hinv.flights
  rw [hphase] at hfresh hflights
  cases answer with
  | failed => exact ⟨hinv.since, (Nat.le_add_right _ _).trans hflights, trivial⟩
  | assigned assignments =>
    obtain ⟨hrpc, hanswered⟩ := Manager.answered_of_flight hflight
    cases hagain : !again && Beat.shared leader dups && !Beat.names c.shardID assignments with
    | true =>
      have hnext : Phase.respond c.shardID again (Beat.shared leader dups) rpc (.assigned assignments) =
          .calling true := if_pos hagain
      rw [Bool.and_assoc, Bool.and_eq_true, Bool.not_eq_true'] at hagain
      rw [hnext]
      rw [hagain.1] at hflights
      refine ⟨hinv.since, hflights, fun _ g hg => hfresh.2 g hg ?_⟩
      rintro rfl
      exact hcurrent hg
    | false =>
      have hnext : Phase.respond c.shardID again (Beat.shared leader dups) rpc (.assigned assignments) =
          .returned rpc assignments := if_neg (Bool.eq_false_iff.mp hagain)
      rw [hnext]
      refine ⟨hinv.since, (Nat.le_add_right _ _).trans hflights, hanswered, ?_⟩
      by_cases hled : again = true ∨ leader = true
      · exact .inl (hfresh.1 hled rpc hrpc)
      · rw [not_or, Bool.not_eq_true, Bool.not_eq_true] at hled
        rw [hled.1, hled.2] at hagain
        exact .inr (names_iff.mp (Bool.not_eq_eq_eq_not.mp hagain))

theorem Moves.inv (hmoves : c.Moves m label c' m') (hinv : c.Inv m) : c'.Inv m' := by
  have hevolves := hmoves.evolves
  cases hmoves with
  | enter again hphase => exact hinv.enter hphase hevolves
  | respond again f leader rpc answer dups hphase hflight hcurrent => exact hinv.respond hphase hflight hcurrent
  | lead => exact hinv.evolves hevolves

end Call

namespace System

variable {sys sys' : System}

def Inv (sys : System) : Prop := ∀ c ∈ sys.calls, c.Inv sys.manager

theorem Inv.step {label : Label} (hinv : sys.Inv) (hstep : step label sys = some sys') : sys'.Inv := by
  cases label with
  | call shardID =>
    cases hstep
    refine transition.forall_mem_concat hinv ?_
    exact ⟨le_rfl, le_rfl, fun hagain => nomatch hagain⟩
  | advance i label =>
    obtain ⟨c, hc, hstep⟩ := Option.bind_eq_some_iff.mp hstep
    obtain ⟨⟨c', m'⟩, hadvance, rfl⟩ := Option.map_eq_some_iff.mp hstep
    have hmoves := Call.moves_of_advance hadvance
    refine transition.forall_mem_set (fun other hother => (hinv other hother).evolves hmoves.evolves) ?_
    exact hmoves.inv (hinv c (List.mem_of_getElem? hc))

/-- In every interleaving of the callers, what a call of `Heartbeat` returns is
the response to an RPC sent after the call began, or names its shard. -/
theorem returns_fresh (hrun : transition.Reaches step initial sys) {c : Call} (hc : c ∈ sys.calls) :
    c.flights.length ≤ 2 ∧
      ∀ rpc assignments, c.phase = .returned rpc assignments →
        sys.manager.Answered rpc assignments ∧
          (c.since ≤ rpc ∨ c.shardID ≠ "" ∧ ∃ found ∈ assignments, c.shardID ∈ found) := by
  have hinv := hrun.invariant Inv (fun _ _ _ hinv _ hstep => hinv.step hstep) (fun _ h => nomatch h)
  have hcall := hinv c hc
  refine ⟨(Nat.le_add_right _ _).trans hcall.flights, fun rpc assignments hphase => ?_⟩
  have hfresh := hcall.fresh
  rw [hphase] at hfresh
  exact hfresh

/-- One caller leads a flight that a second one joins. The answer names the shard
of the second, and the first sends another RPC. -/
def joined : List Label :=
  [.call "a", .advance 0 .next, .advance 0 .send, .call "b", .advance 1 .next,
    .advance 0 (.answer (.assigned (some (Map.ofList [("b", ⟨.ready⟩)])))), .advance 0 .finish,
    .advance 0 .next, .advance 1 .next, .advance 0 .next, .advance 0 .send,
    .advance 0 (.answer (.assigned none)), .advance 0 .finish, .advance 0 .next]

theorem joined_fresh :
    ∃ (sys : System) (c : Call) (rpc : Nat) (assignments : Option (Map String ShardAssignment)),
      transition.Reaches step initial sys ∧ c ∈ sys.calls ∧ c.phase = .returned rpc assignments ∧
        rpc < c.since ∧ c.flights.length ≤ 2 ∧ sys.manager.Answered rpc assignments ∧
        (c.since ≤ rpc ∨ c.shardID ≠ "" ∧ ∃ found ∈ assignments, c.shardID ∈ found) := by
  have heval : (joined.foldlM (fun sys label => step label sys) initial).map
      (fun sys => sys.calls.map fun c => (c.since, c.phase)) =
        some [(0, .returned 1 none), (1, .returned 0 (some (Map.ofList [("b", ⟨.ready⟩)])))] := rfl
  obtain ⟨sys, hfold, hcalls⟩ := Option.map_eq_some_iff.mp heval
  have hrun := transition.reaches_of_foldlM hfold
  have hmem : (1, Phase.returned 0 (some (Map.ofList [("b", ⟨.ready⟩)]))) ∈
      sys.calls.map fun c => (c.since, c.phase) := by
    rw [hcalls]
    exact .tail _ (.head _)
  obtain ⟨c, hc, heq⟩ := List.mem_map.mp hmem
  obtain ⟨hsince, hphase⟩ := Prod.ext_iff.mp heq
  obtain ⟨hflights, hfresh⟩ := returns_fresh hrun hc
  refine ⟨sys, c, 0, _, hrun, hc, hphase, ?_, hflights, hfresh _ _ hphase⟩
  rw [show c.since = 1 from hsince]
  exact Nat.zero_lt_one

end System

end heartbeat
