import ShardManager.ExecutorClient.Heartbeats

open golang types

namespace executorclient

/-- No `Start` has failed. -/
def Registry.NoneFailed (r : Registry) : Prop :=
  ∀ (p : Nat) (processor : Processor), r.processors[p]? = some processor → processor.startFailed = false

theorem Registry.NoneFailed.setState {r : Registry} (hnone : r.NoneFailed) (p : Nat) (state : ProcessorState) :
    (r.setState p state).NoneFailed := by
  intro q processor hprocessor
  obtain ⟨before, hbefore, ⟨_, rfl⟩ | ⟨_, rfl⟩⟩ := exists_of_modify hprocessor
  · exact hnone q before hbefore
  · exact hnone q processor hbefore

theorem Registry.NoneFailed.setStart {r : Registry} (hnone : r.NoneFailed) (p : Nat) {start : StartCall}
    (hstart : ∀ processor : Processor, { processor with start }.startFailed = false) :
    (r.setStart p start).NoneFailed := by
  intro q processor hprocessor
  obtain ⟨before, hbefore, ⟨_, rfl⟩ | ⟨_, rfl⟩⟩ := exists_of_modify hprocessor
  · exact hstart before
  · exact hnone q processor hbefore

namespace Work

variable {w w' : Work} {r r' : Registry} {label : WorkLabel}

/-- An update under way serves its assignments: a ready shard has a processor
or is still to be added, and no ready shard is being stopped. -/
structure Serves (w : Work) (r : Registry) : Prop where
  added : ∀ shardID, ready w.assignments shardID = true →
    shardID ∈ w.toAdd ∨ w.phase = .creating shardID ∨ shardID ∈ r.managed
  spared : ∀ shardID p, w.target = some (shardID, p) → ready w.assignments shardID = false

theorem mem_of_ready {assignments : Map String ShardAssignment} {shardID : String}
    (h : ready assignments shardID = true) : shardID ∈ assignments := by
  unfold ready at h
  split at h
  · rename_i assignment hlookup
    exact Map.mem_iff_exists_lookup.mpr ⟨assignment, hlookup⟩
  · cases h

theorem serves_updateShardAssignment (order : RangeOrder) (assignments : Map String ShardAssignment)
    (r : Registry) : (updateShardAssignment order assignments r).Serves r where
  added _ hready := .inl (List.mem_filter.mpr ⟨RangeOrder.mem_rangeKeys.mpr (mem_of_ready hready), hready⟩)
  spared _ _ htarget := nomatch htarget

theorem Moves.assignments (hmoves : w.Moves r label w' r') : w'.assignments = w.assignments := by
  cases hmoves <;> rfl

/-- A processor is removed only for a shard that is not ready. -/
theorem Moves.registered (hmoves : w.Moves r label w' r') (hserves : w.Serves r) {shardID : String}
    (hmem : shardID ∈ r.managed) (hready : ready w.assignments shardID = true) : shardID ∈ r'.managed := by
  cases hmoves with
  | stop shardID' p hphase =>
    have hne : shardID ≠ shardID' := by
      rintro rfl
      have hfalse := hserves.spared shardID p (by rw [target, hphase])
      exact Bool.false_ne_true (hfalse.symm.trans hready)
    exact AList.mem_erase.mpr ⟨hne, hmem⟩
  | create shardID' => exact (AList.mem_insert _).mpr (.inr hmem)
  | _ => exact hmem

theorem Moves.spared (hmoves : w.Moves r label w' r') (hserves : w.Serves r) {shardID : String} {p : Nat}
    (htarget : w'.target = some (shardID, p)) : ready w.assignments shardID = false := by
  cases hmoves with
  | skip => exact hserves.spared shardID p htarget
  | present => exact hserves.spared shardID p htarget
  | load _ _ _ _ _ hready =>
    cases htarget
    exact hready
  | check _ _ hphase =>
    cases htarget
    exact hserves.spared shardID p (by rw [target, hphase])
  | mark _ _ hphase =>
    cases htarget
    exact hserves.spared shardID p (by rw [target, hphase])
  | _ => cases htarget

theorem Moves.added (hmoves : w.Moves r label w' r') (hlabel : label ≠ .factoryFails) {shardID : String}
    (hadding : shardID ∈ w.toAdd ∨ w.phase = .creating shardID) :
    shardID ∈ w'.toAdd ∨ w'.phase = .creating shardID ∨ shardID ∈ r'.managed := by
  rcases hadding with htoAdd | hcreating
  · cases hmoves with
    | present shardID' p rest _ heq hlookup =>
      rw [heq] at htoAdd
      rcases List.mem_cons.mp htoAdd with rfl | hrest
      · exact .inr (.inr (Map.mem_iff_exists_lookup.mpr ⟨p, hlookup⟩))
      · exact .inl hrest
    | absent shardID' rest _ heq =>
      rw [heq] at htoAdd
      rcases List.mem_cons.mp htoAdd with rfl | hrest
      · exact .inr (.inl rfl)
      · exact .inl hrest
    | _ => exact .inl htoAdd
  · cases hmoves with
    | create shardID' hphase =>
      cases hphase.symm.trans hcreating
      exact .inr (.inr ((AList.mem_insert _).mpr (.inl rfl)))
    | factoryFails => exact absurd rfl hlabel
    | skip _ _ _ hphase => cases hphase.symm.trans hcreating
    | load _ _ _ _ hphase => cases hphase.symm.trans hcreating
    | rangeDone hphase => cases hphase.symm.trans hcreating
    | spare _ _ hphase => cases hphase.symm.trans hcreating
    | check _ _ hphase => cases hphase.symm.trans hcreating
    | mark _ _ hphase => cases hphase.symm.trans hcreating
    | stop _ _ hphase => cases hphase.symm.trans hcreating
    | present _ _ _ hphase => cases hphase.symm.trans hcreating
    | absent _ _ hphase => cases hphase.symm.trans hcreating

theorem Moves.serves (hmoves : w.Moves r label w' r') (hlabel : label ≠ .factoryFails) (hserves : w.Serves r) :
    w'.Serves r' where
  added shardID hready := by
    rw [hmoves.assignments] at hready
    rcases hserves.added shardID hready with htoAdd | hcreating | hmem
    · exact hmoves.added hlabel (.inl htoAdd)
    · exact hmoves.added hlabel (.inr hcreating)
    · exact .inr (.inr (hmoves.registered hserves hmem hready))
  spared _ _ htarget := by
    rw [hmoves.assignments]
    exact hmoves.spared hserves htarget

theorem Serves.congr (hserves : w.Serves r) (hmanaged : r'.managed = r.managed) : w.Serves r' where
  added shardID hready := hmanaged ▸ hserves.added shardID hready
  spared := hserves.spared

theorem Serves.mem_of_finished (hserves : w.Serves r) (hfinished : w.finished = true) {shardID : String}
    (hready : ready w.assignments shardID = true) : shardID ∈ r.managed := by
  rw [finished, Bool.and_eq_true, beq_iff_eq, List.isEmpty_iff] at hfinished
  rcases hserves.added shardID hready with htoAdd | hcreating | hmem
  · rw [hfinished.2] at htoAdd
    cases htoAdd
  · cases hfinished.1.symm.trans hcreating
  · exact hmem

theorem Moves.noneFailed (hmoves : w.Moves r label w' r') (hnone : r.NoneFailed) : r'.NoneFailed := by
  cases hmoves with
  | mark shardID p => exact hnone.setState p .stopping
  | create shardID =>
    intro q processor hprocessor
    rcases Registry.processor_of_create hprocessor with hbefore | ⟨rfl, rfl⟩
    · exact hnone q processor hbefore
    · rfl
  | _ => exact hnone

end Work

/-- A goroutine of `Start` or `Stop` changes no entry while no `Start` fails. -/
theorem Registry.Acts.healthy {r r' : Registry} {label : Async} (hacts : r.Acts label r')
    (hlabel : ∀ p, label ≠ .startReturns p false) (hnone : r.NoneFailed) :
    r'.managed = r.managed ∧ r'.NoneFailed := by
  cases hacts with
  | invokeStart p => exact ⟨rfl, hnone.setStart p fun _ => rfl⟩
  | startReturns p ok =>
    cases ok with
    | false => exact absurd rfl (hlabel p)
    | true => exact ⟨rfl, hnone.setStart p fun _ => rfl⟩
  | startSucceeded p => exact ⟨rfl, (hnone.setState p .started).setStart p fun _ => rfl⟩
  | startFailed p processor hprocessor hstart =>
    have hfalse := hnone p processor hprocessor
    rw [Processor.startFailed, hstart] at hfalse
    cases hfalse
  | stopReturns => exact ⟨rfl, hnone⟩

/-- The RPC that a flight has sent. -/
def FlightPhase.rpc : FlightPhase → Option Nat
  | .entered => none
  | .sent rpc | .answered rpc _ => some rpc

def FlightPhase.isAnswered : FlightPhase → Bool
  | .answered _ _ => true
  | _ => false

/-- Among assignments that may be nil the shard is ready. -/
def readyIn (assignments : Option (Map String ShardAssignment)) (shardID : String) : Bool :=
  assignments.any fun assignments => ready assignments shardID

namespace Executor

def phaseOf (e : Executor) (f : Nat) : Option FlightPhase := e.flights[f]?.map (·.phase)

/-- The RPC that the flight at a position has sent. -/
def rpcOf (e : Executor) (f : Nat) : Option Nat := (e.phaseOf f).bind (·.rpc)

/-- The RPC returned these assignments. -/
def Answered (e : Executor) (rpc : Nat) (assignments : Option (Map String ShardAssignment)) : Prop :=
  ∃ f, e.phaseOf f = some (.answered rpc (.assigned assignments))

/-- RPCs are sent by one flight after the other. -/
structure Sequential (e : Executor) : Prop where
  lt : ∀ f rpc, e.rpcOf f = some rpc → rpc < e.activeSent
  inj : ∀ f f' rpc, e.rpcOf f = some rpc → e.rpcOf f' = some rpc → f = f'
  pending : ∀ f phase, e.phaseOf f = some phase → phase.isAnswered = false → e.current = some f
  last : ∀ f rpc, e.current = some f → e.rpcOf f = some rpc → rpc + 1 = e.activeSent

theorem rpcOf_eq {e : Executor} {f : Nat} {phase : FlightPhase} (h : e.phaseOf f = some phase) :
    e.rpcOf f = phase.rpc := by
  rw [rpcOf, h, Option.bind_some]

/-- An RPC has one response. -/
theorem Answered.unique {e : Executor} (hsequential : e.Sequential) {rpc : Nat}
    {assignments assignments' : Option (Map String ShardAssignment)} (h : e.Answered rpc assignments)
    (h' : e.Answered rpc assignments') : assignments = assignments' := by
  obtain ⟨f, hphase⟩ := h
  obtain ⟨f', hphase'⟩ := h'
  obtain rfl := hsequential.inj f f' rpc (rpcOf_eq hphase) (rpcOf_eq hphase')
  cases hphase.symm.trans hphase'
  rfl

/-- What the other goroutines can rely on when one takes a step. -/
structure Evolves (mover : Owner) (e e' : Executor) : Prop where
  sent : e.activeSent ≤ e'.activeSent
  rpc : ∀ f rpc, e'.rpcOf f = some rpc → e.rpcOf f = some rpc ∨ e.activeSent ≤ rpc
  answered : ∀ rpc assignments, e.Answered rpc assignments → e'.Answered rpc assignments
  current : ∀ f, e'.current = some f → e.current = some f ∨ e'.rpcOf f = none
  update : ∀ u' ∈ e'.update, u'.owner = mover ∨
    ∃ u ∈ e.update, u'.owner = u.owner ∧ u'.rpc = u.rpc ∧ u'.work.assignments = u.work.assignments
  registered : ∀ shardID ∈ e.registry.managed,
    shardID ∈ e'.registry.managed ∨ ∃ u ∈ e.update, ready u.work.assignments shardID = false
  applied : e'.applied = e.applied ∨ ∃ rpc assignments, e'.applied = some rpc ∧
    e.Answered rpc (some assignments) ∧ ∀ before ∈ e.applied, before ≤ rpc

/-- What holds of the shared state as long as nothing fails. -/
structure Sound (e : Executor) : Prop where
  sequential : e.Sequential
  applied : ∀ u ∈ e.update, e.applied = some u.rpc
  answered : ∀ u ∈ e.update, e.Answered u.rpc (some u.work.assignments)
  serves : ∀ u ∈ e.update, u.work.Serves e.registry
  noneFailed : e.registry.NoneFailed
  enabled : e.enabled = true

section

variable {e e' : Executor}

theorem phaseOf_join (f g : Nat) :
    phaseOf { e with flights := e.flights.modify f fun flight => { flight with dups := flight.dups + 1 } } g =
      e.phaseOf g := by
  simp only [phaseOf, List.getElem?_modify]
  cases e.flights[g]? with
  | none => rfl
  | some flight => by_cases h : f = g <;> simp [h]

theorem phaseOf_lead (current : Option Nat) (g : Nat) :
    phaseOf { e with flights := e.flights ++ [⟨.entered, 0⟩], current } g =
      if g = e.flights.length then some .entered else e.phaseOf g := by
  simp only [phaseOf]
  by_cases h : g = e.flights.length
  · simp [h]
  · rw [if_neg h, List.getElem?_append]
    split
    · rfl
    · rename_i hge
      rw [List.getElem?_eq_none (by simp; omega), List.getElem?_eq_none (by omega)]

theorem phaseOf_set {f : Nat} {flight flight' : Flight} (hflight : e.flights[f]? = some flight) (sent g : Nat) :
    phaseOf { e with flights := e.flights.set f flight', activeSent := sent } g =
      if g = f then some flight'.phase else e.phaseOf g := by
  simp only [phaseOf]
  have hlt := (List.getElem?_eq_some_iff.mp hflight).1
  by_cases h : g = f
  · simp [h, hlt]
  · rw [if_neg h, List.getElem?_set_ne (Ne.symm h)]

theorem rpcOf_congr (h : ∀ f, e'.phaseOf f = e.phaseOf f) (f : Nat) : e'.rpcOf f = e.rpcOf f := by
  rw [rpcOf, rpcOf, h]

/-- A step that leaves the phases of the flights alone. -/
theorem Sequential.congr (hsequential : e.Sequential) (hphase : ∀ f, e'.phaseOf f = e.phaseOf f)
    (hcurrent : e'.current = e.current) (hsent : e'.activeSent = e.activeSent) : e'.Sequential where
  lt f rpc h := hsent ▸ hsequential.lt f rpc (rpcOf_congr hphase f ▸ h)
  inj f f' rpc h h' := hsequential.inj f f' rpc (rpcOf_congr hphase f ▸ h) (rpcOf_congr hphase f' ▸ h')
  pending f phase h hanswered := hcurrent ▸ hsequential.pending f phase (hphase f ▸ h) hanswered
  last f rpc hf h := hsent ▸ hsequential.last f rpc (hcurrent ▸ hf) (rpcOf_congr hphase f ▸ h)

theorem rpcOf_lead (current : Option Nat) (g : Nat) :
    rpcOf { e with flights := e.flights ++ [⟨.entered, 0⟩], current } g = e.rpcOf g := by
  rw [rpcOf, phaseOf_lead]
  split
  · rename_i hg
    rw [rpcOf, phaseOf, hg, List.getElem?_eq_none le_rfl]
    rfl
  · rfl

theorem Sequential.lead (hsequential : e.Sequential) (hcurrent : e.current = none) :
    Sequential { e with flights := e.flights ++ [⟨.entered, 0⟩], current := some e.flights.length } where
  lt f rpc h := hsequential.lt f rpc (rpcOf_lead _ f ▸ h)
  inj f f' rpc h h' := hsequential.inj f f' rpc (rpcOf_lead _ f ▸ h) (rpcOf_lead _ f' ▸ h')
  pending f phase h hanswered := by
    rw [phaseOf_lead] at h
    split at h
    · rename_i hf
      rw [hf]
    · cases hcurrent.symm.trans (hsequential.pending f phase h hanswered)
  last f rpc hf h := by
    cases hf
    rw [rpcOf, phaseOf_lead, if_pos rfl] at h
    cases h

theorem rpcOf_send {f dups : Nat} (hflight : e.flights[f]? = some ⟨.entered, dups⟩) (g : Nat) :
    rpcOf { e with flights := e.flights.set f ⟨.sent e.activeSent, dups⟩, activeSent := e.activeSent + 1 } g =
      if g = f then some e.activeSent else e.rpcOf g := by
  rw [rpcOf, phaseOf_set hflight]
  split <;> rfl

theorem Sequential.send (hsequential : e.Sequential) {f dups : Nat}
    (hflight : e.flights[f]? = some ⟨.entered, dups⟩) :
    Sequential { e with flights := e.flights.set f ⟨.sent e.activeSent, dups⟩, activeSent := e.activeSent + 1 } := by
  have hphase : e.phaseOf f = some .entered := by rw [phaseOf, hflight, Option.map_some]
  have hcurrent := hsequential.pending f .entered hphase rfl
  refine ⟨fun g rpc h => ?_, fun g g' rpc h h' => ?_, fun g phase h hanswered => ?_, fun g rpc hg h => ?_⟩
  · rw [rpcOf_send hflight] at h
    split at h
    · cases h
      exact Nat.lt_succ_self _
    · exact Nat.lt_succ_of_lt (hsequential.lt g rpc h)
  · rw [rpcOf_send hflight] at h h'
    split at h <;> split at h'
    · rename_i hg hg'
      rw [hg, hg']
    · cases h
      exact absurd (hsequential.lt g' _ h') (lt_irrefl _)
    · cases h'
      exact absurd (hsequential.lt g _ h) (lt_irrefl _)
    · exact hsequential.inj g g' rpc h h'
  · rw [phaseOf_set hflight] at h
    split at h
    · rename_i hg
      rw [hg]
      exact hcurrent
    · exact hsequential.pending g phase h hanswered
  · rw [rpcOf_send hflight, if_pos (Option.some.inj (hg.symm.trans hcurrent))] at h
    cases h
    rfl

theorem rpcOf_answer {f rpc dups : Nat} {answer : Answer} (hflight : e.flights[f]? = some ⟨.sent rpc, dups⟩)
    (g : Nat) : rpcOf { e with flights := e.flights.set f ⟨.answered rpc answer, dups⟩ } g = e.rpcOf g := by
  rw [rpcOf, phaseOf_set hflight]
  split
  · rename_i hg
    rw [rpcOf, phaseOf, hg, hflight]
    rfl
  · rfl

theorem Sequential.answer (hsequential : e.Sequential) {f rpc dups : Nat} {answer : Answer}
    (hflight : e.flights[f]? = some ⟨.sent rpc, dups⟩) :
    Sequential { e with flights := e.flights.set f ⟨.answered rpc answer, dups⟩ } where
  lt g rpc' h := hsequential.lt g rpc' (rpcOf_answer hflight g ▸ h)
  inj g g' rpc' h h' := hsequential.inj g g' rpc' (rpcOf_answer hflight g ▸ h) (rpcOf_answer hflight g' ▸ h')
  pending g phase h hanswered := by
    rw [phaseOf_set hflight] at h
    split at h
    · cases h
      cases hanswered
    · exact hsequential.pending g phase h hanswered
  last g rpc' hg h := hsequential.last g rpc' hg (rpcOf_answer hflight g ▸ h)

theorem Sequential.finish (hsequential : e.Sequential) {f : Nat} {phase : FlightPhase}
    (hphase : e.phaseOf f = some phase) (hanswered : phase.isAnswered = true) (hcurrent : e.current = some f) :
    Sequential { e with current := none } where
  lt := hsequential.lt
  inj := hsequential.inj
  pending g phase' h hpending := by
    cases hcurrent.symm.trans (hsequential.pending g phase' h hpending)
    cases hphase.symm.trans h
    exact absurd (hanswered.symm.trans hpending) (Bool.noConfusion)
  last _ _ h := nomatch h

theorem answered_lead {rpc : Nat} {assignments : Option (Map String ShardAssignment)} (current : Option Nat)
    (h : e.Answered rpc assignments) :
    Answered { e with flights := e.flights ++ [⟨.entered, 0⟩], current } rpc assignments := by
  obtain ⟨f, hphase⟩ := h
  refine ⟨f, ?_⟩
  rw [phaseOf_lead, if_neg, hphase]
  rintro rfl
  rw [phaseOf, List.getElem?_eq_none le_rfl] at hphase
  cases hphase

theorem answered_set {f sent : Nat} {flight flight' : Flight} {rpc : Nat}
    {assignments : Option (Map String ShardAssignment)} (hflight : e.flights[f]? = some flight)
    (hpending : flight.phase.isAnswered = false) (h : e.Answered rpc assignments) :
    Answered { e with flights := e.flights.set f flight', activeSent := sent } rpc assignments := by
  obtain ⟨g, hphase⟩ := h
  refine ⟨g, ?_⟩
  rw [phaseOf_set hflight, if_neg, hphase]
  rintro rfl
  rw [phaseOf, hflight, Option.map_some, Option.some.injEq] at hphase
  rw [hphase] at hpending
  cases hpending

end

end Executor

namespace Beat

variable {order : RangeOrder} {owner : Owner} {shardID : String} {e e' : Executor} {beat beat' : Beat}
  {label : BeatLabel}

/-- A response that waits for the mutex is that of its RPC. -/
def Backed (e : Executor) : Beat → Prop
  | .locking rpc assignments => e.Answered rpc (some assignments)
  | _ => True

/-- The step applies no response of an older RPC than the last that was applied. -/
def inOrder (e : Executor) : Beat → Bool
  | .locking rpc _ => e.applied.all fun before => decide (before ≤ rpc)
  | _ => true

section Moves

variable (hmoves : Moves order owner shardID e beat label beat' e')

include hmoves

theorem Moves.answered {rpc : Nat}
    {assignments : Option (Map String ShardAssignment)} (h : e.Answered rpc assignments) :
    e'.Answered rpc assignments := by
  cases hmoves with
  | join again f =>
    obtain ⟨g, hphase⟩ := h
    exact ⟨g, (Executor.phaseOf_join f g).trans hphase⟩
  | lead => exact Executor.answered_lead _ h
  | send again f dups hflight => exact Executor.answered_set hflight rfl h
  | answer again f rpc dups answer hflight => exact Executor.answered_set hflight rfl h
  | _ => exact h

theorem Moves.sequential (h : e.Sequential) : e'.Sequential := by
  cases hmoves with
  | join again f => exact h.congr (Executor.phaseOf_join f) rfl rfl
  | lead again hcurrent => exact h.lead hcurrent
  | send again f dups hflight => exact h.send hflight
  | answer again f rpc dups answer hflight => exact h.answer hflight
  | finish again f rpc answer dups hflight hcurrent =>
    have hphase : e.phaseOf f = some (.answered rpc answer) := by rw [Executor.phaseOf, hflight, Option.map_some]
    exact h.finish hphase rfl hcurrent
  | _ => exact h.congr (fun _ => rfl) rfl rfl

theorem Moves.rpc {f rpc : Nat} (h : e'.rpcOf f = some rpc) :
    e.rpcOf f = some rpc ∨ e.activeSent ≤ rpc := by
  cases hmoves with
  | join again g => exact .inl (Executor.rpcOf_congr (Executor.phaseOf_join g) f ▸ h)
  | lead => exact .inl (Executor.rpcOf_lead _ f ▸ h)
  | send again g dups hflight =>
    rw [Executor.rpcOf_send hflight] at h
    split at h
    · cases h
      exact .inr le_rfl
    · exact .inl h
  | answer again g rpc dups answer hflight => exact .inl (Executor.rpcOf_answer hflight f ▸ h)
  | _ => exact .inl h

theorem Moves.current {f : Nat} (h : e'.current = some f) :
    e.current = some f ∨ e'.rpcOf f = none := by
  cases hmoves with
  | lead =>
    cases h
    refine .inr ?_
    rw [Executor.rpcOf, Executor.phaseOf_lead, if_pos rfl]
    rfl
  | finish => cases h
  | _ => exact .inl h

theorem Moves.sent_le : e.activeSent ≤ e'.activeSent := by
  cases hmoves with
  | send => exact Nat.le_succ _
  | _ => exact le_rfl

theorem Moves.evolves (hsound : e.Sound) (hbacked : beat.Backed e)
    (hinOrder : label = .next → beat.inOrder e = true) : e.Evolves owner e' where
  sent := hmoves.sent_le
  rpc _ _ h := hmoves.rpc h
  answered _ _ h := hmoves.answered h
  current _ h := hmoves.current h
  update u' hu' := by
    cases hmoves with
    | lock =>
      cases hu'
      exact .inl rfl
    | work u label work registry hupdate howner hmoves =>
      cases hu'
      exact .inl howner
    | unlock => cases hu'
    | _ => exact .inr ⟨u', hu', rfl, rfl, rfl⟩
  registered shardID' hmem := by
    cases hmoves with
    | work u label work registry hupdate howner hmoves =>
      cases hready : ready u.work.assignments shardID' with
      | true => exact .inl (hmoves.registered (hsound.serves u hupdate) hmem hready)
      | false => exact .inr ⟨u, hupdate, hready⟩
    | _ => exact .inl hmem
  applied := by
    cases hmoves with
    | lock rpc assignments =>
      refine .inr ⟨rpc, assignments, rfl, hbacked, fun before hbefore => ?_⟩
      have hle := hinOrder rfl
      rw [inOrder, hbefore, Option.all_some] at hle
      exact of_decide_eq_true hle
    | _ => exact .inl rfl

theorem Moves.sound (hsound : e.Sound) (hbacked : beat.Backed e) (hlabel : label ≠ .work .factoryFails) : e'.Sound where
  sequential := hmoves.sequential hsound.sequential
  applied u hu := by
    cases hmoves with
    | lock =>
      cases hu
      rfl
    | work u' _ _ _ hupdate =>
      cases hu
      exact hsound.applied u' hupdate
    | unlock => cases hu
    | _ => exact hsound.applied u hu
  answered u hu := by
    refine hmoves.answered ?_
    cases hmoves with
    | lock =>
      cases hu
      exact hbacked
    | work u' label work registry hupdate _ hwork =>
      cases hu
      exact hwork.assignments ▸ hsound.answered u' hupdate
    | unlock => cases hu
    | _ => exact hsound.answered u hu
  serves u hu := by
    cases hmoves with
    | lock rpc assignments =>
      cases hu
      exact Work.serves_updateShardAssignment order assignments e.registry
    | work u' label work registry hupdate _ hwork =>
      cases hu
      exact hwork.serves (fun h => hlabel (h ▸ rfl)) (hsound.serves u' hupdate)
    | unlock => cases hu
    | _ => exact hsound.serves u hu
  noneFailed := by
    cases hmoves with
    | work _ _ _ _ _ _ hwork => exact hwork.noneFailed hsound.noneFailed
    | _ => exact hsound.noneFailed
  enabled := by
    cases hmoves <;> exact hsound.enabled

end Moves

theorem Backed.evolves (hbacked : beat.Backed e) (hevolves : e.Evolves owner e') : beat.Backed e' := by
  cases beat with
  | locking rpc assignments => exact hevolves.answered rpc _ hbacked
  | _ => trivial

theorem respond_backed {again shared : Bool} {f rpc dups : Nat} {answer : Answer}
    (hflight : e.flights[f]? = some ⟨.answered rpc answer, dups⟩) :
    (respond shardID again shared rpc answer).Backed e := by
  cases answer with
  | failed => trivial
  | assigned assignments =>
    dsimp only [respond]
    split
    · trivial
    · cases assignments with
      | none => trivial
      | some assignments => exact ⟨f, by rw [Executor.phaseOf, hflight, Option.map_some]⟩

theorem Moves.backed (hmoves : Moves order owner shardID e beat label beat' e') : beat'.Backed e' := by
  cases hmoves with
  | respond again f leader rpc answer dups hflight => exact respond_backed hflight
  | _ => trivial

end Beat

/-- A step that leaves the entries of the processors alone. -/
theorem Executor.evolves_of_managed (mover : Owner) (e : Executor) {registry : Registry} (enabled : Bool)
    (hmanaged : registry.managed = e.registry.managed) : e.Evolves mover { e with registry, enabled } where
  sent := le_rfl
  rpc _ _ h := .inl h
  answered _ _ h := h
  current _ h := .inl h
  update u hu := .inr ⟨u, hu, rfl, rfl, rfl⟩
  registered _ hmem := .inl (hmanaged ▸ hmem)
  applied := .inl rfl

end executorclient
