import ShardManager.Abstract.Transition
import ShardManager.ExecutorStore.NamespaceWatch

open golang etcd etcdkeys store

namespace executorstore

open etcdtypes (Value Encoding)

variable {F : Type} [Encoding F] (pre ns : String)

/-- The event gives an executor another status. A rewrite of the same status is
none, and keys that cannot be parsed are skipped. -/
def isStatusChange (event : Event (Value F)) : Bool :=
  match parseExecutorKey pre ns event.key with
  | .error _ => false
  | .ok (_, keyType) =>
    if keyType ≠ .status then false
    else if event.prevKv.isSome ∧ eventValue event.prevKv = eventValue event.kv then false
    else true

def hasExecutorStatusChanged (events : List (Event (Value F))) : Bool :=
  events.any (isStatusChange pre ns)

end executorstore

namespace process

open etcdtypes (Value Encoding)

variable {F : Type}

/-- Where the goroutine of `SubscribeToExecutorStatusChanges` is. It closes its
channel when the watch ends. -/
inductive Watching where
  | notStarted
  | receiving
  /-- A response changed a status, and the old revision is still to be dropped. -/
  | changed (revision : Int)
  | sending (revision : Int)
  | closed
deriving DecidableEq, Repr

/-- Where `rebalanceTriggeringLoop` is. -/
inductive Triggering where
  | notStarted
  | selecting
  | forwarding (reason : String)
  | returned
deriving DecidableEq, Repr

/-- Where `runRebalancingLoop` is. -/
inductive Rebalancing where
  | initialRebalance
  | subscribing
  | selecting
  /-- A trigger has been taken and the cooldown is waited for. -/
  | sleeping (reason : String)
  | rebalancing
  | failed
  | returned
deriving DecidableEq, Repr

/-- The loops of a running processor with their two channels of one slot.
`due` is kept for reasoning only: a response that changed a status has been
received or sent on, or an attempt has failed, and no attempt started since. -/
structure Loops where
  cancelled : Bool
  watching : Watching
  revisionChan : Option Int
  triggering : Triggering
  triggerChan : Option String
  rebalancing : Rebalancing
  due : Bool
deriving DecidableEq, Repr

namespace Loops

def initial : Loops := ⟨false, .notStarted, none, .notStarted, none, .initialRebalance, false⟩

inductive Label (F : Type) where
  | initialRebalance (succeeded : Bool)
  | subscribe (succeeded : Bool)
  | watchResponse (revision : Int) (events : List (Event (Value F)))
  /-- The watch reports an error or its channel is closed. -/
  | watchEnds
  | dropOld
  | send
  | tick
  | update
  | forward
  | take
  | wake
  | rebalanced (succeeded : Bool)
  | retry
  | cancel
  | triggeringCancelled
  | rebalancingCancelled

/-- A send that is skipped if the slot is taken. -/
def trySend {α : Type} (slot : Option α) (a : α) : Option α :=
  match slot with
  | some pending => some pending
  | none => some a

variable [Encoding F] (pre ns : String)

def step : Label F → Loops → Option Loops
  | .initialRebalance _, s =>
    match s.rebalancing with
    | .initialRebalance => some { s with rebalancing := .subscribing }
    | _ => none
  | .subscribe succeeded, s =>
    match s.rebalancing with
    | .subscribing =>
      if succeeded then some { s with watching := .receiving, triggering := .selecting, rebalancing := .selecting }
      else some { s with rebalancing := .returned }
    | _ => none
  | .watchResponse revision events, s =>
    match s.watching with
    | .receiving =>
      if executorstore.hasExecutorStatusChanged pre ns events then
        some { s with watching := .changed revision, due := true }
      else some s
    | _ => none
  | .watchEnds, s =>
    match s.watching with
    | .receiving => some { s with watching := .closed }
    | _ => none
  | .dropOld, s =>
    match s.watching with
    | .changed revision => some { s with watching := .sending revision, revisionChan := none }
    | _ => none
  | .send, s =>
    match s.watching, s.revisionChan with
    | .sending revision, none => some { s with watching := .receiving, revisionChan := some revision, due := true }
    -- A send on a full channel blocks.
    | _, _ => none
  | .tick, s =>
    match s.triggering with
    | .selecting => some { s with triggering := .forwarding "Periodic reconciliation triggered" }
    | _ => none
  | .update, s =>
    match s.triggering, s.revisionChan with
    -- What is buffered is received also from a closed channel.
    | .selecting, some _ => some { s with revisionChan := none, triggering := .forwarding "State change detected" }
    | .selecting, none => if s.watching = .closed then some { s with triggering := .returned } else none
    | _, _ => none
  | .forward, s =>
    match s.triggering with
    | .forwarding reason => some { s with triggering := .selecting, triggerChan := trySend s.triggerChan reason }
    | _ => none
  | .take, s =>
    match s.rebalancing, s.triggerChan with
    | .selecting, some reason => some { s with rebalancing := .sleeping reason, triggerChan := none }
    | _, _ => none
  | .wake, s =>
    match s.rebalancing with
    | .sleeping _ => some { s with rebalancing := .rebalancing, due := false }
    | _ => none
  | .rebalanced succeeded, s =>
    match s.rebalancing with
    | .rebalancing =>
      if succeeded then some { s with rebalancing := .selecting }
      else some { s with rebalancing := .failed, due := true }
    | _ => none
  | .retry, s =>
    match s.rebalancing with
    | .failed => some { s with
        rebalancing := .selecting, triggerChan := trySend s.triggerChan "Previous rebalance failed" }
    | _ => none
  | .cancel, s => some { s with cancelled := true }
  | .triggeringCancelled, s =>
    if s.cancelled ∧ s.triggering = .selecting then some { s with triggering := .returned } else none
  | .rebalancingCancelled, s =>
    if s.cancelled ∧ s.rebalancing = .selecting then some { s with rebalancing := .returned } else none

variable {pre ns} {s s' : Loops} {label : Label F}

theorem trySend_isSome {α : Type} (slot : Option α) (a : α) : (trySend slot a).isSome = true := by
  cases slot <;> rfl

/-- Everything a step can do. The watch ends only in a step that says so. -/
inductive Moves (ends : Prop) : Loops → Loops → Prop where
  | started (s : Loops) : s.rebalancing = .initialRebalance → Moves ends s { s with rebalancing := .subscribing }
  | subscribed (s : Loops) : s.rebalancing = .subscribing →
      Moves ends s { s with watching := .receiving, triggering := .selecting, rebalancing := .selecting }
  | notSubscribed (s : Loops) : s.rebalancing = .subscribing → Moves ends s { s with rebalancing := .returned }
  | ignored (s : Loops) : Moves ends s s
  | changed (s : Loops) (revision : Int) : s.watching = .receiving →
      Moves ends s { s with watching := .changed revision, due := true }
  | closed (s : Loops) : ends → s.watching = .receiving → Moves ends s { s with watching := .closed }
  | dropped (s : Loops) (revision : Int) : s.watching = .changed revision →
      Moves ends s { s with watching := .sending revision, revisionChan := none }
  | sent (s : Loops) (revision : Int) : s.watching = .sending revision →
      Moves ends s { s with watching := .receiving, revisionChan := some revision, due := true }
  | ticked (s : Loops) (reason : String) : s.triggering = .selecting →
      Moves ends s { s with triggering := .forwarding reason }
  | received (s : Loops) (reason : String) : s.triggering = .selecting →
      Moves ends s { s with revisionChan := none, triggering := .forwarding reason }
  | ended (s : Loops) : s.triggering = .selecting → s.watching = .closed →
      Moves ends s { s with triggering := .returned }
  | forwarded (s : Loops) (reason : String) : s.triggering = .forwarding reason →
      Moves ends s { s with triggering := .selecting, triggerChan := trySend s.triggerChan reason }
  | taken (s : Loops) (reason : String) : s.rebalancing = .selecting →
      Moves ends s { s with rebalancing := .sleeping reason, triggerChan := none }
  | attempted (s : Loops) (reason : String) : s.rebalancing = .sleeping reason →
      Moves ends s { s with rebalancing := .rebalancing, due := false }
  | succeeded (s : Loops) : s.rebalancing = .rebalancing → Moves ends s { s with rebalancing := .selecting }
  | failed (s : Loops) : s.rebalancing = .rebalancing → Moves ends s { s with rebalancing := .failed, due := true }
  | retried (s : Loops) (reason : String) : s.rebalancing = .failed →
      Moves ends s { s with rebalancing := .selecting, triggerChan := trySend s.triggerChan reason }
  | cancelled (s : Loops) : Moves ends s { s with cancelled := true }
  | triggeringCancelled (s : Loops) : s.cancelled = true → s.triggering = .selecting →
      Moves ends s { s with triggering := .returned }
  | rebalancingCancelled (s : Loops) : s.cancelled = true → s.rebalancing = .selecting →
      Moves ends s { s with rebalancing := .returned }

theorem moves_of_step (h : step pre ns label s = some s') : Moves (label = .watchEnds) s s' := by
  cases label with
  | initialRebalance succeeded =>
    dsimp only [step] at h
    split at h <;> cases h
    exact .started s ‹_›
  | subscribe succeeded =>
    dsimp only [step] at h
    split at h
    · split at h <;> cases h
      · exact .subscribed s ‹_›
      · exact .notSubscribed s ‹_›
    · cases h
  | watchResponse revision events =>
    dsimp only [step] at h
    split at h
    · split at h <;> cases h
      · exact .changed s revision ‹_›
      · exact .ignored s
    · cases h
  | watchEnds =>
    dsimp only [step] at h
    split at h <;> cases h
    exact .closed s rfl ‹_›
  | dropOld =>
    dsimp only [step] at h
    split at h <;> cases h
    exact .dropped s _ ‹_›
  | send =>
    dsimp only [step] at h
    split at h <;> cases h
    exact .sent s _ ‹_›
  | tick =>
    dsimp only [step] at h
    split at h <;> cases h
    exact .ticked s _ ‹_›
  | update =>
    dsimp only [step] at h
    split at h
    · cases h
      exact .received s _ ‹_›
    · split at h <;> cases h
      exact .ended s ‹_› ‹_›
    · cases h
  | forward =>
    dsimp only [step] at h
    split at h <;> cases h
    exact .forwarded s _ ‹_›
  | take =>
    dsimp only [step] at h
    split at h <;> cases h
    exact .taken s _ ‹_›
  | wake =>
    dsimp only [step] at h
    split at h <;> cases h
    exact .attempted s _ ‹_›
  | rebalanced succeeded =>
    dsimp only [step] at h
    split at h
    · split at h <;> cases h
      · exact .succeeded s ‹_›
      · exact .failed s ‹_›
    · cases h
  | retry =>
    dsimp only [step] at h
    split at h <;> cases h
    exact .retried s _ ‹_›
  | cancel =>
    cases h
    exact .cancelled s
  | triggeringCancelled =>
    dsimp only [step] at h
    split at h <;> cases h
    rename_i hcancelled
    exact .triggeringCancelled s hcancelled.1 hcancelled.2
  | rebalancingCancelled =>
    dsimp only [step] at h
    split at h <;> cases h
    rename_i hcancelled
    exact .rebalancingCancelled s hcancelled.1 hcancelled.2

/-- Before the subscription neither of the other loops has been started. -/
def Fresh (s : Loops) : Prop :=
  s.rebalancing = .initialRebalance ∨ s.rebalancing = .subscribing →
    s.watching = .notStarted ∧ s.triggering = .notStarted

theorem Fresh.moves {ends : Prop} (h : Fresh s) (hmoves : Moves ends s s') : Fresh s' := by
  unfold Fresh at h ⊢
  cases hmoves <;> simp_all

/-- A trigger is on its way: it lies in a channel, or a loop has taken one and
not yet passed it on. -/
def Pending (s : Loops) : Prop :=
  s.revisionChan.isSome = true ∨ s.triggerChan.isSome = true ∨
    (∃ revision, s.watching = .changed revision ∨ s.watching = .sending revision) ∨
    (∃ reason, s.triggering = .forwarding reason) ∨
    (∃ reason, s.rebalancing = .sleeping reason) ∨ s.rebalancing = .failed

/-- What is due is pending, and the slot is free when a revision is sent. -/
structure Covered (s : Loops) : Prop where
  fresh : s.Fresh
  pending : s.due = true → s.Pending
  free : ∀ revision, s.watching = .sending revision → s.revisionChan = none

theorem covered_initial : Covered initial := ⟨by simp [Fresh, initial], by simp [initial], by simp [initial]⟩

/-- Only the start of an attempt takes a trigger away, and nothing is due then. -/
theorem Covered.moves {ends : Prop} (h : Covered s) (hmoves : Moves ends s s') : Covered s' := by
  have hfresh := h.fresh.moves hmoves
  have hpending := h.pending
  have hfree := h.free
  unfold Pending at hpending
  cases hmoves with
  | started hat => exact ⟨hfresh, fun hdue => by simpa [Pending, hat] using hpending hdue, hfree⟩
  | subscribed hat =>
    obtain ⟨hwatching, htriggering⟩ := h.fresh (.inr hat)
    refine ⟨hfresh, fun hdue => ?_, by simp⟩
    have hchan := hpending hdue
    simp only [hwatching, htriggering, hat, reduceCtorEq, or_self, exists_false, or_false] at hchan
    exact hchan.imp_right .inl
  | notSubscribed hat => exact ⟨hfresh, fun hdue => by simpa [Pending, hat] using hpending hdue, hfree⟩
  | ignored => exact h
  | changed revision hat => exact ⟨hfresh, fun _ => by simp [Pending], by simp⟩
  | closed hends hat => exact ⟨hfresh, fun hdue => by simpa [Pending, hat] using hpending hdue, by simp⟩
  | dropped revision hat => exact ⟨hfresh, fun _ => by simp [Pending], fun _ _ => rfl⟩
  | sent revision hat => exact ⟨hfresh, fun _ => by simp [Pending], by simp⟩
  | ticked reason hat => exact ⟨hfresh, fun _ => by simp [Pending], hfree⟩
  | received reason hat => exact ⟨hfresh, fun _ => by simp [Pending], fun _ _ => rfl⟩
  | ended hat hclosed => exact ⟨hfresh, fun hdue => by simpa [Pending, hat] using hpending hdue, hfree⟩
  | forwarded reason hat => exact ⟨hfresh, fun _ => by simp [Pending, trySend_isSome], hfree⟩
  | taken reason hat => exact ⟨hfresh, fun _ => by simp [Pending], hfree⟩
  | attempted reason hat => exact ⟨hfresh, by simp, hfree⟩
  | succeeded hat => exact ⟨hfresh, fun hdue => by simpa [Pending, hat] using hpending hdue, hfree⟩
  | failed hat => exact ⟨hfresh, fun _ => by simp [Pending], hfree⟩
  | retried reason hat => exact ⟨hfresh, fun _ => by simp [Pending, trySend_isSome], hfree⟩
  | cancelled => exact ⟨hfresh, hpending, hfree⟩
  | triggeringCancelled hcancelled hat =>
    exact ⟨hfresh, fun hdue => by simpa [Pending, hat] using hpending hdue, hfree⟩
  | rebalancingCancelled hcancelled hat =>
    exact ⟨hfresh, fun hdue => by simpa [Pending, hat] using hpending hdue, hfree⟩

/-- No trigger is lost. In every interleaving of the loops, while a rebalance is
due there is a trigger in one of the channels or in the hands of a loop, and
the watch never has to wait to send a revision. -/
theorem no_trigger_lost (hrun : transition.Reaches (step (F := F) pre ns) initial s) :
    (s.due = true → s.Pending) ∧
      ∀ revision, s.watching = .sending revision → ∃ s', step (F := F) pre ns .send s = some s' := by
  have hcovered : Covered s :=
    hrun.invariant Covered (fun _ _ _ h _ hstep => h.moves (moves_of_step hstep)) covered_initial
  refine ⟨hcovered.pending, fun revision hsending => ?_⟩
  have hfree := hcovered.free revision hsending
  exact ⟨{ s with watching := .receiving, revisionChan := some revision, due := true }, by
    simp [step, hsending, hfree]⟩

section Example

/-- A status changes while a rebalance is under way. -/
def changedMeanwhile : List (Label ExactFloat) :=
  [.initialRebalance true, .subscribe true, .tick, .forward, .take, .wake,
    .watchResponse 7 [⟨"/cadence/orders/executors/e/status", some ⟨.status .active, 7⟩, none⟩], .dropOld]

/-- The trigger for it is pending although the attempt began before. -/
theorem changedMeanwhile_pending : ∃ s, transition.Reaches (step (F := ExactFloat) "/cadence" "orders") initial s ∧
    s.due = true ∧ s.rebalancing = .rebalancing ∧ s.Pending := by
  have heval : (changedMeanwhile.foldlM (fun s label => step "/cadence" "orders" label s) initial).map
      (fun s => decide (s.due = true ∧ s.rebalancing = .rebalancing)) = some true := by decide +kernel
  obtain ⟨s, hfold, hs⟩ := Option.map_eq_some_iff.mp heval
  have hrun := transition.reaches_of_foldlM hfold
  obtain ⟨hdue, hrebalancing⟩ := of_decide_eq_true hs
  exact ⟨s, hrun, hdue, hrebalancing, (no_trigger_lost hrun).1 hdue⟩

end Example

section Liveness

/-- The context is alive and the rebalancing loop has been set up. -/
def SetUp (s : Loops) : Prop :=
  s.cancelled = false ∧ s.rebalancing ≠ .initialRebalance ∧ s.rebalancing ≠ .subscribing ∧ s.rebalancing ≠ .returned

/-- The triggering loop finishes what it is at and acts on the next tick. -/
def onTick (F : Type) [Encoding F] (pre ns : String) (s : Loops) : Option Loops :=
  let labels : List (Label F) :=
    match s.triggering with
    | .forwarding _ => [.forward, .tick, .forward]
    | _ => [.tick, .forward]
  labels.foldlM (fun s label => step pre ns label s) s

/-- The triggering loop can act on a tick, and the tick leaves a trigger. -/
def CanTrigger (F : Type) [Encoding F] (pre ns : String) (s : Loops) : Prop :=
  ∃ s', onTick F pre ns s = some s' ∧ s'.triggerChan.isSome = true

/-- The loops that belong to a live context. -/
structure Alive (s : Loops) : Prop where
  watching : s.watching = .closed → s.cancelled = true
  triggering : s.triggering = .returned → s.cancelled = true
  started : s.triggering = .notStarted →
    s.rebalancing = .initialRebalance ∨ s.rebalancing = .subscribing ∨ s.rebalancing = .returned

theorem Alive.moves {ends : Prop} (h : Alive s) (hends : ends → s.cancelled = true) (hmoves : Moves ends s s') :
    Alive s' := by
  obtain ⟨hwatching, htriggering, hstarted⟩ := h
  cases hmoves with
  | closed hended hat => exact ⟨fun _ => hends hended, htriggering, hstarted⟩
  | ended hat hclosed => exact ⟨hwatching, fun _ => hwatching hclosed, by simp⟩
  | triggeringCancelled hcancelled hat => exact ⟨hwatching, fun _ => hcancelled, by simp⟩
  | rebalancingCancelled hcancelled hat => exact ⟨hwatching, htriggering, by simp⟩
  | cancelled => exact ⟨fun _ => rfl, fun _ => rfl, hstarted⟩
  | _ => constructor <;> simp_all

theorem canTrigger_of_selecting (h : s.triggering = .selecting ∨ ∃ reason, s.triggering = .forwarding reason) :
    CanTrigger F pre ns s := by
  rcases h with hat | ⟨reason, hat⟩
  · exact ⟨{ s with triggerChan := trySend s.triggerChan "Periodic reconciliation triggered" }, by
      simp [onTick, step, hat], trySend_isSome _ _⟩
  · exact ⟨{ s with
      triggering := .selecting
      triggerChan := trySend (trySend s.triggerChan reason) "Periodic reconciliation triggered" }, by
      simp [onTick, step, hat], trySend_isSome _ _⟩

/-- As long as the watch of the subscription does not end before the context,
the processor keeps its source of triggers. -/
theorem can_trigger_while_watching (hrun : transition.Run (step (F := F) pre ns)
    (fun s label => label = .watchEnds → s.cancelled = true) initial s) (hup : s.SetUp) : CanTrigger F pre ns s := by
  have halive : Alive s := by
    refine hrun.invariant Alive (fun _ _ _ h hmeets hstep => h.moves hmeets (moves_of_step hstep)) ?_
    constructor <;> simp [initial]
  obtain ⟨hcancelled, hinitial, hsubscribing, hreturned⟩ := hup
  apply canTrigger_of_selecting
  cases hat : s.triggering with
  | selecting => exact .inl rfl
  | forwarding reason => exact .inr ⟨reason, rfl⟩
  | notStarted =>
    rcases halive.started hat with hat | hat | hat
    · exact absurd hat hinitial
    · exact absurd hat hsubscribing
    · exact absurd hat hreturned
  | returned =>
    rw [halive.triggering hat] at hcancelled
    cases hcancelled

section Example

/-- The watch does not end before the context. -/
def outlives (s : Loops) : Label F → Bool
  | .watchEnds => s.cancelled
  | _ => true

/-- A processor that has rebalanced on a tick. -/
def rebalancedOnTick : List (Label ExactFloat) :=
  [.initialRebalance true, .subscribe true, .tick, .forward, .take, .wake, .rebalanced true]

theorem rebalancedOnTick_can_trigger : ∃ s, transition.Run (step (F := ExactFloat) "/cadence" "orders")
    (fun s label => label = .watchEnds → s.cancelled = true) initial s ∧
      s.SetUp ∧ CanTrigger ExactFloat "/cadence" "orders" s := by
  have heval : (rebalancedOnTick.foldlM
      (fun s label => if outlives s label then step "/cadence" "orders" label s else none) initial).map
        (fun s => decide (s.cancelled = false ∧ s.rebalancing = .selecting)) = some true := by decide +kernel
  obtain ⟨s, hfold, hs⟩ := Option.map_eq_some_iff.mp heval
  obtain ⟨hcancelled, hselecting⟩ := of_decide_eq_true hs
  have hrun : transition.Run (step (F := ExactFloat) "/cadence" "orders")
      (fun s label => label = .watchEnds → s.cancelled = true) initial s := by
    refine transition.run_of_foldlM _ (fun s label hcheck heq => ?_) hfold
    subst heq
    exact hcheck
  have hup : s.SetUp := ⟨hcancelled, by simp [hselecting], by simp [hselecting], by simp [hselecting]⟩
  exact ⟨s, hrun, hup, can_trigger_while_watching hrun hup⟩

/-- The watch ends although the context lives on. -/
def watchLost : List (Label ExactFloat) := [.initialRebalance true, .subscribe true, .watchEnds, .update]

/-- No loop but the rebalancing loop is left, and it waits for a trigger. -/
structure Stuck (s : Loops) : Prop where
  watching : s.watching = .closed
  triggering : s.triggering = .returned
  revisionChan : s.revisionChan = none
  triggerChan : s.triggerChan = none
  rebalancing : s.rebalancing = .selecting ∨ s.rebalancing = .returned

theorem Stuck.step (h : Stuck s) (hstep : step pre ns label s = some s') : Stuck s' := by
  obtain ⟨hwatching, htriggering, hrevisionChan, htriggerChan, hrebalancing⟩ := h
  cases label with
  | cancel =>
    cases hstep
    exact ⟨hwatching, htriggering, hrevisionChan, htriggerChan, hrebalancing⟩
  | rebalancingCancelled =>
    dsimp only [Loops.step] at hstep
    split at hstep <;> cases hstep
    exact ⟨hwatching, htriggering, hrevisionChan, htriggerChan, .inr rfl⟩
  | _ =>
    rcases hrebalancing with hrebalancing | hrebalancing <;>
      simp [Loops.step, hwatching, htriggering, htriggerChan, hrebalancing] at hstep

/-- After the watch has ended no tick and no status change starts a rebalance
any more, although the context is alive and the processor is still running. -/
theorem watchLost_never_triggers : ∃ s, transition.Reaches (step (F := ExactFloat) "/cadence" "orders") initial s ∧
    s.SetUp ∧ ∀ later, transition.Reaches (step (F := ExactFloat) "/cadence" "orders") s later →
      later.triggering = .returned ∧ later.triggerChan = none ∧ ¬CanTrigger ExactFloat "/cadence" "orders" later := by
  have heval : watchLost.foldlM (fun s label => step "/cadence" "orders" label s) initial =
      some ⟨false, .closed, none, .returned, none, .selecting, false⟩ := by decide +kernel
  refine ⟨_, transition.reaches_of_foldlM heval, ⟨rfl, by simp, by simp, by simp⟩, fun later hlater => ?_⟩
  have hstuck : Stuck later :=
    hlater.invariant Stuck (fun _ _ _ h _ hstep => h.step hstep) ⟨rfl, rfl, rfl, rfl, .inl rfl⟩
  refine ⟨hstuck.triggering, hstuck.triggerChan, ?_⟩
  rintro ⟨s', hs', -⟩
  simp [onTick, hstuck.triggering, step] at hs'

end Example

end Liveness

end Loops

end process
