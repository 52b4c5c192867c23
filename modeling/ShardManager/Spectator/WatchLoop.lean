import ShardManager.Abstract.Transition
import ShardManager.Spectator.View

open golang handler

namespace csync

/-- `ResettableSignal`. Channels are numbered in the order in which they are
made, and it is recorded which of them are closed. -/
structure ResettableSignal where
  channels : Nat
  closed : List Nat
  doneCh : Nat
  resetCh : Nat
  done : Bool

/-- What a call of `Wait` has read under the lock. -/
structure Wait where
  doneCh : Nat
  resetCh : Nat
  done : Bool

namespace ResettableSignal

def newResettableSignal : ResettableSignal := ⟨2, [], 0, 1, false⟩

/-- `Done`. -/
def complete (s : ResettableSignal) : ResettableSignal :=
  if s.done then s else { s with done := true, closed := s.doneCh :: s.closed }

def reset (s : ResettableSignal) : ResettableSignal where
  channels := s.channels + 2
  closed := if s.done then s.closed else s.resetCh :: s.closed
  doneCh := s.channels
  resetCh := s.channels + 1
  done := false

def wait (s : ResettableSignal) : Wait := ⟨s.doneCh, s.resetCh, s.done⟩

/-- Only the end of its own context can unblock the call. -/
def Blocks (s : ResettableSignal) (w : Wait) : Prop := w.done = false ∧ w.doneCh ∉ s.closed ∧ w.resetCh ∉ s.closed

instance (s : ResettableSignal) (w : Wait) : Decidable (s.Blocks w) :=
  inferInstanceAs (Decidable (w.done = false ∧ w.doneCh ∉ s.closed ∧ w.resetCh ∉ s.closed))

/-- A call that blocks has read the signal as it is now. -/
def Watches (s : ResettableSignal) (w : Wait) : Prop := s.Blocks w → w = s.wait

variable {s : ResettableSignal} {w : Wait}

theorem watches_wait : s.Watches s.wait := fun _ => rfl

/-- No call blocks on a signal that is done. -/
theorem Watches.not_blocks (hwatches : s.Watches w) (hdone : s.done = true) : ¬s.Blocks w := by
  intro hblocks
  have hfalse := hblocks.1
  rw [hwatches hblocks, wait, hdone] at hfalse
  cases hfalse

@[simp] theorem done_complete : s.complete.done = true := by
  unfold complete
  split
  · assumption
  · rfl

theorem Watches.complete (hwatches : s.Watches w) : s.complete.Watches w := by
  unfold ResettableSignal.complete
  split
  · exact hwatches
  · rintro ⟨hdone, hdoneCh, hresetCh⟩
    rw [List.mem_cons, not_or] at hdoneCh hresetCh
    rw [hwatches ⟨hdone, hdoneCh.2, hresetCh.2⟩] at hdoneCh
    exact absurd rfl hdoneCh.1

/-- A reset unblocks every call: the signal was done, or the call sees the
closed reset channel. -/
theorem Watches.reset (hwatches : s.Watches w) : s.reset.Watches w := by
  rintro ⟨hdone, hdoneCh, hresetCh⟩
  dsimp only [ResettableSignal.reset] at hdoneCh hresetCh
  cases hs : s.done with
  | true =>
    rw [hs, if_pos rfl] at hdoneCh hresetCh
    exact absurd ⟨hdone, hdoneCh, hresetCh⟩ (hwatches.not_blocks hs)
  | false =>
    rw [hs, if_neg Bool.false_ne_true, List.mem_cons, not_or] at hdoneCh hresetCh
    rw [hwatches ⟨hdone, hdoneCh.2, hresetCh.2⟩] at hresetCh
    exact absurd rfl hresetCh.1

end ResettableSignal

end csync

namespace spectatorclient

open csync

/-- Where `watchLoop` is: choosing its first state, or in `connectState`,
`enabledState` or `disabledState`. -/
inductive WatchState where
  | starting
  | connect
  | creatingStream
  | createFailed
  | retrying
  | enabled
  | receiving
  | recvFailed
  | handling (response : WatchNamespaceStateResponse)
  | notifying
  | disabled
  | resetting
  | sleeping
  | woken
  | ended

/-- Where `Stop` is. -/
inductive StopState where
  | idle
  | cancelled
  | signalled
  | returned
deriving DecidableEq, Repr

structure Spectator where
  firstStateSignal : ResettableSignal
  view : View
  /-- The context of the watch loop is cancelled. -/
  cancelled : Bool
  enabled : Bool
  watch : WatchState
  stop : StopState
  /-- The calls of `GetShardOwner`, as far as their `Wait`. -/
  waits : List Wait

namespace Spectator

inductive WatchLabel where
  | next
  | received (response : WatchNamespaceStateResponse)
  | failed
  | interrupted

inductive Label where
  | watch (label : WatchLabel)
  | stop
  | getShardOwner
  | setEnabled (enabled : Bool)

def initial (enabled : Bool) : Spectator :=
  ⟨.newResettableSignal, ⟨∅, ∅⟩, false, enabled, .starting, .idle, []⟩

/-- Continues with a state unless the context is cancelled. -/
def unlessCancelled (sys : Spectator) (watch : WatchState) : Spectator :=
  if sys.cancelled then { sys with watch := .ended } else { sys with watch }

/-- Continues with a state if the spectator is enabled. -/
def ifEnabled (sys : Spectator) (yes no : WatchState) : Spectator :=
  if sys.enabled then { sys with watch := yes } else { sys with watch := no }

/-- A step of `watchLoop`. `SleepWithContext` may also end with its timer when
the context is cancelled. -/
def advance (sys : Spectator) : WatchState → WatchLabel → Option Spectator
  | .starting, .next => some (sys.ifEnabled .connect .disabled)
  | .connect, .next => some (sys.ifEnabled .creatingStream .disabled)
  | .creatingStream, .next => some { sys with watch := .enabled }
  | .creatingStream, .failed => some { sys with watch := .createFailed }
  | .createFailed, .next => some (sys.unlessCancelled .retrying)
  | .retrying, .next => some { sys with watch := .connect }
  | .retrying, .interrupted => if sys.cancelled then some { sys with watch := .ended } else none
  | .enabled, .next => some (sys.ifEnabled .receiving .disabled)
  | .receiving, .received response => some { sys with watch := .handling response }
  | .receiving, .failed => some { sys with watch := .recvFailed }
  | .recvFailed, .next => some (sys.unlessCancelled .retrying)
  | .handling response, .next => some { sys with watch := .notifying, view := handleResponse response }
  | .notifying, .next =>
    some { sys with watch := .enabled, firstStateSignal := sys.firstStateSignal.complete }
  | .disabled, .next => some (sys.unlessCancelled .resetting)
  | .resetting, .next =>
    some { sys with watch := .sleeping, firstStateSignal := sys.firstStateSignal.reset }
  | .sleeping, .next => some { sys with watch := .woken }
  | .sleeping, .interrupted => if sys.cancelled then some { sys with watch := .ended } else none
  | .woken, .next => some (sys.ifEnabled .connect .sleeping)
  | _, _ => none

def step : Label → Spectator → Option Spectator
  | .watch label, sys => sys.advance sys.watch label
  | .stop, sys =>
    match sys.stop with
    | .idle => some { sys with stop := .cancelled, cancelled := true }
    | .cancelled => some { sys with stop := .signalled, firstStateSignal := sys.firstStateSignal.complete }
    | .signalled =>
      match sys.watch with
      | .ended => some { sys with stop := .returned }
      | _ => none
    | .returned => none
  | .getShardOwner, sys => some { sys with waits := sys.waits ++ [sys.firstStateSignal.wait] }
  | .setEnabled enabled, sys => some { sys with enabled }

/-- When `Stop` has returned, the signal is done and no call of `GetShardOwner`
blocks. -/
def Released (sys : Spectator) : Prop :=
  sys.stop = .returned →
    sys.firstStateSignal.done = true ∧ ∀ w ∈ sys.waits, ¬sys.firstStateSignal.Blocks w

/-- `Stop` does not complete the signal while the watch loop is about to reset
it. -/
def separated (sys : Spectator) : Label → Bool
  | .stop =>
    match sys.stop, sys.watch with
    | .cancelled, .resetting => false
    | _, _ => true
  | _ => true

/-- Everything that a step of the watch loop can do to the others. -/
structure Moves (sys sys' : Spectator) : Prop where
  stop : sys'.stop = sys.stop
  cancelled : sys'.cancelled = sys.cancelled
  waits : sys'.waits = sys.waits
  resets : sys'.watch = .resetting → sys.cancelled = false
  signal : sys'.firstStateSignal = sys.firstStateSignal ∨
    sys'.firstStateSignal = sys.firstStateSignal.complete ∨
    sys.watch = .resetting ∧ sys'.firstStateSignal = sys.firstStateSignal.reset

variable {sys sys' : Spectator} {label : Label}

theorem moves_of_watch {watch : WatchState} (hwatch : watch ≠ .resetting) : sys.Moves { sys with watch } :=
  ⟨rfl, rfl, rfl, fun h => absurd h hwatch, .inl rfl⟩

theorem moves_ifEnabled {yes no : WatchState} (hyes : yes ≠ .resetting) (hno : no ≠ .resetting) :
    sys.Moves (sys.ifEnabled yes no) := by
  unfold ifEnabled
  split
  · exact moves_of_watch hyes
  · exact moves_of_watch hno

theorem moves_unlessCancelled (watch : WatchState) : sys.Moves (sys.unlessCancelled watch) := by
  unfold unlessCancelled
  split
  · exact moves_of_watch nofun
  · rename_i hcancelled
    exact ⟨rfl, rfl, rfl, fun _ => Bool.eq_false_iff.mpr hcancelled, .inl rfl⟩

theorem moves_of_advance {watch : WatchState} {label : WatchLabel} (hwatch : sys.watch = watch)
    (h : sys.advance watch label = some sys') : sys.Moves sys' := by
  unfold advance at h
  split at h
  -- States that ask whether the spectator is enabled.
  case h_1 | h_2 | h_8 | h_18 =>
    cases h
    exact moves_ifEnabled nofun nofun
  -- States that look at the context.
  case h_5 | h_11 | h_14 =>
    cases h
    exact moves_unlessCancelled _
  case h_7 | h_17 =>
    split at h
    · cases h
      exact moves_of_watch nofun
    · cases h
  case h_3 | h_4 | h_6 | h_9 | h_10 | h_16 =>
    cases h
    exact moves_of_watch nofun
  case h_12 =>
    cases h
    exact ⟨rfl, rfl, rfl, nofun, .inl rfl⟩
  case h_13 =>
    cases h
    exact ⟨rfl, rfl, rfl, nofun, .inr (.inl rfl)⟩
  case h_15 =>
    cases h
    exact ⟨rfl, rfl, rfl, nofun, .inr (.inr ⟨hwatch, rfl⟩)⟩
  case h_19 => cases h

/-- What holds in every state that is reached without completing the signal in
front of a reset. -/
structure Inv (sys : Spectator) : Prop where
  waits : ∀ w ∈ sys.waits, sys.firstStateSignal.Watches w
  cancelled : sys.stop ≠ .idle → sys.cancelled = true
  done : sys.stop = .signalled ∨ sys.stop = .returned →
    sys.firstStateSignal.done = true ∧ sys.watch ≠ .resetting

theorem inv_initial (enabled : Bool) : (initial enabled).Inv where
  waits _ h := nomatch h
  cancelled h := absurd rfl h
  done h := by rcases h with h | h <;> cases h

theorem Moves.inv (hmoves : sys.Moves sys') (hinv : sys.Inv) : sys'.Inv where
  waits w hw := by
    have hwatches := hinv.waits w (hmoves.waits ▸ hw)
    rcases hmoves.signal with hsame | hcomplete | ⟨_, hreset⟩
    · exact hsame ▸ hwatches
    · exact hcomplete ▸ hwatches.complete
    · exact hreset ▸ hwatches.reset
  cancelled hstop := hmoves.cancelled.trans (hinv.cancelled (hmoves.stop ▸ hstop))
  done hstop := by
    rw [hmoves.stop] at hstop
    obtain ⟨hdone, hwatch⟩ := hinv.done hstop
    refine ⟨?_, fun hresetting => ?_⟩
    · rcases hmoves.signal with hsame | hcomplete | ⟨hresetting, _⟩
      · rwa [hsame]
      · rw [hcomplete, ResettableSignal.done_complete]
      · exact absurd hresetting hwatch
    · have hcancelled : sys.cancelled = true := hinv.cancelled (by rcases hstop with h | h <;> simp [h])
      exact absurd (hcancelled.symm.trans (hmoves.resets hresetting)) (Bool.noConfusion)

theorem inv_step (hinv : sys.Inv) (hseparated : sys.separated label = true)
    (hstep : step label sys = some sys') : sys'.Inv := by
  cases label with
  | watch label => exact (moves_of_advance rfl hstep).inv hinv
  | stop =>
    dsimp only [step] at hstep
    split at hstep
    case h_1 hidle =>
      cases hstep
      exact ⟨hinv.waits, fun _ => rfl, fun h => by rcases h with h | h <;> cases h⟩
    case h_2 hcancelled =>
      cases hstep
      refine ⟨fun w hw => (hinv.waits w hw).complete, fun _ => hinv.cancelled (by simp [hcancelled]),
        fun _ => ⟨ResettableSignal.done_complete, fun hresetting => ?_⟩⟩
      have hresetting' : sys.watch = .resetting := hresetting
      simp [separated, hcancelled, hresetting'] at hseparated
    case h_3 hsignalled =>
      split at hstep
      · cases hstep
        exact ⟨hinv.waits, fun _ => hinv.cancelled (by simp [hsignalled]), fun _ => hinv.done (.inl hsignalled)⟩
      · cases hstep
    case h_4 => cases hstep
  | getShardOwner =>
    cases hstep
    refine ⟨List.forall_mem_append.mpr ⟨hinv.waits, ?_⟩, hinv.cancelled, hinv.done⟩
    exact List.forall_mem_singleton.mpr ResettableSignal.watches_wait
  | setEnabled enabled =>
    cases hstep
    exact ⟨hinv.waits, hinv.cancelled, hinv.done⟩

/-- After `Stop` no call of `GetShardOwner` blocks, if `Stop` completes the
signal when the watch loop is not between its look at the context and the
reset. -/
theorem released_of_run {enabled : Bool}
    (hrun : transition.Run step (fun sys label => sys.separated label = true) (initial enabled) sys) :
    sys.Released := by
  intro hreturned
  have hinv := hrun.invariant Inv (fun _ _ _ hinv hmeets hstep => inv_step hinv hmeets hstep) (inv_initial enabled)
  have hdone := (hinv.done (.inr hreturned)).1
  exact ⟨hdone, fun w hw => (hinv.waits w hw).not_blocks hdone⟩

section Examples

/-- A disabled spectator is stopped after the reset, with one call before and
one after. -/
def stopsLater : List Label :=
  [.getShardOwner, .watch .next, .watch .next, .watch .next, .getShardOwner, .stop, .stop, .watch .interrupted, .stop,
    .getShardOwner]

theorem stopsLater_released : ∃ sys : Spectator,
    transition.Run step (fun sys label => sys.separated label = true) (initial false) sys ∧
    sys.stop = .returned ∧ sys.waits.length = 3 ∧ sys.Released := by
  have hrun : (stopsLater.foldlM (fun (sys : Spectator) label =>
      if sys.separated label then step label sys else none) (initial false)).map
      (fun sys => decide (sys.stop = .returned ∧ sys.waits.length = 3)) = some true := by
    decide +kernel
  obtain ⟨sys, hfold, hfacts⟩ := Option.map_eq_some_iff.mp hrun
  obtain ⟨hstop, hwaits⟩ := of_decide_eq_true hfacts
  have hreached : transition.Run step (fun sys label => sys.separated label = true) (initial false) sys :=
    transition.run_of_foldlM _ (fun _ _ h => h) hfold
  exact ⟨sys, hreached, hstop, hwaits, released_of_run hreached⟩

/-- `Stop` cancels the context and completes the signal between the look at the
context and the reset. -/
def stopsBetween : List Label :=
  [.watch .next, .watch .next, .stop, .stop, .watch .next, .watch .interrupted, .stop, .getShardOwner]

theorem stopsBetween_not_released : ∃ sys : Spectator, transition.Reaches step (initial false) sys ∧
    sys.stop = .returned ∧ sys.firstStateSignal.done = false ∧
    (∃ w ∈ sys.waits, sys.firstStateSignal.Blocks w) ∧ ¬sys.Released := by
  have hrun : (stopsBetween.foldlM (fun sys label => step label sys) (initial false)).map
      (fun sys => decide (sys.stop = .returned ∧ sys.firstStateSignal.done = false ∧
        ∃ w ∈ sys.waits, sys.firstStateSignal.Blocks w)) = some true := by
    decide +kernel
  obtain ⟨sys, hfold, hfacts⟩ := Option.map_eq_some_iff.mp hrun
  obtain ⟨hstop, hdone, w, hmem, hblocks⟩ := of_decide_eq_true hfacts
  exact ⟨sys, transition.reaches_of_foldlM hfold, hstop, hdone, ⟨w, hmem, hblocks⟩,
    fun hreleased => (hreleased hstop).2 w hmem hblocks⟩

end Examples

end Spectator

end spectatorclient
