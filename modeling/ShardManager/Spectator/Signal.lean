import ShardManager.Spectator.WatchLoop

namespace csync

/-- The calls that change a signal. -/
inductive Call where
  | done
  | reset
deriving DecidableEq, Repr

/-- What `Wait` returns: nil, `ErrReset` or the error of its context. -/
inductive WaitResult where
  | ok
  | errReset
  | ctxErr
deriving DecidableEq, Repr

/-- The call was made in an epoch: after as many resets as the epochs before. -/
def CalledIn (calls : List Call) (call : Call) (epoch : Nat) : Prop :=
  ∃ earlier, earlier ++ [call] <+: calls ∧ earlier.count .reset = epoch

/-- The epoch was ended by a `Reset`, before `Done` was called in it. -/
def Abandoned (calls : List Call) (epoch : Nat) : Prop :=
  ∃ earlier, earlier ++ [.reset] <+: calls ∧ earlier.count .reset = epoch ∧ ¬CalledIn earlier .done epoch

/-- A call of `Wait`: what it has read under the lock and in which epoch, and
what it has returned. -/
structure WaitCall where
  read : Wait
  epoch : Nat
  result : Option WaitResult

/-- A result that a call of `Wait` may return. Its `select` takes any branch
that is ready, and its context may be done at any time. -/
def ResettableSignal.mayReturn (s : ResettableSignal) (w : Wait) : WaitResult → Bool
  | .ok => w.done || decide (w.doneCh ∈ s.closed)
  | .errReset => !w.done && decide (w.resetCh ∈ s.closed)
  | .ctxErr => !w.done

/-- A signal with the goroutines that use it. The calls made so far are kept in
order. -/
structure Waiters where
  signal : ResettableSignal
  calls : List Call
  waits : List WaitCall

namespace Waiters

inductive Label where
  | call (call : Call)
  | wait
  | return (i : Nat) (result : WaitResult)

def initial : Waiters := ⟨.newResettableSignal, [], []⟩

/-- How often the signal has been reset. -/
def epoch (sys : Waiters) : Nat := sys.calls.count .reset

def step : Label → Waiters → Option Waiters
  | .call .done, sys => some { sys with signal := sys.signal.complete, calls := sys.calls ++ [.done] }
  | .call .reset, sys => some { sys with signal := sys.signal.reset, calls := sys.calls ++ [.reset] }
  | .wait, sys => some { sys with waits := sys.waits ++ [⟨sys.signal.wait, sys.epoch, none⟩] }
  | .return i result, sys => sys.waits[i]?.bind fun w =>
    if w.result = none ∧ sys.signal.mayReturn w.read result = true then
      some { sys with waits := sys.waits.set i { w with result := some result } }
    else none

/-- The channels agree with the calls that were made. -/
structure Coherent (sys : Waiters) : Prop where
  closedOnce : sys.signal.closed.Nodup
  done_iff : sys.signal.done = true ↔ sys.signal.doneCh ∈ sys.signal.closed
  resetCh_open : sys.signal.resetCh ∉ sys.signal.closed
  ok : ∀ w ∈ sys.waits, w.result = some .ok → CalledIn sys.calls .done w.epoch
  errReset : ∀ w ∈ sys.waits, w.result = some .errReset → Abandoned sys.calls w.epoch
  woken : ∀ w ∈ sys.waits, CalledIn sys.calls .done w.epoch ∨ CalledIn sys.calls .reset w.epoch →
    w.read.doneCh ∈ sys.signal.closed ∨ w.read.resetCh ∈ sys.signal.closed

end Waiters

section Epochs

variable {calls : List Call} {call last : Call} {epoch : Nat}

theorem not_calledIn_nil : ¬CalledIn [] call epoch := by
  rintro ⟨earlier, hpre, -⟩
  exact List.append_ne_nil_of_right_ne_nil _ (List.cons_ne_nil _ _) (List.prefix_nil.mp hpre)

theorem not_abandoned_nil : ¬Abandoned [] epoch := by
  rintro ⟨earlier, hpre, hepoch, -⟩
  exact not_calledIn_nil ⟨earlier, hpre, hepoch⟩

theorem calledIn_concat : CalledIn (calls ++ [last]) call epoch ↔
    CalledIn calls call epoch ∨ call = last ∧ calls.count .reset = epoch := by
  constructor
  · rintro ⟨earlier, hpre, hepoch⟩
    rcases List.prefix_concat_iff.mp hpre with heq | hpre
    · obtain ⟨rfl, rfl⟩ := List.append_singleton_inj.mp heq
      exact .inr ⟨rfl, hepoch⟩
    · exact .inl ⟨earlier, hpre, hepoch⟩
  · rintro (⟨earlier, hpre, hepoch⟩ | ⟨rfl, hepoch⟩)
    · exact ⟨earlier, hpre.trans (List.prefix_append _ _), hepoch⟩
    · exact ⟨calls, List.prefix_rfl, hepoch⟩

theorem abandoned_concat : Abandoned (calls ++ [last]) epoch ↔
    Abandoned calls epoch ∨ last = .reset ∧ calls.count .reset = epoch ∧ ¬CalledIn calls .done epoch := by
  constructor
  · rintro ⟨earlier, hpre, hepoch, hnot⟩
    rcases List.prefix_concat_iff.mp hpre with heq | hpre
    · obtain ⟨rfl, hlast⟩ := List.append_singleton_inj.mp heq
      exact .inr ⟨hlast.symm, hepoch, hnot⟩
    · exact .inl ⟨earlier, hpre, hepoch, hnot⟩
  · rintro (⟨earlier, hpre, hepoch, hnot⟩ | ⟨rfl, hepoch, hnot⟩)
    · exact ⟨earlier, hpre.trans (List.prefix_append _ _), hepoch, hnot⟩
    · exact ⟨calls, List.prefix_rfl, hepoch, hnot⟩

/-- No call belongs to an epoch that has not begun. -/
theorem CalledIn.le (h : CalledIn calls call epoch) : epoch ≤ calls.count .reset := by
  obtain ⟨earlier, hpre, rfl⟩ := h
  exact ((List.prefix_append _ _).trans hpre).sublist.count_le _

/-- An epoch that was abandoned is over. -/
theorem Abandoned.lt (h : Abandoned calls epoch) : epoch < calls.count .reset := by
  obtain ⟨earlier, hpre, rfl, -⟩ := h
  have hle := hpre.sublist.count_le (.reset : Call)
  rw [List.count_append, List.count_singleton_self] at hle
  omega

/-- An epoch that was ended has seen `Done`, or was abandoned. -/
theorem CalledIn.done_or_abandoned (h : CalledIn calls .reset epoch) :
    CalledIn calls .done epoch ∨ Abandoned calls epoch := by
  obtain ⟨earlier, hpre, hepoch⟩ := h
  by_cases hdone : CalledIn earlier .done epoch
  · obtain ⟨before, hbefore, hcount⟩ := hdone
    exact .inl ⟨before, hbefore.trans ((List.prefix_append _ _).trans hpre), hcount⟩
  · exact .inr ⟨earlier, hpre, hepoch, hdone⟩

end Epochs

namespace Waiters

variable {sys sys' : Waiters}

/-- What the call has read are the channels of its epoch, and the flag was set
by a `Done` in it. -/
structure ReadIn (calls : List Call) (w : WaitCall) : Prop where
  doneCh : w.read.doneCh = 2 * w.epoch
  resetCh : w.read.resetCh = 2 * w.epoch + 1
  done : w.read.done = true → CalledIn calls .done w.epoch
  ok : w.result = some .ok → CalledIn calls .done w.epoch
  errReset : w.result = some .errReset → Abandoned calls w.epoch

/-- Each epoch has two channels of its own, of which the first is closed by
`Done` and the second by a `Reset` without it. -/
structure Inv (sys : Waiters) : Prop where
  channels : sys.signal.channels = 2 * sys.epoch + 2
  current : sys.signal.doneCh = 2 * sys.epoch ∧ sys.signal.resetCh = 2 * sys.epoch + 1
  done : sys.signal.done = true ↔ CalledIn sys.calls .done sys.epoch
  doneCh : ∀ epoch, 2 * epoch ∈ sys.signal.closed ↔ CalledIn sys.calls .done epoch
  resetCh : ∀ epoch, 2 * epoch + 1 ∈ sys.signal.closed ↔ Abandoned sys.calls epoch
  closedOnce : sys.signal.closed.Nodup
  waits : ∀ w ∈ sys.waits, ReadIn sys.calls w

theorem ReadIn.concat {calls : List Call} {w : WaitCall} (h : ReadIn calls w) (call : Call) :
    ReadIn (calls ++ [call]) w where
  doneCh := h.doneCh
  resetCh := h.resetCh
  done hdone := calledIn_concat.mpr (.inl (h.done hdone))
  ok hok := calledIn_concat.mpr (.inl (h.ok hok))
  errReset hreset := abandoned_concat.mpr (.inl (h.errReset hreset))

theorem inv_initial : initial.Inv where
  channels := rfl
  current := ⟨rfl, rfl⟩
  done := iff_of_false Bool.false_ne_true not_calledIn_nil
  doneCh _ := iff_of_false List.not_mem_nil not_calledIn_nil
  resetCh _ := iff_of_false List.not_mem_nil not_abandoned_nil
  closedOnce := List.nodup_nil
  waits _ h := nomatch h

theorem epoch_done (sys : Waiters) :
    epoch { sys with signal := sys.signal.complete, calls := sys.calls ++ [.done] } = sys.epoch := by
  simp [epoch]

theorem epoch_reset (sys : Waiters) :
    epoch { sys with signal := sys.signal.reset, calls := sys.calls ++ [.reset] } = sys.epoch + 1 := by
  simp [epoch]

/-- `Done` closes the channel of the epoch, if it is the first in it. -/
theorem Inv.complete (hinv : sys.Inv) :
    Inv { sys with signal := sys.signal.complete, calls := sys.calls ++ [.done] } := by
  have hepoch := sys.epoch_done
  have hdone : ∀ epoch, CalledIn (sys.calls ++ [.done]) .done epoch ↔
      CalledIn sys.calls .done epoch ∨ epoch = sys.epoch := by
    intro epoch
    rw [calledIn_concat, and_iff_right rfl, ← Waiters.epoch]
    exact or_congr_right eq_comm
  have habandoned : ∀ epoch, Abandoned (sys.calls ++ [.done]) epoch ↔ Abandoned sys.calls epoch := by
    intro epoch
    rw [abandoned_concat]
    exact or_iff_left nofun
  have hwaits : ∀ w ∈ sys.waits, ReadIn (sys.calls ++ [.done]) w := fun w hw => (hinv.waits w hw).concat .done
  cases hflag : sys.signal.done with
  | true =>
    have hsame : sys.signal.complete = sys.signal := by rw [ResettableSignal.complete, if_pos hflag]
    have hcalled := hinv.done.mp hflag
    rw [hsame] at hepoch ⊢
    refine ⟨hepoch ▸ hinv.channels, hepoch ▸ hinv.current, ?_, fun epoch => ?_, fun epoch => ?_,
      hinv.closedOnce, hwaits⟩
    · exact iff_of_true hflag ((hdone _).mpr (.inr hepoch))
    · rw [hinv.doneCh, hdone]
      exact (or_iff_left_of_imp fun heq => heq ▸ hcalled).symm
    · rw [hinv.resetCh, habandoned]
  | false =>
    have hclosed : sys.signal.complete = { sys.signal with
        done := true, closed := sys.signal.doneCh :: sys.signal.closed } := by
      rw [ResettableSignal.complete, if_neg (Bool.eq_false_iff.mp hflag)]
    have hnot : ¬CalledIn sys.calls .done sys.epoch := fun h => Bool.false_ne_true (hflag.symm.trans (hinv.done.mpr h))
    rw [hclosed] at hepoch ⊢
    refine ⟨hepoch ▸ hinv.channels, hepoch ▸ hinv.current, ?_, fun epoch => ?_, fun epoch => ?_, ?_, hwaits⟩
    · exact iff_of_true rfl ((hdone _).mpr (.inr hepoch))
    · rw [List.mem_cons, hinv.current.1, hinv.doneCh, hdone, or_comm]
      exact or_congr_right ⟨by omega, by omega⟩
    · rw [List.mem_cons, hinv.current.1, hinv.resetCh, habandoned]
      exact or_iff_right (by omega)
    · rw [List.nodup_cons, hinv.current.1, hinv.doneCh]
      exact ⟨hnot, hinv.closedOnce⟩

/-- `Reset` closes the other channel, unless `Done` was called, and begins the
next epoch. -/
theorem Inv.reset (hinv : sys.Inv) :
    Inv { sys with signal := sys.signal.reset, calls := sys.calls ++ [.reset] } := by
  have hepoch := sys.epoch_reset
  have hdone : ∀ epoch, CalledIn (sys.calls ++ [.reset]) .done epoch ↔ CalledIn sys.calls .done epoch := by
    intro epoch
    rw [calledIn_concat]
    exact or_iff_left nofun
  have habandoned : ∀ epoch, Abandoned (sys.calls ++ [.reset]) epoch ↔
      Abandoned sys.calls epoch ∨ epoch = sys.epoch ∧ sys.signal.done = false := by
    intro epoch
    rw [abandoned_concat, and_iff_right rfl, ← Waiters.epoch]
    refine or_congr_right ⟨?_, ?_⟩
    · rintro ⟨rfl, hnot⟩
      exact ⟨rfl, Bool.eq_false_iff.mpr fun hflag => hnot (hinv.done.mp hflag)⟩
    · rintro ⟨rfl, hflag⟩
      exact ⟨rfl, fun hcalled => Bool.false_ne_true (hflag.symm.trans (hinv.done.mpr hcalled))⟩
  have hnext : ¬CalledIn (sys.calls ++ [.reset]) .done (sys.epoch + 1) := by
    rw [hdone]
    exact fun hcalled => absurd hcalled.le (Nat.not_succ_le_self _)
  have hclosed : ∀ ch, ch ∈ sys.signal.reset.closed ↔
      ch ∈ sys.signal.closed ∨ ch = 2 * sys.epoch + 1 ∧ sys.signal.done = false := by
    intro ch
    rw [ResettableSignal.reset]
    cases hflag : sys.signal.done with
    | true => simp
    | false => simp [hinv.current.2, or_comm]
  refine ⟨?_, ?_, ?_, fun epoch => ?_, fun epoch => ?_, ?_, fun w hw => (hinv.waits w hw).concat .reset⟩
  · rw [hepoch]
    change sys.signal.channels + 2 = _
    rw [hinv.channels]
    omega
  · rw [hepoch]
    change sys.signal.channels = _ ∧ sys.signal.channels + 1 = _
    rw [hinv.channels]
    omega
  · rw [hepoch]
    exact iff_of_false Bool.false_ne_true hnext
  · rw [hclosed, hdone, hinv.doneCh]
    exact or_iff_left (by omega)
  · rw [hclosed, habandoned, hinv.resetCh]
    exact or_congr_right (and_congr_left' (by omega))
  · rw [ResettableSignal.reset]
    cases hflag : sys.signal.done with
    | true => exact hinv.closedOnce
    | false =>
      refine List.nodup_cons.mpr ⟨?_, hinv.closedOnce⟩
      rw [hinv.current.2, hinv.resetCh]
      exact fun habandoned => absurd habandoned.lt (Nat.lt_irrefl _)

/-- What a call returns is what has happened in its epoch. -/
theorem Inv.returns (hinv : sys.Inv) {w : WaitCall} (hw : ReadIn sys.calls w) {result : WaitResult}
    (hmay : sys.signal.mayReturn w.read result = true) : ReadIn sys.calls { w with result := some result } where
  doneCh := hw.doneCh
  resetCh := hw.resetCh
  done := hw.done
  ok hok := by
    cases hok
    rw [ResettableSignal.mayReturn, Bool.or_eq_true, decide_eq_true_iff, hw.doneCh, hinv.doneCh] at hmay
    exact hmay.elim hw.done id
  errReset hreset := by
    cases hreset
    rw [ResettableSignal.mayReturn, Bool.and_eq_true, decide_eq_true_iff, hw.resetCh, hinv.resetCh] at hmay
    exact hmay.2

theorem Inv.step {label : Label} (hinv : sys.Inv) (hstep : step label sys = some sys') : sys'.Inv := by
  cases label with
  | call call =>
    cases call with
    | done =>
      cases hstep
      exact hinv.complete
    | reset =>
      cases hstep
      exact hinv.reset
  | wait =>
    cases hstep
    refine { hinv with waits := transition.forall_mem_concat hinv.waits ?_ }
    exact ⟨hinv.current.1, hinv.current.2, hinv.done.mp, nofun, nofun⟩
  | «return» i result =>
    obtain ⟨w, hw, hstep⟩ := Option.bind_eq_some_iff.mp hstep
    split at hstep
    case isTrue hmay =>
      cases hstep
      refine { hinv with waits := transition.forall_mem_set hinv.waits ?_ }
      exact hinv.returns (hinv.waits w (List.mem_of_getElem? hw)) hmay.2
    case isFalse => cases hstep

/-- In every interleaving the channels agree with the calls that were made, and
so does every return of `Wait`. -/
theorem coherent_of_run (hrun : transition.Reaches step initial sys) : sys.Coherent := by
  have hinv := hrun.invariant Inv (fun _ _ _ hinv _ hstep => hinv.step hstep) inv_initial
  refine ⟨hinv.closedOnce, ?_, ?_, fun w hw => (hinv.waits w hw).ok, fun w hw => (hinv.waits w hw).errReset,
    fun w hw hcalled => ?_⟩
  · rw [hinv.done, hinv.current.1, hinv.doneCh]
  · rw [hinv.current.2, hinv.resetCh]
    exact fun habandoned => absurd habandoned.lt (Nat.lt_irrefl _)
  · have hread := hinv.waits w hw
    rw [hread.doneCh, hread.resetCh, hinv.doneCh, hinv.resetCh]
    exact hcalled.elim .inl CalledIn.done_or_abandoned

/-- A call returns when its epoch is abandoned, and the next one when the event
has happened. -/
def resetThenDone : List Label :=
  [.wait, .call .reset, .return 0 .errReset, .wait, .call .done, .return 1 .ok]

theorem resetThenDone_coherent :
    ∃ sys, transition.Reaches step initial sys ∧
      sys.waits.map WaitCall.result = [some .errReset, some .ok] ∧ sys.Coherent := by
  have heval : (resetThenDone.foldlM (fun sys label => step label sys) initial).map
      (fun sys => sys.waits.map WaitCall.result) = some [some .errReset, some .ok] := rfl
  obtain ⟨sys, hfold, hresults⟩ := Option.map_eq_some_iff.mp heval
  have hrun := transition.reaches_of_foldlM hfold
  exact ⟨sys, hrun, hresults, coherent_of_run hrun⟩

end Waiters

end csync
