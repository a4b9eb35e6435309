import RgspCast.Lib.Transition
import RgspCast.Lib.Waiters

/-!
# `wait_until_resolved`

`submit_pin` waits for the pending state to resolve, or for a deadline. Writers change the state and
announce the change afterwards, in two steps, and `notify_waiters` stores no permit, so a change
that falls between the reader's look at the state and its waiter being enabled would be lost. The
loop enables the waiter first, in every round.

A step of the system is one step of a writer, of the clock or of the loop, so a schedule is an
interleaving of any number of writers with the loop, and the deadline passes wherever it passes.
`timeout_at` polls the waiter and then the timer, and those are two steps as well.
`waitUntilResolved_spec` says that no wakeup is lost.
-/

namespace RgspCast.WaitUntilResolved

open Transition Waiters

/-- Where the loop stands. -/
inductive Wait where
  | top
  /-- The waiter is enabled; `still_pending` is to be asked. -/
  | enabled (w : Notified)
  /-- Suspended in `timeout_at`. -/
  | parked (w : Notified)
  /-- `timeout_at` has found the waiter not fired and is to look at the timer. -/
  | polled (w : Notified)
  /-- The timer has fired; `still_pending` is asked one last time. -/
  | timedOut
  | returned (resolved : Bool)
  deriving DecidableEq, Repr

/-- The loop asks `still_pending` in its next step. -/
def Wait.checks : Wait → Bool
  | .enabled _ | .timedOut => true
  | _ => false

structure State (σ : Type*) where
  cell : Cell σ
  now : ℕ
  deadline : ℕ
  wait : Wait

variable {σ : Type*}

/-- A call at some time, with whatever the writers are doing. -/
def init (c : Cell σ) (now timeout : ℕ) : State σ := ⟨c, now, now + timeout, .top⟩

inductive Action (σ : Type*) where
  /-- A writer changes the state, or writes it as it was. -/
  | mutate (f : σ → σ)
  /-- A writer calls `notify_waiters`. -/
  | notify
  | tick (d : ℕ)
  /-- The next step of the loop. -/
  | advance

/-- The next step of the loop; `none` once it has returned. -/
def advance (stillPending : σ → Bool) (s : State σ) : Option Wait :=
  match s.wait with
  | .top => some (.enabled s.cell.notify.enable)
  | .enabled w => some (if stillPending s.cell.value then .parked w else .returned true)
  | .parked w => some (if w.Fired s.cell.notify then .top else .polled w)
  | .polled w => some (if s.deadline ≤ s.now then .timedOut else .parked w)
  | .timedOut => some (.returned !stillPending s.cell.value)
  | .returned _ => none

/-- One step of the system; `none` where it cannot be taken. -/
def step (stillPending : σ → Bool) (s : State σ) : Action σ → Option (State σ)
  | .mutate f => some { s with cell := s.cell.mutate f }
  | .notify => if 0 < s.cell.owed then some { s with cell := s.cell.announce } else none
  | .tick d => some { s with now := s.now + d }
  | .advance => (advance stillPending s).map fun wait => { s with wait := wait }

/-- The state is resolved, and no writer is between its change and its announcement. -/
def Settled (stillPending : σ → Bool) (s : State σ) : Prop :=
  stillPending s.cell.value = false ∧ s.cell.owed = 0

/-! ## The invariant -/

variable {stillPending : σ → Bool}

/-- What the loop may rely on at each of its points. -/
def WaitInv (stillPending : σ → Bool) (s : State σ) : Wait → Prop
  | .top | .returned _ => True
  | .enabled w => w.On s.cell.notify
  -- the state that was looked at is current, unless the waiter has fired or is about to
  | .parked w | .polled w => ∃ m, stillPending m.value = true ∧ Fresh s.cell w m
  | .timedOut => s.deadline ≤ s.now

def Inv (stillPending : σ → Bool) (s : State σ) : Prop := WaitInv stillPending s s.wait

/-- The loop begins at its top. -/
theorem inv_init (c : Cell σ) (now timeout : ℕ) : Inv stillPending (init c now timeout) := trivial

/-- A change of the cell that keeps what waiters know keeps the invariant. -/
theorem Inv.of_cell {s : State σ} (h : Inv stillPending s) {c : Cell σ}
    (hon : ∀ w : Notified, w.On s.cell.notify → w.On c.notify)
    (hfresh : ∀ w m, Fresh s.cell w m → Fresh c w m) :
    Inv stillPending { s with cell := c } := by
  obtain ⟨cell, now, deadline, wait⟩ := s
  cases wait with
  | top | returned _ => trivial
  | enabled w => exact hon w h
  | parked w | polled w =>
    obtain ⟨m, hm, hf⟩ := h
    exact ⟨m, hm, hfresh w m hf⟩
  | timedOut => exact h

/-- Every step keeps the invariant, by the place of the loop. -/
theorem inv_step (s : State σ) (a : Action σ) (s' : State σ)
    (h : step stillPending s a = some s') (hs : Inv stillPending s) : Inv stillPending s' := by
  cases a with
  -- a writer between its two steps: what a reader knows stays fresh
  | mutate f =>
    obtain rfl := Option.some.inj h
    exact hs.of_cell (fun _ hw => hw) fun _ _ hf => hf.mutate f
  | notify =>
    obtain ⟨-, rfl⟩ := Option.ite_some_none_eq_some.mp h
    exact hs.of_cell (fun _ hw => hw.notifyWaiters) fun _ _ hf => hf.announce
  | tick d =>
    obtain rfl := Option.some.inj h
    obtain ⟨cell, now, deadline, wait⟩ := s
    cases wait with
    | timedOut => exact Nat.le_add_right_of_le hs
    | _ => exact hs
  | advance =>
    obtain ⟨wait', hadv, rfl⟩ := Option.map_eq_some_iff.mp h
    obtain ⟨cell, now, deadline, wait⟩ := s
    cases wait with
    | top =>
      obtain rfl := Option.some.inj hadv
      exact enable_on cell.notify
    | enabled w =>
      obtain rfl := Option.some.inj hadv
      -- what is seen pending here is the snapshot that the invariant speaks of
      cases hcheck : stillPending cell.value with
      | true => exact ⟨cell.snapshot, hcheck, Fresh.snapshot hs⟩
      | false => exact trivial
    | parked w =>
      obtain rfl := Option.some.inj hadv
      by_cases hfired : w.Fired cell.notify
      · simp only [if_pos hfired]
        exact trivial
      · simp only [if_neg hfired]
        exact hs
    | polled w =>
      obtain rfl := Option.some.inj hadv
      -- the timer is polled after the notification
      by_cases hdead : deadline ≤ now
      · simp only [if_pos hdead]
        exact hdead
      · simp only [if_neg hdead]
        exact hs
    | timedOut =>
      obtain rfl := Option.some.inj hadv
      exact trivial
    | returned resolved => cases hadv

/-- The invariant after any run. -/
theorem inv_of_run {c : Cell σ} {now timeout : ℕ} {as : List (Action σ)} {s : State σ}
    (h : run (step stillPending) (init c now timeout) as = some s) : Inv stillPending s :=
  run_invariant inv_step h (inv_init c now timeout)

/-- The deadline is set once. -/
theorem deadline_step (s : State σ) (a : Action σ) (s' : State σ)
    (h : step stillPending s a = some s') : s'.deadline = s.deadline := by
  cases a with
  | mutate f | tick d =>
    obtain rfl := Option.some.inj h
    rfl
  | notify =>
    obtain ⟨-, rfl⟩ := Option.ite_some_none_eq_some.mp h
    rfl
  | advance =>
    obtain ⟨wait, -, rfl⟩ := Option.map_eq_some_iff.mp h
    rfl

/-- It is the timeout after the start. -/
theorem deadline_of_run {c : Cell σ} {now timeout : ℕ} {as : List (Action σ)} {s : State σ}
    (h : run (step stillPending) (init c now timeout) as = some s) :
    s.deadline = now + timeout :=
  @run_invariant _ _ (step stillPending) (fun s => s.deadline = now + timeout)
    (fun s a s' ha hs => (deadline_step s a s' ha).trans hs) _ _ _ h rfl

/-! ## What is returned -/

/-- `true` is returned on a check that found the state resolved, and `false` on the last check. -/
theorem advance_returned {s : State σ} {resolved : Bool}
    (h : advance stillPending s = some (.returned resolved)) :
    s.wait.checks = true ∧ stillPending s.cell.value = !resolved ∧
      (resolved = false → s.wait = .timedOut) := by
  obtain ⟨cell, now, deadline, wait⟩ := s
  cases wait with
  | top | returned _ => cases h
  -- a check after `enable` can only return a success; the last one returns either
  | enabled w =>
    have hwait := Option.some.inj h
    dsimp only at hwait ⊢
    split at hwait
    next => cases hwait
    next hcheck =>
      obtain rfl := Wait.returned.inj hwait
      exact ⟨rfl, Bool.eq_false_iff.mpr hcheck, nofun⟩
  | parked w | polled w =>
    have hwait := Option.some.inj h
    split at hwait
    · cases hwait
    · cases hwait
  | timedOut =>
    obtain rfl := Wait.returned.inj (Option.some.inj h)
    exact ⟨rfl, (Bool.not_not _).symm, fun _ => rfl⟩

/-- A call that has returned did so at a check it made, with what the check found. -/
theorem returned_of_run {c : Cell σ} {now timeout : ℕ} {as : List (Action σ)} {s : State σ}
    {resolved : Bool} (hrun : run (step stillPending) (init c now timeout) as = some s)
    (hret : s.wait = .returned resolved) :
    ∃ as₁ as₂ s₁, as = as₁ ++ .advance :: as₂ ∧
      run (step stillPending) (init c now timeout) as₁ = some s₁ ∧ s₁.wait.checks = true ∧
      stillPending s₁.cell.value = !resolved ∧
      (resolved = false → now + timeout ≤ s₁.now) := by
  obtain ⟨as₁, a, as₂, s₁, s₂, rfl, hrun₁, hs₁, ha, hs₂⟩ :=
    exists_step_of_run (P := fun s => s.wait = .returned resolved) hrun nofun hret
  -- only the waiter's own step writes its result
  cases a with
  | mutate f =>
    obtain rfl := Option.some.inj ha
    exact absurd hs₂ hs₁
  | notify =>
    obtain ⟨-, rfl⟩ := Option.ite_some_none_eq_some.mp ha
    exact absurd hs₂ hs₁
  | tick d =>
    obtain rfl := Option.some.inj ha
    exact absurd hs₂ hs₁
  | advance =>
    obtain ⟨wait, hadv, rfl⟩ := Option.map_eq_some_iff.mp ha
    obtain rfl : wait = .returned resolved := hs₂
    obtain ⟨hchecks, hfound, hlast⟩ := advance_returned hadv
    refine ⟨as₁, as₂, s₁, rfl, hrun₁, hchecks, hfound, fun hfalse => ?_⟩
    have hinv : WaitInv stillPending s₁ s₁.wait := inv_of_run hrun₁
    rw [hlast hfalse] at hinv
    exact deadline_of_run hrun₁ ▸ hinv

/-! ## No wakeup is lost -/

/-- The loop is suspended and nothing has woken it. -/
def State.Parked (s : State σ) : Prop := ∃ w, s.wait = .parked w ∧ ¬ w.Fired s.cell.notify

/-- A waiter whose look at the state found it pending has fired by the time it is settled. -/
theorem fired_of_settled {s : State σ} {w : Notified} {m : Snapshot σ}
    (hm : stillPending m.value = true) (hfresh : Fresh s.cell w m)
    (h : Settled stillPending s) : w.Fired s.cell.notify := by
  by_contra hfired
  rw [hfresh.current hfired h.2] at hm
  exact Bool.false_ne_true (h.1.symm.trans hm)

/-- A loop that is parked has seen the id pending, and no notification since. -/
theorem not_settled_of_parked {s : State σ} (hinv : Inv stillPending s) (h : s.Parked) :
    ¬ Settled stillPending s := by
  intro hsettled
  obtain ⟨w, hwait, hfired⟩ := h
  unfold Inv at hinv
  rw [hwait] at hinv
  obtain ⟨m, hm, hfresh⟩ := hinv
  exact hfired (fired_of_settled hm hfresh hsettled)

/-- The next `n` steps of the loop return `true`. -/
def Resolves (stillPending : σ → Bool) (n : ℕ) (s : State σ) : Prop :=
  ∃ t, run (step stillPending) s (List.replicate n .advance) = some t ∧ t.wait = .returned true

/-- One step of the loop closer to its return. -/
theorem Resolves.succ {n : ℕ} {s : State σ} (wait : Wait)
    (hadv : advance stillPending s = some wait)
    (h : Resolves stillPending n { s with wait := wait }) : Resolves stillPending (n + 1) s := by
  obtain ⟨t, hrun, ht⟩ := h
  refine ⟨t, ?_, ht⟩
  rw [List.replicate_succ]
  exact run_cons_eq_some.mpr ⟨{ s with wait := wait }, by simp only [step, hadv, Option.map_some],
    hrun⟩

theorem Resolves.zero {s : State σ} (h : s.wait = .returned true) : Resolves stillPending 0 s :=
  ⟨s, rfl, h⟩

/-- From the top of the loop two steps are enough. -/
theorem resolves_of_top {s : State σ} (h : Settled stillPending s) (hwait : s.wait = .top) :
    Resolves stillPending 2 s := by
  have henable : advance stillPending s = some (.enabled s.cell.notify.enable) := by
    rw [advance, hwait]
  refine Resolves.succ _ henable (Resolves.succ (.returned true) ?_ (Resolves.zero rfl))
  simp [advance, h.1]

/-- Once the state is settled, the loop returns `true` in a few steps of its own. -/
theorem resolves_of_settled {s : State σ} (hinv : Inv stillPending s)
    (h : Settled stillPending s) (hret : ∀ resolved, s.wait ≠ .returned resolved) :
    ∃ n ≤ 4, Resolves stillPending n s := by
  -- a waiter that has fired takes the loop back to its top
  have hparked {w : Notified} (hfired : w.Fired s.cell.notify) :
      Resolves stillPending 3 { s with wait := .parked w } :=
    Resolves.succ .top (congrArg some (if_pos hfired)) (resolves_of_top h rfl)
  unfold Inv at hinv
  cases hwait : s.wait with
  | top => exact ⟨2, by omega, resolves_of_top h hwait⟩
  | enabled w =>
    refine ⟨1, by omega, Resolves.succ (.returned true) ?_ (Resolves.zero rfl)⟩
    simp [advance, hwait, h.1]
  | parked w =>
    rw [hwait] at hinv
    obtain ⟨m, hm, hfresh⟩ := hinv
    have hs : { s with wait := .parked w } = s := by rw [← hwait]
    exact ⟨3, by omega, hs ▸ hparked (fired_of_settled hm hfresh h)⟩
  | polled w =>
    rw [hwait] at hinv
    obtain ⟨m, hm, hfresh⟩ := hinv
    -- past the deadline the loop looks once more, and finds the id resolved
    by_cases hdead : s.deadline ≤ s.now
    · refine ⟨2, by omega, Resolves.succ .timedOut ?_
        (Resolves.succ (.returned true) ?_ (Resolves.zero rfl))⟩
      · simp [advance, hwait, hdead]
      · simp [advance, h.1]
    · refine ⟨4, by omega, Resolves.succ (.parked w) ?_
        (hparked (fired_of_settled hm hfresh h))⟩
      simp [advance, hwait, hdead]
  | timedOut =>
    refine ⟨1, by omega, Resolves.succ (.returned true) ?_ (Resolves.zero rfl)⟩
    simp [advance, hwait, h.1]
  | returned resolved => exact absurd hwait (hret resolved)

/-- **No wakeup is lost**, in whatever order the writers, the clock and the loop take their steps.
`true` is returned only at a check that found the state resolved, `false` only at one after the
deadline that found it pending. The loop is never parked while the state is settled; it then returns
`true` in at most four steps of its own. -/
theorem waitUntilResolved_spec {c : Cell σ} {now timeout : ℕ} {as : List (Action σ)} {s : State σ}
    (hrun : run (step stillPending) (init c now timeout) as = some s) :
    (s.wait = .returned true →
      ∃ as₁ as₂ s₁, as = as₁ ++ .advance :: as₂ ∧
        run (step stillPending) (init c now timeout) as₁ = some s₁ ∧ s₁.wait.checks = true ∧
        stillPending s₁.cell.value = false) ∧
    (s.wait = .returned false →
      ∃ as₁ as₂ s₁, as = as₁ ++ .advance :: as₂ ∧
        run (step stillPending) (init c now timeout) as₁ = some s₁ ∧ s₁.wait.checks = true ∧
        now + timeout ≤ s₁.now ∧ stillPending s₁.cell.value = true) ∧
    (s.Parked → ¬ Settled stillPending s) ∧
    (Settled stillPending s → (∀ resolved, s.wait ≠ .returned resolved) →
      ∃ n ≤ 4, Resolves stillPending n s) := by
  have hinv := inv_of_run hrun
  refine ⟨fun hret => ?_, fun hret => ?_, not_settled_of_parked hinv,
    resolves_of_settled hinv⟩
  · obtain ⟨as₁, as₂, s₁, has, hrun₁, hchecks, hfound, -⟩ := returned_of_run hrun hret
    exact ⟨as₁, as₂, s₁, has, hrun₁, hchecks, hfound⟩
  · obtain ⟨as₁, as₂, s₁, has, hrun₁, hchecks, hfound, hdead⟩ := returned_of_run hrun hret
    exact ⟨as₁, as₂, s₁, has, hrun₁, hchecks, hdead rfl, hfound⟩

/-- The state resolves while the loop is parked, and the loop has not run since. -/
def resolvesWhileParked : List (Action Bool) :=
  [.advance, .advance, .tick 1, .mutate fun _ => false, .notify]

/-- The id is resolved while the loop is parked. -/
theorem waitUntilResolved_spec_resolvesWhileParked :
    ∃ s, run (step id) (init (Cell.new true) 0 5) resolvesWhileParked = some s ∧
      s.wait = .parked ⟨0⟩ ∧ ∃ n ≤ 4, Resolves id n s := by
  have h := @waitUntilResolved_spec Bool id (Cell.new true) 0 5 resolvesWhileParked _ rfl
  exact ⟨_, rfl, rfl, h.2.2.2 ⟨rfl, rfl⟩ nofun⟩

end RgspCast.WaitUntilResolved
