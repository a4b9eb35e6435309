import RgspCast.Lib.Transition
import RgspCast.Lib.Waiters

/-!
# The state subscription of the control socket

`ControlHandle`'s setters change the `CastState` under its lock and then call `notify_waiters`;
`subscribe` sends a whole snapshot whenever its waiter fires. A step of the system is one atomic
step of one setter or of the subscription loop, so a schedule is an interleaving of any number of
setter calls with the loop.

`subscribe_current` says that the loop is never parked on an old state, and that the snapshots go
out in the order in which they were true.
-/

namespace RgspCast.Control

open Transition Waiters

structure PendingEntry where
  id : String
  name : Option String
  address : Option String
  deriving DecidableEq, Repr

structure PairedEntry where
  fingerprint : String
  name : Option String
  address : Option String
  deriving DecidableEq, Repr

structure CastState where
  casting : Bool
  client : Option String
  pending : List PendingEntry
  paired : List PairedEntry
  deriving DecidableEq, Repr

/-- The state of `ControlHandle::new`. -/
def CastState.new : CastState := ⟨false, none, [], []⟩

/-- A call of one of the setters. -/
inductive Setter where
  | setCasting (casting : Bool)
  | setClient (client : Option String)
  | setPending (pending : List PendingEntry)
  | setPaired (paired : List PairedEntry)

/-- What a setter does under the lock. -/
def Setter.mutate : Setter → CastState → CastState
  | .setCasting casting, s => { s with casting := casting }
  | .setClient client, s => { s with client := client }
  | .setPending pending, s => { s with pending := pending }
  | .setPaired paired, s => { s with paired := paired }

/-- Where the subscription loop stands. -/
inductive Loop where
  /-- Before the first `enable`. -/
  | start
  /-- A waiter is enabled, and a snapshot is to be taken. -/
  | enabled (w : Notified)
  /-- The snapshot is taken; `send` is suspended with it. -/
  | sending (w : Notified) (m : Snapshot CastState)
  /-- Parked in `select`. -/
  | parked (w : Notified)
  /-- The waiter has fired; the next one is not enabled yet. -/
  | woken
  /-- The sink was closed. -/
  | closed
  deriving DecidableEq

structure State where
  cell : Cell CastState
  loop : Loop
  /-- The snapshots sent, oldest first. -/
  sent : List (Snapshot CastState)

/-- A fresh `ControlHandle` and a subscription that was just accepted. -/
def init : State := ⟨Cell.new CastState.new, .start, []⟩

inductive Action where
  /-- A setter's step under the lock. -/
  | mutate (call : Setter)
  /-- A setter's `notify_waiters`. -/
  | notify
  /-- The loop builds a `Notified` and enables it. -/
  | enable
  /-- The loop takes its snapshot, under the lock. -/
  | snapshot
  /-- `send` returns. -/
  | send
  /-- `select` takes the branch of the waiter. -/
  | wake
  /-- `select` takes the branch of the closed sink. -/
  | close

/-- One step of the system; `none` where it cannot be taken. -/
def step (s : State) : Action → Option State
  | .mutate call => some { s with cell := s.cell.mutate call.mutate }
  | .notify => if 0 < s.cell.owed then some { s with cell := s.cell.announce } else none
  | .enable =>
    match s.loop with
    | .start | .woken => some { s with loop := .enabled s.cell.notify.enable }
    | _ => none
  | .snapshot =>
    match s.loop with
    | .enabled w => some { s with loop := .sending w s.cell.snapshot }
    | _ => none
  | .send =>
    match s.loop with
    | .sending w m => some { s with loop := .parked w, sent := s.sent ++ [m] }
    | _ => none
  | .wake =>
    match s.loop with
    | .parked w => if w.Fired s.cell.notify then some { s with loop := .woken } else none
    | _ => none
  | .close =>
    match s.loop with
    | .parked _ => some { s with loop := .closed }
    | _ => none

/-! ## The invariant -/

/-- What the loop may rely on at each of its points. -/
def LoopInv (s : State) : Loop → Prop
  | .start | .woken | .closed => True
  | .enabled w => w.On s.cell.notify
  | .sending w m => Fresh s.cell w m ∧ m.version ≤ s.cell.version ∧
      ∀ x ∈ s.sent, x.version ≤ m.version
  | .parked w => ∃ m, s.sent.getLast? = some m ∧ Fresh s.cell w m

structure Inv (s : State) : Prop where
  loop : LoopInv s s.loop
  past : ∀ x ∈ s.sent, x.version ≤ s.cell.version
  sorted : s.sent.Pairwise fun x y => x.version ≤ y.version

theorem inv_init : Inv init := ⟨trivial, by simp [init], List.Pairwise.nil⟩

/-- A change of the cell that keeps what readers know and does not count back keeps the
invariant. -/
theorem Inv.of_cell {s : State} (h : Inv s) {c : Cell CastState}
    (hon : ∀ w : Notified, w.On s.cell.notify → w.On c.notify)
    (hfresh : ∀ w m, Fresh s.cell w m → Fresh c w m) (hversion : s.cell.version ≤ c.version) :
    Inv { s with cell := c } := by
  refine ⟨?_, fun x hx => Nat.le_trans (h.past x hx) hversion, h.sorted⟩
  have hloop := h.loop
  revert hloop
  show LoopInv s s.loop → LoopInv { s with cell := c } s.loop
  cases s.loop with
  | start => exact id
  | woken => exact id
  | closed => exact id
  | enabled w => exact hon w
  | sending w m =>
    rintro ⟨hm, hle, hsent⟩
    exact ⟨hfresh w m hm, Nat.le_trans hle hversion, hsent⟩
  | parked w =>
    rintro ⟨m, hlast, hm⟩
    exact ⟨m, hlast, hfresh w m hm⟩

/-- Every step keeps the invariant, action by action and by the place of the loop. -/
theorem inv_step (s : State) (a : Action) (s' : State) (h : step s a = some s') (hs : Inv s) :
    Inv s' := by
  have hloop := hs.loop
  cases a with
  | mutate call =>
    obtain rfl := Option.some.inj h
    exact hs.of_cell (fun _ => id) (fun _ _ hm => hm.mutate _) (Nat.le_succ _)
  | notify =>
    obtain ⟨-, rfl⟩ := Option.ite_some_none_eq_some.mp h
    exact hs.of_cell (fun _ => Notified.On.notifyWaiters) (fun _ _ hm => hm.announce)
      (Nat.le_refl _)
  | enable =>
    simp only [step] at h
    split at h
    case h_3 => cases h
    -- registered anew, before the first snapshot and after each wake
    all_goals
      obtain rfl := Option.some.inj h
      exact ⟨enable_on s.cell.notify, hs.past, hs.sorted⟩
  | snapshot =>
    simp only [step] at h
    split at h
    next w hw =>
      obtain rfl := Option.some.inj h
      rw [hw] at hloop
      exact ⟨⟨Fresh.snapshot hloop, Nat.le_refl _, hs.past⟩, hs.past, hs.sorted⟩
    next => cases h
  | send =>
    simp only [step] at h
    split at h
    next w m hw =>
      obtain rfl := Option.some.inj h
      rw [hw] at hloop
      obtain ⟨hm, hle, hsent⟩ := hloop
      -- `m` is from the cell as it was after every snapshot that has been sent
      refine ⟨⟨m, List.getLast?_concat, hm⟩, ?_, ?_⟩
      · exact List.forall_mem_append.mpr ⟨hs.past, by simpa using hle⟩
      · exact List.pairwise_append.mpr ⟨hs.sorted, List.pairwise_singleton _ _,
          by simpa using hsent⟩
    next => cases h
  | wake =>
    simp only [step] at h
    split at h
    next =>
      obtain ⟨-, rfl⟩ := Option.ite_some_none_eq_some.mp h
      exact ⟨trivial, hs.past, hs.sorted⟩
    next => cases h
  | close =>
    simp only [step] at h
    split at h
    next =>
      obtain rfl := Option.some.inj h
      exact ⟨trivial, hs.past, hs.sorted⟩
    next => cases h

/-- **No lost update.** In every state of every interleaving: if the loop is parked with its waiter
not fired and no setter is between its two steps, the last snapshot sent is the current state; and
no snapshot sent is older than one sent before it. -/
theorem subscribe_current {as : List Action} {s : State} (hrun : run step init as = some s) :
    (∀ w, s.loop = .parked w → ¬ w.Fired s.cell.notify → s.cell.owed = 0 →
      s.sent.getLast? = some s.cell.snapshot) ∧
    s.sent.Pairwise fun x y => x.version ≤ y.version := by
  have hinv := run_invariant inv_step hrun inv_init
  refine ⟨?_, hinv.sorted⟩
  intro w hw hfired howed
  have hloop := hinv.loop
  rw [hw] at hloop
  obtain ⟨m, hlast, hm⟩ := hloop
  rw [hlast, hm.current hfired howed]

/-- Two setters run while the first snapshot is being sent. -/
def twoSetters : List Action :=
  [.enable, .snapshot, .mutate (.setClient (some "mbp")), .notify, .mutate (.setCasting true),
    .send, .wake, .enable, .notify, .snapshot, .send, .wake, .enable, .snapshot, .send]

/-- After both setters the subscriber has seen the second value. -/
theorem subscribe_current_twoSetters :
    ∃ s, run step init twoSetters = some s ∧
      s.sent.getLast? = some ⟨2, ⟨true, some "mbp", [], []⟩⟩ := by
  have hrun : run step init twoSetters = some _ := rfl
  exact ⟨_, hrun, (subscribe_current hrun).1 _ rfl (by decide) rfl⟩

end RgspCast.Control
