import Mathlib.Data.Nat.Notation

/-!
# A notification that keeps no permit

`Notify` wakes the waiters that are registered when `notifyWaiters` is called, and nothing else: a
call that comes before a waiter is enabled is lost to it. Counting the calls is enough to say
which waiters have fired, because a waiter fires exactly when a call comes after its `enable`.

`Cell` is the pattern such a notification is used in: a value that writers change under a lock and
announce afterwards, in two steps. A reader that enables its waiter before it reads is never left
behind: `Fresh` is what it may rely on, and `Fresh.current` is what that comes to once the waiter
has not fired and no writer is between its two steps.
-/

namespace Waiters

/-- A notifier, by the number of `notify_waiters` calls so far. -/
structure Notify where
  calls : ℕ
  deriving DecidableEq, Repr

/-- A registered waiter, by the number of calls before it was enabled. -/
structure Notified where
  enabledAt : ℕ
  deriving DecidableEq, Repr

def Notify.notifyWaiters (n : Notify) : Notify := ⟨n.calls + 1⟩

def Notify.enable (n : Notify) : Notified := ⟨n.calls⟩

/-- A call has come after the waiter was enabled. -/
def Notified.Fired (w : Notified) (n : Notify) : Prop := w.enabledAt < n.calls

instance (w : Notified) (n : Notify) : Decidable (w.Fired n) :=
  inferInstanceAs (Decidable (w.enabledAt < n.calls))

/-- The waiter was enabled on this notifier. -/
def Notified.On (w : Notified) (n : Notify) : Prop := w.enabledAt ≤ n.calls

/-- A waiter that is enabled now is on the list. -/
theorem enable_on (n : Notify) : n.enable.On n := Nat.le_refl _

/-- It stays there. -/
theorem Notified.On.notifyWaiters {w : Notified} {n : Notify} (h : w.On n) :
    w.On n.notifyWaiters :=
  Nat.le_succ_of_le h

/-- The next notification fires it. -/
theorem Notified.On.fired_notifyWaiters {w : Notified} {n : Notify} (h : w.On n) :
    w.Fired n.notifyWaiters :=
  Nat.lt_succ_of_le h

/-! ## A value whose changes are announced -/

/-- A value with the number of its changes, and the writers that have changed it and not yet
announced that. -/
structure Cell (α : Type*) where
  value : α
  version : ℕ
  owed : ℕ
  notify : Notify

variable {α : Type*}

/-- A value nobody has changed. -/
def Cell.new (a : α) : Cell α := ⟨a, 0, 0, ⟨0⟩⟩

/-- What a reader takes away: the value, and how many changes it has seen. -/
structure Snapshot (α : Type*) where
  version : ℕ
  value : α
  deriving DecidableEq, Repr

def Cell.snapshot (c : Cell α) : Snapshot α := ⟨c.version, c.value⟩

/-- A writer's first step, under the lock. -/
def Cell.mutate (c : Cell α) (f : α → α) : Cell α :=
  { c with value := f c.value, version := c.version + 1, owed := c.owed + 1 }

/-- A writer's second step. -/
def Cell.announce (c : Cell α) : Cell α :=
  { c with owed := c.owed - 1, notify := c.notify.notifyWaiters }

/-- What a reader with this waiter knows of a snapshot it took: the waiter has fired, or some writer
is about to fire it, or the snapshot is still current. -/
structure Fresh (c : Cell α) (w : Notified) (m : Snapshot α) : Prop where
  on : w.On c.notify
  fresh : w.Fired c.notify ∨ 0 < c.owed ∨ m = c.snapshot

/-- A snapshot taken after the waiter was enabled is fresh. -/
theorem Fresh.snapshot {c : Cell α} {w : Notified} (h : w.On c.notify) : Fresh c w c.snapshot :=
  ⟨h, Or.inr (Or.inr rfl)⟩

/-- It stays fresh over a change, whose writer is about to fire the waiter. -/
theorem Fresh.mutate {c : Cell α} {w : Notified} {m : Snapshot α} (h : Fresh c w m) (f : α → α) :
    Fresh (c.mutate f) w m :=
  ⟨h.on, Or.inr (Or.inl (Nat.succ_pos _))⟩

/-- It stays so over the announcement, which fires it. -/
theorem Fresh.announce {c : Cell α} {w : Notified} {m : Snapshot α} (h : Fresh c w m) :
    Fresh c.announce w m :=
  ⟨h.on.notifyWaiters, Or.inl h.on.fired_notifyWaiters⟩

/-- A reader whose waiter has not fired, while no writer is between its two steps, holds the current
value. -/
theorem Fresh.current {c : Cell α} {w : Notified} {m : Snapshot α} (h : Fresh c w m)
    (hfired : ¬ w.Fired c.notify) (howed : c.owed = 0) : m = c.snapshot := by
  rcases h.fresh with hf | ho | hm
  · exact absurd hf hfired
  · omega
  · exact hm

end Waiters
