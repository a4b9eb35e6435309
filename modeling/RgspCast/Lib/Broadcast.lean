import Mathlib.Data.Nat.Notation
import Mathlib.Data.List.Basic

/-!
# Lossy broadcast and bounded channels

A broadcast channel keeps the last values only: sending to a full one overwrites the oldest, and
the receiver is told how many it missed before it gets the values that are left. So a receiver that
drains the channel learns that something was sent, if not what. A bounded queue refuses what does
not fit.
-/

namespace Channel

variable {α : Type*}

/-- A broadcast channel as its one receiver sees it: the values kept for it, oldest first, and how
many were overwritten since it last received. -/
structure Broadcast (α : Type*) where
  kept : List α
  missed : ℕ
  deriving DecidableEq

/-- What a receive returns. -/
inductive Received (α : Type*) where
  | ok (a : α)
  | lagged (n : ℕ)

namespace Broadcast

/-- Nothing is left to receive. -/
def Empty (b : Broadcast α) : Prop := b.kept = [] ∧ b.missed = 0

instance (b : Broadcast α) : Decidable b.Empty :=
  haveI : Decidable (b.kept = []) := decidable_of_iff b.kept.isEmpty (by simp)
  inferInstanceAs (Decidable (_ ∧ _))

def new : Broadcast α := ⟨[], 0⟩

/-- Send to a channel of this capacity. -/
def send (capacity : ℕ) (b : Broadcast α) (a : α) : Broadcast α :=
  if b.kept.length < capacity then ⟨b.kept ++ [a], b.missed⟩
  else ⟨(b.kept ++ [a]).drop 1, b.missed + 1⟩

/-- Receive; `none` where there is nothing yet. -/
def recv (b : Broadcast α) : Option (Received α × Broadcast α) :=
  if b.missed ≠ 0 then some (.lagged b.missed, ⟨b.kept, 0⟩)
  else
    match b.kept with
    | [] => none
    | a :: kept => some (.ok a, ⟨kept, 0⟩)

/-- A channel to which something was sent is not empty. -/
theorem not_empty_send (capacity : ℕ) (b : Broadcast α) (a : α) : ¬ (b.send capacity a).Empty := by
  rintro ⟨hkept, hmissed⟩
  unfold send at hkept hmissed
  split at hkept
  next => simp at hkept
  next hfull =>
    rw [if_neg hfull] at hmissed
    exact absurd hmissed (Nat.succ_ne_zero _)

/-- There is something to receive where the channel is not empty. -/
theorem recv_eq_none_iff (b : Broadcast α) : b.recv = none ↔ b.Empty := by
  unfold recv Empty
  split
  next h => simp [h]
  next h =>
    have hmissed : b.missed = 0 := Nat.eq_zero_of_not_pos fun hpos => h (Nat.ne_of_gt hpos)
    split
    next hnil => simp [hmissed, hnil]
    next hcons => simp [hcons]

end Broadcast

/-- Put a value into a bounded queue; `none` where it is full. -/
def trySend (capacity : ℕ) (q : List α) (a : α) : Option (List α) :=
  if q.length < capacity then some (q ++ [a]) else none

end Channel
