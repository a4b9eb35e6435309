import Mathlib.Data.Int.Notation
import Mathlib.Data.List.Chain
import Mathlib.Algebra.Order.Group.Unbundled.Int

/-!
# Rounds that wait for a deadline

A pacer ends each round no sooner than a deadline, and moves the deadline on by at least one
interval a round, past the moment the round began. Rounds can begin late and end late (`Paces`).
However late they are, the deadlines keep an interval apart (`Paces.due_add_le`), so a backlog is
never worked off faster than that: `k` rounds on, at least `k - 2` intervals have gone by
(`Paces.spaced`), and `k - 1` where the first of them was not late to end
(`Paces.spaced_of_prompt`).
-/

namespace Pacer

/-- A round: the deadline it waits for, when it began and ended, and the deadline it sets for the
round behind it. -/
structure Round where
  due : ℤ
  begun : ℤ
  ended : ℤ
  next : ℤ
  deriving DecidableEq, Repr

/-- What a pacer of the interval `F` promises of a round. -/
structure Round.Keeps (F : ℤ) (r : Round) : Prop where
  begun_le : r.begun ≤ r.ended
  due_le : r.due ≤ r.ended
  advances : r.due + F ≤ r.next
  catches_up : r.begun ≤ r.next

/-- A round that waits no longer than it has to. -/
def Round.Prompt (r : Round) : Prop := r.ended = max r.begun r.due

/-- A round behind another: it waits for the deadline that one set, and does not begin before that
one has ended. -/
def Follows (r s : Round) : Prop := s.due = r.next ∧ r.ended ≤ s.begun

/-- Rounds of a pacer, in order. -/
structure Paces (F : ℤ) (rs : List Round) : Prop where
  keeps : ∀ r ∈ rs, r.Keeps F
  follows : rs.IsChain Follows

theorem paces_nil (F : ℤ) : Paces F [] := ⟨nofun, .nil⟩

/-- One more round. -/
theorem Paces.concat {F : ℤ} {rs : List Round} {r : Round} (h : Paces F rs) (hr : r.Keeps F)
    (hfollows : ∀ q ∈ rs.getLast?, Follows q r) : Paces F (rs ++ [r]) where
  keeps := List.forall_mem_append.mpr ⟨h.keeps, List.forall_mem_singleton.mpr hr⟩
  follows := h.follows.append (.singleton r) fun q hq _ hs => Option.some.inj hs ▸ hfollows q hq

section Spacing

variable {F : ℤ} {rs : List Round} {i k : ℕ} {r s : Round}

/-- Each round follows the one before. -/
theorem Paces.follows_succ (h : Paces F rs) (hr : rs[i]? = some r) (hs : rs[i + 1]? = some s) :
    Follows r s := by
  obtain ⟨hi, rfl⟩ := List.getElem?_eq_some_iff.mp hr
  obtain ⟨hj, rfl⟩ := List.getElem?_eq_some_iff.mp hs
  exact h.follows.getElem i hj

/-- The rounds before a round are there. -/
theorem exists_round_of_le {j : ℕ} (hij : i ≤ j) (hs : rs[j]? = some s) :
    ∃ q, rs[i]? = some q := by
  obtain ⟨hj, -⟩ := List.getElem?_eq_some_iff.mp hs
  exact ⟨_, List.getElem?_eq_getElem (by omega)⟩

/-- The deadlines keep an interval apart. -/
theorem Paces.due_add_le (h : Paces F rs) (hr : rs[i]? = some r) (hs : rs[i + (k + 1)]? = some s) :
    r.next + k * F ≤ s.due := by
  induction k generalizing s with
  | zero =>
    rw [(h.follows_succ hr hs).1]
    simp
  | succ k ih =>
    obtain ⟨q, hq⟩ := exists_round_of_le (i := i + (k + 1)) (by omega) hs
    have hdue := ih hq
    have hadvances := (h.keeps q (List.mem_of_getElem? hq)).advances
    rw [(h.follows_succ hq hs).1]
    push_cast
    rw [Int.add_mul, Int.one_mul]
    omega

/-- **No burst.** However late rounds begin and end, `k` rounds on at least `k - 2` intervals have
gone by. -/
theorem Paces.spaced (h : Paces F rs) (hr : rs[i]? = some r) (hs : rs[i + (k + 2)]? = some s) :
    k * F ≤ s.ended - r.ended := by
  obtain ⟨q, hq⟩ := exists_round_of_le (i := i + 1) (by omega) hs
  have hfollows := h.follows_succ hr hq
  have hcatches := (h.keeps q (List.mem_of_getElem? hq)).catches_up
  have hdue := h.due_add_le hq (k := k) (s := s) (by rwa [Nat.add_assoc, Nat.add_comm 1])
  have hwaits := (h.keeps s (List.mem_of_getElem? hs)).due_le
  obtain ⟨-, hbegun⟩ := hfollows
  omega

/-- Behind a round that was not late to end, `k - 1` intervals have gone by. -/
theorem Paces.spaced_of_prompt (h : Paces F rs) (hF : 0 ≤ F) (hprompt : r.Prompt)
    (hr : rs[i]? = some r) (hs : rs[i + (k + 1)]? = some s) : k * F ≤ s.ended - r.ended := by
  have hkeeps := h.keeps r (List.mem_of_getElem? hr)
  have hnext : r.ended ≤ r.next := by
    have hadvances := hkeeps.advances
    rw [show r.ended = max r.begun r.due from hprompt]
    exact max_le hkeeps.catches_up (by omega)
  have hdue := h.due_add_le hr hs
  have hwaits := (h.keeps s (List.mem_of_getElem? hs)).due_le
  omega

end Spacing

end Pacer
