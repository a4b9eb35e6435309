import Mathlib.Logic.Function.Basic
import Mathlib.Data.List.Basic

/-!
# Memory after a sequence of stores

A memory is a function from addresses to values; `write m ws` is `m` after the stores `ws`, in
order. What an address holds afterwards is decided by the stores to it: untouched it keeps its
value, and where every store to it has the same value it holds that one, however often it was
stored to. `setAll l ws` is the same for a list, where a store past the end does nothing.
-/

namespace Stores

variable {α β : Type*} [DecidableEq α]

/-- The memory after the stores, in order. -/
def write (m : α → β) (ws : List (α × β)) : α → β :=
  ws.foldl (fun m w => Function.update m w.1 w.2) m

@[simp] theorem write_nil (m : α → β) : write m [] = m := rfl

/-- One store after the other. -/
theorem write_cons (m : α → β) (w : α × β) (ws : List (α × β)) :
    write m (w :: ws) = write (Function.update m w.1 w.2) ws := rfl

theorem write_append (m : α → β) (ws ws' : List (α × β)) :
    write m (ws ++ ws') = write (write m ws) ws' := by
  rw [write, List.foldl_append]
  rfl

/-- An address nothing is stored to keeps its value. -/
theorem write_of_notMem {m : α → β} {ws : List (α × β)} {a : α} (h : ∀ w ∈ ws, w.1 ≠ a) :
    write m ws a = m a := by
  induction ws generalizing m with
  | nil => rfl
  | cons w ws ih =>
    obtain ⟨hw, hws⟩ := List.forall_mem_cons.mp h
    rw [write_cons, ih hws, Function.update_of_ne (Ne.symm hw)]

/-- An address all stores to which agree with what it holds keeps its value. -/
theorem write_of_agree {m : α → β} {ws : List (α × β)} {a : α} {v : β} (hm : m a = v)
    (h : ∀ w ∈ ws, w.1 = a → w.2 = v) : write m ws a = v := by
  induction ws generalizing m with
  | nil => exact hm
  | cons w ws ih =>
    obtain ⟨hw, hws⟩ := List.forall_mem_cons.mp h
    rw [write_cons]
    refine ih ?_ hws
    by_cases ha : a = w.1
    · rw [ha, Function.update_self]
      exact hw ha.symm
    · rw [Function.update_of_ne ha, hm]

/-- An address that is stored to, always with the same value, holds it. -/
theorem write_of_mem {m : α → β} {ws : List (α × β)} {a : α} {v : β} (hmem : ∃ w ∈ ws, w.1 = a)
    (h : ∀ w ∈ ws, w.1 = a → w.2 = v) : write m ws a = v := by
  induction ws generalizing m with
  | nil =>
    obtain ⟨w, hw, -⟩ := hmem
    exact absurd hw List.not_mem_nil
  | cons w ws ih =>
    obtain ⟨hw, hws⟩ := List.forall_mem_cons.mp h
    rw [write_cons]
    by_cases ha : w.1 = a
    · refine write_of_agree ?_ hws
      rw [← ha, Function.update_self]
      exact hw ha
    · obtain ⟨w', hw', ha'⟩ := hmem
      rcases List.mem_cons.mp hw' with rfl | hw'
      · exact absurd ha' ha
      · exact ih ⟨w', hw', ha'⟩ hws

/-! ## Stores into a list -/

/-- The list after the stores, in order. -/
def setAll (l : List β) (ws : List (ℕ × β)) : List β := ws.foldl (fun l w => l.set w.1 w.2) l

/-- One element after the other. -/
theorem setAll_cons (l : List β) (w : ℕ × β) (ws : List (ℕ × β)) :
    setAll l (w :: ws) = setAll (l.set w.1 w.2) ws := rfl

/-- Inside its length a list is a memory. -/
theorem getElem?_setAll {l : List β} {ws : List (ℕ × β)} (h : ∀ w ∈ ws, w.1 < l.length) (i : ℕ) :
    (setAll l ws)[i]? = write (fun j => l[j]?) (ws.map (Prod.map id some)) i := by
  induction ws generalizing l with
  | nil => rfl
  | cons w ws ih =>
    obtain ⟨hw, hws⟩ := List.forall_mem_cons.mp h
    rw [setAll_cons, ih (by simpa using hws), List.map_cons, write_cons]
    congr 1
    funext j
    by_cases hj : j = w.1
    · subst hj
      simp [hw]
    · rw [List.getElem?_set_ne (Ne.symm hj)]
      exact (Function.update_of_ne hj _ _).symm

/-- Stores that fill the first `n` positions, each always with the same value, and store nowhere
else. -/
theorem setAll_eq_append {l : List β} {ws : List (ℕ × β)} {n : ℕ} {g : ℕ → β} (hn : n ≤ l.length)
    (hval : ∀ w ∈ ws, w.1 < n ∧ w.2 = g w.1) (hall : ∀ i < n, ∃ w ∈ ws, w.1 = i) :
    setAll l ws = (List.range n).map g ++ l.drop n := by
  apply List.ext_getElem?
  intro i
  rw [getElem?_setAll fun w hw => Nat.lt_of_lt_of_le (hval w hw).1 hn]
  by_cases hi : i < n
  · rw [List.getElem?_append_left (by simpa using hi), List.getElem?_map,
      List.getElem?_range hi]
    obtain ⟨w, hw, hwi⟩ := hall i hi
    refine write_of_mem ⟨_, List.mem_map_of_mem hw, hwi⟩ ?_
    rintro _ hmem rfl
    obtain ⟨w', hw', rfl⟩ := List.mem_map.mp hmem
    exact congrArg some (hval w' hw').2
  · rw [List.getElem?_append_right (by simpa using hi), List.length_map, List.length_range,
      List.getElem?_drop, Nat.add_sub_cancel' (Nat.le_of_not_lt hi)]
    refine write_of_notMem ?_
    rintro _ hmem rfl
    obtain ⟨w', hw', rfl⟩ := List.mem_map.mp hmem
    exact hi (hval w' hw').1

end Stores
