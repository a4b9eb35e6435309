import Mathlib.Data.Nat.Notation
import Mathlib.Data.List.Basic
import Mathlib.Data.List.TakeWhile

/-!
# Sequences of checked accesses

A program that indexes into slices performs a sequence of accesses and stops at the first one that
is out of range. `performed ok as` are the accesses that take place. `Reaches ok bad as` says that
one of them is `bad`; its rules follow the way the program is put together: an access, a sequence
written one behind the other, a loop.
-/

namespace Checked

variable {α : Type*} (ok : α → Prop) [DecidablePred ok]

/-- The accesses that take place: those before the first that is out of range. -/
def performed (as : List α) : List α := as.takeWhile fun a => ok a

/-- An access with the property `bad` takes place. -/
def Reaches (bad : α → Prop) (as : List α) : Prop := ∃ a ∈ performed ok as, bad a

variable {ok} {bad : α → Prop}

/-- The accesses stop before the first that fails its check. -/
theorem performed_cons (a : α) (as : List α) :
    performed ok (a :: as) = if ok a then a :: performed ok as else [] := by
  unfold performed
  rw [List.takeWhile_cons]
  simp only [decide_eq_true_eq]

/-- What is performed is one of the accesses. -/
theorem mem_of_mem_performed {a : α} {as : List α} (h : a ∈ performed ok as) : a ∈ as :=
  (List.takeWhile_prefix _).subset h

/-- What takes place is in range. -/
theorem ok_of_mem_performed {a : α} {as : List α} (h : a ∈ performed ok as) : ok a := by
  have hall := List.all_eq_true.mp (List.all_takeWhile (l := as) (p := fun a => ok a)) a h
  simpa using hall

/-- A sequence all of which is in range takes place. -/
theorem performed_eq_self {as : List α} (h : ∀ a ∈ as, ok a) : performed ok as = as :=
  List.takeWhile_eq_self_iff.mpr fun a ha => decide_eq_true (h a ha)

/-- A head that is all in range takes place, whatever follows. -/
theorem mem_performed_append {a : α} {as bs : List α} (h : ∀ a ∈ as, ok a) (ha : a ∈ as) :
    a ∈ performed ok (as ++ bs) := by
  rw [performed, List.takeWhile_append_of_pos fun a ha => decide_eq_true (h a ha)]
  exact List.mem_append_left _ ha

@[simp] theorem not_reaches_nil : ¬ Reaches ok bad [] := by
  rintro ⟨a, ha, -⟩
  exact absurd (mem_of_mem_performed ha) List.not_mem_nil

/-- The first access, or one behind it. -/
theorem reaches_cons {a : α} {as : List α} :
    Reaches ok bad (a :: as) ↔ ok a ∧ (bad a ∨ Reaches ok bad as) := by
  unfold Reaches
  rw [performed_cons]
  by_cases ha : ok a <;> simp [ha]

/-- No access of the sequence is `bad`, so none that takes place is. -/
theorem not_reaches_of_forall {as : List α} (h : ∀ a ∈ as, ¬ bad a) : ¬ Reaches ok bad as := by
  rintro ⟨a, ha, hbad⟩
  exact h a (mem_of_mem_performed ha) hbad

/-- What is behind a sequence takes place if the whole sequence did. -/
theorem reaches_append {as bs : List α} :
    Reaches ok bad (as ++ bs) ↔
      Reaches ok bad as ∨ (∀ a ∈ as, ok a) ∧ Reaches ok bad bs := by
  induction as with
  | nil => simp
  | cons a as ih =>
    rw [List.cons_append, reaches_cons, reaches_cons, ih, List.forall_mem_cons]
    constructor
    · rintro ⟨ha, hbad | hreach | ⟨hall, hreach⟩⟩
      · exact Or.inl ⟨ha, Or.inl hbad⟩
      · exact Or.inl ⟨ha, Or.inr hreach⟩
      · exact Or.inr ⟨⟨ha, hall⟩, hreach⟩
    · rintro (⟨ha, hbad | hreach⟩ | ⟨⟨ha, hall⟩, hreach⟩)
      · exact ⟨ha, Or.inl hbad⟩
      · exact ⟨ha, Or.inr (Or.inl hreach)⟩
      · exact ⟨ha, Or.inr (Or.inr ⟨hall, hreach⟩)⟩

/-- A head that runs to its end and is nowhere `bad` can be left out. -/
theorem reaches_append_of_forall {as bs : List α} (hok : ∀ a ∈ as, ok a)
    (hbad : ∀ a ∈ as, ¬ bad a) : Reaches ok bad (as ++ bs) ↔ Reaches ok bad bs := by
  rw [reaches_append, or_iff_right (not_reaches_of_forall hbad), and_iff_right hok]

/-- A loop performs a `bad` access in some round, with every earlier round run to its end. -/
theorem reaches_flatMap_range {n : ℕ} {f : ℕ → List α} :
    Reaches ok bad ((List.range n).flatMap f) ↔
      ∃ k < n, (∀ i < k, ∀ a ∈ f i, ok a) ∧ Reaches ok bad (f k) := by
  induction n with
  | zero => simp
  | succ n ih =>
    have hall : (∀ a ∈ (List.range n).flatMap f, ok a) ↔ ∀ i < n, ∀ a ∈ f i, ok a := by
      simp only [List.mem_flatMap, List.mem_range]
      exact ⟨fun h i hi a ha => h a ⟨i, hi, ha⟩, fun h a ⟨i, hi, ha⟩ => h i hi a ha⟩
    rw [List.range_succ, List.flatMap_append, reaches_append, ih, hall, List.flatMap_singleton]
    constructor
    · rintro (⟨k, hk, h⟩ | h)
      · exact ⟨k, Nat.lt_succ_of_lt hk, h⟩
      · exact ⟨n, Nat.lt_succ_self n, h⟩
    · rintro ⟨k, hk, h⟩
      rcases Nat.lt_succ_iff_lt_or_eq.mp hk with hlt | rfl
      · exact Or.inl ⟨k, hlt, h⟩
      · exact Or.inr h

end Checked
