import Mathlib.Data.Nat.Notation
import Mathlib.Data.List.Basic

/-!
# Programs that read a slice

A program that looks at a slice through `get` of a range and `len` alone, as the tree of its
questions. `run` answers them from a list, and `log` lists the places of what the answers held. They
are all in the list (`lt_of_mem_log`), and nothing else in it matters but its length
(`run_of_sameAt`).
-/

/-- A program that reads a slice of `β`s and returns an `α`. -/
inductive Reads (β α : Type) where
  | done (a : α)
  | get (off n : ℕ) (next : Option (List β) → Reads β α)
  | len (next : ℕ → Reads β α)

namespace Reads

variable {α α' β : Type}

/-- `b.get(off..off + n)`. -/
def range (b : List β) (off n : ℕ) : Option (List β) :=
  if off + n ≤ b.length then some ((b.drop off).take n) else none

/-- What the program returns. -/
def run : Reads β α → List β → α
  | done a, _ => a
  | get off n next, b => (next (range b off n)).run b
  | len next, b => (next b.length).run b

/-- The places that are read. A range that does not fit is not read. -/
def log : Reads β α → List β → List ℕ
  | done _, _ => []
  | get off n next, b =>
    (if off + n ≤ b.length then List.range' off n else []) ++ (next (range b off n)).log b
  | len next, b => (next b.length).log b

/-- One program behind another. -/
def andThen : Reads β α → (α → Reads β α') → Reads β α'
  | done a, f => f a
  | get off n next, f => get off n fun r => (next r).andThen f
  | len next, f => len fun n => (next n).andThen f

instance : Monad (Reads β) where
  pure := done
  bind := andThen

@[simp] theorem run_pure (a : α) (b : List β) : (pure a : Reads β α).run b = a := rfl

@[simp] theorem log_pure (a : α) (b : List β) : (pure a : Reads β α).log b = [] := rfl

/-- Programs one after the other. -/
@[simp] theorem run_bind (p : Reads β α) (f : α → Reads β α') (b : List β) :
    (p >>= f).run b = (f (p.run b)).run b := by
  show (p.andThen f).run b = _
  induction p with
  | done a => rfl
  | get off n next ih => exact ih _
  | len next ih => exact ih _

/-- The reads of the first, and then those of the second. -/
@[simp] theorem log_bind (p : Reads β α) (f : α → Reads β α') (b : List β) :
    (p >>= f).log b = p.log b ++ (f (p.run b)).log b := by
  show (p.andThen f).log b = _
  induction p with
  | done a => rfl
  | get off n next ih =>
    simp only [andThen, log, run, ih, List.append_assoc]
  | len next ih => exact ih _

/-- **What is read is there.** -/
theorem lt_of_mem_log {p : Reads β α} {b : List β} {i : ℕ} (h : i ∈ p.log b) : i < b.length := by
  induction p with
  | done a => cases h
  | get off n next ih =>
    rcases List.mem_append.mp h with h | h
    · split_ifs at h with hfit
      · have hlt := (List.mem_range'_1.mp h).2
        omega
      · cases h
    · exact ih _ h
  | len next ih => exact ih _ h

/-- Two lists of one length with the same elements at these places. -/
structure SameAt (places : List ℕ) (b b' : List β) : Prop where
  length : b'.length = b.length
  elements : ∀ i ∈ places, b'[i]? = b[i]?

/-- Agreement at fewer places. -/
theorem SameAt.mono {places places' : List ℕ} {b b' : List β} (h : SameAt places b b')
    (hsub : places' ⊆ places) : SameAt places' b b' :=
  ⟨h.length, fun i hi => h.elements i (hsub hi)⟩

/-- A range whose places agree gives the same answer. -/
theorem SameAt.range {b b' : List β} {off n : ℕ}
    (h : SameAt (if off + n ≤ b.length then List.range' off n else []) b b') :
    range b' off n = range b off n := by
  unfold Reads.range
  rw [h.length]
  split_ifs with hfit
  · refine congrArg some (List.ext_getElem? fun k => ?_)
    rw [List.getElem?_take, List.getElem?_take]
    split_ifs with hk
    · rw [List.getElem?_drop, List.getElem?_drop]
      refine h.elements _ ?_
      rw [if_pos hfit, List.mem_range'_1]
      omega
    · rfl
  · rfl

/-- **Nothing else matters.** -/
theorem run_of_sameAt {p : Reads β α} {b b' : List β} (h : SameAt (p.log b) b b') :
    p.run b' = p.run b := by
  induction p with
  | done a => rfl
  | get off n next ih =>
    have hrange := (h.mono (List.subset_append_left _ _)).range
    rw [run, run, hrange]
    exact ih _ (h.mono (List.subset_append_right _ _))
  | len next ih =>
    rw [run, run, h.length]
    exact ih _ h

end Reads
