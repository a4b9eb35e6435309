import Mathlib.Algebra.GroupWithZero.Nat
import Mathlib.Data.List.Nodup
import Mathlib.Algebra.Group.Int.Defs

/-!
# Processes, and the pids that name them

A pid names a process for as long as the process lives, and may name another one afterwards. The
table lists the living processes; `targets` are those a `kill(2)` addresses, and `parsePid` is how
a pidfile's text becomes the argument of one.
-/

namespace RgspCast.Processes

/-- A process, by the pid it writes into the file. `id` tells it from the others of its pid. -/
structure Process where
  id : ℕ
  pid : ℕ
  group : ℕ
  deriving DecidableEq, Repr

/-- The pids a process can have. -/
def IsPid (n : ℕ) : Prop := 0 < n ∧ n < 2 ^ 31

instance (n : ℕ) : Decidable (IsPid n) := inferInstanceAs (Decidable (_ ∧ _))

/-! ## `kill(2)` -/

/-- Whether `kill(pid, _)` of a privileged caller addresses the process: the one of that pid, the
caller's group, everyone but init and the caller, or another group. -/
def addressed (caller : Process) (pid : ℤ) (p : Process) : Bool :=
  if 0 < pid then p.pid = pid
  else if pid = 0 then p.group = caller.group
  else if pid = -1 then p.pid ≠ 1 ∧ p ≠ caller
  else p.group = -pid

/-- The processes a signal is sent to. -/
def targets (table : List Process) (caller : Process) (pid : ℤ) : List Process :=
  table.filter (addressed caller pid)

/-- A positive pid addresses nobody, or the one process that has it. -/
theorem targets_eq_nil_or_singleton {table : List Process} {caller p : Process} {n : ℕ}
    (hn : 0 < n) (htable : (table.map (·.pid)).Nodup) (hp : ∀ q ∈ table, q.pid = n → q = p) :
    targets table caller n = [] ∨ targets table caller n = [p] := by
  have hall : ∀ q ∈ targets table caller n, q = p := by
    intro q hq
    obtain ⟨hmem, haddr⟩ := List.mem_filter.mp hq
    rw [addressed, if_pos (by exact_mod_cast hn)] at haddr
    exact hp q hmem (by exact_mod_cast of_decide_eq_true haddr)
  have hrep := List.eq_replicate_of_mem hall
  have hnodup : (targets table caller n).Nodup := (List.Nodup.of_map _ htable).filter _
  rw [hrep, List.nodup_replicate] at hnodup
  rw [hrep]
  rcases Nat.le_one_iff_eq_zero_or_eq_one.mp hnodup with h | h
  · exact Or.inl (by rw [h]; rfl)
  · exact Or.inr (by rw [h]; rfl)

/-! ## The text of a pidfile -/

/-- Unicode's `White_Space`, as `char::is_whitespace` has it. -/
def isWhitespace (c : Char) : Bool :=
  9 ≤ c.toNat ∧ c.toNat ≤ 13 ∨ 0x2000 ≤ c.toNat ∧ c.toNat ≤ 0x200A ∨
    c.toNat ∈ [0x20, 0x85, 0xA0, 0x1680, 0x2028, 0x2029, 0x202F, 0x205F, 0x3000]

/-- `str::trim`. -/
def trim (cs : List Char) : List Char :=
  ((cs.dropWhile isWhitespace).reverse.dropWhile isWhitespace).reverse

def parseDigits (cs : List Char) : Option ℕ :=
  if cs ≠ [] ∧ cs.all Char.isDigit then some (Nat.ofDigitChars 10 cs 0) else none

/-- A decimal with an optional sign. -/
def parseInt : List Char → Option ℤ
  | '-' :: cs => (parseDigits cs).map fun n : ℕ => -(n : ℤ)
  | '+' :: cs => (parseDigits cs).map fun n : ℕ => (n : ℤ)
  | cs => (parseDigits cs).map fun n : ℕ => (n : ℤ)

/-- `contents.trim().parse::<pid_t>()`; a value that does not fit is an error. -/
def parsePid (text : String) : Option ℤ :=
  (parseInt (trim text.toList)).filter fun n => -2 ^ 31 ≤ n ∧ n < 2 ^ 31

/-- A digit is no white space. -/
theorem not_isWhitespace_of_isDigit {c : Char} (h : c.isDigit = true) :
    isWhitespace c = false := by
  have hc : 48 ≤ c.toNat ∧ c.toNat ≤ 57 := by
    rw [Char.isDigit, Bool.and_eq_true, decide_eq_true_eq, decide_eq_true_eq] at h
    exact h
  refine decide_eq_false ?_
  simp only [List.mem_cons, List.not_mem_nil, or_false]
  omega

/-- Digits alone are not trimmed. -/
theorem trim_of_digits {cs : List Char} (h : ∀ c ∈ cs, c.isDigit = true) : trim cs = cs := by
  have hdrop : ∀ l : List Char, (∀ c ∈ l, c.isDigit = true) → l.dropWhile isWhitespace = l := by
    intro l hl
    cases l with
    | nil => rfl
    | cons c l =>
      have hc : ¬ isWhitespace c = true := by
        rw [not_isWhitespace_of_isDigit (hl c List.mem_cons_self)]
        exact Bool.false_ne_true
      exact List.dropWhile_cons_of_neg hc
  unfold trim
  rw [hdrop cs h, hdrop _ fun c hc => h c (List.mem_reverse.mp hc), List.reverse_reverse]

/-- A text that starts with a digit has no sign. -/
theorem parseInt_of_digits {cs : List Char} (h : ∀ c ∈ cs, c.isDigit = true) :
    parseInt cs = (parseDigits cs).map fun n : ℕ => (n : ℤ) := by
  unfold parseInt
  split
  next => exact absurd (h '-' List.mem_cons_self) (by decide)
  next => exact absurd (h '+' List.mem_cons_self) (by decide)
  next => rfl

/-- What a process writes about itself is read as its pid. -/
theorem parsePid_toString {n : ℕ} (hn : IsPid n) : parsePid (toString n) = some (n : ℤ) := by
  have hdigits : ∀ c ∈ Nat.toDigits 10 n, c.isDigit = true := fun c hc =>
    Nat.isDigit_of_mem_toDigits (by decide) (by decide) hc
  have hparse : parseDigits (Nat.toDigits 10 n) = some n := by
    unfold parseDigits
    rw [if_pos ⟨Nat.toDigits_ne_nil, List.all_eq_true.mpr hdigits⟩, Nat.ofDigitChars_ten_toDigits]
  have htext : (toString n).toList = Nat.toDigits 10 n := Nat.toList_repr
  unfold parsePid
  rw [htext, trim_of_digits hdigits, parseInt_of_digits hdigits, hparse, Option.map_some]
  refine Option.filter_some_pos (decide_eq_true ?_)
  obtain ⟨hpos, hlt⟩ := hn
  constructor <;> omega

/-- A file that has just been truncated names nobody. -/
theorem parsePid_empty : parsePid "" = none := rfl

end RgspCast.Processes
