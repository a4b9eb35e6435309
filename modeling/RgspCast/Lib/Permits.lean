import Mathlib.Data.List.Induction

/-!
# A notification that keeps one permit

`notify_one` wakes who has waited longest. With nobody waiting it leaves a permit for the next who
comes, and there is never more than one: a call that finds the permit still there is lost.

Who comes goes through in turn (`through_append_queue`), and no permit lies about while somebody
waits (`queue_eq_nil_of_permit`). For two who come, `length_through` says how many have gone
through: what came before the first of them counts once.
-/

namespace Permits

variable {ι : Type*}

/-- Whether there is a permit, and who waits, the longest first. -/
structure Notify (ι : Type*) where
  permit : Bool
  queue : List ι
  deriving DecidableEq, Repr

/-- What happens to a notifier. -/
inductive Act (ι : Type*) where
  /-- `notified().await`, by somebody who comes. -/
  | notified (i : ι)
  | notifyOne
  deriving DecidableEq, Repr

/-- A notifier and who has gone through, in turn. -/
structure State (ι : Type*) extends Notify ι where
  through : List ι
  deriving DecidableEq, Repr

def State.start : State ι := ⟨⟨false, []⟩, []⟩

def step (s : State ι) : Act ι → State ι
  | .notified i =>
    if s.permit then { s with permit := false, through := s.through ++ [i] }
    else { s with queue := s.queue ++ [i] }
  | .notifyOne =>
    match s.queue with
    | [] => { s with permit := true }
    | i :: is => { s with queue := is, through := s.through ++ [i] }

def run (acts : List (Act ι)) : State ι := acts.foldl step .start

/-- Who has come, in turn. -/
def arrivals (acts : List (Act ι)) : List ι :=
  acts.filterMap fun a =>
    match a with
    | .notified i => some i
    | .notifyOne => none

/-- The last act comes last. -/
theorem run_concat (acts : List (Act ι)) (a : Act ι) : run (acts ++ [a]) = step (run acts) a := by
  rw [run, run, List.foldl_append]
  rfl

/-- The arrivals, in order. -/
theorem arrivals_concat (acts : List (Act ι)) (a : Act ι) :
    arrivals (acts ++ [a]) = arrivals acts ++ arrivals [a] := by
  rw [arrivals, List.filterMap_append]
  rfl

/-- No permit lies about while somebody waits. -/
theorem queue_eq_nil_of_permit (acts : List (Act ι)) (h : (run acts).permit = true) :
    (run acts).queue = [] := by
  induction acts using List.reverseRecOn with
  | nil => rfl
  | append_singleton acts a ih =>
    rw [run_concat] at h ⊢
    cases a with
    | notified i =>
      rw [step] at h ⊢
      by_cases hp : (run acts).permit = true
      · rw [if_pos hp]
        exact ih hp
      · rw [if_neg hp] at h
        exact absurd h hp
    | notifyOne =>
      cases hq : (run acts).queue with
      | nil =>
        simp only [step, hq]
      | cons i is =>
        simp only [step, hq] at h
        rw [ih h] at hq
        cases hq

/-- Who has come has gone through or waits, in turn. -/
theorem through_append_queue (acts : List (Act ι)) :
    (run acts).through ++ (run acts).queue = arrivals acts := by
  induction acts using List.reverseRecOn with
  | nil => rfl
  | append_singleton acts a ih =>
    rw [run_concat, arrivals_concat, ← ih]
    cases a with
    | notified i =>
      simp only [step]
      split_ifs with hp
      -- a permit means that nobody waits, so the newcomer is next
      · rw [queue_eq_nil_of_permit acts hp, List.append_nil, List.append_nil]
        rfl
      · rw [List.append_assoc]
        rfl
    | notifyOne =>
      cases hq : (run acts).queue with
      | nil =>
        simp only [step, hq]
        exact (List.append_nil _).symm
      | cons i is =>
        simp only [step, hq, List.append_assoc, List.singleton_append]
        exact congrArg _ (List.append_nil _).symm

/-! ## Two who come -/

/-- Of `n` calls, each wakes one while there is one that waits; a further one leaves a permit. -/
theorem foldl_notifyOne (s : State ι) (n : ℕ) :
    ((List.replicate n .notifyOne).foldl step s).through.length =
        s.through.length + min s.queue.length n ∧
      ((List.replicate n .notifyOne).foldl step s).queue.length = s.queue.length - n ∧
      ((List.replicate n .notifyOne).foldl step s).permit =
        (s.permit || decide (s.queue.length < n)) := by
  induction n generalizing s with
  | zero => simp
  | succ n ih =>
    rw [List.replicate_succ, List.foldl_cons]
    obtain ⟨hthrough, hqueue, hpermit⟩ := ih (step s .notifyOne)
    rw [hthrough, hqueue, hpermit]
    -- with nobody queued a call leaves the permit, else it lets the first one through
    cases hq : s.queue with
    | nil => simp [step, hq]
    | cons i is =>
      have hstep : step s .notifyOne = { s with queue := is, through := s.through ++ [i] } := by
        simp only [step, hq]
      rw [hstep]
      simp only [List.length_append, List.length_cons, List.length_nil, Nat.add_lt_add_iff_right,
        and_true]
      omega

/-- Who comes takes the permit, or waits. -/
theorem step_notified (s : State ι) (i : ι) :
    (step s (.notified i)).through.length = s.through.length + s.permit.toNat ∧
      (step s (.notified i)).queue.length = s.queue.length + (1 - s.permit.toNat) ∧
      (step s (.notified i)).permit = false := by
  rw [step]
  cases s.permit <;> simp

/-- Of two who come, with `e` calls before the first, `m` between them and `n` behind, one goes
through for each call, but the calls before the first count once. -/
theorem length_through (e m n : ℕ) (i j : ι) :
    (run (List.replicate e .notifyOne ++ .notified i :: (List.replicate m .notifyOne ++
      .notified j :: List.replicate n .notifyOne))).through.length =
      min 2 (min e 1 + m + n) := by
  rw [run, List.foldl_append, List.foldl_cons, List.foldl_append, List.foldl_cons]
  have h₁ := foldl_notifyOne (.start : State ι) e
  generalize (List.replicate e (Act.notifyOne : Act ι)).foldl step .start = s₁ at h₁ ⊢
  have h₂ := step_notified s₁ i
  generalize step s₁ (.notified i) = s₂ at h₂ ⊢
  have h₃ := foldl_notifyOne s₂ m
  generalize (List.replicate m (Act.notifyOne : Act ι)).foldl step s₂ = s₃ at h₃ ⊢
  have h₄ := step_notified s₃ j
  generalize step s₃ (.notified j) = s₄ at h₄ ⊢
  obtain ⟨h₅, -⟩ := foldl_notifyOne s₄ n
  -- the rest is arithmetic in what the five parts say about queue, permit and passages
  obtain ⟨ht₁, hq₁, hp₁⟩ := h₁
  obtain ⟨ht₂, hq₂, hp₂⟩ := h₂
  obtain ⟨ht₃, hq₃, hp₃⟩ := h₃
  obtain ⟨ht₄, hq₄, hp₄⟩ := h₄
  have h0 : (State.start : State ι).queue.length = 0 := rfl
  have h0' : (State.start : State ι).through.length = 0 := rfl
  have hs₁ : s₁.permit.toNat = min e 1 := by
    rw [hp₁, h0]
    cases e with
    | zero => rfl
    | succ e => simp [State.start]
  have hs₃ : s₃.permit.toNat = if s₂.queue.length < m then 1 else 0 := by
    rw [hp₃, hp₂, Bool.false_or]
    split_ifs with h
    · rw [decide_eq_true h]
      rfl
    · rw [decide_eq_false h]
      rfl
  split_ifs at hs₃ <;> omega

/-- Without an arrival there are only notifications. -/
theorem eq_replicate_of_arrivals {acts : List (Act ι)} (h : arrivals acts = []) :
    ∃ n, acts = List.replicate n .notifyOne := by
  induction acts with
  | nil => exact ⟨0, rfl⟩
  | cons a acts ih =>
    cases a with
    | notified i => cases h
    | notifyOne =>
      obtain ⟨n, rfl⟩ := ih h
      exact ⟨n + 1, rfl⟩

/-- What comes up to the first arrival. -/
theorem exists_of_arrivals_cons {acts : List (Act ι)} {i : ι} {is : List ι}
    (h : arrivals acts = i :: is) :
    ∃ n rest, acts = List.replicate n .notifyOne ++ .notified i :: rest ∧ arrivals rest = is := by
  induction acts with
  | nil => cases h
  | cons a acts ih =>
    cases a with
    | notified j =>
      obtain ⟨rfl, rfl⟩ := List.cons.inj h
      exact ⟨0, acts, rfl, rfl⟩
    | notifyOne =>
      obtain ⟨n, rest, rfl, hrest⟩ := ih h
      exact ⟨n + 1, rest, rfl, hrest⟩

/-- Where all calls come first, none comes after one who comes. -/
theorem notMem_of_append_eq (e : ℕ) (is : List ι) {before after : List (Act ι)} {k : ι}
    (h : List.replicate e .notifyOne ++ is.map .notified = before ++ .notified k :: after) :
    .notifyOne ∉ after := by
  induction before generalizing e is with
  | nil =>
    cases e with
    | zero =>
      cases is with
      | nil => cases h
      | cons i is =>
        obtain ⟨-, rfl⟩ := List.cons.inj h
        simp
    | succ e => cases h
  | cons a before ih =>
    cases e with
    | zero =>
      cases is with
      | nil => cases h
      | cons i is => exact ih 0 is (List.cons.inj h).2
    | succ e => exact ih e is (List.cons.inj h).2

/-- **Two who come.** After two calls or more, both have gone through exactly if some call came
after one of them: calls that all come too early leave one permit for the two. -/
theorem queue_eq_nil_iff [DecidableEq ι] {acts : List (Act ι)} {i j : ι}
    (harrivals : arrivals acts = [i, j]) (hcalls : 2 ≤ acts.count .notifyOne) :
    (run acts).queue = [] ↔
      ∃ before k after, acts = before ++ .notified k :: after ∧ .notifyOne ∈ after := by
  obtain ⟨e, rest, rfl, hrest⟩ := exists_of_arrivals_cons harrivals
  obtain ⟨m, rest', rfl, hrest'⟩ := exists_of_arrivals_cons hrest
  obtain ⟨n, rfl⟩ := eq_replicate_of_arrivals hrest'
  have hlen := length_through e m n i j
  have hturn := congrArg List.length (through_append_queue (List.replicate e .notifyOne ++
    .notified i :: (List.replicate m .notifyOne ++ .notified j :: List.replicate n .notifyOne)))
  rw [harrivals, List.length_append, hlen] at hturn
  have hcount : ∀ l : ℕ, (List.replicate l (Act.notifyOne : Act ι)).count .notifyOne = l :=
    fun l => List.count_replicate_self
  have hother : ∀ k : ι, (Act.notified k == Act.notifyOne) = false := fun k => rfl
  simp only [List.count_append, List.count_cons, hcount, hother, Bool.false_eq_true, if_false,
    Nat.add_zero] at hcalls
  rw [← List.length_eq_zero_iff]
  change _ = 2 at hturn
  constructor
  · intro hqueue
    rcases Nat.eq_zero_or_pos n with rfl | hn
    · have hm : m ≠ 0 := by omega
      refine ⟨_, i, _, rfl, List.mem_append_left _ (List.mem_replicate.mpr ⟨hm, rfl⟩)⟩
    · refine ⟨_, i, _, rfl, List.mem_append_right _ (List.mem_cons_of_mem _ ?_)⟩
      exact List.mem_replicate.mpr ⟨by omega, rfl⟩
  · rintro ⟨before, k, after, heq, hafter⟩
    -- With no call after the first, nothing follows one who comes.
    by_contra hqueue
    have hm : m = 0 := by omega
    have hn : n = 0 := by omega
    subst hm hn
    exact notMem_of_append_eq e [i, j] heq hafter

end Permits
