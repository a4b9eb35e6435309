import Mathlib.Data.Option.Basic

/-!
# Runs of a partial step function

A system is a step function `step : σ → α → Option σ`: `step s a` is the state after the action
`a`, and `none` where `a` is not enabled in `s`. A run follows a schedule of actions, so a
statement about every interleaving is a statement about every list of actions.

`Guarded ok` restricts attention to the schedules whose every action meets `ok` in the state it is
taken from. `run_invariant_of_guarded` is the induction every safety proof uses: an invariant that
holds at the start and survives each guarded step holds in the state reached.
-/

namespace Transition

variable {σ α : Type*} {step : σ → α → Option σ}

/-- Follow the schedule from a state; `none` as soon as an action is not enabled. -/
def run (step : σ → α → Option σ) : σ → List α → Option σ
  | s, [] => some s
  | s, a :: as => (step s a).bind fun s' => run step s' as

@[simp] theorem run_nil (s : σ) : run step s [] = some s := rfl

/-- The first action, and the others from where it leads. -/
theorem run_cons (s : σ) (a : α) (as : List α) :
    run step s (a :: as) = (step s a).bind fun s' => run step s' as := rfl

/-- A run of `a :: as` is a step of `a` followed by a run of `as`. -/
theorem run_cons_eq_some {s t : σ} {a : α} {as : List α} :
    run step s (a :: as) = some t ↔ ∃ s', step s a = some s' ∧ run step s' as = some t := by
  rw [run_cons, Option.bind_eq_some_iff]

theorem run_append (s : σ) (as bs : List α) :
    run step s (as ++ bs) = (run step s as).bind fun s' => run step s' bs := by
  induction as generalizing s with
  | nil => rfl
  | cons a as ih =>
    rw [List.cons_append, run_cons, run_cons, Option.bind_assoc]
    exact congrArg (step s a).bind (funext ih)

/-- A run of two schedules, one after the other. -/
theorem run_append_of_eq_some {s t : σ} {as : List α} (h : run step s as = some t) (bs : List α) :
    run step s (as ++ bs) = run step t bs := by
  rw [run_append, h]
  rfl

/-- Actions that change nothing are run through. -/
theorem run_eq_self {s : σ} {as : List α} (h : ∀ a ∈ as, step s a = some s) :
    run step s as = some s := by
  induction as with
  | nil => rfl
  | cons a as ih =>
    obtain ⟨ha, has⟩ := List.forall_mem_cons.mp h
    rw [run_cons, ha]
    exact ih has

/-- Every action of the schedule meets `ok` in the state it is taken from. -/
def Guarded (ok : σ → α → Prop) (step : σ → α → Option σ) : σ → List α → Prop
  | _, [] => True
  | s, a :: as => ok s a ∧ ∀ s', step s a = some s' → Guarded ok step s' as

/-- Where the guard can be evaluated, so can the guardedness of a schedule. -/
instance decidableGuarded {ok : σ → α → Prop} [∀ s a, Decidable (ok s a)] (s : σ) :
    (as : List α) → Decidable (Guarded ok step s as)
  | [] => inferInstanceAs (Decidable True)
  | a :: as =>
    haveI : Decidable (∀ s', step s a = some s' → Guarded ok step s' as) :=
      match _h : step s a with
      | none => isTrue fun _ hs' => nomatch hs'
      | some t =>
        haveI : Decidable (Guarded ok step t as) := decidableGuarded t as
        decidable_of_iff (Guarded ok step t as)
          ⟨fun ht _ hs' => Option.some.inj hs' ▸ ht, fun hall => hall t rfl⟩
    inferInstanceAs (Decidable (ok s a ∧ ∀ s', step s a = some s' → Guarded ok step s' as))

/-- An invariant that survives every guarded step holds after every guarded run. -/
theorem run_invariant_of_guarded {ok : σ → α → Prop} {inv : σ → Prop}
    (hstep : ∀ s a s', ok s a → step s a = some s' → inv s → inv s') {s t : σ} {as : List α}
    (hok : Guarded ok step s as) (hrun : run step s as = some t) (hs : inv s) : inv t := by
  induction as generalizing s with
  | nil =>
    rw [run_nil, Option.some.injEq] at hrun
    exact hrun ▸ hs
  | cons a as ih =>
    obtain ⟨s', ha, has⟩ := run_cons_eq_some.mp hrun
    exact ih (hok.2 s' ha) has (hstep s a s' hok.1 ha hs)

/-- A guard that admits the actions of a schedule wherever they are taken from admits it. -/
theorem guarded_of_forall {ok : σ → α → Prop} {as : List α} (h : ∀ a ∈ as, ∀ s, ok s a) (s : σ) :
    Guarded ok step s as := by
  induction as generalizing s with
  | nil => trivial
  | cons a as ih =>
    obtain ⟨ha, has⟩ := List.forall_mem_cons.mp h
    exact ⟨ha s, fun s' _ => ih has s'⟩

/-- What a guard gives for a step, under an invariant that it keeps, it gives for every step of a
run. -/
theorem Guarded.imp {P Q : σ → α → Prop} {inv : σ → Prop}
    (himp : ∀ s a, inv s → Q s a → P s a)
    (hstep : ∀ s a s', Q s a → step s a = some s' → inv s → inv s') {s : σ} {as : List α}
    (h : Guarded Q step s as) (hs : inv s) : Guarded P step s as := by
  induction as generalizing s with
  | nil => trivial
  | cons a as ih =>
    refine ⟨himp s a hs h.1, fun s' ha => ?_⟩
    exact ih (h.2 s' ha) (hstep s a s' h.1 ha hs)

/-- An invariant that survives every step holds after every run. -/
theorem run_invariant {inv : σ → Prop}
    (hstep : ∀ s a s', step s a = some s' → inv s → inv s') {s t : σ} {as : List α}
    (hrun : run step s as = some t) (hs : inv s) : inv t :=
  run_invariant_of_guarded (fun s a s' _ => hstep s a s')
    (guarded_of_forall (fun _ _ _ => trivial) s) hrun hs

/-- What every step outside the guard leads to, and no step leads out of, is where a run ends that
is not guarded. -/
theorem run_of_not_guarded {ok : σ → α → Prop} {inv : σ → Prop}
    (hleave : ∀ s a s', ¬ ok s a → step s a = some s' → inv s')
    (hstep : ∀ s a s', step s a = some s' → inv s → inv s') {s t : σ} {as : List α}
    (hok : ¬ Guarded ok step s as) (hrun : run step s as = some t) : inv t := by
  induction as generalizing s with
  | nil => exact absurd trivial hok
  | cons a as ih =>
    obtain ⟨s', ha, has⟩ := run_cons_eq_some.mp hrun
    by_cases hs : ok s a
    · refine ih (fun hrest => hok ⟨hs, fun u hu => ?_⟩) has
      obtain rfl := Option.some.inj (ha.symm.trans hu)
      exact hrest
    · exact run_invariant (fun s a s' => hstep s a s') has (hleave s a s' hs ha)

/-- **Simulation.** Where every guarded step is matched by a run of another system, so is every
guarded run. -/
theorem run_simulates {τ β : Type*} {step' : τ → β → Option τ} {ok : σ → α → Prop}
    {R : σ → τ → Prop}
    (hstep : ∀ s a s' t, ok s a → step s a = some s' → R s t →
      ∃ bs t', run step' t bs = some t' ∧ R s' t')
    {s s' : σ} {t : τ} {as : List α} (hok : Guarded ok step s as)
    (hrun : run step s as = some s') (hR : R s t) :
    ∃ bs t', run step' t bs = some t' ∧ R s' t' := by
  induction as generalizing s t with
  | nil =>
    obtain rfl := Option.some.inj hrun
    exact ⟨[], t, rfl, hR⟩
  | cons a as ih =>
    obtain ⟨s₁, ha, has⟩ := run_cons_eq_some.mp hrun
    obtain ⟨bs, t₁, hbs, hR₁⟩ := hstep s a s₁ t hok.1 ha hR
    obtain ⟨cs, t', hcs, hR'⟩ := ih (hok.2 s₁ ha) has hR₁
    exact ⟨bs ++ cs, t', (run_append_of_eq_some hbs cs).trans hcs, hR'⟩

/-- A property of the schedule so far and the state it has led to, kept by every step. -/
theorem run_history_from {inv : List α → σ → Prop}
    (hstep : ∀ as s a s', step s a = some s' → inv as s → inv (as ++ [a]) s') {s t : σ}
    {before as : List α} (hrun : run step s as = some t) (hs : inv before s) :
    inv (before ++ as) t := by
  induction as generalizing s before with
  | nil =>
    obtain rfl := Option.some.inj hrun
    rwa [List.append_nil]
  | cons a as ih =>
    obtain ⟨s', ha, has⟩ := run_cons_eq_some.mp hrun
    rw [List.append_cons]
    exact ih has (hstep before s a s' ha hs)

/-- An invariant of the history and the state, from the start of the run. -/
theorem run_history {inv : List α → σ → Prop}
    (hstep : ∀ as s a s', step s a = some s' → inv as s → inv (as ++ [a]) s') {s t : σ}
    {as : List α} (hrun : run step s as = some t) (hs : inv [] s) : inv as t := by
  have h : inv ([] ++ as) t := run_history_from hstep hrun hs
  exact h

/-- A property that does not hold at the start and holds at the end sets in at some step. -/
theorem exists_step_of_run {P : σ → Prop} {s t : σ} {as : List α} (hrun : run step s as = some t)
    (hs : ¬ P s) (ht : P t) :
    ∃ as₁ a as₂ s₁ s₂, as = as₁ ++ a :: as₂ ∧ run step s as₁ = some s₁ ∧ ¬ P s₁ ∧
      step s₁ a = some s₂ ∧ P s₂ := by
  induction as generalizing s with
  | nil =>
    obtain rfl := Option.some.inj hrun
    exact absurd ht hs
  | cons a as ih =>
    obtain ⟨s', ha, has⟩ := run_cons_eq_some.mp hrun
    by_cases hs' : P s'
    · exact ⟨[], a, as, s, s', rfl, rfl, hs, ha, hs'⟩
    · obtain ⟨as₁, b, as₂, s₁, s₂, rfl, hrun₁, hs₁, hb, hs₂⟩ := ih has hs'
      refine ⟨a :: as₁, b, as₂, s₁, s₂, rfl, ?_, hs₁, hb, hs₂⟩
      exact run_cons_eq_some.mpr ⟨s', ha, hrun₁⟩

/-! ## What happened since -/

section Since

variable {mark : α → Prop} {P Q : σ → α → Prop}

/-- An action with the property `P` is taken, and no marked action is taken then or later. -/
def Since (step : σ → α → Option σ) (mark : α → Prop) (P : σ → α → Prop) : σ → List α → Prop
  | _, [] => False
  | s, a :: as =>
    (P s a ∧ ∀ b ∈ a :: as, ¬ mark b) ∨ ∃ s' ∈ step s a, Since step mark P s' as

instance decidableSince [DecidablePred mark] [∀ s a, Decidable (P s a)] (s : σ) :
    (as : List α) → Decidable (Since step mark P s as)
  | [] => inferInstanceAs (Decidable False)
  | a :: as =>
    haveI : ∀ s', Decidable (Since step mark P s' as) := fun s' => decidableSince s' as
    inferInstanceAs (Decidable (_ ∨ ∃ s' ∈ step s a, Since step mark P s' as))

/-- What came last was the one or the other. -/
theorem since_or {s : σ} {as : List α} (h : Since step mark (fun s a => P s a ∨ Q s a) s as) :
    Since step mark P s as ∨ Since step mark Q s as := by
  induction as generalizing s with
  | nil => exact h.elim
  | cons a as ih =>
    rcases h with ⟨hP | hQ, hno⟩ | ⟨s', hs', h⟩
    · exact Or.inl (Or.inl ⟨hP, hno⟩)
    · exact Or.inr (Or.inl ⟨hQ, hno⟩)
    · exact (ih h).imp (fun h => Or.inr ⟨s', hs', h⟩) fun h => Or.inr ⟨s', hs', h⟩

/-- **What a mark leaves pending** stays so until an action with the property `P` is taken: after a
run with a mark it is still pending, or such an action was taken since the last mark. -/
theorem pending_or_since [DecidablePred mark] {pending : σ → Prop}
    (hmark : ∀ s a s', mark a → step s a = some s' → pending s')
    (hstep : ∀ s a s', ¬ mark a → step s a = some s' → pending s → pending s' ∨ P s a)
    {s t : σ} {as : List α} (hrun : run step s as = some t)
    (h : pending s ∨ ∃ a ∈ as, mark a) : pending t ∨ Since step mark P s as := by
  induction as generalizing s with
  | nil =>
    obtain rfl := Option.some.inj hrun
    refine h.imp id ?_
    rintro ⟨a, ha, -⟩
    exact absurd ha List.not_mem_nil
  | cons a as ih =>
    obtain ⟨s', ha, has⟩ := run_cons_eq_some.mp hrun
    have hrest : pending s' ∨ (∃ b ∈ as, mark b) → pending t ∨ Since step mark P s (a :: as) :=
      fun h => (ih has h).imp id fun h => Or.inr ⟨s', ha, h⟩
    by_cases hlater : ∃ b ∈ as, mark b
    · exact hrest (Or.inr hlater)
    · by_cases hnow : mark a
      · exact hrest (Or.inl (hmark s a s' hnow ha))
      -- no mark is left, so it is pending already
      · have hnone : ∀ b ∈ a :: as, ¬ mark b :=
          List.forall_mem_cons.mpr ⟨hnow, fun b hb hm => hlater ⟨b, hb, hm⟩⟩
        have hpending : pending s := h.resolve_right fun ⟨b, hb, hm⟩ => hnone b hb hm
        rcases hstep s a s' hnow ha hpending with hkept | hP
        · exact hrest (Or.inl hkept)
        · exact Or.inr (Or.inl ⟨hP, hnone⟩)

end Since

end Transition
