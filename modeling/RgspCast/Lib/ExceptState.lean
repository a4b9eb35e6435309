import Mathlib.Data.Nat.Notation

/-!
# A program logic for stateful code with early exits

`Spec P m Q E` is the triple of a program in `EStateM`: from a state that meets `P` it either
returns a value and a state in `Q`, or exits with an error and a state in `E`. The state at an
early exit is kept, as in code that is torn down from wherever it stopped.

One rule for each way a program is put together, and the rules of consequence and conjunction.
`Alike` compares two runs that go on from related states.
-/

namespace ExceptState

variable {ε σ α β : Type}

/-- From a state in `P`, `m` ends in `Q` or exits in `E`. -/
def Spec (P : σ → Prop) (m : EStateM ε σ α) (Q : α → σ → Prop) (E : ε → σ → Prop) : Prop :=
  ∀ s, P s →
    match m s with
    | .ok a s' => Q a s'
    | .error e s' => E e s'

variable {P P' : σ → Prop} {Q Q' : α → σ → Prop} {E E' : ε → σ → Prop}

/-! ## Using a triple -/

/-- A run that returns. -/
theorem Spec.of_ok {m : EStateM ε σ α} (h : Spec P m Q E) {s s' : σ} {a : α} (hs : P s)
    (hrun : m s = .ok a s') : Q a s' := by
  have := h s hs
  rwa [hrun] at this

/-- A run that fails. -/
theorem Spec.of_error {m : EStateM ε σ α} (h : Spec P m Q E) {s s' : σ} {e : ε} (hs : P s)
    (hrun : m s = .error e s') : E e s' := by
  have := h s hs
  rwa [hrun] at this

/-- The rule of consequence. -/
theorem Spec.conseq {m : EStateM ε σ α} (h : Spec P m Q E) (hP : ∀ s, P' s → P s)
    (hQ : ∀ a s, Q a s → Q' a s) (hE : ∀ e s, E e s → E' e s) : Spec P' m Q' E' := by
  intro s hs
  have hrun := h s (hP s hs)
  cases hm : m s with
  | ok a s' =>
    rw [hm] at hrun
    exact hQ a s' hrun
  | error e s' =>
    rw [hm] at hrun
    exact hE e s' hrun

/-- Two triples of one program hold together. -/
theorem Spec.and {m : EStateM ε σ α} (h : Spec P m Q E) (h' : Spec P' m Q' E') :
    Spec (fun s => P s ∧ P' s) m (fun a s => Q a s ∧ Q' a s) (fun e s => E e s ∧ E' e s) := by
  intro s hs
  have hrun := h s hs.1
  have hrun' := h' s hs.2
  cases hm : m s with
  | ok a s' =>
    rw [hm] at hrun hrun'
    exact ⟨hrun, hrun'⟩
  | error e s' =>
    rw [hm] at hrun hrun'
    exact ⟨hrun, hrun'⟩

/-- A stronger precondition is as good. -/
theorem Spec.weaken {m : EStateM ε σ α} (h : Spec P m Q E) (hP : ∀ s, P' s → P s) :
    Spec P' m Q E :=
  h.conseq hP (fun _ _ hq => hq) (fun _ _ he => he)

/-! ## The rules -/

/-- The rule for `pure`. -/
theorem spec_pure {a : α} (h : ∀ s, P s → Q a s) : Spec P (pure a : EStateM ε σ α) Q E :=
  fun s hs => h s hs

/-- The rule for `throw`. -/
theorem spec_throw {e : ε} (h : ∀ s, P s → E e s) : Spec P (throw e : EStateM ε σ α) Q E :=
  fun s hs => h s hs

theorem get_bind_apply (f : σ → EStateM ε σ α) (s : σ) : (get >>= f) s = f s s := rfl

/-- A program goes on from where its first part returns. -/
theorem bind_apply_ok {m : EStateM ε σ β} {f : β → EStateM ε σ α} {s s' : σ} {b : β}
    (h : m s = .ok b s') : (m >>= f) s = f b s' := by
  change EStateM.bind m f s = _
  simp only [EStateM.bind, h]

/-- A program ends where its first part exits. -/
theorem bind_apply_error {m : EStateM ε σ β} {f : β → EStateM ε σ α} {s s' : σ} {e : ε}
    (h : m s = .error e s') : (m >>= f) s = .error e s' := by
  change EStateM.bind m f s = _
  simp only [EStateM.bind, h]

/-- The rule for `modify`. -/
theorem spec_modify {f : σ → σ} {Q : PUnit → σ → Prop} (h : ∀ s, P s → Q ⟨⟩ (f s)) :
    Spec P (modify f : EStateM ε σ PUnit) Q E :=
  fun s hs => h s hs

/-- The rule of sequence. -/
theorem spec_bind {m : EStateM ε σ β} {f : β → EStateM ε σ α} {R : β → σ → Prop}
    (hm : Spec P m R E) (hf : ∀ b, Spec (R b) (f b) Q E) : Spec P (m >>= f) Q E := by
  intro s hs
  have hrun := hm s hs
  show match EStateM.bind m f s with
    | .ok a s' => Q a s'
    | .error e s' => E e s'
  unfold EStateM.bind
  cases hms : m s with
  | ok b s' =>
    rw [hms] at hrun
    exact hf b s' hrun
  | error e s' =>
    rw [hms] at hrun
    exact hrun

/-- A program that reads the state goes on with the state it read. -/
theorem spec_get_bind {f : σ → EStateM ε σ α} (h : ∀ s, P s → Spec (· = s) (f s) Q E) :
    Spec P (get >>= f) Q E :=
  fun s hs => h s hs s rfl

/-- The rule for a choice. -/
theorem spec_ite {c : Prop} [Decidable c] {m m' : EStateM ε σ α} (hm : c → Spec P m Q E)
    (hm' : ¬ c → Spec P m' Q E) : Spec P (if c then m else m') Q E := by
  by_cases hc : c
  · rw [if_pos hc]
    exact hm hc
  · rw [if_neg hc]
    exact hm' hc

/-- A fact that does not depend on the state is available to the whole program. -/
theorem spec_fact {p : Prop} {m : EStateM ε σ α} (h : p → Spec P m Q E) :
    Spec (fun s => p ∧ P s) m Q E :=
  fun s hs => h hs.1 s hs.2

/-- Run `m` only where `c` holds. -/
def when (c : Prop) [Decidable c] (m : EStateM ε σ Unit) : EStateM ε σ Unit :=
  if c then m else pure ()

/-- The rule for a conditional step. -/
theorem spec_when {c : Prop} [Decidable c] {m : EStateM ε σ Unit} {Q : Unit → σ → Prop}
    (hm : c → Spec P m Q E) (hskip : ¬ c → ∀ s, P s → Q () s) : Spec P (when c m) Q E :=
  spec_ite hm fun hc => spec_pure (hskip hc)

/-! ## Two runs -/

/-- Two runs end alike: with the same value or the same error, in states that are related. -/
def Alike (R : σ → σ → Prop) : EStateM.Result ε σ α → EStateM.Result ε σ α → Prop
  | .ok a s, .ok a' s' => a = a' ∧ R s s'
  | .error e s, .error e' s' => e = e' ∧ R s s'
  | .ok _ _, .error _ _ | .error _ _, .ok _ _ => False

/-- Programs that are alike, one after the other. -/
theorem alike_bind {R : σ → σ → Prop} {m m' : EStateM ε σ β} {f f' : β → EStateM ε σ α} {s s' : σ}
    (hm : Alike R (m s) (m' s')) (hf : ∀ b t t', R t t' → Alike R (f b t) (f' b t')) :
    Alike R ((m >>= f) s) ((m' >>= f') s') := by
  cases hrun : m s with
  | ok b t =>
    cases hrun' : m' s' with
    | ok b' t' =>
      rw [hrun, hrun'] at hm
      obtain ⟨rfl, hR⟩ := hm
      rw [bind_apply_ok hrun, bind_apply_ok hrun']
      exact hf b t t' hR
    | error e' t' =>
      rw [hrun, hrun'] at hm
      exact hm.elim
  | error e t =>
    cases hrun' : m' s' with
    | ok b' t' =>
      rw [hrun, hrun'] at hm
      exact hm.elim
    | error e' t' =>
      rw [hrun, hrun'] at hm
      rw [bind_apply_error hrun, bind_apply_error hrun']
      exact hm

end ExceptState
