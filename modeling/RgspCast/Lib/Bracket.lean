import RgspCast.Lib.Transition

/-!
# Bracketed traces

Some events of a trace take a resource, some give one back. `token` says which is which. A trace is
`Balanced` where every resource taken is given back exactly once and in the reverse order. The
stack of what is held (`step`) decides that as the trace goes: a resource can be given back only
where it is the last one taken, and a trace that leaves nothing held is balanced
(`balanced_of_run`).
-/

namespace Bracket

open Transition

variable {ε ρ : Type*}

/-- What an event does to a resource. -/
inductive Token (ρ : Type*) where
  | opens (r : ρ)
  | closes (r : ρ)

/-- Every resource is given back once, in the reverse order of taking. -/
inductive Balanced (token : ε → Option (Token ρ)) : List ε → Prop where
  | nil : Balanced token []
  | neutral {e : ε} {t : List ε} (he : token e = none) (h : Balanced token t) :
      Balanced token (e :: t)
  | bracket {e e' : ε} {r : ρ} {t t' : List ε} (he : token e = some (.opens r))
      (h : Balanced token t) (he' : token e' = some (.closes r)) (h' : Balanced token t') :
      Balanced token (e :: (t ++ e' :: t'))

/-- What is held after an event, the last resource first; `none` where the event gives back
another one than the last. -/
def step [DecidableEq ρ] (token : ε → Option (Token ρ)) (st : List ρ) (e : ε) :
    Option (List ρ) :=
  match token e with
  | none => some st
  | some (.opens r) => some (r :: st)
  | some (.closes r) =>
    match st with
    | [] => none
    | r' :: st => if r = r' then some st else none

/-- A trace that gives back everything in `st`, in order, and is balanced in between. -/
inductive Unwinds (token : ε → Option (Token ρ)) : List ρ → List ε → Prop where
  | done {t : List ε} (h : Balanced token t) : Unwinds token [] t
  | undo {r : ρ} {st : List ρ} {e : ε} {t t' : List ε} (h : Balanced token t)
      (he : token e = some (.closes r)) (h' : Unwinds token st t') :
      Unwinds token (r :: st) (t ++ e :: t')

variable {token : ε → Option (Token ρ)} {st : List ρ} {t : List ε}

/-- What can be put in front of every balanced trace can be put in front of an unwinding. -/
theorem Unwinds.prepend {p : List ε} (h : Unwinds token st t)
    (hp : ∀ t, Balanced token t → Balanced token (p ++ t)) : Unwinds token st (p ++ t) := by
  cases h with
  | done h => exact .done (hp _ h)
  | undo h he h' =>
    rw [← List.append_assoc]
    exact .undo (hp _ h) he h'

/-- What is held is given back by the end of a trace that leaves nothing held. -/
theorem unwinds_of_run [DecidableEq ρ] (h : run (step token) st t = some []) :
    Unwinds token st t := by
  induction t generalizing st with
  | nil =>
    obtain rfl := Option.some.inj h
    exact .done .nil
  | cons e t ih =>
    obtain ⟨st', hstep, hrest⟩ := run_cons_eq_some.mp h
    have hunwinds := ih hrest
    unfold step at hstep
    split at hstep
    next he =>
      obtain rfl := Option.some.inj hstep
      exact hunwinds.prepend (p := [e]) fun t ht => .neutral he ht
    next r he =>
      obtain rfl := Option.some.inj hstep
      cases hunwinds with
      | @undo _ _ e' t₁ t₂ h₁ he' h₂ =>
        -- the event opens a bracket that is closed in front of `t₂`
        have hbracket := h₂.prepend (p := e :: (t₁ ++ [e'])) fun t ht => by
          rw [List.cons_append, List.append_assoc]
          exact .bracket he h₁ he' ht
        rwa [List.cons_append, List.append_assoc] at hbracket
    next r he =>
      split at hstep
      next => cases hstep
      next r' st' =>
        split at hstep
        next hr =>
          obtain rfl := Option.some.inj hstep
          exact .undo (t := []) .nil (hr ▸ he) hunwinds
        next => cases hstep

/-- **A trace that leaves nothing held is balanced.** -/
theorem balanced_of_run [DecidableEq ρ] (h : run (step token) [] t = some []) :
    Balanced token t := by
  cases unwinds_of_run h with
  | done h => exact h

/-- Events that take nothing and give nothing back. -/
theorem run_neutral [DecidableEq ρ] (h : ∀ e ∈ t, token e = none) :
    run (step token) st t = some st :=
  run_eq_self fun e he => by rw [step, h e he]

end Bracket
