import RgspCast.Host.VideoStream

/-!
# The IDR budget

At most one IDR is forced for loss recovery per interval. The limiter's time is read after the check
and before the next one, so the calls of `request_idr` are an interval apart whatever the clock does
in between (`Inv.spaced`); a reset bypasses the check but re-arms it. Every call uses up a request,
and a frame is encoded between any two of them. `idr_budget` puts these together for every run.
-/

namespace RgspCast.VideoStream

open Transition

/-- An IDR forced for an idr request comes an interval after every earlier one. -/
def Spaced (s : State) : Prop :=
  s.forced.Pairwise fun earlier later =>
    later.cause = .idr → earlier.time + minIdrInterval ≤ later.time

/-- A frame is encoded between any two calls of `request_idr`. -/
def OncePerFrame (s : State) : Prop :=
  s.forced.Pairwise fun earlier later => earlier.frame < later.frame

/-- An iteration that observes a reset encodes next the frame 1, with an IDR forced. -/
def ResetForces (s : State) : Prop :=
  s.reset = true → ∀ call mark bs now instant back t,
    (∀ b ∈ bs, ∀ now instant back ok, b ≠ .next now instant back ok) →
      run step s (.swapReset call mark :: bs ++ [.next now instant back true]) = some t →
        ∃ f, t.sent = s.sent ++ [f] ∧ f.frameNumber = 1 ∧ f.forced = true

/-- What every state of the loop keeps. -/
structure Inv (s : State) : Prop where
  spaced : Spaced s
  oncePerFrame : OncePerFrame s
  /-- The limiter's time is behind every call, and not ahead of the clock. -/
  marked : ∀ f ∈ s.forced, f.time ≤ s.lastIdr
  lastIdr_le : s.lastIdr ≤ s.clock
  frame_le : ∀ f ∈ s.forced, f.frame ≤ s.sent.length
  /-- The frames of earlier iterations have been encoded. -/
  frame_lt : s.phase = .top ∨ s.phase = .noReset ∨ s.phase = .sending →
    ∀ f ∈ s.forced, f.frame < s.sent.length
  /-- A request that has not been taken up yet is not spent. -/
  budget : s.forced.length + s.reset.toNat + s.idr.toNat ≤ s.requests

variable {s s' t : State} {a : Action}

/-- A call of `request_idr` keeps the invariant: all frames so far are encoded, the request it is
made for is spent, and for an idr request the interval is over. -/
theorem inv_force {cause : Cause} {call mark : ℤ} (hs : Inv s)
    (hphase : s.phase = .top ∨ s.phase = .noReset ∨ s.phase = .sending)
    (hcall : s.clock ≤ call) (hmark : call ≤ mark)
    (hover : cause = .idr → s.lastIdr + minIdrInterval ≤ call)
    {r : State} (hr : r.forced = s.forced ∧ r.sent = s.sent)
    (hbudget : r.forced.length + 1 + r.reset.toNat + r.idr.toNat ≤ r.requests) :
    Inv (r.force cause call mark) := by
  obtain ⟨hforced, hsent⟩ := hr
  have hlast := hs.lastIdr_le
  -- the new request is the last of the list, and names the next frame
  have hmem : ∀ f ∈ (r.force cause call mark).forced,
      f ∈ s.forced ∨ f = ⟨call, cause, s.sent.length⟩ := by
    intro f hf
    have : f ∈ r.forced ++ [⟨call, cause, r.sent.length⟩] := hf
    rw [hforced, hsent] at this
    simpa using this
  constructor
  case spaced =>
    show (r.forced ++ [_]).Pairwise _
    rw [hforced, List.pairwise_append]
    refine ⟨hs.spaced, List.pairwise_singleton _ _, fun f hf x hx hcause => ?_⟩
    obtain rfl := List.mem_singleton.mp hx
    -- earlier requests were made by `lastIdr`, which is an interval ago
    exact Int.le_trans (Int.add_le_add_right (hs.marked f hf) _) (hover hcause)
  case oncePerFrame =>
    show (r.forced ++ [_]).Pairwise _
    rw [hforced, hsent, List.pairwise_append]
    refine ⟨hs.oncePerFrame, List.pairwise_singleton _ _, fun f hf x hx => ?_⟩
    obtain rfl := List.mem_singleton.mp hx
    exact hs.frame_lt hphase f hf
  case marked =>
    intro f hf
    show f.time ≤ mark
    rcases hmem f hf with hf | rfl
    · have := hs.marked f hf
      omega
    · exact hmark
  case lastIdr_le => exact Int.le_refl mark
  case frame_le =>
    intro f hf
    show f.frame ≤ r.sent.length
    rw [hsent]
    rcases hmem f hf with hf | rfl
    · exact hs.frame_le f hf
    · exact Nat.le_refl _
  case frame_lt => rintro (h | h | h) <;> cases h
  case budget =>
    show (r.forced ++ [_]).length + r.reset.toNat + r.idr.toNat ≤ r.requests
    rw [List.length_append, List.length_singleton]
    exact hbudget

/-- Every step keeps the invariant, case by case of `step`. -/
theorem inv_step (h : step s a = some s') (hs : Inv s) : Inv s' := by
  have hbudget := hs.budget
  cases a with
  | requestIdr =>
    obtain rfl := Option.some.inj h
    refine { hs with budget := ?_ }
    show s.forced.length + s.reset.toNat + 1 ≤ s.requests + 1
    omega
  | requestReset =>
    obtain rfl := Option.some.inj h
    refine { hs with budget := ?_ }
    show s.forced.length + 1 + s.idr.toNat ≤ s.requests + 1
    omega
  | swapReset call mark =>
    obtain ⟨⟨hphase, hcall, hmark⟩, ⟨hflag, rfl⟩ | ⟨-, rfl⟩⟩ := swapReset_eq_some h
    · rw [hflag] at hbudget
      refine inv_force hs (Or.inl hphase) hcall hmark ?_ ⟨rfl, rfl⟩ ?_
      · exact fun hcause => nomatch hcause
      · show s.forced.length + 1 + 0 + s.idr.toNat ≤ s.requests
        simpa using hbudget
    · exact { hs with frame_lt := fun _ => hs.frame_lt (Or.inl hphase) }
  | swapIdr check call mark =>
    obtain ⟨⟨hphase, hcheck, hcall, hmark⟩,
      ⟨⟨hflag, hover⟩, rfl⟩ | ⟨⟨hflag, -⟩, rfl⟩ | ⟨-, rfl⟩⟩ := swapIdr_eq_some h
    · rw [hflag] at hbudget
      refine inv_force hs (Or.inr (Or.inl hphase)) (Int.le_trans hcheck hcall) hmark
        (fun _ => by omega) ⟨rfl, rfl⟩ ?_
      show s.forced.length + 1 + s.reset.toNat + 0 ≤ s.requests
      simp only [Bool.toNat_true] at hbudget
      omega
    · -- coalesced
      rw [hflag] at hbudget
      exact {
        hs with
        lastIdr_le := Int.le_trans hs.lastIdr_le hcheck
        frame_lt := by rintro (h | h | h) <;> cases h
        budget := Nat.le_trans (Nat.le_add_right _ 1) hbudget }
    · exact { hs with frame_lt := by rintro (h | h | h) <;> cases h }
  | next now instant back ok =>
    obtain ⟨⟨-, hnow, hinstant, hback⟩, ⟨-, rfl⟩ | ⟨-, rfl⟩⟩ := next_eq_some h
    · have hlt : ∀ f ∈ s.forced, f.frame < (s.sent ++ [s.frame instant]).length := by
        intro f hf
        have := hs.frame_le f hf
        rw [List.length_append, List.length_singleton]
        omega
      exact {
        hs with
        lastIdr_le := by
          have := hs.lastIdr_le
          show s.lastIdr ≤ back
          omega
        frame_le := fun f hf => Nat.le_of_lt (hlt f hf)
        frame_lt := fun _ => hlt }
    · exact {
        hs with
        lastIdr_le := by
          have := hs.lastIdr_le
          show s.lastIdr ≤ back
          omega
        frame_lt := by rintro (h | h | h) <;> cases h }
  | send back ok =>
    obtain ⟨⟨hphase, hback⟩, rfl⟩ := Option.ite_some_none_eq_some.mp h
    exact {
      hs with
      lastIdr_le := Int.le_trans hs.lastIdr_le hback
      frame_lt := fun _ => hs.frame_lt (Or.inr (Or.inr hphase)) }

/-- No request has been made, and no key frame forced. -/
theorem inv_start (cfg : VideoConfig) (opened now : ℤ) : Inv (.start cfg opened now) where
  spaced := List.Pairwise.nil
  oncePerFrame := List.Pairwise.nil
  marked _ hf := absurd hf List.not_mem_nil
  lastIdr_le := by
    show now - minIdrInterval ≤ now
    unfold minIdrInterval
    omega
  frame_le _ hf := absurd hf List.not_mem_nil
  frame_lt _ _ hf := absurd hf List.not_mem_nil
  budget := Nat.le_refl 0

/-! ## Resets -/

/-- An iteration that observed a reset is about to encode its frame. -/
structure Awaiting (sent : List SentFrame) (s : State) : Prop where
  phase : s.phase = .capture (some .reset)
  frameNumber : s.frameNumber = 0
  forceIdr : s.capture.forceIdr = true
  sent : s.sent = sent

/-- Only requests are made before `next` is called. -/
theorem awaiting_step {sent : List SentFrame}
    (hno : ∀ now instant back ok, a ≠ .next now instant back ok) (h : step s a = some s')
    (hs : Awaiting sent s) : Awaiting sent s' := by
  -- while a frame is awaited the loop's own swaps and sends do not run
  cases a with
  | requestIdr =>
    obtain rfl := Option.some.inj h
    exact { hs with }
  | requestReset =>
    obtain rfl := Option.some.inj h
    exact { hs with }
  | swapReset call mark =>
    obtain ⟨⟨hphase, -⟩, -⟩ := swapReset_eq_some h
    cases hs.phase.symm.trans hphase
  | swapIdr check call mark =>
    obtain ⟨⟨hphase, -⟩, -⟩ := swapIdr_eq_some h
    cases hs.phase.symm.trans hphase
  | next now instant back ok => exact absurd rfl (hno now instant back ok)
  | send back ok =>
    obtain ⟨⟨hphase, -⟩, -⟩ := Option.ite_some_none_eq_some.mp h
    cases hs.phase.symm.trans hphase

/-- A reset that is taken out of its flag waits for a frame. -/
theorem awaiting_swapReset {call mark : ℤ} (hflag : s.reset = true)
    (h : step s (.swapReset call mark) = some s') : Awaiting s.sent s' := by
  obtain ⟨-, ⟨-, rfl⟩ | ⟨hunset, -⟩⟩ := swapReset_eq_some h
  · exact ⟨rfl, rfl, rfl, rfl⟩
  · exact absurd (hunset.symm.trans hflag) Bool.false_ne_true

/-- That frame is forced, in every reachable state. -/
theorem resetForces (s : State) : ResetForces s := by
  intro hflag call mark bs now instant back t hbs hrun
  rw [run_append, Option.bind_eq_some_iff] at hrun
  obtain ⟨u, hu, hnext⟩ := hrun
  obtain ⟨r, hswap, hrest⟩ := run_cons_eq_some.mp hu
  have hawait : Awaiting s.sent u :=
    run_invariant_of_guarded (fun _ _ _ hok hstep => awaiting_step hok hstep)
      (guarded_of_forall (fun b hb _ => hbs b hb) r) hrest (awaiting_swapReset hflag hswap)
  obtain ⟨t', hstep, ht⟩ := run_cons_eq_some.mp hnext
  obtain rfl := Option.some.inj ht
  obtain ⟨-, rfl⟩ := Option.ite_some_none_eq_some.mp hstep
  refine ⟨u.frame instant, congrArg (· ++ _) hawait.sent, ?_, hawait.forceIdr⟩
  show (u.frameNumber + 1).toUInt32 = 1
  rw [hawait.frameNumber]
  rfl

/-- **The IDR budget**, at every moment of every run: an IDR forced for an idr request comes an
interval after every earlier forced one, a reset that is observed forces one on the next frame,
which is frame 1, no two are forced for one frame, and none without a request. -/
theorem idr_budget {cfg : VideoConfig} {opened now : ℤ} {as : List Action} {s : State}
    (hrun : run step (.start cfg opened now) as = some s) :
    Spaced s ∧ ResetForces s ∧ OncePerFrame s ∧ s.forced.length ≤ s.requests := by
  have hinv : Inv s := run_invariant (fun _ _ _ => inv_step) hrun (inv_start cfg opened now)
  refine ⟨hinv.spaced, resetForces s, hinv.oncePerFrame, ?_⟩
  have := hinv.budget
  omega

/-- Two idr requests around a reset: the second one is coalesced, since the reset re-armed the
limiter. -/
def coalesced : List Action :=
  [.requestIdr, .swapReset 10 10, .swapIdr 10 10 12, .next 12 12 20 true, .send 20 true,
    .requestReset, .swapReset 700000000 700000001, .requestIdr,
    .next 700000001 700000002 700000003 true, .send 700000003 true,
    .swapReset 800000000 800000000, .swapIdr 800000000 800000000 800000000,
    .next 800000000 800000000 800000000 true]

/-- Three requests, two forced frames. -/
theorem idr_budget_coalesced :
    ∃ s, run step (.start (videoConfig moonlight) 0 0) coalesced = some s ∧
      s.forced.map (·.cause) = [.idr, .reset] ∧ s.requests = 3 ∧
      s.sent.map (·.frameNumber) = [1, 1, 2] ∧
      Spaced s ∧ ResetForces s ∧ OncePerFrame s ∧ s.forced.length ≤ s.requests :=
  ⟨_, rfl, by decide, by decide, by decide,
    @idr_budget (videoConfig moonlight) 0 0 coalesced _ rfl⟩

end RgspCast.VideoStream
