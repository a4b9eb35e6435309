import RgspCast.Cedar.Pacing
import RgspCast.Cedar.Session
import RgspCast.Lib.Pacer

/-!
# No burst of frames

`next` waits for the deadline before it reads the panel. A stall can make any call late, and a
sleep can take longer than it was asked to, so the sessions here carry the instants at which each
call read the clock and at which its wait was over. Those are rounds of a pacer (`inv_step`), and so
no backlog is replayed (`no_burst`).
-/

namespace RgspCast.FramePacing

open Cedar Drain Transition Pacer

/-! ## Sessions in time -/

/-- The capture is open and has not failed: the next call of `next` waits for the deadline. -/
def Live (s : Session) : Prop := s.phase = .ready ∧ s.world.cap.failed = none

instance (s : Session) : Decidable (Live s) := inferInstanceAs (Decidable (_ ∧ _))

/-- A session with the last instant at which a wait was over, and all its waits. -/
structure Timed where
  session : Session
  clock : ℤ
  waits : List Round

def Timed.start (args : OpenArgs) (clock : ℤ) : Timed := ⟨.start args, clock, []⟩

/-- The wait of a call that reads the clock at `now` and goes on at `done`. -/
def waitOf (c : Capture) (now done : ℤ) : Round :=
  ⟨c.deadline, now, done, (c.pacing.paced now).deadline⟩

/-- One call of the owner. Where it is `next` on a live capture, `done` is when its wait is over:
`CLOCK_MONOTONIC` does not go back, and `nanosleep` sleeps for the slack or longer. -/
def Timed.step (libs : VendorLibs) (s : Timed) : Call × ℤ → Option Timed
  | (.next a, done) =>
    if Live s.session then
      let slack := s.session.world.cap.deadline - a.now
      if s.clock ≤ a.now ∧ a.now + max slack 0 ≤ done then
        (s.session.step libs (.next a)).map
          (⟨·, done, s.waits ++ [waitOf s.session.world.cap a.now done]⟩)
      else none
    else (s.session.step libs (.next a)).map (⟨·, s.clock, s.waits⟩)
  | (call, _) => (s.session.step libs call).map (⟨·, s.clock, s.waits⟩)

/-- The frame interval of a capture, in nanoseconds. -/
def frameNs (args : OpenArgs) : ℤ := 1000000000 / (Capture.new args).fps.toInt

/-! ## What a step does to the clock of the capture -/

section Clock

variable {libs : VendorLibs} {s s' : Session} {a : NextAnswers}

/-- A capture that is live behind a call of `next` was live before it, and moved its deadline on. -/
theorem pacing_of_step_next (h : s.step libs (.next a) = some s') (hlive : Live s') :
    Live s ∧ s'.world.cap.pacing = s.world.cap.pacing.next a.now := by
  obtain ⟨hphase, rfl⟩ := Option.ite_some_none_eq_some.mp h
  -- a capture that failed answers its old error and does not pace
  cases hfailed : s.world.cap.failed with
  | some e =>
    rw [next_of_failed hfailed] at hlive
    exact absurd (hfailed.symm.trans hlive.2) (Option.some_ne_none e)
  | none =>
    refine ⟨⟨hphase, hfailed⟩, ?_⟩
    have hspec := @nextLive_spec s.world.cap s.world.trace libs a s.world (at_self s.world)
    rw [← next_of_live hfailed] at hspec
    cases hrun : next libs a s.world with
    | ok f w => exact (pacing_of_next hrun).1
    | error e w =>
      rw [hrun] at hspec hlive
      cases e with
      | err text =>
        exact absurd ((hspec.failed text rfl).symm.trans hlive.2) (Option.some_ne_none text)
      | panic => cases hlive.1

/-- The other calls leave the clock of a live capture alone, unless they open it. -/
theorem pacing_of_step {call : Call} (hcall : ∀ a, call ≠ .next a) (h : s.step libs call = some s')
    (hlive : Live s') :
    (∃ args a, s.phase = .opening args ∧ init libs args a s.world = .ok () s'.world) ∨
      (Live s ∧ s'.world.cap.deadline = s.world.cap.deadline ∧
        s'.world.cap.frameNs = s.world.cap.frameNs) := by
  cases steps_of_step h with
  | @opened args a w hphase hinit => exact Or.inl ⟨args, a, hphase, hinit⟩
  | requested hphase => exact Or.inr ⟨⟨hphase, hlive.2⟩, rfl, rfl⟩
  | gaveUp hphase hinit => cases hlive.1
  | dropped hphase => cases hlive.1
  | refused hphase hfailed => exact absurd rfl (hcall _)
  | returned hphase hfailed h => exact absurd rfl (hcall _)
  | failed hphase hfailed h => exact absurd rfl (hcall _)
  | panicked hphase hfailed h => exact absurd rfl (hcall _)

/-- A session is opened once. -/
theorem not_opening_of_step {call : Call} (h : s.step libs call = some s') (args : OpenArgs) :
    s'.phase ≠ .opening args := by
  cases steps_of_step h <;> exact nofun

end Clock

/-! ## The waits are rounds of a pacer -/

/-- The frame interval is not negative, for any frame rate. -/
theorem frameNs_nonneg (args : OpenArgs) : 0 ≤ frameNs args := by
  refine Int.ediv_nonneg (by decide) ?_
  show 0 ≤ (if args.fps ≤ 0 then (30 : Int32) else args.fps).toInt
  split
  next => decide
  next hpos =>
    rw [Int32.le_iff_toInt_le] at hpos
    exact Int.le_of_lt (Int.not_le.mp hpos)

/-- The next deadline is an interval on from the last, and not over when its call began. -/
theorem keeps_waitOf {c : Capture} {now done : ℤ} (hns : 0 ≤ c.frameNs)
    (hdone : now + max (c.deadline - now) 0 ≤ done) : (waitOf c now done).Keeps c.frameNs := by
  have hmax := Int.le_max_left (c.deadline - now) 0
  have hzero := Int.le_max_right (c.deadline - now) 0
  have hpaced : (c.pacing.paced now).deadline =
      if c.deadline + c.frameNs < now then now + c.frameNs else c.deadline + c.frameNs := rfl
  refine ⟨?_, ?_, ?_, ?_⟩
  · show now ≤ done
    omega
  · show c.deadline ≤ done
    omega
  · show c.deadline + c.frameNs ≤ (c.pacing.paced now).deadline
    rw [hpaced]
    split <;> omega
  · show now ≤ (c.pacing.paced now).deadline
    rw [hpaced]
    split <;> omega

/-- What every run keeps: the waits so far are over, they are rounds of a pacer, and a live capture
waits for the deadline that the last of them set. -/
structure Inv (args : OpenArgs) (s : Timed) : Prop where
  paces : Paces (frameNs args) s.waits
  clock : ∀ r ∈ s.waits.getLast?, r.ended ≤ s.clock
  interval : Live s.session → s.session.world.cap.frameNs = frameNs args
  deadline : Live s.session → ∀ r ∈ s.waits.getLast?, s.session.world.cap.deadline = r.next
  opening : ∀ args', s.session.phase = .opening args' → s.session = .start args ∧ s.waits = []

/-- Before the first call nothing has waited. -/
theorem inv_start (args : OpenArgs) (clock : ℤ) : Inv args (.start args clock) where
  paces := paces_nil _
  clock := nofun
  interval h := nomatch h.1
  deadline h := nomatch h.1
  opening _ _ := ⟨rfl, rfl⟩

section Run

variable {libs : VendorLibs} {args : OpenArgs} {s s' : Timed}

/-- A step that adds no wait. -/
theorem Inv.quiet (hs : Inv args s) {t : Session} {call : Call}
    (hstep : s.session.step libs call = some t)
    (hwait : ∀ a, call = .next a → ¬ Live s.session) : Inv args ⟨t, s.clock, s.waits⟩ := by
  -- a call other than `next` sets up the pacing or leaves it as it was
  have hclock : Live t → (t.world.cap.frameNs = frameNs args ∧ s.waits = []) ∨
      (Live s.session ∧ t.world.cap.deadline = s.session.world.cap.deadline ∧
        t.world.cap.frameNs = s.session.world.cap.frameNs) := by
    intro hlive
    by_cases hnext : ∃ a, call = .next a
    · obtain ⟨a, rfl⟩ := hnext
      exact absurd (pacing_of_step_next hstep hlive).1 (hwait a rfl)
    · rcases pacing_of_step (not_exists.mp hnext) hstep hlive with ⟨args', a, hphase, hinit⟩ | hkept
      · obtain ⟨hsession, hnone⟩ := hs.opening args' hphase
        rw [hsession] at hphase hinit
        obtain rfl : args = args' := Phase.opening.inj hphase
        exact Or.inl ⟨congrArg Pacing.frameNs (pacing_of_init hinit), hnone⟩
      · exact Or.inr hkept
  exact {
    paces := hs.paces
    clock := hs.clock
    interval := fun hlive => by
      rcases hclock hlive with ⟨hns, -⟩ | ⟨hbefore, -, hns⟩
      · exact hns
      · exact hns.trans (hs.interval hbefore)
    deadline := fun hlive r hr => by
      rcases hclock hlive with ⟨-, hnone⟩ | ⟨hbefore, hdeadline, -⟩
      · rw [hnone] at hr
        cases hr
      · exact hdeadline.trans (hs.deadline hbefore r hr)
    opening := fun args' hphase => absurd hphase (not_opening_of_step hstep args') }

/-- A wait of a live capture. -/
theorem Inv.wait (hs : Inv args s) {t : Session} {a : NextAnswers} {done : ℤ}
    (hlive : Live s.session) (hclock : s.clock ≤ a.now)
    (hdone : a.now + max (s.session.world.cap.deadline - a.now) 0 ≤ done)
    (hstep : s.session.step libs (.next a) = some t) :
    Inv args ⟨t, done, s.waits ++ [waitOf s.session.world.cap a.now done]⟩ := by
  have hns := hs.interval hlive
  -- this wait keeps to the interval the capture was opened with
  have hkeeps := keeps_waitOf (hns ▸ frameNs_nonneg args) hdone
  rw [hns] at hkeeps
  exact {
    paces := hs.paces.concat hkeeps fun q hq =>
      ⟨hs.deadline hlive q hq, Int.le_trans (hs.clock q hq) hclock⟩
    clock := fun r hr => by
      rw [List.getLast?_concat] at hr
      exact Int.le_of_eq (congrArg Round.ended (Option.some.inj hr).symm)
    interval := fun hafter => by
      have hpacing := (pacing_of_step_next hstep hafter).2
      exact (congrArg Pacing.frameNs hpacing).trans hns
    deadline := fun hafter r hr => by
      have hpacing := (pacing_of_step_next hstep hafter).2
      rw [List.getLast?_concat] at hr
      obtain rfl := Option.some.inj hr
      exact congrArg Pacing.deadline hpacing
    opening := fun args' hphase => absurd hphase (not_opening_of_step hstep args') }

/-- One call: it opens the session, it waits for its deadline, or it leaves the clock alone. -/
theorem inv_step {c : Call × ℤ} (h : s.step libs c = some s') (hs : Inv args s) :
    Inv args s' := by
  obtain ⟨call, done⟩ := c
  cases call with
  | next a =>
    simp only [Timed.step] at h
    split at h
    next hlive =>
      obtain ⟨⟨hclock, hdone⟩, h⟩ := Option.ite_none_right_eq_some.mp h
      obtain ⟨t, hstep, rfl⟩ := Option.map_eq_some_iff.mp h
      exact hs.wait hlive hclock hdone hstep
    next hdead =>
      obtain ⟨t, hstep, rfl⟩ := Option.map_eq_some_iff.mp h
      exact hs.quiet hstep fun _ _ => hdead
  | init a | requestIdr | drop rc =>
    obtain ⟨t, hstep, rfl⟩ := Option.map_eq_some_iff.mp h
    exact hs.quiet hstep fun _ hnext => nomatch hnext

end Run

/-! ## What is claimed -/

/-- No two frames are closer than their numbers allow: `k` calls on, at least `k - 2` intervals have
gone by, `k - 1` where the first of them did not oversleep, and every call moves the deadline on by
an interval. -/
structure NoBurst (F : ℤ) (waits : List Round) : Prop where
  spaced : ∀ (i k : ℕ) (r s : Round), 2 ≤ k → waits[i]? = some r →
    waits[i + k]? = some s → ((k : ℤ) - 2) * F ≤ s.ended - r.ended
  spaced_of_prompt : ∀ (i k : ℕ) (r s : Round), 1 ≤ k → waits[i]? = some r →
    waits[i + k]? = some s → r.Prompt → ((k : ℤ) - 1) * F ≤ s.ended - r.ended
  advances : ∀ r ∈ waits, r.due + F ≤ r.next
  continues : ∀ (i : ℕ) (r s : Round), waits[i]? = some r → waits[i + 1]? = some s → s.due = r.next

/-- A pacer of the library makes no bursts. -/
theorem noBurst_of_paces {F : ℤ} (hF : 0 ≤ F) {waits : List Round} (h : Paces F waits) :
    NoBurst F waits where
  spaced i k r s hk hr hs := by
    obtain ⟨j, rfl⟩ := Nat.exists_eq_add_of_le' hk
    rw [show ((j + 2 : ℕ) : ℤ) - 2 = j by omega]
    exact h.spaced hr hs
  spaced_of_prompt i k r s hk hr hs hprompt := by
    obtain ⟨j, rfl⟩ := Nat.exists_eq_add_of_le' hk
    rw [show ((j + 1 : ℕ) : ℤ) - 1 = j by omega]
    exact h.spaced_of_prompt hF hprompt hr hs
  advances r hr := (h.keeps r hr).advances
  continues i r s hr hs := (h.follows_succ hr hs).1

/-- **No burst.** Whatever the stalls and the sleeps, the calls of one capture keep their
distance. -/
theorem no_burst {libs : VendorLibs} {args : OpenArgs} {clock : ℤ} {calls : List (Call × ℤ)}
    {s : Timed} (hrun : run (Timed.step libs) (.start args clock) calls = some s) :
    NoBurst (frameNs args) s.waits :=
  noBurst_of_paces (frameNs_nonneg args)
    (run_invariant (fun _ _ _ => inv_step) hrun (inv_start args clock)).paces

/-- A panel of four pixels at 60 frames a second. -/
def unscaled : OpenArgs := ⟨2, 2, 0, 0, 60, 0, .argb, false⟩

/-- A call of `next` that reads the clock at `now`, and that nothing stops. -/
def nextAt (now : ℤ) : Call :=
  .next ⟨now, now, now, now, .ok [0], 0, 0, 0, ⟨0, none, 0, none⟩, [], 0, 0⟩

/-- A stall of 100 ms between the first call and the second, which is late; the third oversleeps. -/
def stalled : List (Call × ℤ) :=
  [(.init (goodInit ⟨2, 2, 32, 8⟩), 0), (nextAt 0, 0), (nextAt 100000000, 100000000),
    (nextAt 100000000, 120000000)]

/-- The session with the stall. -/
theorem no_burst_stalled :
    ∃ s, run (Timed.step fullLibs) (.start unscaled 0) stalled = some s ∧
      NoBurst (frameNs unscaled) s.waits := by
  have hsome : (run (Timed.step fullLibs) (.start unscaled 0) stalled).isSome = true := by
    decide +kernel
  obtain ⟨s, hs⟩ := Option.isSome_iff_exists.mp hsome
  exact ⟨s, hs, @no_burst fullLibs unscaled 0 stalled s hs⟩

end RgspCast.FramePacing
