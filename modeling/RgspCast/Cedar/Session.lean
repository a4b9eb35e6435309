import RgspCast.Cedar.Calls

/-!
# The steps of a session

`Steps` lists the ways in which one call of its owner can move a session on, with everything
`Calls` knows about each; `steps_of_step` is the inversion of `Session.step`. Invariants of captures
are proved by cases on it.
-/

namespace RgspCast.Cedar

open Drain RgspCast.Geometry ExceptState Transition

/-- What one call can do to a session, one case for each way it can end. -/
inductive Steps (libs : VendorLibs) (s : Session) : Call → Session → Prop where
  | opened {args : OpenArgs} {a : InitAnswers} {w : World} (hphase : s.phase = .opening args)
      (hinit : init libs args a s.world = .ok () w) : Steps libs s (.init a) ⟨.ready, w⟩
  | gaveUp {args : OpenArgs} {a : InitAnswers} {e : Exit} {w : World}
      (hphase : s.phase = .opening args) (hinit : init libs args a s.world = .error e w) :
      Steps libs s (.init a) ⟨.unwinding, w⟩
  | refused {a : NextAnswers} {e : String} (hphase : s.phase = .ready)
      (hfailed : s.world.cap.failed = some e) :
      Steps libs s (.next a) ⟨.ready, s.world.emit (.failed e)⟩
  | returned {a : NextAnswers} {w : World} (hphase : s.phase = .ready)
      (hlive : s.world.cap.failed = none)
      (h : At (afterFrame libs s.world.cap a) s.world.trace w) :
      Steps libs s (.next a) ⟨.ready, w.emit (.frame (nextFrame libs s.world.cap a))⟩
  | failed {a : NextAnswers} {e : String} {w : World} (hphase : s.phase = .ready)
      (hlive : s.world.cap.failed = none) (h : Ended s.world.cap s.world.trace (.err e) w) :
      Steps libs s (.next a) ⟨.ready, w.emit (.failed e)⟩
  | panicked {a : NextAnswers} {w : World} (hphase : s.phase = .ready)
      (hlive : s.world.cap.failed = none) (h : Ended s.world.cap s.world.trace .panic w) :
      Steps libs s (.next a) ⟨.unwinding, w⟩
  | requested (hphase : s.phase = .ready) :
      Steps libs s .requestIdr
        ⟨.ready, { s.world with cap := { s.world.cap with forceIdr := true } }⟩
  | dropped {rc : Int32} (hphase : s.phase = .ready ∨ s.phase = .unwinding) :
      Steps libs s (.drop rc)
        ⟨.tornDown, s.world.cap,
          s.world.trace ++ [.dropped] ++ (teardownCalls libs rc s.world.cap).map .vendor⟩

variable {libs : VendorLibs} {s s' : Session} {call : Call}

theorem at_self (w : World) : At w.cap w.trace w :=
  ⟨rfl, [], .nil, by rw [List.append_nil]⟩

/-- A step of `next` on a capture that has not failed. -/
theorem steps_of_nextLive (a : NextAnswers) (hphase : s.phase = .ready)
    (hlive : s.world.cap.failed = none) :
    Steps libs s (.next a) (.ofNext (nextLive libs a s.world)) := by
  have hspec := @nextLive_spec s.world.cap s.world.trace libs a s.world (at_self s.world)
  cases hrun : nextLive libs a s.world with
  | ok f w =>
    rw [hrun] at hspec
    obtain ⟨rfl, hat⟩ := hspec
    exact .returned hphase hlive hat
  | error e w =>
    rw [hrun] at hspec
    cases e with
    | err text => exact .failed hphase hlive hspec
    | panic => exact .panicked hphase hlive hspec

/-- **The inversion of a step.** -/
theorem steps_of_step (h : s.step libs call = some s') : Steps libs s call s' := by
  cases call with
  | init a =>
    simp only [Session.step] at h
    split at h
    -- `init` runs once, and is left open or torn down
    next args hphase =>
      split at h
      next w hinit =>
        obtain rfl := Option.some.inj h
        exact .opened hphase hinit
      next w hinit =>
        obtain rfl := Option.some.inj h
        exact .gaveUp hphase hinit
    next => cases h
  | next a =>
    simp only [Session.step] at h
    split at h
    -- a capture that has failed refuses every further call
    next hphase =>
      obtain rfl := Option.some.inj h
      cases hfailed : s.world.cap.failed with
      | some e =>
        rw [next_of_failed hfailed]
        exact .refused hphase hfailed
      | none =>
        rw [next_of_live hfailed]
        exact steps_of_nextLive a hphase hfailed
    next => cases h
  | requestIdr =>
    simp only [Session.step] at h
    split at h
    next hphase =>
      obtain rfl := Option.some.inj h
      rw [hphase]
      exact .requested hphase
    next => cases h
  | drop rc =>
    simp only [Session.step] at h
    split at h
    next hphase =>
      rw [teardown_eq] at h
      obtain rfl := Option.some.inj h
      exact .dropped hphase
    next => cases h

/-! ## The life of a capture after it is claimed -/

/-- The first call of a session is `init`. -/
theorem step_start (args : OpenArgs) (h : (Session.start args).step libs call = some s') :
    ∃ a, call = .init a := by
  cases call with
  | init a => exact ⟨a, rfl⟩
  | next a => cases h
  | requestIdr => cases h
  | drop rc => cases h

/-- What that call leaves behind: a capture that is fully known, or one on its way out. -/
theorem step_init {args : OpenArgs} {a : InitAnswers}
    (h : (Session.start args).step libs (.init a) = some s) :
    (s.phase = .ready ∧ ∃ geo, a.fb = .ok geo ∧ Accepts args geo ∧
      Mid (stageCap args geo .buffers).nSizeY (stageCap args geo .buffers).nSizeC [.claimed]
        (opened args geo a.now) .buffers s.world) ∨
      (s.phase = .unwinding ∧ ∃ st, Reached [.claimed] st s.world) := by
  cases steps_of_step h with
  | opened hphase hinit =>
    obtain rfl := Phase.opening.inj hphase
    exact Or.inl ⟨rfl, (init_spec.of_ok rfl hinit).2⟩
  | gaveUp hphase hinit =>
    obtain rfl := Phase.opening.inj hphase
    exact Or.inr ⟨rfl, (init_spec.of_error rfl hinit).1⟩

/-- Up to the end of `init` there is the claim, and there are vendor calls. -/
theorem vendor_of_traced {y c : UInt32} {st : Stage} {w : World} {e : Event}
    (h : Traced y c [.claimed] st w) (he : e ∈ w.trace) : e = .claimed ∨ ∃ v, e = .vendor v := by
  obtain ⟨es, hes, htrace⟩ := h
  rw [htrace, List.singleton_append, List.mem_cons] at he
  exact he.imp_right (vendor_of_opens hes e)

/-- What a step of a session past `init` adds to the trace, for a capture with configuration `k`. -/
inductive Adds (k : Capture) : List Event → Prop where
  | next {es : List Event} (h : NextTrace k es) : Adds k es
  | frame {es : List Event} (h : NextTrace k es) (f : Frame) : Adds k (es ++ [.frame f])
  | failed {es : List Event} (h : NextTrace k es) (e : String) : Adds k (es ++ [.failed e])
  | down {libs : VendorLibs} {rc : Int32} {c : Capture} :
      Adds k ([.dropped] ++ (teardownCalls libs rc c).map .vendor)

/-- A step past `init` leaves the configuration alone. -/
theorem config_and_trace_of_step (h : Steps libs s call s')
    (hopen : ∀ args, s.phase ≠ .opening args) :
    s'.world.cap.config = s.world.cap.config ∧ (∀ args, s'.phase ≠ .opening args) ∧
      ∃ es, Adds s.world.cap.config es ∧ s'.world.trace = s.world.trace ++ es := by
  -- once a capture is open no call changes its configuration or opens it again
  cases h with
  | opened hphase hinit => exact absurd hphase (hopen _)
  | gaveUp hphase hinit => exact absurd hphase (hopen _)
  | refused hphase hfailed =>
    exact ⟨rfl, nofun, _, .failed .nil _, rfl⟩
  | @returned a w hphase hlive h =>
    obtain ⟨es, hes, htrace⟩ := h.trace
    have hconfig : w.cap.config = (afterFrame libs s.world.cap a).config :=
      config_eq_of_core_eq h.core
    refine ⟨hconfig, nofun, _, .frame hes (nextFrame libs s.world.cap a), ?_⟩
    rw [← List.append_assoc, ← htrace]
    rfl
  | @failed a e w hphase hlive h =>
    obtain ⟨es, hes, htrace⟩ := h.trace
    refine ⟨h.config, nofun, _, .failed hes e, ?_⟩
    rw [← List.append_assoc, ← htrace]
    rfl
  | panicked hphase hlive h =>
    obtain ⟨es, hes, htrace⟩ := h.trace
    exact ⟨h.config, nofun, es, .next hes, htrace⟩
  | requested hphase => exact ⟨rfl, nofun, [], .next .nil, (List.append_nil _).symm⟩
  | dropped hphase => exact ⟨rfl, nofun, _, .down, by rw [List.append_assoc]⟩

/-- The phases of a capture that is not handed out any more. -/
def Phase.Gone (ph : Phase) : Prop := ph = .unwinding ∨ ph = .tornDown

/-- All that is left of such a capture is to tear it down. -/
theorem dropped_of_gone (h : Steps libs s call s') (hgone : s.phase.Gone) :
    ∃ rc, s' = ⟨.tornDown, s.world.cap,
      s.world.trace ++ [.dropped] ++ (teardownCalls libs rc s.world.cap).map .vendor⟩ := by
  unfold Phase.Gone at hgone
  cases h with
  | opened hphase _ | gaveUp hphase _ => simp [hphase] at hgone
  | refused hphase _ | returned hphase _ _ | failed hphase _ _ | panicked hphase _ _
  | requested hphase => simp [hphase] at hgone
  | @dropped rc _ => exact ⟨rc, rfl⟩

/-- A session that is gone stays gone. -/
theorem gone_of_steps (h : Steps libs s call s') (hgone : s.phase.Gone) : s'.phase.Gone := by
  obtain ⟨rc, rfl⟩ := dropped_of_gone h hgone
  exact Or.inr rfl

/-- A capture that its owner can use has opened a panel, and has what `init` set up for it. -/
theorem opened_of_run {args : OpenArgs} {a : InitAnswers} {calls : List Call}
    (hrun : run (Session.step libs) (.start args) (.init a :: calls) = some s)
    (hready : s.phase = .ready) :
    ∃ geo, a.fb = .ok geo ∧ Accepts args geo ∧
      s.world.cap.config = (opened args geo a.now).config := by
  obtain ⟨s₀, hinit, hrest⟩ := run_cons_eq_some.mp hrun
  rcases step_init hinit with ⟨hphase, geo, hfb, haccepts, hmid⟩ | ⟨hphase, -⟩
  · have hkept := @run_invariant _ _ (Session.step libs)
      (fun s => s.world.cap.config = (opened args geo a.now).config ∧
        ∀ args, s.phase ≠ .opening args)
      (fun s call s' hstep hs => by
        obtain ⟨hconfig, hopen, -⟩ := config_and_trace_of_step (steps_of_step hstep) hs.2
        exact ⟨hconfig.trans hs.1, hopen⟩)
      _ _ _ hrest ⟨congrArg Capture.config hmid.cap, by rw [hphase]; nofun⟩
    exact ⟨geo, hfb, haccepts, hkept.1⟩
  -- a capture that failed to open stays gone
  · have hgone : s.phase.Gone :=
      run_invariant (fun _ _ _ hstep => gone_of_steps (steps_of_step hstep)) hrest (Or.inl hphase)
    rw [hready] at hgone
    rcases hgone with hgone | hgone <;> cases hgone

/-! ## An `init` that nothing stops -/

/-- The vendor libraries with every entry. -/
def fullLibs : VendorLibs := ⟨⟨true, true, true, true⟩, true, true⟩

def goodInit (geo : FbGeometry) : InitAnswers :=
  ⟨.ok geo, true, true, 0, true, 0, 0, 0, 0, 0, 0⟩

/-- The answers of `goodInit` are good for a panel that passes the checks. -/
theorem good_goodInit {args : OpenArgs} {geo : FbGeometry} (haccepts : Accepts args geo) :
    (goodInit geo).Good fullLibs args where
  fb := ⟨geo, rfl, haccepts⟩
  veOps := rfl
  memOps := rfl
  «open» := rfl
  openRc := by
    show ¬ (0 : Int32) < 0
    decide
  enc := rfl
  bitrate _ := ⟨rfl, rfl⟩
  initRc := rfl
  allocRc := rfl
  getInputRc := rfl

/-- A panel that is accepted can be opened. -/
theorem init_goodInit {args : OpenArgs} {geo : FbGeometry} (haccepts : Accepts args geo) :
    ∃ w, init fullLibs args (goodInit geo) ⟨.new args, [.claimed]⟩ = .ok () w ∧
      Mid (stageCap args geo .buffers).nSizeY (stageCap args geo .buffers).nSizeC [.claimed]
        (opened args geo 0) .buffers w := by
  cases hinit : init fullLibs args (goodInit geo) ⟨.new args, [.claimed]⟩ with
  | error e w =>
    exact absurd (good_goodInit haccepts) ((init_spec (t := [.claimed])).of_error rfl hinit).2
  | ok u w =>
    obtain ⟨-, geo', hfb, -, hmid⟩ := (init_spec (t := [.claimed])).of_ok rfl hinit
    obtain rfl : geo = geo' := Except.ok.inj hfb
    exact ⟨w, rfl, hmid⟩

/-- With them the session opens. -/
theorem step_goodInit {args : OpenArgs} {geo : FbGeometry} (haccepts : Accepts args geo) :
    ∃ w, (Session.start args).step fullLibs (.init (goodInit geo)) = some ⟨.ready, w⟩ ∧
      Mid (stageCap args geo .buffers).nSizeY (stageCap args geo .buffers).nSizeC [.claimed]
        (opened args geo 0) .buffers w := by
  obtain ⟨w, hinit, hmid⟩ := init_goodInit haccepts
  refine ⟨w, ?_, hmid⟩
  have hinit' : init fullLibs args (goodInit geo) (Session.start args).world = .ok () w := hinit
  simp only [Session.step, Session.start] at hinit' ⊢
  rw [hinit']

end RgspCast.Cedar
