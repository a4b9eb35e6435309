import RgspCast.Cedar.Pacing
import RgspCast.Cedar.Session

/-!
# `VideoStream`

What the client negotiated on its way to the encoder, and the loop of `VideoStream::run`.

`session_pump` narrows the bitrate to 32 bits, `run` reinterprets both numbers as `i32`, and
`open_scaled_ex` replaces a frame rate that is not positive: `unchanged_iff` says which negotiated
values arrive as they were.

The loop is a step relation over the two request flags, the rate limiter, the numbering and the
clock of the capture (`Pacing`); `pacing_of_next` and `pacing_of_init` say that `Capture` moves that
clock so.
-/

namespace RgspCast.VideoStream

open Cedar ExceptState Transition

/-! ## What is negotiated -/

/-- What the host reads of `VideoStreamContext`. A `usize` has 64 bits. -/
structure VideoStreamContext where
  width : UInt32
  height : UInt32
  fps : UInt32
  bitrate : UInt64
  deriving DecidableEq, Repr

structure VideoConfig where
  width : UInt32
  height : UInt32
  fps : UInt32
  bitrate : UInt32
  deriving DecidableEq, Repr

def bitrateCeiling : UInt32 := 6000000

def panelWidth : UInt32 := 720
def panelHeight : UInt32 := 480

def rtpClockHz : UInt64 := 90000

/-- `rtp_timestamp_for`. The product wraps, and the quotient is cut to 32 bits. A rate of 0, at
which the source would panic, never gets here: `videoConfig` clamps it. -/
def rtpTimestampFor (frameNumber : UInt64) (fps : UInt32) : UInt32 :=
  (frameNumber * rtpClockHz / fps.toUInt64).toUInt32

/-- The configuration `session_pump` makes of what was negotiated. -/
def videoConfig (context : VideoStreamContext) : VideoConfig where
  width := context.width
  height := context.height
  fps := max context.fps 1
  bitrate := context.bitrate.toUInt32

/-- The arguments `run` opens its capture with. -/
def VideoConfig.openArgs (cfg : VideoConfig) : OpenArgs where
  width := panelWidth
  height := panelHeight
  dstW := cfg.width
  dstH := cfg.height
  fps := cfg.fps.toInt32
  bitrate := (min cfg.bitrate bitrateCeiling).toInt32
  inFmt := .argb
  strideBytes := false

/-- The capture runs at the rate the timestamps are made for, and the encoder is told the bitrate
asked for, up to the ceiling, and a key-frame interval of a minute. -/
structure Unchanged (context : VideoStreamContext) (w : World) : Prop where
  pace : w.cap.frameNs = 1000000000 / (videoConfig context).fps.toNat
  told : parameters w.trace =
    [(index.bitrate, ((min context.bitrate.toNat 6000000 : ℕ) : ℤ)),
      (index.maxKeyInterval, ((60 * (videoConfig context).fps.toNat : ℕ) : ℤ))]

/-- The cast to `i32` wraps. -/
theorem toInt_toInt32 (x : UInt32) :
    x.toInt32.toInt = if x.toNat < 2 ^ 31 then (x.toNat : ℤ) else x.toNat - 2 ^ 32 := by
  have hx := x.toNat_lt
  show x.toBitVec.toInt = _
  rw [BitVec.toInt_eq_toNat_cond]
  show (if 2 * x.toNat < 2 ^ 32 then (x.toNat : ℤ) else _ - _) = _
  split <;> split <;> first | rfl | omega

theorem toNat_max (x y : UInt32) : (max x y).toNat = max x.toNat y.toNat := by
  show (if x ≤ y then y else x).toNat = _
  by_cases h : x ≤ y
  · rw [if_pos h, max_eq_right (UInt32.le_iff_toNat_le.mp h)]
  · rw [if_neg h, max_eq_left (Nat.le_of_not_le fun hle => h (UInt32.le_iff_toNat_le.mpr hle))]

theorem toNat_min (x y : UInt32) : (min x y).toNat = min x.toNat y.toNat := by
  show (if x ≤ y then x else y).toNat = _
  by_cases h : x ≤ y
  · rw [if_pos h, min_eq_left (UInt32.le_iff_toNat_le.mp h)]
  · rw [if_neg h, min_eq_right (Nat.le_of_not_le fun hle => h (UInt32.le_iff_toNat_le.mpr hle))]

section Parameters

variable (context : VideoStreamContext)

/-- The configuration has at least one frame a second. -/
theorem toNat_fps : (videoConfig context).fps.toNat = max context.fps.toNat 1 :=
  toNat_max context.fps 1

/-- The bitrate that reaches the encoder is cut to 32 bits before it is capped. -/
theorem toInt_bitrate :
    (videoConfig context).openArgs.bitrate.toInt =
      (min (context.bitrate.toNat % 2 ^ 32) 6000000 : ℕ) := by
  have hmin : (min (videoConfig context).bitrate bitrateCeiling).toNat =
      min (context.bitrate.toNat % 2 ^ 32) 6000000 :=
    toNat_min _ _
  show (min (videoConfig context).bitrate bitrateCeiling).toInt32.toInt = _
  rw [toInt_toInt32, hmin, if_pos (by omega)]

/-- The rate the capture runs at: a rate that is negative as an `i32` is replaced. -/
theorem toInt_fps_new :
    (Capture.new (videoConfig context).openArgs).fps.toInt =
      if (videoConfig context).fps.toNat < 2 ^ 31 then ((videoConfig context).fps.toNat : ℤ)
      else 30 := by
  have hpos : 1 ≤ (videoConfig context).fps.toNat := by
    rw [toNat_fps]
    omega
  have hlt := (videoConfig context).fps.toNat_lt
  have hint := toInt_toInt32 (videoConfig context).fps
  show (if (videoConfig context).fps.toInt32 ≤ 0 then (30 : Int32)
    else (videoConfig context).fps.toInt32).toInt = _
  by_cases hsmall : (videoConfig context).fps.toNat < 2 ^ 31
  · rw [if_pos hsmall] at hint ⊢
    rw [if_neg (by rw [Int32.le_iff_toInt_le, hint, Int32.toInt_zero]; omega), hint]
  · rw [if_neg hsmall] at hint ⊢
    rw [if_pos (by rw [Int32.le_iff_toInt_le, hint, Int32.toInt_zero]; omega)]
    rfl

/-- The interval wraps for a frame rate that is too high. -/
theorem toInt_keyInterval {fps : Int32} (hpos : 0 < fps.toInt) :
    (keyInterval fps).toInt = (60 * fps.toInt).bmod (2 ^ 32) := by
  have hlt : fps > 0 := Int32.lt_iff_toInt_lt.mpr (by rwa [Int32.toInt_zero])
  rw [keyInterval, if_pos hlt, Int32.toInt_mul, Int.mul_comm]
  rfl

/-- The key-frame interval is a minute exactly where the product of the rate fits 31 bits. -/
theorem toInt_keyInterval_eq_iff :
    (keyInterval (Capture.new (videoConfig context).openArgs).fps).toInt =
        ((60 * (videoConfig context).fps.toNat : ℕ) : ℤ) ↔
      60 * (videoConfig context).fps.toNat < 2 ^ 31 := by
  have hpos : 1 ≤ (videoConfig context).fps.toNat := by
    rw [toNat_fps]
    omega
  have hfps := toInt_fps_new context
  rw [toInt_keyInterval (by rw [hfps]; split <;> omega), hfps]
  simp only [Int.bmod_def]
  split <;> split <;> omega

/-- The frame interval is the negotiated one exactly where the rate fits 31 bits. -/
theorem frameNs_eq_iff :
    1000000000 / (Capture.new (videoConfig context).openArgs).fps.toInt =
        1000000000 / ((videoConfig context).fps.toNat : ℤ) ↔
      (videoConfig context).fps.toNat < 2 ^ 31 := by
  rw [toInt_fps_new]
  split
  next h => exact iff_of_true rfl h
  next h =>
    have hzero : (1000000000 : ℤ) / ((videoConfig context).fps.toNat : ℤ) = 0 :=
      Int.ediv_eq_zero_of_lt (by decide) (by omega)
    rw [hzero]
    exact iff_of_false (by decide) h

/-- The bitrate is told exactly where what is left of it after the cut is as good as all of it. -/
theorem told_iff (hbitrate : 1 ≤ context.bitrate.toNat) {libs : VendorLibs}
    (hset : (videoConfig context).openArgs.bitrate > 0 → libs.videoEncSetParameter = true) :
    initParameters libs (videoConfig context).openArgs
        (Capture.new (videoConfig context).openArgs).fps =
        [(index.bitrate, ((min context.bitrate.toNat 6000000 : ℕ) : ℤ)),
          (index.maxKeyInterval, ((60 * (videoConfig context).fps.toNat : ℕ) : ℤ))] ↔
      60 * (videoConfig context).fps.toNat < 2 ^ 31 ∧
        (context.bitrate.toNat < 2 ^ 32 ∨ 6000000 ≤ context.bitrate.toNat % 2 ^ 32) := by
  have hrate := toInt_bitrate context
  rw [← toInt_keyInterval_eq_iff]
  unfold initParameters
  by_cases hpos : (videoConfig context).openArgs.bitrate > 0
  · rw [if_pos hpos, if_pos (hset hpos), hrate]
    simp only [List.singleton_append, List.cons.injEq, Prod.mk.injEq, true_and, and_true,
      Int.natCast_inj]
    rw [and_comm]
    refine and_congr_right fun _ => ?_
    omega
  -- a bitrate narrowed to zero or below is never told to the encoder
  · rw [if_neg hpos]
    refine iff_of_false (fun h => ?_) fun h => ?_
    · split at h <;> simp at h
    · rw [gt_iff_lt, Int32.lt_iff_toInt_lt, hrate, Int32.toInt_zero] at hpos
      omega

end Parameters

/-- **The negotiated parameters reach the encoder unchanged exactly where** a minute of frames fits
31 bits, and the bitrate fits 32 or is above the ceiling in its low 32 bits. -/
theorem unchanged_iff {context : VideoStreamContext} (hbitrate : 1 ≤ context.bitrate.toNat)
    {libs : VendorLibs} {a : InitAnswers} {w : World}
    (hopen : init libs (videoConfig context).openArgs a
      ⟨.new (videoConfig context).openArgs, [.claimed]⟩ = .ok () w) :
    Unchanged context w ↔
      60 * max context.fps.toNat 1 < 2 ^ 31 ∧
        (context.bitrate.toNat < 2 ^ 32 ∨ 6000000 ≤ context.bitrate.toNat % 2 ^ 32) := by
  obtain ⟨htold, hset⟩ := parameters_of_init hopen
  have hpace : w.cap.frameNs =
      1000000000 / (Capture.new (videoConfig context).openArgs).fps.toInt :=
    congrArg Pacing.frameNs (pacing_of_init hopen)
  have hiff := told_iff context hbitrate hset
  rw [← toNat_fps]
  constructor
  · intro h
    exact hiff.mp (htold.symm.trans h.told)
  · intro h
    exact ⟨hpace.trans ((frameNs_eq_iff context).mpr (by omega)), htold.trans (hiff.mpr h)⟩

/-- The panel of the handheld. -/
def panel : FbGeometry := ⟨720, 480, 32, 2880⟩

/-- The panel passes every check, whatever was negotiated. -/
theorem accepts_panel (cfg : VideoConfig) : Accepts cfg.openArgs panel where
  depth := by decide
  size := by
    show validateGeometry 720 480 32 720 480 = .ok ()
    decide
  pitch := if_neg fun h => h.2.2 (by decide)
  capacity := by decide

/-- What Moonlight asks for. -/
def moonlight : VideoStreamContext := ⟨1280, 720, 60, 20000000⟩

/-- What Moonlight asks for arrives, but for the ceiling. -/
theorem unchanged_moonlight :
    ∃ w, init fullLibs (videoConfig moonlight).openArgs (goodInit panel)
        ⟨.new (videoConfig moonlight).openArgs, [.claimed]⟩ = .ok () w ∧ Unchanged moonlight w := by
  obtain ⟨w, hopen, -⟩ := init_goodInit (accepts_panel (videoConfig moonlight))
  exact ⟨w, hopen, (@unchanged_iff moonlight (by decide) fullLibs (goodInit panel) w hopen).mpr
    (by decide)⟩

/-- An ANNOUNCE with a rate of 3000000000. -/
def fastest : VideoStreamContext := ⟨1280, 720, 3000000000, 20000000⟩

/-- The capture then runs at 30 frames a second, and the timestamps at 3000000000. -/
theorem not_unchanged :
    ¬ ∀ context : VideoStreamContext, 1 ≤ context.bitrate.toNat → ∀ libs a w,
      init libs (videoConfig context).openArgs a
        ⟨.new (videoConfig context).openArgs, [.claimed]⟩ = .ok () w → Unchanged context w := by
  intro hall
  obtain ⟨w, hopen, -⟩ := init_goodInit (accepts_panel (videoConfig fastest))
  have hpace := (hall fastest (by decide) _ _ w hopen).pace
  exact absurd ((congrArg Pacing.frameNs (pacing_of_init hopen)).symm.trans hpace) (by decide)

/-! ## The loop of `VideoStream::run` -/

/-- `MIN_IDR_INTERVAL`, in nanoseconds. -/
def minIdrInterval : ℤ := 750000000

/-- Why an IDR is forced. -/
inductive Cause where
  | reset
  | idr
  deriving DecidableEq, Repr

/-- Where the loop is: at the start of an iteration, past a reset flag that was not set, about to
call `next` (with what the iteration forced an IDR for), in `send`, or returned. -/
inductive Phase where
  | top
  | noReset
  | capture (cause : Option Cause)
  | sending
  | ended
  deriving DecidableEq, Repr

/-- `next` is called next. -/
def Phase.isCapture : Phase → Bool
  | .capture _ => true
  | _ => false

/-- A call of `request_idr`: when, why, and how many frames were encoded before it. -/
structure ForcedIdr where
  time : ℤ
  cause : Cause
  frame : ℕ
  deriving DecidableEq, Repr

/-- A frame as `send` gets it, with the time at which the panel was read and whether an IDR was
pending for it. -/
structure SentFrame where
  frameNumber : UInt32
  rtpTimestamp : UInt32
  instant : ℤ
  forced : Bool
  deriving DecidableEq, Repr

structure State where
  cfg : VideoConfig
  capture : Pacing
  idr : Bool
  reset : Bool
  phase : Phase
  frameNumber : UInt64
  lastIdr : ℤ
  /-- The last time the clock was read. -/
  clock : ℤ
  /-- The requests made of the two requesters, and the calls of `request_idr` made for them. -/
  requests : ℕ
  forced : List ForcedIdr
  sent : List SentFrame
  /-- The frames sent since the last reset. -/
  sinceReset : List SentFrame
  deriving DecidableEq, Repr

/-- The frame interval a capture is opened with. -/
def VideoConfig.frameNs (cfg : VideoConfig) : ℤ :=
  1000000000 / (Capture.new cfg.openArgs).fps.toInt

/-- The loop about to start, on a capture that was opened at a time. -/
def State.start (cfg : VideoConfig) (opened now : ℤ) : State where
  cfg := cfg
  capture := ⟨cfg.frameNs, opened, false⟩
  idr := false
  reset := false
  phase := .top
  frameNumber := 0
  lastIdr := now - minIdrInterval
  clock := now
  requests := 0
  forced := []
  sent := []
  sinceReset := []

/-- What the requesters and the loop do, with what the clock says on the way. -/
inductive Action where
  | requestIdr
  | requestReset
  /-- The reset flag is swapped; if it was set, `request_idr` is called and `last_idr` set. -/
  | swapReset (call mark : ℤ)
  /-- The IDR flag is swapped; if it was set and the interval is over, as in `swapReset`. -/
  | swapIdr (check call mark : ℤ)
  /-- `Capture::next` begins, reads the panel, and is back, with a frame or an error. -/
  | next (now instant back : ℤ) (ok : Bool)
  | send (back : ℤ) (ok : Bool)
  deriving DecidableEq, Repr

/-- `request_idr` for a cause, and `last_idr`. -/
def State.force (s : State) (cause : Cause) (call mark : ℤ) : State :=
  { s with
    capture := { s.capture with forceIdr := true }
    forced := s.forced ++ [⟨call, cause, s.sent.length⟩]
    lastIdr := mark
    clock := mark
    phase := .capture (some cause) }

/-- The frame number is incremented before it is used. -/
def State.frame (s : State) (instant : ℤ) : SentFrame where
  frameNumber := (s.frameNumber + 1).toUInt32
  rtpTimestamp := rtpTimestampFor (s.frameNumber + 1) s.cfg.fps
  instant := instant
  forced := s.capture.forceIdr

/-- One step of a requester or of the loop. -/
def step (s : State) : Action → Option State
  | .requestIdr => some { s with idr := true, requests := s.requests + 1 }
  | .requestReset => some { s with reset := true, requests := s.requests + 1 }
  | .swapReset call mark =>
    if s.phase = .top ∧ s.clock ≤ call ∧ call ≤ mark then
      if s.reset then
        some ({ s with reset := false, frameNumber := 0, sinceReset := [] }.force .reset call mark)
      else some { s with phase := .noReset }
    else none
  | .swapIdr check call mark =>
    if s.phase = .noReset ∧ s.clock ≤ check ∧ check ≤ call ∧ call ≤ mark then
      if s.idr then
        -- the clock is read once for the test, and again for `last_idr`
        if check - s.lastIdr ≥ minIdrInterval then
          some ({ s with idr := false }.force .idr call mark)
        else some { s with idr := false, clock := check, phase := .capture none }
      else some { s with phase := .capture none }
    else none
  | .next now instant back ok =>
    if s.phase.isCapture ∧ s.clock ≤ now ∧ now ≤ instant ∧ instant ≤ back then
      if ok then
        some { s with
          capture := s.capture.next now
          frameNumber := s.frameNumber + 1
          clock := back
          sent := s.sent ++ [s.frame instant]
          sinceReset := s.sinceReset ++ [s.frame instant]
          phase := .sending }
      -- an error of the capture ends the thread
      else some { s with clock := back, phase := .ended }
    else none
  | .send back ok =>
    if s.phase = .sending ∧ s.clock ≤ back then
      some { s with clock := back, phase := if ok then .top else .ended }
    else none

section Steps

variable {s s' : State}

/-- The reset flag is swapped at the top of an iteration. -/
theorem swapReset_eq_some {call mark : ℤ} (h : step s (.swapReset call mark) = some s') :
    (s.phase = .top ∧ s.clock ≤ call ∧ call ≤ mark) ∧
      (s.reset = true ∧
          s' = { s with reset := false, frameNumber := 0, sinceReset := [] }.force .reset
            call mark ∨
        s.reset = false ∧ s' = { s with phase := .noReset }) := by
  obtain ⟨hguard, h⟩ := Option.ite_none_right_eq_some.mp h
  refine ⟨hguard, ?_⟩
  split at h
  next hflag => exact Or.inl ⟨hflag, (Option.some.inj h).symm⟩
  next hflag => exact Or.inr ⟨Bool.eq_false_iff.mpr hflag, (Option.some.inj h).symm⟩

/-- The IDR flag is swapped where the reset flag was not set: the request is taken up, coalesced, or
not there. -/
theorem swapIdr_eq_some {check call mark : ℤ} (h : step s (.swapIdr check call mark) = some s') :
    (s.phase = .noReset ∧ s.clock ≤ check ∧ check ≤ call ∧ call ≤ mark) ∧
      ((s.idr = true ∧ check - s.lastIdr ≥ minIdrInterval) ∧
          s' = { s with idr := false }.force .idr call mark ∨
        (s.idr = true ∧ check - s.lastIdr < minIdrInterval) ∧
          s' = { s with idr := false, clock := check, phase := .capture none } ∨
        s.idr = false ∧ s' = { s with phase := .capture none }) := by
  obtain ⟨hguard, h⟩ := Option.ite_none_right_eq_some.mp h
  refine ⟨hguard, ?_⟩
  split at h
  next hflag =>
    split at h
    next hover => exact Or.inl ⟨⟨hflag, hover⟩, (Option.some.inj h).symm⟩
    next hover => exact Or.inr (Or.inl ⟨⟨hflag, Int.not_le.mp hover⟩, (Option.some.inj h).symm⟩)
  next hflag => exact Or.inr (Or.inr ⟨Bool.eq_false_iff.mpr hflag, (Option.some.inj h).symm⟩)

/-- `next` returns a frame, or ends the loop. -/
theorem next_eq_some {now instant back : ℤ} {ok : Bool}
    (h : step s (.next now instant back ok) = some s') :
    (s.phase.isCapture = true ∧ s.clock ≤ now ∧ now ≤ instant ∧ instant ≤ back) ∧
      (ok = true ∧
          s' = { s with
            capture := s.capture.next now
            frameNumber := s.frameNumber + 1
            clock := back
            sent := s.sent ++ [s.frame instant]
            sinceReset := s.sinceReset ++ [s.frame instant]
            phase := .sending } ∨
        ok = false ∧ s' = { s with clock := back, phase := .ended }) := by
  obtain ⟨hguard, h⟩ := Option.ite_none_right_eq_some.mp h
  refine ⟨hguard, ?_⟩
  cases ok with
  | true => exact Or.inl ⟨rfl, (Option.some.inj h).symm⟩
  | false => exact Or.inr ⟨rfl, (Option.some.inj h).symm⟩

end Steps

/-! ### The loop's capture is `Capture` -/

/-- The loop starts on the capture that `init` opened. -/
theorem capture_start {cfg : VideoConfig} {libs : VendorLibs} {a : InitAnswers} {t : List Event}
    {w : World} (h : init libs cfg.openArgs a ⟨.new cfg.openArgs, t⟩ = .ok () w) (now : ℤ) :
    (State.start cfg a.now now).capture = w.cap.pacing :=
  (pacing_of_init h).symm

/-- A step of the loop moves the capture as a call of `next` does that returns a frame, and passes a
pending request on to the encoder, if it can be told anything. -/
theorem capture_next {libs : VendorLibs} {a : NextAnswers} {f : Frame} {w w' : World}
    (h : next libs a w = .ok f w') {s s' : State} {instant back : ℤ}
    (hs : s.capture = w.cap.pacing) (hstep : step s (.next a.now instant back true) = some s') :
    s'.capture = w'.cap.pacing ∧ s'.sent = s.sent ++ [s.frame instant] ∧
      Forced libs (s.frame instant).forced w.trace w' := by
  obtain ⟨-, rfl⟩ := Option.ite_some_none_eq_some.mp hstep
  obtain ⟨hpacing, hforced⟩ := pacing_of_next h
  have hforce : (s.frame instant).forced = w.cap.forceIdr := congrArg Pacing.forceIdr hs
  refine ⟨?_, rfl, hforce ▸ hforced⟩
  show s.capture.next a.now = _
  rw [hs, hpacing]

end RgspCast.VideoStream
