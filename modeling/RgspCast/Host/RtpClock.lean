import RgspCast.Host.VideoStream
import RgspCast.Lib.RateClock

/-!
# The RTP clock and the panel

The timestamps count frames. `Capture::next` drops the frames it missed, and the count does not: a
stall of more than a frame interval shifts the timestamps for good (`not_tracks`), and the rounding
of the frame interval to nanoseconds shifts them a little every frame. `tracks_of_onTime` says that
nothing else does.
-/

namespace RgspCast.VideoStream

open RateClock Transition

/-! ## What is claimed -/

/-- Two frames are as far apart by their timestamps as by their captures, up to two frame intervals,
in parts of `fps * 90000 * 10⁹` a second. The timestamps wrap. -/
def Close (fps : ℕ) (first f : SentFrame) : Prop :=
  ∃ k : ℤ,
    ((fps : ℤ) *
      (((f.rtpTimestamp.toNat : ℤ) - first.rtpTimestamp.toNat + k * 2 ^ 32) * 1000000000 -
        (f.instant - first.instant) * 90000)).natAbs ≤ 2 * (90000 * 1000000000)

/-- The frames since the last reset are close to the first of them. -/
def Tracks (s : State) : Prop :=
  ∀ first ∈ s.sinceReset.head?, ∀ f ∈ s.sinceReset, Close s.cfg.fps.toNat first f

/-- The rounding of `m` frame intervals has not used the two up, and the product of the frame number
does not wrap. -/
def Fits (fps m : ℕ) : Prop := InBudget 90000 1000000000 fps m ∧ 90000 * (m + 1) < 2 ^ 64

/-- The panel is read at the deadline or within a frame interval of it, and the rounding still
fits. -/
def OnTime (s : State) : Action → Prop
  | .next _ instant _ true =>
    s.capture.deadline ≤ instant ∧ instant ≤ s.capture.deadline + s.capture.frameNs ∧
      (s.sinceReset = [] ∨ Fits s.cfg.fps.toNat s.sinceReset.length)
  | _ => True

instance (fps m : ℕ) : Decidable (Fits fps m) := inferInstanceAs (Decidable (_ ∧ _))

instance decidableOnTime (s : State) : (a : Action) → Decidable (OnTime s a)
  | .next _ _ _ true => inferInstanceAs (Decidable (_ ∧ _ ∧ _))
  | .next _ _ _ false | .requestIdr | .requestReset | .swapReset .. | .swapIdr .. | .send .. =>
    inferInstanceAs (Decidable True)

/-! ## The schedule -/

/-- The frame `i` intervals behind an origin: its number is `i + 1`, and it was read on time. -/
structure Scheduled (cfg : VideoConfig) (origin : ℤ) (i : ℕ) (f : SentFrame) : Prop where
  rtpTimestamp : f.rtpTimestamp = rtpTimestampFor (UInt64.ofNat (i + 1)) cfg.fps
  from_deadline : origin + i * cfg.frameNs ≤ f.instant
  to_deadline : f.instant ≤ origin + i * cfg.frameNs + cfg.frameNs
  fits : i = 0 ∨ Fits cfg.fps.toNat i

/-- The frames since the reset were read on a schedule that the deadline goes on with. -/
structure OnSchedule (cfg : VideoConfig) (s : State) : Prop where
  sameCfg : s.cfg = cfg
  frameNs : s.capture.frameNs = cfg.frameNs
  frameNumber : s.frameNumber = UInt64.ofNat s.sinceReset.length
  frames : ∃ origin, s.capture.deadline = origin + s.sinceReset.length * cfg.frameNs ∧
    ∀ i f, s.sinceReset[i]? = some f → Scheduled cfg origin i f

/-- A reading of the RTP clock, before it wraps. -/
theorem toNat_rtpTimestampFor {n : ℕ} (hlt : 90000 * n < 2 ^ 64) (fps : UInt32) :
    (rtpTimestampFor (UInt64.ofNat n) fps).toNat = ticks 90000 fps.toNat n % 2 ^ 32 := by
  have hhz : rtpClockHz.toNat = 90000 := rfl
  have hmul : (UInt64.ofNat n * rtpClockHz).toNat = 90000 * n := by
    rw [UInt64.toNat_mul, UInt64.toNat_ofNat', hhz]
    omega
  rw [rtpTimestampFor, UInt64.toNat_toUInt32, UInt64.toNat_div, hmul, UInt32.toNat_toUInt64, ticks]

/-- A frame is close to itself. -/
theorem close_self (fps : ℕ) (f : SentFrame) : Close fps f f := ⟨0, by simp⟩

section Negotiated

variable {context : VideoStreamContext}

/-- A rate whose rounding fits is far below the rates that the capture replaces. -/
theorem frameNs_of_fits {m : ℕ} (h : Fits (videoConfig context).fps.toNat m) :
    (videoConfig context).frameNs =
      (interval 1000000000 (videoConfig context).fps.toNat : ℕ) := by
  have hbudget := h.1
  have hmod := Nat.mod_le 1000000000 (videoConfig context).fps.toNat
  unfold InBudget at hbudget
  rw [VideoConfig.frameNs, toInt_fps_new, if_pos (by omega)]
  rfl

/-- **On a schedule** every frame is close to the first. -/
theorem close_of_scheduled {origin : ℤ} {first f : SentFrame} {i : ℕ}
    (hfirst : Scheduled (videoConfig context) origin 0 first)
    (hf : Scheduled (videoConfig context) origin i f)
    (hfits : Fits (videoConfig context).fps.toNat i) :
    Close (videoConfig context).fps.toNat first f := by
  have hpos : 0 < (videoConfig context).fps.toNat := by
    rw [toNat_fps]
    omega
  have hns := frameNs_of_fits hfits
  obtain ⟨hts, hfrom, hto, -⟩ := hf
  obtain ⟨hts₀, hfrom₀, hto₀, -⟩ := hfirst
  have hlate : (f.instant - first.instant -
      i * (interval 1000000000 (videoConfig context).fps.toNat : ℕ)).natAbs ≤
        interval 1000000000 (videoConfig context).fps.toNat := by
    rw [hns] at hfrom hto hfrom₀ hto₀
    omega
  have hclose := natAbs_sub_le hpos hfits.1 hlate
  have hread := congrArg UInt32.toNat hts
  have hread₀ := congrArg UInt32.toNat hts₀
  rw [toNat_rtpTimestampFor hfits.2] at hread
  rw [toNat_rtpTimestampFor (by decide)] at hread₀
  generalize ticks 90000 (videoConfig context).fps.toNat (i + 1) = T at hclose hread
  generalize ticks 90000 (videoConfig context).fps.toNat 1 = T₀ at hclose hread₀
  -- each reading lost whole turns of the timestamp
  refine ⟨(T / 2 ^ 32 : ℕ) - (T₀ / 2 ^ 32 : ℕ), ?_⟩
  have hturns : (f.rtpTimestamp.toNat : ℤ) - first.rtpTimestamp.toNat +
      ((T / 2 ^ 32 : ℕ) - (T₀ / 2 ^ 32 : ℕ)) * 2 ^ 32 = T - T₀ := by
    rw [hread, hread₀]
    omega
  rw [hturns]
  simpa using hclose

end Negotiated

/-! ## The loop keeps to the schedule -/

/-- What holds of each element at its place holds of one more, if it holds of that one. -/
theorem forall_getElem?_concat {α : Type*} {P : ℕ → α → Prop} {l : List α} {a : α}
    (hl : ∀ i b, l[i]? = some b → P i b) (ha : P l.length a) :
    ∀ i b, (l ++ [a])[i]? = some b → P i b := by
  intro i b hb
  rcases Nat.lt_or_ge i l.length with hi | hi
  · rw [List.getElem?_append_left hi] at hb
    exact hl i b hb
  · rw [List.getElem?_append_right hi, List.getElem?_singleton] at hb
    obtain ⟨hzero, rfl⟩ := Option.ite_some_none_eq_some.mp hb
    obtain rfl : i = l.length := by omega
    exact ha

section Loop

variable {cfg : VideoConfig} {s s' : State} {a : Action}

/-- Before the first frame every schedule is met. -/
theorem onSchedule_start (cfg : VideoConfig) (opened now : ℤ) :
    OnSchedule cfg (.start cfg opened now) where
  sameCfg := rfl
  frameNs := rfl
  frameNumber := rfl
  frames := ⟨opened, by simp [State.start], by simp [State.start]⟩

/-- A step that leaves the clock and the frames alone keeps the schedule. -/
theorem OnSchedule.congr (h : OnSchedule cfg s) (hcfg : s'.cfg = s.cfg)
    (hns : s'.capture.frameNs = s.capture.frameNs)
    (hdeadline : s'.capture.deadline = s.capture.deadline)
    (hnumber : s'.frameNumber = s.frameNumber) (hframes : s'.sinceReset = s.sinceReset) :
    OnSchedule cfg s' := by
  obtain ⟨h1, h2, h3, h4⟩ := h
  exact ⟨hcfg.trans h1, hns.trans h2, by rw [hnumber, hframes, h3], by rwa [hdeadline, hframes]⟩

/-- A reset starts a new schedule at the deadline. -/
theorem onSchedule_reset (hs : OnSchedule cfg s) (hcapture : s'.capture.frameNs = s.capture.frameNs)
    (hcfg : s'.cfg = s.cfg) (hnumber : s'.frameNumber = 0) (hframes : s'.sinceReset = []) :
    OnSchedule cfg s' where
  sameCfg := hcfg.trans hs.sameCfg
  frameNs := hcapture.trans hs.frameNs
  frameNumber := by
    rw [hnumber, hframes]
    rfl
  frames := ⟨s'.capture.deadline, by simp [hframes], by simp [hframes]⟩

/-- A frame that is read on time is the next one on the schedule: no frame was missed, and so none
is dropped. -/
theorem onSchedule_next {now instant back : ℤ} (hs : OnSchedule cfg s) (hnow : now ≤ instant)
    (hontime : OnTime s (.next now instant back true))
    (h : step s (.next now instant back true) = some s') : OnSchedule cfg s' := by
  obtain ⟨-, rfl⟩ := Option.ite_some_none_eq_some.mp h
  obtain ⟨origin, hdeadline, hframes⟩ := hs.frames
  obtain ⟨hfrom, hto, hfits⟩ := hontime
  have hnumber : s.frameNumber + 1 = UInt64.ofNat (s.sinceReset.length + 1) := by
    rw [hs.frameNumber, UInt64.ofNat_add]
    rfl
  -- a frame on time moves the deadline by exactly one period
  have hpaced : (s.capture.next now).deadline = s.capture.deadline + s.capture.frameNs :=
    if_neg (by omega)
  have hlength : (s.sinceReset ++ [s.frame instant]).length = s.sinceReset.length + 1 := by simp
  rw [hdeadline] at hfrom
  rw [hdeadline, hs.frameNs] at hto
  refine ⟨hs.sameCfg, hs.frameNs, hnumber.trans (by rw [← hlength]), origin, ?_, ?_⟩
  · show (s.capture.next now).deadline = _ + ((s.sinceReset ++ [s.frame instant]).length : ℕ) * _
    rw [hpaced, hdeadline, hs.frameNs, hlength, Int.natCast_succ, Int.add_mul, Int.one_mul,
      Int.add_assoc]
  · refine forall_getElem?_concat hframes ⟨?_, hfrom, hto, ?_⟩
    · show rtpTimestampFor (s.frameNumber + 1) s.cfg.fps = _
      rw [hnumber, hs.sameCfg]
    · rw [← hs.sameCfg]
      exact hfits.imp (fun h => by rw [h]; rfl) id

/-- A step in time keeps to the schedule. -/
theorem onSchedule_step (hok : OnTime s a) (h : step s a = some s') (hs : OnSchedule cfg s) :
    OnSchedule cfg s' := by
  cases a with
  | requestIdr | requestReset =>
    obtain rfl := Option.some.inj h
    exact hs.congr rfl rfl rfl rfl rfl
  | swapReset call mark =>
    obtain ⟨-, ⟨-, rfl⟩ | ⟨-, rfl⟩⟩ := swapReset_eq_some h
    -- a reset starts a new origin with no frame behind it
    · exact onSchedule_reset hs rfl rfl rfl rfl
    · exact hs.congr rfl rfl rfl rfl rfl
  | swapIdr check call mark =>
    obtain ⟨-, ⟨-, rfl⟩ | ⟨-, rfl⟩ | ⟨-, rfl⟩⟩ := swapIdr_eq_some h
    · exact hs.congr rfl rfl rfl rfl rfl
    · exact hs.congr rfl rfl rfl rfl rfl
    · exact hs.congr rfl rfl rfl rfl rfl
  | next now instant back ok =>
    obtain ⟨⟨-, -, hnow, -⟩, ⟨rfl, -⟩ | ⟨rfl, rfl⟩⟩ := next_eq_some h
    · exact onSchedule_next hs hnow hok h
    · exact hs.congr rfl rfl rfl rfl rfl
  | send back ok =>
    obtain ⟨-, rfl⟩ := Option.ite_some_none_eq_some.mp h
    exact hs.congr rfl rfl rfl rfl rfl

end Loop

/-- **The timestamps track the captures** in every run whose frames are all read on time. -/
theorem tracks_of_onTime {context : VideoStreamContext} {opened now : ℤ} {as : List Action}
    {s : State}
    (hontime : Guarded OnTime step (.start (videoConfig context) opened now) as)
    (hrun : run step (.start (videoConfig context) opened now) as = some s) : Tracks s := by
  have hs : OnSchedule (videoConfig context) s :=
    run_invariant_of_guarded (fun _ _ _ => onSchedule_step) hontime hrun
      (onSchedule_start (videoConfig context) opened now)
  obtain ⟨origin, -, hframes⟩ := hs.frames
  intro first hfirst f hf
  obtain ⟨i, hi⟩ := List.mem_iff_getElem?.mp hf
  have hhead : s.sinceReset[0]? = some first := by rwa [← List.head?_eq_getElem?]
  rw [hs.sameCfg]
  have hscheduled := hframes i f hi
  rcases hscheduled.fits with rfl | hfits
  · obtain rfl := Option.some.inj (hhead.symm.trans hi)
    exact close_self _ _
  · exact close_of_scheduled (hframes 0 first hhead) hscheduled hfits

/-- Three frames, of which the second is read 5 ms behind its deadline, and a reset before the
third. -/
def unhurried : List Action :=
  [.swapReset 0 0, .swapIdr 0 0 0, .next 0 1000 2000000 true, .send 3000000 true,
    .swapReset 3000000 3000000, .swapIdr 3000000 3000000 3000000,
    .next 3000000 21666666 22000000 true, .requestReset, .send 23000000 true,
    .swapReset 23000000 23000000, .next 23000000 33333400 34000000 true, .send 35000000 true]

/-- The run of these three frames. -/
theorem tracks_unhurried :
    ∃ s, run step (.start (videoConfig moonlight) 0 0) unhurried = some s ∧
      s.sent.map (·.rtpTimestamp) = [1500, 3000, 1500] ∧ Tracks s :=
  ⟨_, rfl, by decide, @tracks_of_onTime moonlight 0 0 unhurried _ (by decide) rfl⟩

/-- A stall of one second between two frames. -/
def stalled : List Action :=
  [.swapReset 0 0, .swapIdr 0 0 0, .next 0 0 2000000 true, .send 1002000000 true,
    .swapReset 1002000000 1002000000, .swapIdr 1002000000 1002000000 1002000000,
    .next 1002000000 1002000000 1004000000 true]

/-- At 60 frames a second the second timestamp is 1500 ticks behind the first, where the clock says
90180, and there is nothing in the numbering that would make up for it. -/
theorem not_tracks :
    ¬ ∀ (context : VideoStreamContext) (opened now : ℤ) (as : List Action) (s : State),
      run step (.start (videoConfig context) opened now) as = some s → Tracks s := by
  intro hall
  have htracks := hall moonlight 0 0 stalled _ rfl
  obtain ⟨k, hk⟩ := htracks ⟨1, 1500, 0, false⟩ (by decide) ⟨2, 3000, 1002000000, false⟩ (by decide)
  have hfps : (videoConfig moonlight).fps.toNat = 60 := by decide
  have hts : (3000 : UInt32).toNat = 3000 ∧ (1500 : UInt32).toNat = 1500 := by decide
  change ((((videoConfig moonlight).fps.toNat : ℕ) : ℤ) * ((((3000 : UInt32).toNat : ℤ) -
    (1500 : UInt32).toNat + k * 2 ^ 32) * 1000000000 - (1002000000 - 0) * 90000)).natAbs ≤ _ at hk
  rw [hfps, hts.1, hts.2] at hk
  omega

end RgspCast.VideoStream
