import RgspCast.Host.RtpClock

/-!
# Frame numbers and timestamps

A reset starts the numbering over. The runs here carry the numbering periods that resets have
closed, so that every frame sent is in one period (`Logged`). In each period the frames are numbered
from 1 on without a gap, each timestamp is the reading of a 90 kHz clock, and no two of them drift
apart (`numbered_of_run`).
-/

namespace RgspCast.VideoStream

open RateClock Transition

/-! ## Numbering periods -/

/-- The action takes up a reset request. -/
def Resets (s : State) : Action → Prop
  | .swapReset .. => s.reset = true
  | _ => False

instance decidableResets (s : State) : (a : Action) → Decidable (Resets s a)
  | .swapReset .. => inferInstanceAs (Decidable (_ = true))
  | .requestIdr | .requestReset | .swapIdr .. | .next .. | .send .. =>
    inferInstanceAs (Decidable False)

/-- The loop, with the periods that are over. -/
structure Logged where
  state : State
  closed : List (List SentFrame)
  deriving DecidableEq, Repr

def Logged.start (cfg : VideoConfig) (opened now : ℤ) : Logged := ⟨.start cfg opened now, []⟩

/-- A reset that is taken up closes the period. -/
def Logged.step (s : Logged) (a : Action) : Option Logged :=
  (VideoStream.step s.state a).map fun t =>
    ⟨t, if Resets s.state a then s.closed ++ [s.state.sinceReset] else s.closed⟩

/-- All periods, the one that is not over last. -/
def Logged.periods (s : Logged) : List (List SentFrame) := s.closed ++ [s.state.sinceReset]

/-! ## What is claimed -/

/-- The difference of two timestamps, as the wire has it, is `k` frame intervals in ticks, rounded
down or rounded up. -/
def Apart (fps k : ℕ) (f g : SentFrame) : Prop :=
  (g.rtpTimestamp - f.rtpTimestamp).toNat = 90000 * k / fps % 2 ^ 32 ∨
    (g.rtpTimestamp - f.rtpTimestamp).toNat = (90000 * k + (fps - 1)) / fps % 2 ^ 32

/-- The frames of a period are numbered from 1, their timestamps are readings of the RTP clock that
no product overflowed for, and they do not drift. -/
structure Numbered (fps : ℕ) (frames : List SentFrame) : Prop where
  number : ∀ i f, frames[i]? = some f → f.frameNumber.toNat = i + 1
  timestamp : ∀ f ∈ frames, 90000 * f.frameNumber.toNat < 2 ^ 64 ∧
    f.rtpTimestamp.toNat = 90000 * f.frameNumber.toNat / fps % 2 ^ 32
  apart : ∀ f ∈ frames, ∀ g ∈ frames, f.frameNumber.toNat < g.frameNumber.toNat →
    Apart fps (g.frameNumber.toNat - f.frameNumber.toNat) f g

/-! ## The loop numbers its frames -/

/-- The frame that is the `n`-th of its period, in the widths of the machine. -/
def IsNth (cfg : VideoConfig) (n : ℕ) (f : SentFrame) : Prop :=
  f.frameNumber = (UInt64.ofNat n).toUInt32 ∧
    f.rtpTimestamp = rtpTimestampFor (UInt64.ofNat n) cfg.fps

/-- The frames of a period are the first, the second and so on. -/
def InOrder (cfg : VideoConfig) (frames : List SentFrame) : Prop :=
  ∀ i f, frames[i]? = some f → IsNth cfg (i + 1) f

theorem inOrder_nil (cfg : VideoConfig) : InOrder cfg [] := nofun

/-- What every run keeps. -/
structure Numbering (cfg : VideoConfig) (s : Logged) : Prop where
  sameCfg : s.state.cfg = cfg
  frameNumber : s.state.frameNumber = UInt64.ofNat s.state.sinceReset.length
  sent : s.state.sent = s.periods.flatten
  inOrder : ∀ p ∈ s.periods, InOrder cfg p

section Loop

variable {cfg : VideoConfig} {s : Logged} {t : State}

/-- The first frame will get the first number. -/
theorem numbering_start (cfg : VideoConfig) (opened now : ℤ) :
    Numbering cfg (.start cfg opened now) where
  sameCfg := rfl
  frameNumber := rfl
  sent := rfl
  inOrder := List.forall_mem_singleton.mpr (inOrder_nil cfg)

/-- A step that numbers nothing and resets nothing. -/
theorem Numbering.quiet (hs : Numbering cfg s) (hcfg : t.cfg = s.state.cfg)
    (hnumber : t.frameNumber = s.state.frameNumber) (hsent : t.sent = s.state.sent)
    (hframes : t.sinceReset = s.state.sinceReset) : Numbering cfg ⟨t, s.closed⟩ := by
  have hperiods : Logged.periods ⟨t, s.closed⟩ = s.periods := by
    rw [Logged.periods, Logged.periods, hframes]
  exact ⟨hcfg.trans hs.sameCfg, by rw [hnumber, hs.frameNumber, hframes],
    by rw [hperiods, hsent, hs.sent], by rw [hperiods]; exact hs.inOrder⟩

/-- A reset closes a period and opens an empty one. -/
theorem Numbering.reset (hs : Numbering cfg s) (hcfg : t.cfg = s.state.cfg)
    (hnumber : t.frameNumber = 0) (hsent : t.sent = s.state.sent) (hframes : t.sinceReset = []) :
    Numbering cfg ⟨t, s.closed ++ [s.state.sinceReset]⟩ := by
  have hperiods : Logged.periods ⟨t, s.closed ++ [s.state.sinceReset]⟩ = s.periods ++ [[]] := by
    rw [Logged.periods, Logged.periods, hframes]
  refine ⟨hcfg.trans hs.sameCfg, by rw [hnumber, hframes]; rfl, ?_, ?_⟩
  · rw [hperiods, hsent, hs.sent]
    simp
  · rw [hperiods]
    exact List.forall_mem_append.mpr
      ⟨hs.inOrder, List.forall_mem_singleton.mpr (inOrder_nil cfg)⟩

/-- A frame gets the next number of its period. -/
theorem Numbering.frame (hs : Numbering cfg s) {instant : ℤ} (hcfg : t.cfg = s.state.cfg)
    (hnumber : t.frameNumber = s.state.frameNumber + 1)
    (hsent : t.sent = s.state.sent ++ [s.state.frame instant])
    (hframes : t.sinceReset = s.state.sinceReset ++ [s.state.frame instant]) :
    Numbering cfg ⟨t, s.closed⟩ := by
  have hnext : s.state.frameNumber + 1 = UInt64.ofNat (s.state.sinceReset.length + 1) := by
    rw [hs.frameNumber, UInt64.ofNat_add]
    rfl
  obtain ⟨hclosed, hopen⟩ := List.forall_mem_append.mp hs.inOrder
  refine ⟨hcfg.trans hs.sameCfg, ?_, ?_, List.forall_mem_append.mpr ⟨hclosed, ?_⟩⟩
  · rw [hnumber, hnext, hframes, List.length_append, List.length_singleton]
  · have hperiods := hs.sent
    simp only [Logged.periods, List.flatten_append, List.flatten_singleton] at hperiods ⊢
    rw [hsent, hframes, hperiods, List.append_assoc]
  · rw [List.forall_mem_singleton, hframes]
    refine forall_getElem?_concat (List.forall_mem_singleton.mp hopen) ⟨?_, ?_⟩
    · rw [← hnext]
      rfl
    · rw [← hnext, ← hs.sameCfg]
      rfl

/-- A frame that is sent takes the next number, and a reset starts over. -/
theorem numbering_step {s' : Logged} {a : Action} (h : s.step a = some s')
    (hs : Numbering cfg s) : Numbering cfg s' := by
  obtain ⟨t, hstep, rfl⟩ := Option.map_eq_some_iff.mp h
  -- a swap that finds the flag set starts a period, a frame extends the last one
  cases a with
  | requestIdr | requestReset =>
    obtain rfl := Option.some.inj hstep
    exact hs.quiet rfl rfl rfl rfl
  | swapReset call mark =>
    obtain ⟨-, ⟨hflag, rfl⟩ | ⟨hflag, rfl⟩⟩ := swapReset_eq_some hstep
    · rw [if_pos (show Resets s.state (.swapReset call mark) from hflag)]
      exact hs.reset rfl rfl rfl rfl
    · rw [if_neg (show ¬ Resets s.state (.swapReset call mark) by simp [Resets, hflag])]
      exact hs.quiet rfl rfl rfl rfl
  | swapIdr check call mark =>
    obtain ⟨-, ⟨-, rfl⟩ | ⟨-, rfl⟩ | ⟨-, rfl⟩⟩ := swapIdr_eq_some hstep
    · exact hs.quiet rfl rfl rfl rfl
    · exact hs.quiet rfl rfl rfl rfl
    · exact hs.quiet rfl rfl rfl rfl
  | next now instant back ok =>
    obtain ⟨-, ⟨rfl, rfl⟩ | ⟨rfl, rfl⟩⟩ := next_eq_some hstep
    · exact hs.frame rfl rfl rfl rfl
    · exact hs.quiet rfl rfl rfl rfl
  | send back ok =>
    obtain ⟨-, rfl⟩ := Option.ite_some_none_eq_some.mp hstep
    exact hs.quiet rfl rfl rfl rfl

end Loop

/-! ## What the numbers say -/

section Period

variable {cfg : VideoConfig} {frames : List SentFrame}

/-- Below `2 ^ 32` the number of a frame is its place, and its timestamp the reading there. -/
theorem IsNth.values {n : ℕ} {f : SentFrame} (h : IsNth cfg n f) (hn : n < 2 ^ 32) :
    f.frameNumber.toNat = n ∧ f.rtpTimestamp.toNat = ticks 90000 cfg.fps.toNat n % 2 ^ 32 := by
  obtain ⟨hnumber, htimestamp⟩ := h
  refine ⟨?_, ?_⟩
  · rw [hnumber, UInt64.toNat_toUInt32, UInt64.toNat_ofNat']
    omega
  · rw [htimestamp, toNat_rtpTimestampFor (by omega)]

/-- The difference of two readings that have wrapped. -/
theorem apart_of_ticks {fps m k : ℕ} {f g : SentFrame}
    (hf : f.rtpTimestamp.toNat = ticks 90000 fps m % 2 ^ 32)
    (hg : g.rtpTimestamp.toNat = ticks 90000 fps (m + k) % 2 ^ 32) : Apart fps k f g := by
  have hle : ticks 90000 fps m ≤ ticks 90000 fps (m + k) :=
    Nat.div_le_div_right (Nat.mul_le_mul_left 90000 (Nat.le_add_right m k))
  have hsub : (g.rtpTimestamp - f.rtpTimestamp).toNat =
      (ticks 90000 fps (m + k) - ticks 90000 fps m) % 2 ^ 32 := by
    rw [UInt32.toNat_sub, hf, hg]
    omega
  unfold Apart
  rw [hsub]
  exact (ticks_add_sub 90000 fps m k).imp (congrArg (· % 2 ^ 32)) (congrArg (· % 2 ^ 32))

/-- A period of fewer than `2 ^ 32` frames. -/
theorem numbered_of_inOrder (h : InOrder cfg frames) (hlen : frames.length < 2 ^ 32) :
    Numbered cfg.fps.toNat frames := by
  have hvalues : ∀ i f, frames[i]? = some f → f.frameNumber.toNat = i + 1 ∧
      f.rtpTimestamp.toNat = ticks 90000 cfg.fps.toNat (i + 1) % 2 ^ 32 := by
    intro i f hi
    obtain ⟨hlt, -⟩ := List.getElem?_eq_some_iff.mp hi
    exact (h i f hi).values (by omega)
  refine ⟨fun i f hi => (hvalues i f hi).1, fun f hf => ?_, fun f hf g hg hlt => ?_⟩
  · obtain ⟨i, hi⟩ := List.mem_iff_getElem?.mp hf
    obtain ⟨hnumber, htimestamp⟩ := hvalues i f hi
    obtain ⟨hlt, -⟩ := List.getElem?_eq_some_iff.mp hi
    rw [hnumber]
    exact ⟨by omega, htimestamp⟩
  -- frame numbers are one past the indices, so their order is that of the frames
  · obtain ⟨i, hi⟩ := List.mem_iff_getElem?.mp hf
    obtain ⟨j, hj⟩ := List.mem_iff_getElem?.mp hg
    obtain ⟨hm, hf⟩ := hvalues i f hi
    obtain ⟨hn, hg⟩ := hvalues j g hj
    rw [hm, hn] at hlt ⊢
    refine apart_of_ticks hf ?_
    rwa [Nat.add_sub_cancel' (Nat.le_of_lt hlt)]

end Period

/-- **Every frame sent is in one numbering period**, and each period that a reset or the end of the
run closes before `2 ^ 32` frames is numbered from 1 without a gap, on a clock that does not
drift. -/
theorem numbered_of_run {cfg : VideoConfig} {opened now : ℤ} {as : List Action} {s : Logged}
    (hrun : run Logged.step (.start cfg opened now) as = some s)
    (hfew : ∀ p ∈ s.periods, p.length < 2 ^ 32) :
    s.state.sent = s.periods.flatten ∧ ∀ p ∈ s.periods, Numbered cfg.fps.toNat p := by
  have hs : Numbering cfg s :=
    run_invariant (fun _ _ _ => numbering_step) hrun (numbering_start cfg opened now)
  exact ⟨hs.sent, fun p hp => numbered_of_inOrder (hs.inOrder p hp) (hfew p hp)⟩

/-- Two frames, a reset, and one frame, at a rate that does not divide 90000. -/
theorem numbered_of_run_sevenths :
    ∃ s, run Logged.step (.start ⟨1280, 720, 7, 20000000⟩ 0 0) unhurried = some s ∧
      s.state.sent.map (·.frameNumber) = [1, 2, 1] ∧
      s.state.sent.map (·.rtpTimestamp) = [12857, 25714, 12857] ∧
      ∀ p ∈ s.periods, Numbered 7 p :=
  ⟨_, rfl, by decide, by decide,
    (@numbered_of_run ⟨1280, 720, 7, 20000000⟩ 0 0 unhurried _ rfl (by decide)).2⟩

end RgspCast.VideoStream
