import Mathlib.Data.Nat.Notation
import RgspCast.Lib.Transition

/-!
# Whole audio periods

`run_audio` fills a buffer of one period from reads of any length and sends it when it is full. The
encoder drops a chunk of any other size without an error, so the arithmetic of the refill, in frames
on one side and in samples on the other, has to be right for every pattern of short reads.

A step of the system is one `readi` of the capture, with what it returns, or one `blocking_send`, so
a schedule is a sequence of read results of any kind. `reassembles_of_run` says that the chunks sent
and the part of a period in the buffer are the samples read. What is in the buffer is lost when the
loop ends: part of a period where a read ends it, and a whole one where the channel is closed
(`closed_loses_a_period`).
-/

namespace RgspCast.AudioPeriods

open Transition

/-- `CHANNELS`. -/
def channels : ℕ := 2

/-- `PERIOD_FRAMES`, which is `FRAME_FRAMES` too. -/
def periodFrames : ℕ := 240

/-- The samples of a period. -/
def samples : ℕ := periodFrames * channels

/-- `chunk_len_is_valid`. -/
def chunkLenIsValid (pcm : List Int16) (expectedSamples : ℕ) : Bool :=
  pcm.length == expectedSamples

/-- The two samples of one instant. -/
abbrev Frame := Int16 × Int16

/-- Frames as they lie in a buffer. -/
def interleave (frames : List Frame) : List Int16 := frames.flatMap fun (l, r) => [l, r]

inductive AudioError where
  /-- "no audio channel for this session" -/
  | noChannel
  /-- `LoopbackCapture::open` failed. -/
  | open
  /-- `LoopbackCapture::read` failed. -/
  | read
  /-- "loopback capture returned no frames" -/
  | noFrames
  /-- "audio stream closed" -/
  | closed
  deriving DecidableEq, Repr

/-- Where the loop stands. -/
inductive Phase where
  /-- In `LoopbackCapture::read`, for the rest of the buffer. -/
  | filling
  /-- The buffer is full and in `blocking_send`. -/
  | sending
  | ended (error : AudioError)
  deriving DecidableEq, Repr

structure State where
  phase : Phase
  buf : List Int16
  /-- In frames. -/
  filled : ℕ
  overrunCount : ℕ
  /-- The chunks the channel has taken, oldest first. -/
  sent : List (List Int16)
  deriving DecidableEq, Repr

/-- The top of the loop. -/
def State.nextPeriod (s : State) : State :=
  { s with phase := .filling, buf := List.replicate samples 0, filled := 0 }

/-- `run_audio` with or without a channel, and with a capture that opens or does not. -/
def init (pcmTx opened : Bool) : State :=
  let s : State := State.nextPeriod ⟨.filling, [], 0, 0, []⟩
  if !pcmTx then { s with phase := .ended .noChannel }
  else if !opened then { s with phase := .ended .open }
  else s

inductive Action where
  /-- `readi` returns these frames. -/
  | readi (frames : List Frame)
  /-- `readi` reports an overrun; `recovered` is false where `prepare` or `start` then fails. -/
  | overrun (recovered : Bool)
  /-- `readi`, or `io_i16` before it, fails otherwise. -/
  | fail
  /-- `blocking_send` returns; `taken` is false where the channel is closed. -/
  | send (taken : Bool)

/-- The slice `buf[filled * CHANNELS..]` that `read` is given. -/
def State.slice (s : State) : List Int16 := s.buf.drop (s.filled * channels)

/-- A read has put these frames at the front of the slice. -/
def State.fill (s : State) (frames : List Frame) : State :=
  let filled := s.filled + frames.length
  { s with
    phase := if filled < periodFrames then .filling else .sending
    buf := s.buf.take (s.filled * channels) ++ interleave frames ++
      s.slice.drop (interleave frames).length
    filled }

/-- One step; `none` where it cannot be taken. A read returns at most what there is room for. -/
def step (s : State) : Action → Option State
  | .readi frames =>
    if s.phase = .filling ∧ frames.length * channels ≤ s.slice.length then
      some (if frames.length = 0 then { s with phase := .ended .noFrames } else s.fill frames)
    else none
  | .overrun recovered =>
    if s.phase = .filling then
      some { s with
        phase := if recovered then .filling else .ended .read
        overrunCount := s.overrunCount + 1 }
    else none
  | .fail => if s.phase = .filling then some { s with phase := .ended .read } else none
  | .send taken =>
    if s.phase = .sending then
      some (if taken then { s with sent := s.sent ++ [s.buf] }.nextPeriod
        else { s with phase := .ended .closed })
    else none

/-- The samples the reads of a schedule returned, in order. -/
def samplesRead (as : List Action) : List Int16 :=
  as.flatMap fun
    | .readi frames => interleave frames
    | _ => []

/-- The part of the period that is in the buffer. -/
def State.pending (s : State) : List Int16 := s.buf.take (s.filled * channels)

/-- Every chunk sent is one that the encoder takes; the chunks and what is in the buffer are the
samples read; a read is given a buffer that holds a frame, and only whole ones; and a read that
returns nothing has ended the loop. -/
structure Reassembles (as : List Action) (s : State) : Prop where
  chunks : ∀ c ∈ s.sent, c.length = 240 * 2 ∧ chunkLenIsValid c (periodFrames * 2) = true
  lossless : samplesRead as = s.sent.flatten ++ s.pending
  buffers : s.phase = .filling → s.slice ≠ [] ∧ s.slice.length % channels = 0
  zero : Action.readi [] ∈ as → s.phase = .ended .noFrames

/-! ## The invariant -/

/-- How much of the period there is. -/
def FilledAt (filled : ℕ) : Phase → Prop
  | .sending | .ended .closed => filled = periodFrames
  | _ => filled < periodFrames

structure Inv (as : List Action) (s : State) : Prop where
  length : s.buf.length = samples
  chunks : ∀ c ∈ s.sent, c.length = samples
  lossless : samplesRead as = s.sent.flatten ++ s.pending
  filled : FilledAt s.filled s.phase
  zero : Action.readi [] ∈ as → s.phase = .ended .noFrames

/-- Every frame has a sample for each channel. -/
@[simp] theorem length_interleave (frames : List Frame) :
    (interleave frames).length = frames.length * channels := by
  induction frames with
  | nil => rfl
  | cons frame frames ih =>
    rw [interleave, List.flatMap_cons, List.length_append, ← interleave, ih]
    show channels + frames.length * channels = (frames.length + 1) * channels
    rw [Nat.succ_mul, Nat.add_comm]

/-- What was read before, and what the last action read. -/
theorem samplesRead_concat (as : List Action) (a : Action) :
    samplesRead (as ++ [a]) = samplesRead as ++ samplesRead [a] :=
  List.flatMap_append

/-- The slice that `readi` fills is the rest of the period. -/
theorem length_slice {as : List Action} {s : State} (h : Inv as s) :
    s.slice.length = samples - s.filled * channels := by
  rw [State.slice, List.length_drop, h.length]

/-- What was pending, and then the frames. -/
theorem pending_fill {s : State} {frames : List Frame}
    (hfit : s.filled * channels ≤ s.buf.length) :
    (s.fill frames).pending = s.pending ++ interleave frames := by
  have hlen : (s.pending ++ interleave frames).length = (s.filled + frames.length) * channels := by
    rw [List.length_append, length_interleave, State.pending, List.length_take,
      Nat.min_eq_left hfit, Nat.add_mul]
  show (s.pending ++ interleave frames ++ _).take ((s.filled + frames.length) * channels) = _
  rw [← hlen]
  exact List.take_left

/-- Filling leaves the length of the buffer. -/
theorem length_fill {s : State} {frames : List Frame}
    (hroom : frames.length * channels ≤ s.slice.length)
    (hfit : s.filled * channels ≤ s.buf.length) :
    (s.fill frames).buf.length = s.buf.length := by
  have hslice : s.slice.length = s.buf.length - s.filled * channels := List.length_drop
  simp only [State.fill, List.length_append, List.length_take, List.length_drop,
    length_interleave]
  omega

/-- A full buffer is all pending. -/
theorem pending_eq_buf {as : List Action} {s : State} (h : Inv as s)
    (hfull : s.filled = periodFrames) : s.pending = s.buf := by
  rw [State.pending, hfull]
  exact List.take_of_length_le (Nat.le_of_eq h.length)

/-- Nothing has been read, and nothing is pending. -/
theorem inv_init (pcmTx opened : Bool) : Inv [] (init pcmTx opened) := by
  cases pcmTx <;> cases opened <;>
    exact ⟨List.length_replicate, nofun, rfl, Nat.zero_lt_succ 239, nofun⟩

/-- A step that reads nothing and leaves the period as it is. -/
theorem Inv.of_phase {as : List Action} {s : State} (h : Inv as s) {a : Action} {phase : Phase}
    {overrunCount : ℕ} (hread : samplesRead [a] = []) (hne : a ≠ .readi [])
    (hrunning : ∀ e, s.phase ≠ .ended e) (hfilled : FilledAt s.filled phase) :
    Inv (as ++ [a]) { s with phase := phase, overrunCount := overrunCount } where
  length := h.length
  chunks := h.chunks
  lossless := by
    rw [samplesRead_concat, hread, List.append_nil]
    exact h.lossless
  filled := hfilled
  zero := by
    intro hmem
    rcases List.mem_append.mp hmem with hmem | hmem
    · exact absurd (h.zero hmem) (hrunning .noFrames)
    · exact absurd (List.mem_singleton.mp hmem).symm hne

/-- A read adds its frames behind those that are there. -/
theorem inv_readi {as : List Action} {s : State} (h : Inv as s) {frames : List Frame}
    (hphase : s.phase = .filling) (hroom : frames.length * channels ≤ s.slice.length)
    (hsome : frames.length ≠ 0) : Inv (as ++ [.readi frames]) (s.fill frames) := by
  have hfilled : s.filled < periodFrames := by
    have := h.filled
    rwa [hphase] at this
  have hfit : s.filled * channels ≤ s.buf.length := by
    rw [h.length]
    exact Nat.mul_le_mul_right channels (Nat.le_of_lt hfilled)
  have hle : s.filled + frames.length ≤ periodFrames := by
    rw [length_slice h, samples, ← Nat.sub_mul] at hroom
    have := Nat.le_of_mul_le_mul_right hroom (Nat.zero_lt_two)
    omega
  constructor
  · rw [length_fill hroom hfit, h.length]
  · exact h.chunks
  -- what was read so far is what was sent, then what is pending, then these frames
  · rw [samplesRead_concat, h.lossless, pending_fill hfit, List.append_assoc]
    show _ ++ (_ ++ (interleave frames ++ [])) = s.sent.flatten ++ _
    rw [List.append_nil]
  · show FilledAt (s.filled + frames.length)
      (if s.filled + frames.length < periodFrames then .filling else .sending)
    split
    next hlt => exact hlt
    next hge => exact Nat.le_antisymm hle (Nat.le_of_not_lt hge)
  · intro hmem
    rcases List.mem_append.mp hmem with hmem | hmem
    · rw [h.zero hmem] at hphase
      cases hphase
    · obtain rfl := Action.readi.inj (List.mem_singleton.mp hmem)
      exact absurd rfl hsome

/-- The channel takes the period, and the next one begins. -/
theorem inv_send {as : List Action} {s : State} (h : Inv as s) (hphase : s.phase = .sending) :
    Inv (as ++ [.send true]) { s with sent := s.sent ++ [s.buf] }.nextPeriod := by
  have hfull : s.filled = periodFrames := by
    have := h.filled
    rwa [hphase] at this
  constructor
  · exact List.length_replicate
  · exact List.forall_mem_append.mpr ⟨h.chunks, List.forall_mem_singleton.mpr h.length⟩
  · rw [samplesRead_concat, h.lossless, pending_eq_buf h hfull]
    show _ ++ [] = (s.sent ++ [s.buf]).flatten ++ []
    rw [List.flatten_append, List.flatten_singleton]
  · exact Nat.zero_lt_succ 239
  · intro hmem
    rcases List.mem_append.mp hmem with hmem | hmem
    · rw [h.zero hmem] at hphase
      cases hphase
    · cases List.mem_singleton.mp hmem

/-- Every action keeps the invariant; a full period is sent or ends the loop. -/
theorem inv_step (as : List Action) (s : State) (a : Action) (s' : State)
    (h : step s a = some s') (hs : Inv as s) : Inv (as ++ [a]) s' := by
  have hfilled := hs.filled
  cases a with
  | readi frames =>
    obtain ⟨⟨hphase, hroom⟩, rfl⟩ := Option.ite_some_none_eq_some.mp h
    split
    -- a read of nothing ends the loop
    next hnone =>
      obtain rfl := List.eq_nil_of_length_eq_zero hnone
      rw [hphase] at hfilled
      constructor
      · exact hs.length
      · exact hs.chunks
      · rw [samplesRead_concat, hs.lossless]
        exact List.append_nil _
      · exact hfilled
      · exact fun _ => rfl
    next hsome => exact inv_readi hs hphase hroom hsome
  -- an overrun throws nothing away that was read
  | overrun recovered =>
    obtain ⟨hphase, rfl⟩ := Option.ite_some_none_eq_some.mp h
    rw [hphase] at hfilled
    refine hs.of_phase rfl nofun (by rw [hphase]; nofun) ?_
    cases recovered <;> exact hfilled
  | fail =>
    obtain ⟨hphase, rfl⟩ := Option.ite_some_none_eq_some.mp h
    rw [hphase] at hfilled
    exact hs.of_phase rfl nofun (by rw [hphase]; nofun) hfilled
  | send taken =>
    obtain ⟨hphase, rfl⟩ := Option.ite_some_none_eq_some.mp h
    cases taken with
    | true => exact inv_send hs hphase
    | false =>
      rw [hphase] at hfilled
      exact hs.of_phase rfl nofun (by rw [hphase]; nofun) hfilled

/-- The invariant after any run. -/
theorem inv_of_run {pcmTx opened : Bool} {as : List Action} {s : State}
    (hrun : run step (init pcmTx opened) as = some s) : Inv as s :=
  run_history inv_step hrun (inv_init pcmTx opened)

/-! ## Reassembly -/

/-- What is pending is as long as it is counted. -/
theorem length_pending {as : List Action} {s : State} (h : Inv as s)
    (hle : s.filled ≤ periodFrames) : s.pending.length = s.filled * channels := by
  rw [State.pending, List.length_take, h.length]
  exact Nat.min_eq_left (Nat.mul_le_mul_right channels hle)

/-- The invariant says that nothing is lost and nothing is repeated. -/
theorem Inv.reassembles {as : List Action} {s : State} (h : Inv as s) : Reassembles as s where
  chunks := by
    intro c hc
    have hlen : c.length = 240 * 2 := h.chunks c hc
    exact ⟨hlen, beq_iff_eq.mpr hlen⟩
  lossless := h.lossless
  buffers := by
    intro hphase
    have hfilled : s.filled < periodFrames := by
      have := h.filled
      rwa [hphase] at this
    have hslice : s.slice.length = (periodFrames - s.filled) * channels := by
      rw [length_slice h, samples, ← Nat.sub_mul]
    constructor
    · rw [← List.length_pos_iff, hslice]
      exact Nat.mul_pos (Nat.sub_pos_of_lt hfilled) Nat.zero_lt_two
    · rw [hslice]
      exact Nat.mul_mod_left _ _
  zero := h.zero

/-- A read that there is room for. -/
theorem step_readi {s : State} {frames : List Frame} (hphase : s.phase = .filling)
    (hlen : s.buf.length = samples) (hsome : frames.length ≠ 0)
    (hfit : s.filled + frames.length ≤ periodFrames) :
    step s (.readi frames) = some (s.fill frames) := by
  have hroom : frames.length * channels ≤ s.slice.length := by
    rw [State.slice, List.length_drop, hlen, samples, ← Nat.sub_mul]
    exact Nat.mul_le_mul_right channels (Nat.le_sub_of_add_le' hfit)
  rw [step, if_pos ⟨hphase, hroom⟩, if_neg hsome]

/-- A period in two reads, and what the channel makes of it. -/
theorem run_period {frames frames' : List Frame} (hsome : frames.length ≠ 0)
    (hsome' : frames'.length ≠ 0) (hsum : frames.length + frames'.length = periodFrames)
    (taken : Bool) :
    ∃ s, run step (init true true) [.readi frames, .readi frames', .send taken] = some s ∧
      s.phase = if taken then .filling else .ended .closed := by
  let short := (init true true).fill frames
  let full := short.fill frames'
  have hfilled : short.filled = frames.length := Nat.zero_add _
  have hshort : step (init true true) (.readi frames) = some short := by
    refine step_readi rfl List.length_replicate hsome ?_
    show 0 + frames.length ≤ periodFrames
    omega
  have hlen : short.buf.length = samples := (inv_step _ _ _ _ hshort (inv_init true true)).length
  -- the first read is short, so the loop asks for the rest
  have hfilling : short.phase = .filling := if_pos (show 0 + frames.length < periodFrames by omega)
  have hfull : step short (.readi frames') = some full :=
    step_readi hfilling hlen hsome' (by omega)
  have hsending : full.phase = .sending :=
    if_neg (show ¬ short.filled + frames'.length < periodFrames by omega)
  have hsend : step full (.send taken) = some (if taken then
      { full with sent := full.sent ++ [full.buf] }.nextPeriod
      else { full with phase := .ended .closed }) :=
    if_pos hsending
  refine ⟨_, run_cons_eq_some.mpr ⟨short, hshort, run_cons_eq_some.mpr ⟨full, hfull,
    run_cons_eq_some.mpr ⟨_, hsend, rfl⟩⟩⟩, ?_⟩
  cases taken <;> rfl

/-- A period in two reads. -/
def twoReads : List Action :=
  [.readi (List.replicate 100 (1, 2)), .readi (List.replicate 140 (3, 4))]

/-- The two reads fill a period, whether it is taken or not. -/
theorem run_twoReads (taken : Bool) :
    ∃ s, run step (init true true) (twoReads ++ [.send taken]) = some s ∧
      s.phase = if taken then .filling else .ended .closed :=
  run_period (by simp) (by simp) (by simp [periodFrames]) taken

/-- The loop has ended on a closed channel, and what it discards is a whole period. -/
theorem closed_loses_a_period :
    ¬ ∀ (pcmTx opened : Bool) (as : List Action) (s : State),
      run step (init pcmTx opened) as = some s →
        Reassembles as s ∧ (s.phase ≠ .sending → s.pending.length < samples) := by
  intro hall
  obtain ⟨s, hrun, hphase⟩ := run_twoReads false
  have hinv := inv_of_run hrun
  have hfull : s.filled = periodFrames := by
    have := hinv.filled
    rwa [hphase] at this
  have hlt := (hall true true _ s hrun).2 (by rw [hphase]; nofun)
  rw [pending_eq_buf hinv hfull, hinv.length] at hlt
  exact Nat.lt_irrefl samples hlt

/-- **The samples read are the chunks sent and the rest of one period**, for every sequence of read
results. The rest is an incomplete period, also where a read has ended the loop; where a closed
channel has, it is the one period that was being sent. -/
theorem reassembles_of_run {pcmTx opened : Bool} {as : List Action} {s : State}
    (hrun : run step (init pcmTx opened) as = some s) :
    Reassembles as s ∧
    (s.phase ≠ .sending → s.phase ≠ .ended .closed → s.pending.length < samples) ∧
    (s.phase = .ended .closed → s.pending.length = samples) := by
  have h := inv_of_run hrun
  have hfilled := h.filled
  refine ⟨h.reassembles, fun hsending hclosed => ?_, fun hclosed => ?_⟩
  -- outside `sending` a full period is left only where the channel was closed
  · have hlt : s.filled < periodFrames := by
      cases hphase : s.phase with
      | filling => rwa [hphase] at hfilled
      | sending => exact absurd hphase hsending
      | ended error =>
        rw [hphase] at hfilled
        cases error with
        | closed => exact absurd hphase hclosed
        | _ => exact hfilled
    rw [length_pending h (Nat.le_of_lt hlt)]
    exact Nat.mul_lt_mul_of_pos_right hlt Nat.zero_lt_two
  · rw [hclosed] at hfilled
    rw [pending_eq_buf h hfilled, h.length]

/-- The run of two reads whose period is taken. -/
theorem reassembles_of_run_twoReads :
    ∃ s, run step (init true true) (twoReads ++ [.send true]) = some s ∧ s.phase = .filling ∧
      s.pending.length < samples := by
  obtain ⟨s, hrun, hphase⟩ := run_twoReads true
  have hphase : s.phase = .filling := hphase
  have h := @reassembles_of_run true true _ s hrun
  exact ⟨s, hrun, hphase, h.2.1 (by rw [hphase]; nofun) (by rw [hphase]; nofun)⟩

end RgspCast.AudioPeriods
