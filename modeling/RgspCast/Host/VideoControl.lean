import RgspCast.Lib.Broadcast
import RgspCast.Lib.Transition
import Mathlib.Data.Int.Notation

/-!
# From a client's recovery request to the encoder

A request to resume a session crosses a broadcast channel, the packetize loop's best-effort
`try_send` into the eight slots of the control channel, the task that forwards the control channel
to the host's flags, and the flag itself, before an iteration of `VideoStream::run` restarts the
frame numbering. All but the `try_send` keep it: a lagging broadcast receiver forwards a request of
the kind it missed, and the flag is read and cleared in one access. `forward_control` drops what
does not fit, so eight unconsumed requests for a keyframe lose a reset (`not_never_lost`);
`restarted_or_dropped` says that nothing else does.
-/

namespace RgspCast.VideoControl

open Channel Transition

inductive EncoderControl where
  | idr
  | invalidate (first last : UInt32)
  | reset
  deriving DecidableEq, Repr

/-- The capacities of the channels. -/
def idrCapacity : ℕ := 1
def invalidateCapacity : ℕ := 16
def resetCapacity : ℕ := 1
def controlCapacity : ℕ := 8

/-- At most one forced IDR per interval, in nanoseconds. -/
def minIdrInterval : ℤ := 750000000

/-- Where an iteration of `VideoStream::run` is: at its start, past a reset flag that was not set,
or about to capture. -/
inductive RunPhase where
  | top
  | noReset
  | capture
  deriving DecidableEq, Repr

/-- A frame as `send` gets it, and whether an IDR was asked of the encoder for it. -/
structure SentFrame where
  frameNumber : UInt32
  forced : Bool
  deriving DecidableEq, Repr

structure State where
  idrRx : Broadcast Unit
  invalidateRx : Broadcast (UInt32 × UInt32)
  resetRx : Broadcast Unit
  /-- The packetize loop received a request and has not sent it on yet. -/
  forwarding : Option EncoderControl
  /-- The control channel. -/
  control : List EncoderControl
  /-- `forward_encoder_control` received a request and has not set its flag yet. -/
  applying : Option EncoderControl
  idr : Bool
  reset : Bool
  phase : RunPhase
  frameNumber : UInt64
  lastIdr : ℤ
  /-- The capture's pending IDR request. -/
  forceIdr : Bool
  sent : List SentFrame

/-- A session whose video has just started. -/
def State.start (now : ℤ) : State where
  idrRx := .new
  invalidateRx := .new
  resetRx := .new
  forwarding := none
  control := []
  applying := none
  idr := false
  reset := false
  phase := .top
  frameNumber := 0
  lastIdr := now - minIdrInterval
  forceIdr := false
  sent := []

inductive Action where
  /-- The client's requests. -/
  | requestIdrFrame
  | invalidateReferenceFrames (first last : UInt32)
  | requestReset
  /-- The packetize loop: one of its three receives, and the `try_send` behind it. -/
  | recvIdr
  | recvInvalidate
  | recvReset
  | forwardControl
  /-- `forward_encoder_control`. -/
  | recvControl
  | applyControl
  /-- `VideoStream::run`: the two flags, at the times the clock gives, and the frame. -/
  | swapReset (now : ℤ)
  | swapIdr (now : ℤ)
  | nextFrame
  deriving DecidableEq

/-- The arms of the packetize loop's `select!`. -/
def controlOfIdr : Received Unit → EncoderControl
  | .ok () | .lagged _ => .idr

def controlOfInvalidate : Received (UInt32 × UInt32) → EncoderControl
  | .ok (first, last) => .invalidate first last
  | .lagged _ => .idr

def controlOfReset : Received Unit → EncoderControl
  | .ok () | .lagged _ => .reset

/-- `forward_control`: a full channel drops the request. -/
def forwardControl (control : List EncoderControl) (c : EncoderControl) : List EncoderControl :=
  (trySend controlCapacity control c).getD control

/-- One step of one of the four parties. -/
def step (s : State) : Action → Option State
  | .requestIdrFrame => some { s with idrRx := s.idrRx.send idrCapacity () }
  | .invalidateReferenceFrames first last =>
    some { s with invalidateRx := s.invalidateRx.send invalidateCapacity (first, last) }
  | .requestReset => some { s with resetRx := s.resetRx.send resetCapacity () }
  -- one of the three receivers of the `select!`, while nothing is being forwarded
  | .recvIdr =>
    if s.forwarding = none then
      s.idrRx.recv.map fun (r, rx) => { s with idrRx := rx, forwarding := some (controlOfIdr r) }
    else none
  | .recvInvalidate =>
    if s.forwarding = none then
      s.invalidateRx.recv.map fun (r, rx) =>
        { s with invalidateRx := rx, forwarding := some (controlOfInvalidate r) }
    else none
  | .recvReset =>
    if s.forwarding = none then
      s.resetRx.recv.map fun (r, rx) =>
        { s with resetRx := rx, forwarding := some (controlOfReset r) }
    else none
  | .forwardControl =>
    s.forwarding.map fun c =>
      { s with forwarding := none, control := forwardControl s.control c }
  | .recvControl =>
    if s.applying = none then
      match s.control with
      | [] => none
      | c :: control => some { s with control := control, applying := some c }
    else none
  | .applyControl =>
    s.applying.map fun
      | .idr | .invalidate _ _ => { s with applying := none, idr := true }
      | .reset => { s with applying := none, reset := true }
  | .swapReset now =>
    if s.phase = .top then
      if s.reset then
        some { s with
          reset := false, frameNumber := 0, forceIdr := true, lastIdr := now, phase := .capture }
      else some { s with phase := .noReset }
    else none
  | .swapIdr now =>
    if s.phase = .noReset then
      -- a request within the interval is dropped, not put off
      if s.idr ∧ now - s.lastIdr ≥ minIdrInterval then
        some { s with idr := false, forceIdr := true, lastIdr := now, phase := .capture }
      else some { s with idr := false, phase := .capture }
    else none
  | .nextFrame =>
    if s.phase = .capture then
      let frameNumber := s.frameNumber + 1
      some { s with
        frameNumber := frameNumber
        forceIdr := false
        sent := s.sent ++ [⟨frameNumber.toUInt32, s.forceIdr⟩]
        phase := .top }
    else none

/-! ## What is claimed of a reset -/

/-- All request and control queues are drained. -/
structure Drained (s : State) : Prop where
  idrRx : s.idrRx.Empty
  invalidateRx : s.invalidateRx.Empty
  resetRx : s.resetRx.Empty
  forwarding : s.forwarding = none
  control : s.control = []
  applying : s.applying = none

/-- The step starts an iteration that restarts the frame numbering and forces an IDR. -/
def Restarts (s : State) : Action → Prop
  | .swapReset now =>
    ∃ s' ∈ step s (.swapReset now), s'.phase = .capture ∧ s'.frameNumber = 0 ∧ s'.forceIdr = true
  | _ => False

/-- Since the last Reset request a step with this property was taken. -/
def SinceReset (P : State → Action → Prop) (t₀ : ℤ) (as : List Action) : Prop :=
  Since step (· = .requestReset) P (.start t₀) as

/-- Where a Reset was requested, the queues were drained, and another iteration was started, the
numbering has restarted since. -/
def NeverLost : Prop :=
  ∀ t₀ as now bs s t, run step (.start t₀) as = some s → .requestReset ∈ as → Drained s →
    run step s (.swapReset now :: bs) = some t → .requestReset ∉ bs →
      SinceReset Restarts t₀ (as ++ .swapReset now :: bs)

/-! ## Where a reset is -/

/-- A Reset is on its way to the next iteration. -/
inductive Underway (s : State) : Prop where
  | requested (h : ¬ s.resetRx.Empty)
  | forwarding (h : s.forwarding = some .reset)
  | control (h : .reset ∈ s.control)
  | applying (h : s.applying = some .reset)
  | flag (h : s.reset = true)

/-- `forward_control` finds the control channel full, and drops a Reset with no other underway. -/
def DropsLast (s : State) : Action → Prop
  | .forwardControl =>
    s.forwarding = some .reset ∧ controlCapacity ≤ s.control.length ∧
      s.resetRx.Empty ∧ .reset ∉ s.control ∧ s.applying ≠ some .reset ∧ s.reset = false
  | _ => False

instance (s : State) : Decidable (Drained s) :=
  decidable_of_iff (s.idrRx.Empty ∧ s.invalidateRx.Empty ∧ s.resetRx.Empty ∧
    s.forwarding = none ∧ s.control = [] ∧ s.applying = none)
    ⟨fun ⟨h₁, h₂, h₃, h₄, h₅, h₆⟩ => ⟨h₁, h₂, h₃, h₄, h₅, h₆⟩,
      fun ⟨h₁, h₂, h₃, h₄, h₅, h₆⟩ => ⟨h₁, h₂, h₃, h₄, h₅, h₆⟩⟩

instance decidableRestarts (s : State) : (a : Action) → Decidable (Restarts s a)
  | .swapReset now => inferInstanceAs (Decidable (∃ s' ∈ step s (.swapReset now), _))
  | .requestIdrFrame | .invalidateReferenceFrames .. | .requestReset | .recvIdr | .recvInvalidate
  | .recvReset | .forwardControl | .recvControl | .applyControl | .swapIdr _ | .nextFrame =>
    inferInstanceAs (Decidable False)

/-- The flag is read at the start of an iteration: it restarts the numbering. -/
theorem restarts_of_flag {s s' : State} {now : ℤ} (h : step s (.swapReset now) = some s')
    (hflag : s.reset = true) : Restarts s (.swapReset now) := by
  refine ⟨s', h, ?_⟩
  rw [step, if_pos hflag] at h
  obtain ⟨-, rfl⟩ := Option.ite_some_none_eq_some.mp h
  exact ⟨rfl, rfl, rfl⟩

/-- A Reset that is sent on stays underway, unless the control channel is full and it was the last
one. -/
theorem underway_of_forward {s : State} (hfwd : s.forwarding = some .reset) :
    Underway { s with forwarding := none, control := forwardControl s.control .reset } ∨
      DropsLast s .forwardControl := by
  unfold forwardControl trySend
  by_cases hroom : s.control.length < controlCapacity
  · rw [if_pos hroom]
    exact Or.inl (.control (List.mem_append_right _ (List.mem_singleton_self _)))
  -- dropped: one of the later stations has another one, or it was the last
  · rw [if_neg hroom]
    by_cases hrx : s.resetRx.Empty
    · by_cases hcontrol : EncoderControl.reset ∈ s.control
      · exact Or.inl (.control hcontrol)
      · by_cases happly : s.applying = some .reset
        · exact Or.inl (.applying happly)
        · by_cases hflag : s.reset = true
          · exact Or.inl (.flag hflag)
          · exact Or.inr ⟨hfwd, Nat.le_of_not_lt hroom, hrx, hcontrol, happly,
              Bool.eq_false_iff.mpr hflag⟩
    · exact Or.inl (.requested hrx)

/-- A request is still in the control channel after another one was sent on. -/
theorem mem_forwardControl {control : List EncoderControl} {c c' : EncoderControl}
    (h : c ∈ control) : c ∈ forwardControl control c' := by
  unfold forwardControl trySend
  split
  · exact List.mem_append_left _ h
  · exact h

/-- A Reset is where it was, where a step leaves the way of the resets alone. -/
theorem Underway.of_same {s s' : State} (h : Underway s) (hrx : s'.resetRx = s.resetRx)
    (hfwd : s'.forwarding = s.forwarding) (hcontrol : s'.control = s.control)
    (happly : s'.applying = s.applying) (hflag : s'.reset = s.reset) : Underway s' := by
  cases h with
  | requested h => exact .requested (hrx ▸ h)
  | forwarding h => exact .forwarding (hfwd.trans h)
  | control h => exact .control (hcontrol ▸ h)
  | applying h => exact .applying (happly.trans h)
  | flag h => exact .flag (hflag.trans h)

/-- The requests for a keyframe are no Reset. -/
theorem controlOfIdr_ne (r : Received Unit) : controlOfIdr r ≠ .reset := by
  cases r <;> nofun

/-- An invalidation never becomes a reset. -/
theorem controlOfInvalidate_ne (r : Received (UInt32 × UInt32)) :
    controlOfInvalidate r ≠ .reset := by
  cases r <;> nofun

/-- What a step can do on the way of the resets, and when. -/
inductive Effect (s : State) (a : Action) : State → Prop
  | kept {s' : State} (hrx : s'.resetRx = s.resetRx) (hfwd : s'.forwarding = s.forwarding)
      (hcontrol : s'.control = s.control) (happly : s'.applying = s.applying)
      (hflag : s'.reset = s.reset) : Effect s a s'
  | requested (ha : a = .requestReset) :
      Effect s a { s with resetRx := s.resetRx.send resetCapacity () }
  /-- Another request is received. -/
  | received (idrRx : Broadcast Unit) (invalidateRx : Broadcast (UInt32 × UInt32))
      (c : EncoderControl) (hc : c ≠ .reset) (hnone : s.forwarding = none) :
      Effect s a { s with idrRx := idrRx, invalidateRx := invalidateRx, forwarding := some c }
  | receivedReset (rx : Broadcast Unit) (hrx : ¬ s.resetRx.Empty) :
      Effect s a { s with resetRx := rx, forwarding := some .reset }
  | forwarded (c : EncoderControl) (ha : a = .forwardControl) (hc : s.forwarding = some c) :
      Effect s a { s with forwarding := none, control := forwardControl s.control c }
  | taken (c : EncoderControl) (control : List EncoderControl) (hcons : s.control = c :: control)
      (hnone : s.applying = none) :
      Effect s a { s with control := control, applying := some c }
  | applied (c : EncoderControl) (hc : s.applying = some c) (hne : c ≠ .reset) :
      Effect s a { s with applying := none, idr := true }
  | appliedReset (hc : s.applying = some .reset) :
      Effect s a { s with applying := none, reset := true }
  | restarted {s' : State} (hflag : s.reset = true) (ha : Restarts s a) : Effect s a s'

/-- All that a step can do, case by case. -/
theorem effect_of_step {s s' : State} {a : Action} (h : step s a = some s') : Effect s a s' := by
  cases a with
  | requestIdrFrame | invalidateReferenceFrames first last =>
    obtain rfl := Option.some.inj h
    exact .kept rfl rfl rfl rfl rfl
  | requestReset =>
    obtain rfl := Option.some.inj h
    exact .requested rfl
  | recvIdr =>
    obtain ⟨hnone, h⟩ := Option.ite_none_right_eq_some.mp h
    obtain ⟨⟨r, rx⟩, -, rfl⟩ := Option.map_eq_some_iff.mp h
    exact .received rx s.invalidateRx _ (controlOfIdr_ne r) hnone
  | recvInvalidate =>
    obtain ⟨hnone, h⟩ := Option.ite_none_right_eq_some.mp h
    obtain ⟨⟨r, rx⟩, -, rfl⟩ := Option.map_eq_some_iff.mp h
    exact .received s.idrRx rx _ (controlOfInvalidate_ne r) hnone
  | recvReset =>
    obtain ⟨-, h⟩ := Option.ite_none_right_eq_some.mp h
    obtain ⟨⟨r, rx⟩, hr, rfl⟩ := Option.map_eq_some_iff.mp h
    have hrx : ¬ s.resetRx.Empty := fun hempty => by
      rw [(Broadcast.recv_eq_none_iff _).mpr hempty] at hr
      cases hr
    cases r <;> exact .receivedReset rx hrx
  | forwardControl =>
    obtain ⟨c, hc, rfl⟩ := Option.map_eq_some_iff.mp h
    exact .forwarded c rfl hc
  | recvControl =>
    obtain ⟨hnone, h⟩ := Option.ite_none_right_eq_some.mp h
    split at h
    next => cases h
    next c control hcons =>
      obtain rfl := Option.some.inj h
      exact .taken c control hcons hnone
  | applyControl =>
    obtain ⟨c, hc, rfl⟩ := Option.map_eq_some_iff.mp h
    cases c with
    | reset => exact .appliedReset hc
    | idr | invalidate first last => exact .applied _ hc nofun
  | swapReset now =>
    by_cases hflag : s.reset = true
    · exact .restarted hflag (restarts_of_flag h hflag)
    · rw [step, if_neg hflag] at h
      obtain ⟨-, rfl⟩ := Option.ite_some_none_eq_some.mp h
      exact .kept rfl rfl rfl rfl rfl
  | swapIdr now =>
    obtain ⟨-, h⟩ := Option.ite_none_right_eq_some.mp h
    -- a keyframe is forced or put off, and neither is on the way of the resets
    split at h <;>
      · obtain rfl := Option.some.inj h
        exact .kept rfl rfl rfl rfl rfl
  | nextFrame =>
    obtain ⟨-, rfl⟩ := Option.ite_some_none_eq_some.mp h
    exact .kept rfl rfl rfl rfl rfl

/-- **No step but a drop at the full channel loses a Reset.** -/
theorem underway_of_step {s s' : State} {a : Action} (h : step s a = some s') (hs : Underway s) :
    Underway s' ∨ Restarts s a ∨ DropsLast s a := by
  cases effect_of_step h with
  | kept hrx hfwd hcontrol happly hflag =>
    exact Or.inl (hs.of_same hrx hfwd hcontrol happly hflag)
  | requested => exact Or.inl (.requested (Broadcast.not_empty_send _ _ _))
  | received idrRx invalidateRx c _ hnone =>
    cases hs with
    | requested h => exact Or.inl (.requested h)
    | forwarding h => exact absurd (hnone.symm.trans h) nofun
    | control h => exact Or.inl (.control h)
    | applying h => exact Or.inl (.applying h)
    | flag h => exact Or.inl (.flag h)
  | receivedReset => exact Or.inl (.forwarding rfl)
  -- a full channel is the one place where a reset is lost
  | forwarded c ha hc =>
    subst ha
    cases hs with
    | requested h => exact Or.inl (.requested h)
    | forwarding hfwd =>
      obtain rfl := Option.some.inj (hc.symm.trans hfwd)
      exact (underway_of_forward hfwd).imp id Or.inr
    | control h => exact Or.inl (.control (mem_forwardControl h))
    | applying h => exact Or.inl (.applying h)
    | flag h => exact Or.inl (.flag h)
  -- the message at the head of the queue may be the reset
  | taken c control hcons hnone =>
    cases hs with
    | requested h => exact Or.inl (.requested h)
    | forwarding h => exact Or.inl (.forwarding h)
    | control h =>
      rw [hcons] at h
      rcases List.mem_cons.mp h with rfl | h
      · exact Or.inl (.applying rfl)
      · exact Or.inl (.control h)
    | applying h => exact absurd (hnone.symm.trans h) nofun
    | flag h => exact Or.inl (.flag h)
  | applied c hc hne =>
    cases hs with
    | requested h => exact Or.inl (.requested h)
    | forwarding h => exact Or.inl (.forwarding h)
    | control h => exact Or.inl (.control h)
    | applying h => exact absurd (Option.some.inj (hc.symm.trans h)) hne
    | flag h => exact Or.inl (.flag h)
  | appliedReset => exact Or.inl (.flag rfl)
  | restarted _ ha => exact Or.inr (Or.inl ha)

/-- The queue holds what was there, and what was forwarded. -/
theorem mem_of_mem_forwardControl {control : List EncoderControl} {c c' : EncoderControl}
    (h : c ∈ forwardControl control c') : c ∈ control ∨ c = c' := by
  unfold forwardControl trySend at h
  split at h
  · exact (List.mem_append.mp h).imp id List.mem_singleton.mp
  · exact Or.inl h

/-- Only a request puts a Reset underway. -/
theorem underway_before_step {s s' : State} {a : Action} (h : step s a = some s')
    (ha : a ≠ .requestReset) (hs : Underway s') : Underway s := by
  cases effect_of_step h with
  | kept hrx hfwd hcontrol happly hflag =>
    exact hs.of_same hrx.symm hfwd.symm hcontrol.symm happly.symm hflag.symm
  -- only a request starts a reset on its way
  | requested hreset => exact absurd hreset ha
  | received idrRx invalidateRx c hc =>
    cases hs with
    | requested h => exact .requested h
    | forwarding h => exact absurd (Option.some.inj h) hc
    | control h => exact .control h
    | applying h => exact .applying h
    | flag h => exact .flag h
  | receivedReset rx hrx => exact .requested hrx
  | forwarded c _ hc =>
    cases hs with
    | requested h => exact .requested h
    | forwarding h => cases h
    | control h =>
      rcases mem_of_mem_forwardControl h with h | rfl
      · exact .control h
      · exact .forwarding hc
    | applying h => exact .applying h
    | flag h => exact .flag h
  | taken c control hcons =>
    cases hs with
    | requested h => exact .requested h
    | forwarding h => exact .forwarding h
    | control h => exact .control (hcons ▸ List.mem_cons_of_mem _ h)
    | applying h => exact .control (hcons ▸ Option.some.inj h ▸ List.mem_cons_self)
    | flag h => exact .flag h
  | applied c =>
    cases hs with
    | requested h => exact .requested h
    | forwarding h => exact .forwarding h
    | control h => exact .control h
    | applying h => cases h
    | flag h => exact .flag h
  | appliedReset hc => exact .applying hc
  | restarted hflag => exact .flag hflag

/-- An iteration that starts with the queues drained leaves no Reset underway. -/
theorem not_underway_of_drained {s s' : State} {now : ℤ} (hs : Drained s)
    (h : step s (.swapReset now) = some s') : ¬ Underway s' := by
  -- the swap clears the flag and moves nothing else on the way of a request
  have hflag : s'.reset = false ∧ s'.resetRx = s.resetRx ∧ s'.forwarding = s.forwarding ∧
      s'.control = s.control ∧ s'.applying = s.applying := by
    obtain ⟨-, h⟩ := Option.ite_none_right_eq_some.mp h
    split at h
    next =>
      obtain rfl := Option.some.inj h
      exact ⟨rfl, rfl, rfl, rfl, rfl⟩
    next hno =>
      obtain rfl := Option.some.inj h
      exact ⟨Bool.eq_false_iff.mpr hno, rfl, rfl, rfl, rfl⟩
  obtain ⟨hreset, hrx, hfwd, hcontrol, happly⟩ := hflag
  intro hunder
  cases hunder with
  | requested h => exact h (hrx ▸ hs.resetRx)
  | forwarding h => exact absurd (hs.forwarding.symm.trans (hfwd.symm.trans h)) (by simp)
  | control h =>
    rw [hcontrol, hs.control] at h
    exact absurd h List.not_mem_nil
  | applying h => exact absurd (hs.applying.symm.trans (happly.symm.trans h)) (by simp)
  | flag h => exact absurd (hreset.symm.trans h) Bool.false_ne_true

/-- **A resume reset is lost only at a full control channel.** Once every queue is drained and
another iteration is started, the numbering has restarted since the last Reset request, or
`forward_control` has dropped the last Reset underway since then. -/
theorem restarted_or_dropped {t₀ now : ℤ} {as bs : List Action} {s t : State}
    (hrun : run step (.start t₀) as = some s) (hreset : .requestReset ∈ as) (hdrained : Drained s)
    (hrest : run step s (.swapReset now :: bs) = some t) (hno : .requestReset ∉ bs) :
    SinceReset Restarts t₀ (as ++ .swapReset now :: bs) ∨
      SinceReset DropsLast t₀ (as ++ .swapReset now :: bs) := by
  have hall : run step (.start t₀) (as ++ .swapReset now :: bs) = some t := by
    rw [run_append_of_eq_some hrun, hrest]
  have hmark : ∃ a ∈ as ++ .swapReset now :: bs, a = Action.requestReset :=
    ⟨_, List.mem_append_left _ hreset, rfl⟩
  have hpending : Underway t ∨ SinceReset (fun s a => Restarts s a ∨ DropsLast s a) t₀
      (as ++ .swapReset now :: bs) :=
    pending_or_since
      (fun s a s' ha h => by
        subst ha
        obtain rfl := Option.some.inj h
        exact .requested (Broadcast.not_empty_send _ _ _))
      (fun s a s' _ h hs => underway_of_step h hs) hall (Or.inr hmark)
  -- after the last iteration nothing is underway
  have hidle : ¬ Underway t := by
    obtain ⟨s', hswap, hbs⟩ := run_cons_eq_some.mp hrest
    have hguarded : Guarded (fun (_ : State) a => a ≠ Action.requestReset) step s' bs := by
      refine guarded_of_forall (fun a ha _ => ?_) s'
      rintro rfl
      exact hno ha
    exact @run_invariant_of_guarded _ _ step _ (fun s => ¬ Underway s)
      (fun s a s' ha h hs hs' => hs (underway_before_step h ha hs')) _ _ _ hguarded hbs
      (not_underway_of_drained hdrained hswap)
  exact since_or (hpending.resolve_left hidle)

/-- The client asks for keyframes and nobody reads the control channel. -/
def eightKeyframes : List Action :=
  (List.replicate controlCapacity [.requestIdrFrame, .recvIdr, .forwardControl]).flatten

/-- The control channel is read to its end. -/
def drainControl (n : ℕ) : List Action := (List.replicate n [.recvControl, .applyControl]).flatten

def resumed : List Action :=
  [.requestReset, .recvReset, .forwardControl] ++ drainControl 1

/-- Eight keyframe requests fill the control channel, and a resuming client's reset is dropped. -/
def lostReset : List Action :=
  eightKeyframes ++ [.requestReset, .recvReset, .forwardControl] ++ drainControl controlCapacity

/-- A client that resumes, and whose reset gets through. -/
theorem restarted_or_dropped_resumed :
    ∃ s t, run step (.start 0) resumed = some s ∧ run step s [.swapReset 0] = some t ∧
      (SinceReset Restarts 0 (resumed ++ [.swapReset 0]) ∨
        SinceReset DropsLast 0 (resumed ++ [.swapReset 0])) := by
  have hruns : ∃ s ∈ run step (.start 0) resumed, Drained s ∧
      ∃ t ∈ run step s [.swapReset 0], True := by decide
  obtain ⟨s, hrun, hdrained, t, hrest, -⟩ := hruns
  exact ⟨s, t, hrun, hrest,
    @restarted_or_dropped 0 0 resumed [] s t hrun (by decide) hdrained hrest (by decide)⟩

/-- A reset that comes when the queue is full. -/
theorem not_never_lost : ¬ NeverLost := by
  intro hkept
  have hruns : ∃ s ∈ run step (.start 0) lostReset, Drained s ∧
      ∃ t ∈ run step s [.swapReset 0], True := by decide
  obtain ⟨s, hrun, hdrained, t, hrest, -⟩ := hruns
  have hsince := hkept 0 lostReset 0 [] s t hrun (by decide) hdrained hrest (by decide)
  have hno : ¬ SinceReset Restarts 0 (lostReset ++ [.swapReset 0]) := by
    unfold SinceReset
    decide
  exact hno hsince

end RgspCast.VideoControl
