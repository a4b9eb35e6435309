import RgspCast.Host.InputForward
import RgspCast.Lib.Reads

/-!
# What reaches the kernel

The kernel drops an event the device has not declared, and says nothing. `runInput` is the loop
between the packets and the device: `apply_packet` keeps every axis of the pad inside the range
`AXES` advertises for it, and `apply` reports only codes of `KEYS` and `AXES`, so that every event
written is `Declared`, whatever the packets and wherever a write fails.

`readPacket` is `apply_packet` as a program that asks for what it reads (`run_readPacket`), and
`packetReads` what it has asked for. It is all there, and no other byte has any effect.
-/

namespace RgspCast.InputEvents

open Input InputDecode InputForward
open Reads (SameAt)

/-- `AXES`: every axis the device has, with its minimum and maximum. -/
def axes : List (UInt16 × Int32 × Int32) :=
  [(3, -32768, 32767), (4, -32768, 32767), (5, 0, 255), (16, -1, 1), (17, -1, 1)]

/-- An event the device has declared: a `SYN_REPORT`, a key of `KEYS` pressed or released, or an
axis of `AXES` at a value it can have. -/
def Declared (e : InputEvent) : Prop :=
  e = event evSyn synReport 0 ∨
  (e.type = evKey ∧ e.code ∈ keys ∧ (e.value = 0 ∨ e.value = 1)) ∨
  e.type = evAbs ∧ ∃ min max, (e.code, min, max) ∈ axes ∧ min ≤ e.value ∧ e.value ≤ max

/-! ## `run_input` -/

/-- What `run_input` keeps: the device, and the running state. -/
structure Injector where
  pad : VirtualPad
  state : PadState

/-- Before the first packet. -/
def Injector.opened : Injector := ⟨VirtualPad.opened, default⟩

/-- The loop of `run_input` over the payloads it receives, each with the outcome of the write it
leads to. A write that fails ends it. -/
def runInput : Injector → List (Bytes × Option ℕ) → Injector
  | m, [] => m
  | m, (payload, fails) :: rest =>
    let (applies, state) := applyPacket payload m.state
    if applies then
      let (ok, pad) := m.pad.apply state fails
      if ok then runInput ⟨pad, state⟩ rest else ⟨pad, state⟩
    else runInput ⟨m.pad, state⟩ rest

/-! ## The routes through `apply_packet` -/

/-- How `apply_packet` reads a payload. -/
inductive Route where
  | ignored
  | keyboard (down : Bool)
  | controller (buttonsAt : ℕ)
  deriving DecidableEq, Repr

/-- The route of a payload, by its magic and its length. -/
def route (payload : Bytes) : Route :=
  match u32Le payload 0 with
  | none => .ignored
  | some magic =>
    if magic = keyDownMagic then .keyboard true
    else if magic = keyUpMagic then .keyboard false
    else if magic = multiControllerMagic ∧ payload.length < 24 then .ignored
    else if magic = multiControllerMagic ∨ magic = multiControllerMagicGen5 then .controller 12
    else if magic = controllerMagic then .controller 6
    else .ignored

/-- What a payload does to a state on its route. -/
def Route.apply (payload : Bytes) (s : PadState) : Route → Bool × PadState
  | .ignored => (false, s)
  | .keyboard down => applyKeyboard payload down s
  | .controller buttonsAt => applyController payload buttonsAt s

/-- The decoder is routed by the magic number first. -/
theorem applyPacket_eq (payload : Bytes) (s : PadState) :
    applyPacket payload s = (route payload).apply payload s := by
  unfold applyPacket route
  cases u32Le payload 0 with
  | none => rfl
  | some magic =>
    simp only [apply_ite (Route.apply payload s)]
    rfl

/-! ## The range of the axes -/

/-- Every axis is inside its range. -/
structure InRange (s : PadState) : Prop where
  hatX : -1 ≤ s.hatX ∧ s.hatX ≤ 1
  hatY : -1 ≤ s.hatY ∧ s.hatY ≤ 1
  rx : -32768 ≤ s.rx ∧ s.rx ≤ 32767
  ry : -32768 ≤ s.ry ∧ s.ry ≤ 32767
  rz : 0 ≤ s.rz ∧ s.rz ≤ 255

/-- At rest every axis is in its range. -/
theorem inRange_default : InRange default := by
  constructor <;> decide

/-- A key is no axis. -/
theorem InRange.setKey {s : PadState} (h : InRange s) (code : UInt16) (down : Bool) :
    InRange (s.setKey code down) := by
  unfold PadState.setKey
  split
  · exact ⟨h.hatX, h.hatY, h.rx, h.ry, h.rz⟩
  · exact h

/-- Buttons leave the axes alone. -/
theorem InRange.pressAll {s : PadState} (h : InRange s) (flags : UInt16)
    (table : List (UInt16 × UInt16)) : InRange (pressAll flags table s) := by
  induction table generalizing s with
  | nil => exact h
  | cons e table ih =>
    rw [pressAll_cons]
    exact ih (h.setKey e.2 _)

/-- A hat has three positions. -/
theorem hatOf_range (negative positive : Bool) :
    -1 ≤ hatOf negative positive ∧ hatOf negative positive ≤ 1 := by
  cases negative <;> cases positive <;> decide

/-- A signed 16-bit axis, read from an unsigned word. -/
theorem toInt16_range (x : UInt16) :
    -32768 ≤ x.toInt16.toInt32 ∧ x.toInt16.toInt32 ≤ 32767 := by
  rw [Int32.le_iff_toInt_le, Int32.le_iff_toInt_le, Int16.toInt_toInt32]
  exact ⟨x.toInt16.le_toInt, Int.lt_add_one_iff.mp x.toInt16.toInt_lt⟩

/-- A trigger, read from a byte. -/
theorem toUInt32_range (b : UInt8) :
    0 ≤ b.toUInt32.toInt32 ∧ b.toUInt32.toInt32 ≤ 255 := by
  have hlt := b.toNat_lt
  have hval : b.toUInt32.toInt32.toInt = b.toNat := by
    have hof : b.toUInt32 = UInt32.ofNat b.toNat := by simp
    rw [hof, UInt32.toInt32_ofNat', Int32.toInt_ofNat_of_lt (by omega)]
  rw [Int32.le_iff_toInt_le, Int32.le_iff_toInt_le, hval]
  constructor
  · exact Int.natCast_nonneg b.toNat
  · exact Int.ofNat_le.mpr (Nat.le_of_lt_succ hlt)

/-- A key packet leaves every axis in its range. -/
theorem InRange.applyKeyboard {s : PadState} (h : InRange s) (payload : Bytes) (down : Bool) :
    InRange (applyKeyboard payload down s).2 := by
  -- an arrow puts its axis at an end or in the middle
  have hneg : -1 ≤ (if down then -1 else 0 : Int32) ∧ (if down then -1 else 0 : Int32) ≤ 1 := by
    cases down <;> decide
  have hpos : -1 ≤ (if down then 1 else 0 : Int32) ∧ (if down then 1 else 0 : Int32) ≤ 1 := by
    cases down <;> decide
  unfold InputDecode.applyKeyboard
  split
  · exact h
  · unfold applyKey
    dsimp only
    split
    · exact h.setKey _ down
    · split
      · exact { h with hatX := hneg }
      · split
        · exact { h with hatX := hpos }
        · split
          · exact { h with hatY := hneg }
          · split
            · exact { h with hatY := hpos }
            · exact h

/-- So does a controller packet. -/
theorem InRange.applyController {s : PadState} (h : InRange s) (payload : Bytes) (off : ℕ) :
    InRange (applyController payload off s).2 := by
  cases hflags : u16Le payload off with
  | none =>
    rw [applyController_eq_none hflags]
    exact h
  | some flags =>
    have hbuttons : InRange (readButtons flags s) :=
      { h.pressAll flags buttonMap with hatX := hatOf_range _ _, hatY := hatOf_range _ _ }
    -- a packet too short for the triggers leaves them as they are
    have htriggers : InRange (readTriggers payload (off + 2) (readButtons flags s)) := by
      unfold readTriggers
      split
      next left right _ _ =>
        exact { hbuttons.setKey btnTl2 (127 < left) with rz := toUInt32_range right }
      next => exact hbuttons
    rw [applyController_eq_some hflags]
    show InRange (readStick payload (off + 2) _)
    unfold readStick
    split
    next x y _ _ => exact { htriggers with rx := toInt16_range x, ry := toInt16_range y }
    next => exact htriggers

/-- **The decoder keeps the ranges**, whatever the payload. -/
theorem InRange.applyPacket {s : PadState} (h : InRange s) (payload : Bytes) :
    InRange (applyPacket payload s).2 := by
  rw [applyPacket_eq]
  cases route payload with
  | ignored => exact h
  | keyboard down => exact h.applyKeyboard payload down
  | controller buttonsAt => exact h.applyController payload buttonsAt

/-! ## Packets that are not applied -/

/-- A key packet that is not applied changes nothing. -/
theorem applyKeyboard_inert {payload : Bytes} {down : Bool} {s : PadState}
    (h : (applyKeyboard payload down s).1 = false) : (applyKeyboard payload down s).2 = s := by
  unfold applyKeyboard applyKey at h ⊢
  dsimp only at h ⊢
  repeat' split at h
  all_goals simp_all

/-- A controller packet that is long enough for its buttons is applied. -/
theorem applyController_inert {payload : Bytes} {off : ℕ} {s : PadState}
    (h : (applyController payload off s).1 = false) :
    (applyController payload off s).2 = s := by
  cases hflags : u16Le payload off with
  | none => rw [applyController_eq_none hflags]
  | some flags =>
    rw [applyController_eq_some hflags] at h
    cases h

/-- **A rejected packet is inert.** -/
theorem applyPacket_inert {payload : Bytes} {s : PadState}
    (h : (applyPacket payload s).1 = false) : (applyPacket payload s).2 = s := by
  rw [applyPacket_eq] at h ⊢
  cases hroute : route payload with
  | ignored => rfl
  | keyboard down =>
    rw [hroute] at h
    exact applyKeyboard_inert h
  | controller buttonsAt =>
    rw [hroute] at h
    exact applyController_inert h

/-! ## What is reported -/

/-- The value of a channel the device compares is one it can report. -/
theorem declared_of_mem_channels {s : PadState} (h : InRange s) {c : Channel}
    (hc : c ∈ channels) : Declared (toEvent (c, s.view c)) := by
  rw [channels, List.mem_append, List.mem_map, List.mem_map] at hc
  rcases hc with ⟨code, hcode, rfl⟩ | ⟨code, hcode, rfl⟩
  · refine Or.inr (Or.inl ⟨rfl, hcode, ?_⟩)
    show s.view (evKey, code) = 0 ∨ s.view (evKey, code) = 1
    rw [view_key s hcode]
    split
    · exact Or.inr rfl
    · exact Or.inl rfl
  · refine Or.inr (Or.inr ⟨rfl, ?_⟩)
    show ∃ min max, (code, min, max) ∈ axes ∧ min ≤ s.view (evAbs, code) ∧
      s.view (evAbs, code) ≤ max
    simp only [List.mem_cons, List.not_mem_nil, or_false] at hcode
    -- the axes of `apply` in its order, each found in the table
    rcases hcode with rfl | rfl | rfl | rfl | rfl
    · exact ⟨-1, 1, by decide, h.hatX⟩
    · exact ⟨-1, 1, by decide, h.hatY⟩
    · exact ⟨-32768, 32767, by decide, h.rx⟩
    · exact ⟨-32768, 32767, by decide, h.ry⟩
    · exact ⟨0, 255, by decide, h.rz⟩

/-- What a report of a state in range holds has been declared. -/
theorem declared_of_mem_report {last state : PadState} (h : InRange state) {e : InputEvent}
    (he : e ∈ report last state) : Declared e := by
  rw [report_eq, List.mem_append, List.mem_map, List.mem_singleton] at he
  rcases he with ⟨⟨c, v⟩, hmem, rfl⟩ | rfl
  · obtain ⟨hc, -, hv⟩ := Delta.mem_diff.mp hmem
    obtain rfl : v = state.view c := hv
    exact declared_of_mem_channels h hc
  · exact Or.inl rfl

/-- Whatever part of the report is written. -/
theorem declared_of_mem_apply {p : VirtualPad} {state : PadState} (h : InRange state)
    (hfile : ∀ e ∈ p.file, Declared e) (fails : Option ℕ) :
    ∀ e ∈ (p.apply state fails).2.file, Declared e := by
  unfold VirtualPad.apply
  split
  · exact hfile
  · cases fails with
    | none =>
      exact List.forall_mem_append.mpr ⟨hfile, fun e he => declared_of_mem_report h he⟩
    | some n =>
      exact List.forall_mem_append.mpr
        ⟨hfile, fun e he => declared_of_mem_report h (List.mem_of_mem_take he)⟩

/-- What holds of the injector at every turn. -/
structure Sound (m : Injector) : Prop where
  state : InRange m.state
  file : ∀ e ∈ m.pad.file, Declared e

/-- Nothing has been written yet. -/
theorem sound_opened : Sound Injector.opened :=
  ⟨inRange_default, fun _ he => absurd he List.not_mem_nil⟩

/-- The loop keeps the injector sound, payload by payload. -/
theorem Sound.runInput {m : Injector} (h : Sound m) (turns : List (Bytes × Option ℕ)) :
    Sound (runInput m turns) := by
  induction turns generalizing m with
  | nil => exact h
  | cons turn rest ih =>
    obtain ⟨payload, fails⟩ := turn
    have hstate : InRange (applyPacket payload m.state).2 := h.state.applyPacket payload
    have happly := declared_of_mem_apply hstate h.file fails
    rw [InputEvents.runInput]
    dsimp only
    split
    · split
      · exact ih ⟨hstate, happly⟩
      · exact ⟨hstate, happly⟩
    · exact ih ⟨hstate, h.file⟩

/-! ## What is read -/

/-- `u16_le`. -/
def readU16 (off : ℕ) : Reads UInt8 (Option UInt16) :=
  .get off 2 fun bytes => .done (bytes.bind (u16Le · 0))

/-- `u32_le`. -/
def readU32 (off : ℕ) : Reads UInt8 (Option UInt32) :=
  .get off 4 fun bytes => .done (bytes.bind (u32Le · 0))

/-- `payload.get(off)`. -/
def readByte (off : ℕ) : Reads UInt8 (Option UInt8) :=
  .get off 1 fun bytes => .done (bytes.bind (·[0]?))

def readLen : Reads UInt8 ℕ := .len .done

/-- `apply_keyboard`, with what it reads. -/
def readKeyboard (down : Bool) (state : PadState) : Reads UInt8 (Bool × PadState) := do
  match ← readU16 5 with
  | none => return (false, state)
  | some raw => return applyKey raw down state

/-- The part of `apply_packet` behind the choice of offsets. -/
def readController (buttonsAt : ℕ) (state : PadState) : Reads UInt8 (Bool × PadState) := do
  match ← readU16 buttonsAt with
  | none => return (false, state)
  | some flags =>
    let state := readButtons flags state
    let afterButtons := buttonsAt + 2
    let left ← readByte afterButtons
    let right ← readByte (afterButtons + 1)
    let state := match left, right with
      | some left, some right =>
        { state.setKey btnTl2 (127 < left) with rz := right.toUInt32.toInt32 }
      | _, _ => state
    let x ← readU16 (afterButtons + 2)
    let y ← readU16 (afterButtons + 4)
    let state := match x, y with
      | some x, some y => { state with rx := x.toInt16.toInt32, ry := y.toInt16.toInt32 }
      | _, _ => state
    return (true, state)

/-- `apply_packet`. -/
def readPacket (state : PadState) : Reads UInt8 (Bool × PadState) := do
  match ← readU32 0 with
  | none => return (false, state)
  | some magic =>
    let len ← readLen
    if magic = keyDownMagic then readKeyboard true state
    else if magic = keyUpMagic then readKeyboard false state
    else if magic = multiControllerMagic ∧ len < 24 then return (false, state)
    else if magic = multiControllerMagic ∨ magic = multiControllerMagicGen5 then
      readController 12 state
    else if magic = controllerMagic then readController 6 state
    else return (false, state)

/-- The bytes `apply_packet` reads. -/
def packetReads (payload : Bytes) : List ℕ := (readPacket default).log payload

/-- The program reads what `u16_le` returns. -/
@[simp] theorem run_readU16 (off : ℕ) (b : Bytes) : (readU16 off).run b = u16Le b off := by
  show (Reads.range b off 2).bind _ = _
  unfold Reads.range
  split_ifs with hfit
  · show u16Le ((b.drop off).take 2) 0 = u16Le b off
    unfold u16Le
    rw [List.drop_zero]
    rcases b.drop off with _ | ⟨b0, _ | ⟨b1, rest⟩⟩ <;> rfl
  · exact (u16Le_eq_none_iff.mpr (by omega)).symm

/-- And what `u32_le` returns. -/
@[simp] theorem run_readU32 (off : ℕ) (b : Bytes) : (readU32 off).run b = u32Le b off := by
  show (Reads.range b off 4).bind _ = _
  have hlen : (b.drop off).length = b.length - off := List.length_drop
  unfold Reads.range
  split_ifs with hfit
  · show u32Le ((b.drop off).take 4) 0 = u32Le b off
    unfold u32Le
    rw [List.drop_zero]
    rcases b.drop off with _ | ⟨b0, _ | ⟨b1, _ | ⟨b2, _ | ⟨b3, rest⟩⟩⟩⟩ <;> rfl
  · unfold u32Le
    rcases hdrop : b.drop off with _ | ⟨b0, _ | ⟨b1, _ | ⟨b2, _ | ⟨b3, rest⟩⟩⟩⟩
    all_goals try rfl
    rw [hdrop] at hlen
    simp only [List.length_cons] at hlen
    omega

/-- And what `get` returns. -/
@[simp] theorem run_readByte (off : ℕ) (b : Bytes) : (readByte off).run b = b[off]? := by
  show (Reads.range b off 1).bind _ = _
  unfold Reads.range
  split_ifs with hfit
  · simp
  · exact (List.getElem?_eq_none (by omega)).symm

/-- And the length. -/
@[simp] theorem run_readLen (b : Bytes) : readLen.run b = b.length := rfl

/-- The program of the keyboard is its decoder. -/
theorem run_readKeyboard (payload : Bytes) (down : Bool) (s : PadState) :
    (readKeyboard down s).run payload = applyKeyboard payload down s := by
  rw [readKeyboard, Reads.run_bind, run_readU16, applyKeyboard]
  cases u16Le payload 5 <;> rfl

/-- That of the controller is its decoder. -/
theorem run_readController (payload : Bytes) (buttonsAt : ℕ) (s : PadState) :
    (readController buttonsAt s).run payload = applyController payload buttonsAt s := by
  rw [readController, Reads.run_bind, run_readU16]
  cases hflags : u16Le payload buttonsAt with
  | none =>
    rw [applyController_eq_none hflags]
    rfl
  | some flags =>
    rw [applyController_eq_some hflags]
    simp only [Reads.run_bind, Reads.run_pure, run_readByte, run_readU16]
    rfl

/-- The program is `apply_packet`. -/
theorem run_readPacket (payload : Bytes) (s : PadState) :
    (readPacket s).run payload = applyPacket payload s := by
  rw [readPacket, Reads.run_bind, run_readU32, applyPacket]
  cases u32Le payload 0 with
  | none => rfl
  | some magic =>
    dsimp only
    rw [Reads.run_bind, run_readLen]
    split_ifs
    · exact run_readKeyboard payload true s
    · exact run_readKeyboard payload false s
    · rfl
    · exact run_readController payload 12 s
    · exact run_readController payload 6 s
    · rfl

/-- What is read does not depend on the state of the pad. -/
theorem log_readKeyboard (payload : Bytes) (down : Bool) (s t : PadState) :
    (readKeyboard down s).log payload = (readKeyboard down t).log payload := by
  rw [readKeyboard, readKeyboard, Reads.log_bind, Reads.log_bind]
  cases (readU16 5).run payload <;> rfl

/-- Nor does it for a controller. -/
theorem log_readController (payload : Bytes) (buttonsAt : ℕ) (s t : PadState) :
    (readController buttonsAt s).log payload = (readController buttonsAt t).log payload := by
  rw [readController, readController, Reads.log_bind, Reads.log_bind]
  cases (readU16 buttonsAt).run payload with
  | none => rfl
  | some flags => simp only [Reads.log_bind, Reads.log_pure]

/-- What is read does not depend on the state. -/
theorem log_readPacket (payload : Bytes) (s : PadState) :
    (readPacket s).log payload = packetReads payload := by
  rw [packetReads, readPacket, readPacket, Reads.log_bind, Reads.log_bind]
  refine congrArg _ ?_
  cases (readU32 0).run payload with
  | none => rfl
  | some magic =>
    simp only [Reads.log_bind]
    refine congrArg _ ?_
    split_ifs
    · exact log_readKeyboard payload true s _
    · exact log_readKeyboard payload false s _
    · rfl
    · exact log_readController payload 12 s _
    · exact log_readController payload 6 s _
    · rfl

/-- **No other byte has any effect.** -/
theorem applyPacket_of_sameAt {p p' : Bytes} (h : SameAt (packetReads p) p p') :
    applyPacket p' = applyPacket p := by
  funext s
  rw [← run_readPacket, ← run_readPacket]
  exact Reads.run_of_sameAt ((log_readPacket p s).symm ▸ h)

/-- **Only declared events reach the kernel.** Over every sequence of payloads, wherever a write
fails: each event written is a `SYN_REPORT`, a key of `KEYS` at 0 or 1, or an axis of `AXES` inside
its range, also when the device is dropped. Of a payload only bytes it has are read, and nothing
else in it matters; and a payload that is not applied leaves the state as it was. -/
theorem runInput_declared (turns : List (Bytes × Option ℕ)) :
    (∀ e ∈ (runInput Injector.opened turns).pad.file, Declared e) ∧
    (∀ fails, ∀ e ∈ (runInput Injector.opened turns).pad.drop fails, Declared e) ∧
    (∀ payload, (∀ i ∈ packetReads payload, i < payload.length) ∧
      ∀ payload', SameAt (packetReads payload) payload payload' →
        applyPacket payload' = applyPacket payload) ∧
    ∀ payload s, (applyPacket payload s).1 = false → (applyPacket payload s).2 = s := by
  have hfile := (sound_opened.runInput turns).file
  refine ⟨hfile, fun fails => ?_, fun payload => ⟨?_, ?_⟩, ?_⟩
  · exact declared_of_mem_apply inRange_default hfile fails
  · exact fun i hi => Reads.lt_of_mem_log hi
  · exact fun payload' h => applyPacket_of_sameAt h
  · exact fun payload s h => applyPacket_inert h

end RgspCast.InputEvents
