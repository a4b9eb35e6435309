import Mathlib.Data.List.Induction
import RgspCast.Host.Input

/-!
# Decoding the client's input packets

`apply_packet` on payloads of any bytes. Controller packets carry the pad; keyboard packets carry
one edge, and the last section follows a history of them.

The buttons of the keyboard fallback do track the keys that are held. The two axes of the hat keep
one number each where the comment on `apply_keyboard` speaks of two held flags, so releasing one of
two opposing arrows centres the hat while the other is still held (`hat_forgets`).
`applyPackets_heldKeyLaw_iff` says in which histories that shows.
-/

namespace RgspCast.InputDecode

open Input

/-- A payload. -/
abbrev Bytes := List UInt8

/-! ## The constants of the protocol -/

def controllerMagic : UInt32 := 0x0000000A
def multiControllerMagic : UInt32 := 0x0000000D
def multiControllerMagicGen5 : UInt32 := 0x0000000C
def keyDownMagic : UInt32 := 0x00000003
def keyUpMagic : UInt32 := 0x00000004

def upFlag : UInt16 := 0x0001
def downFlag : UInt16 := 0x0002
def leftFlag : UInt16 := 0x0004
def rightFlag : UInt16 := 0x0008
def playFlag : UInt16 := 0x0010
def backFlag : UInt16 := 0x0020
def lbFlag : UInt16 := 0x0100
def rbFlag : UInt16 := 0x0200
def specialFlag : UInt16 := 0x0400
def aFlag : UInt16 := 0x1000
def bFlag : UInt16 := 0x2000
def xFlag : UInt16 := 0x4000
def yFlag : UInt16 := 0x8000

def btnSouth : UInt16 := 304
def btnEast : UInt16 := 305
def btnNorth : UInt16 := 307
def btnWest : UInt16 := 308
def btnTl : UInt16 := 310
def btnTr : UInt16 := 311
def btnTl2 : UInt16 := 312
def btnSelect : UInt16 := 314
def btnStart : UInt16 := 315
def keyGoto : UInt16 := 354

/-- `BUTTON_MAP`: where each Moonlight button lands on this device. -/
def buttonMap : List (UInt16 × UInt16) :=
  [(aFlag, btnSouth), (bFlag, btnEast), (xFlag, btnNorth), (yFlag, btnWest), (lbFlag, btnTl),
    (rbFlag, btnTr), (backFlag, btnSelect), (playFlag, btnStart), (specialFlag, keyGoto)]

/-- `KEYBOARD_MAP`: virtual-key codes and the button each presses. -/
def keyboardMap : List (UInt16 × UInt16) :=
  [(0x5A, btnSouth), (0x58, btnEast), (0x41, btnNorth), (0x53, btnWest), (0x51, btnTl),
    (0x57, btnTr), (0x0D, btnStart), (0x08, btnSelect), (0x1B, keyGoto)]

def vkLeft : UInt16 := 0x25
def vkUp : UInt16 := 0x26
def vkRight : UInt16 := 0x27
def vkDown : UInt16 := 0x28

/-! ## `apply_packet` -/

/-- `u16_le`: two little-endian bytes at `off`, if the payload has them. -/
def u16Le (b : Bytes) (off : ℕ) : Option UInt16 :=
  match b.drop off with
  | b0 :: b1 :: _ => some (b0.toUInt16 ||| b1.toUInt16 <<< 8)
  | _ => none

/-- `u32_le`: four little-endian bytes at `off`, if the payload has them. -/
def u32Le (b : Bytes) (off : ℕ) : Option UInt32 :=
  match b.drop off with
  | b0 :: b1 :: b2 :: b3 :: _ =>
    some (b0.toUInt32 ||| b1.toUInt32 <<< 8 ||| b2.toUInt32 <<< 16 ||| b3.toUInt32 <<< 24)
  | _ => none

/-- The part of `apply_keyboard` behind its read: one edge. -/
def applyKey (raw : UInt16) (down : Bool) (state : PadState) : Bool × PadState :=
  let key := raw &&& 0x00FF
  match keyboardMap.find? (·.1 == key) with
  | some (_, code) => (true, state.setKey code down)
  | none =>
    if key = vkLeft then (true, { state with hatX := if down then -1 else 0 })
    else if key = vkRight then (true, { state with hatX := if down then 1 else 0 })
    else if key = vkUp then (true, { state with hatY := if down then -1 else 0 })
    else if key = vkDown then (true, { state with hatY := if down then 1 else 0 })
    else (false, state)

/-- `apply_keyboard`. Returns whether the key is one the pad knows. -/
def applyKeyboard (payload : Bytes) (down : Bool) (state : PadState) : Bool × PadState :=
  match u16Le payload 5 with
  | none => (false, state)
  | some raw => applyKey raw down state

/-- A hat axis from its two directions: opposing directions cancel. -/
def hatOf (negative positive : Bool) : Int32 :=
  match negative, positive with
  | true, false => -1
  | false, true => 1
  | _, _ => 0

/-- The part of `apply_packet` behind the choice of offsets: buttons, hat, triggers, left stick. -/
def applyController (payload : Bytes) (buttonsAt : ℕ) (state : PadState) : Bool × PadState :=
  match u16Le payload buttonsAt with
  | none => (false, state)
  | some flags =>
    let state := buttonMap.foldl (fun s (flag, code) => s.setKey code (flags &&& flag != 0)) state
    let state := { state with
      hatX := hatOf (flags &&& leftFlag != 0) (flags &&& rightFlag != 0)
      hatY := hatOf (flags &&& upFlag != 0) (flags &&& downFlag != 0) }
    let afterButtons := buttonsAt + 2
    let state := match payload[afterButtons]?, payload[afterButtons + 1]? with
      | some left, some right =>
        { state.setKey btnTl2 (127 < left) with rz := right.toUInt32.toInt32 }
      | _, _ => state
    let state := match u16Le payload (afterButtons + 2), u16Le payload (afterButtons + 4) with
      | some x, some y => { state with rx := x.toInt16.toInt32, ry := y.toInt16.toInt32 }
      | _, _ => state
    (true, state)

/-- `apply_packet`. Returns `false` for packets that are not controller input. -/
def applyPacket (payload : Bytes) (state : PadState) : Bool × PadState :=
  match u32Le payload 0 with
  | none => (false, state)
  | some magic =>
    if magic = keyDownMagic then applyKeyboard payload true state
    else if magic = keyUpMagic then applyKeyboard payload false state
    -- a haptics packet shares the magic and is shorter
    else if magic = multiControllerMagic ∧ payload.length < 24 then (false, state)
    else if magic = multiControllerMagic ∨ magic = multiControllerMagicGen5 then
      applyController payload 12 state
    else if magic = controllerMagic then applyController payload 6 state
    else (false, state)

/-! ## Keyboard histories -/

/-- A key-down or key-up packet: the virtual-key code under any high byte, any flags, and anything
behind. -/
structure KeyPacket where
  down : Bool
  flags : UInt8
  vk : UInt8
  high : UInt8
  rest : Bytes
  deriving DecidableEq, Repr

/-- The packet on the wire. -/
def KeyPacket.bytes (p : KeyPacket) : Bytes :=
  [if p.down then 3 else 4, 0, 0, 0, p.flags, p.vk, p.high] ++ p.rest

/-- The packet is for this key. -/
def KeyPacket.isFor (vk : UInt16) (p : KeyPacket) : Bool := p.vk.toUInt16 == vk

/-- The packets of a history, applied in order to a fresh pad. -/
def applyPackets (ps : List KeyPacket) : PadState :=
  ps.foldl (fun s p => (applyPacket p.bytes s).2) default

/-- The last packet of a history that satisfies `f`. -/
def lastWhere (f : KeyPacket → Bool) (ps : List KeyPacket) : Option KeyPacket :=
  (ps.filter f).getLast?

/-- A key is held if its last event was a down. -/
def held (vk : UInt16) (ps : List KeyPacket) : Bool :=
  (lastWhere (·.isFor vk) ps).any (·.down)

/-- What the pad should show for the keys held: the two hat axes, and every mapped button. -/
structure HeldKeyLaw (ps : List KeyPacket) : Prop where
  hatX : (applyPackets ps).hatX = hatOf (held vkLeft ps) (held vkRight ps)
  hatY : (applyPackets ps).hatY = hatOf (held vkUp ps) (held vkDown ps)
  button : ∀ vk code, (vk, code) ∈ keyboardMap →
    (applyPackets ps).keyDown (keys.idxOf code) = held vk ps

/-- The last arrow event of an axis. -/
def lastArrow (negative positive : UInt16) (ps : List KeyPacket) : Option KeyPacket :=
  lastWhere (fun p => p.isFor negative || p.isFor positive) ps

/-- The last arrow event of an axis leaves no opposing arrow held. -/
def Unopposed (negative positive : UInt16) (ps : List KeyPacket) : Prop :=
  ∀ p ∈ lastArrow negative positive ps,
    held (if p.isFor negative then positive else negative) ps = false

instance (negative positive : UInt16) (ps : List KeyPacket) :
    Decidable (Unopposed negative positive ps) :=
  inferInstanceAs (Decidable (∀ p ∈ lastArrow negative positive ps, _))

@[simp] theorem lastWhere_nil (f : KeyPacket → Bool) : lastWhere f [] = none := rfl

/-- The last packet is looked at first. -/
theorem lastWhere_concat (f : KeyPacket → Bool) (ps : List KeyPacket) (p : KeyPacket) :
    lastWhere f (ps ++ [p]) = if f p then some p else lastWhere f ps := by
  rw [lastWhere, List.filter_append]
  cases hf : f p
  · simp [lastWhere, hf]
  · simp [hf]

/-- A key is down as its last packet says. -/
theorem held_concat (vk : UInt16) (ps : List KeyPacket) (p : KeyPacket) :
    held vk (ps ++ [p]) = if p.isFor vk then p.down else held vk ps := by
  rw [held, lastWhere_concat]
  split <;> rfl

/-- The mask of `apply_keyboard` leaves the virtual-key code. -/
theorem and_mask (lo hi : UInt8) :
    (lo.toUInt16 ||| hi.toUInt16 <<< 8) &&& 0x00FF = lo.toUInt16 := by
  have hmask : ∀ x : ℕ, x &&& 255 = x % 256 := fun x => Nat.and_two_pow_sub_one_eq_mod x 8
  have hshift : hi.toNat <<< 8 % 65536 % 256 = 0 := by
    rw [Nat.shiftLeft_eq]
    omega
  have hlo := lo.toNat_lt
  rw [← UInt16.toNat_inj]
  simp only [UInt16.toNat_and, UInt16.toNat_or, UInt16.toNat_shiftLeft, UInt8.toNat_toUInt16]
  change (lo.toNat ||| hi.toNat <<< 8 % 65536) &&& 255 = lo.toNat
  rw [Nat.and_or_distrib_right, hmask, hmask, hshift, Nat.or_zero]
  exact Nat.mod_eq_of_lt hlo

/-- What an arrow event makes of the axis it is on. -/
def arrowStep (negative positive : UInt16) (p : KeyPacket) (x : Int32) : Int32 :=
  if p.isFor negative then if p.down then -1 else 0
  else if p.isFor positive then if p.down then 1 else 0
  else x

/-- The key code is at offset 5, in little-endian order. -/
theorem u16Le_bytes (p : KeyPacket) :
    u16Le p.bytes 5 = some (p.vk.toUInt16 ||| p.high.toUInt16 <<< 8) := rfl

/-- The bytes of a key packet are applied as one. -/
theorem applyPacket_bytes (p : KeyPacket) (s : PadState) :
    applyPacket p.bytes s = applyKeyboard p.bytes p.down s := by
  have hmagic : u32Le p.bytes 0 = some (if p.down then keyDownMagic else keyUpMagic) := by
    have hle : ∀ b : UInt8, b = 3 ∨ b = 4 → b.toUInt32 ||| (0 : UInt8).toUInt32 <<< 8 |||
        (0 : UInt8).toUInt32 <<< 16 ||| (0 : UInt8).toUInt32 <<< 24 = b.toUInt32 := by
      rintro b (rfl | rfl) <;> decide
    change some _ = _
    rw [hle _ (by cases p.down <;> decide)]
    cases p.down <;> rfl
  have hne : keyUpMagic ≠ keyDownMagic := by decide
  rw [applyPacket, hmagic]
  cases p.down <;> simp [hne]

/-- A key packet sets one mapped button, or moves the axes as an arrow does. -/
theorem applyPacket_cases (p : KeyPacket) (s : PadState) :
    (∃ code, (p.vk.toUInt16, code) ∈ keyboardMap ∧
      (applyPacket p.bytes s).2 = s.setKey code p.down) ∨
    ((∀ e ∈ keyboardMap, e.1 ≠ p.vk.toUInt16) ∧
      (applyPacket p.bytes s).2 = { s with
        hatX := arrowStep vkLeft vkRight p s.hatX
        hatY := arrowStep vkUp vkDown p s.hatY }) := by
  rw [applyPacket_bytes, applyKeyboard, u16Le_bytes]
  simp only [applyKey, and_mask]
  -- a key of the map, or an arrow, or nothing
  cases hfind : keyboardMap.find? (·.1 == p.vk.toUInt16) with
  | some e =>
    obtain ⟨vk, code⟩ := e
    have hvk : vk = p.vk.toUInt16 := by simpa using List.find?_some hfind
    exact Or.inl ⟨code, hvk ▸ List.mem_of_find?_eq_some hfind, rfl⟩
  | none =>
    refine Or.inr ⟨fun e he => by simpa using List.find?_eq_none.mp hfind e he, ?_⟩
    simp only [arrowStep, KeyPacket.isFor, beq_iff_eq]
    generalize p.vk.toUInt16 = key
    -- the four arrows are tested in this order
    by_cases hl : key = vkLeft
    · subst hl
      rfl
    · by_cases hr : key = vkRight
      · subst hr
        rfl
      · by_cases hu : key = vkUp
        · subst hu
          rfl
        · by_cases hd : key = vkDown
          · subst hd
            rfl
          · simp only [hl, hr, hu, hd, if_false]

/-- A key does not move the hat. -/
@[simp] theorem hatX_setKey (s : PadState) (code : UInt16) (down : Bool) :
    (s.setKey code down).hatX = s.hatX := by
  rw [PadState.setKey]
  split <;> rfl

/-- On neither axis. -/
@[simp] theorem hatY_setKey (s : PadState) (code : UInt16) (down : Bool) :
    (s.setKey code down).hatY = s.hatY := by
  rw [PadState.setKey]
  split <;> rfl

/-- A mapped key is not an arrow. -/
theorem arrowStep_of_mem {p : KeyPacket} {code negative positive : UInt16} (x : Int32)
    (h : (p.vk.toUInt16, code) ∈ keyboardMap)
    (harrow : ∀ e ∈ keyboardMap, e.1 ≠ negative ∧ e.1 ≠ positive) :
    arrowStep negative positive p x = x := by
  obtain ⟨hn, hp⟩ := harrow _ h
  simp [arrowStep, KeyPacket.isFor, hn, hp]

/-- The arrows left and right move the horizontal axis. -/
theorem applyPacket_hatX (p : KeyPacket) (s : PadState) :
    (applyPacket p.bytes s).2.hatX = arrowStep vkLeft vkRight p s.hatX := by
  rcases applyPacket_cases p s with ⟨code, hmem, h⟩ | ⟨-, h⟩
  · rw [h, hatX_setKey, arrowStep_of_mem _ hmem (forall_mem_of_all (by decide))]
  · rw [h]

/-- The arrows up and down move the vertical one. -/
theorem applyPacket_hatY (p : KeyPacket) (s : PadState) :
    (applyPacket p.bytes s).2.hatY = arrowStep vkUp vkDown p s.hatY := by
  rcases applyPacket_cases p s with ⟨code, hmem, h⟩ | ⟨-, h⟩
  · rw [h, hatY_setKey, arrowStep_of_mem _ hmem (forall_mem_of_all (by decide))]
  · rw [h]

/-- No two keys share a button, and no key has two. -/
theorem keyboardMap_inj : ∀ e ∈ keyboardMap, ∀ e' ∈ keyboardMap, e.1 = e'.1 ↔ e.2 = e'.2 := by
  have hkeys : (keyboardMap.map Prod.fst).Nodup := by decide
  have hbuttons : (keyboardMap.map Prod.snd).Nodup := by decide
  intro e he e' he'
  exact ⟨fun h => congrArg Prod.snd (List.inj_on_of_nodup_map hkeys he he' h),
    fun h => congrArg Prod.fst (List.inj_on_of_nodup_map hbuttons he he' h)⟩

/-- The keyboard is mapped to keys of the device. -/
theorem keyboardMap_keys : ∀ e ∈ keyboardMap, e.2 ∈ keys := forall_mem_of_all (by decide)

/-- A mapped key follows its packets. -/
theorem applyPacket_keyDown (p : KeyPacket) (s : PadState) {vk code : UInt16}
    (hmem : (vk, code) ∈ keyboardMap) :
    (applyPacket p.bytes s).2.keyDown (keys.idxOf code) =
      if p.isFor vk then p.down else s.keyDown (keys.idxOf code) := by
  rcases applyPacket_cases p s with ⟨code', hmem', h⟩ | ⟨hnot, h⟩
  · have hiff : code' = code ↔ p.isFor vk = true := by
      rw [KeyPacket.isFor, beq_iff_eq]
      exact (keyboardMap_inj _ hmem' _ hmem).symm
    rw [h, PadState.keyDown_setKey s p.down (keyboardMap_keys _ hmem') code]
    simp only [hiff]
  · have hne : p.isFor vk = false := by
      simpa [KeyPacket.isFor] using Ne.symm (hnot _ hmem)
    rw [h, hne]
    rfl

/-- The last packet is applied to what the others left. -/
theorem applyPackets_concat (ps : List KeyPacket) (p : KeyPacket) :
    applyPackets (ps ++ [p]) = (applyPacket p.bytes (applyPackets ps)).2 := by
  rw [applyPackets, List.foldl_append]
  rfl

/-- A button is down while its key is held. -/
theorem keyDown_applyPackets (ps : List KeyPacket) {vk code : UInt16}
    (hmem : (vk, code) ∈ keyboardMap) :
    (applyPackets ps).keyDown (keys.idxOf code) = held vk ps := by
  induction ps using List.reverseRecOn with
  | nil =>
    rw [PadState.keyDown_eq]
    exact BitVec.getLsbD_zero
  | append_singleton ps p ih =>
    rw [applyPackets_concat, applyPacket_keyDown _ _ hmem, ih, held_concat]

/-! ## The hat -/

/-- What the last arrow event leaves on its axis. -/
def hatAfter (negative positive : UInt16) (ps : List KeyPacket) : Int32 :=
  ((lastArrow negative positive ps).map fun p => arrowStep negative positive p 0).getD 0

/-- So it is for one axis of the hat. -/
theorem hatAfter_concat (negative positive : UInt16) (ps : List KeyPacket) (p : KeyPacket) :
    hatAfter negative positive (ps ++ [p]) =
      arrowStep negative positive p (hatAfter negative positive ps) := by
  rw [hatAfter, lastArrow, lastWhere_concat]
  cases hn : p.isFor negative <;> cases hp : p.isFor positive <;> 
    simp [arrowStep, hn, hp, hatAfter, lastArrow]

/-- The horizontal axis after any packets. -/
theorem hatX_applyPackets (ps : List KeyPacket) :
    (applyPackets ps).hatX = hatAfter vkLeft vkRight ps := by
  induction ps using List.reverseRecOn with
  | nil => rfl
  | append_singleton ps p ih => rw [applyPackets_concat, applyPacket_hatX, ih, hatAfter_concat]

/-- And the vertical one. -/
theorem hatY_applyPackets (ps : List KeyPacket) :
    (applyPackets ps).hatY = hatAfter vkUp vkDown ps := by
  induction ps using List.reverseRecOn with
  | nil => rfl
  | append_singleton ps p ih => rw [applyPackets_concat, applyPacket_hatY, ih, hatAfter_concat]

/-- Before any arrow event no arrow is held. -/
theorem held_of_lastArrow_none {negative positive : UInt16} {ps : List KeyPacket}
    (h : lastArrow negative positive ps = none) :
    held negative ps = false ∧ held positive ps = false := by
  induction ps using List.reverseRecOn with
  | nil => exact ⟨rfl, rfl⟩
  | append_singleton ps p ih =>
    rw [lastArrow, lastWhere_concat] at h
    split at h
    next => cases h
    next hp =>
      rw [Bool.or_eq_true, not_or] at hp
      rw [held_concat, held_concat, if_neg hp.1, if_neg hp.2]
      exact ih h

/-- The arrow of the last arrow event is held if that event was a down. -/
theorem held_of_lastArrow_some {negative positive : UInt16} {ps : List KeyPacket} {p : KeyPacket}
    (h : lastArrow negative positive ps = some p) :
    (p.isFor negative = true ∨ p.isFor positive = true) ∧
    (p.isFor negative = true → held negative ps = p.down) ∧
    (p.isFor positive = true → held positive ps = p.down) := by
  induction ps using List.reverseRecOn with
  | nil => cases h
  | append_singleton ps q ih =>
    rw [lastArrow, lastWhere_concat] at h
    rw [held_concat, held_concat]
    split at h
    next hq =>
      obtain rfl : q = p := Option.some.inj h
      exact ⟨by simpa using hq, fun hn => if_pos hn, fun hp => if_pos hp⟩
    next hq =>
      rw [Bool.or_eq_true, not_or] at hq
      rw [if_neg hq.1, if_neg hq.2]
      exact ih h

/-- An axis shows the arrows held exactly where its last event is unopposed. -/
theorem hatAfter_eq_hatOf_iff (negative positive : UInt16) (ps : List KeyPacket) :
    hatAfter negative positive ps = hatOf (held negative ps) (held positive ps) ↔
      Unopposed negative positive ps := by
  rw [Unopposed, hatAfter]
  cases hlast : lastArrow negative positive ps with
  | none =>
    obtain ⟨hn, hp⟩ := held_of_lastArrow_none hlast
    simp [hn, hp, hatOf]
  | some p =>
    obtain ⟨harrow, hn, hp⟩ := held_of_lastArrow_some hlast
    simp only [Option.map_some, Option.getD_some, Option.mem_some_iff, forall_eq']
    by_cases hfor : p.isFor negative = true
    · rw [hn hfor, arrowStep, if_pos hfor, if_pos hfor]
      cases p.down <;> cases held positive ps <;> decide
    · rw [hp (harrow.resolve_left hfor), arrowStep, if_neg hfor,
        if_pos (harrow.resolve_left hfor), if_neg hfor]
      cases p.down <;> cases held negative ps <;> decide

/-- Left down, right down, left up. -/
def rollRight : List KeyPacket :=
  [⟨true, 0, 0x25, 0x80, [0, 0, 0]⟩, ⟨true, 0, 0x27, 0x80, [0, 0, 0]⟩,
    ⟨false, 0, 0x25, 0x80, [0, 0, 0]⟩]

/-- Only the right arrow is held, and the hat is centred. -/
theorem hat_forgets : ¬ ∀ ps, HeldKeyLaw ps := by
  intro h
  exact absurd (h rollRight).hatX (by decide)

/-- **The held-key law, exactly.** The pad shows the keys held after a history of key packets if
and only if on each axis the last arrow event leaves no opposing arrow held. -/
theorem applyPackets_heldKeyLaw_iff (ps : List KeyPacket) :
    HeldKeyLaw ps ↔ Unopposed vkLeft vkRight ps ∧ Unopposed vkUp vkDown ps := by
  have hx := hatAfter_eq_hatOf_iff vkLeft vkRight ps
  have hy := hatAfter_eq_hatOf_iff vkUp vkDown ps
  rw [← hatX_applyPackets] at hx
  rw [← hatY_applyPackets] at hy
  rw [← hx, ← hy]
  exact ⟨fun h => ⟨h.hatX, h.hatY⟩,
    fun h => ⟨h.1, h.2, fun vk code hmem => keyDown_applyPackets ps hmem⟩⟩

end RgspCast.InputDecode
