import RgspCast.Host.InputDecode
import RgspCast.Lib.Transition

/-!
# Input under packet loss

`InputForwarder::forward` drops a payload when the queue to `run_input` is full, on the ground that
each packet carries everything the client is holding, so that the next one restores the truth. A
controller packet does so exactly where it is long enough for the triggers and the left stick: a
shorter one is accepted, and what it has no bytes for stays as it was.

The argument compares two runs. Two pads that agree on the keys no packet can reach still do after
any packet, and after a whole controller packet they are equal.
-/

namespace RgspCast.InputForward

open Input InputDecode Transition

/-! ## From the queue to the pad -/

/-- The queue between the control stream and `run_input`, and the pad `run_input` keeps. -/
structure Feed where
  queue : List Bytes
  state : PadState
  deriving DecidableEq, Repr

inductive Action where
  /-- `InputForwarder::forward`, from the control stream. -/
  | forward (payload : Bytes)
  /-- A turn of the loop of `run_input`. -/
  | recv
  deriving DecidableEq, Repr

/-- One step, with a queue of capacity `cap`: what finds it full is dropped. -/
def step (cap : ℕ) (s : Feed) : Action → Option Feed
  | .forward payload =>
    some (if s.queue.length < cap then { s with queue := s.queue ++ [payload] } else s)
  | .recv =>
    match s.queue with
    | [] => none
    | payload :: queue => some ⟨queue, (applyPacket payload s.state).2⟩

/-- The start of a session. -/
def Feed.init : Feed := ⟨[], default⟩

/-- The pad after some payloads, from its default. -/
def padAfter (payloads : List Bytes) : PadState :=
  payloads.foldl (fun s p => (applyPacket p s).2) default

/-- The pad gets into this state by packets. -/
def Reachable (s : PadState) : Prop := ∃ payloads, padAfter payloads = s

theorem reachable_default : Reachable default := ⟨[], rfl⟩

/-- One packet more. -/
theorem Reachable.applyPacket {s : PadState} (h : Reachable s) (p : Bytes) :
    Reachable (applyPacket p s).2 := by
  obtain ⟨payloads, rfl⟩ := h
  exact ⟨payloads ++ [p], by rw [padAfter, List.foldl_append]; rfl⟩

/-- A turn of the loop takes the head of the queue. -/
theorem recv_eq_some {cap : ℕ} {m m' : Feed} (h : step cap m .recv = some m') :
    ∃ p queue, m.queue = p :: queue ∧ m' = ⟨queue, (applyPacket p m.state).2⟩ := by
  obtain ⟨queue, state⟩ := m
  cases queue with
  | nil => cases h
  | cons p queue => exact ⟨p, queue, rfl, (Option.some.inj h).symm⟩

/-- Whatever is dropped, the pad is in a state that packets lead to. -/
theorem reachable_of_run {cap : ℕ} {as : List Action} {m : Feed}
    (h : run (step cap) Feed.init as = some m) : Reachable m.state := by
  have hstep : ∀ m a m', step cap m a = some m' → Reachable m.state → Reachable m'.state := by
    intro m a m' ha hm
    cases a with
    | forward payload =>
      obtain rfl := Option.some.inj ha
      split
      · exact hm
      · exact hm
    | recv =>
      obtain ⟨p, queue, -, rfl⟩ := recv_eq_some ha
      exact hm.applyPacket p
  exact run_invariant hstep h reachable_default

/-! ## Controller packets -/

/-- The three magics of controller packets. -/
def controllerMagics : List UInt32 :=
  [controllerMagic, multiControllerMagicGen5, multiControllerMagic]

/-- A payload with the magic of a controller packet. -/
def IsController (p : Bytes) : Prop := ∃ magic ∈ controllerMagics, u32Le p 0 = some magic

/-- Where the buttons are in a controller packet. -/
def buttonsAt (magic : UInt32) : ℕ := if magic = controllerMagic then 6 else 12

/-- The payload reaches to the end of the left stick: two bytes of buttons, two of triggers and
four of axes. -/
def Whole (p : Bytes) : Prop := ∀ magic ∈ u32Le p 0, buttonsAt magic + 8 ≤ p.length

instance (p : Bytes) : Decidable (Whole p) :=
  decidable_of_iff ((u32Le p 0).all fun magic => buttonsAt magic + 8 ≤ p.length)
    ((Option.all_eq_true _ _).trans (forall₂_congr fun _ _ => decide_eq_true_iff))

/-- An accepted controller packet is read at the offsets of its magic, whatever the pad. -/
theorem applyPacket_of_accepted {p : Bytes} {magic : UInt32} {s₀ : PadState}
    (hctl : magic ∈ controllerMagics) (hmagic : u32Le p 0 = some magic)
    (hacc : (applyPacket p s₀).1 = true) (s : PadState) :
    applyPacket p s = applyController p (buttonsAt magic) s := by
  simp only [controllerMagics, List.mem_cons, List.not_mem_nil, or_false] at hctl
  rcases hctl with rfl | rfl | rfl
  · simp [applyPacket, hmagic, buttonsAt, controllerMagic, keyDownMagic, keyUpMagic,
      multiControllerMagic, multiControllerMagicGen5]
  · simp [applyPacket, hmagic, buttonsAt, controllerMagic, keyDownMagic, keyUpMagic,
      multiControllerMagic, multiControllerMagicGen5]
  · -- a haptics packet would not have been accepted
    have hlen : ¬ p.length < 24 := fun hlt => by
      simp [applyPacket, hmagic, hlt, keyDownMagic, keyUpMagic, multiControllerMagic] at hacc
    simp [applyPacket, hmagic, hlen, buttonsAt, controllerMagic, keyDownMagic, keyUpMagic,
      multiControllerMagic]

/-- Two bytes are read where the payload has them. -/
theorem u16Le_eq_none_iff {b : Bytes} {off : ℕ} : u16Le b off = none ↔ b.length < off + 2 := by
  have hlen : (b.drop off).length = b.length - off := List.length_drop
  unfold u16Le
  split
  next b0 b1 rest heq =>
    rw [heq, List.length_cons, List.length_cons] at hlen
    exact iff_of_false (Option.some_ne_none _) (by omega)
  next hshort =>
    refine iff_of_true rfl ?_
    rcases hd : b.drop off with _ | ⟨b0, _ | ⟨b1, rest⟩⟩
    · rw [hd, List.length_nil] at hlen
      omega
    · rw [hd, List.length_singleton] at hlen
      omega
    · exact absurd hd (hshort b0 b1 rest)

/-! ## What a packet reaches -/

/-- The key codes a packet can set. -/
def padCodes : List UInt16 := buttonMap.map Prod.snd ++ [btnTl2]

/-- Two pads hold the same keys, those of the given codes aside. -/
def AgreeOff (codes : List UInt16) (s t : PadState) : Prop :=
  ∀ i, (∀ c ∈ codes, keys.idxOf c ≠ i) → s.keys.getLsbD i = t.keys.getLsbD i

/-- Setting one of the keys that may differ. -/
theorem AgreeOff.setKey {codes : List UInt16} {s t : PadState} {code : UInt16} (down : Bool)
    (hkey : code ∈ keys) (hmem : code ∈ codes) (h : AgreeOff codes s t) :
    AgreeOff codes (s.setKey code down) t := by
  intro i hi
  rw [PadState.getLsbD_setKey s down hkey, if_neg (hi code hmem)]
  exact h i hi

/-- Setting a key alike in both makes them agree on it. -/
theorem AgreeOff.setKey_both {codes : List UInt16} {s t : PadState} {code : UInt16} (down : Bool)
    (hkey : code ∈ keys) (h : AgreeOff (code :: codes) s t) :
    AgreeOff codes (s.setKey code down) (t.setKey code down) := by
  intro i hi
  rw [PadState.getLsbD_setKey s down hkey, PadState.getLsbD_setKey t down hkey]
  split
  · rfl
  next hne => exact h i (List.forall_mem_cons.mpr ⟨hne, hi⟩)

/-- The button loop of a controller packet, over any table. -/
def pressAll (flags : UInt16) (table : List (UInt16 × UInt16)) (s : PadState) : PadState :=
  table.foldl (fun s (flag, code) => s.setKey code (flags &&& flag != 0)) s

/-- The buttons and the hat. -/
def readButtons (flags : UInt16) (s : PadState) : PadState :=
  { pressAll flags buttonMap s with
    hatX := hatOf (flags &&& leftFlag != 0) (flags &&& rightFlag != 0)
    hatY := hatOf (flags &&& upFlag != 0) (flags &&& downFlag != 0) }

/-- The triggers, where the payload has them. -/
def readTriggers (p : Bytes) (afterButtons : ℕ) (s : PadState) : PadState :=
  match p[afterButtons]?, p[afterButtons + 1]? with
  | some left, some right =>
    { s.setKey btnTl2 (127 < left) with rz := right.toUInt32.toInt32 }
  | _, _ => s

/-- The left stick, where the payload has it. -/
def readStick (p : Bytes) (afterButtons : ℕ) (s : PadState) : PadState :=
  match u16Le p (afterButtons + 2), u16Le p (afterButtons + 4) with
  | some x, some y => { s with rx := x.toInt16.toInt32, ry := y.toInt16.toInt32 }
  | _, _ => s

/-- A controller packet is read group by group. -/
theorem applyController_eq_some {p : Bytes} {off : ℕ} {flags : UInt16}
    (h : u16Le p off = some flags) (s : PadState) :
    applyController p off s =
      (true, readStick p (off + 2) (readTriggers p (off + 2) (readButtons flags s))) := by
  rw [applyController, h]
  rfl

/-- A controller packet without its buttons is not applied. -/
theorem applyController_eq_none {p : Bytes} {off : ℕ} (h : u16Le p off = none) (s : PadState) :
    applyController p off s = (false, s) := by
  rw [applyController, h]

/-- The buttons of a table, one after the other. -/
theorem pressAll_cons (flags : UInt16) (e : UInt16 × UInt16) (table : List (UInt16 × UInt16))
    (s : PadState) :
    pressAll flags (e :: table) s = pressAll flags table (s.setKey e.2 (flags &&& e.1 != 0)) := rfl

/-- Buttons of the table leave the other keys alone. -/
theorem AgreeOff.pressAll_left {codes : List UInt16} {s t : PadState} (flags : UInt16)
    {table : List (UInt16 × UInt16)} (htable : ∀ e ∈ table, e.2 ∈ keys ∧ e.2 ∈ codes)
    (h : AgreeOff codes s t) : AgreeOff codes (pressAll flags table s) t := by
  induction table generalizing s with
  | nil => exact h
  | cons e table ih =>
    obtain ⟨he, hrest⟩ := List.forall_mem_cons.mp htable
    rw [pressAll_cons]
    exact ih hrest (h.setKey _ he.1 he.2)

/-- The loop makes two pads agree on its keys. -/
theorem AgreeOff.pressAll_both {codes : List UInt16} {s t : PadState} (flags : UInt16)
    {table : List (UInt16 × UInt16)} (htable : ∀ e ∈ table, e.2 ∈ keys)
    (h : AgreeOff (table.map Prod.snd ++ codes) s t) :
    AgreeOff codes (pressAll flags table s) (pressAll flags table t) := by
  induction table generalizing s t with
  | nil => exact h
  | cons e table ih =>
    obtain ⟨he, hrest⟩ := List.forall_mem_cons.mp htable
    rw [pressAll_cons, pressAll_cons]
    exact ih hrest (h.setKey_both _ he)

/-- A key does not move the stick. -/
@[simp] theorem rx_setKey (s : PadState) (code : UInt16) (down : Bool) :
    (s.setKey code down).rx = s.rx := by
  rw [PadState.setKey]
  split <;> rfl

/-- Nor do the buttons. -/
@[simp] theorem rx_pressAll (flags : UInt16) (table : List (UInt16 × UInt16)) (s : PadState) :
    (pressAll flags table s).rx = s.rx := by
  induction table generalizing s with
  | nil => rfl
  | cons e table ih => rw [pressAll_cons, ih, rx_setKey]

/-- Pads that agree on every key and every axis are equal. -/
theorem AgreeOff.eq {s t : PadState} (h : AgreeOff [] s t) (hhatX : s.hatX = t.hatX)
    (hhatY : s.hatY = t.hatY) (hrx : s.rx = t.rx) (hry : s.ry = t.ry) (hrz : s.rz = t.rz) :
    s = t := by
  obtain ⟨keys, hatX, hatY, rx, ry, rz⟩ := s
  obtain ⟨keys', hatX', hatY', rx', ry', rz'⟩ := t
  have hkeys : keys = keys' := BitVec.eq_of_getLsbD_eq fun i _ => h i (List.forall_mem_nil _)
  simp_all

/-- The buttons are mapped to keys of the device. -/
theorem buttonMap_keys : ∀ e ∈ buttonMap, e.2 ∈ keys := forall_mem_of_all (by decide)

/-- A packet of a controller can set the keys of its buttons. -/
theorem buttonMap_padCodes : ∀ e ∈ buttonMap, e.2 ∈ padCodes := fun _ he =>
  List.mem_append_left _ (List.mem_map_of_mem he)

/-- And a key packet those of the keyboard. -/
theorem keyboardMap_padCodes : ∀ e ∈ keyboardMap, e.2 ∈ padCodes := forall_mem_of_all (by decide)

/-- A state agrees with itself. -/
theorem AgreeOff.refl (codes : List UInt16) (s : PadState) : AgreeOff codes s s := fun _ _ => rfl

/-- A key packet changes no other keys. -/
theorem agreeOff_applyKeyboard (p : Bytes) (down : Bool) (s : PadState) :
    AgreeOff padCodes (applyKeyboard p down s).2 s := by
  unfold applyKeyboard
  split
  · exact AgreeOff.refl padCodes s
  next raw hraw =>
    unfold applyKey
    dsimp only
    split
    next vk code hfind =>
      have hmem := List.mem_of_find?_eq_some hfind
      exact (AgreeOff.refl padCodes s).setKey down (keyboardMap_keys _ hmem)
        (keyboardMap_padCodes _ hmem)
    · -- the hat is not a key
      repeat' split
      all_goals exact AgreeOff.refl padCodes s

/-- Nor does a controller packet. -/
theorem agreeOff_applyController (p : Bytes) (off : ℕ) (s : PadState) :
    AgreeOff padCodes (applyController p off s).2 s := by
  cases hflags : u16Le p off with
  | none =>
    rw [applyController_eq_none hflags]
    exact AgreeOff.refl padCodes s
  | some flags =>
    have hbuttons : AgreeOff padCodes (readButtons flags s) s :=
      (AgreeOff.refl padCodes s).pressAll_left flags
        fun e he => ⟨buttonMap_keys e he, buttonMap_padCodes e he⟩
    -- a packet too short for the triggers leaves them as they are
    have htriggers : AgreeOff padCodes (readTriggers p (off + 2) (readButtons flags s)) s := by
      unfold readTriggers
      split
      · exact hbuttons.setKey _ (by decide) (by decide)
      · exact hbuttons
    rw [applyController_eq_some hflags]
    show AgreeOff padCodes (readStick _ _ _) s
    unfold readStick
    split
    · exact htriggers
    · exact htriggers

/-- No packet sets another key. -/
theorem agreeOff_applyPacket (p : Bytes) (s : PadState) :
    AgreeOff padCodes (applyPacket p s).2 s := by
  unfold applyPacket
  split
  · exact AgreeOff.refl padCodes s
  · repeat' split
    · exact agreeOff_applyKeyboard p true s
    · exact agreeOff_applyKeyboard p false s
    · exact AgreeOff.refl padCodes s
    · exact agreeOff_applyController p 12 s
    · exact agreeOff_applyController p 6 s
    · exact AgreeOff.refl padCodes s

/-- So no run of packets does. -/
theorem Reachable.agreeOff {s : PadState} (h : Reachable s) : AgreeOff padCodes s default := by
  obtain ⟨payloads, rfl⟩ := h
  induction payloads using List.reverseRecOn with
  | nil => exact fun _ _ => rfl
  | append_singleton payloads p ih =>
    rw [padAfter, List.foldl_append]
    exact fun i hi => (agreeOff_applyPacket p _ i hi).trans (ih i hi)

/-! ## Whole packets, and short ones -/

/-- A whole controller packet overwrites everything two pads may differ in. -/
theorem applyController_congr {p : Bytes} {off : ℕ} (hlen : off + 8 ≤ p.length) {s t : PadState}
    (h : AgreeOff padCodes s t) : (applyController p off s).2 = (applyController p off t).2 := by
  have hsome {i : ℕ} (hi : i + 2 ≤ p.length) : ∃ v, u16Le p i = some v :=
    Option.ne_none_iff_exists'.mp (mt u16Le_eq_none_iff.mp (by omega))
  obtain ⟨flags, hflags⟩ := hsome (show off + 2 ≤ p.length by omega)
  obtain ⟨x, hx⟩ := hsome (show off + 2 + 2 + 2 ≤ p.length by omega)
  obtain ⟨y, hy⟩ := hsome (show off + 2 + 4 + 2 ≤ p.length by omega)
  have hleft : off + 2 < p.length := by omega
  have hright : off + 2 + 1 < p.length := by omega
  have hbuttons : AgreeOff [btnTl2] (readButtons flags s) (readButtons flags t) :=
    h.pressAll_both flags buttonMap_keys
  have hkeys := hbuttons.setKey_both (127 < p[off + 2]) (by decide)
  rw [applyController_eq_some hflags, applyController_eq_some hflags]
  simp only [readStick, hx, hy, readTriggers, List.getElem?_eq_getElem hleft,
    List.getElem?_eq_getElem hright]
  refine AgreeOff.eq hkeys ?_ ?_ rfl rfl rfl
  · rw [hatX_setKey, hatX_setKey]
    rfl
  · rw [hatY_setKey, hatY_setKey]
    rfl

/-- Reading the triggers does not move the stick. -/
@[simp] theorem rx_readTriggers (p : Bytes) (off : ℕ) (s : PadState) :
    (readTriggers p off s).rx = s.rx := by
  unfold readTriggers
  split
  next left right hleft hright => exact rx_setKey s btnTl2 (127 < left)
  · rfl

/-- A short one leaves the stick alone. -/
theorem rx_applyController {p : Bytes} {off : ℕ} (hlen : p.length < off + 8) (s : PadState) :
    (applyController p off s).2.rx = s.rx := by
  cases hflags : u16Le p off with
  | none => rw [applyController_eq_none hflags]
  | some flags =>
    have hy : u16Le p (off + 2 + 4) = none := u16Le_eq_none_iff.mpr (by omega)
    have hstick (t : PadState) : readStick p (off + 2) t = t := by
      rw [readStick, hy]
      cases u16Le p (off + 2 + 2) <;> rfl
    rw [applyController_eq_some hflags, hstick, rx_readTriggers]
    exact rx_pressAll flags buttonMap s

/-- The left stick one step to the right, nothing else held. -/
def deflect : Bytes := [0x0A, 0, 0, 0, 0, 0, 0, 0, 0, 0, 1, 0, 0, 0]

/-- The packet moves the stick. -/
theorem deflect_rx : (padAfter [deflect]).rx ≠ (default : PadState).rx := by decide

/-- What a packet makes of any two pads that packets lead to is the same. -/
def Settles (p : Bytes) : Prop :=
  ∀ s t, Reachable s → Reachable t → (applyPacket p s).2 = (applyPacket p t).2

/-- Whatever was forwarded, dropped and received, the pad after this payload is received is what
the payload makes of a fresh one. -/
def LeavesNoTrace (p : Bytes) : Prop :=
  ∀ cap as m, run (step cap) Feed.init as = some m → m.queue.head? = some p →
    ∀ m', step cap m .recv = some m' → m'.state = (applyPacket p default).2

/-- **An accepted controller packet carries the complete state exactly where it is whole**: where it
reaches to the end of the left stick, whatever was lost before it leaves no trace, and otherwise it
does. -/
theorem complete_iff_whole {p : Bytes} {s₀ : PadState} (hctl : IsController p)
    (hacc : (applyPacket p s₀).1 = true) :
    (Settles p ↔ Whole p) ∧ (LeavesNoTrace p ↔ Whole p) := by
  obtain ⟨magic, hmem, hmagic⟩ := hctl
  have happly := applyPacket_of_accepted hmem hmagic hacc
  have hsettles (hwhole : Whole p) : Settles p := by
    intro s t hs ht
    rw [happly, happly]
    exact applyController_congr (hwhole magic hmagic)
      fun i hi => (hs.agreeOff i hi).trans (ht.agreeOff i hi).symm
  -- a short packet keeps the stick where another has put it
  have hshort (hwhole : ¬ Whole p) (s : PadState) : (applyPacket p s).2.rx = s.rx := by
    rw [happly]
    refine rx_applyController (Nat.lt_of_not_le fun hle => hwhole ?_) s
    intro magic' hmagic'
    obtain rfl := Option.some.inj (hmagic.symm.trans hmagic')
    exact hle
  constructor
  · refine ⟨fun hall => by_contra fun hwhole => ?_, hsettles⟩
    have heq := congrArg PadState.rx (hall (padAfter [deflect]) default ⟨_, rfl⟩ reachable_default)
    rw [hshort hwhole, hshort hwhole] at heq
    exact deflect_rx heq
  · constructor
    · intro hall
      by_contra hwhole
      have heq := hall 1 [.forward deflect, .recv, .forward p] ⟨[p], padAfter [deflect]⟩ rfl rfl
        ⟨[], (applyPacket p (padAfter [deflect])).2⟩ rfl
      have hrx := congrArg PadState.rx heq
      rw [hshort hwhole, hshort hwhole] at hrx
      exact deflect_rx hrx
    · intro hwhole cap as m hrun hhead m' hrecv
      obtain ⟨q, queue, hqueue, rfl⟩ := recv_eq_some hrecv
      rw [hqueue] at hhead
      obtain rfl := Option.some.inj hhead
      exact hsettles hwhole _ _ (reachable_of_run hrun) reachable_default

/-- The packet is whole, so it settles the pad. -/
theorem complete_iff_whole_deflect : Settles deflect ∧ LeavesNoTrace deflect := by
  have h := @complete_iff_whole deflect default ⟨controllerMagic, by decide, by decide⟩ (by decide)
  exact ⟨h.1.mpr (by decide), h.2.mpr (by decide)⟩

/-- The buttons of a controller packet, and nothing behind them. -/
def buttonsOnly : Bytes := [0x0A, 0, 0, 0, 0, 0, 0, 0]

/-- A packet that is accepted and leaves the stick deflected. -/
theorem not_settles :
    ¬ ∀ (p : Bytes) (s₀ : PadState), IsController p → (applyPacket p s₀).1 = true → Settles p := by
  intro hall
  have hsettles := hall buttonsOnly default ⟨controllerMagic, by decide, by decide⟩ (by decide)
  have heq := hsettles (padAfter [deflect]) default ⟨_, rfl⟩ reachable_default
  exact absurd (congrArg PadState.rx heq) (by decide)

end RgspCast.InputForward
