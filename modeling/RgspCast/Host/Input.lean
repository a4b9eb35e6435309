import RgspCast.Lib.Delta

/-!
# The virtual gamepad

`VirtualPad::apply` turns the absolute states the protocol reports into evdev reports: the key
codes and axes that differ from the state before, then a `SYN_REPORT`. The consumer on the other
side only sees the events, so `apply` and the consumer form a delta encoder and its decoder, over
the channels `channels`.

`applyAll_replays` is the round trip over whole histories, and the shape of every report in them.
-/

namespace RgspCast.Input

/-! ## The constants of the device -/

def evSyn : UInt16 := 0x00
def evKey : UInt16 := 0x01
def evAbs : UInt16 := 0x03
def synReport : UInt16 := 0

/-- `KEYS`: every key code the real pad reports, in its order. -/
def keys : List UInt16 := [1, 114, 115, 304, 305, 306, 307, 308, 309, 310, 311, 312, 314, 315, 354]

/-- `timeval`, which `event` leaves zero. -/
structure Timeval where
  tvSec : Int
  tvUsec : Int
  deriving DecidableEq, Repr

/-- `input_event`. -/
structure InputEvent where
  time : Timeval
  type : UInt16
  code : UInt16
  value : Int32
  deriving DecidableEq, Repr

def event (type code : UInt16) (value : Int32) : InputEvent where
  time := ⟨0, 0⟩
  type := type
  code := code
  value := value

/-! ## `PadState` -/

/-- The buttons and axes a client can be holding at one instant. -/
structure PadState where
  /-- Key codes currently held, as a bitmask over `keys` by index. -/
  keys : BitVec 32
  hatX : Int32
  hatY : Int32
  rx : Int32
  ry : Int32
  rz : Int32
  deriving DecidableEq, Repr

/-- `PadState::default`: nothing held. -/
instance : Inhabited PadState := ⟨⟨0, 0, 0, 0, 0, 0⟩⟩

/-- `set_key`: a code that is not in `keys` is ignored. -/
def PadState.setKey (s : PadState) (code : UInt16) (down : Bool) : PadState :=
  match Input.keys.findIdx? (· == code) with
  | some i =>
    { s with keys := if down then s.keys ||| (1#32 <<< i) else s.keys &&& ~~~(1#32 <<< i) }
  | none => s

/-- `key_down`. -/
def PadState.keyDown (s : PadState) (index : ℕ) : Bool := s.keys >>> index &&& 1#32 == 1#32

/-- `key_down` reads one bit of the mask. -/
theorem PadState.keyDown_eq (s : PadState) (i : ℕ) : s.keyDown i = s.keys.getLsbD i := by
  rw [PadState.keyDown, BitVec.and_one_eq_setWidth_ofBool_getLsbD, BitVec.getLsbD_ushiftRight,
    Nat.add_zero]
  cases s.keys.getLsbD i <;> decide

/-- The place of a key that the device has. -/
theorem findIdx?_keys {code : UInt16} (h : code ∈ keys) :
    keys.findIdx? (· == code) = some (keys.idxOf code) :=
  List.findIdx?_eq_some_of_exists ⟨code, h, beq_self_eq_true code⟩

/-- There are no more than 32 keys, so that one word has a bit for each. -/
theorem idxOf_keys_lt {code : UInt16} (h : code ∈ keys) : keys.idxOf code < 32 :=
  Nat.lt_trans (List.idxOf_lt_length_of_mem h) (by decide)

/-- Setting or clearing a bit of a mask, at every index. -/
theorem getLsbD_setBit (mask : BitVec 32) (down : Bool) {k : ℕ} (hk : k < 32) (i : ℕ) :
    (if down then mask ||| (1#32 <<< k) else mask &&& ~~~(1#32 <<< k)).getLsbD i =
      if k = i then down else mask.getLsbD i := by
  have hbit : (1#32 <<< k).getLsbD i = decide (k = i) := by
    rw [BitVec.getLsbD_shiftLeft, BitVec.getLsbD_one, Bool.eq_iff_iff]
    simp
    omega
  by_cases hi : i < 32
  · cases down
    · rw [if_neg Bool.false_ne_true, BitVec.getLsbD_and, BitVec.getLsbD_not, hbit]
      by_cases hki : k = i <;> simp [hki, hi]
    · rw [if_pos rfl, BitVec.getLsbD_or, hbit]
      by_cases hki : k = i <;> simp [hki]
  · rw [if_neg (show k ≠ i by omega), BitVec.getLsbD_of_ge _ _ (by omega),
      BitVec.getLsbD_of_ge _ _ (by omega)]

/-- `set_key` sets the bit of its code and no other. -/
theorem PadState.getLsbD_setKey (s : PadState) {code : UInt16} (down : Bool)
    (h : code ∈ Input.keys) (i : ℕ) :
    (s.setKey code down).keys.getLsbD i =
      if Input.keys.idxOf code = i then down else s.keys.getLsbD i := by
  rw [PadState.setKey, findIdx?_keys h]
  exact getLsbD_setBit s.keys down (idxOf_keys_lt h) i

/-- Setting a key changes the bit of that key only. -/
theorem PadState.keyDown_setKey (s : PadState) {code : UInt16} (down : Bool)
    (h : code ∈ Input.keys) (code' : UInt16) :
    (s.setKey code down).keyDown (Input.keys.idxOf code') =
      if code = code' then down else s.keyDown (Input.keys.idxOf code') := by
  rw [PadState.keyDown_eq, PadState.keyDown_eq, getLsbD_setKey s down h]
  simp only [List.idxOf_inj h]

/-! ## `VirtualPad` -/

/-- A created device: the events the kernel has taken from it, and the state it was last given. -/
structure VirtualPad where
  file : List InputEvent
  last : PadState

/-- The pad `open` returns. -/
def VirtualPad.opened : VirtualPad := ⟨[], default⟩

/-- The first loop of `apply`: one event for each key that changed. -/
def keyEvents (last state : PadState) : List InputEvent :=
  keys.zipIdx.filterMap fun (code, i) =>
    if state.keyDown i ≠ last.keyDown i then
      some (event evKey code (if state.keyDown i then 1 else 0))
    else none

/-- The second loop of `apply`: one event for each axis that changed. -/
def axisEvents (last state : PadState) : List InputEvent :=
  [(16, state.hatX, last.hatX), (17, state.hatY, last.hatY), (3, state.rx, last.rx),
    (4, state.ry, last.ry), (5, state.rz, last.rz)].filterMap fun (code, now, before) =>
    if now ≠ before then some (event evAbs code now) else none

/-- The events one call of `apply` writes. -/
def report (last state : PadState) : List InputEvent :=
  keyEvents last state ++ axisEvents last state ++ [event evSyn synReport 0]

/-- `apply`. `fails` is the outcome of `write_all`: `none` where every event is written, `some n`
where an error ends it after `n` of them. Returns whether the call succeeded. -/
def VirtualPad.apply (p : VirtualPad) (state : PadState) (fails : Option ℕ) : Bool × VirtualPad :=
  if state = p.last then (true, p)
  else
    let events := report p.last state
    match fails with
    | none => (true, ⟨p.file ++ events, state⟩)
    | some n => (false, { p with file := p.file ++ events.take n })

/-- `release_all`. -/
def VirtualPad.releaseAll (p : VirtualPad) (fails : Option ℕ) : Bool × VirtualPad :=
  p.apply default fails

/-- `Drop`: the events the device has sent when it is destroyed. -/
def VirtualPad.drop (p : VirtualPad) (fails : Option ℕ) : List InputEvent :=
  (p.releaseAll fails).2.file

/-- A sequence of `apply` calls whose writes succeed. -/
def VirtualPad.applyAll (p : VirtualPad) (states : List PadState) : VirtualPad :=
  states.foldl (fun p s => (p.apply s none).2) p

/-! ## The consumer -/

/-- What an event is about: its type and its code. -/
abbrev Channel := UInt16 × UInt16

/-- What an evdev consumer holds: the last value of each channel. -/
abbrev Consumer := Channel → Int32

/-- No key is held and every axis is zero. -/
def released : Consumer := fun _ => 0

/-- The consumer takes one event: a `SYN` carries no value. -/
def Consumer.take (c : Consumer) (e : InputEvent) : Consumer :=
  if e.type = evSyn then c else Function.update c (e.type, e.code) e.value

/-- The consumer after a stream of events. -/
def Consumer.replay (c : Consumer) (es : List InputEvent) : Consumer := es.foldl Consumer.take c

/-- What the consumer holds after each `SYN_REPORT` of a stream. -/
def Consumer.snapshots : Consumer → List InputEvent → List Consumer
  | _, [] => []
  | c, e :: es =>
    if e.type = evSyn ∧ e.code = synReport then c :: Consumer.snapshots c es
    else Consumer.snapshots (c.take e) es

/-- The values of a stream for one key code, in order. -/
def edges (code : UInt16) (es : List InputEvent) : List Int32 :=
  es.filterMap fun e => if e.type = evKey ∧ e.code = code then some e.value else none

/-- Presses (1) and releases (0) in turn; `held` says which comes first. -/
def AlternatesFrom : Bool → List Int32 → Prop
  | _, [] => True
  | held, v :: vs => v = (if held then 0 else 1) ∧ AlternatesFrom (!held) vs

/-- The state a consumer should hold: `1` for a key held and `0` for a key not held, by its index in
`keys`, and the five axes. -/
def PadState.view (s : PadState) : Consumer := fun (type, code) =>
  if type = evKey ∧ code ∈ Input.keys then if s.keyDown (Input.keys.idxOf code) then 1 else 0
  else if type = evAbs then
    if code = 16 then s.hatX else if code = 17 then s.hatY else if code = 3 then s.rx
    else if code = 4 then s.ry else if code = 5 then s.rz else 0
  else 0

/-- The states that differ from the one before them. -/
def changes : PadState → List PadState → List PadState
  | _, [] => []
  | last, s :: ss => if s = last then changes last ss else s :: changes s ss

/-- One atomic update: no code twice, and one `SYN`, at the end. -/
structure IsReport (r : List InputEvent) : Prop where
  nodup : (r.map InputEvent.code).Nodup
  syn : ∃ body, r = body ++ [event evSyn synReport 0] ∧ ∀ e ∈ body, e.type ≠ evSyn

/-! ## Reports are diffs -/

/-- The channels `apply` compares, in the order in which it reports them. -/
def channels : List Channel := keys.map (evKey, ·) ++ [16, 17, 3, 4, 5].map (evAbs, ·)

/-- A change of a channel as an event. -/
def toEvent (e : Channel × Int32) : InputEvent := event e.1.1 e.1.2 e.2

/-- A property of the members of a table, from its evaluation on the table. -/
theorem forall_mem_of_all {α : Type*} {l : List α} {p : α → Prop} [DecidablePred p]
    (h : (l.all fun a => decide (p a)) = true) : ∀ a ∈ l, p a :=
  fun a ha => of_decide_eq_true (List.all_eq_true.mp h a ha)

/-- No key is declared twice. -/
theorem nodup_keys : keys.Nodup := by decide

/-- No channel is either. -/
theorem nodup_channels : channels.Nodup := by decide

/-- What a reader sees of a key. -/
theorem view_key (s : PadState) {code : UInt16} (h : code ∈ keys) :
    s.view (evKey, code) = if s.keyDown (keys.idxOf code) then 1 else 0 := by
  simp [PadState.view, h]

/-- A channel that is not compared is zero in every state. -/
theorem view_of_notMem (s : PadState) {c : Channel} (h : c ∉ channels) : s.view c = 0 := by
  obtain ⟨type, code⟩ := c
  simp only [channels, List.mem_append, List.mem_map, Prod.mk.injEq, not_or, not_exists,
    not_and] at h
  have hkey : ¬ (type = evKey ∧ code ∈ keys) := fun ⟨ht, hc⟩ => h.1 code hc ht.symm rfl
  simp only [PadState.view, if_neg hkey]
  split
  next habs =>
    have hne : ∀ a ∈ [16, 17, 3, 4, 5], ¬ code = a := fun a ha heq => h.2 a ha habs.symm heq.symm
    simp only [List.mem_cons, List.not_mem_nil, or_false, forall_eq_or_imp, forall_eq] at hne
    simp [hne]
  next => rfl

/-- A new device is released. -/
theorem view_default : (default : PadState).view = released := by
  funext c
  by_cases h : c ∈ channels
  · have hall : ∀ c ∈ channels, (default : PadState).view c = 0 := forall_mem_of_all (by decide)
    exact hall c h
  · exact view_of_notMem default h

/-- The key events are the changes of the keys. -/
theorem keyEvents_eq (last state : PadState) :
    keyEvents last state =
      (Delta.diff (keys.map (evKey, ·)) last.view state.view).map toEvent := by
  have hkeys : keys.map (evKey, ·) = keys.zipIdx.map fun e => (evKey, e.1) := by
    conv_lhs => rw [← List.zipIdx_map_fst 0 keys]
    rw [List.map_map]
    rfl
  rw [hkeys, keyEvents, Delta.diff, List.filterMap_map, List.map_filterMap]
  apply List.filterMap_congr
  rintro ⟨code, i⟩ hmem
  -- the index the loop counts is the index `view` looks up
  have hget : keys[i]? = some code := by simpa using List.mk_mem_zipIdx_iff_getElem?.mp hmem
  obtain ⟨hi, rfl⟩ := List.getElem?_eq_some_iff.mp hget
  have hidx : keys.idxOf keys[i] = i := nodup_keys.idxOf_getElem i hi
  simp only [Function.comp_apply, view_key _ (List.getElem_mem hi), hidx]
  cases state.keyDown i <;> cases last.keyDown i <;> simp [toEvent]

/-- The axis events are the changes of the axes. -/
theorem axisEvents_eq (last state : PadState) :
    axisEvents last state =
      (Delta.diff ([16, 17, 3, 4, 5].map (evAbs, ·)) last.view state.view).map toEvent := by
  have hview : ∀ s : PadState, s.view (evAbs, 16) = s.hatX ∧ s.view (evAbs, 17) = s.hatY ∧
      s.view (evAbs, 3) = s.rx ∧ s.view (evAbs, 4) = s.ry ∧ s.view (evAbs, 5) = s.rz :=
    fun _ => ⟨rfl, rfl, rfl, rfl, rfl⟩
  rw [Delta.diff, List.filterMap_map, List.map_filterMap]
  change _ = ([16, 17, 3, 4, 5] : List UInt16).filterMap _
  rw [show ([16, 17, 3, 4, 5] : List UInt16) = [(16, state.hatX, last.hatX),
    (17, state.hatY, last.hatY), (3, state.rx, last.rx), (4, state.ry, last.ry),
    (5, state.rz, last.rz)].map Prod.fst from rfl, List.filterMap_map, axisEvents]
  apply List.filterMap_congr
  intro e he
  simp only [List.mem_cons, List.not_mem_nil, or_false] at he
  rcases he with rfl | rfl | rfl | rfl | rfl <;>
    simp only [Function.comp_apply, hview] <;> split <;> simp [toEvent]

/-- A report is the diff of the two states over the channels, closed by a `SYN`. -/
theorem report_eq (last state : PadState) :
    report last state =
      (Delta.diff channels last.view state.view).map toEvent ++ [event evSyn synReport 0] := by
  rw [report, keyEvents_eq, axisEvents_eq, ← List.map_append, channels, Delta.diff, Delta.diff,
    ← List.filterMap_append]
  rfl

/-- A change is no `SYN_REPORT`. -/
theorem type_ne_syn_of_mem {last state : PadState} {e : Channel × Int32}
    (h : e ∈ Delta.diff channels last.view state.view) : e.1.1 ≠ evSyn := by
  have hall : ∀ c ∈ channels, c.1 ≠ evSyn := forall_mem_of_all (by decide)
  exact hall e.1 (Delta.mem_diff.mp h).1

/-- Every report is one atomic update. -/
theorem isReport_report (last state : PadState) : IsReport (report last state) := by
  rw [report_eq]
  constructor
  · -- the codes are distinct already across the types, and none is the code of the `SYN`
    have hcodes : ((Delta.diff channels last.view state.view).map fun e => e.1.2).Nodup := by
      have hinj : ∀ a ∈ channels, ∀ b ∈ channels, a.2 = b.2 → a = b := fun a ha b hb hab =>
        List.inj_on_of_nodup_map (f := Prod.snd) (by decide) ha hb hab
      have h := (Delta.nodup_map_fst_diff nodup_channels last.view state.view).map_on
        (f := Prod.snd) (by
          intro a ha b hb hab
          obtain ⟨e, he, rfl⟩ := List.mem_map.mp ha
          obtain ⟨e', he', rfl⟩ := List.mem_map.mp hb
          exact hinj _ (Delta.mem_diff.mp he).1 _ (Delta.mem_diff.mp he').1 hab)
      rwa [List.map_map] at h
    have hsyn : ∀ c ∈ channels, c.2 ≠ synReport := forall_mem_of_all (by decide)
    rw [List.map_append, List.map_map, List.nodup_append]
    refine ⟨hcodes, by simp, ?_⟩
    intro a ha b hb
    obtain ⟨e, he, rfl⟩ := List.mem_map.mp ha
    rw [List.mem_singleton.mp hb]
    exact hsyn e.1 (Delta.mem_diff.mp he).1
  · refine ⟨_, rfl, ?_⟩
    intro e he
    obtain ⟨c, hc, rfl⟩ := List.mem_map.mp he
    exact type_ne_syn_of_mem hc

/-! ## Replaying a stream -/

/-- Events one after the other. -/
theorem replay_append (c : Consumer) (es es' : List InputEvent) :
    c.replay (es ++ es') = (c.replay es).replay es' :=
  List.foldl_append

/-- The reader sees the states of the first events, and then those of the others. -/
theorem snapshots_append (c : Consumer) (es es' : List InputEvent) :
    c.snapshots (es ++ es') = c.snapshots es ++ (c.replay es).snapshots es' := by
  induction es generalizing c with
  | nil => rfl
  | cons e es ih =>
    simp only [List.cons_append, Consumer.snapshots]
    split
    next hsyn =>
      have htake : c.take e = c := if_pos hsyn.1
      rw [ih, List.cons_append]
      change _ = c :: (c.snapshots es ++ ((c.take e).replay es).snapshots es')
      rw [htake]
    next => exact ih (c.take e)

/-- Without a `SYN_REPORT` nothing is seen yet. -/
theorem snapshots_eq_nil {c : Consumer} {es : List InputEvent} (h : ∀ e ∈ es, e.type ≠ evSyn) :
    c.snapshots es = [] := by
  induction es generalizing c with
  | nil => rfl
  | cons e es ih =>
    rw [List.forall_mem_cons] at h
    rw [Consumer.snapshots, if_neg fun hsyn => h.1 hsyn.1]
    exact ih h.2

/-- The consumer applies changes as `Delta.patch` does. -/
theorem replay_map_toEvent (c : Consumer) {es : List (Channel × Int32)}
    (h : ∀ e ∈ es, e.1.1 ≠ evSyn) : c.replay (es.map toEvent) = Delta.patch c es := by
  induction es generalizing c with
  | nil => rfl
  | cons e es ih =>
    rw [List.forall_mem_cons] at h
    have htake : c.take (toEvent e) = Function.update c e.1 e.2 := if_neg h.1
    change (c.take (toEvent e)).replay (es.map toEvent) = _
    rw [htake]
    exact ih (Function.update c e.1 e.2) h.2

/-- The consumer that holds the last state and takes the report on the next one holds the next
one. -/
theorem replay_report (last state : PadState) :
    last.view.replay (report last state) = state.view := by
  have hview : ∀ c, c ∉ channels → state.view c = last.view c := fun c hc =>
    (view_of_notMem state hc).trans (view_of_notMem last hc).symm
  rw [report_eq, replay_append, replay_map_toEvent _ fun e he => type_ne_syn_of_mem he,
    Delta.patch_diff nodup_channels hview]
  have hsyn : state.view.take (event evSyn synReport 0) = state.view := if_pos rfl
  exact hsyn

/-- A report shows one state, the new one. -/
theorem snapshots_report (last state : PadState) :
    last.view.snapshots (report last state) = [state.view] := by
  obtain ⟨body, hbody, hsyn⟩ := (isReport_report last state).syn
  have hreplay := replay_report last state
  rw [hbody, replay_append] at hreplay
  rw [hbody, snapshots_append, snapshots_eq_nil hsyn, List.nil_append, ← hreplay]
  rfl

/-- A report carries a key once where it changed, and not otherwise. -/
theorem edges_report (last state : PadState) {code : UInt16} (h : code ∈ keys) :
    edges code (report last state) =
      if state.keyDown (keys.idxOf code) ≠ last.keyDown (keys.idxOf code) then
        [if state.keyDown (keys.idxOf code) then 1 else 0] else [] := by
  have hmem : (evKey, code) ∈ channels :=
    List.mem_append_left _ (List.mem_map.mpr ⟨code, h, rfl⟩)
  have hvalues : ∀ es : List (Channel × Int32),
      edges code (es.map toEvent) = Delta.valuesAt (evKey, code) es := by
    intro es
    rw [edges, List.filterMap_map, Delta.valuesAt]
    apply List.filterMap_congr
    intro e _
    simp only [Function.comp_apply, toEvent, event, Prod.ext_iff]
    congr
  rw [report_eq]
  change edges code (_ ++ _) = _
  rw [edges, List.filterMap_append, ← edges, ← edges, hvalues,
    Delta.valuesAt_diff nodup_channels hmem, view_key _ h, view_key _ h]
  -- the report's SYN is on no key
  have hsyn : edges code [event evSyn synReport 0] = [] := rfl
  rw [hsyn, List.append_nil]
  cases state.keyDown (keys.idxOf code) <;> cases last.keyDown (keys.idxOf code) <;> simp

/-! ## Whole histories -/

/-- The reports on a sequence of states that each differ from the one before. -/
def reports : PadState → List PadState → List (List InputEvent)
  | _, [] => []
  | last, s :: ss => report last s :: reports s ss

/-- `apply` emits nothing for an unchanged state. -/
theorem apply_last (p : VirtualPad) : p.apply p.last none = (true, p) := if_pos rfl

/-- A state that differs is reported and remembered. -/
theorem apply_of_ne {p : VirtualPad} {state : PadState} (h : state ≠ p.last) :
    p.apply state none = (true, ⟨p.file ++ report p.last state, state⟩) := if_neg h

/-- A sequence of calls writes the reports on the changes in it, and ends on its last state. -/
theorem applyAll_eq (p : VirtualPad) (states : List PadState) :
    p.applyAll states = ⟨p.file ++ (reports p.last (changes p.last states)).flatten,
      states.getLastD p.last⟩ := by
  induction states generalizing p with
  | nil => simp [VirtualPad.applyAll, changes, reports]
  | cons s ss ih =>
    change (p.apply s none).2.applyAll ss = _
    rw [changes, List.getLastD_cons]
    split
    next h => rw [h, apply_last, ih]
    next h => rw [apply_of_ne h, ih, reports, List.flatten_cons, List.append_assoc]

/-- The last change leads to the last state. -/
theorem getLastD_changes (last : PadState) (states : List PadState) :
    (changes last states).getLastD last = states.getLastD last := by
  induction states generalizing last with
  | nil => rfl
  | cons s ss ih =>
    rw [changes, List.getLastD_cons]
    split
    next h => rw [ih, h]
    next => rw [List.getLastD_cons, ih]

/-- The reports of states, one after the other, lead to the last of them. -/
theorem replay_reports (last : PadState) (ss : List PadState) :
    last.view.replay (reports last ss).flatten = (ss.getLastD last).view := by
  induction ss generalizing last with
  | nil => rfl
  | cons s ss ih =>
    rw [reports, List.flatten_cons, replay_append, replay_report, ih, List.getLastD_cons]

/-- A reader sees each of these states once. -/
theorem snapshots_reports (last : PadState) (ss : List PadState) :
    last.view.snapshots (reports last ss).flatten = ss.map PadState.view := by
  induction ss generalizing last with
  | nil => rfl
  | cons s ss ih =>
    rw [reports, List.flatten_cons, snapshots_append, snapshots_report, replay_report, ih]
    rfl

/-- Each of them is a report. -/
theorem isReport_of_mem_reports {last : PadState} {ss : List PadState} {r : List InputEvent}
    (h : r ∈ reports last ss) : IsReport r := by
  induction ss generalizing last with
  | nil => cases h
  | cons s ss ih =>
    rcases List.mem_cons.mp h with rfl | h
    · exact isReport_report last s
    · exact ih h

/-- Over a history the edges of a key alternate, from the one it was not in. -/
theorem alternatesFrom_reports (last : PadState) (ss : List PadState) {code : UInt16}
    (h : code ∈ keys) :
    AlternatesFrom (last.keyDown (keys.idxOf code)) (edges code (reports last ss).flatten) := by
  induction ss generalizing last with
  | nil => trivial
  | cons s ss ih =>
    have hsplit : edges code (reports last (s :: ss)).flatten =
        edges code (report last s) ++ edges code (reports s ss).flatten := by
      rw [reports, List.flatten_cons]
      exact List.filterMap_append
    rw [hsplit, edges_report last s h]
    have ih := ih s
    revert ih
    cases s.keyDown (keys.idxOf code) <;> cases last.keyDown (keys.idxOf code) <;>
      simp [AlternatesFrom]

/-- A released pad is one more state applied. -/
theorem replay_releaseAll (states : List PadState) :
    released.replay ((VirtualPad.opened.applyAll states).releaseAll none).2.file = released := by
  have happ : ((VirtualPad.opened.applyAll states).releaseAll none).2 =
      VirtualPad.opened.applyAll (states ++ [default]) := by
    rw [VirtualPad.applyAll, VirtualPad.applyAll, List.foldl_append]
    rfl
  rw [happ, applyAll_eq]
  show released.replay (reports default (changes default (states ++ [default]))).flatten =
    released
  rw [ ← view_default, replay_reports, getLastD_changes, List.getLastD_concat]

/-- **The stream is the states.** For every sequence of states applied: a consumer that starts
released holds the state last applied, and after each `SYN_REPORT` on the way the state that
report was for; every report is one atomic update; a repeated state emits nothing; each key is
pressed and released in turn, pressed first; and nothing is held after `release_all` or a drop. -/
theorem applyAll_replays (states : List PadState) :
    let p := VirtualPad.opened.applyAll states
    released.replay p.file = (states.getLastD default).view ∧
    released.snapshots p.file = (changes default states).map PadState.view ∧
    (∃ rs : List (List InputEvent), p.file = rs.flatten ∧ ∀ r ∈ rs, IsReport r) ∧
    p.apply (states.getLastD default) none = (true, p) ∧
    (∀ code ∈ keys, AlternatesFrom false (edges code p.file)) ∧
    released.replay (p.releaseAll none).2.file = released ∧
    released.replay (p.drop none) = released := by
  have hp : VirtualPad.opened.applyAll states =
      ⟨(reports default (changes default states)).flatten, states.getLastD default⟩ :=
    applyAll_eq VirtualPad.opened states
  have hrelease := replay_releaseAll states
  refine ⟨?_, ?_, ⟨_, congrArg VirtualPad.file hp, fun r hr => isReport_of_mem_reports hr⟩, ?_, ?_,
    hrelease, hrelease⟩
  · rw [hp, ← view_default, replay_reports, getLastD_changes]
  · rw [hp, ← view_default, snapshots_reports]
  · rw [hp]
    exact apply_last _
  · intro code hcode
    have h := alternatesFrom_reports default (changes default states) hcode
    -- a device just opened has every key up
    have hup : (default : PadState).keyDown (keys.idxOf code) = false := by
      simp [PadState.keyDown, default]
    rw [hup] at h
    rw [hp]
    exact h

end RgspCast.Input
