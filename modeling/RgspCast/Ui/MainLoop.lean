import RgspCast.Lib.Transition
import RgspCast.Ui.Home

/-!
# The frame loop of the UI

A step is one iteration of the loop in `main`: the reconnect, the poll of the state, the screen's
turn, and what is drawn. The screen and the connection are separate variables, and a reconnect
replaces the second alone: the request that a waiting screen waits for is lost with the old one
(`endsLive_iff_undisturbed`). The state is a third, and is reset only where a reconnect fails
(`noStaleRows_of_clean`).
-/

namespace RgspCast.MainLoop

open Ui Transition
open RgspCast.Control (CastState)

/-! ## The loop -/

/-- `RECONNECT_INTERVAL`, in nanoseconds. -/
def reconnectInterval : ℕ := 500000000

/-- `Instant::duration_since` is zero where the other instant is the later one. -/
def shouldReconnect (lastAttempt : Option ℕ) (now : ℕ) : Bool :=
  match lastAttempt with
  | none => true
  | some t => now - t ≥ reconnectInterval

inductive Screen where
  | home (home : Home)
  | pin (pin : Pin)
  | pairing (pin : Pin)
  | message (message : Message)
  | confirm (confirm : Confirm)
  | unpairing (fingerprint label : String)
  deriving DecidableEq, Repr

/-- The variables of the loop. -/
structure State where
  control : Option Ui.Control
  lastReconnectAttempt : Option ℕ
  state : CastState
  /-- `none` once the loop was left. -/
  screen : Option Screen
  /-- What the last frame took the connection for, and drew. -/
  connected : Bool
  /-- The `Control` at hand has delivered a state. -/
  delivered : Bool
  deriving DecidableEq, Repr

/-- What a frame meets: the buttons, the clock, whether a connect succeeds, and what the polls
find. -/
structure Input where
  buttons : Buttons := {}
  now : ℕ
  connects : Bool := true
  push : Push := .nothing
  pin : Option (Attempt Bool) := none
  unpair : Option (Attempt Bool) := none
  deriving DecidableEq, Repr

/-- The state shown while nothing is known. -/
def unknown : CastState := ⟨false, none, [], []⟩

/-- The variables before the first frame. -/
def State.start (connects : Bool) (now : ℕ) : State where
  control := if connects then some .new else none
  lastReconnectAttempt := some now
  state := unknown
  screen := some (.home .new)
  connected := connects
  delivered := false

def State.isConnected (s : State) : Bool := s.control.any (·.connected)

/-- A frame replaces its `Control`. -/
def State.reconnects (s : State) (i : Input) : Bool :=
  !s.isConnected && shouldReconnect s.lastReconnectAttempt i.now

def State.reconnect (s : State) (i : Input) : State :=
  if s.reconnects i then
    if i.connects then
      { s with
        control := some .new
        lastReconnectAttempt := some i.now
        connected := false
        delivered := false }
    else
      { s with
        control := none
        lastReconnectAttempt := some i.now
        state := unknown
        connected := false
        delivered := false }
  else { s with connected := s.isConnected }

def State.receive (s : State) (i : Input) : State :=
  match s.control with
  | none => s
  | some c =>
    match c.pollState i.push with
    | (some state, c) => { s with control := some c, state := state, delivered := true }
    | (none, c) => { s with control := some c }

/-- The frame goes on to a screen. -/
def State.show (s : State) (screen : Screen) : State := { s with screen := some screen }

/-- The screen that is left for a message. -/
def State.tell (s : State) (text : String) : State := s.show (.message ⟨text⟩)

/-- A request is started, and its screen waits for it. -/
def State.request (s : State) (start : Ui.Control → Ui.Control) (waiting : Screen) : State :=
  match s.control with
  | some c => { s with control := some (start c) }.show waiting
  -- nothing to wait for
  | none => s.tell "Not connected to the service."

/-- A screen waits for a request, until it is cancelled or has an answer. -/
def State.await {α : Type} (s : State) (waiting : Screen) (cancelled : Bool)
    (cancel : Ui.Control → Ui.Control)
    (poll : Ui.Control → Option (Except String α) × Ui.Control) (answered : State → α → State) :
    State :=
  if cancelled then { s with control := s.control.map cancel }.show (.home .new)
  else
    match s.control with
    | none => s.show waiting
    | some c =>
      let (outcome, c) := poll c
      let s := { s with control := some c }
      match outcome with
      | none => s.show waiting
      | some (.ok a) => answered s a
      | some (.error _) => s.tell "Connection lost."

def homeTurn (s : State) (i : Input) (home : Home) : Option State :=
  (home.update i.buttons s.state).map fun (action, home) =>
    match action with
    | .none => s.show (.home home)
    | .toggle => { s with lastReconnectAttempt := none }.show (.home home)
    | .pair id =>
      let entry := s.state.pending.find? (·.id = id)
      s.show (.pin (.new id (entry.bind (·.name)) (entry.bind (·.address))))
    | .unpair fingerprint =>
      let entry := s.state.paired.find? (·.fingerprint = fingerprint)
      let label := clientLabel (entry.bind (·.name)) (entry.bind (·.address)) fingerprint
      s.show (.confirm ⟨fingerprint, label⟩)
    | .exit => { s with screen := none }

def pinTurn (s : State) (i : Input) (pin : Pin) : State :=
  match pin.update i.buttons with
  | (.none, pin) => s.show (.pin pin)
  | (.back, _) => s.show (.home .new)
  | (.submit code, pin) => s.request (·.startSubmitPin pin.clientId code) (.pairing pin)

/-- What the daemon made of the PIN. -/
def pinAnswered (pin : Pin) (s : State) : PinOutcome → State
  | .paired => s.tell ("Paired with " ++ pin.label ++ ".")
  | .notReady => s.show (.pin (pin.setError "Not ready yet, try again"))
  | .rejected => s.tell "Wrong PIN. Pair again from Moonlight."

def pairingTurn (s : State) (i : Input) (pin : Pin) : State :=
  s.await (.pairing pin) (pairingUpdate i.buttons = .cancel) Ui.Control.cancelSubmitPin
    (·.pollSubmitPin i.pin) (pinAnswered pin)

def confirmTurn (s : State) (i : Input) (confirm : Confirm) : State :=
  match confirm.update i.buttons with
  | .none => s.show (.confirm confirm)
  | .cancel => s.show (.home .new)
  | .confirm =>
    s.request (·.startUnpair confirm.fingerprint) (.unpairing confirm.fingerprint confirm.label)

/-- Whether the client was still paired. -/
def unpairAnswered (label : String) (s : State) (removed : Bool) : State :=
  if removed then s.tell ("Unpaired " ++ label ++ ".")
  else s.tell (label ++ " was already unpaired.")

def unpairingTurn (s : State) (i : Input) (fingerprint label : String) : State :=
  s.await (.unpairing fingerprint label) (unpairingUpdate i.buttons = .cancel)
    Ui.Control.cancelUnpair (·.pollUnpair i.unpair) (unpairAnswered label)

/-- The turn of the screen. -/
def turn (s : State) (i : Input) : Screen → Option State
  | .home home => homeTurn s i home
  | .pin pin => some (pinTurn s i pin)
  | .pairing pin => some (pairingTurn s i pin)
  | .message message =>
    some (if message.update i.buttons then s.show (.home .new) else s.show (.message message))
  | .confirm confirm => some (confirmTurn s i confirm)
  | .unpairing fingerprint label => some (unpairingTurn s i fingerprint label)

/-- What a frame knows when it gets to its screen. -/
def State.refresh (s : State) (i : Input) : State := (s.reconnect i).receive i

/-- One iteration of the loop; `none` once it was left. -/
def step (s : State) (i : Input) : Option State := s.screen.bind (turn (s.refresh i) i)

/-- A frame is the refresh and the turn of its screen. -/
theorem step_eq_some {s s' : State} {i : Input} (h : step s i = some s') :
    ∃ screen, s.screen = some screen ∧ turn (s.refresh i) i screen = some s' :=
  Option.bind_eq_some_iff.mp h

/-! ### What a turn leaves alone -/

section Turns

variable {s s' t : State} {i : Input} {screen : Screen} {home : Home}

/-- What the frame knows of the daemon. -/
structure TurnFrame (s s' : State) : Prop where
  state : s'.state = s.state
  connected : s'.connected = s.connected
  delivered : s'.delivered = s.delivered
  control : s'.control.isSome = s.control.isSome

/-- The turn of another screen comes to Home only as it is when new. -/
structure SideTurn (s s' : State) : Prop extends TurnFrame s s' where
  home : ∀ home, s'.screen = some (.home home) → home = .new

theorem TurnFrame.refl (s : State) : TurnFrame s s := ⟨rfl, rfl, rfl, rfl⟩

theorem turnFrame_control {control : Option Ui.Control} (h : control.isSome = s.control.isSome) :
    TurnFrame s { s with control := control } :=
  ⟨rfl, rfl, rfl, h⟩

theorem sideTurn_show (ht : TurnFrame s t) (h : ∀ home, screen = .home home → home = .new) :
    SideTurn s (t.show screen) where
  toTurnFrame := ⟨ht.state, ht.connected, ht.delivered, ht.control⟩
  home home hhome := h home (Option.some.inj hhome)

theorem sideTurn_tell (ht : TurnFrame s t) (text : String) : SideTurn s (t.tell text) :=
  sideTurn_show ht nofun

theorem sideTurn_home (ht : TurnFrame s t) : SideTurn s (t.show (.home .new)) :=
  sideTurn_show ht fun _ h => (Screen.home.inj h).symm

/-- What came before a side turn. -/
theorem SideTurn.of_frame (h : SideTurn t s') (ht : TurnFrame s t) : SideTurn s s' where
  state := h.state.trans ht.state
  connected := h.connected.trans ht.connected
  delivered := h.delivered.trans ht.delivered
  control := h.control.trans ht.control
  home := h.home

/-- A request is sent, and the screen waits. -/
theorem sideTurn_request {start : Ui.Control → Ui.Control} {waiting : Screen}
    (hwaiting : ∀ home, waiting ≠ .home home) : SideTurn s (s.request start waiting) := by
  unfold State.request
  split
  next c hcontrol =>
    refine sideTurn_show (turnFrame_control ?_) fun home h => absurd h (hwaiting home)
    rw [hcontrol]
    rfl
  next => exact sideTurn_tell (.refl s) _

/-- The screen waits, gives up, or shows the answer. -/
theorem sideTurn_await {α : Type} {waiting : Screen} {cancelled : Bool}
    {cancel : Ui.Control → Ui.Control}
    {poll : Ui.Control → Option (Except String α) × Ui.Control} {answered : State → α → State}
    (hwaiting : ∀ home, waiting ≠ .home home) (hanswered : ∀ t a, SideTurn t (answered t a)) :
    SideTurn s (s.await waiting cancelled cancel poll answered) := by
  have hnew : ∀ home, waiting = .home home → home = .new := fun home h => absurd h (hwaiting home)
  unfold State.await
  split
  · exact sideTurn_home (turnFrame_control Option.isSome_map)
  · split
    next => exact sideTurn_show (.refl s) hnew
    next c hcontrol =>
      generalize poll c = r
      obtain ⟨outcome, c'⟩ := r
      have ht : TurnFrame s { s with control := some c' } := by
        apply turnFrame_control
        rw [hcontrol]
        rfl
      rcases outcome with _ | _ | a
      · exact sideTurn_show ht hnew
      · exact sideTurn_tell ht _
      · exact (hanswered _ a).of_frame ht

theorem sideTurn_pin (s : State) (i : Input) (pin : Pin) : SideTurn s (pinTurn s i pin) := by
  unfold pinTurn
  split
  · exact sideTurn_show (.refl s) nofun
  · exact sideTurn_home (.refl s)
  · exact sideTurn_request nofun

theorem sideTurn_pairing (s : State) (i : Input) (pin : Pin) :
    SideTurn s (pairingTurn s i pin) := by
  refine sideTurn_await ?_ fun t outcome => ?_
  · exact nofun
  · cases outcome with
    | notReady => exact sideTurn_show (.refl t) nofun
    | _ => exact sideTurn_tell (.refl t) _

theorem sideTurn_confirm (s : State) (i : Input) (confirm : Confirm) :
    SideTurn s (confirmTurn s i confirm) := by
  unfold confirmTurn
  split
  · exact sideTurn_show (.refl s) nofun
  · exact sideTurn_home (.refl s)
  · exact sideTurn_request nofun

theorem sideTurn_unpairing (s : State) (i : Input) (fingerprint label : String) :
    SideTurn s (unpairingTurn s i fingerprint label) := by
  refine sideTurn_await ?_ fun t removed => ?_
  · exact nofun
  · cases removed <;> exact sideTurn_tell (.refl t) _

theorem sideTurn_message (s : State) (i : Input) (message : Message) :
    SideTurn s
      (if message.update i.buttons then s.show (.home .new) else s.show (.message message)) := by
  split
  · exact sideTurn_home (.refl s)
  · exact sideTurn_show (.refl s) nofun

/-- **A turn of another screen than Home.** -/
theorem sideTurn_turn (hscreen : ∀ home, screen ≠ .home home) (h : turn s i screen = some s') :
    SideTurn s s' := by
  cases screen with
  | home home => exact absurd rfl (hscreen home)
  | pin pin => exact Option.some.inj h ▸ sideTurn_pin s i pin
  | pairing pin => exact Option.some.inj h ▸ sideTurn_pairing s i pin
  | message message => exact Option.some.inj h ▸ sideTurn_message s i message
  | confirm confirm => exact Option.some.inj h ▸ sideTurn_confirm s i confirm
  | unpairing fingerprint label =>
    exact Option.some.inj h ▸ sideTurn_unpairing s i fingerprint label

/-- The turn of the home screen. -/
theorem frame_home (h : homeTurn s i home = some s') : TurnFrame s s' := by
  obtain ⟨⟨action, home'⟩, -, rfl⟩ := Option.map_eq_some_iff.mp h
  cases action <;> exact ⟨rfl, rfl, rfl, rfl⟩

/-- **No turn changes** what the frame knows of the daemon. -/
theorem frame_turn (h : turn s i screen = some s') : TurnFrame s s' := by
  by_cases hscreen : ∃ home, screen = .home home
  · obtain ⟨home, rfl⟩ := hscreen
    exact frame_home h
  · exact (sideTurn_turn (fun home heq => hscreen ⟨home, heq⟩) h).toTurnFrame

/-- A turn of Home goes on to Home only where it has nothing else to do, or toggles the service. -/
theorem drawn_of_homeTurn {home₀ : Home} (h : homeTurn s i home₀ = some s')
    (hhome : s'.screen = some (.home home)) : Drawn s'.state home := by
  obtain ⟨⟨action, home'⟩, hupdate, rfl⟩ := Option.map_eq_some_iff.mp h
  cases action with
  | none =>
    cases hhome
    exact .updated hupdate (Or.inl rfl)
  | toggle =>
    cases hhome
    exact .updated hupdate (Or.inr rfl)
  | pair | unpair | exit => cases hhome

/-- **What the loop draws as Home** is a Home that was just updated, or a new one. -/
theorem drawn_of_step (h : step s i = some s') (hhome : s'.screen = some (.home home)) :
    Drawn s'.state home := by
  obtain ⟨screen, -, hturn⟩ := step_eq_some h
  by_cases hscreen : ∃ home, screen = .home home
  · obtain ⟨home₀, rfl⟩ := hscreen
    exact drawn_of_homeTurn hturn hhome
  · obtain rfl := (sideTurn_turn (fun home heq => hscreen ⟨home, heq⟩) hturn).home home hhome
    exact .new

/-- A turn never panics. -/
theorem turn_isSome (s : State) (i : Input) (screen : Screen) : (turn s i screen).isSome := by
  cases screen with
  | home home =>
    obtain ⟨e, -, hupdate⟩ := home.update_eq i.buttons s.state
    show (Option.map _ _).isSome = true
    rw [hupdate]
    rfl
  | _ => rfl

end Turns

/-! ## Requests behind the waiting screens -/

/-- `control` is there, with a PIN in flight. -/
def State.pinPending (s : State) : Bool := s.control.any (·.pendingPin.isSome)

def State.unpairPending (s : State) : Bool := s.control.any (·.pendingUnpair.isSome)

/-- What a screen waits for is in flight. -/
def State.backs (s : State) : Screen → Bool
  | .pairing _ => s.pinPending
  | .unpairing .. => s.unpairPending
  | _ => true

def Screen.waits : Screen → Bool
  | .pairing _ | .unpairing .. => true
  | _ => false

/-- A waiting screen has a live request behind it. -/
def Live (s : State) : Prop := ∀ screen, s.screen = some screen → s.backs screen = true

/-- The frame ends so. -/
def EndsLive (s : State) (i : Input) : Prop := ∀ s', step s i = some s' → Live s'

/-- A frame that replaces its `Control` finds no waiting screen, or the user cancels it. -/
def Undisturbed (s : State) (i : Input) : Prop :=
  s.reconnects i = true → s.screen.any Screen.waits = true → i.buttons.b = true

section Live

variable {s s' : State} {i : Input} {screen : Screen} {home : Home}

theorem backs_of_not_waits (h : screen.waits = false) : s.backs screen = true := by
  cases screen with
  | pairing | unpairing => cases h
  | _ => rfl

/-- Without a connection nothing is received. -/
theorem receive_of_none (h : s.control = none) : s.receive i = s := by
  unfold State.receive
  rw [h]

/-- With one the push is taken in. -/
theorem receive_of_some {c : Ui.Control} (h : s.control = some c) :
    s.receive i =
      { s with
        control := some (c.pollState i.push).2
        state := i.push.state?.getD s.state
        delivered := s.delivered || i.push.state?.isSome } := by
  unfold State.receive
  rw [h]
  cases i.push <;> simp [Ui.Control.pollState, Push.state?]

/-- The connection stays, or is lost, by itself. -/
theorem receive_control (s : State) (i : Input) :
    (s.receive i).control = s.control.map fun c => (c.pollState i.push).2 := by
  cases hcontrol : s.control with
  | none =>
    rw [receive_of_none hcontrol]
    exact hcontrol
  | some c => rw [receive_of_some hcontrol, Option.map_some]

/-- What is received leaves the request that a screen waits for. -/
theorem receive_backs (s : State) (i : Input) (screen : Screen) :
    (s.receive i).backs screen = s.backs screen := by
  have hpin : (s.receive i).pinPending = s.pinPending := by
    unfold State.pinPending
    rw [receive_control, Option.any_map]
    exact congrArg (Option.any · _) (funext fun c => by simp [c.pollState_pendingPin])
  have hunpair : (s.receive i).unpairPending = s.unpairPending := by
    unfold State.unpairPending
    rw [receive_control, Option.any_map]
    exact congrArg (Option.any · _) (funext fun c => by simp [c.pollState_pendingUnpair])
  cases screen with
  | pairing => exact hpin
  | unpairing => exact hunpair
  | _ => rfl

/-- A new `Control` has no request in flight. -/
theorem refresh_backs (hwaits : screen.waits = true) :
    (s.refresh i).backs screen = (!s.reconnects i && s.backs screen) := by
  unfold State.refresh
  rw [receive_backs]
  unfold State.reconnect
  cases s.reconnects i with
  | false => cases screen <;> rfl
  | true => cases i.connects <;> cases screen <;> first | rfl | cases hwaits

/-- A screen is live if something backs it. -/
theorem live_show : Live (s.show screen) ↔ s.backs screen = true := by
  constructor
  · exact fun h => h screen rfl
  · rintro h _ ⟨⟩
    exact h

theorem live_tell (s : State) (text : String) : Live (s.tell text) := live_show.mpr rfl

/-- The home screen needs no backing. -/
theorem live_home (h : homeTurn s i home = some s') : Live s' := by
  obtain ⟨⟨action, home'⟩, -, rfl⟩ := Option.map_eq_some_iff.mp h
  cases action with
  | exit =>
    intro screen h
    cases h
  | _ => exact live_show.mpr rfl

/-- A request that is started is in flight. -/
theorem live_request {start : Ui.Control → Ui.Control} {waiting : Screen}
    (hstart : ∀ c, ({ s with control := some (start c) } : State).backs waiting = true) :
    Live (s.request start waiting) := by
  unfold State.request
  split
  next c _ => exact live_show.mpr (hstart c)
  next => exact live_tell s _

theorem live_pin (s : State) (i : Input) (pin : Pin) : Live (pinTurn s i pin) := by
  unfold pinTurn
  split
  · exact live_show.mpr rfl
  · exact live_show.mpr rfl
  · exact live_request fun _ => rfl

theorem live_confirm (s : State) (i : Input) (confirm : Confirm) :
    Live (confirmTurn s i confirm) := by
  unfold confirmTurn
  split
  · exact live_show.mpr rfl
  · exact live_show.mpr rfl
  · exact live_request fun _ => rfl

/-- The screen goes on waiting while nothing has resolved, so a request is behind it afterwards
where one was before. -/
theorem live_await_iff {α : Type} {waiting : Screen} {cancelled : Bool}
    {cancel : Ui.Control → Ui.Control}
    {poll : Ui.Control → Option (Except String α) × Ui.Control} {answered : State → α → State}
    {pending : Ui.Control → Bool} (hbacks : ∀ t : State, t.backs waiting = t.control.any pending)
    (hpoll : ∀ c, poll c = (none, c) ∨
      pending c = true ∧ ∃ outcome c', poll c = (some outcome, c'))
    (hanswered : ∀ t a, Live (answered t a)) :
    Live (s.await waiting cancelled cancel poll answered) ↔
      s.backs waiting = true ∨ cancelled = true := by
  unfold State.await
  cases cancelled with
  | true => exact iff_of_true (live_show.mpr rfl) (Or.inr rfl)
  | false =>
    rw [or_iff_left Bool.false_ne_true, if_neg Bool.false_ne_true, hbacks]
    split
    next hcontrol => rw [live_show, hbacks]
    next c hcontrol =>
      rw [hcontrol]
      rcases hpoll c with hwait | ⟨hpending, outcome, c', hresolved⟩
      · simp only [hwait]
        rw [live_show, hbacks]
      · simp only [hresolved]
        refine iff_of_true ?_ hpending
        cases outcome with
        | error => exact live_tell _ _
        | ok a => exact hanswered _ a

theorem pairingUpdate_eq_cancel_iff {buttons : Buttons} :
    pairingUpdate buttons = .cancel ↔ buttons.b = true := by
  unfold pairingUpdate
  split <;> simp_all

theorem unpairingUpdate_eq_cancel_iff {buttons : Buttons} :
    unpairingUpdate buttons = .cancel ↔ buttons.b = true := by
  unfold unpairingUpdate
  split <;> simp_all

theorem live_pairing_iff {pin : Pin} :
    Live (pairingTurn s i pin) ↔ s.pinPending = true ∨ i.buttons.b = true := by
  have hiff : Live (pairingTurn s i pin) ↔ _ :=
    live_await_iff (fun _ => rfl) (fun c => c.pollSubmitPin_cases i.pin) fun t outcome => by
      cases outcome <;> exact live_show.mpr rfl
  rw [decide_eq_true_iff, pairingUpdate_eq_cancel_iff] at hiff
  exact hiff

theorem live_unpairing_iff {fingerprint label : String} :
    Live (unpairingTurn s i fingerprint label) ↔
      s.unpairPending = true ∨ i.buttons.b = true := by
  have hiff : Live (unpairingTurn s i fingerprint label) ↔ _ :=
    live_await_iff (fun _ => rfl) (fun c => c.pollUnpair_cases i.unpair) fun t removed => by
      cases removed <;> exact live_show.mpr rfl
  rw [decide_eq_true_iff, unpairingUpdate_eq_cancel_iff] at hiff
  exact hiff

/-- **What a turn leaves behind the screen**: a screen that waited before does so after it, unless
it is cancelled. -/
theorem live_turn_iff (h : turn s i screen = some s') :
    Live s' ↔ s.backs screen = true ∨ screen.waits = true ∧ i.buttons.b = true := by
  cases screen with
  | home home => exact iff_of_true (live_home h) (Or.inl rfl)
  | pin pin =>
    obtain rfl := Option.some.inj h
    exact iff_of_true (live_pin s i pin) (Or.inl rfl)
  | pairing pin =>
    obtain rfl := Option.some.inj h
    rw [live_pairing_iff, State.backs, Screen.waits, eq_self, true_and]
  | message message =>
    obtain rfl := Option.some.inj h
    refine iff_of_true ?_ (Or.inl rfl)
    split <;> exact live_show.mpr rfl
  | confirm confirm =>
    obtain rfl := Option.some.inj h
    exact iff_of_true (live_confirm s i confirm) (Or.inl rfl)
  | unpairing fingerprint label =>
    obtain rfl := Option.some.inj h
    rw [live_unpairing_iff, State.backs, Screen.waits, eq_self, true_and]

/-- A frame ends live if it is undisturbed, screen by screen. -/
theorem endsLive_iff (hs : Live s) : EndsLive s i ↔ Undisturbed s i := by
  unfold EndsLive Undisturbed step
  cases hscreen : s.screen with
  | none => exact iff_of_true (fun _ h => nomatch h) fun _ h => nomatch h
  | some screen =>
    obtain ⟨s', hturn⟩ := Option.isSome_iff_exists.mp (turn_isSome (s.refresh i) i screen)
    have hbacks := hs screen hscreen
    rw [show (some screen).bind (turn (s.refresh i) i) = some s' from hturn]
    cases hwaits : screen.waits with
    | false =>
      refine iff_of_true ?_ fun _ h => absurd (hwaits.symm.trans h) Bool.false_ne_true
      rintro _ ⟨⟩
      exact (live_turn_iff hturn).mpr (Or.inl (backs_of_not_waits hwaits))
    | true =>
      have hiff := live_turn_iff hturn
      rw [refresh_backs hwaits, hbacks, Bool.and_true, hwaits] at hiff
      constructor
      · intro hends hreconnects _
        have := hiff.mp (hends s' rfl)
        rw [hreconnects] at this
        simpa using this
      · rintro hok _ ⟨⟩
        refine hiff.mpr ?_
        cases hreconnects : s.reconnects i with
        | false => exact Or.inl rfl
        | true => exact Or.inr ⟨rfl, hok hreconnects hwaits⟩

/-- The first screen is live. -/
theorem live_start (connects : Bool) (now : ℕ) : Live (.start connects now) := by
  rintro _ ⟨⟩
  rfl

end Live

/-- **Every frame ends with a live request behind a waiting screen exactly where** no frame of the
run replaces its `Control` under one, but for those that cancel it. -/
theorem endsLive_iff_undisturbed (connects : Bool) (now : ℕ) (is : List Input) :
    Guarded EndsLive step (.start connects now) is ↔
      Guarded Undisturbed step (.start connects now) is := by
  have hstart := live_start connects now
  constructor
  · intro h
    exact h.imp (fun _ _ hs => (endsLive_iff hs).mp) (fun _ _ s' hends hstep _ => hends s' hstep)
      hstart
  · intro h
    exact h.imp (fun _ _ hs => (endsLive_iff hs).mpr)
      (fun _ _ s' hok hstep hs => (endsLive_iff hs).mpr hok s' hstep) hstart

instance : DecidablePred Live := fun s =>
  inferInstanceAs (Decidable (∀ screen ∈ s.screen, s.backs screen = true))

instance (s : State) (i : Input) : Decidable (EndsLive s i) :=
  inferInstanceAs (Decidable (∀ s' ∈ step s i, Live s'))

/-- A client that waits for its PIN. -/
def waiting : CastState := ⟨false, none, [⟨"AA", none, none⟩], []⟩

/-- A PIN is submitted, the connection is lost before the answer, and the daemon is there again for
the next connect. -/
def restarted : List Input :=
  [{ now := 0, push := .state waiting, buttons := { down := true } },
    { now := 1000000000, buttons := { a := true } },
    { now := 2000000000, buttons := { a := true } },
    { now := 2100000000, push := .failed }, { now := 2200000000 }]

/-- The screen goes on waiting, with a new `Control` that has nothing in flight. -/
theorem not_endsLive :
    ¬ ∀ (connects : Bool) (now : ℕ) (is : List Input),
      Guarded EndsLive step (.start connects now) is := by
  intro hall
  exact absurd (hall true 0 restarted) (by decide)

/-! ## Rows of an earlier connection -/

def NoRows (state : CastState) : Prop := state.pending = [] ∧ state.paired = []

def State.atHome (s : State) : Bool :=
  match s.screen with
  | some (.home _) => true
  | _ => false

/-- A frame that is drawn as disconnected, or through a `Control` that has not delivered a state,
draws Home without clients, and acts on none. -/
def NoStaleRows (s : State) (i : Input) : Prop :=
  ∀ s', step s i = some s' → s.atHome = true ∨ s'.atHome = true →
    s'.connected = false ∨ s'.delivered = false → NoRows s'.state

/-- A frame that begins without a connection tries to reconnect and fails, or is left without
clients by the state that is pushed in it, or by the one from before. -/
def Clean (s : State) (i : Input) : Prop :=
  s.isConnected = true ∨ s.reconnects i = true ∧ i.connects = false ∨
    NoRows (i.push.state?.getD s.state)

instance : DecidablePred NoRows := fun _ => inferInstanceAs (Decidable (_ ∧ _))

instance (s : State) (i : Input) : Decidable (Clean s i) :=
  inferInstanceAs (Decidable (_ ∨ _ ∧ _ ∨ _))

instance (s : State) (i : Input) : Decidable (NoStaleRows s i) :=
  inferInstanceAs (Decidable (∀ s' ∈ step s i, s.atHome = true ∨ s'.atHome = true →
    s'.connected = false ∨ s'.delivered = false → NoRows s'.state))

/-- There are no clients before a `Control` has delivered its first state, and none without one. -/
structure Known (s : State) : Prop where
  undelivered : s.delivered = false → NoRows s.state
  uncontrolled : s.control = none → s.delivered = false

section Rows

variable {s s' : State} {i : Input}

/-- Nothing is shown that is not known. -/
theorem known_start (connects : Bool) (now : ℕ) : Known (.start connects now) where
  undelivered _ := ⟨rfl, rfl⟩
  uncontrolled _ := rfl

/-- A clean frame that begins without a connection is left without clients, unless its connect
fails. -/
theorem Clean.noRows (h : Clean s i) (hdown : s.isConnected = false)
    (hfound : s.reconnects i = true → i.connects = true) :
    NoRows (i.push.state?.getD s.state) := by
  rcases h with h | ⟨hreconnects, h⟩ | h
  · exact absurd (hdown.symm.trans h) Bool.false_ne_true
  · exact absurd (h.symm.trans (hfound hreconnects)) Bool.false_ne_true
  · exact h

/-- With a new `Control`, or none. -/
theorem known_of_reconnects (hclean : Clean s i) (hreconnects : s.reconnects i = true) :
    Known (s.refresh i) ∧ NoRows (s.refresh i).state := by
  have hdown : s.isConnected = false := by
    have := Bool.and_eq_true_iff.mp hreconnects
    simpa using this.1
  unfold State.refresh State.reconnect
  rw [if_pos hreconnects]
  cases hconnects : i.connects with
  | true =>
    have hrows := hclean.noRows hdown fun _ => hconnects
    simp only [if_true]
    rw [receive_of_some rfl]
    exact ⟨⟨fun _ => hrows, fun h => nomatch h⟩, hrows⟩
  | false => exact ⟨⟨fun _ => ⟨rfl, rfl⟩, fun _ => rfl⟩, rfl, rfl⟩

/-- With the `Control` of the frame before. -/
theorem known_of_not_reconnects (hclean : Clean s i) (hs : Known s)
    (hreconnects : s.reconnects i = false) :
    Known (s.refresh i) ∧ ((s.refresh i).connected = false → NoRows (s.refresh i).state) := by
  unfold State.refresh State.reconnect
  rw [if_neg (Bool.eq_false_iff.mp hreconnects)]
  have hsame : ({ s with connected := s.isConnected } : State).control = s.control := rfl
  obtain hcontrol | ⟨c, hcontrol⟩ := Option.eq_none_or_eq_some s.control
  · have hrows := hs.undelivered (hs.uncontrolled hcontrol)
    rw [receive_of_none (hsame.trans hcontrol)]
    exact ⟨⟨fun _ => hrows, hs.uncontrolled⟩, fun _ => hrows⟩
  · rw [receive_of_some (hsame.trans hcontrol)]
    refine ⟨⟨fun hundelivered => ?_, fun h => nomatch h⟩, fun hdown => ?_⟩
    · obtain ⟨hundelivered, hpush⟩ := Bool.or_eq_false_iff.mp hundelivered
      show NoRows (i.push.state?.getD s.state)
      rw [Option.not_isSome_iff_eq_none.mp (Bool.eq_false_iff.mp hpush)]
      exact hs.undelivered hundelivered
    · exact hclean.noRows hdown fun h => absurd (hreconnects.symm.trans h) Bool.false_ne_true

/-- A clean frame knows of no clients where it begins without a connection, or goes on without a
state of the `Control` at hand. -/
theorem known_refresh (hclean : Clean s i) (hs : Known s) :
    Known (s.refresh i) ∧ ((s.refresh i).connected = false → NoRows (s.refresh i).state) := by
  cases hreconnects : s.reconnects i with
  | true =>
    obtain ⟨hknown, hrows⟩ := known_of_reconnects hclean hreconnects
    exact ⟨hknown, fun _ => hrows⟩
  | false => exact known_of_not_reconnects hclean hs hreconnects

/-- A clean frame shows no stale rows. -/
theorem noStaleRows_of_clean (hs : Known s) (hclean : Clean s i) : NoStaleRows s i := by
  intro s' hstep _ hdown
  obtain ⟨screen, -, hturn⟩ := step_eq_some hstep
  have hframe := frame_turn hturn
  obtain ⟨hknown, hrows⟩ := known_refresh hclean hs
  rw [hframe.connected, hframe.delivered] at hdown
  rw [hframe.state]
  exact hdown.elim hrows hknown.undelivered

/-- A clean frame keeps what is shown known. -/
theorem known_step (hclean : Clean s i) (hstep : step s i = some s') (hs : Known s) : Known s' := by
  obtain ⟨screen, -, hturn⟩ := step_eq_some hstep
  have hframe := frame_turn hturn
  obtain ⟨hknown, -⟩ := known_refresh hclean hs
  constructor
  · rw [hframe.delivered, hframe.state]
    exact hknown.undelivered
  · intro hnone
    have hcontrol := hframe.control
    rw [hnone] at hcontrol
    rw [hframe.delivered]
    exact hknown.uncontrolled (Option.not_isSome_iff_eq_none.mp (by simp [← hcontrol]))

end Rows

/-- **No frame of a run shows rows of an earlier connection** when all its frames are clean. -/
theorem no_stale_rows {connects : Bool} {now : ℕ} {is : List Input}
    (hclean : Guarded Clean step (.start connects now) is) :
    Guarded NoStaleRows step (.start connects now) is :=
  hclean.imp (fun _ _ => noStaleRows_of_clean) (fun _ _ _ => known_step) (known_start connects now)

/-- The daemon is stopped, found missing by a connect, and there again for a later one. -/
def stopped : List Input :=
  [{ now := 0, push := .state waiting }, { now := 1000000000, push := .failed },
    { now := 1100000000, connects := false }, { now := 1200000000 },
    { now := 1700000000 }, { now := 1800000000, push := .state waiting }]

/-- The run in which the service stops. -/
theorem no_stale_rows_stopped : Guarded NoStaleRows step (.start true 0) stopped :=
  @no_stale_rows true 0 stopped (by decide)

/-- The connection is lost soon after it was made: the next frame is drawn as disconnected, and too
soon for another connect. -/
def throttled : List Input :=
  [{ now := 0, push := .state waiting }, { now := 100000000, push := .failed },
    { now := 200000000 }]

theorem not_no_stale_rows :
    ¬ ∀ (connects : Bool) (now : ℕ) (is : List Input),
      Guarded NoStaleRows step (.start connects now) is := by
  intro hall
  exact absurd (hall true 0 throttled) (by decide)

end RgspCast.MainLoop
