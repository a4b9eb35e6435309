import RgspCast.Host.Control

/-!
# The control socket's client

`Control` as the frame loop uses it: whether it has seen the connection drop, and its requests in
flight. What the runtime finds in its zero-timeout polls is an argument of each. A `Control` never
reconnects: a new one is made instead, and a new one has no request in flight.

`rpc.rs` redeclares the types of the host's control module, and they are the same here.
-/

namespace RgspCast.Ui

open RgspCast.Control (CastState PendingEntry PairedEntry)

inductive PinOutcome where
  | paired
  | notReady
  | rejected
  deriving DecidableEq, Repr

def notReadyCode : Int32 := -32000
def rejectedCode : Int32 := -32001

/-- What a request in flight has resolved to: the spawned task panicked, timed out, or has an
answer, an error answer of the daemon, or another error of the client. -/
inductive Attempt (α : Type) where
  | joinError (text : String)
  | elapsed
  | answer (a : α)
  | call (code : Int32) (message : String)
  | error (text : String)
  deriving DecidableEq, Repr

/-- What the subscription has for this frame. An item that does not decode and the end of the
subscription are one case. -/
inductive Push where
  | nothing
  | state (state : CastState)
  | failed
  deriving DecidableEq, Repr

/-- The state that is pushed. -/
def Push.state? : Push → Option CastState
  | .state s => some s
  | _ => none

/-- The arguments of a request stand for its task. -/
structure Control where
  connected : Bool
  pendingPin : Option (String × String)
  pendingUnpair : Option String
  deriving DecidableEq, Repr

namespace Control

/-- What `connect` makes, when it succeeds. -/
def new : Control := ⟨true, none, none⟩

/-- A transport failure was observed. -/
def drop (c : Control) : Control := { c with connected := false }

def pollState (c : Control) : Push → Option CastState × Control
  | .nothing => (none, c)
  | .state state => (some state, c)
  | .failed => (none, c.drop)

def startSubmitPin (c : Control) (id pin : String) : Control :=
  { c with pendingPin := some (id, pin) }

/-- A `PinResult` is its field. -/
def interpretSubmitPin (c : Control) : Attempt Bool → Except String PinOutcome × Control
  | .joinError text => (.error ("submit_pin task did not complete: " ++ text), c.drop)
  | .elapsed => (.error "submit_pin timed out after 5s", c.drop)
  | .answer true => (.ok .paired, c)
  | .answer false => (.error "submit_pin succeeded but reported paired: false", c)
  | .call code message =>
    if code = notReadyCode then (.ok .notReady, c)
    else if code = rejectedCode then (.ok .rejected, c)
    else (.error message, c)
  | .error text => (.error text, c.drop)

def pollSubmitPin (c : Control) (resolved : Option (Attempt Bool)) :
    Option (Except String PinOutcome) × Control :=
  match c.pendingPin, resolved with
  | some _, some attempt =>
    let (outcome, c) := { c with pendingPin := none }.interpretSubmitPin attempt
    (some outcome, c)
  | _, _ => (none, c)

def cancelSubmitPin (c : Control) : Control := { c with pendingPin := none }

def startUnpair (c : Control) (fingerprint : String) : Control :=
  { c with pendingUnpair := some fingerprint }

/-- An `UnpairResult` is its field. -/
def interpretUnpair (c : Control) : Attempt Bool → Except String Bool × Control
  | .joinError text => (.error ("unpair task did not complete: " ++ text), c.drop)
  | .elapsed => (.error "unpair timed out after 3s", c.drop)
  | .answer removed => (.ok removed, c)
  | .call _ message => (.error message, c)
  | .error text => (.error text, c.drop)

def pollUnpair (c : Control) (resolved : Option (Attempt Bool)) :
    Option (Except String Bool) × Control :=
  match c.pendingUnpair, resolved with
  | some _, some attempt =>
    let (outcome, c) := { c with pendingUnpair := none }.interpretUnpair attempt
    (some outcome, c)
  | _, _ => (none, c)

def cancelUnpair (c : Control) : Control := { c with pendingUnpair := none }

theorem pollState_pendingPin (c : Control) (push : Push) :
    (c.pollState push).2.pendingPin = c.pendingPin := by
  cases push <;> rfl

theorem pollState_pendingUnpair (c : Control) (push : Push) :
    (c.pollState push).2.pendingUnpair = c.pendingUnpair := by
  cases push <;> rfl

/-- A poll changes nothing, or hands out what a request in flight has resolved to. -/
theorem pollSubmitPin_cases (c : Control) (resolved : Option (Attempt Bool)) :
    c.pollSubmitPin resolved = (none, c) ∨
      c.pendingPin.isSome = true ∧
        ∃ outcome c', c.pollSubmitPin resolved = (some outcome, c') := by
  unfold pollSubmitPin
  cases c.pendingPin with
  | none => exact Or.inl rfl
  | some request =>
    cases resolved with
    | none => exact Or.inl rfl
    | some attempt => exact Or.inr ⟨rfl, _, _, rfl⟩

/-- Nothing is answered, or a request was pending and is answered now. -/
theorem pollUnpair_cases (c : Control) (resolved : Option (Attempt Bool)) :
    c.pollUnpair resolved = (none, c) ∨
      c.pendingUnpair.isSome = true ∧
        ∃ outcome c', c.pollUnpair resolved = (some outcome, c') := by
  unfold pollUnpair
  cases c.pendingUnpair with
  | none => exact Or.inl rfl
  | some request =>
    cases resolved with
    | none => exact Or.inl rfl
    | some attempt => exact Or.inr ⟨rfl, _, _, rfl⟩

end Control

end RgspCast.Ui
