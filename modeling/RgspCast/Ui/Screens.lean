import RgspCast.Ui.Rpc

/-!
# The screens but for Home

What each screen does with a frame's buttons, and the label they give a client.
-/

namespace RgspCast.Ui

/-- The buttons that fired in a frame. -/
structure Buttons where
  up : Bool := false
  down : Bool := false
  left : Bool := false
  right : Bool := false
  a : Bool := false
  b : Bool := false
  deriving DecidableEq, Repr

/-- A name, or an address, or the first 8 characters of the id. -/
def clientLabel (name address : Option String) (id : String) : String :=
  match name with
  | some name => name
  | none =>
    match address with
    | some address => address
    | none => String.ofList (id.toList.take 8)

/-! ## PIN entry -/

inductive PinAction where
  | none
  | submit (pin : String)
  | back
  deriving DecidableEq, Repr

/-- The cursor never leaves the digits. -/
structure Pin where
  clientId : String
  clientName : Option String
  clientAddress : Option String
  digits : Vector UInt8 4
  cursor : Fin 4
  error : Option String
  deriving DecidableEq, Repr

namespace Pin

def new (clientId : String) (clientName clientAddress : Option String) : Pin where
  clientId := clientId
  clientName := clientName
  clientAddress := clientAddress
  digits := Vector.replicate 4 0
  cursor := 0
  error := none

def label (pin : Pin) : String := clientLabel pin.clientName pin.clientAddress pin.clientId

def setError (pin : Pin) (msg : String) : Pin := { pin with error := some msg }

/-- The cursor does not wrap. -/
def moveCursor (pin : Pin) (buttons : Buttons) : Pin :=
  if hl : buttons.left ∧ 0 < pin.cursor.val then
    { pin with cursor := ⟨pin.cursor - 1, by omega⟩, error := none }
  else if hr : buttons.right ∧ pin.cursor.val + 1 < 4 then
    { pin with cursor := ⟨pin.cursor + 1, hr.2⟩, error := none }
  else pin

/-- The digits do. -/
def turnDigit (pin : Pin) (buttons : Buttons) : Pin :=
  let digit := pin.digits[pin.cursor]
  if buttons.up then
    { pin with digits := pin.digits.set pin.cursor ((digit + 1) % 10), error := none }
  else if buttons.down then
    { pin with digits := pin.digits.set pin.cursor ((digit + 9) % 10), error := none }
  else pin

def update (pin : Pin) (buttons : Buttons) : PinAction × Pin :=
  if buttons.b then (.back, pin)
  else
    let pin := (pin.moveCursor buttons).turnDigit buttons
    if buttons.a then
      (.submit (String.join (pin.digits.toList.map fun d => toString d.toNat)), pin)
    else (.none, pin)

end Pin

/-! ## Full-screen states -/

inductive PairingAction where
  | none
  | cancel
  deriving DecidableEq, Repr

/-- `pairing::update`. -/
def pairingUpdate (buttons : Buttons) : PairingAction := if buttons.b then .cancel else .none

inductive UnpairingAction where
  | none
  | cancel
  deriving DecidableEq, Repr

/-- `unpairing::update`. -/
def unpairingUpdate (buttons : Buttons) : UnpairingAction := if buttons.b then .cancel else .none

structure Message where
  text : String
  deriving DecidableEq, Repr

/-- Whether to return to Home. -/
def Message.update (_ : Message) (buttons : Buttons) : Bool := buttons.b

inductive ConfirmAction where
  | none
  | confirm
  | cancel
  deriving DecidableEq, Repr

structure Confirm where
  fingerprint : String
  label : String
  deriving DecidableEq, Repr

def Confirm.update (_ : Confirm) (buttons : Buttons) : ConfirmAction :=
  if buttons.a then .confirm else if buttons.b then .cancel else .none

end RgspCast.Ui
