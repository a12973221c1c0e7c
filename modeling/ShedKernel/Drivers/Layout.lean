import ShedKernel.Drivers.ShiftProperties
import ShedKernel.Foundation.Interleaving

/-! The codes that a stream of scancodes stands for, the scancodes that type a text, and the
keyboard between its interrupts and `kbd_getchar`. -/

set_option autoImplicit false

namespace ShedKernel.Drivers

open Foundation

/-! A stream of scancodes. -/

/-- What the handler hands to `kbd_push`. -/
def codeOf (shift : Bool) (scancode : UInt8) : Option Int :=
  if 128 ≤ scancode.toNat ∨ scancode = Scancode.lshift ∨ scancode = Scancode.rshift then none
  else
    match specialCode scancode with
    | some code => some code
    | none =>
        let c := (if shift then keyboardMapShift else keyboardMap).getD scancode.toNat 0
        if c = 0 then none else some c.toNat

def shiftAfter (shift : Bool) (scancode : UInt8) : Bool :=
  if scancode = Scancode.lshiftReleased ∨ scancode = Scancode.rshiftReleased then false
  else if scancode = Scancode.lshift ∨ scancode = Scancode.rshift then true
  else shift

/-- The codes, with the Shift flag at first. -/
def decode : Bool → List UInt8 → List Int
  | _, [] => []
  | shift, scancode :: rest => (codeOf shift scancode).toList ++ decode (shiftAfter shift scancode) rest

/-! A text on the keys. -/

/-- The first key with the code in this map. -/
def keyFor (shift : Bool) (code : Int) : Option UInt8 :=
  ((List.range 128).map UInt8.ofNat).find? fun key => codeOf shift key = some code

/-- A key goes down and up, if need be while the left Shift key is down. -/
def keystroke (code : Int) : List UInt8 :=
  match keyFor false code with
  | some key => [key, key + 128]
  | none =>
      match keyFor true code with
      | some key => [Scancode.lshift, key, key + 128, Scancode.lshiftReleased]
      | none => []

def Typeable (code : Int) : Prop := keyFor false code ≠ none ∨ keyFor true code ≠ none

instance (code : Int) : Decidable (Typeable code) := inferInstanceAs (Decidable (_ ∨ _))

def keystrokes (text : List Int) : List UInt8 := text.flatMap keystroke

/-! The keyboard. -/

/-- The interrupt for one scancode. -/
def receive (keyboard : Keyboard) (scancode : UInt8) : Keyboard :=
  { keyboard with
    driver := kbdHandlerMain keyboard.driver (some scancode)
    accepted :=
      if (keyboard.driver.kbdBufWrite + 1) % kbdBufSize = keyboard.driver.kbdBufRead then keyboard.accepted
      else keyboard.accepted ++ (codeOf keyboard.driver.shiftHeld scancode).toList }

/-- The scancodes arrive in their order, and `kbd_getchar` executes statements in between. -/
def TypingTurn : Configuration Keyboard UInt8 → Option Unit → Configuration Keyboard UInt8 → Prop :=
  Turn receive fun keyboard _ next => next = consume keyboard

/-- No scancode arrives while the buffer is full. -/
def RoomyTurn (before : Configuration Keyboard UInt8) (event : Option Unit)
    (after : Configuration Keyboard UInt8) : Prop :=
  TypingTurn before event after ∧ (event = none → before.state.driver.pending.length < 255)

/-- The keyboard after `kbd_init` and `kbd_enable`. -/
def startKeyboard : Keyboard := { bootKeyboard with driver := enabledDriver }

end ShedKernel.Drivers
