import ShedKernel.Foundation.Ring

/-! The keyboard driver of `kbd_driver.c`: a ring buffer of key codes, the interrupt
handler that fills it, and `kbd_getchar`, whose statements are separate steps here. -/

set_option autoImplicit false

namespace ShedKernel.Drivers

def kbdBufSize : Nat := 256

/-- The static variables of the driver. -/
structure KbdDriver where
  kbdBuf : Nat → Int
  kbdBufRead : Nat
  kbdBufWrite : Nat
  shiftHeld : Bool
  enabled : Bool

def kbdPush (driver : KbdDriver) (code : Int) : KbdDriver :=
  if (driver.kbdBufWrite + 1) % kbdBufSize = driver.kbdBufRead then driver
  else
    { driver with
      kbdBuf := Function.update driver.kbdBuf driver.kbdBufWrite code
      kbdBufWrite := (driver.kbdBufWrite + 1) % kbdBufSize }

/-! The interrupt handler. -/

namespace Scancode

def up : UInt8 := 0x48

def down : UInt8 := 0x50

def left : UInt8 := 0x4B

def right : UInt8 := 0x4D

def home : UInt8 := 0x47

def «end» : UInt8 := 0x4F

def pgup : UInt8 := 0x49

def pgdn : UInt8 := 0x51

def del : UInt8 := 0x53

def lshift : UInt8 := 0x2A

def rshift : UInt8 := 0x36

def lshiftReleased : UInt8 := 0xAA

def rshiftReleased : UInt8 := 0xB6

def enter : UInt8 := 0x1C

def backspace : UInt8 := 0x0E

end Scancode

/-- The `switch` of the handler. -/
def specialCode (keycode : UInt8) : Option Int :=
  if keycode = Scancode.up then some 1000
  else if keycode = Scancode.down then some 1001
  else if keycode = Scancode.left then some 1002
  else if keycode = Scancode.right then some 1003
  else if keycode = Scancode.home then some 1004
  else if keycode = Scancode.end then some 1005
  else if keycode = Scancode.pgup then some 1006
  else if keycode = Scancode.pgdn then some 1007
  else if keycode = Scancode.del then some 1008
  else if keycode = Scancode.backspace then some 8
  else if keycode = Scancode.enter then some 10
  else none

private def codes (text : String) : List UInt8 := text.toList.map fun c => UInt8.ofNat c.toNat

/-- The entries of `keyboard_map` up to the last one that is not 0. -/
def keyboardMap : List UInt8 :=
  [0, 27] ++ codes "1234567890[]" ++ [8, 9] ++ codes "',.pyfgcrl/=" ++ [10, 0] ++
    codes "aoeuidhtns-`" ++ [0] ++ codes "\\;qjkxbmwvz" ++ [0] ++ codes "*" ++ [0] ++ codes " " ++
    List.replicate 16 0 ++ codes "-" ++ [0, 0, 0] ++ codes "+"

def keyboardMapShift : List UInt8 :=
  [0, 27] ++ codes "!@#$%^&*(){}" ++ [8, 9] ++ codes "\"<>PYFGCRL?+" ++ [10, 0] ++
    codes "AOEUIDHTNS_~" ++ [0] ++ codes "|:QJKXBMWVZ" ++ [0] ++ codes "*" ++ [0] ++ codes " " ++
    List.replicate 16 0 ++ codes "-" ++ [0, 0, 0] ++ codes "+"

/-- `kbd_read`, given the byte that the controller holds, if any. -/
def kbdRead (driver : KbdDriver) (held : Option UInt8) : Option UInt8 :=
  if driver.enabled then held else none

def kbdHandlerMain (driver : KbdDriver) (held : Option UInt8) : KbdDriver :=
  match kbdRead driver held with
  | none => driver
  | some keycode =>
      if keycode = Scancode.lshiftReleased ∨ keycode = Scancode.rshiftReleased then
        { driver with shiftHeld := false }
      else if 128 ≤ keycode.toNat then driver
      else if keycode = Scancode.lshift ∨ keycode = Scancode.rshift then
        { driver with shiftHeld := true }
      else
        match specialCode keycode with
        | some code => kbdPush driver code
        | none =>
            let map := if driver.shiftHeld then keyboardMapShift else keyboardMap
            let c := map.getD keycode.toNat 0
            if c = 0 then driver else kbdPush driver c.toNat

/-! `kbd_getchar`, interrupted between any two of its statements. -/

/-- The statement that the consumer executes next. -/
inductive GetChar where
  | outside
  | test
  | read
  | advance (c : Int)
  | return (c : Int)

/-- The driver and its consumer. The lists and the number of advances are not kept by the
kernel: `accepted` has the codes that `kbd_push` stored, `returned` those that
`kbd_getchar` returned. -/
structure Keyboard where
  driver : KbdDriver
  consumer : GetChar
  accepted : List Int
  advances : Nat
  returned : List Int

inductive Event where
  | push (code : Int)
  | statement

/-- The effect of one interrupt. -/
def interrupt (keyboard : Keyboard) (code : Int) : Keyboard :=
  { keyboard with
    driver := kbdPush keyboard.driver code
    accepted :=
      if (keyboard.driver.kbdBufWrite + 1) % kbdBufSize = keyboard.driver.kbdBufRead then
        keyboard.accepted
      else keyboard.accepted ++ [code] }

/-- The next statement of the consumer; from outside, the call. -/
def consume (keyboard : Keyboard) : Keyboard :=
  match keyboard.consumer with
  | .outside => { keyboard with consumer := .test }
  | .test =>
      if keyboard.driver.kbdBufRead = keyboard.driver.kbdBufWrite then keyboard
      else { keyboard with consumer := .read }
  | .read =>
      { keyboard with consumer := .advance (keyboard.driver.kbdBuf keyboard.driver.kbdBufRead) }
  | .advance c =>
      let driver := { keyboard.driver with
        kbdBufRead := (keyboard.driver.kbdBufRead + 1) % kbdBufSize }
      { keyboard with driver, consumer := .return c, advances := keyboard.advances + 1 }
  | .return c => { keyboard with consumer := .outside, returned := keyboard.returned ++ [c] }

def KeyboardStep (keyboard : Keyboard) (event : Event) (next : Keyboard) : Prop :=
  match event with
  | .push code => next = interrupt keyboard code
  | .statement => next = consume keyboard

/-- The static variables before the first key. -/
def bootKeyboard : Keyboard where
  driver := ⟨fun _ => 0, 0, 0, false, false⟩
  consumer := .outside
  accepted := []
  advances := 0
  returned := []

end ShedKernel.Drivers
