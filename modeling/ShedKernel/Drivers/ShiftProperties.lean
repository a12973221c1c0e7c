import ShedKernel.Drivers.KeyboardProperties

/-! Two Shift keys and the one flag that the handler keeps for them, while keys go down
and up in any order. -/

set_option autoImplicit false

namespace ShedKernel.Drivers

open Foundation

inductive ShiftKey where
  | left
  | right
  deriving DecidableEq

namespace ShiftKey

def pressCode : ShiftKey → UInt8
  | .left => Scancode.lshift
  | .right => Scancode.rshift

def releaseCode : ShiftKey → UInt8
  | .left => Scancode.lshiftReleased
  | .right => Scancode.rshiftReleased

def other : ShiftKey → ShiftKey
  | .left => .right
  | .right => .left

end ShiftKey

/-- One scancode of a keyboard. A key that is no Shift key may send several for a press or a
release, the prefix `0xE0` and codes of a Shift key among them; each is an event of its own. -/
inductive KeyEvent where
  | press (key : ShiftKey)
  | release (key : ShiftKey)
  | other (scancode : UInt8)
  /-- `kbd_getchar` moves the read index. -/
  | getchar (read : Nat)

/-- The interrupt for one scancode. -/
def deliver (driver : KbdDriver) (scancode : UInt8) : KbdDriver :=
  kbdHandlerMain driver (some scancode)

/-- The driver and the Shift keys that are down. -/
structure Typing where
  driver : KbdDriver
  down : ShiftKey → Bool

/-- The press and the release of a Shift key alternate. What the other keys send is not
restricted, so that they may alternate or not. -/
def TypingStep (typing : Typing) (event : KeyEvent) (next : Typing) : Prop :=
  match event with
  | .press key => typing.down key = false ∧
      next = ⟨deliver typing.driver key.pressCode, Function.update typing.down key true⟩
  | .release key => typing.down key = true ∧
      next = ⟨deliver typing.driver key.releaseCode, Function.update typing.down key false⟩
  | .other scancode => next = { typing with driver := deliver typing.driver scancode }
  | .getchar read => next = { typing with driver := { typing.driver with kbdBufRead := read } }

/-- At least one of the two Shift keys is down. -/
def Typing.shiftDown (typing : Typing) : Bool := typing.down .left || typing.down .right

/-- The code of a press that is neither a Shift key's nor one of the `switch`. -/
def Ordinary (scancode : UInt8) : Prop :=
  scancode.toNat < 128 ∧ scancode ≠ Scancode.lshift ∧ scancode ≠ Scancode.rshift ∧
    specialCode scancode = none

/-- The end of the handler for an ordinary key, with the map as a parameter. -/
def pushMapped (map : List UInt8) (driver : KbdDriver) (keycode : UInt8) : KbdDriver :=
  let c := map.getD keycode.toNat 0
  if c = 0 then driver else kbdPush driver c.toNat

/-- The flag tells whether a Shift key is down, and an ordinary key is translated with the
shifted map exactly then. -/
def ShiftAgrees (typing : Typing) : Prop :=
  typing.driver.shiftHeld = typing.shiftDown ∧
    ∀ scancode, Ordinary scancode → deliver typing.driver scancode =
      pushMapped (if typing.shiftDown then keyboardMapShift else keyboardMap) typing.driver scancode

/-- One Shift key goes up while the other one stays down, or another key sends a code of the
Shift keys that says what is not so: a press while both are up, a release while one is down. -/
def Misleads (typing : Typing) (event : KeyEvent) : Prop :=
  match event with
  | .release key => typing.down key.other = true
  | .other scancode =>
      (scancode = Scancode.lshift ∨ scancode = Scancode.rshift) ∧ typing.shiftDown = false ∨
        (scancode = Scancode.lshiftReleased ∨ scancode = Scancode.rshiftReleased) ∧
          typing.shiftDown = true
  | _ => False

instance (typing : Typing) : (event : KeyEvent) → Decidable (Misleads typing event)
  | .press _ => inferInstanceAs (Decidable False)
  | .release _ => inferInstanceAs (Decidable (_ = _))
  | .other _ => inferInstanceAs (Decidable (_ ∨ _))
  | .getchar _ => inferInstanceAs (Decidable False)

/-! What one scancode does to the flag. -/

variable {driver : KbdDriver} {scancode : UInt8}

theorem kbdHandlerMain_enabled (driver : KbdDriver) (held : Option UInt8) :
    (kbdHandlerMain driver held).enabled = driver.enabled := by
  rcases kbdHandlerMain_cases driver held with ⟨shiftHeld, result⟩ | ⟨code, result⟩
  · rw [result]
  · rw [result]
    unfold kbdPush
    split <;> rfl

theorem kbdPush_shiftHeld (driver : KbdDriver) (code : Int) :
    (kbdPush driver code).shiftHeld = driver.shiftHeld := by
  unfold kbdPush
  split <;> rfl

/-- Only the scancodes of the Shift keys change the flag. -/
theorem deliver_shiftHeld (enabled : driver.enabled = true) :
    (deliver driver scancode).shiftHeld =
      if scancode = Scancode.lshiftReleased ∨ scancode = Scancode.rshiftReleased then false
      else if scancode = Scancode.lshift ∨ scancode = Scancode.rshift then true
      else driver.shiftHeld := by
  unfold deliver kbdHandlerMain kbdRead
  rw [if_pos enabled]
  simp only
  split
  · rfl
  next notReleased =>
  split
  · next high =>
    have notShift : ¬(scancode = Scancode.lshift ∨ scancode = Scancode.rshift) := by
      rintro (rfl | rfl) <;> exact absurd high (by decide)
    rw [if_neg notShift]
  next low =>
  split
  · rfl
  cases specialCode scancode with
  | some code => exact kbdPush_shiftHeld _ _
  | none =>
    simp only
    generalize (if driver.shiftHeld = true then keyboardMapShift else keyboardMap) = map
    split
    · rfl
    · exact kbdPush_shiftHeld _ _

private theorem deliver_press (enabled : driver.enabled = true) (key : ShiftKey) :
    (deliver driver key.pressCode).shiftHeld = true := by
  rw [deliver_shiftHeld enabled]
  cases key <;> rfl

private theorem deliver_release (enabled : driver.enabled = true) (key : ShiftKey) :
    (deliver driver key.releaseCode).shiftHeld = false := by
  rw [deliver_shiftHeld enabled]
  cases key <;> rfl

private theorem Ordinary.not_release (ordinary : Ordinary scancode) :
    ¬(scancode = Scancode.lshiftReleased ∨ scancode = Scancode.rshiftReleased) := by
  rintro (rfl | rfl) <;> exact absurd ordinary.1 (by decide)

/-- An ordinary key goes through the map that the flag selects. -/
theorem deliver_ordinary (enabled : driver.enabled = true) (ordinary : Ordinary scancode) :
    deliver driver scancode =
      pushMapped (if driver.shiftHeld then keyboardMapShift else keyboardMap) driver scancode := by
  obtain ⟨isPress, notLeft, notRight, plain⟩ := ordinary
  unfold deliver kbdHandlerMain kbdRead
  rw [if_pos enabled]
  simp only
  rw [if_neg (Ordinary.not_release ⟨isPress, notLeft, notRight, plain⟩), if_neg (by omega),
    if_neg (not_or.mpr ⟨notLeft, notRight⟩), plain]
  rfl

/-! What an event does to the flag. -/

variable {typing next : Typing} {event : KeyEvent}

theorem TypingStep.enabled (step : TypingStep typing event next) :
    next.driver.enabled = typing.driver.enabled := by
  cases event with
  | press key =>
    rw [step.2]
    exact kbdHandlerMain_enabled _ _
  | release key =>
    rw [step.2]
    exact kbdHandlerMain_enabled _ _
  | other scancode =>
    cases step
    exact kbdHandlerMain_enabled _ _
  | getchar read =>
    cases step
    rfl

/-- The translation follows from the flag. -/
theorem shiftAgrees_iff (enabled : typing.driver.enabled = true) :
    ShiftAgrees typing ↔ typing.driver.shiftHeld = typing.shiftDown := by
  refine ⟨And.left, fun flag => ⟨flag, fun scancode ordinary => ?_⟩⟩
  rw [deliver_ordinary enabled ordinary, flag]

private theorem shiftDown_press (down : ShiftKey → Bool) (key : ShiftKey) :
    (Typing.mk driver (Function.update down key true)).shiftDown = true := by
  cases key <;> simp [Typing.shiftDown]

private theorem shiftDown_release (down : ShiftKey → Bool) (key : ShiftKey) :
    (Typing.mk driver (Function.update down key false)).shiftDown = down key.other := by
  cases key <;> simp [Typing.shiftDown, ShiftKey.other]

/-- The flag is right about a scancode of another key unless that is a Shift key's code and
says the opposite of what holds. -/
theorem deliver_other_iff (enabled : driver.enabled = true) {shiftDown : Bool}
    (flag : driver.shiftHeld = shiftDown) :
    (deliver driver scancode).shiftHeld = shiftDown ↔
      ¬((scancode = Scancode.lshift ∨ scancode = Scancode.rshift) ∧ shiftDown = false ∨
        (scancode = Scancode.lshiftReleased ∨ scancode = Scancode.rshiftReleased) ∧
          shiftDown = true) := by
  rw [deliver_shiftHeld enabled]
  by_cases released : scancode = Scancode.lshiftReleased ∨ scancode = Scancode.rshiftReleased
  · have notPress : ¬(scancode = Scancode.lshift ∨ scancode = Scancode.rshift) := by
      rintro (rfl | rfl) <;> exact absurd released (by decide)
    cases shiftDown <;> simp [released, notPress]
  by_cases pressed : scancode = Scancode.lshift ∨ scancode = Scancode.rshift
  · cases shiftDown <;> simp [released, pressed]
  · simp [released, pressed, flag]

/-- From agreement, an event leads to agreement unless it misleads. -/
theorem ShiftAgrees.step_iff (agrees : ShiftAgrees typing) (enabled : typing.driver.enabled = true)
    (step : TypingStep typing event next) : ShiftAgrees next ↔ ¬Misleads typing event := by
  rw [shiftAgrees_iff (step.enabled.trans enabled)]
  cases event with
  | press key =>
    obtain ⟨_, rfl⟩ := step
    exact iff_of_true ((deliver_press enabled key).trans (shiftDown_press _ key).symm) not_false
  | release key =>
    obtain ⟨_, rfl⟩ := step
    rw [deliver_release enabled, shiftDown_release, Misleads, Bool.not_eq_true]
    exact eq_comm
  | other scancode =>
    cases step
    exact deliver_other_iff enabled agrees.1
  | getchar read =>
    cases step
    exact iff_of_true ((shiftAgrees_iff enabled).mp agrees) not_false

/-- A step that does not mislead. -/
def TruthfulStep (typing : Typing) (event : KeyEvent) (next : Typing) : Prop :=
  TypingStep typing event next ∧ ¬Misleads typing event

structure Tracked (typing : Typing) : Prop where
  agrees : ShiftAgrees typing
  enabled : typing.driver.enabled = true

theorem Tracked.step (tracked : Tracked typing) (step : TruthfulStep typing event next) :
    Tracked next :=
  ⟨(tracked.agrees.step_iff tracked.enabled step.1).mpr step.2, step.1.enabled.trans tracked.enabled⟩

/-- In every run without a misleading event, the flag tells after every scancode whether a
Shift key is down; the first event that misleads makes the flag wrong. -/
theorem shift_held_iff_shift_down (driver : KbdDriver) (enabled : driver.enabled = true)
    (unshifted : driver.shiftHeld = false) (events : List KeyEvent) (typing : Typing)
    (run : Run TruthfulStep ⟨driver, fun _ => false⟩ events typing) :
    ShiftAgrees typing ∧ ∀ event next, TypingStep typing event next →
      (ShiftAgrees next ↔ ¬Misleads typing event) := by
  have start : Tracked ⟨driver, fun _ => false⟩ := ⟨(shiftAgrees_iff enabled).mpr unshifted, enabled⟩
  have tracked : Tracked typing := run.invariant start fun _ _ _ tracked step => tracked.step step
  exact ⟨tracked.agrees, fun event next step => tracked.agrees.step_iff tracked.enabled step⟩

/-- The driver after `kbd_init` and `kbd_enable`. -/
def enabledDriver : KbdDriver := { bootKeyboard.driver with enabled := true }

/-- Both Shift keys go down, then the left one goes up. -/
theorem shift_held_lost : ¬∀ (driver : KbdDriver), driver.enabled = true →
    driver.shiftHeld = false → ∀ events typing,
      Run TypingStep ⟨driver, fun _ => false⟩ events typing → ShiftAgrees typing := by
  intro agrees
  have start : Run TypingStep ⟨enabledDriver, fun _ => false⟩ [] _ := .nil
  have left := start.snoc (show TypingStep _ (.press .left) _ from ⟨rfl, rfl⟩)
  have right := left.snoc (show TypingStep _ (.press .right) _ from ⟨rfl, rfl⟩)
  have released := right.snoc (show TypingStep _ (.release .left) _ from ⟨rfl, rfl⟩)
  exact absurd (agrees enabledDriver rfl rfl _ _ released).1 (by decide)

/-- A capital letter is typed, and Page Up with its prefix. -/
theorem shift_held_capital : ∃ typing,
    Run TruthfulStep ⟨enabledDriver, fun _ => false⟩ [.press .left, .other 0x1E, .other 0x9E,
      .release .left, .other 0xE0, .other 0x49] typing ∧
      typing.driver.kbdBuf 0 = 65 ∧ typing.driver.kbdBuf 1 = 1006 ∧ ShiftAgrees typing := by
  have start : Run TruthfulStep ⟨enabledDriver, fun _ => false⟩ [] _ := .nil
  have left := start.snoc (show TruthfulStep _ (.press .left) _ from ⟨⟨rfl, rfl⟩, not_false⟩)
  have letter := left.snoc (show TruthfulStep _ (.other 0x1E) _ from ⟨rfl, by decide⟩)
  have lifted := letter.snoc (show TruthfulStep _ (.other 0x9E) _ from ⟨rfl, by decide⟩)
  have released := lifted.snoc (show TruthfulStep _ (.release .left) _ from
    ⟨⟨rfl, rfl⟩, by decide⟩)
  have escape := released.snoc (show TruthfulStep _ (.other 0xE0) _ from ⟨rfl, by decide⟩)
  have pageUp := escape.snoc (show TruthfulStep _ (.other 0x49) _ from ⟨rfl, by decide⟩)
  exact ⟨_, pageUp, by decide, by decide, (shift_held_iff_shift_down _ rfl rfl _ _ pageUp).1⟩

end ShedKernel.Drivers
