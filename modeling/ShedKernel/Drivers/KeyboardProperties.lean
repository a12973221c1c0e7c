import ShedKernel.Drivers.Keyboard
import ShedKernel.Foundation.Run

/-! The ring buffer of key codes is a bounded first-in first-out queue, however the
interrupts fall between the statements of `kbd_getchar`. -/

set_option autoImplicit false

namespace ShedKernel.Drivers

open Foundation Ring

/-- The codes stored and not yet released. -/
def KbdDriver.pending (driver : KbdDriver) : List Int :=
  items driver.kbdBuf kbdBufSize driver.kbdBufRead
    (distance kbdBufSize driver.kbdBufRead driver.kbdBufWrite)

structure KbdDriver.InRange (driver : KbdDriver) : Prop where
  read : driver.kbdBufRead < kbdBufSize
  write : driver.kbdBufWrite < kbdBufSize

variable {driver : KbdDriver} {code : Int}

theorem KbdDriver.InRange.pending_nil_iff (inRange : driver.InRange) :
    driver.pending = [] ↔ driver.kbdBufRead = driver.kbdBufWrite := by
  rw [← distance_eq_zero_iff inRange.read inRange.write, ← List.length_eq_zero_iff]
  simp [KbdDriver.pending]

theorem KbdDriver.InRange.full_iff (inRange : driver.InRange) :
    (driver.kbdBufWrite + 1) % kbdBufSize = driver.kbdBufRead ↔ driver.pending.length = 255 := by
  rw [← distance_eq_pred_iff inRange.read inRange.write]
  simp [KbdDriver.pending, kbdBufSize]

private theorem kbdPush_of_full (full : (driver.kbdBufWrite + 1) % kbdBufSize = driver.kbdBufRead) :
    kbdPush driver code = driver := if_pos full

/-- A push either finds the ring full or appends its code. -/
theorem kbdPush_of_room (inRange : driver.InRange)
    (room : (driver.kbdBufWrite + 1) % kbdBufSize ≠ driver.kbdBufRead) :
    (kbdPush driver code).InRange ∧ (kbdPush driver code).pending = driver.pending ++ [code] ∧
      (kbdPush driver code).kbdBufRead = driver.kbdBufRead := by
  have pushed : kbdPush driver code = _ := if_neg room
  rw [pushed]
  exact ⟨⟨inRange.read, next_lt inRange.write⟩, items_write code inRange.read inRange.write room, rfl⟩

private theorem kbdPush_inRange (inRange : driver.InRange) : (kbdPush driver code).InRange := by
  by_cases full : (driver.kbdBufWrite + 1) % kbdBufSize = driver.kbdBufRead
  · rw [kbdPush_of_full full]
    exact inRange
  · exact (kbdPush_of_room inRange full).1

/-- A push changes nothing exactly when the ring is full. -/
theorem kbdPush_eq_iff (inRange : driver.InRange) :
    kbdPush driver code = driver ↔ driver.pending.length = 255 := by
  rw [← inRange.full_iff]
  constructor
  · intro unchanged
    apply Classical.byContradiction
    intro room
    have appended : (kbdPush driver code).pending = driver.pending ++ [code] :=
      (kbdPush_of_room inRange room).2.1
    rw [unchanged] at appended
    have lengths := congrArg List.length appended
    simp at lengths
  · exact kbdPush_of_full

/-- One interrupt tracks the shift key or pushes at most one code. -/
theorem kbdHandlerMain_cases (driver : KbdDriver) (held : Option UInt8) :
    (∃ shiftHeld, kbdHandlerMain driver held = { driver with shiftHeld }) ∨
      ∃ code, kbdHandlerMain driver held = kbdPush driver code := by
  unfold kbdHandlerMain
  cases kbdRead driver held with
  | none => exact .inl ⟨driver.shiftHeld, rfl⟩
  | some keycode =>
    simp only
    split
    · exact .inl ⟨false, rfl⟩
    split
    · exact .inl ⟨driver.shiftHeld, rfl⟩
    split
    · exact .inl ⟨true, rfl⟩
    cases specialCode keycode with
    | some code => exact .inr ⟨code, rfl⟩
    | none =>
      simp only
      generalize (if driver.shiftHeld = true then keyboardMapShift else keyboardMap) = map
      split
      · exact .inl ⟨driver.shiftHeld, rfl⟩
      · exact .inr ⟨_, rfl⟩

/-! What holds between any two statements. -/

/-- What the consumer has established, given the codes pending. -/
def GetChar.Agrees (pending : List Int) : GetChar → Prop
  | .outside => True
  | .test => True
  | .read => pending ≠ []
  | .advance c => pending.head? = some c
  | .return _ => True

/-- The code that was released and not yet returned. -/
def GetChar.inHand : GetChar → List Int
  | .return c => [c]
  | _ => []

structure Fifo (keyboard : Keyboard) : Prop where
  inRange : keyboard.driver.InRange
  consumer : keyboard.consumer.Agrees keyboard.driver.pending
  advances : (keyboard.returned ++ keyboard.consumer.inHand).length = keyboard.advances
  accepted : keyboard.accepted =
    keyboard.returned ++ keyboard.consumer.inHand ++ keyboard.driver.pending

private theorem bootKeyboard_fifo : Fifo bootKeyboard :=
  ⟨⟨by decide, by decide⟩, trivial, rfl, rfl⟩

/-- A code at the end of the queue does not disturb the consumer. -/
theorem GetChar.Agrees.append {pending : List Int} {consumer : GetChar}
    (agrees : consumer.Agrees pending) (code : Int) : consumer.Agrees (pending ++ [code]) := by
  cases consumer with
  | outside => trivial
  | test => trivial
  | read => simp [GetChar.Agrees]
  | advance c =>
    cases pending with
    | nil => simp [GetChar.Agrees] at agrees
    | cons first rest => exact agrees
  | «return» c => trivial

variable {keyboard next : Keyboard} {event : Event}

theorem Fifo.interrupt (fifo : Fifo keyboard) (code : Int) : Fifo (interrupt keyboard code) := by
  unfold Drivers.interrupt
  split
  · next full =>
    rw [kbdPush_of_full full]
    exact ⟨fifo.inRange, fifo.consumer, fifo.advances, fifo.accepted⟩
  · next room =>
    obtain ⟨inRange, pending, _⟩ := @kbdPush_of_room _ code fifo.inRange room
    refine ⟨inRange, ?_, fifo.advances, ?_⟩
    · simp only [pending]
      exact fifo.consumer.append code
    · simp only [pending, fifo.accepted, List.append_assoc]

theorem Fifo.advance (fifo : Fifo keyboard) {c : Int} (consumer : keyboard.consumer = .advance c) :
    Fifo (consume keyboard) := by
  obtain ⟨inRange, agrees, advances, accepted⟩ := fifo
  simp only [consumer, GetChar.Agrees, GetChar.inHand, List.append_nil] at agrees advances accepted
  have filled : keyboard.driver.kbdBufRead ≠ keyboard.driver.kbdBufWrite := by
    intro same
    rw [inRange.pending_nil_iff.mpr same] at agrees
    cases agrees
  have pending : keyboard.driver.pending = _ := items_read inRange.read inRange.write filled
  have head : keyboard.driver.kbdBuf keyboard.driver.kbdBufRead = c := by
    rw [pending] at agrees
    exact Option.some.inj agrees
  rw [head] at pending
  simp only [consume, consumer]
  refine ⟨⟨next_lt inRange.read, inRange.write⟩, trivial, ?_, ?_⟩
  · simp only [GetChar.inHand, List.length_append, advances]
    rfl
  · rw [accepted, pending]
    simp only [GetChar.inHand, List.append_assoc, List.singleton_append]
    rfl

theorem Fifo.consume (fifo : Fifo keyboard) : Fifo (consume keyboard) := by
  cases consumer : keyboard.consumer with
  | advance c => exact fifo.advance consumer
  | outside =>
    obtain ⟨inRange, _, advances, accepted⟩ := fifo
    simp only [consumer] at advances accepted
    simp only [Drivers.consume, consumer]
    exact ⟨inRange, trivial, advances, accepted⟩
  | test =>
    simp only [Drivers.consume, consumer]
    split
    · exact fifo
    · next filled =>
      obtain ⟨inRange, _, advances, accepted⟩ := fifo
      simp only [consumer] at advances accepted
      exact ⟨inRange, fun empty => filled (inRange.pending_nil_iff.mp empty), advances, accepted⟩
  | read =>
    obtain ⟨inRange, agrees, advances, accepted⟩ := fifo
    simp only [consumer] at agrees advances accepted
    have filled : keyboard.driver.kbdBufRead ≠ keyboard.driver.kbdBufWrite :=
      fun same => agrees (inRange.pending_nil_iff.mpr same)
    have pending : keyboard.driver.pending = _ := items_read inRange.read inRange.write filled
    simp only [Drivers.consume, consumer]
    refine ⟨inRange, ?_, advances, accepted⟩
    simp only [GetChar.Agrees, pending, List.head?_cons]
  | «return» c =>
    obtain ⟨inRange, _, advances, accepted⟩ := fifo
    simp only [consumer, GetChar.inHand] at advances accepted
    simp only [Drivers.consume, consumer]
    refine ⟨inRange, trivial, ?_, ?_⟩
    · simpa only [GetChar.inHand, List.append_nil] using advances
    · simpa only [GetChar.inHand, List.append_nil] using accepted

theorem Fifo.step (fifo : Fifo keyboard) (step : KeyboardStep keyboard event next) : Fifo next := by
  cases event with
  | push code =>
    cases step
    exact fifo.interrupt code
  | statement =>
    cases step
    exact fifo.consume

/-- In every interleaving: the codes returned are a prefix of those accepted, the indices
are in range, and the next push is dropped exactly when 255 codes are not yet released. -/
theorem kbd_buffer_fifo (events : List Event) (keyboard : Keyboard)
    (run : Run KeyboardStep bootKeyboard events keyboard) :
    keyboard.returned <+: keyboard.accepted ∧
      (∀ code, (kbdPush keyboard.driver code = keyboard.driver ↔
          keyboard.accepted.length = keyboard.advances + 255) ∧
        (interrupt keyboard code).accepted =
          if keyboard.accepted.length = keyboard.advances + 255 then keyboard.accepted
          else keyboard.accepted ++ [code]) ∧
      keyboard.driver.kbdBufRead < 256 ∧ keyboard.driver.kbdBufWrite < 256 := by
  have fifo : Fifo keyboard := run.invariant bootKeyboard_fifo fun _ _ _ fifo step => fifo.step step
  have lengths : keyboard.accepted.length = keyboard.advances + keyboard.driver.pending.length := by
    rw [fifo.accepted, List.length_append, fifo.advances]
  have full : keyboard.driver.pending.length = 255 ↔
      keyboard.accepted.length = keyboard.advances + 255 := by omega
  refine ⟨?_, ?_, fifo.inRange.read, fifo.inRange.write⟩
  · rw [fifo.accepted, List.append_assoc]
    exact List.prefix_append _ _
  · intro code
    refine ⟨(kbdPush_eq_iff fifo.inRange).trans full, ?_⟩
    simp only [Drivers.interrupt, fifo.inRange.full_iff, full]

/-- A key arrives between the call of `kbd_getchar` and its test. -/
theorem kbd_buffer_fifo_key : ∃ keyboard,
    Run KeyboardStep bootKeyboard
      [.statement, .push 97, .statement, .statement, .statement, .statement] keyboard ∧
      keyboard.returned = [97] ∧ keyboard.returned <+: keyboard.accepted := by
  have begin : Run KeyboardStep bootKeyboard [] bootKeyboard := .nil
  have call := begin.snoc (show KeyboardStep _ .statement _ from rfl)
  have key := call.snoc (show KeyboardStep _ (.push 97) _ from rfl)
  have test := key.snoc (show KeyboardStep _ .statement _ from rfl)
  have read := test.snoc (show KeyboardStep _ .statement _ from rfl)
  have advance := read.snoc (show KeyboardStep _ .statement _ from rfl)
  have returned := advance.snoc (show KeyboardStep _ .statement _ from rfl)
  exact ⟨_, returned, rfl, (kbd_buffer_fifo _ _ returned).1⟩

end ShedKernel.Drivers
