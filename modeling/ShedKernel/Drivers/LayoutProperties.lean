import ShedKernel.Drivers.Layout

/-! Whatever is typed arrives as it was typed. -/

set_option autoImplicit false

namespace ShedKernel.Drivers

open Foundation

/-! Typing and decoding. -/

private theorem decode_append (shift : Bool) (first second : List UInt8) :
    decode shift (first ++ second) = decode shift first ++ decode (first.foldl shiftAfter shift) second := by
  induction first generalizing shift with
  | nil => rfl
  | cons scancode first ih => rw [List.cons_append, decode, ih, decode, List.append_assoc, List.foldl_cons]

/-- The codes of a part of the stream come first. -/
theorem decode_prefix (shift : Bool) (first second : List UInt8) : decode shift first <+: decode shift (first ++ second) := by
  rw [decode_append]
  exact List.prefix_append _ _

private theorem keyFor_some {shift : Bool} {code : Int} {key : UInt8} (found : keyFor shift code = some key) :
    codeOf shift key = some code ∧ key.toNat < 128 ∧ key ≠ Scancode.lshift ∧ key ≠ Scancode.rshift := by
  have coded : codeOf shift key = some code := by simpa using List.find?_some found
  have pressed : ¬(128 ≤ key.toNat ∨ key = Scancode.lshift ∨ key = Scancode.rshift) := by
    intro silent
    rw [codeOf, if_pos silent] at coded
    cases coded
  obtain ⟨low, notLeft, notRight⟩ := by simpa only [not_or] using pressed
  exact ⟨coded, Nat.lt_of_not_le low, notLeft, notRight⟩

/-- The code of a release. -/
private theorem release_toNat {key : UInt8} (low : key.toNat < 128) :
    (key + 128).toNat = key.toNat + 128 := by
  rw [UInt8.toNat_add]
  exact Nat.mod_eq_of_lt (by simp; omega)

/-- A key that goes down and up gives its code and leaves the flag alone. -/
theorem decode_key {shift : Bool} {code : Int} {key : UInt8} (found : keyFor shift code = some key) (rest : List UInt8) :
    decode shift (key :: (key + 128) :: rest) = code :: decode shift rest := by
  obtain ⟨coded, low, notLeft, notRight⟩ := keyFor_some found
  have high := release_toNat low
  have silent : codeOf shift (key + 128) = none := if_pos (.inl (by omega))
  have pressed : shiftAfter shift key = shift := by
    have notReleased : ¬(key = Scancode.lshiftReleased ∨ key = Scancode.rshiftReleased) := by
      rintro (rfl | rfl) <;> exact absurd low (by decide)
    rw [shiftAfter, if_neg notReleased, if_neg (not_or.mpr ⟨notLeft, notRight⟩)]
  have released : shiftAfter shift (key + 128) = shift := by
    have notReleased : ¬(key + 128 = Scancode.lshift + 128 ∨ key + 128 = Scancode.rshift + 128) := by
      simpa only [UInt8.add_left_inj] using not_or.mpr ⟨notLeft, notRight⟩
    have notShift : ¬(key + 128 = Scancode.lshift ∨ key + 128 = Scancode.rshift) := by
      rintro (same | same) <;> rw [same] at high
      · have : Scancode.lshift.toNat = 42 := rfl
        omega
      · have : Scancode.rshift.toNat = 54 := rfl
        omega
    exact (if_neg notReleased).trans (if_neg notShift)
  rw [decode, decode, pressed, coded, silent, released]
  rfl

private theorem decode_keystroke {code : Int} (typeable : Typeable code) (rest : List UInt8) :
    decode false (keystroke code ++ rest) = code :: decode false rest := by
  unfold keystroke
  cases plain : keyFor false code with
  | some key => exact decode_key plain rest
  | none =>
      cases shifted : keyFor true code with
      | some key => exact decode_key shifted (Scancode.lshiftReleased :: rest)
      | none => exact absurd typeable (not_or.mpr ⟨not_not_intro plain, not_not_intro shifted⟩)

/-- What is typed is what is read. -/
theorem decode_keystrokes {text : List Int} (typeable : ∀ code ∈ text, Typeable code) :
    decode false (keystrokes text) = text := by
  induction text with
  | nil => rfl
  | cons code text ih =>
      have later := ih fun code member => typeable code (List.mem_cons_of_mem _ member)
      calc decode false (keystrokes (code :: text))
          = decode false (keystroke code ++ keystrokes text) := rfl
        _ = code :: decode false (keystrokes text) := decode_keystroke (typeable code List.mem_cons_self) _
        _ = code :: text := by rw [later]

/-! The driver. -/

section

variable {driver : KbdDriver} {keyboard : Keyboard} {scancode : UInt8}

/-- The handler hands the code to `kbd_push`, or keeps the flag. -/
theorem kbdHandlerMain_eq (enabled : driver.enabled = true) (scancode : UInt8) :
    kbdHandlerMain driver (some scancode) =
      match codeOf driver.shiftHeld scancode with
      | some code => kbdPush driver code
      | none => { driver with shiftHeld := shiftAfter driver.shiftHeld scancode } := by
  unfold kbdHandlerMain kbdRead
  rw [if_pos enabled]
  simp only
  by_cases released : scancode = Scancode.lshiftReleased ∨ scancode = Scancode.rshiftReleased
  · have high : 128 ≤ scancode.toNat := by rcases released with rfl | rfl <;> decide
    rw [if_pos released, codeOf, if_pos (.inl high), shiftAfter, if_pos released]
  rw [if_neg released, shiftAfter, if_neg released, codeOf]
  by_cases high : 128 ≤ scancode.toNat
  · have notShift : ¬(scancode = Scancode.lshift ∨ scancode = Scancode.rshift) := by
      rintro (rfl | rfl) <;> exact absurd high (by decide)
    rw [if_pos high, if_pos (.inl high), if_neg notShift]
  by_cases isShift : scancode = Scancode.lshift ∨ scancode = Scancode.rshift
  · rw [if_neg high, if_pos isShift, if_pos (.inr isShift), if_pos isShift]
  rw [if_neg high, if_neg isShift, if_neg (not_or.mpr ⟨high, isShift⟩), if_neg isShift]
  cases specialCode scancode with
  | some code => rfl
  | none =>
      simp only
      generalize (if driver.shiftHeld = true then keyboardMapShift else keyboardMap) = map
      cases Decidable.em (map.getD scancode.toNat 0 = 0) with
      | inl silent => rw [if_pos silent, if_pos silent]
      | inr mapped => rw [if_neg mapped, if_neg mapped]

private theorem codeOf_shiftAfter {shift : Bool} {code : Int} (coded : codeOf shift scancode = some code) :
    shiftAfter shift scancode = shift := by
  unfold codeOf at coded
  split at coded
  · cases coded
  next pressed =>
  obtain ⟨low, notShift⟩ := not_or.mp pressed
  have notReleased : ¬(scancode = Scancode.lshiftReleased ∨ scancode = Scancode.rshiftReleased) := by
    rintro (rfl | rfl) <;> exact absurd low (by decide)
  exact (if_neg notReleased).trans (if_neg notShift)

private theorem kbdHandlerMain_shift (enabled : driver.enabled = true) (scancode : UInt8) :
    (kbdHandlerMain driver (some scancode)).shiftHeld = shiftAfter driver.shiftHeld scancode := by
  rw [kbdHandlerMain_eq enabled]
  cases coded : codeOf driver.shiftHeld scancode with
  | none => rfl
  | some code => exact (kbdPush_shiftHeld driver code).trans (codeOf_shiftAfter coded).symm

/-- The interrupt pushes the code of its scancode, if it has one. -/
theorem receive_eq (enabled : keyboard.driver.enabled = true) (scancode : UInt8) :
    receive keyboard scancode =
      match codeOf keyboard.driver.shiftHeld scancode with
      | some code => interrupt keyboard code
      | none => { keyboard with driver := kbdHandlerMain keyboard.driver (some scancode) } := by
  unfold receive
  rw [kbdHandlerMain_eq enabled]
  cases codeOf keyboard.driver.shiftHeld scancode with
  | some code => rfl
  | none =>
      simp only [Option.toList_none, List.append_nil, ite_self]

/-- The queue between two events of typing, with the codes sent so far. -/
structure Received (shift : Bool) (sent : List UInt8) (keyboard : Keyboard) : Prop where
  fifo : Fifo keyboard
  enabled : keyboard.driver.enabled = true
  flag : keyboard.driver.shiftHeld = sent.foldl shiftAfter shift
  accepted : keyboard.accepted.Sublist (decode shift sent)

private theorem consume_driver (keyboard : Keyboard) : (consume keyboard).driver.enabled = keyboard.driver.enabled ∧
    (consume keyboard).driver.shiftHeld = keyboard.driver.shiftHeld ∧
      (consume keyboard).accepted = keyboard.accepted := by
  unfold consume
  cases keyboard.consumer with
  | outside | read | advance | «return» => exact ⟨rfl, rfl, rfl⟩
  | test =>
      simp only
      split <;> exact ⟨rfl, rfl, rfl⟩

theorem Fifo.receive (fifo : Fifo keyboard) (enabled : keyboard.driver.enabled = true) (scancode : UInt8) :
    Fifo (receive keyboard scancode) := by
  rw [receive_eq enabled]
  cases coded : codeOf keyboard.driver.shiftHeld scancode with
  | some code => exact fifo.interrupt code
  | none =>
      simp only
      rw [kbdHandlerMain_eq enabled, coded]
      exact ⟨⟨fifo.inRange.read, fifo.inRange.write⟩, fifo.consumer, fifo.advances, fifo.accepted⟩

variable {shift : Bool} {sent : List UInt8}

private theorem decode_snoc (shift : Bool) (sent : List UInt8) (scancode : UInt8) :
    decode shift (sent ++ [scancode]) =
      decode shift sent ++ (codeOf (sent.foldl shiftAfter shift) scancode).toList := by
  rw [decode_append, decode, decode, List.append_nil]

theorem Received.receive (received : Received shift sent keyboard) (scancode : UInt8) :
    Received shift (sent ++ [scancode]) (receive keyboard scancode) := by
  refine ⟨received.fifo.receive received.enabled scancode, ?_, ?_, ?_⟩
  · exact (kbdHandlerMain_enabled _ _).trans received.enabled
  · rw [List.foldl_append, ← received.flag]
    exact kbdHandlerMain_shift received.enabled scancode
  · rw [decode_snoc, ← received.flag]
    unfold Drivers.receive
    dsimp only
    split
    · exact received.accepted.trans (List.sublist_append_left _ _)
    · exact received.accepted.append (List.Sublist.refl _)

theorem Received.consume (received : Received shift sent keyboard) : Received shift sent (consume keyboard) := by
  obtain ⟨enabled, flag, accepted⟩ := consume_driver keyboard
  exact ⟨received.fifo.consume, enabled.trans received.enabled, flag.trans received.flag,
    accepted ▸ received.accepted⟩

/-- With a free slot nothing is lost. -/
theorem Received.receive_all (received : Received shift sent keyboard) (all : keyboard.accepted = decode shift sent)
    (room : keyboard.driver.pending.length < 255) (scancode : UInt8) :
    (Drivers.receive keyboard scancode).accepted = decode shift (sent ++ [scancode]) := by
  have free : ¬(keyboard.driver.kbdBufWrite + 1) % kbdBufSize = keyboard.driver.kbdBufRead := by
    rw [received.fifo.inRange.full_iff]
    omega
  rw [decode_snoc, ← received.flag, ← all]
  exact if_neg free

private theorem typing_run {scancodes : List UInt8} {events : List (Option Unit)} {final : Configuration Keyboard UInt8}
    (start : Received shift [] keyboard) (run : Run TypingTurn ⟨scancodes, keyboard⟩ events final) :
    ∃ sent, scancodes = sent ++ final.left ∧ Received shift sent final.state := by
  induction run with
  | nil => exact ⟨[], rfl, start⟩
  | snoc _ turn ih =>
      obtain ⟨sent, split, received⟩ := ih
      cases turn with
      | program scancode left state => exact ⟨sent ++ [scancode], by rw [split]; simp, received.receive scancode⟩
      | around left step =>
          cases step
          exact ⟨sent, split, received.consume⟩

theorem roomy_run {scancodes : List UInt8} {events : List (Option Unit)} {final : Configuration Keyboard UInt8}
    (start : Received shift [] keyboard) (none : keyboard.accepted = [])
    (run : Run RoomyTurn ⟨scancodes, keyboard⟩ events final) :
    ∃ sent, scancodes = sent ++ final.left ∧ Received shift sent final.state ∧
      final.state.accepted = decode shift sent := by
  induction run with
  | nil => exact ⟨[], rfl, start, none⟩
  | snoc _ turn ih =>
      obtain ⟨sent, split, received, all⟩ := ih
      obtain ⟨turn, room⟩ := turn
      cases turn with
      | program scancode left state =>
          exact ⟨sent ++ [scancode], by rw [split]; simp, received.receive scancode,
            received.receive_all all (room rfl) scancode⟩
      | around left step =>
          cases step
          exact ⟨sent, split, received.consume, (consume_driver _).2.2.trans all⟩

end

/-! A text. -/

theorem startKeyboard_received : Received false [] startKeyboard :=
  ⟨⟨⟨by decide, by decide⟩, trivial, rfl, rfl⟩, rfl, rfl, List.Sublist.refl _⟩

/-- A text is typed on the keys, while `kbd_getchar` reads at its own pace. Codes arrive in the
order typed, and as long as the buffer is not full when a scancode arrives, all of them do. -/
theorem kbd_delivers_text (text : List Int) (typeable : ∀ code ∈ text, Typeable code) :
    (∀ events final, Run TypingTurn ⟨keystrokes text, startKeyboard⟩ events final →
      (final.state.returned ++ final.state.consumer.inHand ++ final.state.driver.pending).Sublist text) ∧
    ∀ events final, Run RoomyTurn ⟨keystrokes text, startKeyboard⟩ events final →
      final.state.returned ++ final.state.consumer.inHand ++ final.state.driver.pending <+: text ∧
        (final.left = [] →
          final.state.returned ++ final.state.consumer.inHand ++ final.state.driver.pending = text) := by
  have decoded := decode_keystrokes typeable
  constructor
  · intro events final run
    obtain ⟨sent, split, received⟩ := typing_run startKeyboard_received run
    have first := decode_prefix false sent final.left
    rw [← split, decoded] at first
    rw [← received.fifo.accepted]
    exact received.accepted.trans first.sublist
  · intro events final run
    obtain ⟨sent, split, received, all⟩ := roomy_run startKeyboard_received rfl run
    have first := decode_prefix false sent final.left
    rw [← split, decoded] at first
    rw [← received.fifo.accepted, all]
    refine ⟨first, fun ended => ?_⟩
    rw [ended, List.append_nil] at split
    rw [← split, decoded]

/-- `Hi`, for whose capital the Shift key goes down and up. -/
theorem kbd_delivers_text_hi : keystrokes [72, 105] = [0x2A, 0x24, 0xA4, 0xAA, 0x22, 0xA2] ∧
    ∀ events final, Run TypingTurn ⟨[0x2A, 0x24, 0xA4, 0xAA, 0x22, 0xA2], startKeyboard⟩ events final →
      (final.state.returned ++ final.state.consumer.inHand ++ final.state.driver.pending).Sublist [72, 105] := by
  have typed : keystrokes [72, 105] = [0x2A, 0x24, 0xA4, 0xAA, 0x22, 0xA2] := by decide
  refine ⟨typed, ?_⟩
  rw [← typed]
  exact (kbd_delivers_text [72, 105] (by decide)).1

/-! A text that fits into the buffer can be typed at once and then read. -/

section

variable {keyboard : Keyboard}

private theorem receive_pending (fifo : Fifo keyboard) (enabled : keyboard.driver.enabled = true)
    (room : keyboard.driver.pending.length < 255) (scancode : UInt8) :
    (receive keyboard scancode).driver.pending =
      keyboard.driver.pending ++ (codeOf keyboard.driver.shiftHeld scancode).toList := by
  have free : ¬(keyboard.driver.kbdBufWrite + 1) % kbdBufSize = keyboard.driver.kbdBufRead := by
    rw [fifo.inRange.full_iff]
    omega
  show (kbdHandlerMain keyboard.driver (some scancode)).pending = _
  rw [kbdHandlerMain_eq enabled]
  cases codeOf keyboard.driver.shiftHeld scancode with
  | some code => exact (kbdPush_of_room fifo.inRange free).2.1
  | none => exact (List.append_nil _).symm

private theorem sends_all (scancodes : List UInt8) (fifo : Fifo keyboard) (enabled : keyboard.driver.enabled = true)
    (room : keyboard.driver.pending.length + (decode keyboard.driver.shiftHeld scancodes).length < 255) :
    ∃ events final, Run RoomyTurn ⟨scancodes, keyboard⟩ events ⟨[], final⟩ ∧ Fifo final ∧
      final.consumer = keyboard.consumer := by
  induction scancodes generalizing keyboard with
  | nil => exact ⟨[], keyboard, .nil, fifo, rfl⟩
  | cons scancode rest ih =>
      rw [decode, List.length_append] at room
      have free : keyboard.driver.pending.length < 255 := by omega
      have pending := receive_pending fifo enabled free scancode
      have shift := kbdHandlerMain_shift enabled scancode
      have later : (receive keyboard scancode).driver.pending.length +
          (decode (receive keyboard scancode).driver.shiftHeld rest).length < 255 := by
        rw [pending, List.length_append, show (receive keyboard scancode).driver.shiftHeld = _ from shift]
        omega
      obtain ⟨events, final, run, fifoFinal, consumer⟩ := ih (fifo.receive enabled scancode)
        ((kbdHandlerMain_enabled _ _).trans enabled) later
      exact ⟨_, final, (Run.single ⟨.program scancode rest keyboard, fun _ => free⟩).append run, fifoFinal, consumer⟩

/-- The five statements of a call for which a code waits. -/
theorem consume_getchar (fifo : Fifo keyboard) (outside : keyboard.consumer = .outside)
    (filled : keyboard.driver.pending ≠ []) :
    (consume (consume (consume (consume (consume keyboard))))).consumer = .outside ∧
      (consume (consume (consume (consume (consume keyboard))))).driver.pending = keyboard.driver.pending.tail := by
  have inRange := fifo.inRange
  have different : keyboard.driver.kbdBufRead ≠ keyboard.driver.kbdBufWrite :=
    fun same => filled (inRange.pending_nil_iff.mpr same)
  have pending : keyboard.driver.pending = _ := Ring.items_read inRange.read inRange.write different
  rw [pending]
  obtain ⟨driver, consumer, accepted, advances, returned⟩ := keyboard
  simp only at outside different
  subst outside
  simp [consume, different, KbdDriver.pending]

private theorem reads_all (left : List UInt8) (fifo : Fifo keyboard) (outside : keyboard.consumer = .outside) :
    ∃ events final, Run RoomyTurn ⟨left, keyboard⟩ events ⟨left, final⟩ ∧ final.consumer = .outside ∧
      final.driver.pending = [] := by
  generalize waiting : keyboard.driver.pending = codes
  induction codes generalizing keyboard with
  | nil => exact ⟨[], keyboard, .nil, outside, waiting⟩
  | cons code codes ih =>
      have statement (before : Keyboard) : Run RoomyTurn ⟨left, before⟩ [some ()] ⟨left, consume before⟩ :=
        .single ⟨.around left rfl, fun none => by cases none⟩
      obtain ⟨again, pending⟩ := consume_getchar fifo outside (by rw [waiting]; exact List.cons_ne_nil _ _)
      rw [waiting] at pending
      obtain ⟨events, final, run, done, empty⟩ := ih fifo.consume.consume.consume.consume.consume again pending
      have call := (statement keyboard).append ((statement _).append ((statement _).append
        ((statement _).append (statement _))))
      exact ⟨_, final, call.append run, done, empty⟩

theorem typing_completes {text : List Int} (typeable : ∀ code ∈ text, Typeable code) (short : text.length < 255) :
    ∃ events final, Run RoomyTurn ⟨keystrokes text, startKeyboard⟩ events ⟨[], final⟩ ∧ final.consumer = .outside ∧
      final.driver.pending = [] := by
  have fits : startKeyboard.driver.pending.length +
      (decode startKeyboard.driver.shiftHeld (keystrokes text)).length < 255 := by
    rw [show decode startKeyboard.driver.shiftHeld (keystrokes text) = text from decode_keystrokes typeable]
    exact (Nat.zero_add _).symm ▸ short
  obtain ⟨sending, middle, sent, fifo, waits⟩ :=
    sends_all (keystrokes text) startKeyboard_received.fifo rfl fits
  obtain ⟨reading, final, read, done, empty⟩ := reads_all [] fifo (waits.trans rfl)
  exact ⟨_, final, sent.append read, done, empty⟩

end

/-- Every printable character has a key, and so have the newline and the backspace. -/
theorem printable_typeable (code : Nat) (printable : 32 ≤ code ∧ code < 127 ∨ code = 8 ∨ code = 10) :
    Typeable code := by
  have all : ∀ index < 127, 32 ≤ index ∧ index < 127 ∨ index = 8 ∨ index = 10 → Typeable (index : Nat) := by
    decide +kernel
  exact all code (by omega) printable

end ShedKernel.Drivers
