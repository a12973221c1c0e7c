import ShedKernel.Console.Format

/-! What the two formatters make of a well-formed format and its arguments, and when
they make the same text of it. -/

set_option autoImplicit false

namespace ShedKernel.Console

open Foundation

/-! Well-formed formats. -/

/-- A precision and the argument that `*` takes. -/
inductive Precision where
  | absent
  | digits (written : List UInt8) (decimal : ∀ c ∈ written, isDigit c = true)
  | star (value : UInt32)

inductive NumberKind where
  | decimal
  | octal
  | hex

/-- A part of a format with the arguments it takes. -/
inductive Piece where
  | literal (c : UInt8) (plain : c ≠ 0 ∧ c ≠ byteOf '%')
  | character (precision : Precision) (value : UInt32)
  | number (precision : Precision) (kind : NumberKind) (value : UInt32)
  | string (precision : Precision) (text : CString)
  | percent (precision : Precision)

namespace Precision

def spell : Precision → List UInt8
  | absent => []
  | digits written _ => byteOf '.' :: written
  | star _ => [byteOf '.', byteOf '*']

def args : Precision → List VarArg
  | absent => []
  | digits _ _ => []
  | star value => [.word value]

/-- Negative when the precision is absent. -/
def value : Precision → Int
  | absent => -1
  | digits written _ => (precisionDigits 0 written).1
  | star value => int32 value.toNat

end Precision

def NumberKind.letter : NumberKind → UInt8
  | decimal => byteOf 'd'
  | octal => byteOf 'o'
  | hex => byteOf 'x'

def NumberKind.text (kind : NumberKind) (value : UInt32) : List UInt8 :=
  match kind with
  | decimal =>
      if 2147483648 ≤ value.toNat then byteOf '-' :: itoaInto (sub32 0 value.toNat) 10
      else itoaInto value.toNat 10
  | octal => itoaInto value.toNat 8
  | hex => itoaInto value.toNat 16

namespace Piece

def spell : Piece → List UInt8
  | literal c _ => [c]
  | character precision _ => byteOf '%' :: (precision.spell ++ [byteOf 'c'])
  | number precision kind _ => byteOf '%' :: (precision.spell ++ [kind.letter])
  | string precision _ => byteOf '%' :: (precision.spell ++ [byteOf 's'])
  | percent precision => byteOf '%' :: (precision.spell ++ [byteOf '%'])

def args : Piece → List VarArg
  | literal _ _ => []
  | character precision value => precision.args ++ [.word value]
  | number precision _ value => precision.args ++ [.word value]
  | string precision text => precision.args ++ [.string text]
  | percent precision => precision.args

/-- What `kprintf` does for the piece. -/
def emits : Piece → List Emit
  | literal c _ => [if c = newlineByte then .newline else .put c]
  | character _ value => [.put (UInt8.ofNat value.toNat)]
  | number _ kind value => puts (kind.text value)
  | string _ text => text.bytes.map fun c => if c = newlineByte then .newline else .put c
  | percent _ => [.put (byteOf '%')]

/-- What `ksprintf` stores for the piece. -/
def stored : Piece → List UInt8
  | literal c _ => [c]
  | character _ value => [UInt8.ofNat value.toNat]
  | number _ kind value => kind.text value
  | string precision text => copyString precision.value text.bytes
  | percent _ => [byteOf '%']

/-- No string is longer than its precision. -/
def Honoured : Piece → Prop
  | string precision text => 0 ≤ precision.value → (text.bytes.length : Int) ≤ precision.value
  | _ => True

end Piece

def spell (pieces : List Piece) : List UInt8 := pieces.flatMap Piece.spell

def argsOf (pieces : List Piece) : List VarArg := pieces.flatMap Piece.args

/-! Reading a precision back. -/

private theorem precisionDigits_append {digits : List UInt8} (decimal : ∀ c ∈ digits, isDigit c = true)
    {letter : UInt8} (final : isDigit letter = false) (precision : Int) (rest : List UInt8) :
    precisionDigits precision (digits ++ letter :: rest) =
      ((precisionDigits precision digits).1, letter :: rest) := by
  induction digits generalizing precision with
  | nil => simp [precisionDigits, final]
  | cons c digits ih =>
      have digit := decimal c (by simp)
      have others : ∀ c ∈ digits, isDigit c = true := by
        intro c member
        exact decimal c (by simp [member])
      simp only [List.cons_append, precisionDigits, digit, if_true]
      exact ih others _

/-- A letter that no precision reads. -/
structure IsLetter (letter : UInt8) : Prop where
  notDot : letter ≠ byteOf '.'
  notStar : letter ≠ byteOf '*'
  notDigit : isDigit letter = false

private theorem isLetter_character : IsLetter (byteOf 'c') := ⟨by decide, by decide, by decide⟩

private theorem isLetter_string : IsLetter (byteOf 's') := ⟨by decide, by decide, by decide⟩

private theorem isLetter_percent : IsLetter (byteOf '%') := ⟨by decide, by decide, by decide⟩

private theorem isLetter_number (kind : NumberKind) : IsLetter kind.letter := by
  cases kind with
  | decimal => exact ⟨by decide, by decide, by decide⟩
  | octal => exact ⟨by decide, by decide, by decide⟩
  | hex => exact ⟨by decide, by decide, by decide⟩

private theorem readPrecision_spell (precision : Precision) {letter : UInt8} (isLetter : IsLetter letter)
    (rest : List UInt8) (args : List VarArg) :
    readPrecision (precision.spell ++ letter :: rest) (precision.args ++ args) =
      some (precision.value, letter :: rest, args) := by
  cases precision with
  | absent => simp [Precision.spell, Precision.args, Precision.value, readPrecision, isLetter.notDot]
  | star value =>
      simp [Precision.spell, Precision.args, Precision.value, readPrecision, vaWord]
  | digits written decimal =>
      cases written with
      | nil =>
          simp [Precision.spell, Precision.args, Precision.value, readPrecision, isLetter.notStar,
            precisionDigits, isLetter.notDigit]
      | cons c written =>
          have digit := decimal c (by simp)
          have notStar : c ≠ byteOf '*' := by
            rintro rfl
            exact absurd digit (by decide)
          have read := precisionDigits_append decimal isLetter.notDigit 0 rest
          simp only [List.cons_append] at read
          simp [Precision.spell, Precision.args, Precision.value, readPrecision, notStar, read]

/-! One piece of the format. -/

private theorem kprintfConversion_number (kind : NumberKind) (value : UInt32) (args : List VarArg) :
    kprintfConversion kind.letter (.word value :: args) = some (puts (kind.text value), args) := by
  cases kind with
  | decimal =>
      by_cases negative : 2147483648 ≤ value.toNat
      · simp [kprintfConversion, NumberKind.letter, NumberKind.text, vaWord, negative, puts, byteOf]
      · simp [kprintfConversion, NumberKind.letter, NumberKind.text, vaWord, negative, byteOf]
  | octal => simp [kprintfConversion, NumberKind.letter, NumberKind.text, vaWord, byteOf]
  | hex => simp [kprintfConversion, NumberKind.letter, NumberKind.text, vaWord, byteOf]

private theorem ksprintfConversion_number (precision : Int) (kind : NumberKind) (value : UInt32)
    (args : List VarArg) :
    ksprintfConversion precision kind.letter (.word value :: args) =
      some (kind.text value, args) := by
  cases kind with
  | decimal =>
      by_cases negative : 2147483648 ≤ value.toNat
      · simp [ksprintfConversion, NumberKind.letter, NumberKind.text, vaWord, negative, byteOf]
      · simp [ksprintfConversion, NumberKind.letter, NumberKind.text, vaWord, negative, byteOf]
  | octal => simp [ksprintfConversion, NumberKind.letter, NumberKind.text, vaWord, byteOf]
  | hex => simp [ksprintfConversion, NumberKind.letter, NumberKind.text, vaWord, byteOf]

section

variable (turns : Nat) (rest : List UInt8) (args : List VarArg)

private theorem kprintfLoop_conversion (precision : Precision) {letter : UInt8}
    (isLetter : IsLetter letter) {taken : List VarArg} {emits : List Emit}
    (converted : kprintfConversion letter (taken ++ args) = some (emits, args)) :
    kprintfLoop (turns + 1) (byteOf '%' :: (precision.spell ++ letter :: rest))
        (precision.args ++ (taken ++ args)) =
      (kprintfLoop turns rest args).map (emits ++ ·) := by
  have notNewline : byteOf '%' ≠ newlineByte := by decide
  simp only [kprintfLoop, notNewline, if_false, ne_eq, not_true_eq_false,
    readPrecision_spell precision isLetter, Option.bind_eq_bind, Option.bind_some, converted]

private theorem ksprintfLoop_conversion (precision : Precision) {letter : UInt8}
    (isLetter : IsLetter letter) {taken : List VarArg} {written : List UInt8}
    (converted : ksprintfConversion precision.value letter (taken ++ args) = some (written, args)) :
    ksprintfLoop (turns + 1) (byteOf '%' :: (precision.spell ++ letter :: rest))
        (precision.args ++ (taken ++ args)) =
      (ksprintfLoop turns rest args).map (written ++ ·) := by
  have notNewline : byteOf '%' ≠ newlineByte := by decide
  simp only [ksprintfLoop, notNewline, if_false, ne_eq, not_true_eq_false,
    readPrecision_spell precision isLetter, Option.bind_eq_bind, Option.bind_some, converted]

private theorem kprintfLoop_piece (piece : Piece) :
    kprintfLoop (turns + 1) (piece.spell ++ rest) (piece.args ++ args) =
      (kprintfLoop turns rest args).map (piece.emits ++ ·) := by
  cases piece with
  | literal c plain =>
      by_cases newline : c = newlineByte
      · simp [Piece.spell, Piece.args, Piece.emits, kprintfLoop, newline]
      · simp [Piece.spell, Piece.args, Piece.emits, kprintfLoop, newline, plain.2]
  | character precision value =>
      have converted : kprintfConversion (byteOf 'c') ([.word value] ++ args) =
          some (Piece.emits (.character precision value), args) := rfl
      simpa [Piece.spell, Piece.args] using
        kprintfLoop_conversion turns rest args precision isLetter_character converted
  | number precision kind value =>
      have converted : kprintfConversion kind.letter ([.word value] ++ args) = _ :=
        kprintfConversion_number kind value args
      simpa [Piece.spell, Piece.args, Piece.emits] using
        kprintfLoop_conversion turns rest args precision (isLetter_number kind)
          converted
  | string precision text =>
      have converted : kprintfConversion (byteOf 's') ([.string text] ++ args) =
          some (Piece.emits (.string precision text), args) := rfl
      simpa [Piece.spell, Piece.args] using
        kprintfLoop_conversion turns rest args precision isLetter_string converted
  | percent precision =>
      have converted : kprintfConversion (byteOf '%') ([] ++ args) =
          some (Piece.emits (.percent precision), args) := rfl
      simpa [Piece.spell, Piece.args] using
        kprintfLoop_conversion turns rest args precision isLetter_percent converted

private theorem ksprintfLoop_piece (piece : Piece) :
    ksprintfLoop (turns + 1) (piece.spell ++ rest) (piece.args ++ args) =
      (ksprintfLoop turns rest args).map (piece.stored ++ ·) := by
  cases piece with
  | literal c plain =>
      by_cases newline : c = newlineByte
      · simp [Piece.spell, Piece.args, Piece.stored, ksprintfLoop, newline]
      · simp [Piece.spell, Piece.args, Piece.stored, ksprintfLoop, newline, plain.2]
  | character precision value =>
      have converted : ksprintfConversion precision.value (byteOf 'c') ([.word value] ++ args) =
          some (Piece.stored (.character precision value), args) := rfl
      simpa [Piece.spell, Piece.args] using
        ksprintfLoop_conversion turns rest args precision isLetter_character converted
  | number precision kind value =>
      have converted : ksprintfConversion precision.value kind.letter ([.word value] ++ args) = _ :=
        ksprintfConversion_number precision.value kind value args
      simpa [Piece.spell, Piece.args, Piece.stored] using
        ksprintfLoop_conversion turns rest args precision (isLetter_number kind)
          converted
  | string precision text =>
      have converted : ksprintfConversion precision.value (byteOf 's') ([.string text] ++ args) =
          some (Piece.stored (.string precision text), args) := rfl
      simpa [Piece.spell, Piece.args] using
        ksprintfLoop_conversion turns rest args precision isLetter_string converted
  | percent precision =>
      have converted : ksprintfConversion precision.value (byteOf '%') ([] ++ args) =
          some (Piece.stored (.percent precision), args) := rfl
      simpa [Piece.spell, Piece.args] using
        ksprintfLoop_conversion turns rest args precision isLetter_percent converted

end

/-! A whole format. Every piece takes one turn, and is at least one byte long. -/

private theorem Piece.spell_length_pos (piece : Piece) : 0 < piece.spell.length := by
  cases piece <;> simp [Piece.spell]

private theorem loop_pieces {Effect : Type} {loop : Nat → List UInt8 → List VarArg → Option (List Effect)}
    {effects : Piece → List Effect} (ends : ∀ turns, loop turns [] [] = some [])
    (step : ∀ turns rest args piece, loop (turns + 1) (Piece.spell piece ++ rest) (piece.args ++ args) =
      (loop turns rest args).map (effects piece ++ ·))
    (pieces : List Piece) (turns : Nat) (enough : (spell pieces).length ≤ turns) :
    loop turns (spell pieces) (argsOf pieces) = some (pieces.flatMap effects) := by
  induction pieces generalizing turns with
  | nil => exact ends turns
  | cons piece pieces ih =>
      simp only [spell, argsOf, List.flatMap_cons, List.length_append] at enough ⊢
      have one := piece.spell_length_pos
      cases turns with
      | zero => omega
      | succ turns =>
          have enough : (spell pieces).length ≤ turns := by
            simp only [spell]
            omega
          have rest := ih turns enough
          simp only [spell, argsOf] at rest
          rw [step, rest]
          rfl

/-- Both formatters stay inside a well-formed format and its arguments. -/
theorem kprintfEmits_pieces (pieces : List Piece) :
    kprintfEmits (spell pieces) (argsOf pieces) = some (pieces.flatMap Piece.emits) :=
  loop_pieces (fun turns => by cases turns <;> rfl) kprintfLoop_piece pieces _ (Nat.le_refl _)

theorem ksprintf_pieces (pieces : List Piece) :
    ksprintf (spell pieces) (argsOf pieces) = some (pieces.flatMap Piece.stored) :=
  loop_pieces (fun turns => by cases turns <;> rfl) ksprintfLoop_piece pieces _ (Nat.le_refl _)

/-! The text on the screen. -/

/-- The characters of a store; a new line counts as one. -/
def Output.text : Output → List UInt8
  | .character _ value => [value]
  | .attribute _ _ => []
  | .newline => [newlineByte]

def textOf (output : List Output) : List UInt8 := output.flatMap Output.text

def Emit.text : Emit → UInt8
  | .put c => c
  | .newline => newlineByte

/-- One emission adds its own character to the text. -/
theorem emit_text (console : TextScreen) (step : Emit) :
    ∃ out, (emit console step).output = console.output ++ out ∧ textOf out = [step.text] := by
  cases step with
  | put c =>
      refine ⟨[.character console.currentLoc c,
        .attribute (add32 console.currentLoc 1) lightGrey], ?_, rfl⟩
      simp [emit, put, TextScreen.storeCharacter, TextScreen.storeAttribute]
  | newline => exact ⟨[.newline], rfl, rfl⟩

theorem emits_text (console : TextScreen) (emits : List Emit) :
    ∃ out, (emits.foldl emit console).output = console.output ++ out ∧
      textOf out = emits.map Emit.text := by
  induction emits generalizing console with
  | nil => exact ⟨[], by simp, rfl⟩
  | cons step emits ih =>
      obtain ⟨first, firstOutput, firstText⟩ := emit_text console step
      obtain ⟨rest, restOutput, restText⟩ := ih (emit console step)
      refine ⟨first ++ rest, ?_, ?_⟩
      · rw [List.foldl_cons, restOutput, firstOutput, List.append_assoc]
      · simp only [textOf] at firstText restText
        simp [textOf, firstText, restText]

/-- What `kprintf` shows for the piece. -/
def Piece.shown (piece : Piece) : List UInt8 := piece.emits.map Emit.text

private theorem Emit.text_character (c : UInt8) :
    Emit.text (if c = newlineByte then .newline else .put c) = c := by
  by_cases newline : c = newlineByte
  · simp [newline, Emit.text]
  · simp [newline, Emit.text]

private theorem puts_text (bytes : List UInt8) : (puts bytes).map Emit.text = bytes := by
  simp [puts, Function.comp_def, Emit.text]

private theorem Piece.shown_string (precision : Precision) (text : CString) :
    (Piece.string precision text).shown = text.bytes := by
  simp [Piece.shown, Piece.emits, Function.comp_def, Emit.text_character]

/-- The precision of a string is the only difference. -/
theorem Piece.shown_eq_stored_of_plain {piece : Piece}
    (plain : ∀ precision text, piece ≠ .string precision text) : piece.shown = piece.stored := by
  cases piece with
  | literal c plain => simp [Piece.shown, Piece.emits, Piece.stored, Emit.text_character]
  | character precision value => rfl
  | number precision kind value => exact puts_text (kind.text value)
  | string precision text => exact absurd rfl (plain precision text)
  | percent precision => rfl

private theorem copyString_length_le (precision : Int) (bytes : List UInt8) :
    (copyString precision bytes).length ≤ bytes.length := by
  unfold copyString
  split
  · exact List.length_take_le' ..
  · exact Nat.le_refl _

private theorem copyString_eq_iff (precision : Int) (bytes : List UInt8) :
    bytes = copyString precision bytes ↔ (0 ≤ precision → (bytes.length : Int) ≤ precision) := by
  unfold copyString
  by_cases given : 0 ≤ precision
  · rw [if_pos given]
    constructor
    · intro kept _
      have lengths := congrArg List.length kept
      rw [List.length_take] at lengths
      omega
    · intro fits
      have fits := fits given
      exact (List.take_of_length_le (by omega)).symm
  · simp [given]

private theorem Piece.stored_length_le (piece : Piece) : piece.stored.length ≤ piece.shown.length := by
  cases piece with
  | string precision text =>
      rw [Piece.shown_string]
      exact copyString_length_le precision.value text.bytes
  | literal | character | number | percent =>
      exact Nat.le_of_eq (congrArg List.length (Piece.shown_eq_stored_of_plain (by simp)).symm)

private theorem Piece.shown_eq_stored_iff (piece : Piece) :
    piece.shown = piece.stored ↔ piece.Honoured := by
  cases piece with
  | string precision text =>
      rw [Piece.shown_string]
      exact copyString_eq_iff precision.value text.bytes
  | literal | character | number | percent =>
      rw [Piece.shown_eq_stored_of_plain (by simp)]
      simp [Piece.Honoured]

private theorem stored_length_le (pieces : List Piece) :
    (pieces.flatMap Piece.stored).length ≤ (pieces.flatMap Piece.shown).length := by
  induction pieces with
  | nil => simp
  | cons piece pieces ih =>
      have here := piece.stored_length_le
      simp only [List.flatMap_cons, List.length_append]
      omega

/-- No later piece can make up for what a precision cuts off. -/
theorem shown_eq_stored_iff (pieces : List Piece) :
    pieces.flatMap Piece.shown = pieces.flatMap Piece.stored ↔
      ∀ piece ∈ pieces, piece.Honoured := by
  induction pieces with
  | nil => simp
  | cons piece pieces ih =>
      rw [List.forall_mem_cons, ← ih, ← piece.shown_eq_stored_iff]
      simp only [List.flatMap_cons]
      constructor
      · intro same
        have here := piece.stored_length_le
        have later := stored_length_le pieces
        have lengths := congrArg List.length same
        simp only [List.length_append] at lengths
        exact List.append_inj same (by omega)
      · rintro ⟨here, later⟩
        rw [here, later]

/-- The screen shows what the buffer receives exactly when no string is longer than its
precision. -/
theorem kprintf_shows_ksprintf_iff (console : TextScreen) (pieces : List Piece) :
    ∃ next out text,
      kprintf console (spell pieces) (argsOf pieces) = some next ∧
      next.output = console.output ++ out ∧
      ksprintf (spell pieces) (argsOf pieces) = some text ∧
      (textOf out = text ↔ ∀ piece ∈ pieces, piece.Honoured) := by
  obtain ⟨out, output, text⟩ := emits_text console (pieces.flatMap Piece.emits)
  have shown : textOf out = pieces.flatMap Piece.shown := by
    rw [text, List.map_flatMap]
    rfl
  refine ⟨_, out, _, ?_, output, ksprintf_pieces pieces, ?_⟩
  · rw [kprintf, kprintfEmits_pieces]
    rfl
  · rw [shown]
    exact shown_eq_stored_iff pieces

def cutPieces : List Piece :=
  [.string (.digits [byteOf '1'] (List.forall_mem_singleton.mpr (by decide))) ⟨[byteOf 'a', byteOf 'b'], by decide⟩]

/-- `"%.1s"` with `"ab"`: the buffer receives one character, the screen shows both. -/
theorem kprintf_ignores_precision :
    spell cutPieces = [byteOf '%', byteOf '.', byteOf '1', byteOf 's'] ∧
    (kprintf ⟨fun _ => 0, 0, []⟩ (spell cutPieces) (argsOf cutPieces)).map (textOf ·.output) =
      some [byteOf 'a', byteOf 'b'] ∧
    ksprintf (spell cutPieces) (argsOf cutPieces) = some [byteOf 'a'] := by
  refine ⟨?_, ?_, ?_⟩ <;> decide

end ShedKernel.Console
