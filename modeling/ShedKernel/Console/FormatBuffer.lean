import ShedKernel.Console.FormatProperties
import ShedKernel.Foundation.Numeral

/-! `itoa_into` and `ksprintf` on the memory they write to: what is left in the buffers,
and what is returned. The strings and the format lie outside the buffers. -/

set_option autoImplicit false

namespace ShedKernel.Console

open Foundation

/-! The digits, backwards from the end of their buffer. -/

/-- The `do` loop with `p` bytes in front of `p`. One turn more would leave the buffer. -/
def itoaTurns (base : Nat) : Nat → Nat → Memory → Option (Nat × Memory)
  | 0, _, _ => none
  | p + 1, num, buf =>
      let buf := buf.storeByte p (digitByte (num % base))
      if num / base = 0 then some (p, buf) else itoaTurns base p (num / base) buf

def itoaIntoBuffer (num base : Nat) (buf : Memory) (bufEnd : Nat) : Option (Nat × Memory) :=
  itoaTurns base bufEnd num (buf.storeByte bufEnd 0)

/-! `ksprintf`. -/

/-- The memory, `out`, and the digits left in `tmp`. -/
structure Sink where
  memory : Memory
  out : Nat
  tmp : Memory

namespace Sink

/-- `*out++ = c` -/
def put (sink : Sink) (c : UInt8) : Sink :=
  { sink with memory := sink.memory.storeByte sink.out c, out := sink.out + 1 }

def putAll (sink : Sink) (bytes : List UInt8) : Sink := bytes.foldl put sink

/-- `while (*s) *out++ = *s++`, inside the bytes of `tmp` that are left. -/
def putDigits (sink : Sink) (s : Nat) : Nat → Option Sink
  | 0 => none
  | room + 1 =>
      if sink.tmp s = 0 then some sink else putDigits (sink.put (sink.tmp s)) (s + 1) room

def putNumber (sink : Sink) (num base : Nat) : Option Sink := do
  let (s, tmp) ← itoaIntoBuffer num base sink.tmp 49
  putDigits { sink with tmp := tmp } s (50 - s)

/-- `%d`: the word is the `int` that is negative from 2^31 on. -/
def putSigned (sink : Sink) (i : Nat) : Option Sink :=
  if 2147483648 ≤ i then (sink.put (byteOf '-')).putNumber (sub32 0 i) 10 else sink.putNumber i 10

/-- The `switch` of `ksprintf`. -/
def putConversion (sink : Sink) (precision : Int) (conversion : UInt8) (args : List VarArg) :
    Option (Sink × List VarArg) :=
  if conversion = byteOf 'c' then do
    let (i, args) ← vaWord args
    pure (sink.put (UInt8.ofNat i), args)
  else if conversion = byteOf 'd' then do
    let (i, args) ← vaWord args
    let sink ← sink.putSigned i
    pure (sink, args)
  else if conversion = byteOf 'o' then do
    let (i, args) ← vaWord args
    let sink ← sink.putNumber i 8
    pure (sink, args)
  else if conversion = byteOf 's' then do
    let (s, args) ← vaString args
    pure (sink.putAll (copyString precision s), args)
  else if conversion = byteOf 'x' then do
    let (i, args) ← vaWord args
    let sink ← sink.putNumber i 16
    pure (sink, args)
  else if conversion = byteOf '%' then pure (sink.put (byteOf '%'), args)
  else pure (sink, args)

def putFormat : Nat → List UInt8 → List VarArg → Sink → Option Sink
  | _, [], _, sink => some sink
  | 0, _, _, _ => none
  | turns + 1, c :: rest, args, sink =>
      if c = newlineByte then putFormat turns rest args (sink.put newlineByte)
      else if c ≠ byteOf '%' then putFormat turns rest args (sink.put c)
      else do
        let (precision, rest, args) ← readPrecision rest args
        match rest with
        | [] => none
        | conversion :: rest =>
            let (sink, args) ← sink.putConversion precision conversion args
            putFormat turns rest args sink

end Sink

/-- What is returned, and the memory afterwards. `tmp` holds anything before the call. -/
def ksprintfInto (memory : Memory) (buf : Nat) (tmp : Memory) (format : List UInt8)
    (args : List VarArg) : Option (Int × Memory) := do
  let sink ← Sink.putFormat format.length format args ⟨memory, buf, tmp⟩
  pure (int32 ((sink.out : Int) - buf), sink.memory.storeByte sink.out 0)

/-! What the digits spell. -/

/-- The digits up to sixteen as they are written, whatever `itoa_into` makes of them. -/
def digitGlyph (digit : Nat) : UInt8 :=
  byteOf (['0', '1', '2', '3', '4', '5', '6', '7', '8', '9', 'A', 'B', 'C', 'D', 'E', 'F'].getD digit '?')

theorem digitByte_eq : ∀ digit < 16, digitByte digit = digitGlyph digit := by decide

def itoaAlphabet (base : Nat) (valid : 1 < base ∧ base ≤ 16) : Alphabet UInt8 where
  base := base
  glyph := digitGlyph
  minus := byteOf '-'
  base_gt := valid.1
  distinct := by
    intro first second firstSmall secondSmall same
    have apart : ∀ first < 16, ∀ second < 16, digitGlyph first = digitGlyph second → first = second := by decide
    exact apart first (by omega) second (by omega) same
  unsigned := by
    intro digit small
    have apart : ∀ digit < 16, digitGlyph digit ≠ byteOf '-' := by decide
    exact apart digit (by omega)

private theorem room_pos {quotient room : Nat} (small : quotient < 2 ^ room) (more : quotient ≠ 0) : 0 < room := by
  cases room with
  | zero => exact absurd (Nat.lt_one_iff.mp small) more
  | succ room => exact Nat.succ_pos room

section

variable {base : Nat} (valid : 1 < base ∧ base ≤ 16)
include valid

private theorem digitByte_ne_zero {digit : Nat} (small : digit < base) : digitByte digit ≠ 0 := by
  have nonzero : ∀ digit < 16, digitByte digit ≠ 0 := by decide
  exact nonzero digit (by omega)

/-- A turn at least halves the number, and so leaves room for the turns after it. -/
theorem quotient_lt {num room : Nat} (small : num < 2 ^ (room + 1)) : num / base < 2 ^ room := by
  have half : num / base ≤ num / 2 := Nat.div_le_div_left valid.1 (by omega)
  rw [pow_succ] at small
  omega

private theorem digitByte_mod (num : Nat) : digitByte (num % base) = digitGlyph (num % base) := by
  have digit : num % base < base := Nat.mod_lt num (by omega)
  exact digitByte_eq _ (by omega)

private theorem itoaLoop_eq {room num : Nat} (small : num < 2 ^ room) (positive : 0 < room) (written : List UInt8) :
    itoaLoop base room num written = (itoaAlphabet base valid).magnitude num ++ written := by
  induction room generalizing num written with
  | zero => omega
  | succ room ih =>
      have next := quotient_lt valid small
      rw [itoaLoop]
      split
      · next done =>
          have single : num < base := (Nat.div_eq_zero_iff_lt (by omega)).mp done
          rw [(itoaAlphabet base valid).magnitude_of_lt single, digitByte_mod valid, Nat.mod_eq_of_lt single]
          rfl
      · next more =>
          rw [ih next (room_pos next more), (itoaAlphabet base valid).magnitude_div more, List.append_assoc,
            digitByte_mod valid]
          rfl

theorem itoaTurns_spec {p num : Nat} (small : num < 2 ^ p) (positive : 0 < p) {buf : Memory}
    {written : List UInt8} (holds : buf.HoldsString p written) :
    ∃ s after, itoaTurns base p num buf = some (s, after) ∧ s < p ∧
      s + (itoaLoop base p num written).length = p + written.length ∧
      after.HoldsString s (itoaLoop base p num written) ∧
      ∀ other, other < s ∨ p ≤ other → after other = buf other := by
  induction p generalizing num buf written with
  | zero => omega
  | succ p ih =>
      have next := quotient_lt valid small
      have digit : num % base < base := Nat.mod_lt _ (by omega)
      have stored : (buf.storeByte p (digitByte (num % base))).HoldsString p
          (digitByte (num % base) :: written) := by
        refine ⟨Memory.storeByte_self .., digitByte_ne_zero valid digit, holds.congr ?_⟩
        intro other after _
        exact Memory.storeByte_of_ne (by omega)
      rw [itoaTurns, itoaLoop]
      split
      · next done =>
          refine ⟨p, _, rfl, Nat.lt_succ_self p, by simp [Nat.add_comm, Nat.add_left_comm], stored, ?_⟩
          intro other outside
          exact Memory.storeByte_of_ne (by omega)
      · next more =>
          obtain ⟨s, after, ran, inside, length, spelled, kept⟩ := ih next (room_pos next more) stored
          rw [List.length_cons] at length
          refine ⟨s, after, ran, by omega, by omega, spelled, ?_⟩
          intro other outside
          rw [kept other (by omega), Memory.storeByte_of_ne (by omega)]

private theorem itoaInto_eq {num : Nat} (small : num < 4294967296) :
    itoaInto num base = (itoaAlphabet base valid).magnitude num := by
  have enough : num < 2 ^ 49 := Nat.lt_trans small (by decide)
  rw [itoaInto, itoaLoop_eq valid enough (by omega), List.append_nil]

/-- The 50 bytes are enough in every base; the digits end in front of the last of them. -/
theorem itoaIntoBuffer_spec {num : Nat} (small : num < 4294967296) (buf : Memory) :
    ∃ s after, itoaIntoBuffer num base buf 49 = some (s, after) ∧
      s + ((itoaAlphabet base valid).magnitude num).length = 49 ∧
      after.HoldsString s ((itoaAlphabet base valid).magnitude num) ∧
      ∀ other, other < s ∨ 49 < other → after other = buf other := by
  have enough : num < 2 ^ 49 := Nat.lt_trans small (by decide)
  have ended : (buf.storeByte 49 0).HoldsString 49 [] := Memory.storeByte_self ..
  obtain ⟨s, after, ran, inside, length, spelled, kept⟩ := itoaTurns_spec valid enough (by omega) ended
  rw [itoaLoop_eq valid enough (by omega), List.append_nil] at length spelled
  refine ⟨s, after, ran, length, spelled, ?_⟩
  intro other outside
  rw [kept other (by omega), Memory.storeByte_of_ne (by omega)]

end

/-! What a sink has received. -/

namespace Sink

/-- `after` has received `written` behind what `before` had. -/
structure Appends (before : Sink) (written : List UInt8) (after : Sink) : Prop where
  memory : after.memory = before.memory.storeBytes before.out written
  out : after.out = before.out + written.length

namespace Appends

theorem refl (sink : Sink) : sink.Appends [] sink := ⟨rfl, rfl⟩

theorem trans {first second third : Sink} {early late : List UInt8}
    (former : first.Appends early second) (latter : second.Appends late third) :
    first.Appends (early ++ late) third := by
  constructor
  · rw [latter.memory, former.memory, former.out, Memory.storeBytes_append]
  · rw [latter.out, former.out, List.length_append, Nat.add_assoc]

theorem put (sink : Sink) (c : UInt8) : sink.Appends [c] (sink.put c) := ⟨rfl, rfl⟩

private theorem putAll (sink : Sink) (bytes : List UInt8) : sink.Appends bytes (sink.putAll bytes) := by
  induction bytes generalizing sink with
  | nil => exact refl sink
  | cons c bytes ih => exact (put sink c).trans (ih (sink.put c))

private theorem putDigits {sink : Sink} {s room : Nat} {text : List UInt8} (holds : sink.tmp.HoldsString s text)
    (enough : text.length < room) :
    ∃ after, sink.putDigits s room = some after ∧ sink.Appends text after := by
  induction text generalizing sink s room with
  | nil =>
      cases room with
      | zero => omega
      | succ room =>
          have done : sink.tmp s = 0 := holds
          exact ⟨sink, by rw [Sink.putDigits, if_pos done], refl sink⟩
  | cons c text ih =>
      cases room with
      | zero => omega
      | succ room =>
          obtain ⟨here, nonzero, later⟩ := holds
          rw [List.length_cons] at enough
          have more : sink.tmp s ≠ 0 := by rw [here]; exact nonzero
          have left : text.length < room := by omega
          have following : (sink.put c).tmp.HoldsString (s + 1) text := later
          obtain ⟨after, ran, appended⟩ := ih following left
          refine ⟨after, ?_, (put sink c).trans appended⟩
          rw [Sink.putDigits, if_neg more, here, ran]

end Appends

private theorem putNumber_appends (sink : Sink) {num base : Nat} (small : num < 4294967296)
    (valid : 1 < base ∧ base ≤ 16) :
    ∃ after, sink.putNumber num base = some after ∧ sink.Appends (itoaInto num base) after := by
  obtain ⟨s, tmp, ran, length, spelled, -⟩ := itoaIntoBuffer_spec valid small sink.tmp
  rw [itoaInto_eq valid small]
  have room : ((itoaAlphabet base valid).magnitude num).length < 50 - s := by omega
  have written : ({ sink with tmp := tmp } : Sink).tmp.HoldsString s _ := spelled
  obtain ⟨after, copied, appended⟩ := Appends.putDigits written room
  refine ⟨after, ?_, ⟨appended.memory, appended.out⟩⟩
  rw [putNumber, ran]
  exact copied

private theorem vaWord_lt {args rest : List VarArg} {i : Nat} (taken : vaWord args = some (i, rest)) :
    i < 4294967296 := by
  cases args with
  | nil => cases taken
  | cons arg args =>
      cases arg with
      | word value =>
          cases taken
          exact value.toNat_lt
      | string text => cases taken

/-- A conversion of one word, by what it does with the word. -/
theorem bind_vaWord {sink : Sink} {args rest : List VarArg} {written : List UInt8} (text : Nat → List UInt8)
    {store : Nat → Option Sink}
    (stores : ∀ i, i < 4294967296 → ∃ after, store i = some after ∧ sink.Appends (text i) after)
    (converted : ((vaWord args).bind fun (i, args) => some (text i, args)) = some (written, rest)) :
    ∃ after, ((vaWord args).bind fun (i, args) => (store i).bind fun sink => some (sink, args)) = some (after, rest) ∧
      sink.Appends written after := by
  obtain ⟨⟨i, others⟩, taken, converted⟩ := Option.bind_eq_some_iff.mp converted
  cases converted
  obtain ⟨after, stored, appended⟩ := stores i (vaWord_lt taken)
  exact ⟨after, by simp [taken, stored], appended⟩

private theorem putSigned_appends (sink : Sink) {i : Nat} (small : i < 4294967296) :
    ∃ after, sink.putSigned i = some after ∧
      sink.Appends (if 2147483648 ≤ i then byteOf '-' :: itoaInto (sub32 0 i) 10 else itoaInto i 10) after := by
  have base : 1 < 10 ∧ 10 ≤ 16 := by omega
  unfold putSigned
  split
  · have negated : sub32 0 i < 4294967296 := Nat.mod_lt _ (by omega)
    obtain ⟨after, stored, appended⟩ := (sink.put (byteOf '-')).putNumber_appends negated base
    exact ⟨after, stored, (Appends.put sink _).trans appended⟩
  · exact sink.putNumber_appends small base

private theorem putConversion_appends (sink : Sink) {precision : Int} {conversion : UInt8} {args rest : List VarArg}
    {written : List UInt8} (converted : ksprintfConversion precision conversion args = some (written, rest)) :
    ∃ after, sink.putConversion precision conversion args = some (after, rest) ∧ sink.Appends written after := by
  unfold ksprintfConversion at converted
  unfold putConversion
  by_cases character : conversion = byteOf 'c'
  · rw [if_pos character] at converted ⊢
    obtain ⟨⟨i, others⟩, taken, converted⟩ := Option.bind_eq_some_iff.mp converted
    cases converted
    exact ⟨_, by simp [taken], Appends.put sink _⟩
  rw [if_neg character] at converted ⊢
  by_cases decimal : conversion = byteOf 'd'
  · rw [if_pos decimal] at converted ⊢
    refine bind_vaWord
      (fun i => if 2147483648 ≤ i then byteOf '-' :: itoaInto (sub32 0 i) 10 else itoaInto i 10)
      (fun i small => sink.putSigned_appends small) ?_
    rw [← converted]
    congr 1
    funext ⟨i, others⟩
    dsimp only
    split <;> rfl
  rw [if_neg decimal] at converted ⊢
  by_cases octal : conversion = byteOf 'o'
  · rw [if_pos octal] at converted ⊢
    exact bind_vaWord _ (fun i small => sink.putNumber_appends small (by omega)) converted
  rw [if_neg octal] at converted ⊢
  by_cases string : conversion = byteOf 's'
  · rw [if_pos string] at converted ⊢
    obtain ⟨⟨text, others⟩, taken, converted⟩ := Option.bind_eq_some_iff.mp converted
    cases converted
    exact ⟨_, by simp [taken], Appends.putAll sink _⟩
  rw [if_neg string] at converted ⊢
  by_cases hex : conversion = byteOf 'x'
  · rw [if_pos hex] at converted ⊢
    exact bind_vaWord _ (fun i small => sink.putNumber_appends small (by omega)) converted
  rw [if_neg hex] at converted ⊢
  by_cases percent : conversion = byteOf '%'
  · rw [if_pos percent] at converted ⊢
    cases converted
    exact ⟨_, rfl, Appends.put sink _⟩
  rw [if_neg percent] at converted ⊢
  cases converted
  exact ⟨sink, rfl, Appends.refl sink⟩

private theorem putFormat_appends {turns : Nat} {format : List UInt8} {args : List VarArg} (sink : Sink)
    {text : List UInt8} (formatted : ksprintfLoop turns format args = some text) :
    ∃ after, putFormat turns format args sink = some after ∧ sink.Appends text after := by
  induction turns generalizing format args sink text with
  | zero =>
      cases format with
      | nil =>
          cases formatted
          exact ⟨sink, rfl, Appends.refl sink⟩
      | cons c rest => cases formatted
  | succ turns ih =>
      cases format with
      | nil =>
          cases formatted
          exact ⟨sink, rfl, Appends.refl sink⟩
      | cons c rest =>
          rw [ksprintfLoop] at formatted
          rw [putFormat]
          by_cases newline : c = newlineByte
          · rw [if_pos newline] at formatted ⊢
            obtain ⟨later, looped, rfl⟩ := Option.map_eq_some_iff.mp formatted
            obtain ⟨after, ran, appended⟩ := ih (sink.put newlineByte) looped
            exact ⟨after, ran, (Appends.put sink newlineByte).trans appended⟩
          rw [if_neg newline] at formatted ⊢
          by_cases plain : c ≠ byteOf '%'
          · rw [if_pos plain] at formatted ⊢
            obtain ⟨later, looped, rfl⟩ := Option.map_eq_some_iff.mp formatted
            obtain ⟨after, ran, appended⟩ := ih (sink.put c) looped
            exact ⟨after, ran, (Appends.put sink c).trans appended⟩
          rw [if_neg plain] at formatted ⊢
          obtain ⟨⟨precision, letters, others⟩, read, formatted⟩ := Option.bind_eq_some_iff.mp formatted
          cases letters with
          | nil => cases formatted
          | cons conversion letters =>
              obtain ⟨⟨written, remaining⟩, converted, formatted⟩ := Option.bind_eq_some_iff.mp formatted
              obtain ⟨later, looped, rfl⟩ := Option.map_eq_some_iff.mp formatted
              obtain ⟨middle, put, first⟩ := sink.putConversion_appends converted
              obtain ⟨after, ran, second⟩ := ih middle looped
              refine ⟨after, ?_, first.trans second⟩
              simp only [read, put, Option.bind_eq_bind, Option.bind_some]
              exact ran

end Sink

/-- The call leaves the text with a terminator, touches nothing else and returns the
length of the text as an `int`. -/
theorem ksprintfInto_eq {format : List UInt8} {args : List VarArg} {text : List UInt8}
    (formatted : ksprintf format args = some text) (memory : Memory) (buf : Nat) (tmp : Memory) :
    ksprintfInto memory buf tmp format args = some (int32 text.length, memory.storeBytes buf (text ++ [0])) := by
  obtain ⟨after, ran, appended⟩ := Sink.putFormat_appends ⟨memory, buf, tmp⟩ formatted
  have length : (after.out : Int) - buf = text.length := by
    rw [appended.out, Int.natCast_add, add_sub_cancel_left]
  rw [ksprintfInto, ran]
  simp only [Option.bind_eq_bind, Option.bind_some, Option.pure_def, length]
  rw [Memory.storeBytes_append, appended.memory, appended.out]
  rfl

private theorem int32_of_lt {length : Nat} (small : length < 2147483648) : int32 length = length := by
  unfold int32
  exact Int.bmod_eq_of_le (by omega) (by omega)

private theorem int32_of_large {word : Nat} (large : 2147483648 ≤ word) (small : word < 4294967296) :
    int32 word = word - 4294967296 := by
  rw [int32, Int.bmod_def]
  omega

/-! The three conversions. -/

namespace NumberKind

def base : NumberKind → Nat
  | decimal => 10
  | octal => 8
  | hex => 16

private theorem base_valid (kind : NumberKind) : 1 < kind.base ∧ kind.base ≤ 16 := by
  cases kind <;> decide

def alphabet (kind : NumberKind) : Alphabet UInt8 := itoaAlphabet kind.base kind.base_valid

/-- The number that the word is: `%d` takes an `int`. -/
def value (kind : NumberKind) (word : UInt32) : Int :=
  match kind with
  | decimal => int32 word.toNat
  | octal => word.toNat
  | hex => word.toNat

private theorem text_eq_numeral (kind : NumberKind) (word : UInt32) :
    kind.text word = kind.alphabet.numeral (kind.value word) := by
  have small := word.toNat_lt
  have unsigned : ∀ kind : NumberKind, itoaInto word.toNat kind.base = kind.alphabet.numeral word.toNat := by
    intro kind
    rw [Alphabet.numeral_natCast, itoaInto_eq kind.base_valid small]
    rfl
  cases kind with
  | decimal =>
      by_cases negative : 2147483648 ≤ word.toNat
      · have bounded : sub32 0 word.toNat < 4294967296 := Nat.mod_lt _ (by omega)
        have positive : 0 < sub32 0 word.toNat := by
          unfold sub32
          omega
        have signed : value decimal word = -(sub32 0 word.toNat : Nat) := by
          rw [value, int32_of_large negative small, sub32]
          omega
        rw [text, if_pos negative, signed, Alphabet.numeral_neg _ positive]
        exact congrArg (byteOf '-' :: ·) (itoaInto_eq decimal.base_valid bounded)
      · have signed : value decimal word = word.toNat := int32_of_lt (by omega)
        rw [text, if_neg negative, signed]
        exact unsigned decimal
  | octal => exact unsigned octal
  | hex => exact unsigned hex

/-- The most negative `int`, which has no positive counterpart. -/
example : text decimal 0x80000000 = "-2147483648".toList.map byteOf := by decide

end NumberKind

/-- A number is stored as the only text without leading zeros that is read as its value,
its digits fit into their buffer, and the length of the whole text is returned, as long
as an `int` can hold it. -/
theorem ksprintf_stores_numerals :
    (∀ (precision : Precision) (kind : NumberKind) (word : UInt32) (text : List UInt8),
      text = (Piece.number precision kind word).stored ↔
        kind.alphabet.read text = some (kind.value word) ∧ kind.alphabet.NoLeadingZero text) ∧
    (∀ (base : Nat) (valid : 1 < base ∧ base ≤ 16) (num : UInt32) (buf : Memory),
      ∃ s after, itoaIntoBuffer num.toNat base buf 49 = some (s, after) ∧
        after.HoldsString s ((itoaAlphabet base valid).magnitude num.toNat) ∧
        ∀ other, other < s ∨ 49 < other → after other = buf other) ∧
    ∀ (pieces : List Piece) (memory : Memory) (buf : Nat) (tmp : Memory),
      ∃ returned text, ksprintfInto memory buf tmp (spell pieces) (argsOf pieces) =
          some (returned, memory.storeBytes buf (text ++ [0])) ∧
        text = pieces.flatMap Piece.stored ∧ returned = int32 text.length ∧
        (text.length < 2147483648 → returned = text.length) := by
  refine ⟨?_, ?_, ?_⟩
  · intro precision kind word text
    rw [Piece.stored, kind.text_eq_numeral]
    exact kind.alphabet.eq_numeral_iff (kind.value word) text
  · intro base valid num buf
    obtain ⟨s, after, ran, -, spelled, kept⟩ := itoaIntoBuffer_spec valid num.toNat_lt buf
    exact ⟨s, after, ran, spelled, kept⟩
  · intro pieces memory buf tmp
    exact ⟨_, _, ksprintfInto_eq (ksprintf_pieces pieces) memory buf tmp, rfl, rfl, int32_of_lt⟩

end ShedKernel.Console
