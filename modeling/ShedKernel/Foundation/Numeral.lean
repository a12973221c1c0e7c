import Mathlib.Data.Nat.Digits.Lemmas

/-! Positional numerals over any alphabet: the numeral of a number, the number a numeral
is read as, and that leaving out leading zeros makes the numeral unique. -/

set_option autoImplicit false

namespace ShedKernel.Foundation

/-- How the digits and the sign of a base are written. -/
structure Alphabet (Glyph : Type) where
  base : Nat
  glyph : Nat → Glyph
  minus : Glyph
  base_gt : 1 < base
  distinct : ∀ {first second}, first < base → second < base → glyph first = glyph second → first = second
  unsigned : ∀ {digit}, digit < base → glyph digit ≠ minus

namespace Alphabet

variable {Glyph : Type} (alphabet : Alphabet Glyph)

/-- The digits of `n`, most significant first. Zero is one digit. -/
def magnitude (n : Nat) : List Glyph :=
  if n = 0 then [alphabet.glyph 0] else ((Nat.digits alphabet.base n).map alphabet.glyph).reverse

def numeral (n : Int) : List Glyph :=
  if n < 0 then alphabet.minus :: alphabet.magnitude n.natAbs else alphabet.magnitude n.natAbs

section

variable [DecidableEq Glyph]

def digit? (c : Glyph) : Option Nat :=
  (List.range alphabet.base).find? fun digit => alphabet.glyph digit = c

def digits? : List Glyph → Option (List Nat)
  | [] => some []
  | c :: rest => do
      let digit ← alphabet.digit? c
      let digits ← digits? rest
      pure (digit :: digits)

/-- The number that a row of digits stands for. -/
def readMagnitude (text : List Glyph) : Option Nat :=
  if text = [] then none
  else (alphabet.digits? text).map fun digits => Nat.ofDigits alphabet.base digits.reverse

def read : List Glyph → Option Int
  | [] => none
  | c :: rest =>
      if c = alphabet.minus then (alphabet.readMagnitude rest).map fun n : Nat => -(n : Int)
      else (alphabet.readMagnitude (c :: rest)).map fun n : Nat => (n : Int)

/-- No zero in front of another digit, and no sign in front of a zero. -/
def NoLeadingZero : List Glyph → Prop
  | [] => True
  | c :: rest =>
      if c = alphabet.minus then rest.head? ≠ some (alphabet.glyph 0)
      else c = alphabet.glyph 0 → rest = []

end

/-! Digits. -/

theorem base_pos : 0 < alphabet.base := Nat.lt_trans Nat.zero_lt_one alphabet.base_gt

theorem magnitude_of_lt {n : Nat} (small : n < alphabet.base) :
    alphabet.magnitude n = [alphabet.glyph n] := by
  unfold magnitude
  split
  · next zero => rw [zero]
  · next nonzero => rw [Nat.digits_of_lt alphabet.base n nonzero small, List.map_singleton, List.reverse_singleton]

/-- The last digit is the remainder, and what stands in front of it the quotient. -/
theorem magnitude_div {n : Nat} (large : n / alphabet.base ≠ 0) :
    alphabet.magnitude n = alphabet.magnitude (n / alphabet.base) ++ [alphabet.glyph (n % alphabet.base)] := by
  have nonzero : n ≠ 0 := by
    rintro rfl
    exact large (Nat.zero_div _)
  unfold magnitude
  rw [if_neg nonzero, if_neg large, Nat.digits_eq_cons_digits_div alphabet.base_gt nonzero, List.map_cons,
    List.reverse_cons]

theorem head_magnitude {n : Nat} (nonzero : n ≠ 0) :
    (alphabet.magnitude n).head? ≠ some (alphabet.glyph 0) := by
  have nonempty := Nat.digits_ne_nil_iff_ne_zero (b := alphabet.base).mpr nonzero
  have last := Nat.getLast_digit_ne_zero alphabet.base nonzero
  have small := Nat.digits_lt_base alphabet.base_gt (List.getLast_mem nonempty)
  rw [magnitude, if_neg nonzero, List.head?_reverse, List.getLast?_map, List.getLast?_eq_some_getLast nonempty,
    Option.map_some]
  intro same
  exact last (alphabet.distinct small alphabet.base_pos (Option.some.inj same))

theorem numeral_natCast (n : Nat) : alphabet.numeral n = alphabet.magnitude n := by
  rw [numeral, if_neg (by omega), Int.natAbs_natCast]

theorem numeral_neg {n : Nat} (positive : 0 < n) :
    alphabet.numeral (-(n : Int)) = alphabet.minus :: alphabet.magnitude n := by
  rw [numeral, if_pos (by omega), Int.natAbs_neg, Int.natAbs_natCast]

section

variable [DecidableEq Glyph]

theorem glyph_of_digit? {c : Glyph} {digit : Nat} (found : alphabet.digit? c = some digit) :
    digit < alphabet.base ∧ alphabet.glyph digit = c := by
  have bounded := List.mem_range.mp (List.mem_of_find?_eq_some found)
  have same := List.find?_some (p := fun digit => alphabet.glyph digit = c) found
  exact ⟨bounded, of_decide_eq_true same⟩

theorem digit?_glyph {digit : Nat} (small : digit < alphabet.base) :
    alphabet.digit? (alphabet.glyph digit) = some digit := by
  cases found : alphabet.digit? (alphabet.glyph digit) with
  | none =>
      have nowhere := List.find?_eq_none.mp found digit (List.mem_range.mpr small)
      exact absurd (decide_eq_true rfl) nowhere
  | some other =>
      obtain ⟨bounded, same⟩ := alphabet.glyph_of_digit? found
      rw [alphabet.distinct bounded small same]

theorem digits?_map {digits : List Nat} (small : ∀ digit ∈ digits, digit < alphabet.base) :
    alphabet.digits? (digits.map alphabet.glyph) = some digits := by
  induction digits with
  | nil => rfl
  | cons digit digits ih =>
      obtain ⟨here, later⟩ := List.forall_mem_cons.mp small
      simp [digits?, alphabet.digit?_glyph here, ih later]

theorem map_of_digits? {text : List Glyph} {digits : List Nat} (found : alphabet.digits? text = some digits) :
    (∀ digit ∈ digits, digit < alphabet.base) ∧ text = digits.map alphabet.glyph := by
  induction text generalizing digits with
  | nil =>
      cases found
      exact ⟨List.forall_mem_nil _, rfl⟩
  | cons c rest ih =>
      cases first : alphabet.digit? c with
      | none => simp [digits?, first] at found
      | some digit =>
          cases others : alphabet.digits? rest with
          | none => simp [digits?, first, others] at found
          | some later =>
              simp only [digits?, first, others, Option.bind_eq_bind, Option.bind_some, Option.pure_def,
                Option.some.injEq] at found
              subst found
              obtain ⟨bounded, written⟩ := alphabet.glyph_of_digit? first
              obtain ⟨restBounded, restWritten⟩ := ih others
              refine ⟨List.forall_mem_cons.mpr ⟨bounded, restBounded⟩, ?_⟩
              rw [List.map_cons, written, ← restWritten]

/-! Numbers without a sign. -/

theorem readMagnitude_magnitude (n : Nat) : alphabet.readMagnitude (alphabet.magnitude n) = some n := by
  unfold magnitude
  split
  · next zero =>
      have small : ∀ digit ∈ [0], digit < alphabet.base := by simpa using alphabet.base_pos
      have written := alphabet.digits?_map small
      rw [List.map_singleton] at written
      simp [readMagnitude, written, zero]
  · next nonzero =>
      have small : ∀ digit ∈ (Nat.digits alphabet.base n).reverse, digit < alphabet.base := by
        intro digit member
        exact Nat.digits_lt_base alphabet.base_gt (List.mem_reverse.mp member)
      have written := alphabet.digits?_map small
      have nonempty := Nat.digits_ne_nil_iff_ne_zero (b := alphabet.base).mpr nonzero
      rw [List.map_reverse] at written
      simp [readMagnitude, written, nonempty, Nat.ofDigits_digits]

theorem magnitude_ne_nil (n : Nat) : alphabet.magnitude n ≠ [] := by
  intro empty
  have value := alphabet.readMagnitude_magnitude n
  rw [empty] at value
  cases value

theorem ne_minus_of_magnitude {n : Nat} {c : Glyph} (member : c ∈ alphabet.magnitude n) : c ≠ alphabet.minus := by
  have value := alphabet.readMagnitude_magnitude n
  rw [readMagnitude, if_neg (alphabet.magnitude_ne_nil n), Option.map_eq_some_iff] at value
  obtain ⟨digits, found, -⟩ := value
  obtain ⟨small, written⟩ := alphabet.map_of_digits? found
  rw [written] at member
  obtain ⟨digit, inside, rfl⟩ := List.mem_map.mp member
  exact alphabet.unsigned (small digit inside)

/-- The most significant digit is the last of the list that `Nat.ofDigits` weighs. -/
theorem eq_magnitude {c : Glyph} {rest : List Glyph} {n : Nat}
    (value : alphabet.readMagnitude (c :: rest) = some n) (noLeading : c = alphabet.glyph 0 → rest = []) :
    c :: rest = alphabet.magnitude n := by
  rw [readMagnitude, if_neg (List.cons_ne_nil c rest), Option.map_eq_some_iff] at value
  obtain ⟨digits, found, rfl⟩ := value
  obtain ⟨small, written⟩ := alphabet.map_of_digits? found
  cases digits with
  | nil => cases written
  | cons first digits =>
      rw [List.map_cons, List.cons.injEq] at written
      obtain ⟨rfl, rfl⟩ := written
      by_cases zero : first = 0
      · subst zero
        have alone := List.map_eq_nil_iff.mp (noLeading rfl)
        subst alone
        rfl
      · have ends : ∀ nonempty : (first :: digits).reverse ≠ [], (first :: digits).reverse.getLast nonempty ≠ 0 := by
          intro nonempty
          rw [List.getLast_reverse]
          exact zero
        have bounded : ∀ digit ∈ (first :: digits).reverse, digit < alphabet.base := by
          intro digit member
          exact small digit (List.mem_reverse.mp member)
        have same := Nat.digits_ofDigits alphabet.base alphabet.base_gt _ bounded ends
        have nonzero : Nat.ofDigits alphabet.base (first :: digits).reverse ≠ 0 := by
          intro none
          rw [none, Nat.digits_zero] at same
          exact List.cons_ne_nil first digits (List.reverse_eq_nil_iff.mp same.symm)
        rw [magnitude, if_neg nonzero, same, List.map_reverse, List.reverse_reverse, List.map_cons]

/-! Numbers with a sign. -/

theorem read_magnitude (n : Nat) : alphabet.read (alphabet.magnitude n) = some (n : Int) := by
  have value := alphabet.readMagnitude_magnitude n
  cases written : alphabet.magnitude n with
  | nil => exact absurd written (alphabet.magnitude_ne_nil n)
  | cons c rest =>
      have unsigned : c ≠ alphabet.minus := alphabet.ne_minus_of_magnitude (n := n) (by simp [written])
      rw [written] at value
      rw [read, if_neg unsigned, value, Option.map_some]

theorem noLeadingZero_magnitude (n : Nat) : alphabet.NoLeadingZero (alphabet.magnitude n) := by
  by_cases zero : n = 0
  · subst zero
    simp [magnitude, NoLeadingZero, alphabet.unsigned alphabet.base_pos]
  · have head := alphabet.head_magnitude zero
    cases written : alphabet.magnitude n with
    | nil => trivial
    | cons c rest =>
        have unsigned : c ≠ alphabet.minus := alphabet.ne_minus_of_magnitude (n := n) (by simp [written])
        rw [written, List.head?_cons] at head
        rw [NoLeadingZero, if_neg unsigned]
        intro leading
        exact absurd (congrArg some leading) head

theorem read_numeral (n : Int) : alphabet.read (alphabet.numeral n) = some n := by
  unfold numeral
  split
  · rw [read, if_pos rfl, alphabet.readMagnitude_magnitude, Option.map_some]
    exact congrArg some (by omega)
  · rw [alphabet.read_magnitude]
    exact congrArg some (by omega)

theorem noLeadingZero_numeral (n : Int) : alphabet.NoLeadingZero (alphabet.numeral n) := by
  unfold numeral
  split
  · rw [NoLeadingZero, if_pos rfl]
    exact alphabet.head_magnitude (by omega)
  · exact alphabet.noLeadingZero_magnitude n.natAbs

/-- Among the texts read as `n`, the numeral is the one without leading zeros. -/
theorem eq_numeral_iff (n : Int) (text : List Glyph) :
    text = alphabet.numeral n ↔ alphabet.read text = some n ∧ alphabet.NoLeadingZero text := by
  constructor
  · rintro rfl
    exact ⟨alphabet.read_numeral n, alphabet.noLeadingZero_numeral n⟩
  rintro ⟨value, noLeading⟩
  cases text with
  | nil => cases value
  | cons c rest =>
      by_cases sign : c = alphabet.minus
      · rw [read, if_pos sign, Option.map_eq_some_iff] at value
        rw [NoLeadingZero, if_pos sign] at noLeading
        obtain ⟨size, found, rfl⟩ := value
        cases rest with
        | nil => cases found
        | cons first later =>
            have leading : first = alphabet.glyph 0 → later = [] := by
              intro same
              exact absurd (congrArg some same) noLeading
            have same := alphabet.eq_magnitude found leading
            have positive : size ≠ 0 := by
              rintro rfl
              simp [magnitude] at same
              exact noLeading (congrArg some same.1)
            rw [alphabet.numeral_neg (by omega), sign, same]
      · rw [read, if_neg sign, Option.map_eq_some_iff] at value
        rw [NoLeadingZero, if_neg sign] at noLeading
        obtain ⟨size, found, rfl⟩ := value
        rw [alphabet.numeral_natCast]
        exact alphabet.eq_magnitude found noLeading

end

end Alphabet

end ShedKernel.Foundation
