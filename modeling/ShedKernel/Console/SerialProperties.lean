import ShedKernel.Console.FormatBuffer
import ShedKernel.Console.Serial

/-! The serial line carries the messages, whatever the pace of the transmitter. -/

set_option autoImplicit false

namespace ShedKernel.Console

open Foundation

/-! Safety. -/

private theorem status_flag (port : Transmitter) (others : UInt8) :
    port.status others &&& 0x20 ≠ 0 ↔ port.held = none := by
  have set : ∀ bits : BitVec 8, (bits ||| 0x20#8) &&& 0x20#8 ≠ 0#8 := by decide
  have clear : ∀ bits : BitVec 8, (bits &&& 0xDF#8) &&& 0x20#8 = 0#8 := by decide
  unfold Transmitter.status
  cases held : port.held with
  | none =>
    refine iff_of_true ?_ rfl
    intro zero
    exact set others.toBitVec (congrArg UInt8.toBitVec zero)
  | some byte =>
    refine iff_of_false ?_ nofun
    intro nonzero
    exact nonzero (UInt8.toBitVec_inj.mp (clear others.toBitVec))

/-- Nothing is lost, doubled or out of order, and a byte is written to a free transmitter. -/
structure InOrder (text : List UInt8) (state : SerialState) : Prop where
  whole : state.port.sent ++ state.port.held.toList ++ state.left = text
  free : state.ready = true → state.port.held = none

theorem InOrder.step {text : List UInt8} {state : SerialState} (order : InOrder text state) (event : SerialEvent) :
    InOrder text (serialStep state event) := by
  obtain ⟨⟨held, sent⟩, left, ready⟩ := state
  obtain ⟨whole, free⟩ := order
  cases event with
  | cpu others =>
    cases left with
    | nil => exact ⟨whole, free⟩
    | cons c rest =>
      cases ready with
      | true =>
        have none : held = none := free rfl
        subst none
        refine ⟨?_, nofun⟩
        simpa [serialStep, Transmitter.write] using whole
      | false =>
        refine ⟨whole, ?_⟩
        intro ready
        exact (status_flag ⟨held, sent⟩ others).mp (of_decide_eq_true ready)
  | line =>
    cases held with
    | none => exact ⟨whole, free⟩
    | some byte =>
      refine ⟨?_, fun _ => rfl⟩
      simpa [serialStep, Transmitter.shift] using whole

/-! Progress. -/

/-- What is still to happen: for each byte left its write and its way over the line, with a
look at the line status before. -/
def pendingOf (held : Option UInt8) (left : List UInt8) (ready : Bool) : Nat :=
  match held, left, ready with
  | none, [], _ => 0
  | none, _ :: rest, true => 4 * rest.length + 4
  | none, _ :: rest, false => 4 * rest.length + 5
  | some _, [], _ => 2
  | some _, _ :: rest, true => 4 * rest.length + 6
  | some _, _ :: rest, false => 4 * rest.length + 7

def SerialState.pending (state : SerialState) : Nat := pendingOf state.port.held state.left state.ready

/-- The event that helps, told from what is pending: the line while a byte is held. -/
def Helpful (pending : Nat) (event : SerialEvent) : Prop :=
  if pending / 2 % 2 = 1 then event = .line else ∃ others, event = .cpu others

/-- The second bit of what is pending tells whether a byte is held. -/
theorem pendingOf_held (held : Option UInt8) (left : List UInt8) (ready : Bool) :
    pendingOf held left ready / 2 % 2 = if held.isSome then 1 else 0 := by
  cases held <;> cases left <;> cases ready <;> simp [pendingOf] <;> omega

section Step

variable {port : Transmitter} {rest : List UInt8} {c : UInt8}

private theorem pending_write : SerialState.pending ⟨port.write c, rest, false⟩ <
    SerialState.pending ⟨port, c :: rest, true⟩ := by
  obtain ⟨held, sent⟩ := port
  cases held <;> cases rest <;> simp only [SerialState.pending, Transmitter.write, pendingOf, List.length_cons,
    List.length_nil] <;> omega

private theorem pending_shift (byte : UInt8) (sent left : List UInt8) (ready : Bool) :
    SerialState.pending ⟨⟨none, sent⟩, left, ready⟩ < SerialState.pending ⟨⟨some byte, sent⟩, left, ready⟩ := by
  cases left <;> cases ready <;> simp only [SerialState.pending, pendingOf] <;> omega

private theorem pending_look (ready : Bool) : SerialState.pending ⟨port, c :: rest, ready⟩ ≤
    SerialState.pending ⟨port, c :: rest, false⟩ := by
  obtain ⟨held, sent⟩ := port
  cases held <;> cases ready <;> simp only [SerialState.pending, pendingOf] <;> omega

end Step

private theorem serialStep_shrinks (state : SerialState) (event : SerialEvent) :
    (serialStep state event).pending ≤ state.pending := by
  obtain ⟨⟨held, sent⟩, left, ready⟩ := state
  cases event with
  | cpu others =>
    cases left with
    | nil => exact Nat.le_refl _
    | cons c rest =>
      cases ready with
      | true => exact Nat.le_of_lt pending_write
      | false => exact pending_look _
  | line =>
    cases held with
    | none => exact Nat.le_refl _
    | some byte => exact Nat.le_of_lt (pending_shift byte sent left ready)

private theorem serialStep_lowers (state : SerialState) (event : SerialEvent) (more : state.pending ≠ 0)
    (helpful : Helpful state.pending event) : (serialStep state event).pending < state.pending := by
  obtain ⟨⟨held, sent⟩, left, ready⟩ := state
  cases held with
  | none =>
    cases left with
    | nil => exact absurd rfl more
    | cons c rest =>
      simp only [Helpful, SerialState.pending, pendingOf_held, Option.isSome_none, Bool.false_eq_true, if_false,
        Nat.zero_ne_one] at helpful
      obtain ⟨others, rfl⟩ := helpful
      cases ready with
      | true => exact pending_write
      | false =>
        have free : decide (Transmitter.status ⟨none, sent⟩ others &&& 0x20 ≠ 0) = true :=
          decide_eq_true ((status_flag ⟨none, sent⟩ others).mpr rfl)
        simp only [serialStep, free]
        exact Nat.lt_succ_self _
  | some byte =>
    simp only [Helpful, SerialState.pending, pendingOf_held, Option.isSome_some, if_true] at helpful
    subst helpful
    exact pending_shift byte sent left ready

/-! Hexadecimal numbers. -/

def hexAlphabet : Foundation.Alphabet UInt8 := itoaAlphabet 16 (by decide)

private theorem hexDigit_toNat (val i : UInt32) (small : i.toNat < 32) :
    ((val >>> i) &&& 0xF).toNat = val.toNat / 2 ^ i.toNat % 16 := by
  have mask : ((0xF : UInt32)).toNat = 2 ^ 4 - 1 := rfl
  rw [UInt32.toNat_and, UInt32.toNat_shiftRight, mask, Nat.and_two_pow_sub_one_eq_mod, Nat.mod_eq_of_lt small,
    Nat.shiftRight_eq_div_pow]

/-- The eight digits from the most significant one on. -/
def nibbles (n : Nat) : List Nat := hexShifts.map fun i => n / 2 ^ i.toNat % 16

private theorem ofDigits_nibbles {n : Nat} (small : n < 4294967296) : Nat.ofDigits 16 (nibbles n).reverse = n := by
  have digits : (nibbles n).reverse = [n % 16, n / 16 % 16, n / 256 % 16, n / 4096 % 16, n / 65536 % 16,
      n / 1048576 % 16, n / 16777216 % 16, n / 268435456 % 16] := by
    simp [nibbles, hexShifts]
  rw [digits]
  simp only [Nat.ofDigits_cons, Nat.ofDigits_nil]
  omega

/-- All eight digits are there, and they read back. -/
theorem serialHex_reads (val : UInt32) : ∃ digits, serialHex val = [byteOf '0', byteOf 'x'] ++ digits ∧
    digits.length = 8 ∧ hexAlphabet.readMagnitude digits = some val.toNat := by
  have shifts : ∀ i ∈ hexShifts, i.toNat < 32 := by simp [hexShifts]
  have written : (hexShifts.map fun i => digitByte ((val >>> i) &&& 0xF).toNat) =
      (nibbles val.toNat).map hexAlphabet.glyph := by
    rw [nibbles, List.map_map]
    apply List.map_congr_left
    intro i member
    rw [hexDigit_toNat val i (shifts i member), digitByte_eq _ (Nat.mod_lt _ (by decide))]
    rfl
  have small : ∀ digit ∈ nibbles val.toNat, digit < hexAlphabet.base := by
    intro digit member
    obtain ⟨i, _, rfl⟩ := List.mem_map.mp member
    exact Nat.mod_lt _ (by decide)
  refine ⟨_, rfl, rfl, ?_⟩
  rw [written, Alphabet.readMagnitude, if_neg (by simp [nibbles, hexShifts]), hexAlphabet.digits?_map small,
    Option.map_some]
  exact congrArg some (ofDigits_nibbles val.toNat_lt)

theorem serial_line_carries (calls : List SerialCall) (schedule : Nat → SerialEvent) :
    (∀ count, InOrder (calls.flatMap SerialCall.bytes) (scheduled serialStep (serialStart calls) schedule count)) ∧
    (Recurs schedule (· = .line) → Recurs schedule (∃ others, · = .cpu others) →
      ∃ finished, ∀ count, finished ≤ count →
        (scheduled serialStep (serialStart calls) schedule count).left = [] ∧
        (scheduled serialStep (serialStart calls) schedule count).port =
          ⟨none, calls.flatMap SerialCall.bytes⟩) := by
  have order : ∀ count, InOrder (calls.flatMap SerialCall.bytes)
      (scheduled serialStep (serialStart calls) schedule count) :=
    scheduled_invariant ⟨rfl, nofun⟩ fun _ event order => order.step event
  refine ⟨order, ?_⟩
  intro line cpu
  have fair : ∀ value, value ≠ 0 → Recurs schedule (Helpful value) := by
    intro value _ count
    unfold Helpful
    split
    · exact line count
    · exact cpu count
  obtain ⟨finished, _, zero⟩ := scheduled_reaches_zero serialStep_shrinks serialStep_lowers fair 0
  refine ⟨finished, fun count later => ?_⟩
  have none := zero count later
  have whole := (order count).whole
  generalize scheduled serialStep (serialStart calls) schedule count = state at none whole
  obtain ⟨⟨held, sent⟩, left, ready⟩ := state
  cases held with
  | some byte => cases left <;> cases ready <;> simp [SerialState.pending, pendingOf] at none
  | none =>
    cases left with
    | cons c rest => cases ready <;> simp [SerialState.pending, pendingOf] at none
    | nil =>
      refine ⟨rfl, ?_⟩
      simp only [Option.toList_none, List.append_nil] at whole
      rw [whole]

theorem serial_line_carries_flags : ∃ finished, ∀ count, finished ≤ count →
    (scheduled serialStep (serialStart [.hex 0x1C]) (fun turn => if turn % 5 = 0 then .line else .cpu 0x60)
      count).port = ⟨none, [byteOf '0', byteOf 'x'] ++ (List.replicate 6 (byteOf '0') ++ [byteOf '1', byteOf 'C'])⟩ := by
  have line : Recurs (fun turn => if turn % 5 = 0 then SerialEvent.line else .cpu 0x60) (· = .line) := fun count =>
    ⟨5 * count, by omega, if_pos (Nat.mul_mod_right 5 count)⟩
  have cpu : Recurs (fun turn => if turn % 5 = 0 then SerialEvent.line else .cpu 0x60) (∃ others, · = .cpu others) :=
    fun count => ⟨5 * count + 1, by omega, 0x60, if_neg (by omega)⟩
  obtain ⟨finished, ends⟩ := (serial_line_carries [.hex 0x1C] _).2 line cpu
  refine ⟨finished, fun count later => ?_⟩
  rw [(ends count later).2]
  rfl

end ShedKernel.Console
