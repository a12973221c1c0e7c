import ShedKernel.Console.Format
import ShedKernel.Foundation.Schedule

/-! The serial line of `kernel.c`: the bytes that its messages are made of, and the loop that
hands each to the transmitter of COM1. -/

set_option autoImplicit false

namespace ShedKernel.Console

open Foundation

/-! The messages, as the arguments of `serial_write`. -/

def carriageReturn : UInt8 := 13

def serialPrint (s : CString) : List UInt8 :=
  s.bytes.flatMap fun c => if c = newlineByte then [carriageReturn, c] else [c]

/-- The values of `i` in the loop of `serial_hex`. -/
def hexShifts : List UInt32 := [28, 24, 20, 16, 12, 8, 4, 0]

def serialHex (val : UInt32) : List UInt8 :=
  serialPrint ⟨[byteOf '0', byteOf 'x'], by decide⟩ ++
    hexShifts.map fun i => digitByte ((val >>> i) &&& 0xF).toNat

inductive SerialCall where
  | print (s : CString)
  | hex (val : UInt32)

def SerialCall.bytes : SerialCall → List UInt8
  | .print s => serialPrint s
  | .hex val => serialHex val

/-! The transmitter: a byte written to it is held until it has gone out on the line. -/

structure Transmitter where
  held : Option UInt8
  sent : List UInt8

namespace Transmitter

/-- A byte that is still held is lost. -/
def write (port : Transmitter) (byte : UInt8) : Transmitter := { port with held := some byte }

def shift (port : Transmitter) : Transmitter :=
  match port.held with
  | some byte => ⟨none, port.sent ++ [byte]⟩
  | none => port

/-- The line status: bit 5 tells that no byte is held, the others are about other things. -/
def status (port : Transmitter) (others : UInt8) : UInt8 :=
  if port.held.isSome then others &&& 0xDF else others ||| 0x20

end Transmitter

/-! `serial_write`. -/

/-- `ready` when the loop has ended and the byte is still to be written. -/
structure SerialState where
  port : Transmitter
  left : List UInt8
  ready : Bool

inductive SerialEvent where
  | cpu (others : UInt8)
  | line

/-- The next read or write of a port, or the end of a byte on the line. -/
def serialStep (state : SerialState) : SerialEvent → SerialState
  | .cpu others =>
      match state.left with
      | [] => state
      | c :: rest =>
          if state.ready then ⟨state.port.write c, rest, false⟩
          else { state with ready := state.port.status others &&& 0x20 ≠ 0 }
  | .line => { state with port := state.port.shift }

/-- An idle transmitter and the messages still to be sent. -/
def serialStart (calls : List SerialCall) : SerialState := ⟨⟨none, []⟩, calls.flatMap SerialCall.bytes, false⟩

end ShedKernel.Console
