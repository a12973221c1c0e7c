import ShedKernel.Console.Screen

/-! The two formatters of `kprintf.c`. A format is the list of its bytes; running past
its end or reading an argument of the wrong kind gives `none`. -/

set_option autoImplicit false

namespace ShedKernel.Console

open Foundation

/-- An argument of a variadic call. `int` and `unsigned int` are one word. -/
inductive VarArg where
  | word (value : UInt32)
  | string (text : CString)

def vaWord : List VarArg → Option (Nat × List VarArg)
  | .word value :: rest => some (value.toNat, rest)
  | _ => none

def vaString : List VarArg → Option (List UInt8 × List VarArg)
  | .string text :: rest => some (text.bytes, rest)
  | _ => none

/-- The `int` that a value wraps to. -/
def int32 (value : Int) : Int := value.bmod 4294967296

def byteOf (c : Char) : UInt8 := UInt8.ofNat c.toNat

def newlineByte : UInt8 := 10

/-- `"0123456789ABCDEF"[index]` -/
def digitByte (index : Nat) : UInt8 := UInt8.ofNat (if index < 10 then 48 + index else 55 + index)

/-- The loop of `itoa_into`, in front of the digits written so far; the first argument is
the room that is left. -/
def itoaLoop (base : Nat) : Nat → Nat → List UInt8 → List UInt8
  | 0, _, written => written
  | room + 1, num, written =>
      let written := digitByte (num % base) :: written
      if num / base = 0 then written else itoaLoop base room (num / base) written

/-- Both callers leave 49 bytes in front of the terminator. -/
def itoaInto (num base : Nat) : List UInt8 := itoaLoop base 49 num []

/-! The optional precision, read by the same lines in both formatters. -/

def isDigit (c : UInt8) : Bool := byteOf '0' ≤ c && c ≤ byteOf '9'

def precisionDigits (precision : Int) : List UInt8 → Int × List UInt8
  | [] => (precision, [])
  | c :: rest =>
      if isDigit c then precisionDigits (int32 (precision * 10 + (c.toNat - 48))) rest
      else (precision, c :: rest)

/-- The precision, the rest of the format and the remaining arguments. -/
def readPrecision (format : List UInt8) (args : List VarArg) :
    Option (Int × List UInt8 × List VarArg) :=
  match format with
  | [] => some (-1, [], args)
  | c :: rest =>
      if c = byteOf '.' then
        match rest with
        | [] => some (0, [], args)
        | star :: after =>
            if star = byteOf '*' then do
              let (value, args) ← vaWord args
              pure (int32 value, after, args)
            else
              let (precision, rest) := precisionDigits 0 (star :: after)
              some (precision, rest, args)
      else some (-1, c :: rest, args)

/-! `kprintf`. -/

/-- What `kprintf` does to the screen, one character or line at a time. -/
inductive Emit where
  | put (c : UInt8)
  | newline
  deriving DecidableEq

def puts (bytes : List UInt8) : List Emit := bytes.map .put

/-- The `switch` of `kprintf`, which has no use for the precision. -/
def kprintfConversion (conversion : UInt8) (args : List VarArg) : Option (List Emit × List VarArg) :=
  if conversion = byteOf 'c' then do
    let (i, args) ← vaWord args
    pure ([.put (UInt8.ofNat i)], args)
  else if conversion = byteOf 'd' then do
    let (i, args) ← vaWord args
    if 2147483648 ≤ i then pure (.put (byteOf '-') :: puts (itoaInto (sub32 0 i) 10), args)
    else pure (puts (itoaInto i 10), args)
  else if conversion = byteOf 'o' then do
    let (i, args) ← vaWord args
    pure (puts (itoaInto i 8), args)
  else if conversion = byteOf 's' then do
    let (s, args) ← vaString args
    pure (s.map fun c => if c = newlineByte then .newline else .put c, args)
  else if conversion = byteOf 'x' then do
    let (i, args) ← vaWord args
    pure (puts (itoaInto i 16), args)
  else if conversion = byteOf '%' then pure ([.put (byteOf '%')], args)
  else pure ([], args)

/-- The loop of `kprintf`; every turn takes at least one byte of the format. -/
def kprintfLoop : Nat → List UInt8 → List VarArg → Option (List Emit)
  | _, [], _ => some []
  | 0, _, _ => none
  | turns + 1, c :: rest, args =>
      if c = newlineByte then (kprintfLoop turns rest args).map (.newline :: ·)
      else if c ≠ byteOf '%' then (kprintfLoop turns rest args).map (.put c :: ·)
      else do
        let (_, rest, args) ← readPrecision rest args
        match rest with
        | [] => none
        | conversion :: rest =>
            let (emits, args) ← kprintfConversion conversion args
            (kprintfLoop turns rest args).map (emits ++ ·)

def kprintfEmits (format : List UInt8) (args : List VarArg) : Option (List Emit) :=
  kprintfLoop format.length format args

def emit (console : TextScreen) : Emit → TextScreen
  | .put c => put console c
  | .newline => kprintNewline console

def kprintf (console : TextScreen) (format : List UInt8) (args : List VarArg) : Option TextScreen :=
  (kprintfEmits format args).map fun emits => emits.foldl emit console

/-! `ksprintf`. -/

/-- The characters of `s` that `%s` copies. -/
def copyString (precision : Int) (s : List UInt8) : List UInt8 :=
  if 0 ≤ precision then s.take precision.toNat else s

def ksprintfConversion (precision : Int) (conversion : UInt8) (args : List VarArg) :
    Option (List UInt8 × List VarArg) :=
  if conversion = byteOf 'c' then do
    let (i, args) ← vaWord args
    pure ([UInt8.ofNat i], args)
  else if conversion = byteOf 'd' then do
    let (i, args) ← vaWord args
    if 2147483648 ≤ i then pure (byteOf '-' :: itoaInto (sub32 0 i) 10, args)
    else pure (itoaInto i 10, args)
  else if conversion = byteOf 'o' then do
    let (i, args) ← vaWord args
    pure (itoaInto i 8, args)
  else if conversion = byteOf 's' then do
    let (s, args) ← vaString args
    pure (copyString precision s, args)
  else if conversion = byteOf 'x' then do
    let (i, args) ← vaWord args
    pure (itoaInto i 16, args)
  else if conversion = byteOf '%' then pure ([byteOf '%'], args)
  else pure ([], args)

def ksprintfLoop : Nat → List UInt8 → List VarArg → Option (List UInt8)
  | _, [], _ => some []
  | 0, _, _ => none
  | turns + 1, c :: rest, args =>
      if c = newlineByte then (ksprintfLoop turns rest args).map (newlineByte :: ·)
      else if c ≠ byteOf '%' then (ksprintfLoop turns rest args).map (c :: ·)
      else do
        let (precision, rest, args) ← readPrecision rest args
        match rest with
        | [] => none
        | conversion :: rest =>
            let (written, args) ← ksprintfConversion precision conversion args
            (ksprintfLoop turns rest args).map (written ++ ·)

/-- The characters stored in front of the terminator. -/
def ksprintf (format : List UInt8) (args : List VarArg) : Option (List UInt8) :=
  ksprintfLoop format.length format args

end ShedKernel.Console
