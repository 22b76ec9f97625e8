import System14.Lib.Traced
import System14.Util.Numbers

/-!
# `printf`

`printf` of `util/print.c` goes over its format and sends characters to
`putchar`. An ordinary character is printed by another call of `printf`. The
traces record the characters of a format that are looked at, each once, and what
is sent to `putchar`.
-/

namespace System14
open ByteMem Traced

/-- A character of the format that starts at `format`, or one that is printed. -/
inductive PrintEvent where
  | read (format address : Nat)
  | putchar (c : UInt8)

abbrev PrintM := Traced PrintEvent Stop

inductive Arg where
  | int (v : BitVec 32)
  | string (p : Nat)
  | word (v : BitVec 64)

/-- Where the static buffers of `itoa` and `hexToString` are, and the texts of
the hexadecimal digits and of the format `%c`. -/
structure PrintMemory where
  ret : Nat
  hexString : Nat
  hexChars : Nat
  percentC : Nat

def readFormat (m : Mem) (format address : Nat) : PrintM UInt8 := do
  emit (.read format address)
  return m address

/-- `print` -/
def printString (m : Mem) : Nat → Nat → PrintM Unit
  | 0, _ => stop .outOfFuel
  | fuel + 1, str =>
    if m str ≠ 0 then do
      emit (.putchar (m str))
      printString m fuel (str + 1)
    else return ()

def vaInt : List Arg → PrintM (BitVec 32 × List Arg)
  | .int v :: args => return (v, args)
  | _ => stop .missingArgument

def vaString : List Arg → PrintM (Nat × List Arg)
  | .string p :: args => return (p, args)
  | _ => stop .missingArgument

def vaWord : List Arg → PrintM (BitVec 64 × List Arg)
  | .word v :: args => return (v, args)
  | _ => stop .missingArgument

/-- What `printf` does for the character behind a `%`. -/
def convert (given : PrintMemory) (fuel : Nat) (c : UInt8) (args : List Arg) (m : Mem) : PrintM (List Arg × Mem) :=
  if c = 0x64 then do -- %d
    let (v, args) ← vaInt args
    let (text, m) ← lift (itoa fuel given.ret v.toInt m)
    printString m fuel text
    return (args, m)
  else if c = 0x73 then do -- %s
    let (v, args) ← vaString args
    printString m fuel v
    return (args, m)
  else if c = 0x78 then do -- %x
    let (v, args) ← vaWord args
    let (text, m) ← lift (hexToString fuel given.hexChars given.hexString v.toNat m)
    printString m fuel text
    return (args, m)
  else if c = 0x63 then do -- %c
    let (v, args) ← vaInt args
    emit (.putchar (UInt8.ofNat v.toNat))
    return (args, m)
  else return (args, m)

/-- The loop of the call of `printf` whose format starts at `start`. -/
def printfLoop (given : PrintMemory) (textFuel : Nat) : Nat → Nat → Nat → List Arg → Mem → PrintM Mem
  | 0, _, _, _, _ => stop .outOfFuel
  | fuel + 1, start, format, args, m => do
    let c ← readFormat m start format
    if c = 0 then return m
    else if c = 0x25 then do
      let c ← readFormat m start (format + 1)
      let (args, m) ← convert given textFuel c args m
      printfLoop given textFuel fuel start (format + 2) args m
    else do
      let m ← printfLoop given textFuel fuel given.percentC given.percentC [.int (.ofInt 32 (charValue c))] m
      printfLoop given textFuel fuel start (format + 1) args m

def printf (given : PrintMemory) (fuel format : Nat) (args : List Arg) (m : Mem) : PrintM Mem :=
  printfLoop given fuel fuel format format args m

end System14
