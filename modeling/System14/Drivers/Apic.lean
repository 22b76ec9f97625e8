import System14.Kernel.State
import System14.Lib.Extent
import System14.Lib.Traced

/-!
# The interrupt controllers

`apic.c` finds the I/O APIC by walking over the structures of the MADT, and
routes interrupt lines through the register-select and data words of the chip.
The traces record the bytes of the table that are read and the words that are
written to the chip.
-/

namespace System14
open ByteMem Traced

inductive ApicEvent where
  | read (bytes : Extent)
  | write (target value : Nat)

abbrev ApicM := Traced ApicEvent Stop

/-- The globals of `apic.c`. -/
structure Apic where
  localAPIC : Nat := null
  ioAPIC : Nat := null

def fetch (n : Nat) (m : Mem) (a : Nat) : ApicM Nat := do
  emit (.read ⟨a, n⟩)
  return load n m a

/-! ### The registers of the chip -/

def ioapicVerMaxRedir : Nat := 0x01

def ioapicRedirEntriesBase : Nat := 0x10

/-- `IOAPICRead`. What the chip at `ioapicBase` answers is given. -/
def ioapicRead (device : Nat → Nat → Nat) (ioapicBase reg : Nat) : ApicM Nat := do
  emit (.write ioapicBase (reg % 256))
  return device ioapicBase (reg % 256)

def ioapicWrite (ioapicBase reg value : Nat) : ApicM Unit := do
  emit (.write ioapicBase (reg % 256))
  emit (.write (ioapicBase + 16) value)

structure IOAPICRedirectionEntry where
  interruptVector : BitVec 8
  deliveryMode : BitVec 3
  destinationMode : BitVec 1
  busy : BitVec 1
  polarity : BitVec 1
  ltiStatus : BitVec 1
  triggerMode : BitVec 1
  interruptMask : BitVec 1
  reserved : BitVec 39
  destination : BitVec 8

/-- The packed structure as a 64-bit value, its first field lowest. -/
def IOAPICRedirectionEntry.raw (e : IOAPICRedirectionEntry) : BitVec 64 :=
  e.destination ++ e.reserved ++ e.interruptMask ++ e.triggerMode ++ e.ltiStatus ++ e.polarity ++ e.busy ++
    e.destinationMode ++ e.deliveryMode ++ e.interruptVector

/-- The structure that lies over a 64-bit value. -/
def IOAPICRedirectionEntry.ofRaw (fullValue : BitVec 64) : IOAPICRedirectionEntry where
  interruptVector := fullValue.extractLsb' 0 8
  deliveryMode := fullValue.extractLsb' 8 3
  destinationMode := fullValue.extractLsb' 11 1
  busy := fullValue.extractLsb' 12 1
  polarity := fullValue.extractLsb' 13 1
  ltiStatus := fullValue.extractLsb' 14 1
  triggerMode := fullValue.extractLsb' 15 1
  interruptMask := fullValue.extractLsb' 16 1
  reserved := fullValue.extractLsb' 17 39
  destination := fullValue.extractLsb' 56 8

def ioapicReadRedirectionEntry (device : Nat → Nat → Nat) (ioapicBase offset : Nat) : ApicM IOAPICRedirectionEntry :=
  if offset % 2 ≠ 0 then return .ofRaw 0
  else do
    let spl0 ← ioapicRead device ioapicBase (uadd 32 ioapicRedirEntriesBase offset)
    let spl1 ← ioapicRead device ioapicBase (uadd 32 ioapicRedirEntriesBase (uadd 32 offset 1))
    let fullValue := BitVec.ofNat 64 spl1 <<< 32 ||| BitVec.ofNat 64 spl0
    return .ofRaw fullValue

def ioapicWriteRedirectionEntry (ioapicBase offset : Nat) (value : IOAPICRedirectionEntry) : ApicM KStatus :=
  if offset % 2 ≠ 0 then return .fail
  else do
    let raw := value.raw.toNat
    ioapicWrite ioapicBase (uadd 32 ioapicRedirEntriesBase offset) (raw % 2 ^ 32)
    ioapicWrite ioapicBase (uadd 32 ioapicRedirEntriesBase (uadd 32 offset 1)) (raw / 2 ^ 32)
    return .success

def routed (vector : BitVec 8) : IOAPICRedirectionEntry where
  interruptVector := vector
  deliveryMode := 0
  destinationMode := 0
  busy := 0
  polarity := 0
  ltiStatus := 0
  triggerMode := 0
  interruptMask := 0
  reserved := 0
  destination := 0

def ioapicRegisterIRQ (vector : BitVec 8) (pin : UInt8) (s : Apic) : ApicM Unit := do
  let _ ← ioapicWriteRedirectionEntry s.ioAPIC (pin.toNat * 2) (routed vector)
  return ()

/-! ### The MADT -/

namespace MADT

def length (m : Mem) (madt : Nat) : Nat := load 4 m (madt + 4)

/-- `ICStructBase`, where the interrupt controller structures start. -/
def icStructBase (madt : Nat) : Nat := madt + 44

end MADT

/-- `madt->Length - sizeof(struct MADT) + 2`, a `size_t` converted to a `uint32_t`. -/
def madtRest (length : Nat) : Nat := uadd 64 (usub 64 length 46) 2 % 2 ^ 32

/-- The loop of `InitializeAPIC`: the bytes left, the current structure, and the
I/O APIC structure found last. -/
def madtLoop (m : Mem) : Nat → Nat → Nat → Nat → Apic → ApicM (Nat × Apic)
  | 0, _, _, _, _ => stop .outOfFuel
  | fuel + 1, length, current, ioapic, s =>
    if length > 0 then do
      let type ← fetch 1 m current
      if type = 0x1 then do
        let address ← fetch 4 m (current + 4)
        -- Both fields are printed.
        let _ ← fetch 4 m (current + 4)
        let _ ← fetch 4 m (current + 8)
        let less ← fetch 1 m (current + 1)
        let span ← fetch 1 m (current + 1)
        madtLoop m fuel (usub 32 length less) (uadd 64 current span) current { s with ioAPIC := address }
      else do
        let _ ← fetch 1 m current
        let less ← fetch 1 m (current + 1)
        let span ← fetch 1 m (current + 1)
        madtLoop m fuel (usub 32 length less) (uadd 64 current span) ioapic s
    else return (ioapic, s)

/-- `InitializeAPIC`, with the MADT that `GetMADT` returns. -/
def initializeAPIC (device : Nat → Nat → Nat) (m : Mem) (fuel madt : Nat) (s : Apic) : ApicM Apic := do
  let base ← fetch 4 m (madt + 36)
  let length ← fetch 4 m (madt + 4)
  let (ioapic, s) ← madtLoop m fuel (madtRest length) (MADT.icStructBase madt) null { s with localAPIC := base }
  if ioapic = null then return s
  let address ← fetch 4 m (ioapic + 4)
  -- The number of pins is printed.
  let _ ← ioapicRead device address ioapicVerMaxRedir
  return s

end System14
