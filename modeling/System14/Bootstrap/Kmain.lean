import System14.Lib.Extent
import System14.Lib.Traced
import System14.Ramdisk.Tar

/-!
# Loading an executable

The last part of `_kmain` copies the file `a.out` from the ramdisk to a buffer,
checks its ELF header there and goes over its program headers. The traces record
the fields of the header and the program headers that are read.

What `malloc` and `aligned_alloc` do is given.
-/

namespace System14
open ByteMem Traced

inductive LoadEvent where
  | header (bytes : Extent)
  | pheader (i address : Nat)

abbrev LoadM := Traced LoadEvent Stop

/-- The buffer that `malloc` returns, what `malloc` does to memory, and what
`aligned_alloc` does to it for a segment of a given size. -/
structure LoadMemory where
  buffer : Nat
  touch : Mem → Mem
  segment : Nat → Mem → Mem

/-- A field of the ELF header. -/
def readHeader (n : Nat) (m : Mem) (a : Nat) : LoadM Nat := do
  emit (.header ⟨a, n⟩)
  return load n m a

/-! ### `struct ElfHeader64` and `struct ElfPheader64` -/

namespace ElfHeader64

def machine (hdr : Nat) : Nat := hdr + 18

def entry (hdr : Nat) : Nat := hdr + 24

def phoff (hdr : Nat) : Nat := hdr + 32

def phentsize (hdr : Nat) : Nat := hdr + 54

def phnum (hdr : Nat) : Nat := hdr + 56

end ElfHeader64

namespace ElfPheader64

def bytes : Nat := 56

def type (m : Mem) (phdr : Nat) : Nat := load 4 m phdr

def memsz (m : Mem) (phdr : Nat) : Nat := load 8 m (phdr + 40)

end ElfPheader64

/-! ### `_kmain` -/

def elfMagic : List UInt8 := [0x7F, 0x45, 0x4C, 0x46]

def emX86_64 : Nat := 0x3E

/-- The test of the signature, from character `i` on. It ends at the first one that differs. -/
def signatureLoop (m : Mem) (hdr : Nat) : Nat → List UInt8 → LoadM Bool
  | _, [] => return true
  | i, magic :: rest => do
    let ident ← readHeader 1 m (hdr + i)
    if ident ≠ magic.toNat then return false else signatureLoop m hdr (i + 1) rest

def phdrLoop (given : LoadMemory) (hdr firstPhdr : Nat) : Nat → Nat → Mem → LoadM Mem
  | 0, _, _ => stop .outOfFuel
  | fuel + 1, i, m => do
    let phnum ← readHeader 2 m (ElfHeader64.phnum hdr)
    if i < phnum then do
      let phdr := uadd 64 firstPhdr (i * ElfPheader64.bytes)
      emit (.pheader i phdr)
      if ElfPheader64.type m phdr = 0x1 then
        phdrLoop given hdr firstPhdr fuel (i + 1) (given.segment (ElfPheader64.memsz m phdr) m)
      else phdrLoop given hdr firstPhdr fuel (i + 1) m
    else return m

/-- What `_kmain` does with the file in its buffer. -/
def readELF (given : LoadMemory) (fuel hdr : Nat) (m : Mem) : LoadM Mem := do
  let signed ← signatureLoop m hdr 0 elfMagic
  if signed = false then return m
  else do
    let machine ← readHeader 2 m (ElfHeader64.machine hdr)
    if machine ≠ emX86_64 then return m
    else do
      -- The entry point is printed.
      let _ ← readHeader 8 m (ElfHeader64.entry hdr)
      let phoff ← readHeader 8 m (ElfHeader64.phoff hdr)
      phdrLoop given hdr (uadd 64 hdr phoff) fuel 0 m

/-- `_kmain` from where it looks up `elfTargetFileName`, to its last loop. -/
def kmainLoad (given : LoadMemory) (fuel elfTargetFileName : Nat) (s : Ramdisk) : LoadM Mem := do
  let sz ← lift (rdFileGetSz fuel elfTargetFileName s)
  if sz = 0 then return s.mem
  else if given.buffer = null then return given.touch s.mem
  else do
    let s ← lift (rdFileGetStream fuel elfTargetFileName given.buffer (u64ToInt sz) { s with mem := given.touch s.mem })
    readELF given fuel given.buffer s.mem

end System14
