import System14.Lib.Run
import System14.Util.Memutil

/-!
# Kernel state

The memory manager's globals and the physical memory they describe. Pointers
are physical addresses: the kernel reaches all of memory through its identity
mapping. The kernel's own variables live in its image, outside the memory that
the page allocator manages.
-/

namespace System14
open ByteMem

inductive Stop where
  | panic (message : String)
  | nullDereference
  | pageFault
  | divideError
  | signedOverflow
  | missingArgument
  | outOfBounds
  | outOfFuel
  deriving DecidableEq, Repr

/-- How a call of `panic` is read: the code halts the machine, so the statement
after the call is unreachable; `returns` follows that statement instead. -/
inductive Panic where
  | halts | returns
  deriving DecidableEq, Repr

def panic (mode : Panic) (message : String) : Except Stop Unit :=
  match mode with
  | .halts => .error (.panic message)
  | .returns => .ok ()

abbrev null : Nat := 0

inductive KStatus where
  | success | fail
  deriving DecidableEq, Repr

inductive MemmapType where
  | usable | reserved | acpiReclaimable | acpiNvs | badMemory | bootloaderReclaimable
  | kernelAndModules | framebuffer
  deriving DecidableEq, Repr

structure MemmapEntry where
  base : Nat
  length : Nat
  type : MemmapType
  base_lt : base < 2 ^ 64 := by decide
  length_lt : length < 2 ^ 64 := by decide
  deriving DecidableEq

structure HeapNode where
  size : Nat
  next : Nat
  deriving DecidableEq, Repr

structure GlobalPagingInfo where
  mmap : List MemmapEntry
  hhdmBase : Nat
  kernelSize : Nat
  kernelPhysBase : Nat
  kernelVirtBase : Nat
  fbBase : Nat
  fbSize : Nat
  deriving DecidableEq

/-- Physical memory and the globals of `allocator.c`, `heap.c` and `paging.c`. -/
structure Kernel where
  mem : Mem
  frameList : Nat := 0
  largestMemSegSize : Nat := 0
  head : HeapNode := ⟨0, null⟩
  pml4 : Nat := null
  globalPagingInfo : GlobalPagingInfo := ⟨[], 0, 0, 0, 0, 0, 0⟩

end System14
