import System14.Lib.BitField
import System14.Lib.Radix
import System14.Mm.Allocator

/-!
# Paging

`paging.c` builds four-level page tables in frames of the page allocator. A
table is 512 entries of 8 bytes; an entry is the packed `struct PTE`. The
bit-field assignments are read-modify-write accesses of the entry's word.

The walk that the processor makes through these tables is `translate`.
-/

namespace System14
open ByteMem Run Radix

/-! ### Entries -/

namespace PTE

def present : BitField := ⟨0, 1⟩
def rw : BitField := ⟨1, 1⟩
def userSupervisor : BitField := ⟨2, 1⟩
def pageSize : BitField := ⟨7, 1⟩
def physAddr : BitField := ⟨12, 40⟩

end PTE

inductive PageSizes where
  | _4K | _2M
  deriving DecidableEq, Repr

def entryAddr (table entry : Nat) : Nat := table + 8 * entry

def entryWord (m : Mem) (table entry : Nat) : Nat := load 8 m (entryAddr table entry)

def setEntry (field : BitField) (table entry value : Nat) (s : Kernel) : Kernel :=
  { s with mem := store 8 s.mem (entryAddr table entry) (field.set (entryWord s.mem table entry) value) }

/-- The index of `virt` into the tables of a level, level 0 being the page tables. -/
def tableIndex (level virt : Nat) : Nat := (BitField.mk (12 + 9 * level) 9).get virt

/-! ### Building tables -/

variable (mode : Panic)

def getEntryNextLevel (currLevel entry : Nat) (s : Kernel) : Except Stop (Nat × Kernel) :=
  if currLevel = null then .ok (null, s)
  else if PTE.present.get (entryWord s.mem currLevel entry) = 0 then do
    let (newalloc, s) ← pageAlloc mode s
    let s := setEntry PTE.physAddr currLevel entry (newalloc >>> 12) s
    let s := setEntry PTE.present currLevel entry 1 s
    let s := setEntry PTE.rw currLevel entry 1 s
    return (newalloc, s)
  else
    -- The shift is done in the 40 bits of the field's type.
    .ok ((PTE.physAddr.get (entryWord s.mem currLevel entry) <<< 12) % 2 ^ 40, s)

def setLeaf (t index phys : Nat) (size : PageSizes) (user : Bool) (s : Kernel) : Kernel :=
  let s := setEntry PTE.present t index 1 s
  let s := setEntry PTE.rw t index 1 s
  let s := setEntry PTE.physAddr t index (phys >>> 12) s
  let s := if size = ._2M then setEntry PTE.pageSize t index 1 s else s
  if user then setEntry PTE.userSupervisor t index 1 s else s

/-- The table and the index of the entry that maps a page, given the page's page directory. -/
def leafEntry (pdpt virt : Nat) (size : PageSizes) (s : Kernel) : Except Stop (Nat × Nat × Kernel) := do
  match size with
  | ._2M =>
    let (t, s) ← getEntryNextLevel mode pdpt (tableIndex 2 virt) s
    return (t, tableIndex 1 virt, s)
  | ._4K =>
    let (pd, s) ← getEntryNextLevel mode pdpt (tableIndex 2 virt) s
    let (pt, s) ← getEntryNextLevel mode pd (tableIndex 1 virt) s
    return (pt, tableIndex 0 virt, s)

def mapMemory (tgtPml4 virt phys : Nat) (size : PageSizes) (user : Bool) (s : Kernel) :
    Except Stop (KStatus × Kernel) := do
  let (pdpt, s) ← getEntryNextLevel mode tgtPml4 (tableIndex 3 virt) s
  let (t, index, s) ← leafEntry mode pdpt virt size s
  if t = null then return (.fail, s)
  return (.success, setLeaf t index phys size user s)

def mapPage (target virt phys : Nat) (size : PageSizes) (user : Bool) (s : Kernel) : Except Stop Kernel := do
  let (_, s) ← mapMemory mode target virt phys size user s
  return s

def forLoop (body : Nat → Kernel → Except Stop Kernel) (stop step : Nat) : Nat → Nat → Kernel → Except Stop Kernel
  | 0, _, _ => .error .outOfFuel
  | fuel + 1, i, s =>
    if i < stop then do
      let s ← body i s
      forLoop body stop step fuel (uadd 64 i step) s
    else .ok s

def mapKernel (fuel target : Nat) (info : GlobalPagingInfo) : Kernel → Except Stop Kernel :=
  forLoop (fun i => mapPage mode target (uadd 64 info.kernelVirtBase i) (uadd 64 info.kernelPhysBase i) ._4K false)
    info.kernelSize 4096 fuel 0

def mapTwice (fuel target : Nat) (info : GlobalPagingInfo) (size : PageSizes) (start stop step : Nat) :
    Kernel → Except Stop Kernel :=
  forLoop (fun i s => do
    let s ← mapPage mode target i i size false s
    mapPage mode target (uadd 64 info.hhdmBase i) i size false s) stop step fuel start

def createDefaultMappings (fuel targetPML4 : Nat) (s : Kernel) : Except Stop Kernel := do
  let info := s.globalPagingInfo
  let s ← mapKernel mode fuel targetPML4 info s
  let s ← forLoop (fun i s => do
    let s ← if i ≠ 0 then mapPage mode targetPML4 i i ._4K false s else .ok s
    mapPage mode targetPML4 (uadd 64 info.hhdmBase i) i ._4K false s) 0x200000 4096 fuel 0 s
  let s ← mapTwice mode fuel targetPML4 info ._2M 0x200000 0x40000000 0x200000 s
  let s ← mapTwice mode fuel targetPML4 info ._4K 0x40000000 0x100000000 0x1000 s
  let s ← info.mmap.foldlM (fun s entry =>
    forLoop (fun j s => if j % 4096 ≠ 0 then .ok s else mapPage mode targetPML4 j j ._4K false s)
      (uadd 64 entry.base entry.length) 4096 fuel entry.base s) s
  forLoop (fun i => mapPage mode targetPML4 i (usub 64 i info.hhdmBase) ._4K false)
    (uadd 64 info.fbBase info.fbSize) 4096 fuel info.fbBase s

def createProcessPML4 (fuel start stop : Nat) (inKernelCode : Bool) (s : Kernel) : Except Stop (Nat × Kernel) := do
  let info := s.globalPagingInfo
  let (newpml, s) ← pageAlloc mode s
  let offset := if inKernelCode then info.kernelVirtBase else 0
  let s ← mapTwice mode fuel newpml info ._2M 0x200000 0x40000000 0x200000 s
  let s ← mapKernel mode fuel newpml info s
  let s ← if inKernelCode then .ok s else
    forLoop (fun addr => mapPage mode newpml (uadd 64 addr offset) addr ._4K true) stop 4096 fuel start s
  return (newpml, s)

/-- `InitializePaging`, up to the load of `cr3`. -/
def initializePaging (fuel : Nat) (info : GlobalPagingInfo) (s : Kernel) : Except Stop Kernel := do
  let (pml4, s) ← pageAlloc mode s
  createDefaultMappings mode fuel pml4 { s with pml4 := pml4, globalPagingInfo := info }

/-- `AllocatePage`, for a current process whose page tables are at `cr3`. -/
def allocatePage (cr3 : Nat) (s : Kernel) : Except Stop (Nat × Kernel) := do
  let (page, s) ← pageAlloc mode s
  let s ← mapPage mode cr3 page page ._4K true s
  return (page, s)

/-! ### The hardware walk -/

/-- How the processor reads an entry of a table at `level`. -/
def entrySlot (level word : Nat) : Slot Nat Nat :=
  if PTE.present.get word = 0 then .empty
  else if level = 0 ∨ level = 1 ∧ PTE.pageSize.get word = 1 then .page (PTE.physAddr.get word * 4096)
  else .table (PTE.physAddr.get word * 4096)

def tableView (m : Mem) : View Nat Nat (Fin 512) := fun level table entry => entrySlot level (entryWord m table entry)

def walkPath (virt : Nat) : Nat → Fin 512 := fun level => ⟨tableIndex level virt, BitField.get_lt⟩

/-- The physical address behind `virt` in the tables at `root`, `none` if it is not present. -/
def translate (m : Mem) (root virt : Nat) : Option Nat :=
  match lookup (tableView m) 3 root (walkPath virt) with
  | none => none
  | some (level, phys) => some (phys + virt % 2 ^ (12 + 9 * level))

end System14
