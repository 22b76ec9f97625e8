import System14.Mm.Allocator

/-!
# The kernel heap

`heap.c` keeps its free blocks in a singly linked list threaded through the
blocks themselves: a block starts with a 16-byte `struct HeapNode` holding its
size and the next free block, so `sizeof(struct HeapNode)` is 16. A cursor into the list is either `&head`, the
kernel's own list head, or the address of a node in memory.

The search loop and the page-combining loop have no bound in the code, so they
take fuel here.
-/

namespace System14
open ByteMem Run

def nodeSize (m : Mem) (node : Nat) : Nat := load 8 m node

def nodeNext (m : Mem) (node : Nat) : Nat := load 8 m (node + 8)

/-- A `struct HeapNode*` cursor: `none` is `&head`. -/
abbrev HeapCursor := Option Nat

def cursorNext (s : Kernel) : HeapCursor → Nat
  | none => s.head.next
  | some node => nodeNext s.mem node

def setCursorNext (s : Kernel) (next : Nat) : HeapCursor → Kernel
  | none => { s with head := { s.head with next := next } }
  | some node => { s with mem := store 8 s.mem (node + 8) next }

def createNode (addr size : Nat) (s : Kernel) : Kernel :=
  let m := store 8 s.mem (addr + 8) s.head.next
  let m := store 8 m addr size
  { s with mem := m, head := { s.head with next := addr } }

/-- The clean-up loop: `for (int i = numPages; i > 0; i--) PageFree(initial + 4096 * i)`. -/
def releasePages (initial : Nat) : Nat → Kernel → Kernel
  | 0, s => s
  | i + 1, s => releasePages initial i (pageFree (uadd 64 initial (intToU64 (4096 * (i + 1)))) s)

variable (mode : Panic)

def combinePages (initial size : Nat) : Nat → Nat → Nat → Kernel → Except Stop (KStatus × Kernel)
  | 0, _, _, _ => .error .outOfFuel
  | fuel + 1, i, numPages, s =>
    if i < size then do
      let (page, s) ← pageAlloc mode s
      if page = null then
        return (.fail, releasePages initial numPages s)
      else
        combinePages initial size fuel (uadd 64 i 4096) (numPages + 1) s
    else
      .ok (.success, createNode initial (intToU64 (numPages * 4096)) s)

def combineBlocks (fuel size : Nat) (s : Kernel) : Except Stop (KStatus × Kernel) := do
  let (initial, s) ← pageAlloc mode s
  combinePages mode initial size fuel 0 0 s

/-- The second half of the search loop's body: test `current->next` and unlink
it, or move on to it. -/
def tryNext (size : Nat) (next : HeapCursor → Kernel → Except Stop (Nat × Kernel)) (current : HeapCursor)
    (s : Kernel) : Except Stop (Nat × Kernel) :=
  let node := cursorNext s current
  if node = null then .error .nullDereference
  else if uadd 64 16 size ≤ nodeSize s.mem node then
    .ok (node, setCursorNext s (nodeNext s.mem node) current)
  else next (some node) s

def findFrom (size : Nat) : Nat → HeapCursor → Kernel → Except Stop (Nat × Kernel)
  | 0, _, _ => .error .outOfFuel
  | fuel + 1, current, s =>
    if cursorNext s current = null then
      if uadd 64 size 16 ≥ 4096 then do
        let (status, s) ← combineBlocks mode fuel size s
        if status = .fail then return (null, s) else findFrom size fuel none s
      else do
        let (newblock, s) ← pageAlloc mode s
        if newblock = null then return (null, s)
        else tryNext size (findFrom size fuel) current (createNode newblock 4096 s)
    else tryNext size (findFrom size fuel) current s

def findAndRemoveNode (fuel size : Nat) (s : Kernel) : Except Stop (Nat × Kernel) :=
  findFrom mode size fuel none s

def alloc (fuel size alignment : Nat) (s : Kernel) : Except Stop (Nat × Kernel) := do
  let (node, s) ← findAndRemoveNode mode fuel (uadd 64 size (usub 64 alignment 1)) s
  if node = null then return (null, s)
  -- `ALIGN_UP` divides by the alignment.
  if alignment = 0 then Except.error Stop.divideError
  let base := uadd 64 node 16
  let baseAlign := alignUp 64 base alignment
  let stop := uadd 64 baseAlign size
  let innerSize := usub 64 (nodeSize s.mem node) 16
  let extraSize := usub 64 innerSize size
  if extraSize > 0 then
    let s := createNode stop extraSize s
    let s := { s with mem := store 8 s.mem node (usub 64 (nodeSize s.mem node) extraSize) }
    return (base, s)
  else return (base, s)

def malloc (fuel size : Nat) (s : Kernel) : Except Stop (Nat × Kernel) := alloc mode fuel size 1 s

def alignedAlloc (fuel alignment size : Nat) (s : Kernel) : Except Stop (Nat × Kernel) := do
  let (node, s) ← alloc mode fuel size alignment s
  if node = null then return (null, s)
  return (alignUp 64 node alignment, s)

def calloc (fuel size : Nat) (s : Kernel) : Except Stop (Nat × Kernel) := do
  let (r, s) ← malloc mode fuel size s
  if r = null then return (r, s)
  return (r, { s with mem := memset s.mem r 0 size })

def heapFree (addr : Nat) (s : Kernel) : Kernel :=
  let prevNode := usub 64 addr 16
  createNode prevNode (nodeSize s.mem prevNode) s

end System14
