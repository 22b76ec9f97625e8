import System14.Util.String
import Mathlib.Algebra.Group.Int.Defs
import Mathlib.Algebra.GroupWithZero.Nat

/-!
# The ramdisk

`tar.c` walks over a tar archive in memory and registers a `FileNode` for each
file in front of the list behind `filehead`. Files are looked up by their path.

What `malloc` returns, and what it does to the memory that is its own, is given.
-/

namespace System14
open ByteMem

/-- The nodes that `malloc` hands out, and what each call of it does to memory. -/
structure NodeMemory where
  node : Nat → Nat
  touch : Nat → Mem → Mem

/-- Memory and the globals of `tar.c`. `filehead` is `filehead.next`, and
`allocations` counts the calls of `malloc`. -/
structure Ramdisk where
  mem : Mem
  filehead : Nat := null
  ramdiskInitialized : Bool := false
  allocations : Nat := 0

/-! ### `struct FileNode` -/

namespace FileNode

def filePath (p : Nat) : Nat := p

def fileSize (m : Mem) (p : Nat) : Nat := load 4 m (p + 100)

def fileBegin (m : Mem) (p : Nat) : Nat := load 8 m (p + 104)

def next (m : Mem) (p : Nat) : Nat := load 8 m (p + 112)

def bytes : Nat := 120

end FileNode

def insertEntry (given : NodeMemory) (fuel filePath fileSize fileBegin : Nat) (s : Ramdisk) : Except Stop Ramdisk := do
  let node := given.node s.allocations
  let m := given.touch s.allocations s.mem
  let m := store 8 m (node + 112) s.filehead
  let m ← strcpy fuel (FileNode.filePath node) filePath m
  let m := store 4 m (node + 100) fileSize
  let m := store 8 m (node + 104) fileBegin
  return { s with mem := m, filehead := node, allocations := s.allocations + 1 }

/-! ### Looking up -/

def frameLoop (m : Mem) (path : Nat) : Nat → Nat → Except Stop Nat
  | 0, _ => .error .outOfFuel
  | fuel + 1, next =>
    if next ≠ null then
      if strncmp m path (FileNode.filePath next) 100 = 0 then .ok next else frameLoop m path fuel (FileNode.next m next)
    else .ok null

def rdFileGetFrame (fuel path : Nat) (s : Ramdisk) : Except Stop Nat :=
  if ¬ s.ramdiskInitialized then .ok null
  else if path = null then .ok null
  else frameLoop s.mem path fuel s.filehead

/-- `RdFileGetStream`. The `int` is converted to a `size_t`. -/
def rdFileGetStream (fuel path buffer : Nat) (n : Int) (s : Ramdisk) : Except Stop Ramdisk :=
  if ¬ s.ramdiskInitialized then .ok s
  else do
    let frame ← rdFileGetFrame fuel path s
    if frame = null then .ok s
    else if FileNode.fileBegin s.mem frame = null then .ok s
    else .ok { s with mem := memcpy s.mem buffer (FileNode.fileBegin s.mem frame) (n % 2 ^ 64).toNat }

def rdFileGetSz (fuel path : Nat) (s : Ramdisk) : Except Stop Nat :=
  if ¬ s.ramdiskInitialized then .ok 0
  else do
    let frame ← rdFileGetFrame fuel path s
    if frame = null then .ok 0 else .ok (FileNode.fileSize s.mem frame)

/-! ### Registering -/

/-- The loop of `DecodeValue`, for `j` more digits. The difference is an `int`,
converted to the type of `count`. -/
def decodeLoop (m : Mem) (value : Nat) : Nat → Nat → Nat → Nat
  | 0, ret, _ => ret
  | j + 1, ret, count =>
    let digit := ((charValue (m (value + j)) - 0x30) % 2 ^ 32).toNat
    decodeLoop m value j (uadd 32 ret (digit * count % 2 ^ 32)) (count * 8 % 2 ^ 32)

def decodeValue (m : Mem) (value : Nat) : Nat := decodeLoop m value 11 0 1

def initializeLoop (given : NodeMemory) (copyFuel : Nat) : Nat → Nat → Ramdisk → Except Stop Ramdisk
  | 0, _, _ => .error .outOfFuel
  | fuel + 1, rdstart, s =>
    if s.mem rdstart ≠ 0 then do
      let s ← insertEntry given copyFuel rdstart (decodeValue s.mem (rdstart + 124)) (uadd 64 rdstart 512) s
      let span := alignUp 32 (uadd 32 512 (decodeValue s.mem (rdstart + 124))) 512
      initializeLoop given copyFuel fuel (uadd 64 rdstart span) s
    else .ok { s with ramdiskInitialized := true }

def initializeRamdisk (given : NodeMemory) (fuel ramdiskOffset : Nat) (s : Ramdisk) : Except Stop Ramdisk :=
  initializeLoop given fuel fuel ramdiskOffset s

/-! ### The archive -/

structure TarFile where
  name : List UInt8
  content : List UInt8
  named : name ≠ []
  short : name.length ≤ 99
  text : ∀ c ∈ name, c ≠ 0
  small : content.length < 2 ^ 31

namespace TarFile

def padded (f : TarFile) : Nat := (f.content.length + 511) / 512 * 512

def span (f : TarFile) : Nat := 512 + f.padded

def octalDigit (n k : Nat) : UInt8 := UInt8.ofNat (0x30 + n / 8 ^ k % 8)

end TarFile

/-- A header and the content behind it. The other fields of the header do not matter. -/
structure HoldsEntry (m : Mem) (a : Nat) (f : TarFile) : Prop where
  name : ∀ i < 100, m (a + i) = f.name.getD i 0
  size : ∀ j < 11, m (a + 124 + j) = TarFile.octalDigit f.content.length (10 - j)
  content : ∀ i (h : i < f.content.length), m (a + 512 + i) = f.content[i]
  padding : ∀ i, f.content.length ≤ i → i < f.padded → m (a + 512 + i) = 0

/-- The archive of `files` stands at `a`, ended by a zero byte. -/
def HoldsImage (m : Mem) : Nat → List TarFile → Prop
  | a, [] => m a = 0
  | a, f :: files => HoldsEntry m a f ∧ HoldsImage m (a + f.span) files

def imageSize (files : List TarFile) : Nat := (files.map TarFile.span).sum

/-- The file that a path stands for: the last one of that name. -/
def lastFile (files : List TarFile) (path : List UInt8) : Option TarFile := files.reverse.find? fun f => f.name = path

end System14
