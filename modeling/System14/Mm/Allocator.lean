import System14.Kernel.State
import Mathlib.Data.Nat.Find

/-!
# The page frame allocator

`allocator.c` keeps an array `FrameList` of frame descriptors at the start of
the largest usable memory region. A descriptor is 16 bytes: the frame's address
and, in the lowest bit of byte 8, whether the frame is free.

`FrameTable` is the layout that `initializeAllocator` establishes.
`pageAlloc_ok` and `pageFree_apply` say what one call does to memory.
-/

namespace System14
open ByteMem Run

/-! ### Frame descriptors -/

def frameEntry (s : Kernel) (i : Nat) : Nat := s.frameList + 16 * i

def framePtr (s : Kernel) (i : Nat) : Nat := load 8 s.mem (frameEntry s i)

def frameFree (s : Kernel) (i : Nat) : Bool := (s.mem (frameEntry s i + 8)).toNat % 2 == 1

/-- The byte of a descriptor after its bit-field `free` is assigned. -/
def freeByte (old : UInt8) (free : Bool) : UInt8 := UInt8.ofNat (old.toNat - old.toNat % 2 + free.toNat)

def setFrameFree (s : Kernel) (i : Nat) (free : Bool) : Kernel :=
  { s with mem := Function.update s.mem (frameEntry s i + 8) (freeByte (s.mem (frameEntry s i + 8)) free) }

def frameCount (s : Kernel) : Nat := s.largestMemSegSize / 0x1000

/-! ### The code -/

/-- One round of the loop over the memory map, on `largestEntryLength` and `largestEntry`. -/
def selectStep (best : Nat × MemmapEntry) (entry : MemmapEntry) : Nat × MemmapEntry :=
  match entry.type with
  | .usable => if entry.length > best.1 then (entry.length, entry) else best
  | _ => best

def largestUsable (mmap : List MemmapEntry) : Nat × MemmapEntry :=
  mmap.foldl selectStep (0, { base := 0, length := 0, type := .usable })

def selectedEntry (mmap : List MemmapEntry) : MemmapEntry := (largestUsable mmap).2

def fillFrameList (frameList : Nat) : Nat → Nat → Nat → Mem → Mem
  | 0, _, _, m => m
  | count + 1, i, nextAddr, m =>
    let entry := frameList + 16 * i
    let m := store 8 m entry nextAddr
    let m := Function.update m (entry + 8) 1
    fillFrameList frameList count (i + 1) (uadd 64 nextAddr 0x1000) m

def initializeAllocator (mode : Panic) (mmap : List MemmapEntry) (s : Kernel) : Except Stop Kernel := do
  let largestEntry := selectedEntry mmap
  if largestEntry.length = 0 then panic mode "Detected no free memory!"
  let count := largestEntry.length / 0x1000
  let nextAddr := alignUp 64 (uadd 64 largestEntry.base (16 * count)) 0x1000
  return { s with
    mem := fillFrameList largestEntry.base count 0 nextAddr s.mem
    frameList := largestEntry.base
    largestMemSegSize := largestEntry.length }

/-- `PageAlloc`: the first free frame, marked used and cleared. -/
def pageAlloc (mode : Panic) (s : Kernel) : Except Stop (Nat × Kernel) :=
  match (List.range (frameCount s)).find? (frameFree s) with
  | some i =>
    let s := setFrameFree s i false
    let s := { s with mem := memset s.mem (framePtr s i) 0 0x1000 }
    .ok (framePtr s i, s)
  | none => do
    panic mode "No free mem left!"
    return (null, s)

/-- `PageFree`: every frame recorded at `addr` becomes free. -/
def pageFree (addr : Nat) (s : Kernel) : Kernel :=
  (List.range (frameCount s)).foldl
    (fun s i => if framePtr s i = addr then setFrameFree s i true else s) s

/-! ### Frame descriptors in memory -/

@[simp] theorem setFrameFree_frameList (s : Kernel) (i : Nat) (free : Bool) :
    (setFrameFree s i free).frameList = s.frameList := rfl

@[simp] theorem frameEntry_setFrameFree (s : Kernel) (i j : Nat) (free : Bool) :
    frameEntry (setFrameFree s i free) j = frameEntry s j := rfl

theorem setFrameFree_apply {s : Kernel} {i x : Nat} {free : Bool} (other : x ≠ frameEntry s i + 8) :
    (setFrameFree s i free).mem x = s.mem x := Function.update_of_ne other _ _

theorem framePtr_setFrameFree (s : Kernel) (i j : Nat) (free : Bool) :
    framePtr (setFrameFree s i free) j = framePtr s j := by
  refine load_congr fun x low high => setFrameFree_apply ?_
  simp only [frameEntry, setFrameFree_frameList] at low high ⊢
  omega

theorem freeByte_bit (old : UInt8) (free : Bool) : (freeByte old free).toNat % 2 = free.toNat := by
  have := old.toNat_lt
  have := free.toNat_lt
  simp only [freeByte, UInt8.toNat_ofNat']
  omega

theorem frameFree_setFrameFree (s : Kernel) (i j : Nat) (free : Bool) :
    frameFree (setFrameFree s i free) j = if j = i then free else frameFree s j := by
  by_cases same : j = i
  · subst j
    have bit := freeByte_bit (s.mem (frameEntry s i + 8)) free
    cases free <;> simp [frameFree, setFrameFree, frameEntry] at bit ⊢ <;> omega
  · rw [if_neg same, frameFree, frameFree, frameEntry_setFrameFree, setFrameFree_apply]
    simp only [frameEntry]
    omega

/-! ### The layout of the frame table -/

/-- `FrameList` records the frames `first`, `first + 4096`, …, all of them past
the end of the array itself. -/
structure FrameTable (s : Kernel) (first : Nat) : Prop where
  ptr : ∀ i < frameCount s, framePtr s i = first + 4096 * i
  aligned : 4096 ∣ first
  above : s.frameList + 16 * frameCount s ≤ first
  fits : first + 4096 * frameCount s < 2 ^ 64

structure SameTable (s t : Kernel) : Prop where
  frameList : t.frameList = s.frameList
  largestMemSegSize : t.largestMemSegSize = s.largestMemSegSize
  mem : ∀ x, s.frameList ≤ x → x < s.frameList + 16 * frameCount s → t.mem x = s.mem x

theorem SameTable.count {s t : Kernel} (same : SameTable s t) : frameCount t = frameCount s := by
  simp only [frameCount, same.largestMemSegSize]

theorem SameTable.trans {s t u : Kernel} (one : SameTable s t) (two : SameTable t u) : SameTable s u := by
  refine ⟨two.frameList.trans one.frameList, two.largestMemSegSize.trans one.largestMemSegSize, fun x low high => ?_⟩
  rw [two.mem x (by rw [one.frameList]; exact low) (by rw [one.frameList, one.count]; exact high), one.mem x low high]

theorem SameTable.free {s t : Kernel} (same : SameTable s t) {i : Nat} (lt : i < frameCount s) :
    frameFree t i = frameFree s i := by
  simp only [frameFree, frameEntry, same.frameList]
  rw [same.mem _ (by omega) (by omega)]

theorem SameTable.ptr {s t : Kernel} (same : SameTable s t) {i : Nat} (lt : i < frameCount s) :
    framePtr t i = framePtr s i := by
  simp only [framePtr, frameEntry, same.frameList]
  exact load_congr fun x low high => same.mem x (by omega) (by omega)

theorem FrameTable.congr {s t : Kernel} {first : Nat} (table : FrameTable s first) (same : SameTable s t) :
    FrameTable t first := by
  have count := same.count
  refine ⟨fun i lt => ?_, table.aligned, ?_, ?_⟩
  · rw [count] at lt
    rw [same.ptr lt, table.ptr i lt]
  · rw [count, same.frameList]
    exact table.above
  · rw [count]
    exact table.fits

theorem FrameTable.setFree {s : Kernel} {first : Nat} (table : FrameTable s first) (i : Nat) (free : Bool) :
    FrameTable (setFrameFree s i free) first :=
  ⟨fun j lt => (framePtr_setFrameFree s i j free).trans (table.ptr j lt), table.aligned, table.above, table.fits⟩

/-! ### One allocation -/

/-- What a successful `pageAlloc` does: it hands out the first free frame,
cleared, and changes nothing else but that frame's `free` bit. -/
structure Granted (s : Kernel) (first i p : Nat) (t : Kernel) : Prop where
  lt : i < frameCount s
  free : frameFree s i = true
  least : ∀ j < i, frameFree s j = false
  page : p = first + 4096 * i
  globals : t = { s with mem := t.mem }
  zero : ∀ x, p ≤ x → x < p + 4096 → t.mem x = 0
  keep : ∀ x, x < p ∨ p + 4096 ≤ x → x ≠ frameEntry s i + 8 → t.mem x = s.mem x
  taken : ∀ j < frameCount s, frameFree t j = if j = i then false else frameFree s j
  table : FrameTable t first

theorem Granted.count {s t : Kernel} {first i p : Nat} (granted : Granted s first i p t) :
    frameCount t = frameCount s := by
  rw [granted.globals]
  rfl

theorem Granted.list {s t : Kernel} {first i p : Nat} (granted : Granted s first i p t) :
    t.frameList = s.frameList := by
  rw [granted.globals]

theorem Granted.taken_free {s t : Kernel} {first i p j : Nat} (granted : Granted s first i p t) (lt : j < frameCount s)
    (free : frameFree t j = true) : frameFree s j = true := by
  rw [granted.taken j lt] at free
  split at free
  · cases free
  · exact free

theorem Granted.writes {s t : Kernel} {first i p x : Nat} (granted : Granted s first i p t) (changed : t.mem x ≠ s.mem x) :
    (s.frameList ≤ x ∧ x < s.frameList + 16 * frameCount s) ∨ (p ≤ x ∧ x < p + 4096) := by
  have lt := granted.lt
  by_cases flag : x = frameEntry s i + 8
  · unfold frameEntry at flag
    exact Or.inl (by omega)
  · apply Or.inr
    by_contra outside
    exact changed (granted.keep x (by omega) flag)

theorem pageAlloc_grants (mode : Panic) {s : Kernel} {first i : Nat} (table : FrameTable s first)
    (lt : i < frameCount s) (free : frameFree s i = true) (least : ∀ j < i, frameFree s j = false) :
    ∃ t, pageAlloc mode s = .ok (first + 4096 * i, t) ∧ Granted s first i (first + 4096 * i) t := by
  have found : (List.range (frameCount s)).find? (frameFree s) = some i := by
    rw [List.find?_range_eq_some]
    exact ⟨free, List.mem_range.mpr lt, fun j below => by simp [least j below]⟩
  have above := table.above
  let u := setFrameFree s i false
  have ptr : framePtr u i = first + 4096 * i := (framePtr_setFrameFree s i i false).trans (table.ptr i lt)
  let t : Kernel := { u with mem := memset u.mem (first + 4096 * i) 0 0x1000 }
  -- Clearing the frame does not reach the table, which ends below the first frame.
  have same : SameTable u t := by
    refine ⟨rfl, rfl, fun x _ high => ?_⟩
    have high : x < s.frameList + 16 * frameCount s := high
    show memset _ _ _ _ x = _
    rw [memset_apply, if_neg (by omega)]
  have ptrAfter : framePtr t i = first + 4096 * i := (same.ptr lt).trans ptr
  refine ⟨t, ?_, lt, free, least, rfl, rfl, ?_, ?_, ?_, (table.setFree i false).congr same⟩
  · simp only [pageAlloc, found]
    show Except.ok (framePtr { u with mem := memset u.mem (framePtr u i) 0 0x1000 } i,
      { u with mem := memset u.mem (framePtr u i) 0 0x1000 }) = _
    rw [ptr]
    exact congrArg (fun p => Except.ok (p, t)) ptrAfter
  · intro x low high
    show memset _ _ _ _ x = _
    rw [memset_apply, if_pos ⟨low, high⟩]
    rfl
  · intro x outside other
    show memset _ _ _ _ x = _
    rw [memset_apply, if_neg (by omega)]
    exact setFrameFree_apply other
  · intro j below
    rw [same.free below]
    exact frameFree_setFrameFree s i j false

theorem pageAlloc_exhausted {mode : Panic} {s : Kernel} (none : ∀ i < frameCount s, frameFree s i = false) :
    pageAlloc mode s = (do panic mode "No free mem left!"; return (null, s)) := by
  have absent : (List.range (frameCount s)).find? (frameFree s) = Option.none := by
    rw [List.find?_range_eq_none]
    exact fun i lt => by simp [none i lt]
  simp only [pageAlloc, absent]

theorem first_free_or_none (s : Kernel) :
    (∀ i < frameCount s, frameFree s i = false) ∨
      ∃ i < frameCount s, frameFree s i = true ∧ ∀ j < i, frameFree s j = false := by
  by_cases any : ∃ i, i < frameCount s ∧ frameFree s i = true
  · refine Or.inr ⟨Nat.find any, (Nat.find_spec any).1, (Nat.find_spec any).2, fun j below => ?_⟩
    have notFree := Nat.find_min any below
    have := (Nat.find_spec any).1
    simpa [show j < frameCount s by omega] using notFree
  · refine Or.inl fun i lt => ?_
    simpa using fun free => any ⟨i, lt, free⟩

theorem pageAlloc_ok {s t : Kernel} {first p : Nat} (table : FrameTable s first)
    (h : pageAlloc .halts s = .ok (p, t)) : ∃ i, Granted s first i p t := by
  rcases first_free_or_none s with none | ⟨i, lt, free, least⟩
  · rw [pageAlloc_exhausted none] at h
    cases h
  · obtain ⟨u, call, granted⟩ := pageAlloc_grants .halts table lt free least
    rw [call] at h
    cases h
    exact ⟨i, granted⟩

/-! ### One release -/

theorem pageFree_fold {s u : Kernel} {first : Nat} (addr : Nat) (is : List Nat)
    (bounded : ∀ i ∈ is, i < frameCount s) (start : FrameTable u first) (count : frameCount u = frameCount s)
    (list : u.frameList = s.frameList) :
    let t := is.foldl (fun s i => if framePtr s i = addr then setFrameFree s i true else s) u
    t = { u with mem := t.mem } ∧ FrameTable t first ∧
      (∀ x, (∀ i ∈ is, first + 4096 * i = addr → x ≠ frameEntry s i + 8) → t.mem x = u.mem x) ∧
      (∀ j, frameFree t j = (frameFree u j || decide (j ∈ is ∧ first + 4096 * j = addr))) := by
  induction is generalizing u with
  | nil => exact ⟨rfl, start, fun _ _ => rfl, fun j => by simp⟩
  | cons i is ih =>
    have lt := bounded i List.mem_cons_self
    have rest := fun j member => bounded j (List.mem_cons_of_mem i member)
    rw [List.foldl_cons, start.ptr i (by omega)]
    by_cases hit : first + 4096 * i = addr
    · rw [if_pos hit]
      obtain ⟨globals, kept, same, flags⟩ := ih (u := setFrameFree u i true) rest
        (start.setFree i true) count list
      refine ⟨globals, kept, fun x outside => ?_, fun j => ?_⟩
      · rw [same x fun k member => outside k (List.mem_cons_of_mem i member)]
        refine setFrameFree_apply ?_
        have := outside i List.mem_cons_self hit
        simpa only [frameEntry, list] using this
      · rw [flags, frameFree_setFrameFree]
        by_cases here : j = i
        · subst j; simp [hit]
        · simp [here]
    · rw [if_neg hit]
      obtain ⟨globals, kept, same, flags⟩ := ih rest start count list
      refine ⟨globals, kept, fun x outside => same x fun k member => outside k (List.mem_cons_of_mem i member),
        fun j => ?_⟩
      rw [flags]
      by_cases here : j = i
      · subst j; simp [hit]
      · simp [here]

/-- `pageFree` sets the `free` bit of the frame at `addr`, if there is one, and changes nothing else. -/
theorem pageFree_spec {s : Kernel} {first : Nat} (table : FrameTable s first) (addr : Nat) :
    pageFree addr s = { s with mem := (pageFree addr s).mem } ∧ FrameTable (pageFree addr s) first ∧
      (∀ x, (∀ i < frameCount s, first + 4096 * i = addr → x ≠ frameEntry s i + 8) →
        (pageFree addr s).mem x = s.mem x) ∧
      (∀ j < frameCount s, frameFree (pageFree addr s) j = (frameFree s j || decide (first + 4096 * j = addr))) := by
  obtain ⟨globals, kept, same, flags⟩ := pageFree_fold addr (List.range (frameCount s))
    (fun i member => List.mem_range.mp member) table rfl rfl
  refine ⟨globals, kept, fun x outside => same x fun i member => outside i (List.mem_range.mp member), fun j lt => ?_⟩
  show frameFree (List.foldl _ _ _) j = _
  rw [flags]
  simp [lt]

theorem pageFree_other {s : Kernel} {first addr : Nat} (table : FrameTable s first)
    (other : ∀ i < frameCount s, first + 4096 * i ≠ addr) : pageFree addr s = s := by
  obtain ⟨globals, _, same, _⟩ := pageFree_spec table addr
  have unchanged : (pageFree addr s).mem = s.mem :=
    funext fun x => same x fun i lt hit => absurd hit (other i lt)
  rw [globals, unchanged]

end System14
