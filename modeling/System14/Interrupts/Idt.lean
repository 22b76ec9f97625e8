import System14.Kernel.State
import System14.Lib.Extent

/-!
# The interrupt descriptor table

`AddIDTEntry` takes an address apart and writes it into a gate, next to the
selector of the kernel's code segment. The processor puts it together again
when an interrupt arrives. It enters a handler through an interrupt gate only,
in 64-bit code and with the kernel's rights.
-/

namespace System14
open ByteMem

/-! ### Segments -/

/-- A descriptor of `gdt.h`. Its fields are packed, the first one lowest. -/
structure SegmentDescriptor where
  limit : BitVec 16 := 0
  baseLow : BitVec 16 := 0
  baseMiddle : BitVec 8 := 0
  access : BitVec 8 := 0
  granularity : BitVec 8 := 0
  baseHigh : BitVec 8 := 0

def SegmentDescriptor.raw (d : SegmentDescriptor) : BitVec 64 :=
  d.baseHigh ++ d.granularity ++ d.access ++ d.baseMiddle ++ d.baseLow ++ d.limit

def globalDescriptorTable : List SegmentDescriptor :=
  [{},
    -- Kernel code and data, then user code and data.
    { limit := 0xFF, access := 0x9A, granularity := 0xA0 },
    { limit := 0xFF, access := 0x92, granularity := 0xC0 },
    { access := 0xFA, granularity := 0xA0 },
    { access := 0xF2, granularity := 0xC0 }]

/-- The selector has the processor run 64-bit code with the kernel's rights: its
segment is present, for code, of privilege level 0, and long. -/
def kernelCode (gdt : List SegmentDescriptor) (selector : Nat) : Bool :=
  selector % 8 = 0 && match gdt[selector / 8]? with
    | none => false
    | some d => d.raw.getLsbD 47 && d.raw.extractLsb' 45 2 = 0 && d.raw.getLsbD 44 && d.raw.getLsbD 43 &&
      d.raw.getLsbD 53 && !d.raw.getLsbD 54

/-! ### Gates -/

def idtGateInterrupt : Nat := 0x8E

/-- The fields of an `InterruptDescriptor` lie 0, 2, 4, 5, 6, 8 and 12 bytes from its start. -/
def addIDTEntry (offset index gateType : Nat) (idt : Mem) : Mem :=
  let idt := store 2 idt (16 * index) (offset &&& 0xffff)
  let idt := store 2 idt (16 * index + 6) ((offset &&& 0xffff0000) >>> 16)
  let idt := store 4 idt (16 * index + 8) ((offset &&& 0xffffffff00000000) >>> 32)
  let idt := store 1 idt (16 * index + 5) gateType
  let idt := store 1 idt (16 * index + 4) 0
  let idt := store 2 idt (16 * index + 2) 0x08
  store 4 idt (16 * index + 12) 0

/-- Where the processor goes for a vector: the gate lies within the limit of the
table and is a present interrupt gate to code of the kernel. -/
def enters (gdt : List SegmentDescriptor) (limit : Nat) (idt : Mem) (vector : Nat) : Option Nat :=
  let attributes := load 1 idt (16 * vector + 5)
  if 16 * vector + 15 ≤ limit ∧ attributes / 128 = 1 ∧ attributes % 32 = 0xE ∧
      kernelCode gdt (load 2 idt (16 * vector + 2)) then
    some (load 2 idt (16 * vector) + 2 ^ 16 * load 2 idt (16 * vector + 6) + 2 ^ 32 * load 4 idt (16 * vector + 8))
  else none

section Gates

variable {gdt : List SegmentDescriptor} {limit offset index vector gateType : Nat} {idt idt' : Mem}

/-- The three parts of an address. -/
theorem offset_parts (small : offset < 2 ^ 64) : offset &&& 0xffff = offset % 2 ^ 16 ∧
    (offset &&& 0xffff0000) >>> 16 = offset / 2 ^ 16 % 2 ^ 16 ∧
    (offset &&& 0xffffffff00000000) >>> 32 = offset / 2 ^ 32 := by
  refine ⟨Nat.and_two_pow_sub_one_eq_mod offset 16, ?_, ?_⟩
  · rw [Nat.shiftRight_and_distrib, Nat.shiftRight_eq_div_pow offset 16]
    exact Nat.and_two_pow_sub_one_eq_mod (offset / 2 ^ 16) 16
  · rw [Nat.shiftRight_and_distrib, Nat.shiftRight_eq_div_pow offset 32]
    show offset / 2 ^ 32 &&& (2 ^ 32 - 1) = _
    rw [Nat.and_two_pow_sub_one_eq_mod, Nat.mod_eq_of_lt (by omega)]

theorem addIDTEntry_outside {x : Nat} (outside : x < 16 * index ∨ 16 * index + 16 ≤ x) :
    addIDTEntry offset index gateType idt x = idt x := by
  unfold addIDTEntry
  iterate 7 rw [store_apply_of_not_mem (by omega)]

theorem enters_congr (same : ∀ x, 16 * vector ≤ x → x < 16 * vector + 16 → idt' x = idt x) :
    enters gdt limit idt' vector = enters gdt limit idt vector := by
  unfold enters
  rw [load_congr (a := 16 * vector) fun x low high => same x (by omega) (by omega),
    load_congr (a := 16 * vector + 2) fun x low high => same x (by omega) (by omega),
    load_congr (a := 16 * vector + 5) fun x low high => same x (by omega) (by omega),
    load_congr (a := 16 * vector + 6) fun x low high => same x (by omega) (by omega),
    load_congr (a := 16 * vector + 8) fun x low high => same x (by omega) (by omega)]

theorem enters_other (other : vector ≠ index) :
    enters gdt limit (addIDTEntry offset index gateType idt) vector = enters gdt limit idt vector :=
  enters_congr fun _ _ _ => addIDTEntry_outside (by omega)

/-- The processor enters the handler at the address that was given. -/
theorem enters_same (small : offset < 2 ^ 64) (inside : 16 * vector + 15 ≤ limit) :
    enters globalDescriptorTable limit (addIDTEntry offset vector idtGateInterrupt idt) vector = some offset := by
  obtain ⟨low, middle, high⟩ := offset_parts small
  have attributes : load 1 (addIDTEntry offset vector idtGateInterrupt idt) (16 * vector + 5) = 0x8E := by
    unfold addIDTEntry
    dsimp only
    iterate 3 rw [load_store_of_apart (by omega)]
    rw [load_store_same]
    rfl
  have selector : load 2 (addIDTEntry offset vector idtGateInterrupt idt) (16 * vector + 2) = 0x08 := by
    unfold addIDTEntry
    dsimp only
    rw [load_store_of_apart (by omega), load_store_same]
    rfl
  have one : load 2 (addIDTEntry offset vector idtGateInterrupt idt) (16 * vector) = offset % 2 ^ 16 := by
    unfold addIDTEntry
    dsimp only
    iterate 6 rw [load_store_of_apart (by omega)]
    rw [load_store_same, low]
    omega
  have two : load 2 (addIDTEntry offset vector idtGateInterrupt idt) (16 * vector + 6) = offset / 2 ^ 16 % 2 ^ 16 := by
    unfold addIDTEntry
    dsimp only
    iterate 5 rw [load_store_of_apart (by omega)]
    rw [load_store_same, middle]
    omega
  have three : load 4 (addIDTEntry offset vector idtGateInterrupt idt) (16 * vector + 8) = offset / 2 ^ 32 := by
    unfold addIDTEntry
    dsimp only
    iterate 4 rw [load_store_of_apart (by omega)]
    rw [load_store_same, high]
    omega
  unfold enters
  dsimp only
  rw [attributes, selector, one, two, three, if_pos ⟨inside, by decide, by decide, by decide⟩]
  exact congrArg some (by omega)

theorem enters_empty (zero : ∀ x, 16 * vector ≤ x → x < 16 * vector + 16 → idt x = 0) : enters gdt limit idt vector = none := by
  unfold enters
  rw [load_of_zero (a := 16 * vector + 5) fun x low high => zero x (by omega) (by omega)]
  exact if_neg fun gate => absurd gate.2.1 (by decide)

end Gates

/-! ### The handlers -/

inductive Handler where
  | divZeroHandler | overflowHandler | boundRageExceededHandler | invalidOpcodeHandler | deviceNotAvailableHandler
  | dfHandler | invalidTSSHandler | gpFaultHandler | pageFaultHandler | keyboardHandler | breakpointHandler
  | syscallStub | timerStub
  deriving DecidableEq

/-- The macro `IRQ`. -/
def irq (n : Nat) : Nat := 32 + n

/-- The calls of `AddIDTEntry` in `InitializeIDT`. -/
def idtEntries : List (Handler × Nat) :=
  [(.divZeroHandler, 1), (.overflowHandler, 4), (.boundRageExceededHandler, 5), (.invalidOpcodeHandler, 6),
    (.deviceNotAvailableHandler, 7), (.dfHandler, 8), (.invalidTSSHandler, 10), (.gpFaultHandler, 13), (.pageFaultHandler, 14),
    (.keyboardHandler, irq 1), (.breakpointHandler, 3), (.syscallStub, 0x80), (.timerStub, irq 8)]

/-- The table after `InitializeIDT`. The `memset` clears eight bytes for each of its 256 entries. -/
def fillIDT (address : Handler → Nat) (idt : Mem) : Mem :=
  idtEntries.foldl (fun idt e => addIDTEntry (address e.1) e.2 idtGateInterrupt idt) (memset idt 0 0 (8 * 256))

def idtLimit : Nat := 0x0fff

section Table

variable {address : Handler → Nat} {entries : List (Handler × Nat)} {limit vector : Nat} {h : Handler}

theorem enters_unlisted {gdt : List SegmentDescriptor} (idt : Mem) (unlisted : ∀ e ∈ entries, e.2 ≠ vector) :
    enters gdt limit (entries.foldl (fun idt e => addIDTEntry (address e.1) e.2 idtGateInterrupt idt) idt) vector =
      enters gdt limit idt vector := by
  induction entries generalizing idt with
  | nil => rfl
  | cons e entries ih =>
    refine (ih _ fun e' member => unlisted e' (List.mem_cons_of_mem _ member)).trans ?_
    exact enters_other fun same => unlisted e (List.mem_cons_self ..) same.symm

/-- Where each vector is listed once, every handler that is listed is entered. -/
theorem enters_listed (idt : Mem) (small : ∀ h, address h < 2 ^ 64) (distinct : (entries.map Prod.snd).Nodup)
    (listed : (h, vector) ∈ entries) (inside : 16 * vector + 15 ≤ limit) :
    enters globalDescriptorTable limit
        (entries.foldl (fun idt e => addIDTEntry (address e.1) e.2 idtGateInterrupt idt) idt) vector = some (address h) := by
  induction entries generalizing idt with
  | nil => cases listed
  | cons e entries ih =>
    obtain ⟨fresh, distinct⟩ := List.nodup_cons.mp distinct
    rcases List.mem_cons.mp listed with rfl | later
    · refine (enters_unlisted (addIDTEntry (address h) vector idtGateInterrupt idt) fun e member same => fresh ?_).trans
        (enters_same (small h) inside)
      exact List.mem_map.mpr ⟨e, member, same⟩
    · exact ih _ distinct later

theorem fillIDT_listed (small : ∀ h, address h < 2 ^ 64) (idt : Mem) (listed : (h, vector) ∈ idtEntries) (range : vector < 256) :
    enters globalDescriptorTable idtLimit (fillIDT address idt) vector = some (address h) :=
  enters_listed _ small (by decide) listed (by unfold idtLimit; omega)

/-- Which handler the kernel means for a vector. -/
def handlerOf (vector : Nat) : Option Handler := (idtEntries.find? fun e => e.2 = vector).map Prod.fst

/-- After `InitializeIDT` the processor finds the kernel's handler for each
vector that has one and nothing for the others, as far as the table was cleared. -/
theorem fillIDT_enters (address : Handler → Nat) (small : ∀ h, address h < 2 ^ 64) (idt : Mem) (vector : Nat)
    (range : vector < 256) :
    enters globalDescriptorTable idtLimit (fillIDT address idt) vector =
      match handlerOf vector with
      | some h => some (address h)
      | none => if vector < 128 then none else enters globalDescriptorTable idtLimit idt vector := by
  unfold handlerOf
  cases found : idtEntries.find? fun e => e.2 = vector with
  | some e =>
    obtain ⟨h, v⟩ := e
    have here : v = vector := by simpa using List.find?_some found
    have listed := List.mem_of_find?_eq_some found
    rw [here] at listed
    exact fillIDT_listed small idt listed range
  | none =>
    have unlisted : ∀ e ∈ idtEntries, e.2 ≠ vector := fun e member same =>
      List.find?_eq_none.mp found e member (decide_eq_true same)
    refine (enters_unlisted _ unlisted).trans ?_
    show enters _ _ (memset idt 0 0 (8 * 256)) vector = if vector < 128 then none else _
    by_cases low : vector < 128
    · rw [if_pos low]
      refine enters_empty fun x _ high => ?_
      rw [memset_apply, if_pos (by omega)]
      rfl
    · rw [if_neg low]
      refine enters_congr fun x first _ => ?_
      rw [memset_apply, if_neg (by omega)]

end Table

end System14
