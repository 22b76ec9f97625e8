import Mathlib.Algebra.GroupWithZero.Nat
import Mathlib.Data.List.Induction
import System14.Drivers.MadtWalk

/-!
# Routing interrupt lines

Each I/O APIC serves a range of global system interrupts. `InitializeAPIC` keeps
the address of the last one in the MADT only, and `IOAPICRegisterIRQ` takes the
interrupt for a pin of that one.
-/

namespace System14
open ByteMem Traced

variable {device : Nat → Nat → Nat} {m : Mem} {a n fuel ioapic madt : Nat} {s t : Apic} {lens starts : List Nat}

/-! ### The I/O APICs of a table -/

/-- The structures at `a` have these lengths, each with room for its header. -/
def MadtStructures (m : Mem) : Nat → List Nat → Prop
  | _, [] => True
  | a, len :: lens => load 1 m (a + 1) = len ∧ 2 ≤ len ∧ MadtStructures m (a + len) lens

/-- The structures fill the table behind its fixed part. -/
structure MadtWellFormed (m : Mem) (madt : Nat) (lens : List Nat) : Prop where
  length : MADT.length m madt = 44 + lens.sum
  structures : MadtStructures m (madt + 44) lens

def icStarts : Nat → List Nat → List Nat
  | _, [] => []
  | a, len :: lens => a :: icStarts (a + len) lens

/-- The I/O APIC structures of the table, in order. -/
def ioapics (m : Mem) (madt : Nat) (lens : List Nat) : List Nat :=
  (icStarts (madt + 44) lens).filter fun q => load 1 m q = 0x1

namespace ICStructureIOAPIC

def ioapicAddress (m : Mem) (q : Nat) : Nat := load 4 m (q + 4)

def globalSystemInterruptBase (m : Mem) (q : Nat) : Nat := load 4 m (q + 8)

/-- The number of inputs, as the chip's version register has it. -/
def pinCount (device : Nat → Nat → Nat) (m : Mem) (q : Nat) : Nat :=
  device (ioapicAddress m q) ioapicVerMaxRedir / 2 ^ 16 % 256 + 1

def Serves (device : Nat → Nat → Nat) (m : Mem) (q pin : Nat) : Prop :=
  globalSystemInterruptBase m q ≤ pin ∧ pin < globalSystemInterruptBase m q + pinCount device m q

end ICStructureIOAPIC

open ICStructureIOAPIC

/-! ### What the walk finds -/

theorem madtLoop_found (ioapic : Nat) (s : Apic) (structures : MadtStructures m a lens) (small : lens.sum < 2 ^ 32)
    (bound : a + lens.sum < 2 ^ 64) (enough : lens.length < fuel) :
    Within (fun _ => True) (madtLoop m fuel lens.sum a ioapic s)
      (· = (icStarts a lens).foldl (fun r q => madtFound m q r) (ioapic, s)) := by
  induction lens generalizing a fuel ioapic s with
  | nil =>
    obtain ⟨fuel, rfl⟩ := Nat.exists_eq_add_one.mpr enough
    rw [madtLoop, if_neg (by simp)]
    exact within_pure.mpr rfl
  | cons len lens ih =>
    obtain ⟨fuel, rfl⟩ := Nat.exists_eq_add_one.mpr (Nat.zero_lt_of_lt enough)
    obtain ⟨here, some, rest⟩ := structures
    rw [List.sum_cons] at small bound ⊢
    rw [madtLoop_pass (by omega), here, usub_of_le small (by omega), uadd_of_lt (by omega), Nat.add_sub_cancel_left]
    exact ⟨fun _ _ => trivial, ih _ _ rest (by omega) (by omega) (by simpa using enough)⟩

/-- Only the last I/O APIC structure leaves anything behind. -/
theorem foldl_madtFound (starts : List Nat) (ioapic : Nat) (s : Apic) :
    starts.foldl (fun r q => madtFound m q r) (ioapic, s) =
      match (starts.filter fun q => load 1 m q = 0x1).getLast? with
      | none => (ioapic, s)
      | some q => (q, { s with ioAPIC := ioapicAddress m q }) := by
  induction starts using List.reverseRecOn with
  | nil => rfl
  | append_singleton starts q ih =>
    rw [List.foldl_append, ih, List.filter_append]
    simp only [List.foldl_cons, List.foldl_nil]
    unfold madtFound
    by_cases type : load 1 m q = 0x1
    · rw [if_pos type, List.filter_cons_of_pos (by simpa using type), List.filter_nil, List.getLast?_concat]
      cases (starts.filter fun q => load 1 m q = 0x1).getLast? <;> rfl
    · rw [if_neg type, List.filter_cons_of_neg (by simpa using type), List.filter_nil, List.append_nil]

/-- The globals after `InitializeAPIC`. -/
def apicAfter (m : Mem) (madt : Nat) (lens : List Nat) (s : Apic) : Apic where
  localAPIC := load 4 m (madt + 36)
  ioAPIC := ((ioapics m madt lens).getLast?.map (ioapicAddress m)).getD s.ioAPIC

theorem initializeAPIC_found (wellFormed : MadtWellFormed m madt lens) (below : madt < 2 ^ 32)
    (enough : lens.length < fuel) :
    Within (fun _ => True) (initializeAPIC device m fuel madt s) (· = apicAfter m madt lens s) := by
  have length := wellFormed.length
  have small : MADT.length m madt < 2 ^ 32 := load_lt 4 _ _
  have rest : madtRest (MADT.length m madt) = lens.sum := by
    rw [madtRest_of_le small (by omega)]
    omega
  have found := madtLoop_found null { s with localAPIC := load 4 m (madt + 36) } wellFormed.structures
    (by omega) (by omega) enough
  rw [foldl_madtFound] at found
  unfold initializeAPIC
  rw [within_bind, fetch_within]
  refine ⟨trivial, ?_⟩
  rw [within_bind, fetch_within]
  refine ⟨trivial, ?_⟩
  rw [within_bind, show load 4 m (madt + 4) = MADT.length m madt from rfl, rest]
  refine found.mono fun r result => ?_
  subst result
  unfold apicAfter ioapics
  cases last : ((icStarts (madt + 44) lens).filter fun q => load 1 m q = 0x1).getLast? with
  | none => exact within_pure.mpr rfl
  | some q =>
    dsimp only
    split
    · exact within_pure.mpr rfl
    · simp only [within_bind, fetch_within, ioapicRead, within_emit, within_pure]
      exact ⟨trivial, trivial, rfl⟩

/-! ### Redirection entries -/

/-- What a write of redirection entry `index` of the chip at `base` sends to its
select and data words. -/
def entryWrites (base index : Nat) (entry : IOAPICRedirectionEntry) : List ApicEvent :=
  [.write base (ioapicRedirEntriesBase + 2 * index), .write (base + 16) (entry.raw.toNat % 2 ^ 32),
    .write base (ioapicRedirEntriesBase + 2 * index + 1), .write (base + 16) (entry.raw.toNat / 2 ^ 32)]

theorem registerIRQ_writes (vector : BitVec 8) (pin : UInt8) (s : Apic) :
    ioapicRegisterIRQ vector pin s = done
      [.write s.ioAPIC ((0x10 + 2 * pin.toNat) % 256), .write (s.ioAPIC + 16) ((routed vector).raw.toNat % 2 ^ 32),
        .write s.ioAPIC ((0x10 + 2 * pin.toNat + 1) % 256), .write (s.ioAPIC + 16) ((routed vector).raw.toNat / 2 ^ 32)] () := by
  have small := pin.toNat_lt
  have low : uadd 32 ioapicRedirEntriesBase (pin.toNat * 2) = 0x10 + 2 * pin.toNat := by
    unfold uadd ioapicRedirEntriesBase
    omega
  have high : uadd 32 ioapicRedirEntriesBase (uadd 32 (pin.toNat * 2) 1) = 0x10 + 2 * pin.toNat + 1 := by
    unfold uadd ioapicRedirEntriesBase
    omega
  unfold ioapicRegisterIRQ ioapicWriteRedirectionEntry
  rw [if_neg (by omega), low, high]
  rfl

/-- After `InitializeAPIC`, every pin that an I/O APIC serves is routed through
that I/O APIC's own entry for it. -/
def RoutesLines (device : Nat → Nat → Nat) (m : Mem) (madt : Nat) (lens : List Nat) (s : Apic) : Prop :=
  ∃ t, (∃ bound, ∀ fuel ≥ bound, Within (fun _ => True) (initializeAPIC device m fuel madt s) (· = t)) ∧
    ∀ q ∈ ioapics m madt lens, ∀ pin : UInt8, Serves device m q pin.toNat → ∀ vector : BitVec 8,
      ioapicRegisterIRQ vector pin t =
        done (entryWrites (ioapicAddress m q) (pin.toNat - globalSystemInterruptBase m q) (routed vector)) ()

/-- The I/O APICs with inputs among the first 256 are where the last structure
says, and count their inputs from a number whose double is 0 in eight bits, with
no more inputs than the select register can tell apart. -/
def OneChipFromZero (device : Nat → Nat → Nat) (m : Mem) (madt : Nat) (lens : List Nat) : Prop :=
  ∀ q ∈ ioapics m madt lens, globalSystemInterruptBase m q ≤ 255 →
    (globalSystemInterruptBase m q = 0 ∨ globalSystemInterruptBase m q = 128) ∧ pinCount device m q ≤ 120 ∧
      (ioapics m madt lens).getLast?.map (ioapicAddress m) = some (ioapicAddress m q)

theorem writes_agree_iff (vector : BitVec 8) {base address : Nat} {pin : UInt8} (low : base ≤ pin.toNat) :
    ioapicRegisterIRQ vector pin t = done (entryWrites address (pin.toNat - base) (routed vector)) () ↔
      t.ioAPIC = address ∧ 2 * base % 256 = 0 ∧ pin.toNat - base < 120 := by
  have small := pin.toNat_lt
  rw [registerIRQ_writes, entryWrites, ioapicRedirEntriesBase]
  simp only [done_inj, List.cons.injEq, ApicEvent.write.injEq, and_true, Nat.add_right_cancel_iff]
  omega

theorem last_chip_iff {q : Nat} (member : q ∈ ioapics m madt lens) :
    (ioapics m madt lens).getLast?.map (ioapicAddress m) = some (ioapicAddress m q) ↔
      (apicAfter m madt lens s).ioAPIC = ioapicAddress m q := by
  unfold apicAfter
  cases ends : (ioapics m madt lens).getLast? with
  | none =>
    rw [List.getLast?_eq_none_iff] at ends
    rw [ends] at member
    cases member
  | some p => simp

theorem RoutesLines.oneChip (wellFormed : MadtWellFormed m madt lens) (below : madt < 2 ^ 32)
    (routes : RoutesLines device m madt lens s) : OneChipFromZero device m madt lens := by
  obtain ⟨t, ⟨bound, run⟩, routes⟩ := routes
  intro q member first
  have found : Within (fun _ => True) (initializeAPIC device m (max bound (lens.length + 1)) madt s)
      (· = apicAfter m madt lens s) := initializeAPIC_found wellFormed below (Nat.le_max_right _ _)
  have value := (run _ (Nat.le_max_left _ _)).value found
  subst value
  have agree : ∀ pin : UInt8, Serves device m q pin.toNat → (apicAfter m madt lens s).ioAPIC = ioapicAddress m q ∧
      2 * globalSystemInterruptBase m q % 256 = 0 ∧ pin.toNat - globalSystemInterruptBase m q < 120 := fun pin serves =>
    (writes_agree_iff 0 serves.1).mp (routes q member pin serves 0)
  have number : (UInt8.ofNat (globalSystemInterruptBase m q)).toNat = globalSystemInterruptBase m q := by
    rw [UInt8.toNat_ofNat']
    omega
  obtain ⟨chip, even, _⟩ := agree (.ofNat (globalSystemInterruptBase m q)) (by
    rw [number]
    exact ⟨Nat.le_refl _, Nat.lt_add_of_pos_right (Nat.succ_pos _)⟩)
  refine ⟨by omega, ?_, (last_chip_iff member).mpr chip⟩
  -- The pin 120 above the base would have its entry behind the last register.
  by_contra many
  have number' : (UInt8.ofNat (globalSystemInterruptBase m q + 120)).toNat = globalSystemInterruptBase m q + 120 := by
    rw [UInt8.toNat_ofNat']
    omega
  obtain ⟨_, _, room⟩ := agree (.ofNat (globalSystemInterruptBase m q + 120)) (by
    rw [number']
    exact ⟨by omega, by omega⟩)
  omega

/-- Every line is routed right just when one chip has all the inputs among the
first 256, counted from zero. -/
theorem routes_lines_iff (wellFormed : MadtWellFormed m madt lens) (below : madt < 2 ^ 32) :
    RoutesLines device m madt lens s ↔ OneChipFromZero device m madt lens := by
  constructor
  · exact RoutesLines.oneChip wellFormed below
  · intro one
    refine ⟨apicAfter m madt lens s, ⟨lens.length + 1, fun fuel => initializeAPIC_found wellFormed below⟩, ?_⟩
    intro q member pin serves vector
    have small := pin.toNat_lt
    have low := serves.1
    have high := serves.2
    obtain ⟨start, few, chip⟩ := one q member (by omega)
    exact (writes_agree_iff _ low).mpr ⟨(last_chip_iff member).mp chip, by omega, by omega⟩

/-! ### Two chips -/

/-- A MADT at `0x1000` with these structures; the local APIC is at `0xfee00000`. -/
def madtOf (structures : List UInt8) (x : Nat) : UInt8 :=
  ([0x41, 0x50, 0x49, 0x43, UInt8.ofNat (44 + structures.length), 0, 0, 0] ++ List.replicate 28 0 ++ [0, 0, 0xe0, 0xfe] ++
    List.replicate 4 0 ++ structures).getD (x - 0x1000) 0

/-- An I/O APIC at `0xfec00000` from interrupt 0 on. -/
def firstChip : List UInt8 := [1, 12, 0, 0, 0, 0, 0xc0, 0xfe, 0, 0, 0, 0]

/-- An I/O APIC at `0xfec01000` from interrupt 24 on. -/
def secondChip : List UInt8 := [1, 12, 1, 0, 0, 0x10, 0xc0, 0xfe, 24, 0, 0, 0]

theorem twoChips_wellFormed : MadtWellFormed (madtOf (firstChip ++ secondChip)) 0x1000 [12, 12] :=
  ⟨by decide +kernel, by decide +kernel, by decide, by decide +kernel, by decide, trivial⟩

/-- With two chips of 24 inputs each, interrupt 1 goes to the second one. -/
theorem twoChips_misrouted :
    MadtWellFormed (madtOf (firstChip ++ secondChip)) 0x1000 [12, 12] ∧
      ¬ RoutesLines (fun _ _ => 0x170011) (madtOf (firstChip ++ secondChip)) 0x1000 [12, 12] {} := by
  refine ⟨twoChips_wellFormed, fun routes => ?_⟩
  have one := routes.oneChip twoChips_wellFormed (by decide) 0x102c (by decide +kernel) (by decide +kernel)
  exact absurd one.2.2 (by decide +kernel)

theorem oneChip_wellFormed : MadtWellFormed (madtOf firstChip) 0x1000 [12] :=
  ⟨by decide +kernel, by decide +kernel, by decide, trivial⟩

theorem routes_lines_iff_oneChip : RoutesLines (fun _ _ => 0x170011) (madtOf firstChip) 0x1000 [12] {} := by
  refine (routes_lines_iff oneChip_wellFormed (by decide)).mpr ?_
  have chips : ioapics (madtOf firstChip) 0x1000 [12] = [0x102c] := by decide +kernel
  unfold OneChipFromZero
  rw [chips]
  intro q member _
  rw [List.mem_singleton.mp member]
  exact ⟨Or.inl (by decide +kernel), by decide +kernel, rfl⟩

end System14
