import Mathlib.Data.List.Induction
import System14.Lib.Traced
import System14.Util.String

/-!
# ACPI tables

`acpi.c` goes over the entries of the RSDT, which are 32-bit pointers to other
tables, and keeps the last one of each signature it knows. The number of entries
is computed from the length of the table, in 64 bits, and then made an `int`.
-/

namespace System14
open ByteMem Traced

/-- The globals of `acpi.c`. -/
structure Acpi where
  mcfgPtr : Nat := null
  madtPtr : Nat := null

/-- Where the kernel's image has the signatures that are compared with. -/
structure AcpiText where
  mcfg : Nat
  apic : Nat

variable {m : Mem} {text : AcpiText} {n i p q root first : Nat} {s : Acpi} {t : List UInt8}

/-- The traces record the entries of the RSDT that are visited. -/
abbrev AcpiM := Traced Nat Stop

namespace ACPISystemTableHeader

def length (m : Mem) (header : Nat) : Nat := load 4 m (header + 4)

def bytes : Nat := 36

end ACPISystemTableHeader

/-- The loop of `EnumerateACPITables` for `n` more entries, from number `i` on. -/
def enumerateLoop (m : Mem) (text : AcpiText) (first : Nat) : Nat → Nat → Acpi → AcpiM Acpi
  | 0, _, s => return s
  | n + 1, i, s =>
    if 2 ^ 31 ≤ i * 4 then stop .signedOverflow
    else do
      let entry := uadd 64 first (i * 4)
      emit entry
      let hdr := load 4 m entry
      if strncmp m hdr text.mcfg 4 = 0 then enumerateLoop m text first n (i + 1) { s with mcfgPtr := hdr }
      else if strncmp m hdr text.apic 4 = 0 then enumerateLoop m text first n (i + 1) { s with madtPtr := hdr }
      else enumerateLoop m text first n (i + 1) s

def enumerateACPITables (m : Mem) (text : AcpiText) (root : Nat) (s : Acpi) : AcpiM Acpi :=
  let entries := u64ToInt (usub 64 (ACPISystemTableHeader.length m root) ACPISystemTableHeader.bytes / 4)
  enumerateLoop m text (uadd 32 root 36) entries.toNat 0 s

/-! ### Signatures -/

def mcfgSignature : List UInt8 := [0x4d, 0x43, 0x46, 0x47]

def apicSignature : List UInt8 := [0x41, 0x50, 0x49, 0x43]

structure AcpiText.Holds (text : AcpiText) (m : Mem) : Prop where
  mcfg : CString m text.mcfg mcfgSignature
  apic : CString m text.apic apicSignature

/-- The table at `hdr` starts with these characters. -/
def HasSignature (m : Mem) (signature : List UInt8) (hdr : Nat) : Prop :=
  (List.range signature.length).map (fun i => m (hdr + i)) = signature

instance (m : Mem) (signature : List UInt8) (hdr : Nat) : Decidable (HasSignature m signature hdr) :=
  inferInstanceAs (Decidable (_ = _))

/-- Comparing as many characters as the second string has tells whether the first one starts with it. -/
theorem strncmp_literal (string : CString m q t) : strncmp m p q t.length = 0 ↔ HasSignature m t p := by
  unfold HasSignature
  induction t generalizing p q with
  | nil => exact iff_of_true rfl rfl
  | cons c t ih =>
    obtain ⟨here, nonzero, rest⟩ := string
    rw [List.length_cons, List.range_succ_eq_map, List.map_cons, List.map_map, strncmp, here, List.cons.injEq]
    by_cases same : m p = c
    · rw [if_pos ⟨same ▸ nonzero, same⟩, ih rest, and_iff_right (show m (p + 0) = c from same)]
      simp only [Function.comp_def, Nat.succ_eq_add_one, Nat.add_assoc, Nat.add_comm 1]
    · rw [if_neg fun both => same both.2]
      exact iff_of_false (fun zero => same (charValue_inj (by omega))) fun both => same both.1

/-! ### What the loop finds -/

/-- What visiting an entry leaves. -/
def acpiFound (m : Mem) (s : Acpi) (entry : Nat) : Acpi :=
  let hdr := load 4 m entry
  if HasSignature m mcfgSignature hdr then { s with mcfgPtr := hdr }
  else if HasSignature m apicSignature hdr then { s with madtPtr := hdr }
  else s

/-- The last table with this signature that one of the entries points to. -/
def lastTable (m : Mem) (signature : List UInt8) (visited : List Nat) : Option Nat :=
  ((visited.map (load 4 m)).filter fun hdr => HasSignature m signature hdr).getLast?

theorem lastTable_concat (m : Mem) (signature : List UInt8) (visited : List Nat) (entry : Nat) :
    lastTable m signature (visited ++ [entry]) =
      if HasSignature m signature (load 4 m entry) then some (load 4 m entry) else lastTable m signature visited := by
  unfold lastTable
  rw [List.map_append, List.map_singleton, List.filter_append]
  split
  · rw [List.filter_cons_of_pos (by simpa using ‹_›), List.filter_nil, List.getLast?_concat]
  · rw [List.filter_cons_of_neg (by simpa using ‹_›), List.filter_nil, List.append_nil]

theorem foldl_acpiFound (m : Mem) (visited : List Nat) (s : Acpi) :
    visited.foldl (acpiFound m) s =
      ⟨(lastTable m mcfgSignature visited).getD s.mcfgPtr, (lastTable m apicSignature visited).getD s.madtPtr⟩ := by
  induction visited using List.reverseRecOn with
  | nil => rfl
  | append_singleton visited entry ih =>
    rw [List.foldl_append, ih, lastTable_concat, lastTable_concat]
    simp only [List.foldl_cons, List.foldl_nil]
    unfold acpiFound
    by_cases mcfg : HasSignature m mcfgSignature (load 4 m entry)
    · have other : ¬ HasSignature m apicSignature (load 4 m entry) := fun apic =>
        absurd (mcfg.symm.trans apic) (by decide)
      rw [if_pos mcfg, if_pos mcfg, if_neg other]
      rfl
    · rw [if_neg mcfg, if_neg mcfg]
      split <;> rfl

theorem enumerateLoop_pass (holds : text.Holds m) (small : i * 4 < 2 ^ 31) :
    enumerateLoop m text first (n + 1) i s =
      emit (uadd 64 first (i * 4)) >>= fun _ =>
        enumerateLoop m text first n (i + 1) (acpiFound m s (uadd 64 first (i * 4))) := by
  rw [enumerateLoop, if_neg (by omega)]
  dsimp only
  congr 1
  funext _
  unfold acpiFound
  simp only [show (4 : Nat) = mcfgSignature.length from rfl, strncmp_literal holds.mcfg]
  rw [show mcfgSignature.length = apicSignature.length from rfl]
  simp only [strncmp_literal holds.apic]
  split
  · rfl
  · split <;> rfl

/-- As long as the offsets are ints, the loop goes over its entries in order. -/
theorem enumerateLoop_done (holds : text.Holds m) (small : (i + n) * 4 < 2 ^ 31) (bound : first + (i + n) * 4 < 2 ^ 64) :
    enumerateLoop m text first n i s =
      done ((List.range' i n).map (first + · * 4)) (((List.range' i n).map (first + · * 4)).foldl (acpiFound m) s) := by
  induction n generalizing i s with
  | zero => rfl
  | succ n ih =>
    rw [enumerateLoop_pass holds (by omega), uadd_of_lt (by omega), List.range'_succ, List.map_cons]
    exact bind_done rfl (ih (by omega) (by omega))

/-! ### Lengths -/

/-- A length below the header's gives a negative number of entries. -/
theorem rsdtEntries_eq {length : Nat} (small : length < 2 ^ 31) :
    (u64ToInt (usub 64 length 36 / 4)).toNat = (length - 36) / 4 := by
  unfold u64ToInt usub
  dsimp only
  rcases Nat.lt_or_ge length 36 with short | fits
  · rw [if_neg (by omega)]
    omega
  · rw [if_pos (by omega)]
    omega

/-- The entries of a table whose fixed part has `header` bytes. -/
def tableEntries (m : Mem) (table header size : Nat) : List Nat :=
  (List.range ((ACPISystemTableHeader.length m table - header) / size)).map fun i => table + header + i * size

/-- Those are the ones that lie in the table. -/
theorem mem_tableEntries {m : Mem} {table header size i : Nat} (positive : 0 < size) :
    table + header + i * size ∈ tableEntries m table header size ↔
      header + i * size + size ≤ ACPISystemTableHeader.length m table := by
  have count : i < (ACPISystemTableHeader.length m table - header) / size ↔
      (i + 1) * size ≤ ACPISystemTableHeader.length m table - header := Nat.le_div_iff_mul_le positive
  rw [Nat.add_mul, Nat.one_mul] at count
  unfold tableEntries
  rw [List.mem_map]
  constructor
  · rintro ⟨k, inside, same⟩
    have index : k = i := Nat.eq_of_mul_eq_mul_right positive (by omega)
    rw [List.mem_range, index, count] at inside
    omega
  · intro inside
    exact ⟨i, List.mem_range.mpr (count.mpr (by omega)), rfl⟩

/-- The visited entries are the ones that lie wholly within the table, in order. -/
structure VisitsTable (m : Mem) (table header size : Nat) (visited : List Nat) : Prop where
  count : visited.length = (ACPISystemTableHeader.length m table - header) / size
  order : ∀ (i : Nat) (below : i < visited.length), visited[i] = table + header + i * size
  inside : ∀ a ∈ visited, a + size ≤ table + ACPISystemTableHeader.length m table
  all : ∀ i, header + i * size + size ≤ ACPISystemTableHeader.length m table → table + header + i * size ∈ visited

theorem tableEntries_visits (m : Mem) (table header : Nat) {size : Nat} (positive : 0 < size) :
    VisitsTable m table header size (tableEntries m table header size) where
  count := by rw [tableEntries, List.length_map, List.length_range]
  order i below := by simp only [tableEntries, List.getElem_map, List.getElem_range]
  inside a member := by
    obtain ⟨i, _, rfl⟩ := List.mem_map.mp member
    have := (mem_tableEntries positive).mp member
    omega
  all i := (mem_tableEntries positive).mpr

theorem enumerateACPITables_done (holds : text.Holds m) (small : ACPISystemTableHeader.length m root < 2 ^ 31)
    (below : root + ACPISystemTableHeader.length m root ≤ 2 ^ 32) :
    enumerateACPITables m text root s =
      done (tableEntries m root 36 4)
        ⟨(lastTable m mcfgSignature (tableEntries m root 36 4)).getD s.mcfgPtr,
          (lastTable m apicSignature (tableEntries m root 36 4)).getD s.madtPtr⟩ := by
  unfold enumerateACPITables ACPISystemTableHeader.bytes
  dsimp only
  rw [rsdtEntries_eq small, ← foldl_acpiFound]
  unfold tableEntries
  rcases Nat.lt_or_ge (ACPISystemTableHeader.length m root) 40 with short | fits
  · rw [show (ACPISystemTableHeader.length m root - 36) / 4 = 0 by omega]
    rfl
  · rw [uadd_of_lt (by omega), enumerateLoop_done holds (by omega) (by omega), List.range_eq_range']

end System14
