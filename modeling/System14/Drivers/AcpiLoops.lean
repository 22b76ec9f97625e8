import System14.Drivers.PcieEnumeration

/-!
# The loops over the ACPI tables

Both loops compute the number of entries from the length of their table. They
stay inside it even when the length is too small for the header. The one over
the MCFG prints what it finds before it goes on, so a device without a text for
its subclass ends it early.
-/

namespace System14
open ByteMem Logged PCIDeviceStruct PCIConfigEntry

variable {m : Mem} {text : AcpiText} {root mcfg : Nat} {s : Acpi}

/-- What tells which entries are visited leaves no choice. -/
theorem visitsTable_iff {table header size : Nat} {visited : List Nat} (positive : 0 < size) :
    VisitsTable m table header size visited ↔ visited = tableEntries m table header size := by
  constructor
  · intro visits
    have count : visited.length = (tableEntries m table header size).length := by
      rw [visits.count, (tableEntries_visits m table header positive).count]
    refine List.ext_getElem count fun i below below' => ?_
    rw [visits.order i below, (tableEntries_visits m table header positive).order i below']
  · rintro rfl
    exact tableEntries_visits m table header positive

/-- Both loops visit just the entries of their tables, and the last ones of the RSDT decide the globals. -/
structure LoopsInside (m : Mem) (text : AcpiText) (root mcfg : Nat) (s : Acpi) : Prop where
  rsdt : ∃ visited, VisitsTable m root 36 4 visited ∧
    enumerateACPITables m text root s = Traced.done visited
      ⟨(lastTable m mcfgSignature visited).getD s.mcfgPtr, (lastTable m apicSignature visited).getD s.madtPtr⟩
  mcfg : VisitsTable m mcfg 44 16 (visitedEntries (initializePCIE m mcfg).log)

/-- The entries of the MCFG are visited just when the kernel can print whatever
is reached under an entry that another one follows. -/
theorem initializePCIE_visits (table : mcfg ≠ null) (below : mcfg ≤ 2 ^ 32)
    (small : ACPISystemTableHeader.length m mcfg < 2 ^ 31 + 28) :
    VisitsTable m mcfg 44 16 (visitedEntries (initializePCIE m mcfg).log) ↔
      AllPrintable m (mcfgEntries m mcfg).dropLast := by
  rw [visitsTable_iff (by decide), initializePCIE_eq table below small, ← entries_return]
  exact forEach_marks (enumerateEntry_visits m)

/-- An MCFG whose first entry has bus 0 at `0x100000`, and whose second one is for other addresses. -/
def twoEntriesBytes : List UInt8 :=
  mcfgSignature ++ [76, 0, 0, 0] ++ List.replicate 36 0 ++ [0, 0, 0x10, 0, 0, 0, 0, 0, 0, 0, 0, 1, 0, 0, 0, 0] ++
    [0, 0, 0x30, 0, 0, 0, 0, 0, 0, 0, 0, 1, 0, 0, 0, 0]

def twoEntries (classCode subClass : UInt8) : Mem := firmware twoEntriesBytes classCode subClass

end System14
