import Mathlib.Data.List.Basic
import System14.Drivers.Pcie

/-!
# What the enumeration reports

Each of the four loops reports a function as many times as its own bounds and
checks allow. The counts are multiplied out from the innermost loop outwards,
and the result is compared with the buses that the entries of the MCFG list.
-/

namespace System14
open ByteMem Logged PCIDeviceStruct PCIConfigEntry

variable {m : Mem} {b d f i x k bus device base entry mcfg : Nat}

/-! ### Counting over loops -/

section Counting

variable {α β : Type} {p : β → Bool} {q : α → Bool} {emitted : α → List β} {l : List α}

theorem countP_flatMap_once (each : ∀ a ∈ l, (emitted a).countP p = if q a then 1 else 0) :
    (l.flatMap emitted).countP p = l.countP q := by
  induction l with
  | nil => rfl
  | cons a l ih =>
    rw [List.flatMap_cons, List.countP_append, List.countP_cons, each a List.mem_cons_self,
      ih fun a later => each a (List.mem_cons_of_mem _ later), Nat.add_comm]

/-- Without repetition, at most one element is the one that is looked for. -/
theorem countP_one [DecidableEq α] {a : α} {P : Prop} [Decidable P] (once : l.Nodup) :
    l.countP (fun a' => a' = a ∧ P) = if a ∈ l ∧ P then 1 else 0 := by
  by_cases holds : P
  · simp only [holds, and_true]
    rw [← List.Nodup.count once]
    rfl
  · simp [holds]

end Counting

/-! ### Which functions there are -/

/-- Where the configuration space of a function is, in 64-bit arithmetic. -/
def configAddress (base b d f : Nat) : Nat := (base + b * 2 ^ 20 + d * 2 ^ 15 + f * 2 ^ 12) % 2 ^ 64

/-- The function is there: its device has a function 0, and it is that one or
the device has several functions and this is one of them. -/
def Present (m : Mem) (base b d f : Nat) : Prop :=
  vendorID m (configAddress base b d 0) ≠ 0xFFFF ∧
    (f = 0 ∨ (hdrType m (configAddress base b d 0)).testBit 7 = true ∧ vendorID m (configAddress base b d f) ≠ 0xFFFF)

/-- The entry has the function, on one of its buses, the last one included. -/
def Lists (m : Mem) (entry b d f : Nat) : Prop :=
  startPCIBus m entry ≤ b ∧ b ≤ endPCIBus m entry ∧ d < 32 ∧ f < 8 ∧ Present m (PCIConfigEntry.base m entry) b d f

/-- It has it on a bus that is not its last one and that has a first device. -/
def Reaches (m : Mem) (entry b d f : Nat) : Prop :=
  Lists m entry b d f ∧ b < endPCIBus m entry ∧ vendorID m (configAddress (PCIConfigEntry.base m entry) b 0 0) ≠ 0xFFFF

instance (m : Mem) (base b d f : Nat) : Decidable (Present m base b d f) := inferInstanceAs (Decidable (_ ∧ _))

instance (m : Mem) (entry b d f : Nat) : Decidable (Lists m entry b d f) := inferInstanceAs (Decidable (_ ∧ _))

instance (m : Mem) (entry b d f : Nat) : Decidable (Reaches m entry b d f) := inferInstanceAs (Decidable (_ ∧ _))

def PcieReport.At (r : PcieReport) (b d f : Nat) : Prop := r.bus = b ∧ r.device = d ∧ r.function = f

instance (r : PcieReport) (b d f : Nat) : Decidable (r.At b d f) := inferInstanceAs (Decidable (_ ∧ _))

/-- The report is what the configuration space at `a` has. -/
structure PcieReport.ReadAt (m : Mem) (a : Nat) (r : PcieReport) : Prop where
  address : r.address = a
  vendorID : r.vendorID = PCIDeviceStruct.vendorID m a
  classCode : r.classCode = PCIDeviceStruct.classCode m a
  subClass : r.subClass = PCIDeviceStruct.subClass m a

/-- The kernel has a text for the subclass of the function at `a`. -/
def PrintableAt (m : Mem) (a : Nat) : Prop := HasSubclassText (classCode m a) (subClass m a)

/-! ### One loop at a time -/

theorem configAddress_add (small : k < 2 ^ 31) : uadd 64 (x % 2 ^ 64) (intToU64 k) = (x + k) % 2 ^ 64 := by
  unfold intToU64
  dsimp only
  rw [Nat.mod_eq_of_lt (a := k) (by omega), if_pos small, uadd, Nat.mod_add_mod]

theorem function_address (base bus device : Nat) (small : i < 8) :
    uadd 64 (configAddress base bus device 0) (intToU64 (i * 2 ^ 12)) = configAddress base bus device i := by
  unfold configAddress
  rw [configAddress_add (by omega), Nat.zero_mul, Nat.add_zero]

theorem device_address (base bus : Nat) (small : i < 32) :
    uadd 64 (configAddress base bus 0 0) (intToU64 (i * 2 ^ 15)) = configAddress base bus i 0 := by
  unfold configAddress
  rw [configAddress_add (by omega)]
  exact congrArg (· % 2 ^ 64) (by omega)

theorem bus_address (inside : base < 2 ^ 64) (small : i < 256) :
    uadd 64 base (intToU64 (i * 2 ^ 20)) = configAddress base i 0 0 := by
  have address := configAddress_add (x := base) (k := i * 2 ^ 20) (by omega)
  rw [Nat.mod_eq_of_lt inside] at address
  rw [address]
  exact congrArg (· % 2 ^ 64) (by omega)

theorem function_count (small : i < 8) :
    (functionReports m bus device (configAddress base bus device 0) i).countP (·.At b d f) =
      if i = f ∧ bus = b ∧ device = d ∧ vendorID m (configAddress base b d f) ≠ 0xFFFF then 1 else 0 := by
  unfold functionReports
  dsimp only
  rw [function_address base bus device small]
  split
  · rename_i absent
    rw [List.countP_nil, if_neg]
    rintro ⟨rfl, rfl, rfl, present⟩
    exact present absent
  · rename_i present
    rw [List.countP_singleton]
    refine if_congr (decide_eq_true_iff.trans ⟨?_, ?_⟩) rfl rfl
    · rintro ⟨rfl, rfl, rfl⟩
      exact ⟨rfl, rfl, rfl, present⟩
    · rintro ⟨rfl, rfl, rfl, _⟩
      exact ⟨rfl, rfl, rfl⟩

theorem device_count (small : i < 32) :
    (deviceReports m bus (configAddress base bus 0 0) i).countP (·.At b d f) =
      if i = d ∧ bus = b ∧ f < 8 ∧ Present m base b d f then 1 else 0 := by
  unfold deviceReports
  dsimp only
  rw [device_address base bus small]
  split
  · rename_i absent
    rw [List.countP_nil, if_neg]
    rintro ⟨rfl, rfl, _, present, _⟩
    exact present absent
  · rename_i present
    split
    · rename_i single
      rw [List.countP_singleton]
      refine if_congr (decide_eq_true_iff.trans ⟨?_, ?_⟩) rfl rfl
      · rintro ⟨rfl, rfl, rfl⟩
        exact ⟨rfl, rfl, Nat.zero_lt_succ 7, present, Or.inl rfl⟩
      · rintro ⟨rfl, rfl, _, _, first | ⟨several, _⟩⟩
        · exact ⟨rfl, rfl, first.symm⟩
        · rw [single] at several
          cases several
    · rename_i several
      rw [countP_flatMap_once (q := fun a => a = f ∧ bus = b ∧ i = d ∧ vendorID m (configAddress base b d f) ≠ 0xFFFF)
        fun a inside => by rw [function_count (List.mem_range.mp inside)]; simp, countP_one List.nodup_range]
      refine if_congr ⟨?_, ?_⟩ rfl rfl
      · rintro ⟨inside, rfl, rfl, there⟩
        exact ⟨rfl, rfl, List.mem_range.mp inside, present, Or.inr ⟨by simpa using several, there⟩⟩
      · rintro ⟨rfl, rfl, inside, _, rfl | ⟨_, there⟩⟩
        · exact ⟨List.mem_range.mpr inside, rfl, rfl, present⟩
        · exact ⟨List.mem_range.mpr inside, rfl, rfl, there⟩

theorem bus_count (inside : base < 2 ^ 64) (small : i < 256) :
    (busReports m base i).countP (·.At b d f) =
      if i = b ∧ vendorID m (configAddress base b 0 0) ≠ 0xFFFF ∧ d < 32 ∧ f < 8 ∧ Present m base b d f then 1 else 0 := by
  unfold busReports
  dsimp only
  rw [bus_address inside small]
  split
  · rename_i absent
    rw [List.countP_nil, if_neg]
    rintro ⟨rfl, present, _⟩
    exact present absent
  · rename_i present
    rw [countP_flatMap_once (q := fun a => a = d ∧ i = b ∧ f < 8 ∧ Present m base b d f)
      fun a inside => by rw [device_count (List.mem_range.mp inside)]; simp, countP_one List.nodup_range]
    refine if_congr ⟨?_, ?_⟩ rfl rfl
    · rintro ⟨inside, rfl, low, there⟩
      exact ⟨rfl, present, List.mem_range.mp inside, low, there⟩
    · rintro ⟨rfl, _, inside, low, there⟩
      exact ⟨List.mem_range.mpr inside, rfl, low, there⟩

theorem buses_count (m : Mem) (entry b d f : Nat) :
    (entryReports m entry).countP (·.At b d f) = if Reaches m entry b d f then 1 else 0 := by
  have last : endPCIBus m entry < 256 := load_lt 1 _ _
  have wide : PCIConfigEntry.base m entry < 2 ^ 64 := load_lt 8 _ _
  unfold entryReports
  dsimp only
  rw [countP_flatMap_once (q := fun a => a = b ∧ vendorID m (configAddress (PCIConfigEntry.base m entry) b 0 0) ≠ 0xFFFF ∧
      d < 32 ∧ f < 8 ∧ Present m (PCIConfigEntry.base m entry) b d f) fun a inside => by
        rw [List.mem_range'_1] at inside
        rw [bus_count wide (by omega)]
        simp, countP_one List.nodup_range']
  refine if_congr ?_ rfl rfl
  rw [List.mem_range'_1]
  unfold Reaches Lists
  constructor
  · rintro ⟨⟨low, high⟩, first, there⟩
    exact ⟨⟨low, by omega, there⟩, by omega, first⟩
  · rintro ⟨⟨low, _, there⟩, high, first⟩
    exact ⟨⟨low, by omega⟩, first, there⟩

/-! ### What is in a report -/

/-- The report is read where its own bus, device and function are. -/
def PcieReport.Located (m : Mem) (base : Nat) (r : PcieReport) : Prop :=
  r.ReadAt m (configAddress base r.bus r.device r.function)

theorem function_located {r : PcieReport} (small : i < 8)
    (reported : r ∈ functionReports m bus device (configAddress base bus device 0) i) : r.Located m base := by
  unfold functionReports at reported
  dsimp only at reported
  rw [function_address base bus device small] at reported
  split at reported
  · cases reported
  · rw [List.mem_singleton.mp reported]
    exact ⟨rfl, rfl, rfl, rfl⟩

theorem device_located {r : PcieReport} (small : i < 32)
    (reported : r ∈ deviceReports m bus (configAddress base bus 0 0) i) : r.Located m base := by
  unfold deviceReports at reported
  dsimp only at reported
  rw [device_address base bus small] at reported
  split at reported
  · cases reported
  · split at reported
    · rw [List.mem_singleton.mp reported]
      exact ⟨rfl, rfl, rfl, rfl⟩
    · obtain ⟨f, inside, reported⟩ := List.mem_flatMap.mp reported
      exact function_located (List.mem_range.mp inside) reported

theorem buses_located {r : PcieReport} (reported : r ∈ entryReports m entry) : r.Located m (PCIConfigEntry.base m entry) := by
  have last : endPCIBus m entry < 256 := load_lt 1 _ _
  have wide : PCIConfigEntry.base m entry < 2 ^ 64 := load_lt 8 _ _
  obtain ⟨b, listed, reported⟩ := List.mem_flatMap.mp reported
  rw [List.mem_range'_1] at listed
  unfold busReports at reported
  dsimp only at reported
  rw [bus_address wide (by omega)] at reported
  split at reported
  · cases reported
  · obtain ⟨d, inside, reported⟩ := List.mem_flatMap.mp reported
    exact device_located (List.mem_range.mp inside) reported

theorem reports_reached {r : PcieReport} (reported : r ∈ entryReports m entry) :
    Reaches m entry r.bus r.device r.function := by
  have some : 0 < (entryReports m entry).countP (·.At r.bus r.device r.function) :=
    List.countP_pos_iff.mpr ⟨r, reported, decide_eq_true ⟨rfl, rfl, rfl⟩⟩
  rw [buses_count] at some
  by_contra unreached
  rw [if_neg unreached] at some
  exact Nat.lt_irrefl 0 some

/-- Every device that there is to print under an entry has a text for its subclass. -/
theorem entryReports_have_text : (∀ r ∈ entryReports m entry, HasSubclassText r.classCode r.subClass) ↔
    ∀ b d f, Reaches m entry b d f → PrintableAt m (configAddress (PCIConfigEntry.base m entry) b d f) := by
  constructor
  · intro texts b d f reaches
    have some : 0 < (entryReports m entry).countP (·.At b d f) := by
      rw [buses_count, if_pos reaches]
      exact Nat.one_pos
    obtain ⟨r, reported, place⟩ := List.countP_pos_iff.mp some
    obtain ⟨rfl, rfl, rfl⟩ := of_decide_eq_true place
    obtain ⟨_, _, classCode, subClass⟩ := buses_located reported
    have text := texts r reported
    rw [classCode, subClass] at text
    exact text
  · intro texts r reported
    obtain ⟨_, _, classCode, subClass⟩ := buses_located reported
    rw [classCode, subClass]
    exact texts _ _ _ (reports_reached reported)

/-! ### The whole table -/

def mcfgEntries (m : Mem) (mcfg : Nat) : List Nat := tableEntries m mcfg 44 16

def PcieEvent.report? : PcieEvent → Option PcieReport
  | .entry _ => none
  | .report r _ => some r

def reports (log : List PcieEvent) : List PcieReport := log.filterMap PcieEvent.report?

/-- A pass that returns reports what there is under its entry. -/
theorem enumerateEntry_reports (returned : (enumerateEntry m entry).result = .ok ()) :
    reports (enumerateEntry m entry).log = entryReports m entry := by
  have texts := (enumerateEntry_returns m entry).mp returned
  unfold reports
  rw [enumerateEntry_log, List.filterMap_cons_none (show PcieEvent.report? (.entry entry) = none from rfl),
    forEach_log fun r member => (printDevice_returns r).mpr (texts r member), List.filterMap_flatMap]
  refine (List.flatMap_congr fun r member => ?_).trans (List.flatMap_singleton' _)
  obtain ⟨text, known⟩ := (subclassText_ok_iff r.classCode r.subClass).mpr (texts r member)
  rw [printDevice_log known]
  rfl

/-- The functions that are reported are the ones that an entry lists, each one
once, and each is read in the configuration space that its entry gives it. -/
def CompleteAndExact (m : Mem) (mcfg : Nat) : Prop :=
  ∃ log, initializePCIE m mcfg = done log () ∧
    (∀ b d f, (reports log).countP (·.At b d f) = if ∃ entry ∈ mcfgEntries m mcfg, Lists m entry b d f then 1 else 0) ∧
    ∀ r ∈ reports log, ∃ entry ∈ mcfgEntries m mcfg, Lists m entry r.bus r.device r.function ∧
      r.Located m (PCIConfigEntry.base m entry)

theorem initializePCIE_overflow (table : mcfg ≠ null) (large : 2 ^ 31 + 28 ≤ ACPISystemTableHeader.length m mcfg) :
    (initializePCIE m mcfg).result ≠ .ok () := by
  have width : ACPISystemTableHeader.length m mcfg < 2 ^ 32 := load_lt 4 _ _
  unfold initializePCIE ACPISystemTableHeader.bytes PCIConfigEntry.bytes
  dsimp only
  obtain ⟨n, count⟩ := Nat.exists_eq_add_one.mpr (show 0 < (ACPISystemTableHeader.length m mcfg - 44) / 16 by omega)
  rw [if_neg table, mcfgEntries_eq width, count]
  exact pcieLoop_overflow (by omega)

/-- Whatever the entries reach can be printed. -/
def AllPrintable (m : Mem) (entries : List Nat) : Prop :=
  ∀ entry ∈ entries, ∀ b d f, Reaches m entry b d f → PrintableAt m (configAddress (PCIConfigEntry.base m entry) b d f)

theorem entries_return (m : Mem) (entries : List Nat) :
    (∀ entry ∈ entries, (enumerateEntry m entry).result = .ok ()) ↔ AllPrintable m entries :=
  forall₂_congr fun entry _ => (enumerateEntry_returns m entry).trans entryReports_have_text

theorem initializePCIE_returns (table : mcfg ≠ null) (below : mcfg < 2 ^ 32)
    (small : ACPISystemTableHeader.length m mcfg < 2 ^ 31 + 28) :
    (initializePCIE m mcfg).result = .ok () ↔ AllPrintable m (mcfgEntries m mcfg) := by
  rw [initializePCIE_eq table (by omega) small, forEach_returns]
  exact entries_return m _

theorem initializePCIE_reports (table : mcfg ≠ null) (below : mcfg < 2 ^ 32)
    (small : ACPISystemTableHeader.length m mcfg < 2 ^ 31 + 28) (texts : AllPrintable m (mcfgEntries m mcfg)) :
    reports (initializePCIE m mcfg).log = (mcfgEntries m mcfg).flatMap (entryReports m) := by
  have each := (entries_return m _).mpr texts
  unfold reports mcfgEntries at *
  rw [initializePCIE_eq table (by omega) small, forEach_log each, List.filterMap_flatMap]
  exact List.flatMap_congr fun entry member => enumerateEntry_reports (each entry member)

theorem entries_count (m : Mem) (entries : List Nat) (b d f : Nat) :
    (entries.flatMap (entryReports m)).countP (·.At b d f) = entries.countP (Reaches m · b d f) :=
  countP_flatMap_once fun entry _ => by
    rw [buses_count]
    simp only [decide_eq_true_eq]

theorem CompleteAndExact.reached_once (complete : CompleteAndExact m mcfg) (table : mcfg ≠ null) (below : mcfg < 2 ^ 32) :
    ACPISystemTableHeader.length m mcfg < 2 ^ 31 + 28 ∧
      (∀ b d f, (∃ entry ∈ mcfgEntries m mcfg, Lists m entry b d f) →
        (mcfgEntries m mcfg).countP (Reaches m · b d f) = 1) ∧ AllPrintable m (mcfgEntries m mcfg) := by
  obtain ⟨log, ends, once, _⟩ := complete
  obtain ⟨rfl, returned⟩ := eq_done.mp ends
  have small : ACPISystemTableHeader.length m mcfg < 2 ^ 31 + 28 := by
    by_contra large
    exact initializePCIE_overflow table (by omega) returned
  have texts := (initializePCIE_returns table below small).mp returned
  refine ⟨small, fun b d f listed => ?_, texts⟩
  rw [← entries_count, ← initializePCIE_reports table below small texts, once, if_pos listed]

theorem oneDevice_entries (endBus : UInt8) : mcfgEntries (oneDevice endBus) 0x2000 = [0x202c] := by
  have rest : load 3 (oneDevice endBus) 0x2005 = 0 := load_of_zero fun x low high => by
    obtain rfl | rfl | rfl : x = 0x2005 ∨ x = 0x2006 ∨ x = 0x2007 := by omega
    all_goals rfl
  have length : ACPISystemTableHeader.length (oneDevice endBus) 0x2000 = 60 := by
    rw [ACPISystemTableHeader.length, load_succ, rest]
    rfl
  unfold mcfgEntries tableEntries
  rw [length]
  rfl

theorem firmware_absent {table : List UInt8} {classCode subClass : UInt8} (elsewhere : 0x100010 ≤ x) :
    vendorID (firmware table classCode subClass) x = 0xFFFF := by
  have byte : ∀ a, 0x100010 ≤ a → firmware table classCode subClass a = 0xff := fun a above => by
    unfold firmware
    rw [if_neg (by omega), if_neg (by omega), if_neg (by omega)]
    rw [List.getD_eq_getElem?_getD, List.getElem?_eq_none (show 16 ≤ a - 0x100000 by omega)]
    rfl
  unfold vendorID
  rw [load_succ, load_byte, byte _ elsewhere, byte _ (by omega)]
  rfl

/-- An entry for the bus of the device lists that device only. -/
theorem firmware_place {table : List UInt8} {classCode subClass : UInt8}
    (here : PCIConfigEntry.base (firmware table classCode subClass) entry = 0x100000)
    (buses : endPCIBus (firmware table classCode subClass) entry = 1)
    (single : (hdrType (firmware table classCode subClass) (configAddress 0x100000 0 0 0)).testBit 7 = false)
    (listed : Lists (firmware table classCode subClass) entry b d f) : b = 0 ∧ d = 0 ∧ f = 0 := by
  obtain ⟨_, lastBus, lastDevice, _, present, first⟩ := listed
  rw [buses] at lastBus
  rw [here] at present first
  have zero : b = 0 ∧ d = 0 := by
    by_contra other
    refine present (firmware_absent ?_)
    unfold configAddress
    omega
  obtain ⟨rfl, rfl⟩ := zero
  rcases first with rfl | ⟨several, _⟩
  · exact ⟨rfl, rfl, rfl⟩
  · rw [single] at several
    cases several

theorem oneDevice_place (listed : Lists (oneDevice 1) 0x202c b d f) : b = 0 ∧ d = 0 ∧ f = 0 :=
  firmware_place (by decide +kernel) (by decide +kernel) (by decide +kernel) listed

end System14
