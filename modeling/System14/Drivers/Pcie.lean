import System14.Drivers.Acpi
import System14.Drivers.PcieNames
import System14.Lib.Logged

/-!
# PCI Express

`pcie.c` goes over the entries of the MCFG, the buses of an entry, the 32
devices of a bus and the 8 functions of a device. The configuration space of a
function is a page of memory; what is found there is printed, and a device whose
subclass has no text stops everything. Recorded are the entries that are visited
and what is printed of each device.
-/

namespace System14
open ByteMem Logged

variable {m : Mem} {n i mcfg : Nat}

namespace PCIConfigEntry

def bytes : Nat := 16

def base (m : Mem) (entry : Nat) : Nat := load 8 m entry

def startPCIBus (m : Mem) (entry : Nat) : Nat := load 1 m (entry + 10)

def endPCIBus (m : Mem) (entry : Nat) : Nat := load 1 m (entry + 11)

end PCIConfigEntry

namespace PCIDeviceStruct

def vendorID (m : Mem) (device : Nat) : Nat := load 2 m device

def subClass (m : Mem) (device : Nat) : Nat := load 1 m (device + 10)

def classCode (m : Mem) (device : Nat) : Nat := load 1 m (device + 11)

def hdrType (m : Mem) (device : Nat) : Nat := load 1 m (device + 14)

/-- `BAR0` to `BAR5` of a header of type 0. -/
def bars (m : Mem) (device : Nat) : List Nat := (List.range 6).map fun i => load 4 m (device + 16 + 4 * i)

end PCIDeviceStruct

/-- One device as it is printed, with the address it is read at. The bus, device
and function are the ones of the calls that print it. -/
structure PcieReport where
  bus : Nat
  device : Nat
  function : Nat
  address : Nat
  vendorID : Nat
  classCode : Nat
  subClass : Nat
  bars : List Nat

/-- What is recorded: an entry that is visited, and a device with the texts that are printed for it. -/
inductive PcieEvent where
  | entry (address : Nat)
  | report (r : PcieReport) (texts : List String)

abbrev PcieM := Logged PcieEvent Stop

open PCIDeviceStruct

/-- The lines about one device. Its vendor and its type are printed by the time the subtype is looked up. -/
def printDevice (r : PcieReport) : PcieM Unit := do
  let subtype ← lift (subclassText r.classCode r.subClass)
  emit (.report r [identifyVendor r.vendorID, classCodeType r.classCode, subtype])

def pcieEnumerateFunction (m : Mem) (bus device base functionid : Nat) : PcieM Unit :=
  let addr := uadd 64 base (intToU64 (functionid * 2 ^ 12))
  if vendorID m addr = 0xFFFF then return ()
  else printDevice ⟨bus, device, functionid, addr, vendorID m addr, classCode m addr, subClass m addr, []⟩

def pcieEnumerateDevice (m : Mem) (bus base deviceid : Nat) : PcieM Unit :=
  let addr := uadd 64 base (intToU64 (deviceid * 2 ^ 15))
  if vendorID m addr = 0xFFFF then return ()
  else if (hdrType m addr).testBit 7 = false then
    printDevice ⟨bus, deviceid, 0, addr, vendorID m addr, classCode m addr, subClass m addr,
      if hdrType m addr = 0 then bars m addr else []⟩
  else forEach (fun i => pcieEnumerateFunction m bus deviceid addr i) (List.range 8)

def pcieEnumerateBus (m : Mem) (base busid : Nat) : PcieM Unit :=
  let addr := uadd 64 base (intToU64 (busid * 2 ^ 20))
  if vendorID m addr = 0xFFFF then return ()
  else forEach (fun i => pcieEnumerateDevice m busid addr i) (List.range 32)

/-- The buses of an entry, from the first one up to and without the last one. -/
def pcieBuses (m : Mem) (entry : Nat) : PcieM Unit :=
  let start := PCIConfigEntry.startPCIBus m entry
  forEach (fun i => pcieEnumerateBus m (PCIConfigEntry.base m entry) i)
    (List.range' start (PCIConfigEntry.endPCIBus m entry - start))

/-- The loop of `InitializePCIE` for `n` more entries, from number `i` on. -/
def pcieLoop (m : Mem) (mcfg : Nat) : Nat → Nat → PcieM Unit
  | 0, _ => return ()
  | n + 1, i =>
    if 2 ^ 31 ≤ 44 + 16 * i then stop .signedOverflow
    else do
      let off := uadd 64 mcfg (44 + 16 * i)
      emit (.entry off)
      pcieBuses m off
      pcieLoop m mcfg n (i + 1)

/-- `InitializePCIE`, with the MCFG that `GetMCFG` returns. -/
def initializePCIE (m : Mem) (mcfg : Nat) : PcieM Unit :=
  if mcfg = null then return ()
  else
    let entryCount := u64ToInt
      (usub 64 (ACPISystemTableHeader.length m mcfg) (ACPISystemTableHeader.bytes + 8) / PCIConfigEntry.bytes)
    pcieLoop m mcfg entryCount.toNat 0

/-! ### What there is to print -/

def functionReports (m : Mem) (bus device base functionid : Nat) : List PcieReport :=
  let addr := uadd 64 base (intToU64 (functionid * 2 ^ 12))
  if vendorID m addr = 0xFFFF then []
  else [⟨bus, device, functionid, addr, vendorID m addr, classCode m addr, subClass m addr, []⟩]

def deviceReports (m : Mem) (bus base deviceid : Nat) : List PcieReport :=
  let addr := uadd 64 base (intToU64 (deviceid * 2 ^ 15))
  if vendorID m addr = 0xFFFF then []
  else if (hdrType m addr).testBit 7 = false then
    [⟨bus, deviceid, 0, addr, vendorID m addr, classCode m addr, subClass m addr,
      if hdrType m addr = 0 then bars m addr else []⟩]
  else (List.range 8).flatMap fun i => functionReports m bus deviceid addr i

def busReports (m : Mem) (base busid : Nat) : List PcieReport :=
  let addr := uadd 64 base (intToU64 (busid * 2 ^ 20))
  if vendorID m addr = 0xFFFF then []
  else (List.range 32).flatMap fun i => deviceReports m busid addr i

def entryReports (m : Mem) (entry : Nat) : List PcieReport :=
  let start := PCIConfigEntry.startPCIBus m entry
  (List.range' start (PCIConfigEntry.endPCIBus m entry - start)).flatMap fun i =>
    busReports m (PCIConfigEntry.base m entry) i

theorem enumerateFunction_eq (bus device base functionid : Nat) :
    pcieEnumerateFunction m bus device base functionid = forEach printDevice (functionReports m bus device base functionid) := by
  unfold pcieEnumerateFunction functionReports
  dsimp only
  split
  · rfl
  · exact (forEach_single _ _).symm

theorem enumerateDevice_eq (bus base deviceid : Nat) :
    pcieEnumerateDevice m bus base deviceid = forEach printDevice (deviceReports m bus base deviceid) := by
  unfold pcieEnumerateDevice deviceReports
  dsimp only
  split
  · rfl
  · split
    · exact (forEach_single _ _).symm
    · rw [forEach_flatMap]
      exact forEach_congr fun i _ => enumerateFunction_eq bus deviceid _ i

theorem enumerateBus_eq (base busid : Nat) : pcieEnumerateBus m base busid = forEach printDevice (busReports m base busid) := by
  unfold pcieEnumerateBus busReports
  dsimp only
  split
  · rfl
  · rw [forEach_flatMap]
    exact forEach_congr fun i _ => enumerateDevice_eq busid _ i

theorem pcieBuses_eq (m : Mem) (entry : Nat) : pcieBuses m entry = forEach printDevice (entryReports m entry) := by
  unfold pcieBuses entryReports
  dsimp only
  rw [forEach_flatMap]
  exact forEach_congr fun i _ => enumerateBus_eq _ i

/-- A device is printed to the end just when the kernel has a text for its subclass. -/
theorem printDevice_returns (r : PcieReport) :
    (printDevice r).result = .ok () ↔ HasSubclassText r.classCode r.subClass := by
  rw [← subclassText_ok_iff, printDevice, result_bind]
  show (subclassText r.classCode r.subClass >>= fun _ => _) = _ ↔ _
  cases subclassText r.classCode r.subClass with
  | error e => exact iff_of_false nofun nofun
  | ok text => exact iff_of_true rfl ⟨text, rfl⟩

theorem printDevice_log {r : PcieReport} {text : String} (known : subclassText r.classCode r.subClass = .ok text) :
    (printDevice r).log = [.report r [identifyVendor r.vendorID, classCodeType r.classCode, text]] := by
  rw [printDevice, known]
  rfl

theorem mem_printDevice_log {r : PcieReport} {e : PcieEvent} (member : e ∈ (printDevice r).log) :
    ∃ texts, e = .report r texts := by
  rw [printDevice] at member
  cases known : subclassText r.classCode r.subClass with
  | error stopped =>
    rw [known] at member
    cases member
  | ok text =>
    rw [known] at member
    exact ⟨_, List.mem_singleton.mp member⟩

/-! ### The entries of the table -/

/-- One pass of the loop. -/
def enumerateEntry (m : Mem) (entry : Nat) : PcieM Unit := do
  emit (.entry entry)
  pcieBuses m entry

theorem enumerateEntry_log (m : Mem) (entry : Nat) :
    (enumerateEntry m entry).log = .entry entry :: (forEach printDevice (entryReports m entry)).log := by
  rw [← pcieBuses_eq]
  rfl

/-- A pass returns just when every device that there is to print can be printed. -/
theorem enumerateEntry_returns (m : Mem) (entry : Nat) :
    (enumerateEntry m entry).result = .ok () ↔ ∀ r ∈ entryReports m entry, HasSubclassText r.classCode r.subClass := by
  have same : (enumerateEntry m entry).result = (forEach printDevice (entryReports m entry)).result := by
    rw [← pcieBuses_eq]
    rfl
  rw [same, forEach_returns]
  exact forall₂_congr fun r _ => printDevice_returns r

theorem pcieLoop_eq (small : 44 + 16 * (i + n) < 2 ^ 31 + 16) (bound : mcfg ≤ 2 ^ 32) :
    pcieLoop m mcfg n i = forEach (enumerateEntry m) ((List.range' i n).map fun i => mcfg + 44 + i * 16) := by
  induction n generalizing i with
  | zero => rfl
  | succ n ih =>
    rw [pcieLoop, if_neg (by omega), uadd_of_lt (by omega), List.range'_succ, List.map_cons, forEach_cons,
      show mcfg + (44 + 16 * i) = mcfg + 44 + i * 16 by omega, ← ih (by omega), enumerateEntry, bind_assoc]

/-- An entry too far for an `int` stops the loop, if nothing before does. -/
theorem pcieLoop_overflow (large : 2 ^ 31 ≤ 44 + 16 * (i + n)) : (pcieLoop m mcfg (n + 1) i).result ≠ .ok () := by
  induction n generalizing i with
  | zero =>
    rw [pcieLoop, if_pos (by omega)]
    exact nofun
  | succ n ih =>
    rw [pcieLoop]
    split
    · exact nofun
    · rw [result_bind_ok (show (emit _ : PcieM Unit).result = .ok () from rfl), result_bind]
      cases (pcieBuses m (uadd 64 mcfg (44 + 16 * i))).result with
      | error e => exact nofun
      | ok u => exact ih (by omega)

theorem mcfgEntries_eq {length : Nat} (small : length < 2 ^ 32) :
    (u64ToInt (usub 64 length 44 / 16)).toNat = (length - 44) / 16 := by
  unfold u64ToInt usub
  dsimp only
  rcases Nat.lt_or_ge length 44 with short | fits
  · rw [if_neg (by omega)]
    omega
  · rw [if_pos (by omega)]
    omega

/-- Fewer entries than an `int` can number are gone over in order. -/
theorem initializePCIE_eq (table : mcfg ≠ null) (below : mcfg ≤ 2 ^ 32)
    (small : ACPISystemTableHeader.length m mcfg < 2 ^ 31 + 28) :
    initializePCIE m mcfg = forEach (enumerateEntry m) (tableEntries m mcfg 44 16) := by
  unfold initializePCIE ACPISystemTableHeader.bytes PCIConfigEntry.bytes tableEntries
  dsimp only
  rw [if_neg table, mcfgEntries_eq (by omega), pcieLoop_eq (by omega) below, List.range_eq_range']

def PcieEvent.entry? : PcieEvent → Option Nat
  | .entry address => some address
  | .report _ _ => none

/-- The entries that were visited. -/
def visitedEntries (log : List PcieEvent) : List Nat := log.filterMap PcieEvent.entry?

/-- A pass visits its own entry. -/
theorem enumerateEntry_visits (m : Mem) (entry : Nat) : visitedEntries (enumerateEntry m entry).log = [entry] := by
  unfold visitedEntries
  rw [enumerateEntry_log, List.filterMap_cons_some (show PcieEvent.entry? (.entry entry) = some entry from rfl)]
  refine congrArg _ (List.filterMap_eq_nil_iff.mpr fun e member => ?_)
  obtain ⟨r, _, printed⟩ := mem_forEach_log member
  obtain ⟨texts, rfl⟩ := mem_printDevice_log printed
  rfl

/-! ### A small machine -/

/-- An RSDT whose one entry is for the table at `0x2000`. -/
def rsdtBytes : List UInt8 := [0x52, 0x53, 0x44, 0x54, 40, 0, 0, 0] ++ List.replicate 28 0 ++ [0, 0x20, 0, 0]

/-- An MCFG whose one entry has the buses from 0 to `endBus` at `0x100000`. -/
def mcfgBytes (endBus : UInt8) : List UInt8 :=
  mcfgSignature ++ [60, 0, 0, 0] ++ List.replicate 36 0 ++ [0, 0, 0x10, 0, 0, 0, 0, 0, 0, 0, 0, endBus, 0, 0, 0, 0]

/-- The texts, an RSDT, an MCFG with these bytes, and a device of this class and
subclass at `0x100000`, in the first slot of its bus, and nowhere else. -/
def firmware (mcfg : List UInt8) (classCode subClass : UInt8) (x : Nat) : UInt8 :=
  if x < 0x1000 then (mcfgSignature ++ [0] ++ apicSignature ++ [0]).getD (x - 0x100) 0
  else if x < 0x2000 then rsdtBytes.getD (x - 0x1000) 0
  else if x < 0x100000 then mcfg.getD (x - 0x2000) 0
  else ([0x86, 0x80] ++ List.replicate 8 0 ++ [subClass, classCode] ++ List.replicate 4 0).getD (x - 0x100000) 0xff

def firmwareText : AcpiText := ⟨0x100, 0x105⟩

theorem firmware_holds (mcfg : List UInt8) (classCode subClass : UInt8) :
    firmwareText.Holds (firmware mcfg classCode subClass) := by
  constructor <;> simp [CString, firmwareText, firmware, mcfgSignature, apicSignature]

def oneDevice (endBus : UInt8) : Mem := firmware (mcfgBytes endBus) 0 0

end System14
