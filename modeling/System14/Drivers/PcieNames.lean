import System14.Kernel.State

/-!
# The names of PCI devices

`SubclassType` of `pcie.c` looks a subclass up in the table of its class, at
whatever place the device gives. The tables are as long as the names that are
known, some places in them are null, and what is found is printed.
-/

namespace System14

def identifyVendor (vendorCode : Nat) : String :=
  if vendorCode = 0x8086 then "Intel Corporation"
  else if vendorCode = 0x1022 then "Advanced Micro Devices, Inc. [AMD]"
  else if vendorCode = 0x1414 then "Microsoft Corporation"
  else if vendorCode = 0x1234 then "Generic/Emulator"
  else if vendorCode = 0x144D then "Samsung Electronics Co Ltd"
  else "Unknown"

def classCodeType : Nat → String
  | 0 => "Unclassified"
  | 1 => "Mass Storage Controller"
  | 2 => "Network Controller"
  | 3 => "Display Controller"
  | 4 => "Multimedia Controller"
  | 5 => "Memory Controller"
  | 6 => "Bridge"
  | 7 => "Communication Controller"
  | 8 => "Generic System Peripheral"
  | 9 => "Input Device Controller"
  | 10 => "Docking Station"
  | 11 => "Processor"
  | 12 => "Serial Bus Controller"
  | 13 => "Wireless Controller"
  | 14 => "Intelligent Controller"
  | 15 => "Satellite Communications Controller"
  | 16 => "Encryption Controller"
  | 17 => "Signal Processing Controller"
  | 18 => "Processing Accelerators"
  | 19 => "Non-Essential Instrumentation"
  | _ => "???"

/-! ### The tables -/

def subclassMassStorageController : List String :=
  ["SCSI Storage controller", "IDE interface", "Floppy disk controller", "IPI bus controller", "RAID bus controller",
    "ATA controller", "SATA controller", "Serial Attached SCSI controller", "Non-Volatile memory controller",
    "Universal Flash Storage controller"]

def subclassNetworkController : List String :=
  ["Ethernet controller", "Token ring network controller", "FDDI network controller", "ATM network controller",
    "ISDN controller", "WorldFip controller", "PICMG controller", "Infiniband controller", "Fabric controller"]

def subclassDisplayController : List String :=
  ["VGA compatible controller", "XGA compatible controller", "3D controller"]

def subclassMultimediaController : List String :=
  ["Multimedia video controller", "Multimedia audio controller", "Computer telephony device", "Audio device"]

def subclassMemoryController : List String := ["RAM memory", "FLASH memory", "CXL"]

def subclassBridge : List String :=
  ["Host bridge", "ISA bridge", "EISA bridge", "MicroChannel bridge", "PCI bridge", "PCMCIA bridge", "NuBus bridge",
    "CardBus bridge", "RACEway bridge", "Semi-transparent PCI-to-PCI bridge", "InfiniBand to PCI host bridge"]

def subclassCommunicationController : List String :=
  ["Serial controller", "Parallel controller", "Multiport serial controller", "Modem", "GPIB controller",
    "Smart Card controller"]

def subclassInputDeviceController : List String :=
  ["Keyboard controller", "Digitizer pen", "Mouse controller", "Scanner controller", "Gameport controller"]

def subclassSerialBusController : List String :=
  ["FireWire (IEEE 1394)", "ACCESS Bus", "SSA", "USB controller", "Fibre Channel", "SMBus", "InfiniBand",
    "IPMI Interface", "SERCOS interface", "CANBUS"]

def subclassWirelessController : List String :=
  ["IRDA Controller", "Consumer IR controller", "RF controller", "Bluetooth", "Broadband", "802.1a controller",
    "802.1b controller"]

def subclassSatelliteCommunicationsController : List String :=
  ["Satellite TV controller", "Satellite audio communication controller", "Satellite voice communication controller",
    "Satellite data communication controller"]

def subclassEncryptionController : List String :=
  ["Network and computing encryption device", "Entertainment encryption device"]

def subclassSignalProcessingController : List String :=
  ["DPIO module", "Performance counters", "Communication synchronizer", "Signal processing management"]

def subclassProcessingAccelerators : List String :=
  ["Processing accelerators", "SNIA Smart Data Accelerator Interface (SDXI) controller"]

/-- `none` is a null pointer. -/
def subclassGenericSystemPeripheral : List (Option String) :=
  ["PIC", "DMA controller", "Timer", "RTC", "PCI Hot-plug controller", "SD Host controller", "IOMMU"].map some ++
    List.replicate 92 none ++ [some "Timing card"]

def subclassProcessor : List (Option String) :=
  ["386", "486", "Pentium"].map some ++ List.replicate 7 none ++ [some "Alpha"] ++ List.replicate 7 none ++
    [some "Power PC"] ++ List.replicate 7 none ++ [some "MIPS"] ++ List.replicate 7 none ++ [some "Co-processor"]

/-- An array has no element behind its end. -/
def element (table : List (Option String)) (i : Nat) : Except Stop (Option String) :=
  match table[i]? with
  | some p => .ok p
  | none => .error .outOfBounds

def subclassType (classCode subclassCode : Nat) : Except Stop (Option String) :=
  if subclassCode = 0x80 then .ok (some "N/A")
  else match classCode with
    | 1 => element (subclassMassStorageController.map some) subclassCode
    | 2 => element (subclassNetworkController.map some) subclassCode
    | 3 => element (subclassDisplayController.map some) subclassCode
    | 4 => element (subclassMultimediaController.map some) subclassCode
    | 5 => element (subclassMemoryController.map some) subclassCode
    | 6 => element (subclassBridge.map some) subclassCode
    | 7 => element (subclassCommunicationController.map some) subclassCode
    | 8 => element subclassGenericSystemPeripheral subclassCode
    | 9 => element (subclassInputDeviceController.map some) subclassCode
    | 10 => .ok (some "Generic Docking Station")
    | 11 => element subclassProcessor subclassCode
    | 12 => element (subclassSerialBusController.map some) subclassCode
    | 13 => element (subclassWirelessController.map some) subclassCode
    | 14 => .ok (some "I20")
    | 15 => element (subclassSatelliteCommunicationsController.map some) subclassCode
    | 16 => element (subclassEncryptionController.map some) subclassCode
    | 17 => element (subclassSignalProcessingController.map some) subclassCode
    | 18 => element (subclassProcessingAccelerators.map some) subclassCode
    | _ => .ok (some "???")

/-- What `print` does with a pointer: it reads the first character before anything else. -/
def printable : Option String → Except Stop String
  | some text => .ok text
  | none => .error .nullDereference

/-- The text that is printed for a subclass. -/
def subclassText (classCode subclassCode : Nat) : Except Stop String := do
  let p ← subclassType classCode subclassCode
  printable p

/-! ### Which subclasses can be printed -/

/-- The kernel has a text for this subclass. It is N/A, the class has no table,
or the table of the class has a text at its place. -/
def HasSubclassText (classCode subclassCode : Nat) : Prop :=
  subclassCode = 0x80 ∨
    match classCode with
    | 1 => subclassCode < 10
    | 2 => subclassCode < 9
    | 3 => subclassCode < 3
    | 4 => subclassCode < 4
    | 5 => subclassCode < 3
    | 6 => subclassCode < 11
    | 7 => subclassCode < 6
    | 8 => subclassCode < 7 ∨ subclassCode = 99
    | 9 => subclassCode < 5
    | 11 => subclassCode ∈ [0, 1, 2, 10, 18, 26, 34]
    | 12 => subclassCode < 10
    | 13 => subclassCode < 7
    | 15 => subclassCode < 4
    | 16 => subclassCode < 2
    | 17 => subclassCode < 4
    | 18 => subclassCode < 2
    | _ => True

section Text

variable {classCode subclassCode i : Nat}

theorem element_text {table : List (Option String)} :
    (∃ text, (element table i >>= printable) = .ok text) ↔ ∃ text, table[i]? = some (some text) := by
  unfold element
  split
  · rename_i p here
    rw [here]
    cases p with
    | none => exact iff_of_false nofun nofun
    | some text => exact iff_of_true ⟨text, rfl⟩ ⟨text, rfl⟩
  · rename_i outside
    rw [outside]
    exact iff_of_false nofun nofun

/-- A table without null pointers has a text everywhere. -/
theorem element_full (names : List String) :
    (∃ text, (element (names.map some) i >>= printable) = .ok text) ↔ i < names.length := by
  rw [element_text, List.getElem?_map]
  rcases Nat.lt_or_ge i names.length with inside | outside
  · rw [List.getElem?_eq_getElem inside]
    exact iff_of_true ⟨_, rfl⟩ inside
  · rw [List.getElem?_eq_none outside]
    exact iff_of_false nofun (Nat.not_lt.mpr outside)

/-- In a table with null pointers, these places have one. -/
theorem element_some {table : List (Option String)} {P : Nat → Prop} (beyond : ∀ i, table.length ≤ i → ¬ P i)
    (places : ∀ i < table.length, (table[i]?.join.isSome = true ↔ P i)) :
    (∃ text, (element table i >>= printable) = .ok text) ↔ P i := by
  rw [element_text]
  rcases Nat.lt_or_ge i table.length with inside | outside
  · rw [← places i inside, List.getElem?_eq_getElem inside, Option.isSome_iff_exists]
    exact exists_congr fun text => Option.some_inj
  · rw [List.getElem?_eq_none outside]
    exact iff_of_false nofun (beyond i outside)

theorem peripheral_places : ∀ i < subclassGenericSystemPeripheral.length,
    (subclassGenericSystemPeripheral[i]?.join.isSome = true ↔ i < 7 ∨ i = 99) := by decide

theorem processor_places : ∀ i < subclassProcessor.length,
    (subclassProcessor[i]?.join.isSome = true ↔ i ∈ [0, 1, 2, 10, 18, 26, 34]) := by decide

/-- The text of a subclass can be printed just when the kernel has one. -/
theorem subclassText_ok_iff (classCode subclassCode : Nat) :
    (∃ text, subclassText classCode subclassCode = .ok text) ↔ HasSubclassText classCode subclassCode := by
  unfold subclassText subclassType HasSubclassText
  by_cases none : subclassCode = 0x80
  · rw [if_pos none]
    exact iff_of_true ⟨_, rfl⟩ (Or.inl none)
  rw [if_neg none, or_iff_right none]
  match classCode with
  | 0 => exact iff_of_true ⟨_, rfl⟩ trivial
  | 1 => exact element_full subclassMassStorageController
  | 2 => exact element_full subclassNetworkController
  | 3 => exact element_full subclassDisplayController
  | 4 => exact element_full subclassMultimediaController
  | 5 => exact element_full subclassMemoryController
  | 6 => exact element_full subclassBridge
  | 7 => exact element_full subclassCommunicationController
  | 8 => exact element_some (fun i outside => by
      have outside : 100 ≤ i := outside
      omega) peripheral_places
  | 9 => exact element_full subclassInputDeviceController
  | 10 => exact iff_of_true ⟨_, rfl⟩ trivial
  | 11 => exact element_some (P := (· ∈ [0, 1, 2, 10, 18, 26, 34])) (fun i outside member => by
      have outside : 35 ≤ i := outside
      simp only [List.mem_cons, List.not_mem_nil, or_false] at member
      omega) processor_places
  | 12 => exact element_full subclassSerialBusController
  | 13 => exact element_full subclassWirelessController
  | 14 => exact iff_of_true ⟨_, rfl⟩ trivial
  | 15 => exact element_full subclassSatelliteCommunicationsController
  | 16 => exact element_full subclassEncryptionController
  | 17 => exact element_full subclassSignalProcessingController
  | 18 => exact element_full subclassProcessingAccelerators
  | n + 19 => exact iff_of_true ⟨_, rfl⟩ trivial

end Text

end System14
