import System14.Drivers.Routing
import System14.Drivers.Redirection
import System14.Drivers.Rtc
import System14.Interrupts.Idt

/-!
# The way of an interrupt

`InitializeIDT` fills the table, moves the old interrupt controllers out of the
way of the exceptions and silences them, and routes the clock and the keyboard
through the I/O APIC. Afterwards an interrupt on one of their pins ends in the
handler that the kernel has for it, and nothing else has been let in.
-/

namespace System14
open ByteMem PortIo Run Traced IoapicChip ICStructureIOAPIC

variable {ι : Type}

/-! ### The driver of the 8259s -/

/-- `RemapPIC`. Each controller is initialized anew and gets its mask back. -/
def remapPIC (offset1 offset2 : UInt8) : PortIo ι Unit := do
  let a1 ← inb 0x21
  let a2 ← inb 0xA1
  outb 0x20 0x11
  ioWait
  outb 0xA0 0x11
  ioWait
  outb 0x21 offset1
  ioWait
  outb 0xA1 offset2
  ioWait
  outb 0x21 4
  ioWait
  outb 0xA1 2
  ioWait
  outb 0x21 0x01
  ioWait
  outb 0xA1 0x01
  ioWait
  outb 0x21 a1
  outb 0xA1 a2

def disablePIC : PortIo ι Unit := do
  outb 0xa1 0xff
  outb 0x21 0xff

/-! ### The 8259s -/

/-- What a controller takes the next word at its data port for. -/
inductive PicWord where
  | mask | offset | cascade | mode

structure Pic where
  mask : UInt8
  offset : UInt8
  cascade : UInt8
  mode : UInt8
  single : Bool
  withMode : Bool
  expects : PicWord

namespace Pic

/-- A command that has bit 4 starts the initialization. Others change nothing here. -/
def command (value : UInt8) (p : Pic) : Pic :=
  if hasBit value 4 then
    { p with
      mask := 0
      mode := if hasBit value 0 then p.mode else 0
      single := hasBit value 1
      withMode := hasBit value 0
      expects := .offset }
  else p

def data (value : UInt8) (p : Pic) : Pic :=
  match p.expects with
  | .mask => { p with mask := value }
  | .offset =>
    { p with
      offset := value &&& 0xF8
      expects := if !p.single then .cascade else if p.withMode then .mode else .mask }
  | .cascade => { p with cascade := value, expects := if p.withMode then .mode else .mask }
  | .mode => { p with mode := value, expects := .mask }

/-- The vector that a request on a line raises. -/
def raises (p : Pic) (line : Nat) : Option Nat := if hasBit p.mask line then none else some (p.offset.toNat + line)

/-- The controller after initialization. -/
def ready (mask offset cascade : UInt8) : Pic := ⟨mask, offset &&& 0xF8, cascade, 0x01, false, true, .mask⟩

end Pic

structure Pics where
  master : Pic
  slave : Pic

namespace Pics

def bus : Bus Pics where
  read port p := (if port = 0x21 then p.master.mask else if port = 0xA1 then p.slave.mask else 0xFF, p)
  write port value p :=
    if port = 0x20 then { p with master := p.master.command value }
    else if port = 0x21 then { p with master := p.master.data value }
    else if port = 0xA0 then { p with slave := p.slave.command value }
    else if port = 0xA1 then { p with slave := p.slave.data value }
    else p

theorem write_command1 (value : UInt8) (p : Pics) : bus.write 0x20 value p = { p with master := p.master.command value } := rfl

theorem write_data1 (value : UInt8) (p : Pics) : bus.write 0x21 value p = { p with master := p.master.data value } := rfl

theorem write_command2 (value : UInt8) (p : Pics) : bus.write 0xA0 value p = { p with slave := p.slave.command value } := rfl

theorem write_data2 (value : UInt8) (p : Pics) : bus.write 0xA1 value p = { p with slave := p.slave.data value } := rfl

theorem write_wait (value : UInt8) (p : Pics) : bus.write 0x80 value p = p := rfl

theorem read_data1 (p : Pics) : bus.read 0x21 p = (p.master.mask, p) := rfl

theorem read_data2 (p : Pics) : bus.read 0xA1 p = (p.slave.mask, p) := rfl

end Pics

/-- The four words of an initialization and a mask. -/
theorem Pic.initialized (p : Pic) (mask offset cascade : UInt8) :
    ((((p.command 0x11).data offset).data cascade).data 0x01).data mask = Pic.ready mask offset cascade := by
  have starts : hasBit 0x11 4 = true := by decide
  have several : hasBit 0x11 1 = false := by decide
  have more : hasBit 0x11 0 = true := by decide
  unfold command
  rw [if_pos starts, several, more]
  rfl

/-- Whatever the controllers were in the middle of, they have the new offsets and their old masks. -/
theorem remapPIC_run (offset1 offset2 : UInt8) (p : Pics) : (remapPIC offset1 offset2 : PortIo ι Unit).run Pics.bus p =
    .ok ((), ⟨.ready p.master.mask offset1 4, .ready p.slave.mask offset2 2⟩) := by
  simp only [remapPIC, ioWait, run_bind, run_outb, run_inb, ok_bind, Pics.write_command1, Pics.write_data1,
    Pics.write_command2, Pics.write_data2, Pics.write_wait, Pics.read_data1, Pics.read_data2, Pic.initialized]

theorem disablePIC_run (p : Pics) : (disablePIC : PortIo ι Unit).run Pics.bus p =
    .ok ((), ⟨p.master.data 0xff, p.slave.data 0xff⟩) := rfl

/-! ### The platform -/

/-- The access is to a page that `CreateDefaultMappings` maps where it is: one
below 4 GiB, but not the first one. -/
def ApicEvent.Mapped : ApicEvent → Prop
  | .read bytes => 4096 ≤ bytes.start ∧ bytes.start + bytes.len ≤ 2 ^ 32
  | .write target _ => 4096 ≤ target ∧ target + 4 ≤ 2 ^ 32

instance : DecidablePred ApicEvent.Mapped
  | .read _ => inferInstanceAs (Decidable (_ ∧ _))
  | .write _ _ => inferInstanceAs (Decidable (_ ∧ _))

/-- The select word and the data word of the chip at `base` are mapped. -/
def WordsMapped (base : Nat) : Prop := 4096 ≤ base ∧ base + 20 ≤ 2 ^ 32

/-- What `InitializeIDT` works on: the bytes of the table, its limit in the
processor, the devices behind the ports, and the I/O APICs by their addresses. -/
structure Platform where
  idt : Mem
  limit : Nat
  interrupts : Bool
  pics : Pics
  cmos : Cmos
  apic : Apic
  chips : Nat → IoapicChip

namespace Platform

variable {α : Type} {p : Platform}

def bus : Bus Platform where
  read port p :=
    if port = 0x70 ∨ port = 0x71 then ((Cmos.bus.read port p.cmos).1, { p with cmos := (Cmos.bus.read port p.cmos).2 })
    else ((Pics.bus.read port p.pics).1, { p with pics := (Pics.bus.read port p.pics).2 })
  write port value p :=
    if port = 0x70 ∨ port = 0x71 then { p with cmos := Cmos.bus.write port value p.cmos }
    else { p with pics := Pics.bus.write port value p.pics }

theorem cmos_part : Part bus Cmos.bus Platform.cmos (fun p d => { p with cmos := d }) fun port => port = 0x70 ∨ port = 0x71 :=
  ⟨fun _ here _ => if_pos here, fun _ here _ _ => if_pos here, fun _ _ => rfl, fun _ _ _ => rfl, fun _ => rfl⟩

theorem pics_part : Part bus Pics.bus Platform.pics (fun p d => { p with pics := d }) fun port => ¬ (port = 0x70 ∨ port = 0x71) :=
  ⟨fun _ other _ => if_neg other, fun _ other _ _ => if_neg other, fun _ _ => rfl, fun _ _ _ => rfl, fun _ => rfl⟩

/-- The driver of the I/O APICs has done `x`. Each chip sees the accesses to its
own words, and an access to a page that is not mapped faults. -/
def perform (x : ApicM α) (p : Platform) : Except Stop (α × Platform) :=
  match x with
  | .error e => .error e
  | .ok (log, a) =>
    if ∀ e ∈ log, e.Mapped then .ok (a, { p with chips := fun base => log.foldl (receive base) (p.chips base) })
    else .error .pageFault

/-- What the chips answer. -/
def device (p : Platform) (target reg : Nat) : Nat := (p.chips target).answers target target reg

/-- Where an interrupt on a pin of the I/O APIC in use goes. -/
def delivers (p : Platform) (pin : Nat) : Option Nat :=
  let entry := (p.chips p.apic.ioAPIC).entry (2 * pin)
  if entry.interruptMask = 0 then enters globalDescriptorTable p.limit p.idt entry.interruptVector.toNat else none

theorem delivers_routed {pin : Nat} {vector : BitVec 8} (route : (p.chips p.apic.ioAPIC).entry (2 * pin) = routed vector) :
    p.delivers pin = enters globalDescriptorTable p.limit p.idt vector.toNat := by
  unfold delivers
  rw [route]
  exact if_pos rfl

theorem perform_done {log : List ApicEvent} {a : α} (mapped : ∀ e ∈ log, e.Mapped) :
    p.perform (done log a) = .ok (a, { p with chips := fun base => log.foldl (receive base) (p.chips base) }) := if_pos mapped

theorem perform_fault {log : List ApicEvent} {a : α} (unmapped : ¬ ∀ e ∈ log, e.Mapped) :
    p.perform (done log a) = .error .pageFault := if_neg unmapped

end Platform

/-- `InitializeIDT`, with the memory that holds the ACPI tables and the MADT that `GetMADT` returns. -/
def initializeIDT (address : Handler → Nat) (m : Mem) (fuel madt : Nat) (p : Platform) : Except Stop Platform := do
  let p := { p with idt := fillIDT address p.idt, limit := idtLimit }
  let (_, p) ← (remapPIC 0x20 0x28).run Platform.bus p
  let (_, p) ← disablePIC.run Platform.bus p
  let (apic, p) ← p.perform (initializeAPIC p.device m fuel madt p.apic)
  let p := { p with apic := apic }
  let (_, p) ← p.perform (ioapicRegisterIRQ 0x28 8 p.apic)
  let (_, p) ← initializeRTC.run Platform.bus { p with interrupts := false }
  let (_, p) ← p.perform (ioapicRegisterIRQ 0x21 1 p.apic)
  return { p with interrupts := true }

/-! ### Finding the I/O APIC -/

section Apic

variable {m : Mem} {n a fuel ioapic madt base pin other : Nat} {s : Apic} {lens : List Nat}
  {P : ApicEvent → Prop} {Q : Nat × Apic → Prop}

/-- The bytes that are read lie from `lo` up to `hi`. -/
def ApicEvent.ReadIn (lo hi : Nat) (e : ApicEvent) : Prop := ∃ bytes, e = .read bytes ∧ e.Inside lo hi

/-- The walk over the MADT writes nothing, and reads no more than twelve bytes behind its structures. -/
theorem madtLoop_range {lo hi : Nat} (ioapic : Nat) (s : Apic) (structures : MadtStructures m a lens) (small : lens.sum < 2 ^ 32)
    (bound : a + lens.sum < 2 ^ 64) (enough : lens.length < fuel) (low : lo ≤ a) (high : a + lens.sum + 12 ≤ hi) :
    Within (ApicEvent.ReadIn lo hi) (madtLoop m fuel lens.sum a ioapic s)
      (· = (icStarts a lens).foldl (fun r q => madtFound m q r) (ioapic, s)) := by
  induction lens generalizing a fuel ioapic s with
  | nil =>
    obtain ⟨fuel, rfl⟩ := Nat.exists_eq_add_one.mpr enough
    rw [madtLoop, if_neg (by simp)]
    exact within_pure.mpr rfl
  | cons len lens ih =>
    obtain ⟨fuel, rfl⟩ := Nat.exists_eq_add_one.mpr (Nat.zero_lt_of_lt enough)
    obtain ⟨here, some, rest⟩ := structures
    rw [List.sum_cons] at small bound high ⊢
    rw [madtLoop_pass (by omega), here, usub_of_le small (by omega), uadd_of_lt (by omega), Nat.add_sub_cancel_left]
    have width : icBytes m a ≤ 12 := by
      unfold icBytes
      split <;> omega
    refine ⟨fun bytes member => ⟨bytes, rfl, icReads_inside.mpr ⟨low, by omega⟩ bytes member⟩, ?_⟩
    exact ih _ _ rest (by omega) (by omega) (by simpa using enough) (by omega) (by omega)

theorem mem_icStarts {q : Nat} (member : q ∈ icStarts a lens) : a ≤ q ∧ q ≤ a + lens.sum := by
  induction lens generalizing a with
  | nil => cases member
  | cons len lens ih =>
    rw [List.sum_cons]
    rcases List.mem_cons.mp member with rfl | later
    · omega
    · have := ih later
      omega

/-- `InitializeAPIC` reads the table, and writes only to the select word of the chip it has found. -/
theorem initializeAPIC_accesses (device : Nat → Nat → Nat) (s : Apic) (wellFormed : MadtWellFormed m madt lens)
    (below : madt < 2 ^ 32) (enough : lens.length < fuel) :
    Within (fun e => e.ReadIn madt (madt + MADT.length m madt + 12) ∨ ∃ value, e = .write (apicAfter m madt lens s).ioAPIC value)
      (initializeAPIC device m fuel madt s) (· = apicAfter m madt lens s) := by
  have length := wellFormed.length
  have small : MADT.length m madt < 2 ^ 32 := load_lt 4 _ _
  have rest : madtRest (MADT.length m madt) = lens.sum := by
    rw [madtRest_of_le small (by omega)]
    omega
  have found := madtLoop_range null { s with localAPIC := load 4 m (madt + 36) } wellFormed.structures (by omega) (by omega)
    enough (show madt ≤ madt + 44 by omega) (show madt + 44 + lens.sum + 12 ≤ madt + MADT.length m madt + 12 by omega)
  rw [foldl_madtFound] at found
  have header : ∀ n, n + 4 ≤ 44 → ApicEvent.ReadIn madt (madt + MADT.length m madt + 12) (.read ⟨madt + n, 4⟩) :=
    fun n low => ⟨_, rfl, Nat.le_add_right _ _, by
      show madt + n + 4 ≤ _
      omega⟩
  unfold initializeAPIC
  rw [within_bind, fetch_within]
  refine ⟨Or.inl (header 36 (by decide)), ?_⟩
  rw [within_bind, fetch_within]
  refine ⟨Or.inl (header 4 (by decide)), ?_⟩
  rw [within_bind, show load 4 m (madt + 4) = MADT.length m madt from rfl, rest]
  refine (found.weaken fun _ => Or.inl).mono fun r result => ?_
  subst result
  unfold apicAfter ioapics
  cases last : ((icStarts (madt + 44) lens).filter fun q => load 1 m q = 0x1).getLast? with
  | none => exact within_pure.mpr rfl
  | some q =>
    have place := mem_icStarts (List.mem_of_mem_filter (List.mem_of_getLast? last))
    dsimp only
    split
    · exact within_pure.mpr rfl
    · simp only [within_bind, fetch_within, ioapicRead, within_emit, within_pure]
      refine ⟨Or.inl ⟨_, rfl, ?_⟩, Or.inr ⟨_, rfl⟩, rfl⟩
      show madt ≤ q + 4 ∧ q + 4 + 4 ≤ _
      omega

theorem selects_registers {log : List ApicEvent} {c : IoapicChip}
    (selects : ∀ e ∈ log, ∀ target value, e = .write target value → target = base) :
    (log.foldl (receive base) c).registers = c.registers := by
  induction log generalizing c with
  | nil => rfl
  | cons e log ih =>
    rw [List.foldl_cons, ih fun e' member => selects e' (List.mem_cons_of_mem _ member)]
    cases e with
    | read bytes => rfl
    | write target value =>
      rw [selects _ (List.mem_cons_self ..) target value rfl, receive_select]

theorem entry_congr {c d : IoapicChip} (same : c.registers = d.registers) : c.entry other = d.entry other := by
  unfold entry pair
  rw [same]

/-- `IOAPICRegisterIRQ` accesses both words of the chip, and replaces the entry of its pin. -/
theorem registerIRQ_entry (s : Apic) (vector : BitVec 8) (pin : UInt8) (low : pin.toNat < 120) : ∃ log,
    ioapicRegisterIRQ vector pin s = done log () ∧ ((∀ e ∈ log, e.Mapped) ↔ WordsMapped s.ioAPIC) ∧
      ∀ (c : IoapicChip), ∀ other < 120, (log.foldl (receive s.ioAPIC) c).entry (2 * other) =
        if other = pin.toNat then routed vector else c.entry (2 * other) := by
  have range : EntryOffset (pin.toNat * 2) := ⟨by omega, by omega⟩
  refine ⟨_, bind_done (writeEntry_done range) rfl, ?_, fun c other otherLow => ?_⟩
  · simp only [List.append_nil, List.forall_mem_cons, ApicEvent.Mapped, WordsMapped, List.not_mem_nil, false_implies,
      implies_true, and_true]
    omega
  have otherRange : EntryOffset (2 * other) := ⟨by omega, by omega⟩
  have written : (c.performed s.ioAPIC (ioapicWriteRedirectionEntry s.ioAPIC (pin.toNat * 2) (routed vector))).entry
      (2 * other) = _ := entry_written range otherRange
  rw [writeEntry_done range, performed_done] at written
  rw [List.append_nil, written, Function.update_apply]
  exact if_congr ⟨by omega, by omega⟩ rfl rfl

end Apic

/-! ### Delivery -/

section Delivery

variable {address : Handler → Nat} {m : Mem} {fuel madt : Nat} {lens : List Nat}

theorem remapPIC_uses (offset1 offset2 : UInt8) :
    (remapPIC offset1 offset2 : PortIo ι Unit).Uses fun port => ¬ (port = 0x70 ∨ port = 0x71) := by
  simp [remapPIC, ioWait, uses_outb_bind, uses_inb_bind, uses_outb]

theorem disablePIC_uses : (disablePIC : PortIo ι Unit).Uses fun port => ¬ (port = 0x70 ∨ port = 0x71) := by
  simp [disablePIC, uses_outb_bind, uses_outb]

theorem initializeRTC_uses : (initializeRTC : PortIo ι Unit).Uses fun port => port = 0x70 ∨ port = 0x71 := by
  simp [initializeRTC, uses_outb_bind, uses_inb_bind, uses_outb]

/-- What `InitializeIDT` is to achieve. -/
structure Delivered (address : Handler → Nat) (p t : Platform) : Prop where
  keyboard : t.delivers 1 = some (address .keyboardHandler)
  timer : t.delivers 8 = some (address .timerStub)
  others : ∀ pin < 120, pin ≠ 1 → pin ≠ 8 →
    (t.chips t.apic.ioAPIC).entry (2 * pin) = (p.chips t.apic.ioAPIC).entry (2 * pin)
  silent : ∀ line < 8, t.pics.master.raises line = none ∧ t.pics.slave.raises line = none
  gates : ∀ vector < 256, enters globalDescriptorTable t.limit t.idt vector =
    match handlerOf vector with
    | some h => some (address h)
    | none => if vector < 128 then none else enters globalDescriptorTable idtLimit p.idt vector
  clock : t.cmos.periodic = true
  enabled : t.interrupts = true

theorem hasBit_full : ∀ line < 8, hasBit 0xff line = true := by decide

theorem Pic.silent {p : Pic} (expects : p.expects = .mask) {line : Nat} (range : line < 8) :
    (p.data 0xff).raises line = none := by
  unfold data
  rw [expects]
  exact if_pos (hasBit_full line range)

theorem remapPIC_platform (offset1 offset2 : UInt8) (p : Platform) :
    (remapPIC offset1 offset2 : PortIo Stop Unit).run Platform.bus p =
      .ok ((), { p with pics := ⟨.ready p.pics.master.mask offset1 4, .ready p.pics.slave.mask offset2 2⟩ }) := by
  rw [Platform.pics_part.run (remapPIC_uses offset1 offset2), remapPIC_run]
  rfl

theorem disablePIC_platform (p : Platform) : (disablePIC : PortIo Stop Unit).run Platform.bus p =
    .ok ((), { p with pics := ⟨p.pics.master.data 0xff, p.pics.slave.data 0xff⟩ }) := by
  rw [Platform.pics_part.run disablePIC_uses, disablePIC_run]
  rfl

theorem initializeRTC_platform (p : Platform) : ∃ d : Cmos, d.periodic = true ∧
    (initializeRTC : PortIo Stop Unit).run Platform.bus p = .ok ((), { p with cmos := d }) := by
  obtain ⟨d, ran, _, asks, _⟩ := initializeRTC_done p.cmos
  refine ⟨d, asks, ?_⟩
  rw [Platform.cmos_part.run initializeRTC_uses, ran]
  rfl

/-- What the walk over the MADT has done to the chips leaves their registers as they are. -/
theorem walk_registers {found : List ApicEvent} {lo hi base : Nat}
    (accesses : ∀ e ∈ found, e.ReadIn lo hi ∨ ∃ value, e = .write base value) (c : IoapicChip) :
    (found.foldl (receive base) c).registers = c.registers := by
  refine selects_registers fun e member target value here => ?_
  rcases accesses e member with ⟨bytes, read, _⟩ | ⟨value', write⟩
  · cases read.symm.trans here
  · cases write.symm.trans here
    rfl

theorem initializeIDT_delivers (wellFormed : MadtWellFormed m madt lens) (low : 4096 ≤ madt)
    (high : madt + MADT.length m madt + 12 ≤ 2 ^ 32) (small : ∀ h, address h < 2 ^ 64) (enough : lens.length < fuel)
    (p : Platform) (words : WordsMapped (apicAfter m madt lens p.apic).ioAPIC) :
    ∃ t, initializeIDT address m fuel madt p = .ok t ∧ Delivered address p t := by
  have gates := fillIDT_enters address small p.idt
  obtain ⟨found, apic, walk, accesses, rfl⟩ := initializeAPIC_accesses p.device p.apic wellFormed (by omega) enough
  obtain ⟨one, clock, oneMapped, clockEntry⟩ := registerIRQ_entry (apicAfter m madt lens p.apic) 0x28 8 (by decide)
  obtain ⟨two, keyboard, twoMapped, keyboardEntry⟩ := registerIRQ_entry (apicAfter m madt lens p.apic) 0x21 1 (by decide)
  have foundMapped : ∀ e ∈ found, e.Mapped := fun e member => by
    rcases accesses e member with ⟨bytes, rfl, inside⟩ | ⟨value, rfl⟩
    · exact ⟨Nat.le_trans low inside.1, Nat.le_trans inside.2 high⟩
    · exact ⟨words.1, Nat.le_trans (Nat.add_le_add_left (by decide) _) words.2⟩
  let q : Platform :=
    { p with
      idt := fillIDT address p.idt
      limit := idtLimit
      interrupts := false
      pics := ⟨(Pic.ready p.pics.master.mask 0x20 4).data 0xff, (Pic.ready p.pics.slave.mask 0x28 2).data 0xff⟩
      apic := apicAfter m madt lens p.apic
      chips := fun base => one.foldl (receive base) (found.foldl (receive base) (p.chips base)) }
  obtain ⟨d, asks, ticks⟩ := initializeRTC_platform q
  obtain ⟨t, here⟩ : ∃ t : Platform, t =
    { q with interrupts := true, cmos := d, chips := fun base => two.foldl (receive base) (q.chips base) } := ⟨_, rfl⟩
  have chip : t.apic.ioAPIC = (apicAfter m madt lens p.apic).ioAPIC := by rw [here]
  have limit : t.limit = idtLimit := by rw [here]
  have table : t.idt = fillIDT address p.idt := by rw [here]
  have pics : t.pics = q.pics := by rw [here]
  have entries : ∀ pin < 120, (t.chips t.apic.ioAPIC).entry (2 * pin) =
      if pin = 1 then routed 0x21 else if pin = 8 then routed 0x28 else (p.chips t.apic.ioAPIC).entry (2 * pin) := by
    intro pin range
    rw [chip, here]
    refine (keyboardEntry _ pin range).trans (if_congr Iff.rfl rfl ?_)
    refine (clockEntry _ pin range).trans (if_congr Iff.rfl rfl ?_)
    exact entry_congr (walk_registers accesses _)
  have delivers : ∀ pin vector h, (t.chips t.apic.ioAPIC).entry (2 * pin) = routed vector →
      (h, vector.toNat) ∈ idtEntries → t.delivers pin = some (address h) := by
    intro pin vector h route listed
    rw [Platform.delivers_routed route, limit, table]
    exact fillIDT_listed small p.idt listed (by omega)
  refine ⟨t, ?_, ?_⟩
  · unfold initializeIDT
    simp only [remapPIC_platform, disablePIC_platform, ok_bind]
    change (Platform.perform (initializeAPIC p.device m fuel madt p.apic) _ >>= _) = _
    rw [walk, Platform.perform_done foundMapped]
    simp only [ok_bind]
    rw [clock, Platform.perform_done (oneMapped.mpr words)]
    simp only [ok_bind]
    change ((initializeRTC : PortIo Stop Unit).run Platform.bus q >>= _) = _
    rw [ticks]
    simp only [ok_bind]
    change (Platform.perform (ioapicRegisterIRQ 0x21 1 (apicAfter m madt lens p.apic)) _ >>= _) = _
    rw [keyboard, Platform.perform_done (twoMapped.mpr words), here]
    rfl
  · refine ⟨delivers 1 0x21 _ (entries 1 (by decide)) (by decide), delivers 8 0x28 _ (entries 8 (by decide)) (by decide),
      fun pin range notOne notEight => ?_, fun line range => ?_, ?_, by rw [here]; exact asks, by rw [here]⟩
    · rw [entries pin range, if_neg notOne, if_neg notEight]
    · rw [pics]
      exact ⟨Pic.silent rfl range, Pic.silent rfl range⟩
    · rw [limit, table]
      exact gates

theorem initializeIDT_faults (wellFormed : MadtWellFormed m madt lens) (below : madt < 2 ^ 32) (enough : lens.length < fuel)
    (p : Platform) (words : ¬ WordsMapped (apicAfter m madt lens p.apic).ioAPIC) :
    initializeIDT address m fuel madt p = .error .pageFault := by
  obtain ⟨found, apic, walk, _, rfl⟩ := initializeAPIC_accesses p.device p.apic wellFormed below enough
  obtain ⟨one, clock, oneMapped, _⟩ := registerIRQ_entry (apicAfter m madt lens p.apic) 0x28 8 (by decide)
  unfold initializeIDT
  simp only [remapPIC_platform, disablePIC_platform, ok_bind]
  change (Platform.perform (initializeAPIC p.device m fuel madt p.apic) _ >>= _) = _
  -- The walk may have touched the chip already; routing the clock certainly does.
  by_cases foundMapped : ∀ e ∈ found, e.Mapped
  · rw [walk, Platform.perform_done foundMapped]
    simp only [ok_bind]
    rw [clock, Platform.perform_fault (mt oneMapped.mp words)]
    rfl
  · rw [walk, Platform.perform_fault foundMapped]
    rfl

/-- Where the words of the I/O APIC are mapped, interrupts are delivered, whatever
the devices and the table held before. Otherwise, as without an I/O APIC in the
table, the first access to them faults. -/
theorem interrupts_delivered (wellFormed : MadtWellFormed m madt lens) (low : 4096 ≤ madt)
    (high : madt + MADT.length m madt + 12 ≤ 2 ^ 32) (small : ∀ h, address h < 2 ^ 64) (enough : lens.length < fuel)
    (p : Platform) :
    (WordsMapped (apicAfter m madt lens p.apic).ioAPIC →
      ∃ t, initializeIDT address m fuel madt p = .ok t ∧ Delivered address p t) ∧
    (¬ WordsMapped (apicAfter m madt lens p.apic).ioAPIC → initializeIDT address m fuel madt p = .error .pageFault) :=
  ⟨initializeIDT_delivers wellFormed low high small enough p, initializeIDT_faults wellFormed (by omega) enough p⟩

end Delivery

/-- A kernel with its handlers one behind the other, at the top of the address space. -/
def kernelHandlers (h : Handler) : Nat := 0xffffffff80001000 + 64 * idtEntries.findIdx fun e => e.1 = h

theorem kernelHandlers_lt (h : Handler) : kernelHandlers h < 2 ^ 64 := by
  cases h <;> decide

/-- A machine as the firmware leaves it: its timer and keyboard on the 8259s, every pin of the I/O APIC masked. -/
def firmwarePlatform : Platform where
  idt := fun _ => 0
  limit := 0
  interrupts := false
  pics := ⟨⟨0xB8, 0x08, 4, 1, false, true, .mask⟩, ⟨0x8F, 0x70, 2, 1, false, true, .mask⟩⟩
  cmos := ⟨0, fun i => if i = 0x0A then 0x26 else if i = 0x0B then 0x02 else 0⟩
  apic := {}
  chips := fun _ => ⟨0, fun _ => 0x10000⟩

theorem interrupts_delivered_firmware : ∃ t, initializeIDT kernelHandlers (madtOf firstChip) 2 0x1000 firmwarePlatform = .ok t ∧
    t.delivers 1 = some 0xffffffff80001240 ∧ t.delivers 8 = some 0xffffffff80001300 := by
  obtain ⟨t, initialized, delivered⟩ := (interrupts_delivered oneChip_wellFormed (by decide) (by decide +kernel) kernelHandlers_lt
    (show [12].length < 2 by decide) firmwarePlatform).1 ⟨by decide +kernel, by decide +kernel⟩
  exact ⟨t, initialized, delivered.keyboard.trans (by decide), delivered.timer.trans (by decide)⟩

end System14
