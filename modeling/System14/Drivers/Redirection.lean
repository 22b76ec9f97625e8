import Mathlib.Data.List.Induction
import Mathlib.Logic.Function.Basic
import System14.Drivers.Apic

/-!
# Redirection entries on the chip

The chip has 256 registers of 32 bits behind two words: what is written to the
first one selects a register, and the word 16 bytes on is that register. An
entry is a pair of registers, so the driver writes and reads it in two halves.
-/

namespace System14
open Traced

/-! ### Entries as 64-bit values -/

namespace IOAPICRedirectionEntry

/-- The bits of a packed entry that its fields take, from the first field up. -/
theorem packed_fields {v : BitVec 8} {d : BitVec 3} {dm b po l t im : BitVec 1} {r : BitVec 39} {de : BitVec 8}
    {w : BitVec (8 + 39 + 1 + 1 + 1 + 1 + 1 + 1 + 3 + 8)} (packed : w = de ++ r ++ im ++ t ++ l ++ po ++ b ++ dm ++ d ++ v) :
    w.extractLsb' 0 8 = v ∧ w.extractLsb' 8 3 = d ∧ w.extractLsb' 11 1 = dm ∧ w.extractLsb' 12 1 = b ∧
      w.extractLsb' 13 1 = po ∧ w.extractLsb' 14 1 = l ∧ w.extractLsb' 15 1 = t ∧ w.extractLsb' 16 1 = im ∧
      w.extractLsb' 17 39 = r ∧ w.extractLsb' 56 8 = de := by
  subst packed
  simp (disch := decide) only [BitVec.extractLsb'_append_eq_of_le, BitVec.extractLsb'_append_eq_right, Nat.reduceSub,
    BitVec.extractLsb'_eq_self, and_self]

theorem ofRaw_raw (e : IOAPICRedirectionEntry) : ofRaw e.raw = e := by
  unfold ofRaw raw
  rw [mk.injEq]
  exact packed_fields rfl

/-- Every field of `e` at its documented bits of `w`. -/
structure FieldsAt (w : BitVec 64) (e : IOAPICRedirectionEntry) : Prop where
  interruptVector : w.extractLsb' 0 8 = e.interruptVector
  deliveryMode : w.extractLsb' 8 3 = e.deliveryMode
  destinationMode : w.extractLsb' 11 1 = e.destinationMode
  busy : w.extractLsb' 12 1 = e.busy
  polarity : w.extractLsb' 13 1 = e.polarity
  ltiStatus : w.extractLsb' 14 1 = e.ltiStatus
  triggerMode : w.extractLsb' 15 1 = e.triggerMode
  interruptMask : w.extractLsb' 16 1 = e.interruptMask
  destination : w.extractLsb' 56 8 = e.destination

theorem raw_fields (e : IOAPICRedirectionEntry) : FieldsAt e.raw e := by
  obtain ⟨vector, delivery, mode, busy, polarity, status, trigger, mask, _, destination⟩ := packed_fields (w := e.raw) rfl
  exact ⟨vector, delivery, mode, busy, polarity, status, trigger, mask, destination⟩

/-- Every 64-bit value is an entry. -/
theorem raw_ofRaw (w : BitVec 64) : (ofRaw w).raw = w := by
  unfold ofRaw raw
  dsimp only
  simp (disch := decide) only [BitVec.extractLsb'_append_extractLsb'_eq_extractLsb']
  exact BitVec.extractLsb'_eq_self

end IOAPICRedirectionEntry

theorem halves_join (w : BitVec 64) :
    BitVec.ofNat 32 (w.toNat / 2 ^ 32) ++ BitVec.ofNat 32 (w.toNat % 2 ^ 32) = w := by
  have small := w.isLt
  apply BitVec.eq_of_toNat_eq
  rw [BitVec.toNat_append, BitVec.toNat_ofNat, BitVec.toNat_ofNat, Nat.mod_mod, Nat.mod_eq_of_lt (by omega),
    ← Nat.shiftLeft_add_eq_or_of_lt (Nat.mod_lt _ (by decide)), Nat.shiftLeft_eq]
  omega

theorem shift_or_append (high low : BitVec 32) :
    BitVec.ofNat 64 high.toNat <<< 32 ||| BitVec.ofNat 64 low.toNat = high ++ low := by
  have top := high.isLt
  have bottom := low.isLt
  have shifted : high.toNat <<< 32 < 2 ^ 64 := by
    rw [Nat.shiftLeft_eq]
    omega
  apply BitVec.eq_of_toNat_eq
  rw [BitVec.toNat_append, BitVec.toNat_or, BitVec.toNat_shiftLeft, BitVec.toNat_ofNat, BitVec.toNat_ofNat,
    Nat.mod_eq_of_lt (show high.toNat < 2 ^ 64 by omega), Nat.mod_eq_of_lt shifted, Nat.mod_eq_of_lt (by omega)]

/-! ### The chip -/

structure IoapicChip where
  selected : BitVec 8
  registers : BitVec 8 → BitVec 32

namespace IoapicChip

variable {α : Type} {base offset : Nat} {c : IoapicChip} {value : IOAPICRedirectionEntry} {log : List ApicEvent}

/-- The data word. -/
def window (c : IoapicChip) : BitVec 32 := c.registers c.selected

/-- What the chip at `base` makes of an access. -/
def receive (base : Nat) (c : IoapicChip) : ApicEvent → IoapicChip
  | .read _ => c
  | .write target value =>
    if target = base then { c with selected := .ofNat 8 value }
    else if target = base + 16 then { c with registers := Function.update c.registers c.selected (.ofNat 32 value) }
    else c

/-- What the data word is when `reg` has been written to `target`. -/
def answers (c : IoapicChip) (base target reg : Nat) : Nat := (c.receive base (.write target reg)).window.toNat

/-- The chip when the driver has done `x`. -/
def performed (c : IoapicChip) (base : Nat) (x : ApicM α) : IoapicChip :=
  match x with
  | .ok (log, _) => log.foldl (receive base) c
  | .error _ => c

/-- The chip after a sequence of entries has been written, each at its offset. -/
def writeAll (c : IoapicChip) (base : Nat) (writes : List (Nat × IOAPICRedirectionEntry)) : IoapicChip :=
  writes.foldl (fun c w => c.performed base (ioapicWriteRedirectionEntry base w.1 w.2)) c

/-- The pair of registers at an offset. -/
def pair (c : IoapicChip) (offset : Nat) : BitVec 64 :=
  c.registers (.ofNat 8 (0x11 + offset)) ++ c.registers (.ofNat 8 (0x10 + offset))

/-- The offsets of entries. -/
def EntryOffset (offset : Nat) : Prop := offset % 2 = 0 ∧ 0x10 + offset + 1 ≤ 0xff

theorem performed_done {a : α} : c.performed base (done log a) = log.foldl (receive base) c := rfl

theorem receive_select (reg : Nat) : c.receive base (.write base reg) = { c with selected := .ofNat 8 reg } := if_pos rfl

theorem receive_data (data : Nat) : c.receive base (.write (base + 16) data) =
    { c with registers := Function.update c.registers c.selected (.ofNat 32 data) } := by
  have other : base + 16 ≠ base := by omega
  exact (if_neg other).trans (if_pos rfl)

theorem answers_select (reg : Nat) : c.answers base base reg = (c.registers (.ofNat 8 reg)).toNat := by
  unfold answers
  rw [receive_select]
  rfl

/-- The chip's table of entries. -/
def entry (c : IoapicChip) (offset : Nat) : IOAPICRedirectionEntry := .ofRaw (c.pair offset)

/-- The driver reads `e` at an offset, and no register changes by that. -/
def Reads (c : IoapicChip) (base offset : Nat) (e : IOAPICRedirectionEntry) : Prop :=
  Ends (ioapicReadRedirectionEntry (c.answers base) base offset) fun log e' =>
    e' = e ∧ (log.foldl (receive base) c).registers = c.registers

/-! ### One entry -/

theorem low_register (range : EntryOffset offset) : uadd 32 ioapicRedirEntriesBase offset % 256 = 0x10 + offset := by
  obtain ⟨even, below⟩ := range
  unfold uadd ioapicRedirEntriesBase
  omega

theorem high_register (range : EntryOffset offset) :
    uadd 32 ioapicRedirEntriesBase (uadd 32 offset 1) % 256 = 0x11 + offset := by
  obtain ⟨even, below⟩ := range
  unfold uadd ioapicRedirEntriesBase
  omega

theorem writeEntry_done (range : EntryOffset offset) : ioapicWriteRedirectionEntry base offset value =
    done [.write base (0x10 + offset), .write (base + 16) (value.raw.toNat % 2 ^ 32), .write base (0x11 + offset),
      .write (base + 16) (value.raw.toNat / 2 ^ 32)] .success := by
  unfold ioapicWriteRedirectionEntry ioapicWrite
  rw [if_neg (not_not.mpr range.1), low_register range, high_register range]
  rfl

theorem writeEntry_odd (odd : offset % 2 ≠ 0) : ioapicWriteRedirectionEntry base offset value = done [] .fail := if_pos odd

theorem readEntry_done {device : Nat → Nat → Nat} (range : EntryOffset offset) :
    ioapicReadRedirectionEntry device base offset = done [.write base (0x10 + offset), .write base (0x11 + offset)]
      (.ofRaw (BitVec.ofNat 64 (device base (0x11 + offset)) <<< 32 ||| BitVec.ofNat 64 (device base (0x10 + offset)))) := by
  unfold ioapicReadRedirectionEntry ioapicRead
  rw [if_neg (not_not.mpr range.1), low_register range, high_register range]
  rfl

/-- What the driver reads is the entry of the table. -/
theorem reads_entry (range : EntryOffset offset) : c.Reads base offset (c.entry offset) := by
  unfold Reads
  rw [readEntry_done range, answers_select, answers_select, shift_or_append]
  exact ends_done.mpr ⟨rfl, by rw [List.foldl_cons, List.foldl_cons, receive_select, receive_select, List.foldl_nil]⟩

theorem write_registers (range : EntryOffset offset) :
    (c.performed base (ioapicWriteRedirectionEntry base offset value)).registers =
      Function.update
        (Function.update c.registers (.ofNat 8 (0x10 + offset)) (.ofNat 32 (value.raw.toNat % 2 ^ 32)))
        (.ofNat 8 (0x11 + offset)) (.ofNat 32 (value.raw.toNat / 2 ^ 32)) := by
  rw [writeEntry_done range, performed_done, List.foldl_cons, List.foldl_cons, List.foldl_cons, List.foldl_cons,
    receive_select, receive_data, receive_select, receive_data, List.foldl_nil]

/-! ### Entries beside each other -/

theorem register_ne {p q : Nat} (hp : p < 256) (hq : q < 256) (differ : p ≠ q) : BitVec.ofNat 8 p ≠ BitVec.ofNat 8 q := by
  intro same
  apply differ
  rw [← Nat.mod_eq_of_lt hp, ← Nat.mod_eq_of_lt hq]
  simpa only [BitVec.toNat_ofNat] using congrArg BitVec.toNat same

theorem pair_written (range : EntryOffset offset) :
    (c.performed base (ioapicWriteRedirectionEntry base offset value)).pair offset = value.raw := by
  obtain ⟨even, below⟩ := range
  have halves : BitVec.ofNat 8 (0x10 + offset) ≠ BitVec.ofNat 8 (0x11 + offset) :=
    register_ne (by omega) (by omega) (by omega)
  unfold pair
  rw [write_registers ⟨even, below⟩, Function.update_self, Function.update_of_ne halves, Function.update_self]
  exact halves_join _

theorem pair_kept {other : Nat} (range : EntryOffset offset) (otherRange : EntryOffset other) (differ : other ≠ offset) :
    (c.performed base (ioapicWriteRedirectionEntry base offset value)).pair other = c.pair other := by
  obtain ⟨even, below⟩ := range
  obtain ⟨otherEven, otherBelow⟩ := otherRange
  have kept : ∀ p, p < 256 → p ≠ 0x10 + offset → p ≠ 0x11 + offset →
      (c.performed base (ioapicWriteRedirectionEntry base offset value)).registers (.ofNat 8 p) =
        c.registers (.ofNat 8 p) := by
    intro p small low high
    rw [write_registers ⟨even, below⟩, Function.update_of_ne (register_ne small (by omega) high),
      Function.update_of_ne (register_ne small (by omega) low)]
  unfold pair
  rw [kept _ (by omega) (by omega) (by omega), kept _ (by omega) (by omega) (by omega)]

/-- Writing an entry replaces it in the table. -/
theorem entry_written {other : Nat} (range : EntryOffset offset) (otherRange : EntryOffset other) :
    (c.performed base (ioapicWriteRedirectionEntry base offset value)).entry other =
      Function.update c.entry offset value other := by
  unfold entry
  by_cases same : other = offset
  · rw [same, Function.update_self, pair_written range, IOAPICRedirectionEntry.ofRaw_raw]
  · rw [Function.update_of_ne same, pair_kept range otherRange same]

/-- A sequence of writes replaces one entry of the table after the other. -/
theorem entry_writeAll {other : Nat} {writes : List (Nat × IOAPICRedirectionEntry)}
    (ranges : ∀ w ∈ writes, EntryOffset w.1) (otherRange : EntryOffset other) :
    (c.writeAll base writes).entry other = writes.foldl (fun table w => Function.update table w.1 w.2) c.entry other := by
  induction writes using List.reverseRecOn with
  | nil => rfl
  | append_singleton writes w ih =>
    have earlier := ih fun v member => ranges v (List.mem_append_left _ member)
    have range := ranges w (List.mem_append_right _ (List.mem_singleton_self w))
    unfold writeAll at earlier ⊢
    rw [List.foldl_concat, List.foldl_concat, entry_written range otherRange]
    by_cases same : other = w.1
    · rw [same, Function.update_self, Function.update_self]
    · rw [Function.update_of_ne same, Function.update_of_ne same, earlier]

theorem entry_unwritten {other : Nat} {writes : List (Nat × IOAPICRedirectionEntry)}
    (ranges : ∀ w ∈ writes, EntryOffset w.1) (otherRange : EntryOffset other) (differ : ∀ w ∈ writes, w.1 ≠ other) :
    (c.writeAll base writes).entry other = c.entry other := by
  rw [entry_writeAll ranges otherRange]
  clear ranges
  induction writes using List.reverseRecOn with
  | nil => rfl
  | append_singleton writes w ih =>
    rw [List.foldl_concat, Function.update_of_ne (differ w (List.mem_append_right _ (List.mem_singleton_self w))).symm]
    exact ih fun v member => differ v (List.mem_append_left _ member)

end IoapicChip

open IoapicChip

/-- Whatever the chip holds, an entry that is written at an offset is read back
there and has its fields at the documented bits of the pair of registers; the
entries at other offsets are read as before any sequence of writes; and an odd
offset is refused with the chip as it was. -/
theorem redirection_entries (base : Nat) (c : IoapicChip) :
    (∀ offset value, EntryOffset offset →
      Ends (ioapicWriteRedirectionEntry base offset value) (fun _ status => status = .success) ∧
        (c.performed base (ioapicWriteRedirectionEntry base offset value)).Reads base offset value ∧
        IOAPICRedirectionEntry.FieldsAt
          ((c.performed base (ioapicWriteRedirectionEntry base offset value)).pair offset) value) ∧
      (∀ writes : List (Nat × IOAPICRedirectionEntry), (∀ w ∈ writes, EntryOffset w.1) →
        ∀ other, EntryOffset other → (∀ w ∈ writes, w.1 ≠ other) →
          ∃ e, c.Reads base other e ∧ (c.writeAll base writes).Reads base other e) ∧
      ∀ offset value, offset % 2 ≠ 0 →
        Ends (ioapicWriteRedirectionEntry base offset value) (fun _ status => status = .fail) ∧
          c.performed base (ioapicWriteRedirectionEntry base offset value) = c := by
  refine ⟨fun offset value range => ⟨?_, ?_, ?_⟩, fun writes ranges other range differ => ⟨c.entry other, ?_, ?_⟩,
    fun offset value odd => ⟨?_, ?_⟩⟩
  · rw [writeEntry_done range]
    exact ends_done.mpr rfl
  · have back : (c.performed base (ioapicWriteRedirectionEntry base offset value)).entry offset = value := by
      rw [entry_written range range, Function.update_self]
    have reads : Reads (c.performed base (ioapicWriteRedirectionEntry base offset value)) base offset _ := reads_entry range
    rwa [back] at reads
  · rw [pair_written range]
    exact IOAPICRedirectionEntry.raw_fields value
  · exact reads_entry range
  · have kept : Reads (c.writeAll base writes) base other _ := reads_entry range
    rwa [entry_unwritten ranges range differ] at kept
  · rw [writeEntry_odd odd]
    exact ends_done.mpr rfl
  · rw [writeEntry_odd odd, performed_done]
    rfl

/-- Two entries beside each other, on a chip with every entry masked. -/
theorem redirection_entries_beside :
    ((IoapicChip.mk 0 fun _ => 0x10000).performed 0xfec00000
        (ioapicWriteRedirectionEntry 0xfec00000 2 (routed 0x21))).Reads 0xfec00000 2 (routed 0x21) ∧
      ∃ e, (IoapicChip.mk 0 fun _ => 0x10000).Reads 0xfec00000 4 e ∧
        ((IoapicChip.mk 0 fun _ => 0x10000).writeAll 0xfec00000 [(2, routed 0x21)]).Reads 0xfec00000 4 e := by
  obtain ⟨written, beside, odd⟩ := redirection_entries 0xfec00000 (IoapicChip.mk 0 fun _ => 0x10000)
  refine ⟨(written 2 (routed 0x21) ⟨rfl, by decide⟩).2.1, beside _ ?_ 4 ⟨rfl, by decide⟩ ?_⟩
  · intro w member
    rw [List.mem_singleton.mp member]
    exact ⟨rfl, by decide⟩
  · intro w member
    rw [List.mem_singleton.mp member]
    decide

end System14
