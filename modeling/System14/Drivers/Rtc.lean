import Mathlib.Logic.Function.Basic
import System14.Kernel.State
import System14.Util.Ioports

/-!
# The real time clock

The clock has 128 registers behind an index port and a data port. Once it has
raised an interrupt it raises no other until register C has been read. The
handler of the timer reads it, so the clock goes on ticking if and only if it
did not hold an unread interrupt when `InitializeRTC` was called.
-/

namespace System14
open PortIo Run

variable {ι : Type}

/-! ### The driver -/

/-- `InitializeRTC`, between its `cli` and its `sti`. -/
def initializeRTC : PortIo ι Unit := do
  outb 0x70 0x8B
  let current ← inb 0x71
  outb 0x70 0x8B
  outb 0x71 (current ||| 0x40)
  let rate : UInt8 := 15
  outb 0x70 0x8A
  let current2 ← inb 0x71
  outb 0x70 0x8A
  outb 0x71 ((current2 &&& 0xF0) ||| rate)

def rtcCheck : PortIo ι Unit := do
  outb 0x70 0x0C
  let _ ← inb 0x71

/-! ### The clock -/

structure Cmos where
  /-- The byte last written to the index port. Its top bit masks non-maskable interrupts. -/
  index : UInt8
  registers : UInt8 → UInt8

namespace Cmos

def selected (c : Cmos) : UInt8 := c.index &&& 0x7F

/-- Reading register C clears it. -/
def readData (c : Cmos) : UInt8 × Cmos :=
  (c.registers c.selected, if c.selected = 0x0C then { c with registers := Function.update c.registers 0x0C 0 } else c)

/-- Registers C and D cannot be written. -/
def writeData (value : UInt8) (c : Cmos) : Cmos :=
  if c.selected = 0x0C ∨ c.selected = 0x0D then c
  else { c with registers := Function.update c.registers c.selected value }

def bus : Bus Cmos where
  read port c := if port = 0x71 then c.readData else (0xFF, c)
  write port value c :=
    if port = 0x70 then { c with index := value } else if port = 0x71 then c.writeData value else c

/-- `PIE`: the clock asks for an interrupt at each period. -/
def periodic (c : Cmos) : Bool := hasBit (c.registers 0x0B) 6

/-- `IRQF`: the clock has asked for an interrupt, and nobody has read register C since. -/
def unread (c : Cmos) : Bool := hasBit (c.registers 0x0C) 7

/-- The end of a period. The line rises if it was low before. -/
def period (c : Cmos) : Bool × Cmos :=
  (c.periodic && !c.unread,
    { c with registers := Function.update c.registers 0x0C (c.registers 0x0C ||| if c.periodic then 0xC0 else 0x40) })

end Cmos

namespace Cmos

variable {c : Cmos} {i value : UInt8}

theorem bus_select (c : Cmos) (value : UInt8) : bus.write 0x70 value c = { c with index := value } := rfl

theorem bus_read (c : Cmos) : bus.read 0x71 c = c.readData := rfl

theorem bus_write (c : Cmos) (value : UInt8) : bus.write 0x71 value c = c.writeData value := rfl

theorem readData_at (here : c.selected = i) (plain : i ≠ 0x0C) : c.readData = (c.registers i, c) := by
  unfold readData
  rw [here, if_neg plain]

theorem writeData_at (here : c.selected = i) (plain : i ≠ 0x0C ∧ i ≠ 0x0D) :
    c.writeData value = { c with registers := Function.update c.registers i value } := by
  unfold writeData
  rw [here, if_neg (not_or.mpr plain)]

end Cmos

open Cmos

/-- Registers A and B are as `InitializeRTC` wants them, all others as they were. -/
theorem initializeRTC_run (c : Cmos) : (initializeRTC : PortIo ι Unit).run Cmos.bus c = .ok ((),
    { index := 0x8A
      registers := Function.update (Function.update c.registers 0x0B (c.registers 0x0B ||| 0x40)) 0x0A
        ((c.registers 0x0A &&& 0xF0) ||| 15) }) := by
  have selectB : ∀ registers, selected ⟨0x8B, registers⟩ = 0x0B := fun _ => show (0x8B : UInt8) &&& 0x7F = 0x0B by decide
  have selectA : ∀ registers, selected ⟨0x8A, registers⟩ = 0x0A := fun _ => show (0x8A : UInt8) &&& 0x7F = 0x0A by decide
  simp only [initializeRTC, run_bind, run_outb, run_inb, ok_bind, bus_select, bus_read, bus_write]
  rw [readData_at (selectB _) (by decide), writeData_at (selectB _) (by decide), readData_at (selectA _) (by decide),
    writeData_at (selectA _) (by decide)]
  rfl

theorem rtcCheck_run (c : Cmos) : (rtcCheck : PortIo ι Unit).run Cmos.bus c = .ok ((),
    { index := 0x0C, registers := Function.update c.registers 0x0C 0 }) := by
  have select : selected ⟨0x0C, c.registers⟩ = 0x0C := show (0x0C : UInt8) &&& 0x7F = 0x0C by decide
  simp only [rtcCheck, run_bind, run_outb, run_inb, ok_bind, bus_select, bus_read]
  unfold readData
  rw [if_pos select]
  rfl

/-! ### Ticks -/

inductive TimerEvent where
  | period
  /-- The handler of the timer runs, up to its call of `RTC_Check`. -/
  | service

/-- The clock, and whether an interrupt of it waits for the handler. -/
def TimerStep : Cmos × Bool → TimerEvent → Cmos × Bool → Prop
  | (c, waiting), .period, t => t = (c.period.2, waiting || c.period.1)
  | (c, waiting), .service, (c', waiting') =>
    waiting = true ∧ (rtcCheck : PortIo Stop Unit).run Cmos.bus c = .ok ((), c') ∧ waiting' = false

def TimerReach (c : Cmos) : Cmos × Bool → Prop := Reach (· = (c, false)) TimerStep anyStep

namespace Cmos

theorem period_unread (c : Cmos) : c.period.2.unread = (c.periodic || c.unread) := by
  unfold unread period
  dsimp only
  rw [Function.update_self, hasBit_or, Bool.or_comm]
  cases c.periodic <;> rfl

theorem period_periodic (c : Cmos) : c.period.2.periodic = c.periodic := by
  unfold periodic period
  dsimp only
  rw [Function.update_of_ne (by decide)]

end Cmos

/-- Where there was nothing unread at first, the interrupt that waits is the one that the clock has asked for. -/
theorem timer_waits {c : Cmos} {t : Cmos × Bool} (asks : c.periodic = true) (fresh : c.unread = false)
    (reached : TimerReach c t) : t.1.periodic = true ∧ t.2 = t.1.unread := by
  refine Reach.invariant (I := fun t => t.1.periodic = true ∧ t.2 = t.1.unread) reached ?_ ?_
  · rintro t rfl
    exact ⟨asks, fresh.symm⟩
  · rintro ⟨d, waiting⟩ event ⟨d', waiting'⟩ ⟨asks, waits⟩ _ taken
    have asks : d.periodic = true := asks
    have waits : waiting = d.unread := waits
    cases event with
    | period =>
      cases taken
      refine ⟨d.period_periodic.trans asks, ?_⟩
      show (waiting || d.periodic && !d.unread) = _
      rw [d.period_unread, asks, waits]
      cases d.unread <;> rfl
    | service =>
      obtain ⟨_, checked, idle⟩ := taken
      rw [rtcCheck_run] at checked
      cases checked
      refine ⟨?_, idle.trans ?_⟩
      · show hasBit (Function.update d.registers 0x0C 0 0x0B) 6 = true
        rw [Function.update_of_ne (by decide)]
        exact asks
      · show false = hasBit (Function.update d.registers 0x0C 0 0x0C) 7
        rw [Function.update_self]
        rfl

/-- Where there was something unread at first, it stays, as no interrupt ever reaches the handler that would read it. -/
theorem timer_stuck {c : Cmos} {t : Cmos × Bool} (old : c.unread = true) (reached : TimerReach c t) :
    t.1.unread = true ∧ t.2 = false := by
  refine Reach.invariant (I := fun t => t.1.unread = true ∧ t.2 = false) reached ?_ ?_
  · rintro t rfl
    exact ⟨old, rfl⟩
  · rintro ⟨d, waiting⟩ event ⟨d', waiting'⟩ ⟨held, idle⟩ _ taken
    have held : d.unread = true := held
    have idle : waiting = false := idle
    cases event with
    | period =>
      cases taken
      refine ⟨by rw [d.period_unread, held, Bool.or_true], ?_⟩
      show (waiting || d.periodic && !d.unread) = false
      rw [idle, held, Bool.not_true, Bool.and_false, Bool.or_false]
    | service =>
      obtain ⟨waited, _, _⟩ := taken
      rw [idle] at waited
      cases waited

theorem initializeRTC_done (c : Cmos) : ∃ d, (initializeRTC : PortIo Stop Unit).run Cmos.bus c = .ok ((), d) ∧
    (∀ i, i ≠ 0x0A → i ≠ 0x0B → d.registers i = c.registers i) ∧ d.periodic = true ∧ d.unread = c.unread := by
  refine ⟨_, initializeRTC_run c, fun i notA notB => ?_, ?_, ?_⟩
  · dsimp only
    rw [Function.update_of_ne notA, Function.update_of_ne notB]
  · unfold periodic
    dsimp only
    rw [Function.update_of_ne (by decide), Function.update_self, hasBit_or]
    exact Bool.or_true _
  · unfold unread
    dsimp only
    rw [Function.update_of_ne (by decide), Function.update_of_ne (by decide)]

/-- The timer ticks for good, whatever the order of periods and handlers, if and
only if the clock holds no unread interrupt when it is initialized. Else the
handler never runs once. The driver leaves all registers but A and B alone. -/
theorem rtc_ticks_iff (c : Cmos) :
    ∃ d, (initializeRTC : PortIo Stop Unit).run Cmos.bus c = .ok ((), d) ∧
      (∀ i, i ≠ 0x0A → i ≠ 0x0B → d.registers i = c.registers i) ∧
      ((∀ t, TimerReach d t → ∀ u, TimerStep t .period u → u.2 = true) ↔ c.unread = false) ∧
      (c.unread = true → ∀ t, TimerReach d t → t.2 = false) := by
  obtain ⟨d, ran, kept, asks, same⟩ := initializeRTC_done c
  refine ⟨d, ran, kept, ⟨fun ticks => ?_, fun fresh t reached u taken => ?_⟩, fun old t reached => ?_⟩
  · have waits := ticks (d, false) (.init rfl) _ rfl
    have raised : (false || d.periodic && !d.unread) = true := waits
    rw [same, asks] at raised
    simpa using raised
  · have after : TimerReach d u := reached.step trivial taken
    obtain ⟨_, waits⟩ := timer_waits asks (same.trans fresh) after
    obtain ⟨stays, _⟩ := timer_waits asks (same.trans fresh) reached
    have here : u = (t.1.period.2, t.2 || t.1.period.1) := taken
    rw [waits, here, t.1.period_unread, stays]
    rfl
  · exact (timer_stuck (same.trans old) reached).2

end System14
