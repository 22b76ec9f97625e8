import System14.Kernel.State
import System14.Util.Ioports

/-!
# The serial line

`putchar` sends every character to COM1 and puts a carriage return before each
newline. `write_serial` waits until the transmitter has room, so no character is
lost, however slow the line is, and the text can be told from what arrives.
-/

namespace System14
open PortIo Run

/-! ### The driver -/

def com1 : Nat := 0x3F8

/-- `write_serial`, with its loop around `is_transmit_empty`. -/
def writeSerial : Nat → UInt8 → PortIo Stop Unit
  | 0, _ => .stop .outOfFuel
  | fuel + 1, c => do
    let status ← inb (com1 + 5)
    if status &&& 0x20 = 0 then writeSerial fuel c else outb com1 c

/-- `putchar`, without the copy that it draws on the framebuffer. -/
def putchar (fuel : Nat) (c : UInt8) : PortIo Stop Unit := do
  if c = 0x0A then writeSerial fuel 0x0D
  writeSerial fuel c

def putchars (fuel : Nat) : List UInt8 → PortIo Stop Unit
  | [] => return ()
  | c :: text => do
    putchar fuel c
    putchars fuel text

/-! ### The transmitter -/

/-- How a transmitter behaves over time. Before an access it may have sent the
character that it holds, and bit 5 of its status says whether it holds none. -/
structure Timing where
  drains : Nat → Bool
  status : Nat → Bool → UInt8
  reports : ∀ time empty, status time empty &&& 0x20 = 0 ↔ empty = false
  /-- Sooner or later a character is sent. -/
  fair : ∀ time, ∃ later ≥ time, drains later = true

/-- A line that sends a character as soon as it has it. -/
def promptTiming : Timing where
  drains _ := true
  status _ empty := if empty then 0x20 else 0
  reports _ empty := by cases empty <;> decide
  fair time := ⟨time, Nat.le_refl _, rfl⟩

structure Uart where
  holding : Option UInt8 := none
  sent : List UInt8 := []
  time : Nat := 0

namespace Uart

def advance (timing : Timing) (u : Uart) : Uart :=
  if timing.drains u.time then { holding := none, sent := u.sent ++ u.holding.toList, time := u.time + 1 }
  else { u with time := u.time + 1 }

/-- A character that is written over another is all that is left. -/
def bus (timing : Timing) : Bus Uart where
  read port u :=
    (if port = com1 + 5 then timing.status u.time (u.advance timing).holding.isNone else 0xFF, u.advance timing)
  write port value u :=
    if port = com1 then { u.advance timing with holding := some value } else u.advance timing

/-- What has been sent, and will be. -/
def line (u : Uart) : List UInt8 := u.sent ++ u.holding.toList

variable {timing : Timing} {u : Uart}

theorem advance_line (timing : Timing) (u : Uart) : (u.advance timing).line = u.line := by
  unfold advance
  split
  · exact List.append_nil _
  · rfl

theorem advance_time (timing : Timing) (u : Uart) : (u.advance timing).time = u.time + 1 := by
  unfold advance
  split <;> rfl

theorem advance_drained (drained : timing.drains u.time = true) : (u.advance timing).holding = none := by
  unfold advance
  rw [if_pos drained]

theorem advance_empty (empty : u.holding = none) : (u.advance timing).holding = none := by
  unfold advance
  split
  · rfl
  · exact empty

end Uart

open Uart

variable {timing : Timing} {u : Uart} {c : UInt8} {fuel : Nat}

theorem writeSerial_ready (ready : (u.advance timing).holding = none) :
    ∃ v, (∀ fuel, (writeSerial (fuel + 1) c).run (Uart.bus timing) u = .ok ((), v)) ∧ v.line = u.line ++ [c] := by
  refine ⟨{ (u.advance timing).advance timing with holding := some c }, fun fuel => ?_, ?_⟩
  · have status : ¬ timing.status u.time (u.advance timing).holding.isNone &&& 0x20 = 0 := by
      rw [timing.reports, ready]
      exact nofun
    rw [writeSerial, run_bind, run_inb]
    show (if timing.status u.time (u.advance timing).holding.isNone &&& 0x20 = 0 then _ else _ : PortIo Stop Unit).run _ _ = _
    rw [if_neg status]
    rfl
  · have before := (advance_line timing (u.advance timing)).trans (advance_line timing u)
    rw [Uart.line, advance_empty ready, Option.toList_none, List.append_nil] at before
    rw [← before]
    rfl

theorem writeSerial_busy (busy : (u.advance timing).holding ≠ none) :
    (writeSerial (fuel + 1) c).run (Uart.bus timing) u = (writeSerial fuel c).run (Uart.bus timing) (u.advance timing) := by
  have status : timing.status u.time (u.advance timing).holding.isNone &&& 0x20 = 0 := by
    rw [timing.reports, Option.isNone_eq_false_iff]
    exact Option.isSome_iff_ne_none.mpr busy
  rw [writeSerial, run_bind, run_inb]
  show (if timing.status u.time (u.advance timing).holding.isNone &&& 0x20 = 0 then _ else _ : PortIo Stop Unit).run _ _ = _
  rw [if_pos status]
  rfl

/-- The driver waits for the transmitter, and then the character follows those before it. -/
theorem writeSerial_returns (timing : Timing) (u : Uart) (c : UInt8) :
    ∃ v, Returns (fun fuel => (writeSerial fuel c).run (Uart.bus timing) u) ((), v) ∧ v.line = u.line ++ [c] := by
  obtain ⟨later, le, drained⟩ := timing.fair u.time
  obtain ⟨k, rfl⟩ := Nat.exists_eq_add_of_le le
  -- Induction on the accesses that are left until the transmitter has certainly sent what it holds.
  induction k generalizing u with
  | zero =>
    obtain ⟨v, ran, line⟩ := writeSerial_ready (c := c) (advance_drained drained)
    exact ⟨v, .pass ran .now, line⟩
  | succ k ih =>
    by_cases ready : (u.advance timing).holding = none
    · obtain ⟨v, ran, line⟩ := writeSerial_ready (c := c) ready
      exact ⟨v, .pass ran .now, line⟩
    · have time := advance_time timing u
      obtain ⟨v, returned, line⟩ := ih (u.advance timing) (by omega) (by rw [time, Nat.add_right_comm]; exact drained)
      exact ⟨v, .pass (fun _ => writeSerial_busy ready) returned, line.trans (by rw [advance_line])⟩

/-! ### Texts -/

/-- The characters that `putchar` sends. -/
def crlf (text : List UInt8) : List UInt8 := text.flatMap fun c => if c = 0x0A then [0x0D, c] else [c]

theorem crlf_cons (c : UInt8) (text : List UInt8) : crlf (c :: text) = crlf [c] ++ crlf text := by
  unfold crlf
  rw [List.flatMap_cons, List.flatMap_singleton]

theorem crlf_newline (text : List UInt8) : crlf (0x0A :: text) = 0x0D :: 0x0A :: crlf text := rfl

theorem crlf_other (other : c ≠ 0x0A) (text : List UInt8) : crlf (c :: text) = c :: crlf text := by
  unfold crlf
  rw [List.flatMap_cons, if_neg other]
  rfl

/-- A newline that was sent has a carriage return before it. -/
theorem crlf_head (text rest : List UInt8) : crlf text ≠ 0x0A :: rest := by
  cases text with
  | nil => exact nofun
  | cons c text =>
    by_cases newline : c = 0x0A
    · rw [newline, crlf_newline]
      exact nofun
    · rw [crlf_other newline]
      exact fun same => newline (List.cons.inj same).1

/-- No two texts look the same on the line. -/
theorem crlf_injective {one two : List UInt8} (same : crlf one = crlf two) : one = two := by
  induction one generalizing two with
  | nil =>
    cases two with
    | nil => rfl
    | cons c two =>
      by_cases newline : c = 0x0A
      · rw [newline, crlf_newline] at same
        cases same
      · rw [crlf_other newline] at same
        cases same
  | cons c one ih =>
    cases two with
    | nil =>
      by_cases newline : c = 0x0A
      · rw [newline, crlf_newline] at same
        cases same
      · rw [crlf_other newline] at same
        cases same
    | cons d two =>
      by_cases newline : c = 0x0A <;> by_cases newline' : d = 0x0A
      · rw [newline, newline', crlf_newline, crlf_newline] at same
        rw [newline, newline', ih (List.cons.inj (List.cons.inj same).2).2]
      · rw [newline, crlf_newline, crlf_other newline'] at same
        exact absurd (List.cons.inj same).2.symm (crlf_head two _)
      · rw [newline', crlf_newline, crlf_other newline] at same
        exact absurd (List.cons.inj same).2 (crlf_head one _)
      · rw [crlf_other newline, crlf_other newline'] at same
        rw [(List.cons.inj same).1, ih (List.cons.inj same).2]

theorem returns_bind {x : Nat → PortIo Stop Unit} {y : Nat → PortIo Stop Unit} {v w : Uart}
    (first : Returns (fun fuel => (x fuel).run (Uart.bus timing) u) ((), v))
    (rest : Returns (fun fuel => (y fuel).run (Uart.bus timing) v) ((), w)) :
    Returns (fun fuel => (x fuel >>= fun _ => y fuel).run (Uart.bus timing) u) ((), w) := by
  simp only [run_bind]
  exact first.bind (k := fun fuel r => (y fuel).run (Uart.bus timing) r.2) rest

theorem putchar_returns (timing : Timing) (u : Uart) (c : UInt8) :
    ∃ v, Returns (fun fuel => (putchar fuel c).run (Uart.bus timing) u) ((), v) ∧ v.line = u.line ++ crlf [c] := by
  by_cases newline : c = 0x0A
  · obtain ⟨v, first, line⟩ := writeSerial_returns timing u 0x0D
    obtain ⟨w, rest, line'⟩ := writeSerial_returns timing v 0x0A
    rw [newline]
    exact ⟨w, returns_bind first rest, by rw [line', line, List.append_assoc]; rfl⟩
  · obtain ⟨v, sent, line⟩ := writeSerial_returns timing u c
    refine ⟨v, ?_, by rw [line, crlf_other newline]; rfl⟩
    simp only [putchar, if_neg newline]
    exact sent

theorem putchars_returns (timing : Timing) (u : Uart) (text : List UInt8) :
    ∃ v, Returns (fun fuel => (putchars fuel text).run (Uart.bus timing) u) ((), v) ∧ v.line = u.line ++ crlf text := by
  induction text generalizing u with
  | nil => exact ⟨u, .now, (List.append_nil _).symm⟩
  | cons c text ih =>
    obtain ⟨v, first, line⟩ := putchar_returns timing u c
    obtain ⟨w, rest, line'⟩ := ih v
    exact ⟨w, returns_bind first rest, by rw [line', line, List.append_assoc, ← crlf_cons]⟩

/-- Every text arrives on the line as a whole and in order, whatever the timing
of the line, and no other text arrives in the same way. -/
theorem serial_text_arrives (timing : Timing) (u : Uart) (text : List UInt8) :
    ∃ v, Returns (fun fuel => (putchars fuel text).run (Uart.bus timing) u) ((), v) ∧ v.line = u.line ++ crlf text ∧
      ∀ other, v.line = u.line ++ crlf other → other = text := by
  obtain ⟨v, returned, line⟩ := putchars_returns timing u text
  refine ⟨v, returned, line, fun other same => crlf_injective ?_⟩
  exact List.append_cancel_left (same.symm.trans line)

end System14
