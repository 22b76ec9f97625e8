import System14.Util.Formats
import System14.Util.Serial

/-!
# The keyboard

The driver prints the character of each key that is pressed, and a shift key
decides which of two tables it looks it up in. Keys without a character print a
null character. Whatever is typed arrives on the serial line.
-/

namespace System14
open ByteMem Traced PortIo Run

/-! ### The driver -/

def kbdus : List UInt8 :=
  [0, 27, 49, 50, 51, 52, 53, 54, 55, 56, -- escape and 12345678
    57, 48, 45, 61, 8, -- 90-= and backspace
    9, -- tab
    113, 119, 101, 114, -- qwer
    116, 121, 117, 105, 111, 112, 91, 93, 10, -- tyuiop[] and enter
    0, -- control
    97, 115, 100, 102, 103, 104, 106, 107, 108, 59, -- asdfghjkl;
    39, 96, 0, -- the quotes and left shift
    92, 122, 120, 99, 118, 98, 110, -- \zxcvbn
    109, 44, 46, 47, 0, -- m,./ and right shift
    42, 0, 32, 0] ++ -- *, alt, space and caps lock
    List.replicate 15 0 ++ [45, 0, 0, 0, 43] ++ List.replicate 49 0

def shiftKbdus : List UInt8 :=
  [0, 27, 33, 64, 35, 36, 37, 94, 38, 42, -- escape and !@#$%^&*
    40, 41, 95, 43, 8, -- ()_+ and backspace
    9, -- tab
    81, 87, 69, 82, -- QWER
    84, 89, 85, 73, 79, 80, 123, 125, 10, -- TYUIOP, the braces and enter
    0, -- control
    65, 83, 68, 70, 71, 72, 74, 75, 76, 58, -- ASDFGHJKL:
    34, 126, 0, -- the double quote, ~ and left shift
    124, 90, 88, 67, 86, 66, 78, -- |ZXCVBN
    77, 60, 62, 63, 0, -- M<>? and right shift
    42, 0, 32, 0] ++ -- *, alt, space and caps lock
    List.replicate 15 0 ++ [45, 0, 0, 0, 43] ++ List.replicate 49 0

/-- Where the tables of characters and the format `%c` are. -/
structure KeyMemory where
  kbdus : Nat
  shiftKbdus : Nat
  format : Nat

/-- A byte that is looked up in a table, or what `printf` does. -/
inductive KeyEvent where
  | lookup (table address : Nat)
  | print (e : PrintEvent)

abbrev KeyM := Traced KeyEvent Stop

def lookupKey (m : Mem) (table scancode : Nat) : KeyM UInt8 := do
  emit (.lookup table (table + scancode))
  return m (table + scancode)

def printing {α : Type} (x : PrintM α) : KeyM α :=
  match x with
  | .error e => .error e
  | .ok (log, a) => .ok (log.map KeyEvent.print, a)

def printKey (keys : KeyMemory) (given : PrintMemory) (fuel : Nat) (m : Mem) (table scancode : Nat) : KeyM Mem := do
  let c ← lookupKey m table scancode
  printing (printf given fuel keys.format [.int (.ofNat 32 c.toNat)] m)

def shiftAfter (scancode : Nat) (shiftpressed : Bool) : Bool :=
  let shiftpressed := if scancode = 0x2A then true else shiftpressed
  if scancode = 0xAA then false else shiftpressed

/-- `KeyboardDriver`. It returns `shiftpressed`, and the memory as `printf` leaves it. -/
def keyboardDriver (keys : KeyMemory) (given : PrintMemory) (fuel : Nat) (m : Mem) (scancode : Nat)
    (shiftpressed : Bool) : KeyM (Bool × Mem) := do
  let m ← (if scancode < 0x81 then
      if !shiftpressed then printKey keys given fuel m keys.kbdus scancode
      else printKey keys given fuel m keys.shiftKbdus scancode
    else done [] m)
  return (shiftAfter scancode shiftpressed, m)

/-- One keyboard interrupt after the other. A scancode is a byte from port 0x60. -/
def keyboardRun (keys : KeyMemory) (given : PrintMemory) (fuel : Nat) : Mem → List UInt8 → Bool → KeyM (Bool × Mem)
  | m, [], shiftpressed => return (shiftpressed, m)
  | m, sc :: scancodes, shiftpressed => do
    let (shiftpressed, m) ← keyboardDriver keys given fuel m sc.toNat shiftpressed
    keyboardRun keys given fuel m scancodes shiftpressed

/-! ### What is printed -/

def shiftRun (scancodes : List UInt8) (shift : Bool) : Bool :=
  scancodes.foldl (fun shift sc => shiftAfter sc.toNat shift) shift

/-- The left shift key is pressed or let go. -/
def ShiftCode (sc : UInt8) : Prop := sc = 0x2A ∨ sc = 0xAA

instance : DecidablePred ShiftCode := fun _ => inferInstanceAs (Decidable (_ ∨ _))

theorem shiftAfter_eq (sc : UInt8) (shift : Bool) :
    shiftAfter sc.toNat shift = if ShiftCode sc then decide (sc = 0x2A) else shift := by
  by_cases down : sc = 0x2A
  · rw [down]
    cases shift <;> rfl
  by_cases up : sc = 0xAA
  · rw [up]
    cases shift <;> rfl
  have notDown : sc.toNat ≠ 0x2A := fun same => down (UInt8.toNat_inj.mp same)
  have notUp : sc.toNat ≠ 0xAA := fun same => up (UInt8.toNat_inj.mp same)
  rw [shiftAfter, if_neg notDown, if_neg notUp, if_neg (show ¬ ShiftCode sc from not_or.mpr ⟨down, up⟩)]

/-- The last press or release of the left shift key decides, and without one nothing changes. -/
theorem shiftRun_last (scancodes : List UInt8) (shift : Bool) :
    shiftRun scancodes shift =
      match (scancodes.filter ShiftCode).getLast? with
      | some sc => decide (sc = 0x2A)
      | none => shift := by
  induction scancodes using List.reverseRecOn with
  | nil => rfl
  | append_singleton scancodes sc ih =>
    have run : shiftRun (scancodes ++ [sc]) shift = shiftAfter sc.toNat (shiftRun scancodes shift) := List.foldl_append
    rw [run, shiftAfter_eq, List.filter_append]
    by_cases code : ShiftCode sc
    · rw [if_pos code, List.filter_cons_of_pos (by simpa using code), List.filter_nil, List.getLast?_concat]
    · rw [if_neg code, List.filter_cons_of_neg (by simpa using code), List.filter_nil, List.append_nil, ih]

/-- The characters that a sequence of scancodes prints, where `look` gives the character of a key. -/
def keyText (look : UInt8 → Bool → UInt8) : List UInt8 → Bool → List UInt8
  | [], _ => []
  | sc :: scancodes, shift =>
    (if sc < 0x81 then [look sc shift] else []) ++ keyText look scancodes (shiftAfter sc.toNat shift)

/-- What the driver finds in memory. -/
def keyByte (keys : KeyMemory) (m : Mem) (sc : UInt8) (shift : Bool) : UInt8 :=
  m ((if shift then keys.shiftKbdus else keys.kbdus) + sc.toNat)

def KeyEvent.char? : KeyEvent → Option UInt8
  | .lookup _ _ => none
  | .print e => e.char?

def keyPrinted (log : List KeyEvent) : List UInt8 := log.filterMap KeyEvent.char?

/-- A table is read inside its 128 bytes. -/
def KeyEvent.Inside : KeyEvent → Prop
  | .lookup table address => address < table + 128
  | .print _ => True

section Driver

variable {keys : KeyMemory} {m : Mem}

/-- `printf` with the format `%c` prints one character and writes no memory. -/
theorem printf_char (given : PrintMemory) (fuel : Nat) {format : Nat} (text : CString m format [0x25, 0x63]) (c : UInt8) :
    ∃ log, printf given (fuel + 2) format [.int (.ofNat 32 c.toNat)] m = done log m ∧ printed log = [c] := by
  obtain ⟨percent, _, letter, _, ended⟩ := text
  have byte : UInt8.ofNat (BitVec.ofNat 32 c.toNat).toNat = c := by
    have small := c.toNat_lt
    rw [BitVec.toNat_ofNat, Nat.mod_eq_of_lt (by omega), UInt8.ofNat_toNat]
  have converts : convert given (fuel + 2) (m (format + 1)) [.int (.ofNat 32 c.toNat)] m = done [.putchar c] ([], m) := by
    rw [letter]
    have call : convert given (fuel + 2) 0x63 [.int (.ofNat 32 c.toNat)] m =
      done [.putchar (UInt8.ofNat (BitVec.ofNat 32 c.toNat).toNat)] ([], m) := rfl
    rw [call, byte]
  refine ⟨[.read format format, .read format (format + 1), .putchar c, .read format (format + 2)], Ends.eq_done ?_, rfl⟩
  unfold printf
  rw [printfLoop_directive percent converts, printfLoop_end ended]
  exact ⟨rfl, rfl⟩

theorem keyPrinted_append (one two : List KeyEvent) : keyPrinted (one ++ two) = keyPrinted one ++ keyPrinted two :=
  List.filterMap_append

theorem keyPrinted_printing (log : List PrintEvent) : keyPrinted (log.map KeyEvent.print) = printed log :=
  List.filterMap_map ..

theorem printing_done {α : Type} (log : List PrintEvent) (a : α) :
    printing (done log a) = (done (log.map KeyEvent.print) a : KeyM α) := rfl

theorem printKey_done (given : PrintMemory) (fuel : Nat) (format : CString m keys.format [0x25, 0x63])
    (table scancode : Nat) :
    ∃ log, printKey keys given (fuel + 2) m table scancode =
        done (.lookup table (table + scancode) :: log.map KeyEvent.print) m ∧ printed log = [m (table + scancode)] := by
  obtain ⟨log, print, text⟩ := printf_char given fuel format (m (table + scancode))
  refine ⟨log, ?_, text⟩
  show (lookupKey m table scancode >>= fun c => printing (printf given (fuel + 2) keys.format _ m)) = _
  apply Ends.eq_done
  unfold lookupKey
  rw [ends_bind, ends_bind, ends_emit, ends_pure, print, printing_done, ends_done]
  exact ⟨rfl, rfl⟩

/-- One interrupt prints the character of the key, if it is pressed. -/
theorem keyboardDriver_done (given : PrintMemory) (fuel : Nat) (format : CString m keys.format [0x25, 0x63]) (sc : UInt8)
    (shift : Bool) :
    ∃ log, keyboardDriver keys given (fuel + 2) m sc.toNat shift = done log (shiftAfter sc.toNat shift, m) ∧
      keyPrinted log = (if sc < 0x81 then [keyByte keys m sc shift] else []) ∧
      ((∀ e ∈ log, e.Inside) ↔ sc ≠ 0x80) := by
  have edge : sc ≠ 0x80 ↔ sc.toNat ≠ 0x80 := (UInt8.toNat_inj (b := 0x80)).symm.not
  by_cases pressed : sc.toNat < 0x81
  · have chosen : (if !shift then printKey keys given (fuel + 2) m keys.kbdus sc.toNat
        else printKey keys given (fuel + 2) m keys.shiftKbdus sc.toNat) =
        printKey keys given (fuel + 2) m (if shift then keys.shiftKbdus else keys.kbdus) sc.toNat := by
      cases shift <;> rfl
    obtain ⟨log, call, text⟩ := printKey_done given fuel format (if shift then keys.shiftKbdus else keys.kbdus) sc.toNat
    refine ⟨.lookup (if shift then keys.shiftKbdus else keys.kbdus)
      ((if shift then keys.shiftKbdus else keys.kbdus) + sc.toNat) :: log.map KeyEvent.print, ?_, ?_, ?_⟩
    · unfold keyboardDriver
      rw [if_pos pressed, chosen, call]
      exact Ends.eq_done (ends_bind.mpr (ends_done.mpr (ends_pure.mpr ⟨List.append_nil _, rfl⟩)))
    · rw [if_pos (UInt8.lt_iff_toNat_lt.mpr pressed)]
      exact (keyPrinted_printing log).trans text
    · rw [List.forall_mem_cons, List.forall_mem_map, edge]
      show (_ + sc.toNat < _ + 128 ∧ _) ↔ _
      exact ⟨fun inside => by omega, fun other => ⟨by omega, fun _ _ => trivial⟩⟩
  · refine ⟨[], ?_, ?_, ?_⟩
    · unfold keyboardDriver
      rw [if_neg pressed]
      rfl
    · rw [if_neg fun small => pressed (UInt8.lt_iff_toNat_lt.mp small)]
      rfl
    · rw [edge]
      exact ⟨fun _ => by omega, fun _ => nofun⟩

/-- A run of interrupts. -/
theorem keyboardRun_done (given : PrintMemory) (fuel : Nat) (format : CString m keys.format [0x25, 0x63])
    (scancodes : List UInt8) (shift : Bool) :
    ∃ log, keyboardRun keys given (fuel + 2) m scancodes shift = done log (shiftRun scancodes shift, m) ∧
      keyPrinted log = keyText (keyByte keys m) scancodes shift ∧ ((∀ e ∈ log, e.Inside) ↔ 0x80 ∉ scancodes) := by
  induction scancodes generalizing shift with
  | nil => exact ⟨[], rfl, rfl, ⟨fun _ => List.not_mem_nil, fun _ => nofun⟩⟩
  | cons sc scancodes ih =>
    obtain ⟨before, first, text, inside⟩ := keyboardDriver_done given fuel format sc shift
    obtain ⟨after, rest, text', inside'⟩ := ih (shiftAfter sc.toNat shift)
    refine ⟨before ++ after, bind_done first rest, ?_, ?_⟩
    · rw [keyPrinted_append, text, text']
      rfl
    · rw [List.forall_mem_append, inside, inside', List.mem_cons, not_or, ne_comm]

end Driver

/-! ### The US layout -/

/-- The tables and the format are in memory. -/
structure KeyTables (keys : KeyMemory) (m : Mem) : Prop where
  plain : ∀ i < 128, m (keys.kbdus + i) = kbdus.getD i 0
  shifted : ∀ i < 128, m (keys.shiftKbdus + i) = shiftKbdus.getD i 0
  format : CString m keys.format [0x25, 0x63]

def keyChar (sc : UInt8) (shift : Bool) : UInt8 := (if shift then shiftKbdus else kbdus).getD sc.toNat 0

/-- A key is pressed and let go, under the shift key if the character needs it. -/
def keystroke (c : UInt8) : List UInt8 :=
  if c ∈ kbdus then [.ofNat (kbdus.idxOf c), .ofNat (kbdus.idxOf c + 0x80)]
  else [0x2A, .ofNat (shiftKbdus.idxOf c), .ofNat (shiftKbdus.idxOf c + 0x80), 0xAA]

def typing (text : List UInt8) : List UInt8 := text.flatMap keystroke

/-- The shift key prints a null character where it is pressed. -/
def shiftMarked (text : List UInt8) : List UInt8 := text.flatMap fun c => if c ∈ kbdus then [c] else [0, c]

/-- A character that a key has. -/
def Typable (c : UInt8) : Prop := c ≠ 0 ∧ (c ∈ kbdus ∨ c ∈ shiftKbdus)

instance : DecidablePred Typable := fun c => inferInstanceAs (Decidable (c ≠ 0 ∧ (c ∈ kbdus ∨ c ∈ shiftKbdus)))

/-- Every printable character of ASCII is on a key. -/
theorem typable_printable : ∀ n ∈ List.range' 32 95, Typable (.ofNat n) := by decide +kernel

theorem keystroke_text : ∀ c ∈ kbdus ++ shiftKbdus, c ≠ 0 →
    keyText keyChar (keystroke c) false = (if c ∈ kbdus then [c] else [0, c]) ∧ shiftRun (keystroke c) false = false ∧
      0x80 ∉ keystroke c := by decide +kernel

theorem keystroke_shifts : ∀ c ∈ kbdus ++ shiftKbdus, c ≠ 0 →
    (keystroke c).count 0x2A = if c ∉ kbdus then 1 else 0 := by decide +kernel

theorem keyText_append (look : UInt8 → Bool → UInt8) (one two : List UInt8) (shift : Bool) :
    keyText look (one ++ two) shift = keyText look one shift ++ keyText look two (shiftRun one shift) := by
  induction one generalizing shift with
  | nil => rfl
  | cons sc one ih =>
    show _ ++ keyText look (one ++ two) _ = _
    rw [ih, ← List.append_assoc]
    rfl

theorem shiftRun_append (one two : List UInt8) (shift : Bool) :
    shiftRun (one ++ two) shift = shiftRun two (shiftRun one shift) := List.foldl_append

theorem typing_text {text : List UInt8} (typable : ∀ c ∈ text, Typable c) :
    keyText keyChar (typing text) false = shiftMarked text ∧ shiftRun (typing text) false = false ∧ 0x80 ∉ typing text := by
  induction text with
  | nil => exact ⟨rfl, rfl, List.not_mem_nil⟩
  | cons c text ih =>
    obtain ⟨character, shift, inside⟩ := keystroke_text c (List.mem_append.mpr (typable c List.mem_cons_self).2)
      (typable c List.mem_cons_self).1
    obtain ⟨rest, shift', inside'⟩ := ih fun c mem => typable c (List.mem_cons_of_mem _ mem)
    rw [show typing (c :: text) = keystroke c ++ typing text from rfl]
    refine ⟨?_, ?_, ?_⟩
    · rw [keyText_append, character, shift, rest]
      rfl
    · rw [shiftRun_append, shift, shift']
    · rw [List.mem_append, not_or]
      exact ⟨inside, inside'⟩

/-- The shift key is pressed once for each character that is not in the plain table. -/
theorem typing_shifts {text : List UInt8} (typable : ∀ c ∈ text, Typable c) :
    (typing text).count 0x2A = text.countP (· ∉ kbdus) := by
  induction text with
  | nil => rfl
  | cons c text ih =>
    have one := keystroke_shifts c (List.mem_append.mpr (typable c List.mem_cons_self).2) (typable c List.mem_cons_self).1
    rw [show typing (c :: text) = keystroke c ++ typing text from rfl, List.count_append, List.countP_cons, one,
      ih fun d later => typable d (List.mem_cons_of_mem _ later), Nat.add_comm]
    exact congrArg _ (by simp)

variable {keys : KeyMemory} {m : Mem}

theorem KeyTables.byte (tables : KeyTables keys m) {sc : UInt8} (small : sc < 0x80) (shift : Bool) :
    keyByte keys m sc shift = keyChar sc shift := by
  have small : sc.toNat < 128 := UInt8.lt_iff_toNat_lt.mp small
  cases shift
  · exact tables.plain _ small
  · exact tables.shifted _ small

/-- Inside the tables the driver prints the characters of the layout. -/
theorem KeyTables.text (tables : KeyTables keys m) {scancodes : List UInt8} (inside : 0x80 ∉ scancodes) (shift : Bool) :
    keyText (keyByte keys m) scancodes shift = keyText keyChar scancodes shift := by
  induction scancodes generalizing shift with
  | nil => rfl
  | cons sc scancodes ih =>
    obtain ⟨here, inside⟩ := not_or.mp (List.mem_cons.not.mp inside)
    unfold keyText
    rw [ih inside]
    split
    next pressed =>
      have low : sc < 0x80 := by
        have other : sc.toNat ≠ 0x80 := fun same => here (UInt8.toNat_inj.mp same).symm
        have pressed : sc.toNat < 0x81 := UInt8.lt_iff_toNat_lt.mp pressed
        exact UInt8.lt_iff_toNat_lt.mpr (show sc.toNat < 0x80 by omega)
      rw [tables.byte low]
    next => rfl

/-- Whatever keys are pressed, the driver prints their characters in the case
that the shift key asks for. It leaves a table exactly at scancode 0x80. -/
theorem keyboard_translates (tables : KeyTables keys m) (given : PrintMemory) (fuel : Nat) (scancodes : List UInt8)
    (shift : Bool) :
    ∃ log, keyboardRun keys given (fuel + 2) m scancodes shift = done log (shiftRun scancodes shift, m) ∧
      ((∀ e ∈ log, e.Inside) ↔ 0x80 ∉ scancodes) ∧
      (0x80 ∉ scancodes → keyPrinted log = keyText keyChar scancodes shift) := by
  obtain ⟨log, run, text, inside⟩ := keyboardRun_done given fuel tables.format scancodes shift
  exact ⟨log, run, inside, fun inside => text.trans (tables.text inside shift)⟩

/-- A memory with both tables and the format. -/
def layoutMemory (x : Nat) : UInt8 :=
  if x < 0x2000 then kbdus.getD (x - 0x1000) 0 else if x < 0x3000 then shiftKbdus.getD (x - 0x2000) 0
    else [0x25, 0x63].getD (x - 0x3000) 0

theorem layoutMemory_tables : KeyTables ⟨0x1000, 0x2000, 0x3000⟩ layoutMemory where
  plain i small := by
    show layoutMemory (0x1000 + i) = _
    unfold layoutMemory
    rw [if_pos (by omega), Nat.add_sub_cancel_left]
  shifted i small := by
    show layoutMemory (0x2000 + i) = _
    unfold layoutMemory
    rw [if_neg (by omega), if_pos (by omega), Nat.add_sub_cancel_left]
  format := ⟨rfl, by decide, rfl, by decide, rfl⟩

/-- The shifted A, and the byte after the table. -/
theorem keyboard_translates_layout : ∃ log,
    keyboardRun ⟨0x1000, 0x2000, 0x3000⟩ formatPlaces 2 layoutMemory [0x2A, 0x1E, 0x80] false =
      done log (true, layoutMemory) ∧
      ((∀ e ∈ log, e.Inside) ↔ 0x80 ∉ ([0x2A, 0x1E, 0x80] : List UInt8)) ∧
      (0x80 ∉ ([0x2A, 0x1E, 0x80] : List UInt8) → keyPrinted log = keyText keyChar [0x2A, 0x1E, 0x80] false) :=
  keyboard_translates layoutMemory_tables formatPlaces 0 [0x2A, 0x1E, 0x80] false

/-- Apart from the null characters, of which there is one for each character
that needs the shift key, it is the text. -/
theorem shiftMarked_text {text : List UInt8} (typable : ∀ c ∈ text, Typable c) :
    (shiftMarked text).filter (· ≠ 0) = text ∧ (shiftMarked text).count 0 = text.countP (· ∉ kbdus) := by
  induction text with
  | nil => exact ⟨rfl, rfl⟩
  | cons c text ih =>
    obtain ⟨rest, number⟩ := ih fun d later => typable d (List.mem_cons_of_mem _ later)
    have character : c ≠ 0 := (typable c List.mem_cons_self).1
    rw [show shiftMarked (c :: text) = (if c ∈ kbdus then [c] else [0, c]) ++ shiftMarked text from rfl,
      List.filter_append, List.count_append, rest, number, List.countP_cons]
    by_cases plain : c ∈ kbdus
    · rw [if_pos plain, List.filter_cons_of_pos (by simpa using character), List.count_cons_of_ne character,
        if_neg (by simpa using plain)]
      exact ⟨rfl, Nat.zero_add _⟩
    · rw [if_neg plain, List.filter_cons_of_neg (by simp), List.filter_cons_of_pos (by simpa using character),
        List.count_cons_self, List.count_cons_of_ne character, if_pos (by simpa using plain)]
      exact ⟨rfl, Nat.add_comm _ _⟩

/-- What is typed arrives on the serial line, behind what was there before, with
one null character for every press of the shift key. -/
theorem typed_text_arrives (tables : KeyTables keys m) {text : List UInt8} (typable : ∀ c ∈ text, Typable c)
    (given : PrintMemory) (fuel : Nat) (timing : Timing) (u : Uart) :
    ∃ log, keyboardRun keys given (fuel + 2) m (typing text) false = done log (false, m) ∧ (∀ e ∈ log, e.Inside) ∧
      (∃ v, Returns (fun fuel => (putchars fuel (keyPrinted log)).run (Uart.bus timing) u) ((), v) ∧
        v.line = u.line ++ crlf (shiftMarked text)) ∧
      (shiftMarked text).filter (· ≠ 0) = text ∧ (shiftMarked text).count 0 = (typing text).count 0x2A := by
  obtain ⟨typed, shift, inside⟩ := typing_text typable
  obtain ⟨log, run, text', inside'⟩ := keyboardRun_done given fuel tables.format (typing text) false
  rw [shift] at run
  rw [tables.text inside, typed] at text'
  obtain ⟨v, returned, line⟩ := putchars_returns timing u (keyPrinted log)
  rw [text'] at line
  obtain ⟨characters, nulls⟩ := shiftMarked_text typable
  exact ⟨log, run, inside'.mpr inside, ⟨v, returned, line⟩, characters, nulls.trans (typing_shifts typable).symm⟩

/-- `Hi!` and a new line. -/
theorem typed_text_arrives_prompt : ∃ log,
    keyboardRun ⟨0x1000, 0x2000, 0x3000⟩ formatPlaces 2 layoutMemory (typing [72, 105, 33, 10]) false =
      done log (false, layoutMemory) ∧ (∀ e ∈ log, e.Inside) ∧
      ∃ v, Returns (fun fuel => (putchars fuel (keyPrinted log)).run (Uart.bus promptTiming) {}) ((), v) ∧
        v.line = [0, 72, 105, 0, 33, 13, 10] := by
  have typable : ∀ c ∈ [72, 105, 33, 10], Typable c := by decide +kernel
  obtain ⟨log, run, inside, ⟨v, returned, line⟩, _⟩ := typed_text_arrives layoutMemory_tables typable formatPlaces 0 promptTiming {}
  exact ⟨log, run, inside, v, returned, line.trans (by decide +kernel)⟩

end System14
