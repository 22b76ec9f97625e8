import System14.Multitasking.Tasks
import System14.Util.String

/-!
# Task names

`IntAddTask` copies the name of a task to `processName` if it is at most 32
characters long, and the text `Process` if it is longer. The terminator of a
name of just 32 characters lands in the registers behind the field.
-/

namespace System14
open ByteMem Run

variable {m m' : Mem} {processText frame taskName : Nat} {name stored : List UInt8}

/-- The statement of `IntAddTask` that sets `frame->processName`. The text of
the default name is at `processText`. -/
def intAddTaskName (fuel processText frame taskName : Nat) (m : Mem) : Except Stop Mem := do
  let len ← strlen fuel taskName m
  if len > 32 then strcpy fuel (frame + 1) processText m else strcpy fuel (frame + 1) taskName m

/-- The addresses that it writes. -/
def taskNameStores (fuel processText frame taskName : Nat) (m : Mem) : List Nat :=
  match strlen fuel taskName m with
  | .error _ => []
  | .ok len =>
    if len > 32 then strcpyStores (frame + 1) processText fuel 0 m else strcpyStores (frame + 1) taskName fuel 0 m

/-- `processName` gets the name or the default one, ended within the field, and
no other byte is written. -/
def TaskNameFits (processText frame taskName : Nat) (name : List UInt8) (m : Mem) : Prop :=
  ∃ m', Returns (intAddTaskName · processText frame taskName m) m' ∧
    (∃ stored, (stored = name ∨ stored = defaultName) ∧ stored.length < 32 ∧ CString m' (frame + 1) stored) ∧
    ∀ fuel, ∀ x ∈ taskNameStores fuel processText frame taskName m, frame + 1 ≤ x ∧ x < frame + 1 + 32

/-- The strings that `IntAddTask` reads, away from the frame. -/
structure NameTexts (m : Mem) (processText frame taskName : Nat) (name : List UInt8) : Prop where
  named : CString m taskName name
  default : CString m processText defaultName
  nameApart : taskName + name.length < frame ∨ frame + 224 ≤ taskName
  textApart : processText + defaultName.length < frame ∨ frame + 224 ≤ processText

/-- The name that is copied. -/
def copiedName (name : List UInt8) : List UInt8 := if name.length > 32 then defaultName else name

theorem copiedName_length (name : List UInt8) : (copiedName name).length ≤ 32 := by
  unfold copiedName
  split
  · decide
  · omega

theorem strlen_spec {fuel : Nat} (texts : NameTexts m processText frame taskName name) (small : name.length < 2 ^ 31)
    (enough : name.length < fuel) : strlen fuel taskName m = .ok name.length := by
  have length := strlenLoop_spec (i := 0) texts.named (by omega) enough
  rwa [Nat.zero_add] at length

/-- The name that is chosen is copied behind the pid, with its terminator. -/
theorem intAddTaskName_spec (texts : NameTexts m processText frame taskName name) (small : name.length < 2 ^ 31) :
    ∃ m', Returns (intAddTaskName · processText frame taskName m) m' ∧ CString m' (frame + 1) (copiedName name) ∧
      ∀ x, x < frame + 1 ∨ frame + 1 + (copiedName name).length < x → m' x = m x := by
  have text := texts.textApart
  have apart := texts.nameApart
  unfold copiedName
  split
  · rename_i long
    have short : defaultName.length = 7 := rfl
    obtain ⟨m', copy, string, kept⟩ := strcpy_spec (frame + 1) texts.default (by omega)
    refine ⟨m', ⟨name.length + 1, fun fuel enough => ?_⟩, string, kept⟩
    dsimp only
    unfold intAddTaskName
    rw [strlen_spec texts small enough, ok_bind, if_pos long, copy fuel (by omega)]
  · rename_i fits
    obtain ⟨m', copy, string, kept⟩ := strcpy_spec (frame + 1) texts.named (by omega)
    refine ⟨m', ⟨name.length + 1, fun fuel enough => ?_⟩, string, kept⟩
    dsimp only
    unfold intAddTaskName
    rw [strlen_spec texts small enough, ok_bind, if_neg fits, copy fuel enough]

theorem taskNameStores_below {fuel x : Nat} (texts : NameTexts m processText frame taskName name)
    (written : x ∈ taskNameStores fuel processText frame taskName m) :
    frame + 1 ≤ x ∧ x ≤ frame + 1 + (copiedName name).length := by
  have text := texts.textApart
  have apart := texts.nameApart
  unfold taskNameStores at written
  cases length : strlen fuel taskName m with
  | error e =>
    rw [length] at written
    cases written
  | ok len =>
    rw [length] at written
    obtain ⟨same, _⟩ := strlenLoop_ok (i := 0) texts.named (by decide) length
    rw [Nat.zero_add] at same
    dsimp only at written
    unfold copiedName
    rw [← same]
    split at written
    · rename_i long
      have short : defaultName.length = 7 := rfl
      rw [if_pos long]
      exact strcpyStores_string (i := 0) texts.default (by omega) written
    · rename_i fits
      rw [if_neg fits]
      exact strcpyStores_string (i := 0) texts.named (by omega) written

/-- The terminator of a name of 32 characters is written behind the field. -/
theorem taskNameStores_full (texts : NameTexts m processText frame taskName name) (full : name.length = 32) :
    frame + 1 + 32 ∈ taskNameStores 33 processText frame taskName m := by
  have apart := texts.nameApart
  unfold taskNameStores
  rw [strlen_spec texts (by omega) (by omega)]
  dsimp only
  rw [if_neg (by omega)]
  refine strcpyStores_reach _ (i := 0) (fun j below => ?_) (by omega) (by decide)
  exact texts.named.ne_zero (by omega)

theorem TaskNameFits.not_full (texts : NameTexts m processText frame taskName name)
    (fits : TaskNameFits processText frame taskName name m) : name.length ≠ 32 := by
  obtain ⟨_, _, _, inside⟩ := fits
  intro full
  have last := inside 33 _ (taskNameStores_full texts full)
  omega

/-- The field holds every name but those that are as long as the field, or
longer than an `int` can tell. -/
theorem task_name_fits_iff (texts : NameTexts m processText frame taskName name) :
    TaskNameFits processText frame taskName name m ↔ name.length ≠ 32 ∧ name.length < 2 ^ 31 := by
  constructor
  · intro fits
    refine ⟨fits.not_full texts, ?_⟩
    obtain ⟨m', ⟨bound, call⟩, _⟩ := fits
    obtain ⟨len, length, _⟩ := bind_ok.mp (call bound (Nat.le_refl bound))
    obtain ⟨same, int⟩ := strlenLoop_ok (i := 0) texts.named (by decide) length
    omega
  · intro ⟨_, small⟩
    obtain ⟨m', returned, string, _⟩ := intAddTaskName_spec texts small
    have short : (copiedName name).length < 32 := by
      unfold copiedName
      split
      · decide
      · omega
    refine ⟨m', returned, ⟨copiedName name, ?_, short, string⟩, fun fuel x written => ?_⟩
    · unfold copiedName
      split
      · exact Or.inr rfl
      · exact Or.inl rfl
    · have := taskNameStores_below texts written
      omega

/-- A name of `length` times the same letter at `0x100`, and the default name at `0x200`. -/
def nameMemory (length x : Nat) : UInt8 :=
  if x < 0x200 then (List.replicate length 0x61).getD (x - 0x100) 0 else defaultName.getD (x - 0x200) 0

/-- The field has no room for the terminator of a name that fills it. -/
theorem fullName_overruns : NameTexts (nameMemory 32) 0x200 0x1000 0x100 (List.replicate 32 0x61) ∧
    ¬ TaskNameFits 0x200 0x1000 0x100 (List.replicate 32 0x61) (nameMemory 32) := by
  have texts : NameTexts (nameMemory 32) 0x200 0x1000 0x100 (List.replicate 32 0x61) :=
    ⟨by decide +kernel, by decide +kernel, by decide, by decide⟩
  exact ⟨texts, fun fits => fits.not_full texts rfl⟩

theorem task_name_fits_iff_short : TaskNameFits 0x200 0x1000 0x100 (List.replicate 31 0x61) (nameMemory 31) :=
  (task_name_fits_iff ⟨by decide +kernel, by decide +kernel, by decide, by decide⟩).mpr ⟨by decide, by decide⟩

/-! ### The frame of the scheduler's model -/

theorem ofNat_clear {b rest : Nat} (byte : b < 2 ^ 8) :
    BitVec.ofNat 64 (2 ^ 8 * rest) = BitVec.ofNat 64 (2 ^ 8 * rest + b) &&& ~~~0xff := by
  apply BitVec.eq_of_getLsbD_eq
  intro i below
  have mask : (0xff : BitVec 64).getLsbD i = decide (i < 8) := by
    show (BitVec.ofNat 64 (2 ^ 8 - 1)).getLsbD i = _
    rw [BitVec.getLsbD_ofNat, Nat.testBit_two_pow_sub_one, decide_eq_true below, Bool.true_and]
  rw [BitVec.getLsbD_and, BitVec.getLsbD_not, mask, BitVec.getLsbD_ofNat, BitVec.getLsbD_ofNat,
    Nat.testBit_two_pow_mul, Nat.testBit_two_pow_mul_add _ byte, decide_eq_true below]
  by_cases low : i < 8
  · simp [low]
  · simp [low, Nat.le_of_not_lt low]

/-- Clearing the lowest byte of a word in memory clears it in the word. -/
theorem readWord_clear {a : Nat} (cleared : m' a = 0) (same : ∀ x, a < x → x < a + 8 → m' x = m x) :
    readWord m' a = readWord m a &&& ~~~0xff := by
  have rest : load 7 m' (a + 1) = load 7 m (a + 1) := load_congr fun x low high => same x (by omega) (by omega)
  unfold readWord
  rw [load_succ 7 m' a, load_succ 7 m a, rest, cleared, Nat.add_comm (m a).toNat]
  exact (congrArg (BitVec.ofNat 64) (Nat.zero_add _)).trans (ofNat_clear (m a).toNat_lt)

theorem Registers.read_r15 {a : Nat} (same : ∀ x, a + 8 ≤ x → x < a + 160 → m' x = m x) :
    Registers.read m' a = { Registers.read m a with r15 := readWord m' a } := by
  have word : ∀ i, 8 ≤ i → i ≤ 152 → readWord m' (a + i) = readWord m (a + i) := fun i low high =>
    congrArg (BitVec.ofNat 64) (load_congr fun x above below => same x (by omega) (by omega))
  unfold Registers.read
  simp (disch := decide) only [word]

/-- The copy in memory is the one of the scheduler's frames. -/
theorem intAddTaskName_refines (texts : NameTexts m processText frame taskName name) (small : name.length < 2 ^ 31)
    (call : Returns (intAddTaskName · processText frame taskName m) m') :
    ProcessFrame.read m' frame = (ProcessFrame.read m frame).copyName (copiedName name) := by
  obtain ⟨m'', call', string, kept⟩ := intAddTaskName_spec texts small
  obtain rfl := call'.unique call
  have short := copiedName_length name
  have field : ∀ a n, frame + 41 ≤ a → load n m'' a = load n m a := fun a n behind =>
    load_congr fun x low _ => kept x (by omega)
  unfold ProcessFrame.read ProcessFrame.copyName
  rw [ProcessFrame.mk.injEq]
  refine ⟨kept frame (by omega), ?_, ?_, kept _ (by omega), field _ 8 (by omega), ?_, ?_⟩
  · refine congrArg Vector.ofFn (funext fun i => ?_)
    have old : (Vector.ofFn fun i : Fin 32 => m (frame + 1 + i)).get i = m (frame + 1 + i) := Vector.getElem_ofFn i.isLt
    rw [old]
    by_cases inside : (i : Nat) ≤ (copiedName name).length
    · exact string.getD inside _
    · rw [kept _ (by omega), List.getD_eq_getElem?_getD, List.getElem?_eq_none (by rw [List.length_append]; simp; omega)]
      rfl
  · dsimp only
    rw [Registers.read_r15 fun x low high => kept x (by omega)]
    split
    · rename_i full
      rw [readWord_clear ?_ fun x low high => kept x (by omega)]
      · rfl
      · have last := string.getD (Nat.le_refl _) 0
        rw [full] at last
        rw [show frame + 33 = frame + 1 + 32 from rfl, last, List.getD_eq_getElem?_getD, ← full, List.getElem?_concat_length]
        rfl
    · rw [show readWord m'' (frame + 33) = readWord m (frame + 33) from
        congrArg (BitVec.ofNat 64) (load_congr fun x low _ => kept x (by omega))]
      rfl
  · rw [kept (frame + 208) (by omega)]
  · rw [field (frame + 216) 8 (by omega)]

end System14
