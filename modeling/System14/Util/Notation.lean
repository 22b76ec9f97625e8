import System14.Lib.Numeral
import System14.Util.Numbers

/-!
# Decimal and hexadecimal notation

`hexToString` writes the hexadecimal numeral of its argument, wherever the
digits of earlier calls stop. `itoa` writes the decimal numeral of a number that
is not negative. Division truncates, so the remainders of a negative number are
negative too: what it gives for them are the characters below `0`, and no sign.
-/

namespace System14
open ByteMem Run Numeral

variable {m m' : Mem} {ret fuel hexChars hexString value ptr p : Nat} {n : Int} {text : List UInt8}

/-! ### Decimal notation -/

def decimalDigit (c : UInt8) : Option Nat :=
  if 0x30 ≤ c.toNat ∧ c.toNat ≤ 0x39 then some (c.toNat - 0x30) else none

def decimalChar (d : Nat) : UInt8 := UInt8.ofNat (d + 0x30)

/-- The canonical decimal representation of `n`. -/
def IsDecimal (n : Int) (text : List UInt8) : Prop :=
  ∃ digits, text = (if n < 0 then [0x2d] else []) ++ digits ∧ IsNumeral 10 decimalDigit n.natAbs digits

def parseNatural (text : List UInt8) : Option Nat := if text = [] then none else Numeral.value 10 decimalDigit text

/-- A number, perhaps with a sign in front. -/
def parseDecimal (text : List UInt8) : Option Int :=
  if text.head? = some 0x2d then (parseNatural text.tail).map fun n => -(n : Int) else (parseNatural text).map Int.ofNat

theorem decimalDigit_char {d : Nat} (digit : d < 10) : decimalDigit (decimalChar d) = some d := by
  revert d
  decide

theorem decimalDigit_lt (c : UInt8) (d : Nat) (digit : decimalDigit c = some d) : d < 10 := by
  unfold decimalDigit at digit
  split at digit
  · cases digit
    omega
  · cases digit

theorem IsDecimal.parse (decimal : IsDecimal n text) : parseDecimal text = some n := by
  obtain ⟨digits, rfl, numeral⟩ := decimal
  have natural : parseNatural digits = some n.natAbs := (if_neg numeral.nonempty).trans numeral.value
  unfold parseDecimal
  by_cases negative : n < 0
  · rw [if_pos negative]
    have back : -(n.natAbs : Int) = n := by omega
    simp only [List.singleton_append, List.head?_cons, if_true, List.tail_cons, natural]
    exact congrArg some back
  · rw [if_neg negative, List.nil_append]
    have unsigned : digits.head? ≠ some 0x2d := by
      intro sign
      obtain ⟨rest, rfl⟩ := List.head?_eq_some_iff.mp sign
      have value := numeral.value
      unfold Numeral.value at value
      rw [List.foldlM_cons] at value
      cases value
    rw [if_neg unsigned, natural]
    exact congrArg some (Int.natAbs_of_nonneg (Int.not_lt.mp negative))

/-! ### `itoa` -/

theorem itoaDigits_length (i : Nat) (t : Int) : (itoaDigits i t).length = i := by
  induction i generalizing t with
  | zero => rfl
  | succ i ih => rw [itoaDigits, List.length_append, ih, List.length_singleton]

theorem itoaDigit_char (k : Nat) : UInt8.ofInt ((k : Int).tmod 10 + 0x30) = decimalChar (k % 10) := by
  have remainder : (k : Int).tmod 10 = ((k % 10 : Nat) : Int) := Int.ofNat_tmod k 10
  have written : ∀ d : Nat, d < 10 → UInt8.ofInt ((d : Int) + 0x30) = decimalChar d := by decide
  rw [remainder]
  exact written _ (Nat.mod_lt k (show 0 < 10 by decide))

/-- The digits of a number that is not negative. -/
theorem itoaText_numeral (k : Nat) : itoaText k = numeral 10 decimalChar k := by
  unfold itoaText
  rw [Int.natAbs_natCast]
  induction k using Nat.strong_induction_on with
  | _ k ih =>
    rw [itoaDigits, itoaDigit_char, show (k : Int).tdiv 10 = ((k / 10 : Nat) : Int) from Int.ofNat_tdiv k 10]
    unfold numeral
    by_cases zero : k = 0
    · subst zero
      rfl
    · rw [if_neg zero, digits_step (by decide) (Nat.pos_of_ne_zero zero)]
      congr 1
      by_cases small : k < 10
      · rw [Nat.log_of_lt small, Nat.div_eq_of_lt small, digits_zero]
        rfl
      · have above : 10 ≤ k := Nat.not_lt.mp small
        have front := ih (k / 10) (by omega)
        unfold numeral at front
        rw [if_neg (by omega)] at front
        rw [Nat.log_of_one_lt_of_le (by decide) above]
        exact front

/-- `itoa` returns the decimal representation of `n`, inside its buffer. -/
def WritesDecimal (ret : Nat) (n : Int) (m : Mem) : Prop :=
  ∃ m' text, Returns (itoa · ret n m) (ret, m') ∧ CString m' ret text ∧ text.length < 64 ∧
    (∀ x, x < ret ∨ ret + 64 ≤ x → m' x = m x) ∧ IsDecimal n text ∧ parseDecimal text = some n

/-- There is no room for a sign. -/
theorem itoaText_not_decimal (negative : n < 0) : ¬ IsDecimal n (itoaText n) := by
  rintro ⟨digits, here, numeral⟩
  have length := congrArg List.length here
  have below := value_lt decimalDigit_lt numeral.value
  rw [if_pos negative, List.length_append, List.length_singleton, itoaText, itoaDigits_length] at length
  have count := Nat.log_lt_of_lt_pow (by omega) below
  omega

theorem itoa_text (m : Mem) (ret : Nat) {r : Nat × Mem} (small : n.natAbs < 2 ^ 32) (returned : Returns (itoa · ret n m) r)
    (string : CString r.2 ret text) : text = itoaText n := by
  obtain ⟨m', call, here, _⟩ := itoa_spec m ret small
  cases returned.unique ⟨10, call⟩
  exact string.unique here

/-- `itoa` is decimal notation for the numbers that are not negative, and for no others. -/
theorem itoa_decimal_iff (m : Mem) (ret : Nat) (n : BitVec 32) : WritesDecimal ret n.toInt m ↔ 0 ≤ n.toInt := by
  have small : n.toInt.natAbs < 2 ^ 32 := by
    have := n.isLt
    rw [BitVec.toInt_eq_toNat_cond]
    split <;> omega
  constructor
  · rintro ⟨m', text, returned, string, _, _, decimal, _⟩
    rw [itoa_text m ret small returned string] at decimal
    exact Int.not_lt.mp fun negative => itoaText_not_decimal negative decimal
  · intro natural
    obtain ⟨m', call, string, outside⟩ := itoa_spec m ret small
    have short := itoaText_short small
    have text : itoaText n.toInt = numeral 10 decimalChar n.toInt.natAbs := by
      rw [← itoaText_numeral, Int.natAbs_of_nonneg natural]
    have decimal : IsDecimal n.toInt (itoaText n.toInt) := by
      refine ⟨numeral 10 decimalChar n.toInt.natAbs, ?_, isNumeral_numeral (by decide) fun d => decimalDigit_char⟩
      rw [if_neg (Int.not_lt.mpr natural), List.nil_append]
      exact text
    refine ⟨m', _, ⟨10, call⟩, string, ?_, outside, decimal, decimal.parse⟩
    rw [itoaText, itoaDigits_length]
    omega

/-- For -7 it is the character below `0` by seven. -/
theorem minusSeven_not_decimal : ¬ WritesDecimal 0x1000 (BitVec.ofInt 32 (-7)).toInt (fun _ => 0) ∧
    ∃ m', Returns (itoa · 0x1000 (BitVec.ofInt 32 (-7)).toInt fun _ => 0) (0x1000, m') ∧ CString m' 0x1000 [0x29] := by
  have seven : (BitVec.ofInt 32 (-7)).toInt = -7 := by decide
  rw [seven]
  constructor
  · rintro ⟨m', text, returned, string, _, _, decimal, _⟩
    rw [itoa_text _ 0x1000 (by decide) returned string] at decimal
    exact itoaText_not_decimal (by decide) decimal
  · obtain ⟨m', call, string, _⟩ := itoa_spec (t := -7) (fun _ => 0) 0x1000 (by decide)
    exact ⟨m', ⟨10, call⟩, string⟩

/-! ### `hexToString` -/

def hexDigit (c : UInt8) : Option Nat :=
  if 0x30 ≤ c.toNat ∧ c.toNat ≤ 0x39 then some (c.toNat - 0x30)
  else if 0x41 ≤ c.toNat ∧ c.toNat ≤ 0x46 then some (c.toNat - 0x41 + 10)
  else none

theorem hexDigit_character {d : Nat} (digit : d < 16) : hexDigit (hexCharacters.getD d 0) = some d := by
  revert d
  decide

theorem hexText_numeral (value : Nat) : IsNumeral 16 hexDigit value (hexText value) := by
  show IsNumeral 16 hexDigit value (numeral 16 (fun d => hexCharacters.getD d 0) value)
  exact isNumeral_numeral (by decide) fun _ => hexDigit_character

theorem hexDigits_length (small : value < 2 ^ 64) : (hexDigits value).length ≤ 16 :=
  digits_length_le (by decide) small

theorem hexText_length (small : value < 2 ^ 64) : (hexText value).length ≤ 16 := by
  have digits := hexDigits_length small
  unfold hexText
  split
  · decide
  · exact digits

/-- The addresses that the loop of `hexToString` writes, in order. -/
def hexLoopStores : Nat → Nat → Nat → List Nat
  | 0, _, _ => []
  | fuel + 1, value, ptr => if value > 0 then (ptr - 1) :: hexLoopStores fuel (value / 16) (ptr - 1) else []

def hexStores (fuel hexString value : Nat) : List Nat :=
  let ptr := hexString + 127
  ptr :: if value = 0 then [ptr - 1] else hexLoopStores fuel value ptr

theorem hexLoop_unwritten {r : Nat × Mem} {x : Nat} (call : hexLoop hexChars fuel value ptr m = .ok r)
    (unwritten : x ∉ hexLoopStores fuel value ptr) : r.2 x = m x := by
  induction fuel generalizing value ptr m with
  | zero => cases call
  | succ fuel ih =>
    rw [hexLoop] at call
    rw [hexLoopStores] at unwritten
    split at call
    · rw [if_pos ‹_›, List.mem_cons, not_or] at unwritten
      rw [ih call unwritten.2, Function.update_of_ne unwritten.1]
    · cases call
      rfl

/-- Each digit takes one byte in front of those written before. -/
theorem hexLoop_pointer {r : Nat × Mem} (call : hexLoop hexChars fuel value ptr m = .ok r)
    (room : (hexDigits value).length ≤ ptr) : r.1 + (hexDigits value).length = ptr := by
  induction fuel generalizing value ptr m with
  | zero => cases call
  | succ fuel ih =>
    rw [hexLoop] at call
    split at call
    · rw [hexDigits_succ ‹_›, List.length_append, List.length_singleton] at room ⊢
      have front := ih call (by omega)
      omega
    · have zero : value = 0 := by omega
      subst zero
      cases call
      rw [show hexDigits 0 = [] from digits_zero]
      rfl

theorem hexLoopStores_inside {x : Nat} (room : (hexDigits value).length ≤ ptr)
    (written : x ∈ hexLoopStores fuel value ptr) : ptr ≤ x + (hexDigits value).length ∧ x < ptr := by
  induction fuel generalizing value ptr with
  | zero => cases written
  | succ fuel ih =>
    rw [hexLoopStores] at written
    split at written
    · rw [hexDigits_succ ‹_›, List.length_append, List.length_singleton] at room ⊢
      rcases List.mem_cons.mp written with rfl | later
      · omega
      · have := ih (by omega) later
        omega
    · cases written

theorem hexStores_inside {x : Nat} (small : value < 2 ^ 64) (written : x ∈ hexStores fuel hexString value) :
    hexString ≤ x ∧ x < hexString + 128 := by
  have few := hexDigits_length small
  unfold hexStores at written
  dsimp only at written
  rcases List.mem_cons.mp written with rfl | digit
  · omega
  · split at digit
    · rw [List.mem_singleton.mp digit]
      omega
    · have := hexLoopStores_inside (by omega) digit
      omega

/-- Nothing but these addresses is written. -/
theorem hexToString_unwritten {r : Nat × Mem} {x : Nat} (call : hexToString fuel hexChars hexString value m = .ok r)
    (unwritten : x ∉ hexStores fuel hexString value) : r.2 x = m x := by
  unfold hexStores at unwritten
  rw [List.mem_cons, not_or] at unwritten
  unfold hexToString at call
  dsimp only at call
  split at call
  · rw [if_pos ‹_›, List.mem_singleton] at unwritten
    cases call
    exact (Function.update_of_ne unwritten.2 _ _).trans (Function.update_of_ne unwritten.1 _ _)
  · rw [if_neg ‹_›] at unwritten
    rw [hexLoop_unwritten call unwritten.2, Function.update_of_ne unwritten.1]

theorem hexToString_pointer {r : Nat × Mem} (small : value < 2 ^ 64)
    (call : hexToString fuel hexChars hexString value m = .ok r) : r.1 + (hexText value).length = hexString + 127 := by
  have few := hexDigits_length small
  unfold hexToString at call
  dsimp only at call
  unfold hexText
  split at call
  · rw [if_pos ‹_›]
    cases call
    rfl
  · rw [if_neg ‹_›]
    exact hexLoop_pointer call (by omega)

/-- `hexToString` is hexadecimal notation: where the text starts and what it is
depend on the value alone. -/
theorem hexToString_hexadecimal (apart : hexChars + 16 ≤ hexString ∨ hexString + 128 ≤ hexChars) (v : BitVec 64) :
    ∃ p text, IsNumeral 16 hexDigit v.toNat text ∧ 1 ≤ text.length ∧ text.length ≤ 16 ∧
      hexString ≤ p ∧ p + text.length < hexString + 128 ∧
      (∀ fuel, ∀ x ∈ hexStores fuel hexString v.toNat, hexString ≤ x ∧ x < hexString + 128) ∧
      ∀ m, CString m hexChars hexCharacters →
        ∃ m', Returns (hexToString · hexChars hexString v.toNat m) (p, m') ∧ CString m' p text ∧
          ∀ x, x < hexString ∨ hexString + 128 ≤ x → m' x = m x := by
  have numeral := hexText_numeral v.toNat
  have some := List.length_pos_of_ne_nil numeral.nonempty
  have few := hexText_length v.isLt
  refine ⟨hexString + 127 - (hexText v.toNat).length, hexText v.toNat, numeral, some, few, by omega, by omega,
    fun _ _ written => hexStores_inside v.isLt written, fun m chars => ?_⟩
  obtain ⟨p, m', call, string, outside⟩ := hexToString_spec hexString v.isLt chars apart
  have pointer : p + _ = _ := hexToString_pointer v.isLt (call 17 (Nat.le_refl _))
  have place : p = hexString + 127 - (hexText v.toNat).length := by omega
  rw [← place]
  exact ⟨m', ⟨17, call⟩, string, outside⟩

/-- The digits in front of the buffer, and the greatest value there is. -/
theorem hexToString_hexadecimal_greatest : ∃ p text, IsNumeral 16 hexDigit (2 ^ 64 - 1) text ∧ text.length ≤ 16 ∧
    ∀ m, CString m 0x1000 hexCharacters →
      ∃ m', Returns (hexToString · 0x1000 0x2000 (2 ^ 64 - 1) m) (p, m') ∧ CString m' p text := by
  have apart : 0x1000 + 16 ≤ 0x2000 ∨ 0x2000 + 128 ≤ 0x1000 := by decide
  obtain ⟨p, text, numeral, _, few, _, _, _, call⟩ := hexToString_hexadecimal apart (BitVec.allOnes 64)
  refine ⟨p, text, numeral, few, fun m chars => ?_⟩
  obtain ⟨m', returned, string, _⟩ := call m chars
  exact ⟨m', returned, string⟩

end System14
