import Mathlib.Data.Nat.Log
import Mathlib.Data.Nat.Digits.Defs
import Mathlib.Data.List.GetD
import System14.Lib.Numeral
import System14.Util.String

/-!
# Numbers as text

`itoa` and `hexToString` of `util/string.c` write the digits of a number to a
static buffer, from the last one to the first. Each call overwrites what an
earlier one has left there.
-/

namespace System14
open ByteMem Run

variable {m m' : Mem} {ret size fuel hexChars hexString value ptr k : Nat} {t : Int} {s : List UInt8}

/-! ### `itoa` -/

/-- The first loop of `itoa` counts the divisions by 10. -/
def itoaSize : Nat → Int → Nat → Except Stop Nat
  | 0, _, _ => .error .outOfFuel
  | fuel + 1, t, size => if t.tdiv 10 ≠ 0 then itoaSize fuel (t.tdiv 10) (size + 1) else .ok size

/-- The second loop, with `i + 1` for its counter `i`. -/
def itoaFill (ret : Nat) : Nat → Int → Mem → Mem
  | 0, _, m => m
  | i + 1, t, m => itoaFill ret i (t.tdiv 10) (Function.update m (ret + i) (UInt8.ofInt (t.tmod 10 + 0x30)))

/-- `itoa`, with its static buffer at `ret`. -/
def itoa (fuel ret : Nat) (res : Int) (m : Mem) : Except Stop (Nat × Mem) := do
  let size ← itoaSize fuel res 0
  let size := size + 1
  let m := Function.update m (ret + size) 0
  return (ret, itoaFill ret size res m)

def itoaDigits : Nat → Int → List UInt8
  | 0, _ => []
  | i + 1, t => itoaDigits i (t.tdiv 10) ++ [UInt8.ofInt (t.tmod 10 + 0x30)]

/-- The text that `itoa` leaves. -/
def itoaText (res : Int) : List UInt8 := itoaDigits (Nat.log 10 res.natAbs + 1) res

theorem itoaSize_spec (enough : Nat.log 10 t.natAbs < fuel) :
    itoaSize fuel t size = .ok (size + Nat.log 10 t.natAbs) := by
  induction fuel generalizing t size with
  | zero => exact absurd enough (Nat.not_lt_zero _)
  | succ fuel ih =>
    have quotient : (t.tdiv 10).natAbs = t.natAbs / 10 := Int.natAbs_tdiv t 10
    rw [itoaSize]
    split
    · have large : 10 ≤ t.natAbs := by omega
      have step := Nat.log_of_one_lt_of_le (by decide) large
      rw [ih (by rw [quotient]; omega), quotient, step]
      congr 1
      omega
    · have small : t.natAbs < 10 := by omega
      rw [Nat.log_of_lt small, Nat.add_zero]

theorem itoaDigit_ne_zero (t : Int) : UInt8.ofInt (t.tmod 10 + 0x30) ≠ 0 := by
  intro zero
  have value := congrArg UInt8.toNat zero
  have low : -10 < t.tmod 10 := Int.lt_tmod_of_pos t (by decide)
  have high : t.tmod 10 < 10 := Int.tmod_lt_of_pos t (by decide)
  rw [UInt8.ofInt, UInt8.toNat_ofNat', show (0 : UInt8).toNat = 0 from rfl] at value
  omega

/-- The digits go in front of what follows them. -/
theorem itoaFill_string {i : Nat} (rest : CString m (ret + i) s) :
    CString (itoaFill ret i t m) ret (itoaDigits i t ++ s) := by
  induction i generalizing t m s with
  | zero => exact rest
  | succ i ih =>
    rw [itoaFill, itoaDigits, List.append_assoc]
    refine ih ⟨Function.update_self _ _ _, itoaDigit_ne_zero t, ?_⟩
    exact rest.congr fun x low _ => Function.update_of_ne (by omega) _ _

theorem itoaFill_outside {i x : Nat} (outside : x < ret ∨ ret + i ≤ x) : itoaFill ret i t m x = m x := by
  induction i generalizing t m with
  | zero => rfl
  | succ i ih => rw [itoaFill, ih (by omega), Function.update_of_ne (by omega)]

theorem itoaText_short (small : t.natAbs < 2 ^ 32) : Nat.log 10 t.natAbs < 10 :=
  Nat.log_lt_of_lt_pow' (by decide) (by omega)

theorem itoa_spec (m : Mem) (ret : Nat) (small : t.natAbs < 2 ^ 32) :
    ∃ m', (∀ fuel ≥ 10, itoa fuel ret t m = .ok (ret, m')) ∧ CString m' ret (itoaText t) ∧
      ∀ x, x < ret ∨ ret + 64 ≤ x → m' x = m x := by
  have short := itoaText_short small
  refine ⟨itoaFill ret (Nat.log 10 t.natAbs + 1) t (Function.update m (ret + (Nat.log 10 t.natAbs + 1)) 0),
    fun fuel enough => ?_, ?_, fun x outside => ?_⟩
  · unfold itoa
    rw [itoaSize_spec (by omega), ok_bind, Nat.zero_add]
    rfl
  · have string := itoaFill_string (i := Nat.log 10 t.natAbs + 1) (t := t) (s := [])
      (show CString (Function.update m (ret + (Nat.log 10 t.natAbs + 1)) 0) _ [] from Function.update_self _ _ _)
    rwa [List.append_nil] at string
  · rw [itoaFill_outside (by omega), Function.update_of_ne (by omega)]

/-! ### `hexToString` -/

def hexLoop (hexChars : Nat) : Nat → Nat → Nat → Mem → Except Stop (Nat × Mem)
  | 0, _, _, _ => .error .outOfFuel
  | fuel + 1, value, ptr, m =>
    if value > 0 then
      hexLoop hexChars fuel (value / 16) (ptr - 1) (Function.update m (ptr - 1) (m (hexChars + value % 16)))
    else .ok (ptr, m)

/-- `hexToString`, with its buffer at `hexString` and the text of its digits at `hexChars`. -/
def hexToString (fuel hexChars hexString value : Nat) (m : Mem) : Except Stop (Nat × Mem) :=
  let ptr := hexString + 127
  let m := Function.update m ptr 0
  if value = 0 then .ok (ptr - 1, Function.update m (ptr - 1) 0x30) else hexLoop hexChars fuel value ptr m

/-- `0123456789ABCDEF` -/
def hexCharacters : List UInt8 :=
  [0x30, 0x31, 0x32, 0x33, 0x34, 0x35, 0x36, 0x37, 0x38, 0x39, 0x41, 0x42, 0x43, 0x44, 0x45, 0x46]

def hexDigits (value : Nat) : List UInt8 := ((Nat.digits 16 value).map fun d => hexCharacters.getD d 0).reverse

/-- The text that `hexToString` leaves. -/
def hexText (value : Nat) : List UInt8 := if value = 0 then [0x30] else hexDigits value

theorem hexDigits_succ (positive : 0 < value) :
    hexDigits value = hexDigits (value / 16) ++ [hexCharacters.getD (value % 16) 0] := by
  show Numeral.digits 16 (fun d => hexCharacters.getD d 0) value = _
  exact Numeral.digits_step (by decide) positive

theorem hexCharacter_ne_zero {d : Nat} (digit : d < 16) : hexCharacters.getD d 0 ≠ 0 := by
  revert d
  decide

/-- The digits go in front of what follows them. -/
theorem hexLoop_spec (few : value < 16 ^ k) (room : k ≤ ptr) (chars : ∀ d < 16, m (hexChars + d) = hexCharacters.getD d 0)
    (apart : hexChars + 16 ≤ ptr - k ∨ ptr ≤ hexChars) (rest : CString m ptr s) :
    ∃ p m', (∀ fuel > k, hexLoop hexChars fuel value ptr m = .ok (p, m')) ∧ CString m' p (hexDigits value ++ s) ∧
      ∀ x, x < ptr - k ∨ ptr ≤ x → m' x = m x := by
  induction k generalizing value ptr m s with
  | zero =>
    have zero : value = 0 := Nat.lt_one_iff.mp few
    subst zero
    refine ⟨ptr, m, fun fuel enough => ?_, rest, fun _ _ => rfl⟩
    obtain ⟨fuel, rfl⟩ := Nat.exists_eq_add_one.mpr enough
    rw [hexLoop, if_neg (Nat.lt_irrefl 0)]
  | succ k ih =>
    by_cases positive : 0 < value
    · have digit := Nat.mod_lt value (show 0 < 16 by decide)
      have kept : ∀ x, x ≠ ptr - 1 → Function.update m (ptr - 1) (m (hexChars + value % 16)) x = m x := fun x other =>
        Function.update_of_ne other _ _
      have next : CString (Function.update m (ptr - 1) (m (hexChars + value % 16))) (ptr - 1)
          (hexCharacters.getD (value % 16) 0 :: s) := by
        refine ⟨?_, hexCharacter_ne_zero digit, ?_⟩
        · rw [Function.update_self, chars _ digit]
        · rw [show ptr - 1 + 1 = ptr by omega]
          exact rest.congr fun x low _ => kept x (by omega)
      have fewer : value / 16 < 16 ^ k := by
        rw [Nat.pow_succ] at few
        omega
      obtain ⟨p, m', run, string, outside⟩ := ih fewer (by omega)
        (fun d below => by rw [kept _ (by omega), chars d below]) (by omega) next
      refine ⟨p, m', fun fuel enough => ?_, ?_, fun x far => ?_⟩
      · obtain ⟨fuel, rfl⟩ := Nat.exists_eq_add_one.mpr (Nat.zero_lt_of_lt enough)
        rw [hexLoop, if_pos positive, run fuel (Nat.lt_of_succ_lt_succ enough)]
      · rw [hexDigits_succ positive, List.append_assoc]
        exact string
      · rw [outside x (by omega), kept x (by omega)]
    · have zero : value = 0 := by omega
      subst zero
      refine ⟨ptr, m, fun fuel enough => ?_, rest, fun _ _ => rfl⟩
      obtain ⟨fuel, rfl⟩ := Nat.exists_eq_add_one.mpr (Nat.zero_lt_of_lt enough)
      rw [hexLoop, if_neg (Nat.lt_irrefl 0)]

theorem hexToString_spec (hexString : Nat) (small : value < 2 ^ 64) (chars : CString m hexChars hexCharacters)
    (apart : hexChars + 16 ≤ hexString ∨ hexString + 128 ≤ hexChars) :
    ∃ p m', (∀ fuel ≥ 17, hexToString fuel hexChars hexString value m = .ok (p, m')) ∧ CString m' p (hexText value) ∧
      ∀ x, x < hexString ∨ hexString + 128 ≤ x → m' x = m x := by
  have ended : Function.update m (hexString + 127) 0 (hexString + 127) = 0 := Function.update_self _ _ _
  have kept : ∀ x, x ≠ hexString + 127 → Function.update m (hexString + 127) 0 x = m x := fun x other =>
    Function.update_of_ne other _ _
  unfold hexToString hexText
  dsimp only
  split
  · refine ⟨_, _, fun _ _ => rfl, ⟨Function.update_self _ _ _, by decide, ?_⟩, fun x outside => ?_⟩
    · rw [show hexString + 127 - 1 + 1 = hexString + 127 by omega]
      exact (Function.update_of_ne (by omega) _ _).trans ended
    · rw [Function.update_of_ne (by omega), kept x (by omega)]
  · have digits : ∀ d < 16, Function.update m (hexString + 127) 0 (hexChars + d) = hexCharacters.getD d 0 := by
      intro d below
      have character := chars.getD (i := d) (Nat.le_of_lt below) 0
      rw [kept _ (by omega), character, List.getD_append _ _ _ _ below]
    obtain ⟨p, m', run, string, outside⟩ := hexLoop_spec (k := 16) (s := []) (by omega) (by omega) digits (by omega) ended
    rw [List.append_nil] at string
    refine ⟨p, m', run, string, fun x far => ?_⟩
    rw [outside x (by omega), kept x (by omega)]

end System14
