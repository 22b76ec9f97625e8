import System14.Lib.ByteMem
import Mathlib.Algebra.Group.Int.Defs
import Mathlib.Tactic.Common

/-!
# Memory utilities

`memset`, `memcpy` and `ALIGN_UP` of `util/memutil`, with the wrapping machine
arithmetic that the kernel's pointer computations use.
-/

namespace System14
open ByteMem

def uadd (w a b : Nat) : Nat := (a + b) % 2 ^ w

def usub (w a b : Nat) : Nat := (a + (2 ^ w - b % 2 ^ w)) % 2 ^ w

theorem uadd_of_lt {w a b : Nat} (small : a + b < 2 ^ w) : uadd w a b = a + b := Nat.mod_eq_of_lt small

theorem usub_of_le {w a b : Nat} (small : a < 2 ^ w) (le : b ≤ a) : usub w a b = a - b := by
  rw [usub, Nat.mod_eq_of_lt (a := b) (by omega), show a + (2 ^ w - b) = (a - b) + 2 ^ w by omega,
    Nat.add_mod_right, Nat.mod_eq_of_lt (by omega)]

/-- A value of type `int`, converted to a 64-bit unsigned type. -/
def intToU64 (n : Nat) : Nat :=
  let low := n % 2 ^ 32
  if low < 2 ^ 31 then low else low + (2 ^ 64 - 2 ^ 32)

/-- A 64-bit unsigned value, converted to an `int`. -/
def u64ToInt (n : Nat) : Int :=
  let low : Nat := n % 2 ^ 32
  if low < 2 ^ 31 then (low : Int) else (low : Int) - 2 ^ 32

def alignUp (w value boundary : Nat) : Nat := uadd w value (boundary - 1) / boundary * boundary

theorem alignUp_one {w value : Nat} (small : value < 2 ^ w) : alignUp w value 1 = value := by
  simp [alignUp, uadd, Nat.mod_eq_of_lt small]

theorem alignUp_bounds {w value boundary : Nat} (positive : 0 < boundary) (small : value + (boundary - 1) < 2 ^ w) :
    boundary ∣ alignUp w value boundary ∧ value ≤ alignUp w value boundary ∧
      alignUp w value boundary < value + boundary := by
  have below := Nat.div_mul_le_self (value + (boundary - 1)) boundary
  have above := Nat.lt_div_mul_add (a := value + (boundary - 1)) positive
  rw [alignUp, uadd_of_lt small]
  exact ⟨Nat.dvd_mul_left _ _, by omega, by omega⟩

/-- Wrapping round leaves less than one boundary, and so nothing. -/
theorem alignUp_small {w value boundary : Nat} (fits : value < 2 ^ w) (bounded : boundary < 2 ^ w)
    (nonzero : alignUp w value boundary ≠ 0) : value + (boundary - 1) < 2 ^ w := by
  by_contra wraps
  refine nonzero (Nat.mul_eq_zero.mpr (Or.inl (Nat.div_eq_of_lt ?_)))
  unfold uadd
  rw [show value + (boundary - 1) = value + (boundary - 1) - 2 ^ w + 2 ^ w by omega, Nat.add_mod_right,
    Nat.mod_eq_of_lt (by omega)]
  omega

theorem alignUp_eq_self {w value boundary : Nat} (positive : 0 < boundary) (small : value + (boundary - 1) < 2 ^ w) :
    alignUp w value boundary = value ↔ boundary ∣ value := by
  obtain ⟨divides, low, high⟩ := alignUp_bounds positive small
  constructor
  · intro same
    rw [same] at divides
    exact divides
  · intro whole
    have rest := Nat.dvd_sub divides whole
    have zero := Nat.eq_zero_of_dvd_of_lt rest (by omega)
    omega

def memset (m : Mem) (memtoset value : Nat) : Nat → Mem
  | 0 => m
  | i + 1 => Function.update (memset m memtoset value i) (memtoset + i) (UInt8.ofNat value)

theorem memset_apply (m : Mem) (memtoset value buffsize x : Nat) :
    memset m memtoset value buffsize x =
      if memtoset ≤ x ∧ x < memtoset + buffsize then UInt8.ofNat value else m x := by
  induction buffsize with
  | zero => rw [memset, if_neg (by omega)]
  | succ i ih =>
    rw [memset]
    by_cases here : x = memtoset + i
    · rw [here, Function.update_self, if_pos (by omega)]
    · rw [Function.update_of_ne here, ih]
      by_cases inside : memtoset ≤ x ∧ x < memtoset + i
      · rw [if_pos inside, if_pos (by omega)]
      · rw [if_neg inside, if_neg (by omega)]

/-- `memcpy`: `desta[i] = srca[i]` for `i` from 0 up to `n`, each byte read when it is copied. -/
def memcpy (m : Mem) (dest src : Nat) : Nat → Mem
  | 0 => m
  | i + 1 => Function.update (memcpy m dest src i) (dest + i) (memcpy m dest src i (src + i))

theorem memcpy_outside {m : Mem} {dest src n x : Nat} (outside : x < dest ∨ dest + n ≤ x) :
    memcpy m dest src n x = m x := by
  induction n with
  | zero => rfl
  | succ i ih => rw [memcpy, Function.update_of_ne (by omega), ih (by omega)]

/-- A copy to a place that does not start inside the source, behind its first byte. -/
theorem memcpy_inside {m : Mem} {dest src n i : Nat} (apart : dest ≤ src ∨ src + n ≤ dest) (below : i < n) :
    memcpy m dest src n (dest + i) = m (src + i) := by
  induction n with
  | zero => exact absurd below (Nat.not_lt_zero i)
  | succ n ih =>
    rw [memcpy]
    by_cases last : i = n
    · rw [last, Function.update_self, memcpy_outside (by omega)]
    · rw [Function.update_of_ne (by omega), ih (by omega) (by omega)]

/-- What is copied first stays, so it is enough that this part is apart. -/
theorem memcpy_first {m : Mem} {dest src n k i : Nat} (apart : dest ≤ src ∨ src + k ≤ dest) (upTo : k ≤ n) (below : i < k) :
    memcpy m dest src n (dest + i) = m (src + i) := by
  induction upTo with
  | refl => exact memcpy_inside apart below
  | step upTo ih =>
    have upTo : k ≤ _ := upTo
    rw [memcpy, Function.update_of_ne (by omega), ih]

end System14
