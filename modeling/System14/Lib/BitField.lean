import Mathlib.Algebra.Group.Nat.Defs
import Mathlib.Tactic.Common

/-!
# Bit fields of a word

A bit field is `width` bits of a word from bit `lo` up. Assigning a field
changes no other field that does not overlap it.
-/

structure BitField where
  lo : Nat
  width : Nat
  deriving DecidableEq

namespace BitField

variable {f g : BitField} {w v n : Nat}

def get (f : BitField) (w : Nat) : Nat := w / 2 ^ f.lo % 2 ^ f.width

/-- Assign `v`, cut to the field's width. -/
def set (f : BitField) (w v : Nat) : Nat :=
  w % 2 ^ f.lo + 2 ^ f.lo * (v % 2 ^ f.width + 2 ^ f.width * (w / 2 ^ (f.lo + f.width)))

theorem set_div_lo : f.set w v / 2 ^ f.lo = v % 2 ^ f.width + 2 ^ f.width * (w / 2 ^ (f.lo + f.width)) := by
  have positive : 0 < 2 ^ f.lo := Nat.two_pow_pos _
  rw [set, Nat.add_mul_div_left _ _ positive, Nat.div_eq_of_lt (Nat.mod_lt _ positive), Nat.zero_add]

theorem set_div_hi : f.set w v / 2 ^ (f.lo + f.width) = w / 2 ^ (f.lo + f.width) := by
  have positive : 0 < 2 ^ f.width := Nat.two_pow_pos _
  rw [Nat.pow_add, ← Nat.div_div_eq_div_mul, set_div_lo, Nat.add_mul_div_left _ _ positive,
    Nat.div_eq_of_lt (Nat.mod_lt _ positive), Nat.zero_add, ← Nat.pow_add]

theorem set_mod_lo : f.set w v % 2 ^ f.lo = w % 2 ^ f.lo := by
  rw [set, Nat.add_mul_mod_self_left, Nat.mod_mod]

theorem set_mod : f.set w (v % 2 ^ f.width) = f.set w v := by
  unfold set
  rw [Nat.mod_mod]

theorem get_lt : f.get w < 2 ^ f.width := Nat.mod_lt _ (Nat.two_pow_pos _)

@[simp] theorem get_zero : f.get 0 = 0 := by simp [get]

@[simp] theorem get_set_same : f.get (f.set w v) = v % 2 ^ f.width := by
  rw [get, set_div_lo, Nat.add_mul_mod_self_left, Nat.mod_mod]

theorem get_eq_mod : f.get w = w % 2 ^ (f.lo + f.width) / 2 ^ f.lo := by
  rw [get, Nat.pow_add, Nat.mod_mul_right_div_self]

theorem get_set_of_apart (apart : g.lo + g.width ≤ f.lo ∨ f.lo + f.width ≤ g.lo) :
    g.get (f.set w v) = g.get w := by
  rcases apart with below | above
  · obtain ⟨k, gap⟩ := Nat.exists_eq_add_of_le below
    have low : f.set w v % 2 ^ (g.lo + g.width) = w % 2 ^ (g.lo + g.width) := by
      rw [← Nat.mod_mul_right_mod (f.set w v) _ (2 ^ k), ← Nat.mod_mul_right_mod w _ (2 ^ k), ← Nat.pow_add, ← gap,
        set_mod_lo]
    rw [get_eq_mod, get_eq_mod, low]
  · obtain ⟨k, gap⟩ := Nat.exists_eq_add_of_le above
    rw [get, get, gap, Nat.pow_add 2 (f.lo + f.width), ← Nat.div_div_eq_div_mul, ← Nat.div_div_eq_div_mul, set_div_hi]

theorem set_lt (small : w < 2 ^ n) (within : f.lo + f.width ≤ n) : f.set w v < 2 ^ n := by
  obtain ⟨k, gap⟩ := Nat.exists_eq_add_of_le within
  have high : f.set w v / 2 ^ (f.lo + f.width) < 2 ^ k := by
    rw [set_div_hi]
    apply Nat.div_lt_of_lt_mul
    rw [← Nat.pow_add, ← gap]
    exact small
  rw [gap, Nat.pow_add, Nat.mul_comm]
  exact (Nat.div_lt_iff_lt_mul (Nat.two_pow_pos _)).mp high

end BitField
