import Mathlib.Data.List.Induction
import Mathlib.Data.Nat.Digits.Lemmas
import Mathlib.Tactic.Common

/-!
# Positional numerals

A numeral is a text of digits, the most significant first. `digit` says which
characters are digits and of what value, `char` how a digit is written. The
digits of a number, written down, are its numeral: their value is the number,
and the first of them is not zero.
-/

namespace Numeral

variable {α : Type} {base n : Nat} {digit : α → Option Nat} {char : Nat → α} {text : List α} {c : α}

/-- The value of a text, if it has no characters but digits. -/
def value (base : Nat) (digit : α → Option Nat) (text : List α) : Option Nat :=
  text.foldlM (fun n c => (digit c).map (base * n + ·)) 0

/-- The text is the numeral of `n`: only zero is written with a leading zero. -/
structure IsNumeral (base : Nat) (digit : α → Option Nat) (n : Nat) (text : List α) : Prop where
  nonempty : text ≠ []
  value : value base digit text = some n
  leading : ∀ c rest, text = c :: rest → digit c = some 0 → rest = []

/-- The digits of `n` as they are written. Zero has none. -/
def digits (base : Nat) (char : Nat → α) (n : Nat) : List α := ((Nat.digits base n).map char).reverse

def numeral (base : Nat) (char : Nat → α) (n : Nat) : List α := if n = 0 then [char 0] else digits base char n

theorem digits_zero : digits base char 0 = [] := by
  unfold digits
  rw [Nat.digits_zero]
  rfl

theorem value_concat : value base digit (text ++ [c]) =
    (value base digit text).bind fun n => (digit c).map (base * n + ·) := by
  unfold value
  rw [List.foldlM_append]
  simp only [List.foldlM_cons, List.foldlM_nil]
  cases text.foldlM (fun n c => (digit c).map (base * n + ·)) 0 with
  | none => rfl
  | some n => cases digit c <;> rfl

/-- A numeral of `k` digits is below `base ^ k`. -/
theorem value_lt (small : ∀ c d, digit c = some d → d < base) (here : value base digit text = some n) :
    n < base ^ text.length := by
  induction text using List.reverseRecOn generalizing n with
  | nil =>
    cases here
    exact Nat.one_pos
  | append_singleton text c ih =>
    rw [value_concat, Option.bind_eq_some_iff] at here
    obtain ⟨k, before, here⟩ := here
    obtain ⟨d, last, rfl⟩ := Option.map_eq_some_iff.mp here
    have below := ih before
    have top := small c d last
    rw [List.length_append, List.length_singleton, Nat.pow_succ]
    calc base * k + d < base * k + base := Nat.add_lt_add_left top _
      _ = (k + 1) * base := by rw [Nat.add_mul, Nat.one_mul, Nat.mul_comm]
      _ ≤ base ^ text.length * base := Nat.mul_le_mul_right _ below

section Digits

variable (large : 1 < base)
include large

theorem digits_step (positive : 0 < n) : digits base char n = digits base char (n / base) ++ [char (n % base)] := by
  unfold digits
  rw [Nat.digits_def' large positive, List.map_cons, List.reverse_cons]

theorem digits_length_le {k : Nat} (few : n < base ^ k) : (digits base char n).length ≤ k := by
  unfold digits
  rw [List.length_reverse, List.length_map]
  exact (Nat.digits_length_le_iff large n).mpr few

variable (reads : ∀ d < base, digit (char d) = some d)
include reads

theorem digits_value : value base digit (digits base char n) = some n := by
  induction n using Nat.strong_induction_on with
  | _ n ih =>
    rcases Nat.eq_zero_or_pos n with rfl | positive
    · rw [digits_zero]
      rfl
    · have last := reads _ (Nat.mod_lt n (Nat.zero_lt_of_lt large))
      rw [digits_step large positive, value_concat, ih _ (Nat.div_lt_self positive large), last]
      exact congrArg some (Nat.div_add_mod n base)

theorem digits_leading {rest : List α} (here : digits base char n = c :: rest) : digit c ≠ some 0 := by
  induction n using Nat.strong_induction_on generalizing c rest with
  | _ n ih =>
    rcases Nat.eq_zero_or_pos n with rfl | positive
    · rw [digits_zero] at here
      cases here
    · rw [digits_step large positive] at here
      cases top : digits base char (n / base) with
      | nil =>
        rw [top] at here
        cases here
        rw [reads _ (Nat.mod_lt n (Nat.zero_lt_of_lt large))]
        intro zero
        have none : n / base = 0 := by
          by_contra some
          have step : digits base char (n / base) = _ := digits_step large (Nat.pos_of_ne_zero some)
          rw [top] at step
          exact List.append_ne_nil_of_right_ne_nil _ (List.cons_ne_nil _ _) step.symm
        have := Nat.div_add_mod n base
        rw [none, Option.some.inj zero] at this
        omega
      | cons d more =>
        rw [top, List.cons_append, List.cons.injEq] at here
        rw [← here.1]
        exact ih _ (Nat.div_lt_self positive large) top

theorem isNumeral_numeral : IsNumeral base digit n (numeral base char n) := by
  unfold numeral
  by_cases zero : n = 0
  · rw [if_pos zero, zero]
    refine ⟨List.cons_ne_nil _ _, ?_, fun c rest here _ => ?_⟩
    · unfold value
      rw [List.foldlM_cons, reads 0 (Nat.zero_lt_of_lt large)]
      rfl
    · exact (List.cons.inj here).2.symm
  · rw [if_neg zero]
    refine ⟨?_, digits_value large reads, fun c rest here first => absurd first (digits_leading large reads here)⟩
    rw [digits_step large (Nat.pos_of_ne_zero zero)]
    exact List.append_ne_nil_of_right_ne_nil _ (List.cons_ne_nil _ _)

end Digits

end Numeral
