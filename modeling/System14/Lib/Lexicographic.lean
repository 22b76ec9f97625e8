import Mathlib.Data.Int.Basic
import Mathlib.Tactic.Common

/-!
# The first difference of two sequences

`difference value s t` compares two sequences at the first place where they
differ, by the values of the elements there. It is 0 when one of them continues
the other. Sequences that end in an element they have nowhere else never
continue one another, so for them 0 means that they are equal.
-/

namespace Lexicographic

variable {α : Type} [DecidableEq α] {value : α → Int} {s t u : List α} {z : α} {n : Nat}

def difference (value : α → Int) : List α → List α → Int
  | a :: s, b :: t => if a = b then difference value s t else value a - value b
  | _, _ => 0

theorem difference_nil (s : List α) : difference value s [] = 0 := by
  cases s <;> rfl

theorem difference_swap (s t : List α) : difference value t s = -difference value s t := by
  induction s generalizing t with
  | nil => rw [difference_nil]; rfl
  | cons a s ih =>
    cases t with
    | nil => rfl
    | cons b t =>
      rw [difference, difference]
      by_cases same : a = b
      · rw [if_pos same, if_pos same.symm, ih]
      · rw [if_neg same, if_neg (Ne.symm same)]
        omega

/-- The place where `s` differs from `u` is the first of the two where `t`
differs from them. -/
theorem difference_trans (first : difference value s t < 0) (second : difference value t u < 0) :
    difference value s u < 0 := by
  induction s generalizing t u with
  | nil => exact absurd first (Int.lt_irrefl 0)
  | cons a s ih =>
    cases t with
    | nil => exact absurd first (Int.lt_irrefl 0)
    | cons b t =>
      cases u with
      | nil => exact absurd second (Int.lt_irrefl 0)
      | cons c u =>
        rw [difference] at first second ⊢
        by_cases left : a = b
        · subst left
          rw [if_pos rfl] at first
          by_cases right : a = c
          · rw [if_pos right] at second ⊢
            exact ih first second
          · rw [if_neg right] at second ⊢
            exact second
        · rw [if_neg left] at first
          by_cases right : b = c
          · subst right
            rw [if_neg left]
            exact first
          · rw [if_neg right] at second
            have apart : a ≠ c := fun same => by
              subst same
              omega
            rw [if_neg apart]
            omega

/-- Behind the end of one sequence the other one does not matter. -/
theorem difference_take (long : s.length ≤ n) : difference value s (t.take n) = difference value s t := by
  induction s generalizing t n with
  | nil => rfl
  | cons a s ih =>
    rw [List.length_cons] at long
    obtain ⟨n, rfl⟩ := Nat.exists_eq_add_one.mpr (Nat.zero_lt_of_lt long)
    cases t with
    | nil => rfl
    | cons b t => rw [List.take_succ_cons, difference, difference, ih (Nat.le_of_succ_le_succ long)]

/-- Two sequences that `z` ends, compared in their first `n` places. -/
theorem difference_terminated (injective : Function.Injective value) (free : z ∉ s) (free' : z ∉ t) :
    difference value ((s ++ [z]).take n) ((t ++ [z]).take n) = 0 ↔ s.take n = t.take n := by
  have differ : ∀ a b, value a - value b = 0 ↔ a = b := fun a b =>
    ⟨fun zero => injective (by omega), fun same => by rw [same]; omega⟩
  induction n generalizing s t with
  | zero => simp [difference]
  | succ n ih =>
    cases s with
    | nil =>
      cases t with
      | nil => simp [difference]
      | cons b t =>
        have other : z ≠ b := fun same => free' (same ▸ List.mem_cons_self)
        simp [difference, other, differ]
    | cons a s =>
      have other : a ≠ z := fun same => free (same ▸ List.mem_cons_self)
      cases t with
      | nil => simp [difference, other, differ]
      | cons b t =>
        have later := ih (fun member => free (List.mem_cons_of_mem _ member)) fun member =>
          free' (List.mem_cons_of_mem _ member)
        rw [List.cons_append, List.cons_append, List.take_succ_cons, List.take_succ_cons, List.take_succ_cons,
          List.take_succ_cons, List.cons.injEq, difference]
        by_cases same : a = b
        · rw [if_pos same]
          exact later.trans (and_iff_right same).symm
        · rw [if_neg same, differ]
          exact iff_of_false same fun both => same both.1

end Lexicographic
