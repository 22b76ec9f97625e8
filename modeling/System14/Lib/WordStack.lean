import Mathlib.Algebra.Group.Nat.Defs
import Mathlib.Tactic.Common

/-!
# Stacks in word memory

Memory as 64-bit words at 64-bit addresses. `Holds m a ws` says that the words
`ws` lie one after the other from `a` upwards, so that a stack whose pointer is
`a` has `ws` on it, the top first. Addresses wrap; a stack that is shorter than
the address space has its words at different addresses all the same.
-/

namespace WordStack

abbrev Word := BitVec 64

abbrev Words := Word → Word

variable {m m' : Words} {a b w : Word} {ws : List Word}

/-- The words `ws` lie in memory from `a` upwards. -/
def Holds (m : Words) : Word → List Word → Prop
  | _, [] => True
  | a, w :: ws => m a = w ∧ Holds m (a + 8) ws

/-- `a` is the address of one of the `n` words from `b` upwards. -/
def Among (a b : Word) (n : Nat) : Prop := (a - b).toNat < 8 * n

instance (a b : Word) (n : Nat) : Decidable (Among a b n) := inferInstanceAs (Decidable (_ < _))

theorem among_self {n : Nat} (some : 0 < n) : Among a a n := by
  unfold Among
  rw [BitVec.sub_self]
  show 0 < 8 * n
  omega

theorem among_succ {n : Nat} (inside : Among a (b + 8) n) : Among a b (n + 1) := by
  unfold Among at *
  bv_omega

theorem not_among_above {n : Nat} (small : n < 2 ^ 60) : ¬ Among a (a + 8) n := by
  unfold Among
  bv_omega

theorem Holds.congr (holds : Holds m a ws) (small : ws.length < 2 ^ 60)
    (same : ∀ x, Among x a ws.length → m' x = m x) : Holds m' a ws := by
  induction ws generalizing a with
  | nil => trivial
  | cons w ws ih =>
    have shorter : ws.length < 2 ^ 60 := Nat.lt_of_succ_lt small
    refine ⟨(same a (among_self (Nat.succ_pos _))).trans holds.1, ih holds.2 shorter ?_⟩
    intro x inside
    exact same x (among_succ inside)

theorem Holds.push (holds : Holds m (a + 8) ws) (small : ws.length < 2 ^ 60) :
    Holds (Function.update m a w) a (w :: ws) := by
  refine ⟨Function.update_self _ _ _, holds.congr small ?_⟩
  intro x inside
  apply Function.update_of_ne
  intro same
  subst same
  exact not_among_above small inside

def write (m : Words) : Word → List Word → Words
  | _, [] => m
  | a, w :: ws => Function.update (write m (a + 8) ws) a w

theorem holds_write (m : Words) (a : Word) (small : ws.length < 2 ^ 60) : Holds (write m a ws) a ws := by
  induction ws generalizing a with
  | nil => trivial
  | cons w ws ih =>
    have shorter : ws.length < 2 ^ 60 := Nat.lt_of_succ_lt small
    exact (ih (a + 8) shorter).push shorter

end WordStack
