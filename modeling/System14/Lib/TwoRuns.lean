import System14.Lib.ByteMem
import System14.Lib.Run

/-!
# Two runs of the same code

`Both R x y` says of two computations that they return values related by `R`
or stop with the same error. It is proved along the code: `Both.bind` hands
on what the first run returned, so that what is known of one run alone can be
used on the way.

`AgreeOff D` relates two memories that differ at most in the bytes of `D`. Code
that writes the same words in both keeps it; code that reads outside `D` reads
the same words.
-/

namespace Run

variable {ι α β γ δ : Type} {R : α → β → Prop} {Q : γ → δ → Prop} {x : Except ι α} {y : Except ι β}

def Both (R : α → β → Prop) : Except ι α → Except ι β → Prop
  | .ok a, .ok b => R a b
  | .error e, .error e' => e' = e
  | _, _ => False

theorem Both.bind {f : α → Except ι γ} {g : β → Except ι δ} (both : Both R x y)
    (rest : ∀ a b, x = .ok a → R a b → Both Q (f a) (g b)) : Both Q (x >>= f) (y >>= g) := by
  cases x with
  | error e =>
    cases y with
    | error e' => exact both
    | ok b => exact both.elim
  | ok a =>
    cases y with
    | error e' => exact both.elim
    | ok b => exact rest a b rfl both

theorem Both.returned {a : α} (both : Both R x y) (value : x = .ok a) : ∃ b, y = .ok b ∧ R a b := by
  subst value
  cases y with
  | error e => exact both.elim
  | ok b => exact ⟨b, rfl, both⟩

end Run

namespace ByteMem

variable {D : Nat → Prop} {m m' : Mem}

/-- The memories differ at most in the bytes of `D`. -/
def AgreeOff (D : Nat → Prop) (m m' : Mem) : Prop := ∀ x, ¬ D x → m' x = m x

theorem AgreeOff.load {n a : Nat} (agree : AgreeOff D m m') (apart : ∀ x, a ≤ x → x < a + n → ¬ D x) :
    load n m' a = load n m a := load_congr fun x low high => agree x (apart x low high)

theorem AgreeOff.store (n a v : Nat) (agree : AgreeOff D m m') : AgreeOff D (store n m a v) (store n m' a v) := by
  intro x off
  by_cases inside : a ≤ x ∧ x < a + n
  · exact store_apply_of_mem inside.1 inside.2
  · rw [store_apply_of_not_mem (by omega), store_apply_of_not_mem (by omega)]
    exact agree x off

theorem AgreeOff.update (a : Nat) (v : UInt8) (agree : AgreeOff D m m') :
    AgreeOff D (Function.update m a v) (Function.update m' a v) := by
  intro x off
  by_cases here : x = a
  · rw [here, Function.update_self, Function.update_self]
  · rw [Function.update_of_ne here, Function.update_of_ne here]
    exact agree x off

end ByteMem
