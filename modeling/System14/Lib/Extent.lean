import Mathlib.Algebra.Group.Nat.Defs
import Mathlib.Data.List.Basic
import Mathlib.Data.List.Perm.Basic

/-!
# Address extents

An extent is a run of addresses. `Separate` lists hold extents that are
pairwise apart; they stay separate under reordering, when an extent shrinks and
when one extent is cut into two.
-/

/-- The addresses from `start` up to `start + len`. -/
structure Extent where
  start : Nat
  len : Nat

namespace Extent

variable {a b c : Extent} {l l' : List Extent} {x : Nat}

def Has (a : Extent) (x : Nat) : Prop := a.start ≤ x ∧ x < a.start + a.len

def Apart (a b : Extent) : Prop := a.start + a.len ≤ b.start ∨ b.start + b.len ≤ a.start

def Within (a b : Extent) : Prop := b.start ≤ a.start ∧ a.start + a.len ≤ b.start + b.len

theorem Apart.symm (h : Apart a b) : Apart b a := Or.symm h

theorem Within.apart (h : Within a b) (far : Apart b c) : Apart a c := by
  unfold Within Apart at *
  omega

theorem Within.has (h : Within a b) (member : a.Has x) : b.Has x := by
  unfold Within Has at *
  omega

theorem Apart.not_has (far : Apart a b) (member : a.Has x) : ¬ b.Has x := by
  unfold Apart Has at *
  omega

theorem apart_of_not_has (left : 0 < a.len) (right : 0 < b.len) (h : ∀ x, a.Has x → ¬ b.Has x) : Apart a b := by
  have first := h a.start
  have second := h b.start
  unfold Has at first second
  unfold Apart
  omega

/-- What is apart from two adjacent parts is apart from the whole. -/
theorem Apart.append {start k l : Nat} (left : Apart ⟨start, k⟩ c) (right : Apart ⟨start + k, l⟩ c) (some : 0 < c.len) :
    Apart ⟨start, k + l⟩ c := by
  simp only [Apart] at *
  omega

def Separate (l : List Extent) : Prop := l.Pairwise Apart

theorem separate_perm (perm : l.Perm l') : Separate l ↔ Separate l' :=
  perm.pairwise_iff fun h => h.symm

theorem separate_cons : Separate (a :: l) ↔ (∀ b ∈ l, Apart a b) ∧ Separate l := List.pairwise_cons

end Extent
