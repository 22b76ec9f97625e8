import Mathlib.Algebra.Group.Nat.Defs
import Mathlib.Data.List.Nodup

/-!
# Linked chains

`Linked next nil p l` says that following `next` from `p` visits exactly the
nodes of `l`, in order, and then stops at `nil`. A chain is determined by its
first pointer, so it never repeats a node, and it only depends on `next` at its
own nodes.
-/

namespace Chain

variable {α : Type} {next next' : α → α} {nil p q a b : α} {l l' pre post : List α}

/-- Following `next` from `p` visits the nodes `l` and then reaches `nil`. -/
def Linked (next : α → α) (nil : α) : α → List α → Prop
  | p, [] => p = nil
  | p, a :: l => p = a ∧ a ≠ nil ∧ Linked next nil (next a) l

theorem linked_unique (h : Linked next nil p l) (h' : Linked next nil p l') : l = l' := by
  induction l generalizing p l' with
  | nil =>
    cases l' with
    | nil => rfl
    | cons b l' => exact absurd (h'.1.symm.trans h) h'.2.1
  | cons a l ih =>
    cases l' with
    | nil => exact absurd (h.1.symm.trans h') h.2.1
    | cons b l' =>
      obtain ⟨rfl, _, rest⟩ := h
      obtain ⟨rfl, _, rest'⟩ := h'
      rw [ih rest rest']

theorem linked_head (h : Linked next nil p l) : p = nil ∨ p ∈ l := by
  cases l with
  | nil => exact Or.inl h
  | cons a l => exact Or.inr (h.1 ▸ List.mem_cons_self)

theorem linked_after (h : Linked next nil p (pre ++ a :: l)) : Linked next nil (next a) l := by
  induction pre generalizing p with
  | nil => exact h.2.2
  | cons b pre ih => exact ih h.2.2

theorem linked_ne_nil (h : Linked next nil p l) (member : a ∈ l) : a ≠ nil := by
  induction l generalizing p with
  | nil => cases member
  | cons b l ih =>
    rcases List.mem_cons.mp member with rfl | member
    · exact h.2.1
    · exact ih h.2.2 member

theorem linked_next_ne (h : Linked next nil p (a :: l)) : next a ≠ a := by
  intro loop
  have rest := h.2.2
  rw [loop, ← h.1] at rest
  have := congrArg List.length (linked_unique rest h)
  simp at this

theorem linked_nodup (h : Linked next nil p l) : l.Nodup := by
  induction l generalizing p with
  | nil => exact List.nodup_nil
  | cons a l ih =>
    refine List.nodup_cons.mpr ⟨fun member => ?_, ih h.2.2⟩
    obtain ⟨pre, post, rfl⟩ := List.append_of_mem member
    -- Both occurrences of `a` have the same continuation, so one suffix equals its own tail.
    have same := linked_unique h.2.2 (linked_after h.2.2)
    have := congrArg List.length same
    simp at this
    omega

theorem linked_congr (h : Linked next nil p l) (same : ∀ x ∈ l, next' x = next x) :
    Linked next' nil p l := by
  induction l generalizing p with
  | nil => exact h
  | cons a l ih =>
    refine ⟨h.1, h.2.1, ?_⟩
    rw [same a List.mem_cons_self]
    exact ih h.2.2 fun x member => same x (List.mem_cons_of_mem _ member)

theorem linked_push (h : Linked next nil q l) (fresh : p ≠ nil) (link : next' p = q)
    (same : ∀ x ∈ l, next' x = next x) : Linked next' nil p (p :: l) := by
  refine ⟨rfl, fresh, ?_⟩
  rw [link]
  exact linked_congr h same

theorem linked_unlink (h : Linked next nil p (pre ++ a :: b :: post)) (link : next' a = next b)
    (before : ∀ x ∈ pre, next' x = next x) (behind : ∀ x ∈ post, next' x = next x) :
    Linked next' nil p (pre ++ a :: post) := by
  induction pre generalizing p with
  | nil =>
    refine ⟨h.1, h.2.1, ?_⟩
    rw [link]
    exact linked_congr h.2.2.2.2 behind
  | cons c pre ih =>
    refine ⟨h.1, h.2.1, ?_⟩
    rw [before c List.mem_cons_self]
    exact ih h.2.2 fun x member => before x (List.mem_cons_of_mem _ member)

theorem linked_nil_iff (h : Linked next nil p l) : p = nil ↔ l = [] := by
  cases l with
  | nil => exact ⟨fun _ => rfl, fun _ => h⟩
  | cons a l => exact ⟨fun e => absurd (h.1.symm.trans e) h.2.1, fun e => by cases e⟩

/-! ### The nodes in turn -/

section Walk

variable [DecidableEq α] {k : Nat}

/-- The node that `k` steps from `p` lead to; a walk that has reached `nil` stays there. -/
def nth (next : α → α) (nil p : α) : Nat → α
  | 0 => p
  | k + 1 => if nth next nil p k = nil then nil else next (nth next nil p k)

theorem nth_nil (next : α → α) (nil : α) (k : Nat) : nth next nil nil k = nil := by
  induction k with
  | zero => rfl
  | succ k ih => rw [nth, if_pos ih]

theorem nth_next (start : p ≠ nil) (k : Nat) : nth next nil p (k + 1) = nth next nil (next p) k := by
  induction k with
  | zero => exact if_neg start
  | succ k ih => rw [nth, ih, nth]

theorem nth_congr (same : ∀ k, nth next nil p k ≠ nil → next' (nth next nil p k) = next (nth next nil p k)) (k : Nat) :
    nth next' nil p k = nth next nil p k := by
  induction k with
  | zero => rfl
  | succ k ih =>
    rw [nth, nth, ih]
    by_cases stop : nth next nil p k = nil
    · rw [if_pos stop, if_pos stop]
    · rw [if_neg stop, if_neg stop, same k stop]

theorem linked_nth_mem (h : Linked next nil p l) (inside : nth next nil p k ≠ nil) : nth next nil p k ∈ l := by
  induction l generalizing p k with
  | nil =>
    have stop : p = nil := h
    rw [stop, nth_nil] at inside
    exact absurd rfl inside
  | cons a l ih =>
    obtain ⟨rfl, start, rest⟩ := h
    cases k with
    | zero => exact List.mem_cons_self
    | succ k =>
      rw [nth_next start] at inside ⊢
      exact List.mem_cons_of_mem _ (ih rest inside)

theorem linked_mem_nth (h : Linked next nil p l) (member : a ∈ l) : ∃ k, nth next nil p k = a := by
  induction l generalizing p with
  | nil => cases member
  | cons b l ih =>
    obtain ⟨rfl, start, rest⟩ := h
    rcases List.mem_cons.mp member with rfl | member
    · exact ⟨0, rfl⟩
    · obtain ⟨k, here⟩ := ih rest member
      exact ⟨k + 1, (nth_next start k).trans here⟩

end Walk

end Chain
