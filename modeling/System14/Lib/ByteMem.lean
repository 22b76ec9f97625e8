import Mathlib.Algebra.Group.Nat.Defs
import Mathlib.Logic.Function.Basic

/-!
# Byte-addressed memory

A memory maps addresses to bytes. `load n` and `store n` access `n` bytes in
little-endian order. Every lemma here is about single bytes or about the
`n`-byte word at an address, so a program that keeps its words apart never
looks at the bytes below them.
-/

namespace ByteMem

abbrev Mem := Nat → UInt8

/-- The `n`-byte little-endian word at `a`. -/
def load : Nat → Mem → Nat → Nat
  | 0, _, _ => 0
  | n + 1, m, a => (m a).toNat + 256 * load n m (a + 1)

/-- Write the low `n` bytes of `v` at `a`, lowest byte first. -/
def store : Nat → Mem → Nat → Nat → Mem
  | 0, m, _, _ => m
  | n + 1, m, a, v => store n (Function.update m a (UInt8.ofNat v)) (a + 1) (v / 256)

theorem load_lt (n : Nat) (m : Mem) (a : Nat) : load n m a < 256 ^ n := by
  induction n generalizing a with
  | zero => simp [load]
  | succ n ih =>
    have byte := (m a).toNat_lt
    have rest := ih (a + 1)
    rw [load, Nat.pow_succ]
    omega

theorem store_apply_of_not_mem {n : Nat} {m : Mem} {a v x : Nat} (outside : x < a ∨ a + n ≤ x) :
    store n m a v x = m x := by
  induction n generalizing m a v with
  | zero => rfl
  | succ n ih =>
    rw [store, ih (by omega)]
    exact Function.update_of_ne (by omega) _ _

theorem load_congr {n : Nat} {m m' : Mem} {a : Nat} (same : ∀ x, a ≤ x → x < a + n → m' x = m x) :
    load n m' a = load n m a := by
  induction n generalizing a with
  | zero => rfl
  | succ n ih =>
    rw [load, load, same a (by omega) (by omega), ih fun x low high => same x (by omega) (by omega)]

theorem load_store_of_apart {n k : Nat} {m : Mem} {a b v : Nat} (apart : a + n ≤ b ∨ b + k ≤ a) :
    load n (store k m b v) a = load n m a :=
  load_congr fun _ _ _ => store_apply_of_not_mem (by omega)

theorem load_store_same (n : Nat) (m : Mem) (a v : Nat) : load n (store n m a v) a = v % 256 ^ n := by
  induction n generalizing m a v with
  | zero => simp [load, Nat.mod_one]
  | succ n ih =>
    rw [load, store, ih, store_apply_of_not_mem (by omega), Function.update_self, UInt8.toNat_ofNat']
    have split : v % (256 * 256 ^ n) = v % 256 + 256 * (v / 256 % 256 ^ n) := Nat.mod_mul
    rw [show 256 ^ (n + 1) = 256 * 256 ^ n from Nat.pow_succ', split]

theorem store_apply_of_mem {n : Nat} {m m' : Mem} {a v x : Nat} (low : a ≤ x) (high : x < a + n) :
    store n m a v x = store n m' a v x := by
  induction n generalizing m m' a v with
  | zero => omega
  | succ n ih =>
    rw [store, store]
    by_cases here : x = a
    · subst x
      rw [store_apply_of_not_mem (by omega), store_apply_of_not_mem (by omega), Function.update_self,
        Function.update_self]
    · exact ih (by omega) (by omega)

theorem store_comm {n k : Nat} {m : Mem} {a b v w : Nat} (apart : a + n ≤ b ∨ b + k ≤ a) :
    store n (store k m b w) a v = store k (store n m a v) b w := by
  funext x
  by_cases inA : a ≤ x ∧ x < a + n
  · rw [store_apply_of_not_mem (n := k) (by omega)]
    exact store_apply_of_mem inA.1 inA.2
  · rw [store_apply_of_not_mem (n := n) (by omega)]
    by_cases inB : b ≤ x ∧ x < b + k
    · exact store_apply_of_mem inB.1 inB.2
    · rw [store_apply_of_not_mem (by omega), store_apply_of_not_mem (by omega), store_apply_of_not_mem (by omega)]

/-- A word determines its bytes. -/
theorem load_inj {n : Nat} {m m' : Mem} {a x : Nat} (same : load n m' a = load n m a) (low : a ≤ x) (high : x < a + n) :
    m' x = m x := by
  induction n generalizing a with
  | zero => omega
  | succ n ih =>
    rw [load, load] at same
    have byte := (m a).toNat_lt
    have byte' := (m' a).toNat_lt
    by_cases here : x = a
    · subst x
      exact UInt8.toNat_inj.mp (by omega)
    · have rest : load n m' (a + 1) = load n m (a + 1) := by omega
      exact ih rest (by omega) (by omega)

/-- Writing a word that is there already changes nothing. -/
theorem store_load (n : Nat) (m : Mem) (a : Nat) : store n m a (load n m a) = m := by
  funext x
  by_cases inside : a ≤ x ∧ x < a + n
  · have same : load n (store n m a (load n m a)) a = load n m a := by
      rw [load_store_same]
      exact Nat.mod_eq_of_lt (load_lt n m a)
    exact load_inj same inside.1 inside.2
  · exact store_apply_of_not_mem (by omega)

theorem load_of_zero {n : Nat} {m : Mem} {a : Nat} (zero : ∀ x, a ≤ x → x < a + n → m x = 0) :
    load n m a = 0 := by
  induction n generalizing a with
  | zero => rfl
  | succ n ih =>
    rw [load, zero a (by omega) (by omega), ih fun x low high => zero x (by omega) (by omega)]
    rfl

theorem store_zero {n : Nat} {m : Mem} {a x : Nat} (low : a ≤ x) (high : x < a + n) : store n m a 0 x = 0 := by
  induction n generalizing m a with
  | zero => omega
  | succ n ih =>
    rw [store, Nat.zero_div]
    by_cases here : x = a
    · rw [here, store_apply_of_not_mem (by omega), Function.update_self]
      rfl
    · exact ih (by omega) (by omega)

theorem load_succ (n : Nat) (m : Mem) (a : Nat) : load (n + 1) m a = (m a).toNat + 256 * load n m (a + 1) := rfl

theorem load_byte (m : Mem) (a : Nat) : load 1 m a = (m a).toNat := by
  rw [load_succ, load, Nat.mul_zero, Nat.add_zero]

theorem load_copy {n : Nat} {m m' : Mem} {a b : Nat} (same : ∀ i < n, m' (a + i) = m (b + i)) :
    load n m' a = load n m b := by
  induction n generalizing a b with
  | zero => rfl
  | succ n ih =>
    have rest : ∀ i < n, m' (a + 1 + i) = m (b + 1 + i) := fun i below => by
      rw [Nat.add_right_comm, Nat.add_right_comm b]
      exact same (i + 1) (by omega)
    rw [load, load, ih rest, show m' a = m b from same 0 (by omega)]

-- Comparing two loads by unfolding them never pays: the lemmas above are the interface.
attribute [irreducible] load store

end ByteMem
