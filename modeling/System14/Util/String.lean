import System14.Kernel.State

/-!
# Strings

`strcpy` and `strncmp` of `util/string.c`, on strings in memory that a zero byte
ends. `char` is signed, as on the target.
-/

namespace System14
open ByteMem

variable {m m' : Mem} {p q : Nat} {s t : List UInt8}

def charValue (c : UInt8) : Int := if c.toNat < 128 then c.toNat else c.toNat - 256

theorem charValue_inj {c d : UInt8} (same : charValue c = charValue d) : c = d := by
  have small := c.toNat_lt
  have small' := d.toNat_lt
  apply UInt8.toNat_inj.mp
  unfold charValue at same
  split at same <;> split at same <;> omega

/-- The loop of `strlen`. The length is an `int`. -/
def strlenLoop (m : Mem) (str : Nat) : Nat → Nat → Except Stop Nat
  | 0, _ => .error .outOfFuel
  | fuel + 1, i =>
    if m (str + i) ≠ 0 then
      if 2 ^ 31 ≤ i + 1 then .error .signedOverflow else strlenLoop m str fuel (i + 1)
    else .ok i

def strlen (fuel str : Nat) (m : Mem) : Except Stop Nat := strlenLoop m str fuel 0

def strcpyLoop (dest src : Nat) : Nat → Nat → Mem → Except Stop Mem
  | 0, _, _ => .error .outOfFuel
  | fuel + 1, i, m =>
    if m (src + i) ≠ 0 then strcpyLoop dest src fuel (i + 1) (Function.update m (dest + i) (m (src + i)))
    else .ok (Function.update m (dest + i) 0)

def strcpy (fuel dest src : Nat) (m : Mem) : Except Stop Mem := strcpyLoop dest src fuel 0 m

/-- `strncmp`, with the number of characters left to compare. -/
def strncmp (m : Mem) (str1 str2 : Nat) : Nat → Int
  | 0 => 0
  | n + 1 =>
    if m str1 ≠ 0 ∧ m str1 = m str2 then strncmp m (str1 + 1) (str2 + 1) n
    else charValue (m str1) - charValue (m str2)

def CString (m : Mem) : Nat → List UInt8 → Prop
  | p, [] => m p = 0
  | p, c :: s => m p = c ∧ c ≠ 0 ∧ CString m (p + 1) s

instance CString.decidable (m : Mem) : (p : Nat) → (s : List UInt8) → Decidable (CString m p s)
  | p, [] => inferInstanceAs (Decidable (m p = 0))
  | p, c :: s =>
    have := CString.decidable m (p + 1) s
    inferInstanceAs (Decidable (m p = c ∧ c ≠ 0 ∧ CString m (p + 1) s))

theorem CString.congr (string : CString m p s) (same : ∀ x, p ≤ x → x ≤ p + s.length → m' x = m x) :
    CString m' p s := by
  induction s generalizing p with
  | nil => exact (same p (by omega) (by simp)).trans string
  | cons c s ih =>
    obtain ⟨first, nonzero, rest⟩ := string
    rw [List.length_cons] at same
    exact ⟨(same p (by omega) (by omega)).trans first, nonzero, ih rest fun x low high => same x (by omega) (by omega)⟩

theorem CString.unique (one : CString m p s) (two : CString m p t) : s = t := by
  induction s generalizing p t with
  | nil =>
    cases t with
    | nil => rfl
    | cons d t =>
      obtain ⟨first, nonzero, _⟩ := two
      exact absurd (first.symm.trans one) nonzero
  | cons c s ih =>
    obtain ⟨first, nonzero, rest⟩ := one
    cases t with
    | nil => exact absurd (first.symm.trans two) nonzero
    | cons d t =>
      obtain ⟨first', _, rest'⟩ := two
      rw [ih rest rest', first.symm.trans first']

theorem CString.getD {i : Nat} (string : CString m p s) (upTo : i ≤ s.length) (d : UInt8) :
    m (p + i) = (s ++ [0]).getD i d := by
  induction s generalizing p i with
  | nil =>
    have zero : i = 0 := Nat.le_zero.mp upTo
    rw [zero]
    exact string
  | cons c s ih =>
    obtain ⟨first, _, rest⟩ := string
    cases i with
    | zero => exact first
    | succ i =>
      have later := ih (i := i) rest (Nat.le_of_succ_le_succ upTo)
      rw [Nat.add_assoc, Nat.add_comm 1] at later
      exact later

theorem CString.ne_zero {i : Nat} (string : CString m p s) (below : i < s.length) : m (p + i) ≠ 0 := by
  induction s generalizing p i with
  | nil => exact absurd below (Nat.not_lt_zero i)
  | cons c s ih =>
    obtain ⟨first, nonzero, rest⟩ := string
    cases i with
    | zero => exact first ▸ nonzero
    | succ i =>
      rw [show p + (i + 1) = p + 1 + i by omega]
      exact ih rest (Nat.lt_of_succ_lt_succ below)

theorem cstring_before {a b : Nat} (below : a ≤ b) (ended : m b = 0) :
    ∃ name, CString m a name ∧ a + name.length ≤ b := by
  obtain ⟨k, rfl⟩ := Nat.exists_eq_add_of_le below
  induction k generalizing a with
  | zero => exact ⟨[], ended, Nat.le_refl _⟩
  | succ k ih =>
    by_cases first : m a = 0
    · exact ⟨[], first, below⟩
    · obtain ⟨name, string, short⟩ := ih (a := a + 1) (by omega) (by rw [show a + 1 + k = a + (k + 1) by omega]; exact ended)
      refine ⟨m a :: name, ⟨rfl, first, string⟩, ?_⟩
      rw [List.length_cons]
      omega

theorem strlenLoop_spec {fuel i : Nat} (string : CString m (p + i) s) (small : i + s.length < 2 ^ 31)
    (enough : s.length < fuel) : strlenLoop m p fuel i = .ok (i + s.length) := by
  induction s generalizing fuel i with
  | nil =>
    obtain ⟨fuel, rfl⟩ := Nat.exists_eq_add_one.mpr enough
    have ended : m (p + i) = 0 := string
    rw [strlenLoop, if_neg (not_not.mpr ended)]
    rfl
  | cons c s ih =>
    rw [List.length_cons] at small enough ⊢
    obtain ⟨fuel, rfl⟩ := Nat.exists_eq_add_one.mpr (Nat.zero_lt_of_lt enough)
    obtain ⟨first, nonzero, rest⟩ := string
    rw [strlenLoop, first, if_pos nonzero, if_neg (by omega), ih rest (by omega) (by omega), Nat.add_right_comm]
    rfl

/-- A length that is no `int` is never returned. -/
theorem strlenLoop_ok {fuel i n : Nat} (string : CString m (p + i) s) (int : i < 2 ^ 31)
    (call : strlenLoop m p fuel i = .ok n) : n = i + s.length ∧ n < 2 ^ 31 := by
  induction fuel generalizing i s with
  | zero => cases call
  | succ fuel ih =>
    rw [strlenLoop] at call
    cases s with
    | nil =>
      have ended : m (p + i) = 0 := string
      rw [if_neg (not_not.mpr ended)] at call
      cases call
      exact ⟨rfl, int⟩
    | cons c s =>
      obtain ⟨first, nonzero, rest⟩ := string
      rw [first, if_pos nonzero] at call
      split at call
      · cases call
      · have := ih rest (by omega) call
        rw [List.length_cons]
        omega

theorem strcpyLoop_spec {dest src i : Nat} (string : CString m (src + i) s)
    (apart : dest + i + s.length < src + i ∨ src + i + s.length < dest + i) :
    ∃ m', (∀ fuel > s.length, strcpyLoop dest src fuel i m = .ok m') ∧ CString m' (dest + i) s ∧
      ∀ x, x < dest + i ∨ dest + i + s.length < x → m' x = m x := by
  induction s generalizing i m with
  | nil =>
    have ended : m (src + i) = 0 := string
    refine ⟨Function.update m (dest + i) 0, ?_, Function.update_self _ _ _, ?_⟩
    · intro fuel enough
      obtain ⟨fuel, rfl⟩ := Nat.exists_eq_add_one.mpr enough
      rw [strcpyLoop, if_neg (not_not.mpr ended)]
    · intro x outside
      rw [List.length_nil] at outside
      exact Function.update_of_ne (by omega) _ _
  | cons c s ih =>
    obtain ⟨first, nonzero, rest⟩ := string
    rw [List.length_cons] at apart
    have still : CString (Function.update m (dest + i) c) (src + (i + 1)) s :=
      rest.congr fun x low high => Function.update_of_ne (by omega) _ _
    obtain ⟨m', run, copied, kept⟩ := ih still (by omega)
    refine ⟨m', ?_, ⟨?_, nonzero, copied⟩, ?_⟩
    · intro fuel enough
      rw [List.length_cons] at enough
      obtain ⟨fuel, rfl⟩ := Nat.exists_eq_add_one.mpr (Nat.zero_lt_of_lt enough)
      rw [strcpyLoop, first, if_pos nonzero, run fuel (by omega)]
    · rw [kept _ (by omega), Function.update_self]
    · intro x outside
      rw [List.length_cons] at outside
      rw [kept x (by omega), Function.update_of_ne (by omega)]

theorem strcpy_spec (dest : Nat) {src : Nat} (string : CString m src s)
    (apart : dest + s.length < src ∨ src + s.length < dest) :
    ∃ m', (∀ fuel > s.length, strcpy fuel dest src m = .ok m') ∧ CString m' dest s ∧
      ∀ x, x < dest ∨ dest + s.length < x → m' x = m x :=
  strcpyLoop_spec (i := 0) string apart

/-! ### The bytes that are written -/

/-- The addresses that `strcpyLoop` writes, in order. -/
def strcpyStores (dest src : Nat) : Nat → Nat → Mem → List Nat
  | 0, _, _ => []
  | fuel + 1, i, m =>
    if m (src + i) ≠ 0 then
      (dest + i) :: strcpyStores dest src fuel (i + 1) (Function.update m (dest + i) (m (src + i)))
    else [dest + i]

theorem strcpyLoop_unwritten {dest src fuel i x : Nat} (call : strcpyLoop dest src fuel i m = .ok m')
    (unwritten : x ∉ strcpyStores dest src fuel i m) : m' x = m x := by
  induction fuel generalizing i m with
  | zero => cases call
  | succ fuel ih =>
    rw [strcpyLoop] at call
    rw [strcpyStores] at unwritten
    split at call
    · rw [if_pos ‹_›, List.mem_cons, not_or] at unwritten
      rw [ih call unwritten.2, Function.update_of_ne unwritten.1]
    · rw [if_neg ‹_›, List.mem_singleton] at unwritten
      cases call
      exact Function.update_of_ne unwritten _ _

/-- A string is copied with its terminator, and nothing else is written. -/
theorem strcpyStores_string {dest src fuel i x : Nat} (string : CString m (src + i) s)
    (apart : dest + i + s.length < src + i ∨ src + i + s.length < dest + i)
    (written : x ∈ strcpyStores dest src fuel i m) : dest + i ≤ x ∧ x ≤ dest + i + s.length := by
  induction s generalizing i m fuel with
  | nil =>
    have ended : m (src + i) = 0 := string
    cases fuel with
    | zero => cases written
    | succ fuel =>
      rw [strcpyStores, if_neg (not_not.mpr ended), List.mem_singleton] at written
      simp only [List.length_nil]
      omega
  | cons c s ih =>
    obtain ⟨first, nonzero, rest⟩ := string
    rw [List.length_cons] at apart ⊢
    cases fuel with
    | zero => cases written
    | succ fuel =>
      rw [strcpyStores, first, if_pos nonzero] at written
      rcases List.mem_cons.mp written with rfl | later
      · omega
      · have still : CString (Function.update m (dest + i) c) (src + (i + 1)) s :=
          rest.congr fun x low high => Function.update_of_ne (by omega) _ _
        have := ih still (by omega) later
        omega

/-- As long as the source goes on, so does the copy. -/
theorem strcpyStores_reach (dest : Nat) {src fuel i k : Nat} (more : ∀ j < k, m (src + i + j) ≠ 0)
    (apart : dest + i + k ≤ src + i ∨ src + i + k ≤ dest + i) (enough : k < fuel) :
    dest + i + k ∈ strcpyStores dest src fuel i m := by
  induction k generalizing i m fuel with
  | zero =>
    obtain ⟨fuel, rfl⟩ := Nat.exists_eq_add_one.mpr enough
    rw [strcpyStores]
    split
    · exact List.mem_cons_self
    · exact List.mem_cons_self
  | succ k ih =>
    obtain ⟨fuel, rfl⟩ := Nat.exists_eq_add_one.mpr (Nat.zero_lt_of_lt enough)
    have first : m (src + i) ≠ 0 := more 0 (by omega)
    rw [strcpyStores, if_pos first]
    apply List.mem_cons_of_mem
    rw [show dest + i + (k + 1) = dest + (i + 1) + k by omega]
    refine ih (fun j below => ?_) (by omega) (by omega)
    rw [Function.update_of_ne (by omega), show src + (i + 1) + j = src + i + (j + 1) by omega]
    exact more (j + 1) (by omega)

end System14
