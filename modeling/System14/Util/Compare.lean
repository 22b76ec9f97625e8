import System14.Lib.Lexicographic
import System14.Lib.Traced
import System14.Util.String

/-!
# Comparing strings

`strcmp` and `strncmp` of `util/string.c` go over two strings side by side, up
to the first difference or the end of both. On strings they are one comparison:
the difference of the characters, as signed values, at the first place where the
strings with their terminators differ.
-/

namespace System14
open ByteMem Traced Lexicographic

variable {m : Mem} {p q r n fuel : Nat} {s t u : List UInt8} {P : Nat → Prop}

/-! ### The two loops -/

/-- The traces record the addresses of the characters that are read. -/
abbrev CompareM := Traced Nat Stop

def readChar (m : Mem) (a : Nat) : CompareM UInt8 := do
  emit a
  return m a

/-- The test of both loops, `*str1 && (*str1 == *str2)`. -/
def sameChar (m : Mem) (str1 str2 : Nat) : CompareM Bool := do
  let c ← readChar m str1
  if c ≠ 0 then do
    let c ← readChar m str1
    let d ← readChar m str2
    return c = d
  else return false

/-- What both return behind their loop, `*str1 - *str2`. -/
def charDifference (m : Mem) (str1 str2 : Nat) : CompareM Int := do
  let c ← readChar m str1
  let d ← readChar m str2
  return charValue c - charValue d

def strcmp (m : Mem) : Nat → Nat → Nat → CompareM Int
  | 0, _, _ => stop .outOfFuel
  | fuel + 1, str1, str2 => do
    if ← sameChar m str1 str2 then strcmp m fuel (str1 + 1) (str2 + 1) else charDifference m str1 str2

/-- `strncmp` with the characters that it reads. The bound is tested before them. -/
def strncmpTraced (m : Mem) (str1 str2 : Nat) : Nat → CompareM Int
  | 0 => return 0
  | n + 1 => do
    if ← sameChar m str1 str2 then strncmpTraced m (str1 + 1) (str2 + 1) n else charDifference m str1 str2

theorem readChar_within {a : Nat} : Within P (readChar m a) (· = m a) ↔ P a := by
  unfold readChar
  rw [within_bind, within_emit, within_pure]
  exact and_iff_left rfl

theorem sameChar_within (first : P p) (second : m p ≠ 0 → P q) :
    Within P (sameChar m p q) (· = decide (m p ≠ 0 ∧ m p = m q)) := by
  unfold sameChar
  rw [within_bind]
  refine (readChar_within.mpr first).mono fun c here => ?_
  subst here
  by_cases ended : m p = 0
  · rw [if_neg (not_not.mpr ended), within_pure]
    simp [ended]
  · rw [if_pos ended, within_bind]
    refine (readChar_within.mpr first).mono fun c here => ?_
    rw [within_bind]
    refine (readChar_within.mpr (second ended)).mono fun d here' => ?_
    rw [within_pure, here, here']
    simp [ended]

theorem charDifference_within (first : P p) (second : P q) :
    Within P (charDifference m p q) (· = charValue (m p) - charValue (m q)) := by
  unfold charDifference
  rw [within_bind]
  refine (readChar_within.mpr first).mono fun c here => ?_
  rw [within_bind]
  refine (readChar_within.mpr second).mono fun d here' => ?_
  rw [within_pure, here, here']

/-! ### The characters that are read -/

/-- The first `n` characters of the strings, as far as both reach, with the
first terminator. -/
def InBoth (p q n : Nat) (s t : List UInt8) (x : Nat) : Prop :=
  ∃ i < n, i ≤ s.length ∧ i ≤ t.length ∧ (x = p + i ∨ x = q + i)

theorem InBoth.next {c d : UInt8} {x : Nat} (inside : InBoth (p + 1) (q + 1) n s t x) :
    InBoth p q (n + 1) (c :: s) (d :: t) x := by
  obtain ⟨i, below, first, second, here⟩ := inside
  refine ⟨i + 1, Nat.succ_lt_succ below, Nat.succ_le_succ first, Nat.succ_le_succ second, ?_⟩
  omega

theorem strncmpTraced_within (one : CString m p s) (two : CString m q t) :
    Within (InBoth p q n s t) (strncmpTraced m p q n) (· = strncmp m p q n) := by
  induction n generalizing p q s t with
  | zero => exact within_pure.mpr rfl
  | succ n ih =>
    have first : InBoth p q (n + 1) s t p := ⟨0, Nat.succ_pos n, Nat.zero_le _, Nat.zero_le _, Or.inl rfl⟩
    have second : InBoth p q (n + 1) s t q := ⟨0, Nat.succ_pos n, Nat.zero_le _, Nat.zero_le _, Or.inr rfl⟩
    rw [strncmpTraced, strncmp, within_bind]
    refine (sameChar_within first fun _ => second).mono fun same here => ?_
    by_cases both : m p ≠ 0 ∧ m p = m q
    · rw [here, decide_eq_true both, if_pos rfl, if_pos both]
      cases s with
      | nil => exact absurd one both.1
      | cons c s =>
        cases t with
        | nil => exact absurd (both.2.trans two) both.1
        | cons d t => exact (ih one.2.2 two.2.2).weaken fun x inside => inside.next
    · rw [here, decide_eq_false both, if_neg Bool.false_ne_true, if_neg both]
      exact charDifference_within first second

/-- With more characters allowed than the first string has, the bound is never met. -/
theorem strcmp_eq_strncmp (one : CString m p s) (long : s.length < n) (enough : s.length < fuel) :
    strcmp m fuel p q = strncmpTraced m p q n := by
  induction s generalizing p q n fuel with
  | nil =>
    obtain ⟨n, rfl⟩ := Nat.exists_eq_add_one.mpr long
    obtain ⟨fuel, rfl⟩ := Nat.exists_eq_add_one.mpr enough
    have ended : m p = 0 := one
    rw [strcmp, strncmpTraced]
    refine Within.bind_congr (P := fun _ => True) ((sameChar_within trivial fun _ => trivial).mono fun same here => ?_)
    rw [here, decide_eq_false fun both => both.1 ended]
    rfl
  | cons c s ih =>
    rw [List.length_cons] at long enough
    obtain ⟨n, rfl⟩ := Nat.exists_eq_add_one.mpr (Nat.zero_lt_of_lt long)
    obtain ⟨fuel, rfl⟩ := Nat.exists_eq_add_one.mpr (Nat.zero_lt_of_lt enough)
    rw [strcmp, strncmpTraced, ih one.2.2 (Nat.lt_of_succ_lt_succ long) (Nat.lt_of_succ_lt_succ enough)]

/-! ### The order of strings -/

theorem CString.nonzero (string : CString m p s) : 0 ∉ s := by
  induction s generalizing p with
  | nil => exact List.not_mem_nil
  | cons c s ih =>
    obtain ⟨_, nonzero, rest⟩ := string
    rw [List.mem_cons, not_or]
    exact ⟨nonzero.symm, ih rest⟩

theorem CString.first (string : CString m p s) : m p = (s ++ [0]).headD 0 := by
  cases s with
  | nil => exact string
  | cons c s => exact string.1

/-- `strncmp` gives the first difference of the strings with their terminators. -/
theorem strncmp_difference (one : CString m p s) (two : CString m q t) :
    strncmp m p q n = difference charValue ((s ++ [0]).take n) ((t ++ [0]).take n) := by
  induction n generalizing p q s t with
  | zero => rfl
  | succ n ih =>
    rw [strncmp]
    cases s with
    | nil =>
      have ended : m p = 0 := one
      rw [if_neg fun both => both.1 ended, ended, two.first]
      cases t with
      | nil => simp [difference]
      | cons d t =>
        have nonzero : (0 : UInt8) ≠ d := fun same => two.2.1 same.symm
        simp [difference, nonzero]
    | cons c s =>
      obtain ⟨first, nonzero, rest⟩ := one
      rw [first, two.first]
      cases t with
      | nil =>
        rw [if_neg fun both => nonzero both.2]
        simp [difference, nonzero]
      | cons d t =>
        by_cases same : c = d
        · rw [if_pos ⟨nonzero, same⟩, ih rest two.2.2]
          simp [difference, same]
        · rw [if_neg fun both => same both.2]
          simp [difference, same]

theorem strncmp_take (one : CString m p s) (two : CString m q t) : strncmp m p q n = 0 ↔ s.take n = t.take n := by
  rw [strncmp_difference one two]
  exact difference_terminated (fun _ _ => charValue_inj) one.nonzero two.nonzero

/-- Two strings compare equal only if they are, as long as the second one ends
within the characters that are compared. -/
theorem strncmp_eq_zero (one : CString m p s) (two : CString m q t) (ends : t.length < n) :
    strncmp m p q n = 0 ↔ s = t := by
  rw [strncmp_take one two, List.take_of_length_le (Nat.le_of_lt ends)]
  constructor
  · intro same
    have length := congrArg List.length same
    rw [List.length_take] at length
    rw [List.take_of_length_le (by omega)] at same
    exact same
  · intro same
    rw [same, List.take_of_length_le (Nat.le_of_lt ends)]

theorem strncmp_swap (one : CString m p s) (two : CString m q t) (n : Nat) : strncmp m q p n = -strncmp m p q n := by
  rw [strncmp_difference one two, strncmp_difference two one]
  exact difference_swap _ _

theorem strncmp_trans (one : CString m p s) (two : CString m q t) (three : CString m r u)
    (first : strncmp m p q n < 0) (second : strncmp m q r n < 0) : strncmp m p r n < 0 := by
  rw [strncmp_difference one two] at first
  rw [strncmp_difference two three] at second
  rw [strncmp_difference one three]
  exact difference_trans first second

theorem strcmp_within (one : CString m p s) (two : CString m q t) (enough : s.length < fuel) :
    Within (InBoth p q (s.length + 1) s t) (strcmp m fuel p q)
      (· = difference charValue (s ++ [0]) (t ++ [0])) := by
  rw [strcmp_eq_strncmp one (Nat.lt_succ_self _) enough]
  have value := strncmp_difference (n := s.length + 1) one two
  have ended : (s ++ [0]).length ≤ s.length + 1 := by simp
  rw [List.take_of_length_le ended, difference_take ended] at value
  rw [← value]
  exact strncmpTraced_within one two

/-- `strncmp` and `strcmp` are one order of strings, and read no character behind
a terminator or the `n`-th place. -/
theorem string_comparison (one : CString m p s) (two : CString m q t) (three : CString m r u) (n : Nat) :
    (strncmp m p q n = 0 ↔ s.take n = t.take n ∨ s = t) ∧
      strncmp m q p n = -strncmp m p q n ∧
      (strncmp m p q n < 0 → strncmp m q r n < 0 → strncmp m p r n < 0) ∧
      Within (InBoth p q n s t) (strncmpTraced m p q n) (· = strncmp m p q n) ∧
      ∃ v, (∀ fuel > s.length, Within (InBoth p q (s.length + 1) s t) (strcmp m fuel p q) (· = v)) ∧
        (s.length < n → strncmp m p q n = v) := by
  refine ⟨?_, strncmp_swap one two n, strncmp_trans one two three, strncmpTraced_within one two, _,
    fun fuel enough => strcmp_within one two enough, fun long => ?_⟩
  · rw [strncmp_take one two]
    exact ⟨Or.inl, fun same => same.elim id fun same => by rw [same]⟩
  · have ended : (s ++ [0]).length ≤ n := by
      rw [List.length_append]
      exact long
    rw [strncmp_difference one two, List.take_of_length_le ended, difference_take ended]

/-- The strings `a`, `ab` and `b`, one behind the other. -/
def threeStrings (x : Nat) : UInt8 := [0x61, 0, 0x61, 0x62, 0, 0x62, 0].getD x 0

theorem string_comparison_threeStrings :
    strncmp threeStrings 0 2 2 < 0 ∧ strncmp threeStrings 2 5 2 < 0 ∧ strncmp threeStrings 0 5 2 < 0 := by
  have one : CString threeStrings 0 [0x61] := by decide
  have two : CString threeStrings 2 [0x61, 0x62] := by decide
  have three : CString threeStrings 5 [0x62] := by decide
  obtain ⟨_, _, transitive, _⟩ := string_comparison one two three 2
  exact ⟨by decide, by decide, transitive (by decide) (by decide)⟩

end System14
