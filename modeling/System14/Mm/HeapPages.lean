import System14.Mm.HeapRequest

/-!
# The pages of a combined block

As long as no page is ever freed, the used frames are the first ones, and the
pages that `CombineBlocks` takes follow one another. The size of their node is
computed as an `int`.
-/

namespace System14
open ByteMem Run Chain Extent

variable {mode : Panic} {first size fuel i : Nat} {s t u : Kernel}

/-! ### Runs without `PageFree` -/

/-- A call of `PageAlloc`, or anything else that leaves the frame table alone. -/
inductive PageCall where
  | alloc
  | other

def PageStep (mode : Panic) : Kernel → PageCall → Kernel → Prop
  | s, .alloc, t => ∃ p, pageAlloc mode s = .ok (p, t)
  | s, .other, t => SameTable s t

def PagesReach (mode : Panic) (s₁ : Kernel) : Kernel → Prop := Reach (· = s₁) (PageStep mode) anyStep

theorem FreeTail.granted {j p : Nat} (tail : FreeTail s i) (granted : Granted s first j p t) : FreeTail t (j + 1) := by
  intro k lt
  rw [granted.count] at lt
  rw [granted.taken k lt]
  have start := (tail j granted.lt).mp granted.free
  by_cases here : k = j
  · rw [if_pos here]
    simp [here]
  · rw [if_neg here]
    constructor
    · intro free
      by_contra before
      rw [granted.least k (by omega)] at free
      cases free
    · intro behind
      exact (tail k lt).mpr (by omega)

theorem FreeTail.congr (tail : FreeTail s i) (same : SameTable s t) : FreeTail t i := by
  intro j lt
  rw [same.count] at lt
  rw [same.free lt]
  exact tail j lt

theorem pageStep_tail {call : PageCall} (table : FrameTable s first) (tail : FreeTail s i) (taken : PageStep mode s call t) :
    FrameTable t first ∧ ∃ j, FreeTail t j := by
  cases call with
  | alloc =>
    obtain ⟨p, call⟩ := taken
    rcases pageAlloc_returns table with ⟨_, alloc⟩ | ⟨j, u, alloc, granted⟩
    · cases alloc.symm.trans (pageAlloc_any call)
      exact ⟨table, i, tail⟩
    · cases alloc.symm.trans (pageAlloc_any call)
      exact ⟨granted.table, j + 1, tail.granted granted⟩
  | other => exact ⟨table.congr taken, i, tail.congr taken⟩

theorem pagesReach_tail {s₁ : Kernel} (table : FrameTable s₁ first) (free : ∀ i < frameCount s₁, frameFree s₁ i = true)
    (reached : PagesReach mode s₁ s) : FrameTable s first ∧ ∃ i, FreeTail s i := by
  refine Reach.invariant (I := fun s => FrameTable s first ∧ ∃ i, FreeTail s i) reached ?_ ?_
  · rintro _ rfl
    exact ⟨table, 0, fun j lt => by simp [free j lt]⟩
  · rintro s call t ⟨table, i, tail⟩ _ taken
    exact pageStep_tail table tail taken

/-! ### The node -/

/-- The first node on the list has at least `size` bytes, and they are those of
frames that were free in `s` and have been taken since. -/
def CombinedPages (first size : Nat) (s t : Kernel) : Prop :=
  ∃ k, nodeSize t.mem t.head.next = 4096 * k ∧ size ≤ 4096 * k ∧
    ∀ i < k, ∃ j < frameCount s, t.head.next + 4096 * i = first + 4096 * j ∧
      frameFree s j = true ∧ frameFree t j = false

theorem combineBlocks_zero (call : combineBlocks mode fuel 0 s = .ok (.success, t)) : CombinedPages first 0 s t := by
  unfold combineBlocks at call
  obtain ⟨⟨initial, u⟩, _, rest⟩ := bind_ok.mp call
  dsimp only at rest
  cases fuel with
  | zero => cases rest
  | succ fuel =>
    rw [combinePages, if_neg (Nat.not_lt_zero 0)] at rest
    cases rest
    exact ⟨0, createNode_size (by decide), le_refl _, fun i below => absurd below (Nat.not_lt_zero i)⟩

/-- The pages that were taken follow one another, so those of the node are among them. -/
theorem Taking.combined {f n : Nat} (taking : Taking first s u f n) (tail : FreeTail s i) (enough : size ≤ 4096 * n)
    (small : 4096 * n < 2 ^ 31) :
    CombinedPages first size s (createNode (first + 4096 * f) (intToU64 (n * 4096)) u) := by
  obtain ⟨g, lt, far, _, used⟩ := taking.last
  have start := (tail f taking.lt).mp taking.start
  have total : intToU64 (n * 4096) = 4096 * n := by
    rw [intToU64_of_lt (by omega), Nat.mul_comm]
  rw [total]
  refine ⟨n, createNode_size (by omega), enough, fun k below => ?_⟩
  refine ⟨f + k, by omega, ?_, (tail (f + k) (by omega)).mpr (by omega), ?_⟩
  · show first + 4096 * f + 4096 * k = first + 4096 * (f + k)
    omega
  · rw [(taking.created _).free (by rw [taking.count]; omega)]
    exact used (f + k) (by omega)

/-- As an `int` the number of bytes is negative, or too small. -/
theorem Taking.not_combined {f n : Nat} (taking : Taking first s u f n) (rounds : Rounds size n)
    (large : 2 ^ 31 ≤ 4096 * n) :
    ¬ CombinedPages first size s (createNode (first + 4096 * f) (intToU64 (n * 4096)) u) := by
  rintro ⟨k, total, enough, pages⟩
  have fits := taking.table.fits
  have above := taking.table.above
  rw [taking.count] at fits above
  obtain ⟨g, lt, far, _⟩ := taking.last
  have whole : intToU64 (n * 4096) = 4096 * k := (createNode_size (intToU64_lt _)).symm.trans total
  have before := rounds.2 (n - 1) (by omega)
  rw [Nat.mod_eq_of_lt (by omega)] at before
  obtain ⟨j, bound, page, _⟩ := pages (k - 1) (by omega)
  have page : first + 4096 * f + 4096 * (k - 1) = first + 4096 * j := page
  unfold intToU64 at whole
  dsimp only at whole
  split at whole <;> omega

/-- In every state that page allocations alone lead to, a combined block is made
of the pages just taken exactly when its pages have less than half of 4 GiB. -/
theorem combined_pages_iff {mmap : List MemmapEntry} {s₀ s₁ : Kernel}
    (init : initializeAllocator .halts mmap s₀ = .ok s₁) (fit : (selectedEntry mmap).NoWrap)
    (reached : PagesReach mode s₁ s) (call : combineBlocks mode fuel size s = .ok (.success, t)) :
    CombinedPages (selectedEntry mmap).firstFrame size s t ↔ size ≤ 2 ^ 31 - 4096 := by
  obtain ⟨_, _, _, start, free⟩ := initializeAllocator_ok init fit
  obtain ⟨table, i, tail⟩ := pagesReach_tail start free reached
  by_cases none : size = 0
  · subst none
    exact ⟨fun _ => by omega, fun _ => combineBlocks_zero call⟩
  · rcases combineBlocks_returns table (Nat.pos_of_ne_zero none) (combineBlocks_any call) with
      ⟨_, failed⟩ | ⟨f, u, n, ⟨taking, _⟩, ⟨rounds, done⟩ | failed⟩
    · cases failed
    · cases done
      have count := table.count_lt
      obtain ⟨g, _, far, _⟩ := taking.last
      have enough := rounds.le (by omega)
      have before := rounds.2 (n - 1) (by omega)
      rw [Nat.mod_eq_of_lt (by omega)] at before
      constructor
      · intro combined
        by_contra large
        exact taking.not_combined rounds (by omega) combined
      · intro small
        exact taking.combined tail enough (by omega)
    · cases failed

theorem combined_pages_iff_smallMap : ∃ s t, initializeAllocator .halts smallMap { mem := fun _ => 0 } = .ok s ∧
    combineBlocks .halts 3 5000 s = .ok (.success, t) ∧ CombinedPages 0x101000 5000 s t := by
  obtain ⟨s, machine⟩ := smallMachine
  obtain ⟨_, t, combined⟩ := combineBlocks_tail (heapInv_empty machine.table machine.empty)
    (show 5000 + 4096 ≤ 2 ^ 64 by decide) machine.tail (by rw [machine.count]; decide)
  have call := combined.call 3 (by decide)
  exact ⟨s, t, machine.init, call,
    (combined_pages_iff machine.init smallMap_noWrap (Reach.init rfl) call).mpr (by decide)⟩

def bigMap : List MemmapEntry := [{ base := 0x100000000, length := 0x100000000, type := .usable }]

/-- Combined pages of 2 GiB have, as an `int`, a negative number of bytes: the
node says that it is longer than all of memory. -/
theorem bigMap_not_combined : ∃ s t, initializeAllocator .halts bigMap { mem := fun _ => 0 } = .ok s ∧
    PagesReach .halts s s ∧ Returns (combineBlocks .halts · (2 ^ 31) s) (.success, t) ∧
    nodeSize t.mem t.head.next = 2 ^ 64 - 2 ^ 31 ∧ ¬ CombinedPages (selectedEntry bigMap).firstFrame (2 ^ 31) s t := by
  obtain ⟨s, init⟩ := initializeAllocator_returns bigMap { mem := fun _ => 0 } (by decide)
  obtain ⟨_, _, count, table, free⟩ := initializeAllocator_ok init (by unfold MemmapEntry.NoWrap; decide)
  have count : frameCount s = 2 ^ 20 := by
    rw [count]
    decide
  have empty : s.head.next = null := by rw [(initializeAllocator_keeps init).1]
  have tail : FreeTail s 0 := fun j lt => by simp [free j lt]
  obtain ⟨n, t, combined⟩ := combineBlocks_tail (heapInv_empty table empty) (show 2 ^ 31 + 4096 ≤ 2 ^ 64 by decide) tail
    (by rw [count]; decide)
  have head : t.head.next = n := combined.chain.1
  have total : nodeSize t.mem t.head.next = 2 ^ 64 - 2 ^ 31 := by
    rw [head, combined.total]
    decide
  refine ⟨s, t, init, Reach.init rfl, ⟨_, combined.call⟩, total, ?_⟩
  rintro ⟨k, whole, _, pages⟩
  obtain ⟨j, lt, page, _⟩ := pages (k - 1) (by omega)
  have start : (selectedEntry bigMap).firstFrame = 0x101000000 := by decide
  omega

end System14
