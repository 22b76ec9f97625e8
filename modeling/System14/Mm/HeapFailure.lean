import System14.Mm.HeapProgress

/-!
# Allocations that fail

Here `panic` is read as returning, so that `PageAlloc` returns null when no
frame is free. `CombineBlocks` then gives back the pages that follow its first
one, by their distance from it and not by what it was given, and never the
first one itself; what earlier rounds of the search combined stays on the list.
So a request that fails leaves the heap as it was only if it found nothing to
take at all.
-/

namespace System14
open ByteMem Run Chain Extent

variable {first size fuel : Nat} {s t u : Kernel} {nodes : List Nat}

/-! ### Taking pages until there are none -/

def Exhausted (s : Kernel) : Prop := ∀ i < frameCount s, frameFree s i = false

/-- A frame that was free in `s` is used in `t`. -/
def Spent (s t : Kernel) : Prop := ∃ h < frameCount s, frameFree s h = true ∧ frameFree t h = false

/-- `f` and `m` more frames, each behind the one before it, have been taken
since `s`, and no byte of the frames that were used before has changed. -/
structure Taking (first : Nat) (s t : Kernel) (f m : Nat) : Prop where
  table : FrameTable t first
  globals : t = { s with mem := t.mem }
  lt : f < frameCount s
  start : frameFree s f = true
  last : ∃ g < frameCount s, f + m ≤ g ∧ frameFree s g = true ∧ ∀ j ≤ g, frameFree t j = false
  older : ∀ j < frameCount s, frameFree t j = true → frameFree s j = true
  keep : ∀ x, HeapByte first (fun _ => true) s x → t.mem x = s.mem x

theorem Taking.count {f m : Nat} (taking : Taking first s t f m) : frameCount t = frameCount s := by
  rw [taking.globals]
  rfl

theorem Taking.used {f m : Nat} (taking : Taking first s t f m) : frameFree t f = false := by
  obtain ⟨g, _, below, _, used⟩ := taking.last
  exact used f (by omega)

theorem Taking.taken {f m x : Nat} (taking : Taking first s t f m) (h : HeapByte first (fun _ => true) s x) :
    HeapByte first (fun _ => true) t x := by
  obtain ⟨j, lt, _, used, range⟩ := h
  refine ⟨j, by rw [taking.count]; exact lt, rfl, ?_, range⟩
  by_contra free
  rw [taking.older j lt (by simpa using free)] at used
  cases used

theorem Granted.taking {i p : Nat} (table : FrameTable s first) (granted : Granted s first i p t) :
    Taking first s t i 0 := by
  refine ⟨granted.table, granted.globals, granted.lt, granted.free, ⟨i, granted.lt, le_refl i, granted.free, fun j le => ?_⟩,
    fun j lt => granted.taken_free lt, fun x owned => ?_⟩
  · have lt := granted.lt
    rw [granted.taken j (by omega)]
    split
    · rfl
    · exact granted.least j (by omega)
  · have apart := owned.apart_granted table granted
    exact granted.keep x apart.1 apart.2

theorem Taking.next {f m i p : Nat} (taking : Taking first s t f m) (granted : Granted t first i p u) :
    Taking first s u f (m + 1) := by
  have count := taking.count
  obtain ⟨g, _, below, _, used⟩ := taking.last
  have free := granted.free
  have lt := granted.lt
  have behind : g < i := by
    by_contra before
    rw [used i (by omega)] at free
    cases free
  have one := granted.taking taking.table
  refine ⟨granted.table, by rw [granted.globals, taking.globals], taking.lt, taking.start, ?_, ?_, ?_⟩
  · obtain ⟨j, _, le, _, before⟩ := one.last
    exact ⟨i, by omega, by omega, taking.older i (by omega) free, fun k below => before k (by omega)⟩
  · intro j lt free
    exact taking.older j lt (one.older j (by omega) free)
  · intro x owned
    rw [one.keep x (taking.taken owned), taking.keep x owned]

theorem pageAlloc_returns (table : FrameTable s first) :
    (Exhausted s ∧ pageAlloc .returns s = .ok (null, s)) ∨
      ∃ f t, pageAlloc .returns s = .ok (first + 4096 * f, t) ∧ Granted s first f (first + 4096 * f) t := by
  rcases first_free_or_none s with none | ⟨i, lt, free, least⟩
  · exact Or.inl ⟨none, pageAlloc_exhausted none⟩
  · obtain ⟨t, call, granted⟩ := pageAlloc_grants .returns table lt free least
    exact Or.inr ⟨i, t, call, granted⟩

theorem FrameTable.page_bounds {f : Nat} (table : FrameTable s first) (lt : f < frameCount s) :
    s.frameList + 16 * frameCount s ≤ first + 4096 * f ∧ first + 4096 * f + 4096 < 2 ^ 64 ∧ first + 4096 * f ≠ null := by
  have above := table.above
  have fits := table.fits
  unfold null
  omega

/-- The page loop of `CombineBlocks` ends in round `n`, if it does not run out of pages. -/
def Rounds (size n : Nat) : Prop := size ≤ 4096 * n % 2 ^ 64 ∧ ∀ m < n, 4096 * m % 2 ^ 64 < size

theorem Rounds.unique {n n' : Nat} (one : Rounds size n) (two : Rounds size n') : n = n' := by
  rcases Nat.lt_trichotomy n n' with below | same | above
  · exact absurd (two.2 n below) (Nat.not_lt.mpr one.1)
  · exact same
  · exact absurd (one.2 n' above) (Nat.not_lt.mpr two.1)

theorem combinePages_returns {f m : Nat} {r : KStatus × Kernel} (taking : Taking first s t f m)
    (before : ∀ m' < m, 4096 * m' % 2 ^ 64 < size)
    (call : combinePages .returns (first + 4096 * f) size fuel (4096 * m % 2 ^ 64) m t = .ok r) :
    ∃ u n, Taking first s u f n ∧
      ((Rounds size n ∧ r = (.success, createNode (first + 4096 * f) (intToU64 (n * 4096)) u)) ∨
        r = (.fail, releasePages (first + 4096 * f) n u)) := by
  induction fuel generalizing m t with
  | zero => cases call
  | succ fuel ih =>
    rw [combinePages] at call
    by_cases more : 4096 * m % 2 ^ 64 < size
    · rw [if_pos more] at call
      rcases pageAlloc_returns taking.table with ⟨_, alloc⟩ | ⟨i, u, alloc, granted⟩
      · rw [alloc, ok_bind] at call
        cases call
        exact ⟨t, m, taking, Or.inr rfl⟩
      · rw [alloc, ok_bind] at call
        have nonnull := (taking.table.page_bounds granted.lt).2.2
        have round : uadd 64 (4096 * m % 2 ^ 64) 4096 = 4096 * (m + 1) % 2 ^ 64 := by
          unfold uadd
          omega
        simp only [if_neg nonnull, round] at call
        refine ih (taking.next granted) (fun m' below => ?_) call
        rcases Nat.lt_succ_iff_lt_or_eq.mp below with below | rfl
        · exact before m' below
        · exact more
    · rw [if_neg more] at call
      cases call
      exact ⟨t, m, taking, Or.inl ⟨⟨Nat.not_lt.mp more, before⟩, rfl⟩⟩

theorem combineBlocks_returns {r : KStatus × Kernel} (table : FrameTable s first) (positive : 0 < size)
    (call : combineBlocks .returns fuel size s = .ok r) :
    (Exhausted s ∧ r = (.fail, s)) ∨ ∃ f u n, (Taking first s u f n ∧ ∀ j < f, frameFree s j = false) ∧
      ((Rounds size n ∧ r = (.success, createNode (first + 4096 * f) (intToU64 (n * 4096)) u)) ∨
        r = (.fail, releasePages (first + 4096 * f) n u)) := by
  unfold combineBlocks at call
  rcases pageAlloc_returns table with ⟨none, alloc⟩ | ⟨f, t, alloc, granted⟩
  · rw [alloc, ok_bind] at call
    dsimp only at call
    cases fuel with
    | zero => cases call
    | succ fuel =>
      rw [combinePages, if_pos positive, alloc, ok_bind] at call
      cases call
      exact Or.inl ⟨none, rfl⟩
  · rw [alloc, ok_bind] at call
    obtain ⟨u, n, taking, result⟩ := combinePages_returns (granted.taking table) (by omega) call
    exact Or.inr ⟨f, u, n, ⟨taking, granted.least⟩, result⟩

/-! ### Giving pages back -/

theorem releasePages_keeps {initial n h : Nat} (table : FrameTable s first) (lt : h < frameCount s)
    (apart : ∀ k, 0 < k → k ≤ n → first + 4096 * h ≠ uadd 64 initial (intToU64 (4096 * k))) :
    frameFree (releasePages initial n s) h = frameFree s h := by
  induction n generalizing s with
  | zero => rfl
  | succ n ih =>
    obtain ⟨globals, kept, _, flags⟩ := pageFree_spec table (uadd 64 initial (intToU64 (4096 * (n + 1))))
    have count : frameCount (pageFree (uadd 64 initial (intToU64 (4096 * (n + 1)))) s) = frameCount s := by
      rw [globals]
      rfl
    rw [releasePages, ih kept (by omega) fun k positive le => apart k positive (by omega), flags h lt]
    simp [apart (n + 1) (Nat.succ_pos n) (le_refl _)]

/-- The distance is computed as an `int`, so it is less than half of 4 GiB, forwards or backwards. -/
theorem intToU64_range (n : Nat) : intToU64 n < 2 ^ 31 ∨ 2 ^ 64 - 2 ^ 31 ≤ intToU64 n := by
  unfold intToU64
  dsimp only
  split <;> omega

/-- Giving back never reaches all the pages taken: not the first one, as long as
the distances are exact, and else not the last one. -/
theorem Taking.spent {f n : Nat} (taking : Taking first s t f n) :
    Spent s (releasePages (first + 4096 * f) n t) := by
  have count := taking.count
  have fits := taking.table.fits
  have above := taking.table.above
  have lt := taking.lt
  obtain ⟨g, below, far, free, used⟩ := taking.last
  by_cases near : n < 2 ^ 19
  · refine ⟨f, taking.lt, taking.start, ?_⟩
    rw [releasePages_keeps taking.table (by omega) fun k positive le => ?_]
    · exact taking.used
    · rw [intToU64_of_lt (by omega), uadd_of_lt (by omega)]
      omega
  · refine ⟨g, below, free, ?_⟩
    rw [releasePages_keeps taking.table (by omega) fun k positive le => ?_]
    · exact used g (le_refl g)
    · have range := intToU64_range (4096 * k)
      have bound := intToU64_lt (4096 * k)
      unfold uadd
      omega

/-! ### The search that returns null -/

theorem Taking.created {f m : Nat} (taking : Taking first s t f m) (total : Nat) :
    SameTable t (createNode (first + 4096 * f) total t) := by
  have bounds := taking.table.page_bounds (by rw [taking.count]; exact taking.lt)
  refine ⟨rfl, rfl, fun x _ high => createNode_mem_apply (by omega)⟩

theorem Taking.spent_created {f m : Nat} (taking : Taking first s t f m) (total : Nat) :
    Spent s (createNode (first + 4096 * f) total t) := by
  refine ⟨f, taking.lt, taking.start, ?_⟩
  rw [(taking.created total).free (by rw [taking.count]; exact taking.lt)]
  exact taking.used

theorem Taking.spent_after {f m : Nat} (taking : Taking first s t f m) (total : Nat)
    (spent : Spent (createNode (first + 4096 * f) total t) u) : Spent s u := by
  have same := taking.created total
  obtain ⟨h, lt, free, used⟩ := spent
  rw [same.count] at lt
  rw [same.free lt] at free
  rw [taking.count] at lt
  exact ⟨h, lt, taking.older h lt free, used⟩

theorem tryNext_null {next : HeapCursor → Kernel → Except Stop (Nat × Kernel)} {current : HeapCursor}
    (call : tryNext size next current s = .ok (null, t)) : next (some (cursorNext s current)) s = .ok (null, t) := by
  unfold tryNext at call
  dsimp only at call
  split at call
  · cases call
  · split at call
    · exact absurd (Prod.mk.inj (Except.ok.inj call)).1 ‹_›
    · exact call

/-- A search that finds nothing has found no free frame, or has used one up. -/
theorem findFrom_null {current : HeapCursor} (wide : size < 2 ^ 64) (table : FrameTable s first)
    (call : findFrom .returns size fuel current s = .ok (null, t)) : (Exhausted s ∧ t = s) ∨ Spent s t := by
  induction fuel generalizing current s with
  | zero => cases call
  | succ fuel ih =>
    -- A page taken here stays used, whatever the rest of the search does.
    have later : ∀ {u f m total current}, Taking first s u f m →
        findFrom .returns size fuel current (createNode (first + 4096 * f) total u) = .ok (null, t) → Spent s t := by
      intro u f m total current taking call
      rcases ih (taking.table.congr (taking.created total)) call with ⟨_, rfl⟩ | spent
      · exact taking.spent_created total
      · exact taking.spent_after total spent
    rw [findFrom] at call
    split at call
    · split at call
      · rename_i large
        have positive : 0 < size := by
          unfold uadd at large
          omega
        obtain ⟨r, combine, rest⟩ := bind_ok.mp call
        rcases combineBlocks_returns table positive combine with ⟨none, rfl⟩ | ⟨f, u, n, ⟨taking, _⟩, ⟨_, rfl⟩ | rfl⟩
        · cases rest
          exact Or.inl ⟨none, rfl⟩
        · exact Or.inr (later taking rest)
        · cases rest
          exact Or.inr taking.spent
      · rcases pageAlloc_returns table with ⟨none, alloc⟩ | ⟨f, u, alloc, granted⟩
        · rw [alloc] at call
          cases call
          exact Or.inl ⟨none, rfl⟩
        · rw [alloc, ok_bind] at call
          simp only [if_neg (table.page_bounds granted.lt).2.2] at call
          exact Or.inr (later (granted.taking table) (tryNext_null call))
    · exact ih table (tryNext_null call)

/-! ### The search that returns a node -/

/-- The free list, with the headers of its nodes in used frames. -/
structure FreeList (first : Nat) (s : Kernel) (nodes : List Nat) : Prop where
  table : FrameTable s first
  chain : Linked (nodeNext s.mem) null s.head.next nodes
  headers : ∀ a ∈ nodes, ∀ x, a ≤ x → x < a + 16 → HeapByte first (fun _ => true) s x

theorem HeapInv.freeList {free₀ : Nat → Bool} {live : List Block} (inv : HeapInv first free₀ s nodes live) :
    FreeList first s nodes := by
  refine ⟨inv.table, inv.chain, fun a member x low high => ?_⟩
  have large := inv.large a member
  obtain ⟨i, lt, _, used, range⟩ := inv.inside _ (mem_extents_node member) x ⟨low, by simp only [nodeExtent]; omega⟩
  exact ⟨i, lt, rfl, used, range⟩

theorem FreeList.node_bounds {a : Nat} (list : FreeList first s nodes) (member : a ∈ nodes) :
    s.frameList + 16 * frameCount s ≤ a ∧ a + 16 < 2 ^ 64 := by
  have start := (list.headers a member a (le_refl a) (by omega)).bounds list.table
  have stop := (list.headers a member (a + 15) (by omega) (by omega)).bounds list.table
  omega

theorem FreeList.head_lt (list : FreeList first s nodes) : s.head.next < 2 ^ 64 := by
  apply linked_head_lt list.chain
  intro a member
  have bounds := list.node_bounds member
  omega

theorem FreeList.off_page {a f : Nat} (list : FreeList first s nodes) (member : a ∈ nodes) (free : frameFree s f = true) :
    a + 16 ≤ first + 4096 * f ∨ first + 4096 * f + 4096 ≤ a := by
  have apart : ∀ x, a ≤ x → x < a + 16 → x < first + 4096 * f ∨ first + 4096 * f + 4096 ≤ x := by
    intro x low high
    obtain ⟨j, _, _, used, range⟩ := list.headers a member x low high
    have other : j ≠ f := by
      intro same
      rw [same, free] at used
      cases used
    omega
  have left := apart a (le_refl a) (by omega)
  have right := apart (a + 15) (by omega) (by omega)
  omega

theorem Taking.header {f m a : Nat} (taking : Taking first s t f m) (list : FreeList first s nodes) (total : Nat)
    (member : a ∈ nodes) (x : Nat) (low : a ≤ x) (high : x < a + 16) :
    (createNode (first + 4096 * f) total t).mem x = s.mem x := by
  have apart := list.off_page member taking.start
  rw [createNode_mem_apply (by omega)]
  exact taking.keep x (list.headers a member x low high)

/-- A new node on a page of its own goes in front of the list. -/
theorem Taking.push {f m : Nat} (taking : Taking first s t f m) (list : FreeList first s nodes) (total : Nat) :
    FreeList first (createNode (first + 4096 * f) total t) ((first + 4096 * f) :: nodes) ∧
      ∀ a ∈ nodes, nodeSize (createNode (first + 4096 * f) total t).mem a = nodeSize s.mem a := by
  have same := taking.created total
  have lt : f < frameCount t := by
    rw [taking.count]
    exact taking.lt
  have head : t.head = s.head := by rw [taking.globals]
  have next : nodeNext (createNode (first + 4096 * f) total t).mem (first + 4096 * f) = s.head.next := by
    rw [createNode_next (by rw [head]; exact list.head_lt), head]
  refine ⟨⟨taking.table.congr same, ?_, fun a member x low high => ?_⟩, fun a member => ?_⟩
  · apply linked_push list.chain (taking.table.page_bounds lt).2.2 next
    intro a member
    exact load_congr fun x low high => taking.header list total member x (by omega) (by omega)
  · apply (HeapByte.sameTable same).mpr
    rcases List.mem_cons.mp member with rfl | member
    · exact ⟨f, lt, rfl, taking.used, low, by omega⟩
    · exact taking.taken (list.headers a member x low high)
  · exact load_congr fun x low high => taking.header list total member x low (by omega)

theorem search_in_vain {n : Nat} (list : FreeList first s nodes) (wide : size < 2 ^ 64) (large : uadd 64 size 16 ≥ 4096)
    (misses : ∀ a ∈ nodes, nodeSize s.mem a < uadd 64 16 size)
    (short : ∀ m, Rounds size m → intToU64 (m * 4096) < uadd 64 16 size)
    (call : findAndRemoveNode .returns fuel size s = .ok (n, t)) : n = null := by
  induction fuel using Nat.strong_induction_on generalizing s nodes with
  | _ fuel ih =>
    obtain ⟨skip, stop⟩ := findAndRemoveNode_end .returns size fuel list.chain misses
    rw [skip] at call
    cases left : fuel - nodes.length with
    | zero =>
      rw [left] at call
      cases call
    | succ rest =>
      rw [left, findFrom, if_pos stop, if_pos large] at call
      have positive : 0 < size := by
        unfold uadd at large
        omega
      obtain ⟨r, combine, again⟩ := bind_ok.mp call
      rcases combineBlocks_returns list.table positive combine with ⟨_, rfl⟩ | ⟨f, u, m, ⟨taking, _⟩, ⟨rounds, rfl⟩ | rfl⟩
      · cases again
        rfl
      · obtain ⟨pushed, sizes⟩ := taking.push list (intToU64 (m * 4096))
        refine ih rest (by omega) pushed (fun a member => ?_) again
        rcases List.mem_cons.mp member with rfl | member
        · rw [createNode_size (intToU64_lt _)]
          exact short m rounds
        · rw [sizes a member]
          exact misses a member
      · cases again
        rfl

/-- The search took a page, made a node of it and took that off the list again. -/
def FromNewPage (first : Nat) (s : Kernel) (n : Nat) (t : Kernel) : Prop :=
  ∃ f m total u, Taking first s u f m ∧ n = first + 4096 * f ∧
    t = setCursorNext (createNode n total u) (nodeNext (createNode n total u).mem n) none

/-- What a request for `size` bytes is served from when no node of the list is
large enough: the page of the first free frame, or the pages combined with it. -/
structure NewNode (first : Nat) (s : Kernel) (nodes : List Nat) (size f m total : Nat) (u : Kernel) : Prop where
  taking : Taking first s u f m
  least : ∀ j < f, frameFree s j = false
  misses : ∀ a ∈ nodes, nodeSize s.mem a < uadd 64 16 size
  kind : (¬ uadd 64 size 16 ≥ 4096 ∧ nodes = [] ∧ m = 0 ∧ total = 4096) ∨
    (uadd 64 size 16 ≥ 4096 ∧ Rounds size m ∧ total = intToU64 (m * 4096))
  fits : uadd 64 16 size ≤ total

def ServedNew (first : Nat) (s : Kernel) (nodes : List Nat) (size n : Nat) (t : Kernel) : Prop :=
  ∃ f m total u, NewNode first s nodes size f m total u ∧ n = first + 4096 * f ∧
    t = setCursorNext (createNode n total u) (nodeNext (createNode n total u).mem n) none

theorem ServedNew.fromNewPage {n : Nat} (new : ServedNew first s nodes size n t) : FromNewPage first s n t := by
  obtain ⟨f, m, total, u, new, here, after⟩ := new
  exact ⟨f, m, total, u, new.taking, here, after⟩

theorem NewNode.front {f m n rest total : Nat} (new : NewNode first s nodes size f m total u)
    (list : FreeList first s nodes) (small : total < 2 ^ 64)
    (call : findFrom .returns size rest none (createNode (first + 4096 * f) total u) = .ok (n, t)) :
    ServedNew first s nodes size n t := by
  cases rest with
  | zero => cases call
  | succ rest =>
    have hit := findFrom_hit .returns size rest [] (new.taking.push list total).1.chain
      (by rw [createNode_size small]; exact new.fits)
    rw [List.getLast?_nil, call] at hit
    cases hit
    exact ⟨f, m, total, u, new, rfl, rfl⟩

/-- A search that returns took the first node that fits, however long it was let to look. -/
theorem search_hit {a : Nat} {r : Nat × Kernel} (pre : List Nat) {post : List Nat}
    (chain : Linked (nodeNext s.mem) null s.head.next (pre ++ a :: post))
    (misses : ∀ b ∈ pre, nodeSize s.mem b < uadd 64 16 size) (fits : uadd 64 16 size ≤ nodeSize s.mem a)
    (call : findAndRemoveNode .returns fuel size s = .ok r) :
    r = (a, setCursorNext s (nodeNext s.mem a) pre.getLast?) := by
  by_cases enough : pre.length < fuel
  · rw [findAndRemoveNode_hit .returns pre chain misses fits enough] at call
    exact (Except.ok.inj call).symm
  · have skip := findFrom_skip .returns size fuel [] pre _ chain misses
    rw [List.getLast?_nil, Nat.sub_eq_zero_of_le (Nat.not_lt.mp enough)] at skip
    unfold findAndRemoveNode at call
    rw [skip] at call
    cases call

theorem search_combines {n rest : Nat} {current : HeapCursor} (list : FreeList first s nodes) (wide : size < 2 ^ 64)
    (misses : ∀ a ∈ nodes, nodeSize s.mem a < uadd 64 16 size) (stop : cursorNext s current = null)
    (large : uadd 64 size 16 ≥ 4096) (call : findFrom .returns size (rest + 1) current s = .ok (n, t)) :
    n = null ∨ ServedNew first s nodes size n t := by
  rw [findFrom, if_pos stop, if_pos large] at call
  have positive : 0 < size := by
    unfold uadd at large
    omega
  obtain ⟨r, combine, again⟩ := bind_ok.mp call
  rcases combineBlocks_returns list.table positive combine with ⟨_, rfl⟩ | ⟨f, u, m, ⟨taking, least⟩, ⟨rounds, rfl⟩ | rfl⟩
  · cases again
    exact Or.inl rfl
  · by_cases fits : uadd 64 16 size ≤ intToU64 (m * 4096)
    · exact Or.inr (NewNode.front ⟨taking, least, misses, Or.inr ⟨large, rounds, rfl⟩, fits⟩ list (intToU64_lt _) again)
    · -- Every combination makes a node of the same size, so none of them is large enough.
      obtain ⟨pushed, sizes⟩ := taking.push list (intToU64 (m * 4096))
      refine Or.inl (search_in_vain pushed wide large (fun a member => ?_) (fun m' rounds' => ?_) again)
      · rcases List.mem_cons.mp member with rfl | member
        · rw [createNode_size (intToU64_lt _)]
          exact Nat.not_le.mp fits
        · rw [sizes a member]
          exact misses a member
      · rw [rounds'.unique rounds]
        exact Nat.not_le.mp fits
  · cases again
    exact Or.inl rfl

theorem search_pages {n rest : Nat} (list : FreeList first s nodes) (stop : cursorNext s nodes.getLast? = null)
    (large : ¬ uadd 64 size 16 ≥ 4096) (call : findFrom .returns size (rest + 1) nodes.getLast? s = .ok (n, t)) :
    n = null ∨ ServedNew first s nodes size n t := by
  rw [findFrom, if_pos stop, if_neg large] at call
  rcases pageAlloc_returns list.table with ⟨_, alloc⟩ | ⟨f, u, alloc, granted⟩
  · rw [alloc] at call
    cases call
    exact Or.inl rfl
  · rw [alloc, ok_bind] at call
    simp only [if_neg (list.table.page_bounds granted.lt).2.2] at call
    have taking := granted.taking list.table
    by_cases some : nodes = []
    · subst some
      have cursor : cursorNext (createNode (first + 4096 * f) 4096 u) none ≠ null :=
        (list.table.page_bounds granted.lt).2.2
      have front : findFrom .returns size (rest + 1) none (createNode (first + 4096 * f) 4096 u) = .ok (n, t) := by
        rw [findFrom, if_neg cursor]
        exact call
      have sum : uadd 64 16 size = uadd 64 size 16 := by rw [uadd, uadd, Nat.add_comm]
      exact Or.inr (NewNode.front ⟨taking, granted.least, by simp, Or.inl ⟨large, rfl, rfl, rfl⟩, by omega⟩ list (by decide) front)
    · simp only [tryNext, cursor_end (taking.push list 4096).1.chain some, if_true] at call
      cases call

theorem search_cases {n : Nat} (list : FreeList first s nodes) (wide : size < 2 ^ 64)
    (call : findAndRemoveNode .returns fuel size s = .ok (n, t)) :
    n = null ∨ (∃ pre post, nodes = pre ++ n :: post ∧ uadd 64 16 size ≤ nodeSize s.mem n ∧
      t = setCursorNext s (nodeNext s.mem n) pre.getLast? ∧ ∀ a ∈ pre, nodeSize s.mem a < uadd 64 16 size) ∨
      ServedNew first s nodes size n t := by
  rcases first_miss_or_hit s nodes (uadd 64 16 size) with misses | ⟨pre, a, post, rfl, misses, fits⟩
  · obtain ⟨skip, stop⟩ := findAndRemoveNode_end .returns size fuel list.chain misses
    rw [skip] at call
    cases left : fuel - nodes.length with
    | zero =>
      rw [left] at call
      cases call
    | succ rest =>
      rw [left] at call
      by_cases large : uadd 64 size 16 ≥ 4096
      · exact (search_combines list wide misses stop large call).imp_right Or.inr
      · exact (search_pages list stop large call).imp_right Or.inr
  · cases search_hit pre list.chain misses fits call
    exact Or.inr (Or.inl ⟨pre, post, rfl, fits, rfl, misses⟩)

/-! ### Requests -/

/-- The free list and the `free` flag of every frame are what they were in `s`. -/
structure Restored (s : Kernel) (nodes : List Nat) (t : Kernel) : Prop where
  chain : Linked (nodeNext t.mem) null t.head.next nodes
  sizes : ∀ a ∈ nodes, nodeSize t.mem a = nodeSize s.mem a
  flags : ∀ i < frameCount s, frameFree t i = frameFree s i

theorem Restored.not_spent (restored : Restored s nodes t) : ¬ Spent s t := by
  rintro ⟨h, lt, free, used⟩
  rw [restored.flags h lt, free] at used
  cases used

/-- What `_alloc` leaves of the node that the search took off the list. -/
def Carved (n : Nat) (s t : Kernel) : Prop := t = s ∨ ∃ stop extra, 0 < extra ∧ extra < 2 ^ 64 ∧ t = carve n stop extra s

theorem alloc_cases {alignment p : Nat} (call : alloc .returns fuel size alignment s = .ok (p, t)) :
    ∃ n u, findAndRemoveNode .returns fuel (uadd 64 size (usub 64 alignment 1)) s = .ok (n, u) ∧
      ((n = null ∧ p = null ∧ t = u) ∨ (n ≠ null ∧ p = uadd 64 n 16 ∧
        Carved n u t)) := by
  unfold alloc at call
  obtain ⟨⟨n, u⟩, search, rest⟩ := bind_ok.mp call
  refine ⟨n, u, search, ?_⟩
  dsimp only at rest
  split at rest
  · cases rest
    exact Or.inl ⟨‹_›, rfl, rfl⟩
  · rename_i nonnull
    split at rest
    · cases rest
    · split at rest
      · rename_i extra
        cases rest
        exact Or.inr ⟨nonnull, rfl, Or.inr ⟨_, _, extra, Nat.mod_lt _ (by decide), rfl⟩⟩
      · cases rest
        exact Or.inr ⟨nonnull, rfl, Or.inl rfl⟩

theorem alignedAlloc_alloc {alignment p : Nat} (call : alignedAlloc .returns fuel alignment size s = .ok (p, t)) :
    ∃ p', alloc .returns fuel size alignment s = .ok (p', t) := by
  unfold alignedAlloc at call
  obtain ⟨⟨p', u⟩, given, rest⟩ := bind_ok.mp call
  dsimp only at rest
  split at rest <;> cases rest <;> exact ⟨p', given⟩

theorem carve_next {n stop extra : Nat} (small : s.head.next < 2 ^ 64) (apart : n ≤ stop ∨ stop + 16 ≤ n) :
    nodeNext (carve n stop extra s).mem stop = s.head.next := by
  show load 8 (store 8 (createNode stop extra s).mem n _) (stop + 8) = s.head.next
  rw [load_store_of_apart (by omega)]
  exact createNode_next small

theorem carve_size {n extra : Nat} (small : extra < 2 ^ 64) : nodeSize (carve n n extra s).mem n = 0 := by
  show load 8 (store 8 (createNode n extra s).mem n _) n = 0
  rw [load_store_same, createNode_size small, usub_of_le small (le_refl _), Nat.sub_self]
  rfl

/-- Even a node written at address 0, over a frame table there, does not make a frame free. -/
theorem carve_flag {n extra f : Nat} (below : s.frameList + 16 * f + 16 ≤ n) (empty : s.head.next = null)
    (used : frameFree s f = false) : frameFree (carve n null extra s) f = false := by
  have origin : null = 0 := rfl
  show ((store 8 (createNode null extra s).mem n _ (frameEntry s f + 8)).toNat % 2 == 1) = false
  rw [store_apply_of_not_mem (by unfold frameEntry; omega)]
  by_cases low : frameEntry s f + 8 < 16
  · have zero : (createNode null extra s).mem (frameEntry s f + 8) = 0 := by
      show store 8 (store 8 s.mem (null + 8) s.head.next) null extra (frameEntry s f + 8) = 0
      rw [store_apply_of_not_mem (by omega), empty, store_zero (by omega) (by omega)]
    rw [zero]
    rfl
  · rw [createNode_mem_apply (by omega)]
    exact used

theorem HeapInv.hit_changes {free₀ : Nat → Bool} {live : List Block} {n : Nat} {pre post : List Nat}
    (inv : HeapInv first free₀ s (pre ++ n :: post) live)
    (carved : Carved n (setCursorNext s (nodeNext s.mem n) pre.getLast?) t) : ¬ Restored s (pre ++ n :: post) t := by
  intro restored
  obtain ⟨taken, _⟩ := inv.take
  rcases carved with rfl | ⟨stop, extra, positive, small, rfl⟩
  · have same := congrArg List.length (linked_unique taken.chain restored.chain)
    simp at same
  · cases pre with
    | nil =>
      have here : stop = n := restored.chain.1
      subst here
      have total := restored.sizes stop (by simp)
      have large := inv.large stop (by simp)
      rw [carve_size small] at total
      omega
    | cons b pre =>
      -- The first node now points to itself.
      have here : stop = b := restored.chain.1
      subst here
      obtain ⟨a, last⟩ : ∃ a, (stop :: pre).getLast? = some a := ⟨_, List.getLast?_cons⟩
      have head : s.head.next = stop := inv.chain.1
      have apart := inv.apart_node _ (mem_extents_node (a := stop) (by simp))
      have large := inv.large stop (by simp)
      simp only [Extent.Apart, nodeExtent] at apart
      rw [last] at restored
      refine linked_next_ne restored.chain ?_
      rw [carve_next (by show s.head.next < 2 ^ 64; exact inv.head_lt) (by omega)]
      exact head

theorem FromNewPage.changes {n : Nat} (list : FreeList first s nodes) (new : FromNewPage first s n u)
    (carved : Carved n u t) : ¬ Restored s nodes t := by
  intro restored
  obtain ⟨f, m, total, w, taking, rfl, rfl⟩ := new
  have spent := taking.spent_created total
  have bounds := list.table.page_bounds taking.lt
  have head : nodeNext (createNode (first + 4096 * f) total w).mem (first + 4096 * f) = s.head.next := by
    rw [taking.globals]
    exact createNode_next list.head_lt
  rcases carved with rfl | ⟨stop, extra, positive, small, rfl⟩
  · exact restored.not_spent spent
  · cases nodes with
    | nil =>
      have here : stop = null := restored.chain
      subst here
      have lt : f < frameCount w := by
        rw [taking.count]
        exact taking.lt
      have used : frameFree (createNode (first + 4096 * f) total w) f = false := by
        rw [(taking.created total).free lt]
        exact taking.used
      have place : w.frameList = s.frameList := by rw [taking.globals]
      refine restored.not_spent ⟨f, taking.lt, taking.start, carve_flag ?_ (head.trans list.chain) used⟩
      show w.frameList + 16 * f + 16 ≤ first + 4096 * f
      have room := taking.lt
      omega
    | cons b rest =>
      have here : stop = b := restored.chain.1
      subst here
      have start : s.head.next = stop := list.chain.1
      have apart := list.off_page (a := stop) List.mem_cons_self taking.start
      refine linked_next_ne restored.chain ?_
      rw [carve_next (by show nodeNext _ _ < 2 ^ 64; rw [head]; exact list.head_lt) (by omega)]
      exact head.trans start

theorem search_null_iff (list : FreeList first s nodes) (wide : size < 2 ^ 64)
    (call : findAndRemoveNode .returns fuel size s = .ok (null, t)) : Restored s nodes t ↔ Exhausted s := by
  rcases findFrom_null wide list.table call with ⟨none, rfl⟩ | spent
  · exact ⟨fun _ => none, fun _ => ⟨list.chain, fun _ _ => rfl, fun _ _ => rfl⟩⟩
  · refine ⟨fun restored => absurd spent restored.not_spent, fun none => ?_⟩
    obtain ⟨h, lt, free, _⟩ := spent
    rw [none h lt] at free
    cases free

theorem search_null_misses (list : FreeList first s nodes)
    (call : findAndRemoveNode .returns fuel size s = .ok (null, t)) : ∀ a ∈ nodes, nodeSize s.mem a < uadd 64 16 size := by
  rcases first_miss_or_hit s nodes (uadd 64 16 size) with misses | ⟨pre, a, post, rfl, misses, fits⟩
  · exact misses
  · have same : null = a := congrArg Prod.fst (search_hit pre list.chain misses fits call)
    exact absurd same.symm (linked_ne_nil list.chain (by simp))

/-- A failed `malloc` leaves the free list and the flags of the frames as they
were exactly when no frame was free, a failed `aligned_alloc` exactly when, in
addition, no node on the list was large enough. -/
theorem failed_allocation_iff {free₀ : Nat → Bool} {live : List Block} (inv : HeapInv first free₀ s nodes live)
    (size alignment : Nat) :
    (∀ t, Returns (malloc .returns · size s) (null, t) → (Restored s nodes t ↔ Exhausted s)) ∧
    ∀ t, Returns (alignedAlloc .returns · alignment size s) (null, t) → (Restored s nodes t ↔
      Exhausted s ∧ ∀ a ∈ nodes, nodeSize s.mem a < uadd 64 16 (uadd 64 size (usub 64 alignment 1))) := by
  have list := inv.freeList
  constructor
  · rintro t ⟨bound, call⟩
    obtain ⟨n, u, search, ⟨rfl, _, rfl⟩ | ⟨nonnull, base, _⟩⟩ := alloc_cases (call bound (le_refl _))
    · exact search_null_iff list (Nat.mod_lt _ (by decide)) search
    · rcases search_cases list (Nat.mod_lt _ (by decide)) search with none | ⟨pre, post, rfl, _⟩ | ⟨f, m, total, w, new, rfl, _⟩
      · exact absurd none nonnull
      · have bounds := list.node_bounds (a := n) (by simp)
        rw [uadd_of_lt bounds.2] at base
        cases base
      · have bounds := list.table.page_bounds new.taking.lt
        rw [uadd_of_lt (by omega)] at base
        cases base
  · rintro t ⟨bound, call⟩
    obtain ⟨p, given⟩ := alignedAlloc_alloc (call bound (le_refl _))
    obtain ⟨n, u, search, ⟨rfl, _, rfl⟩ | ⟨nonnull, _, carved⟩⟩ := alloc_cases given
    · rw [search_null_iff list (Nat.mod_lt _ (by decide)) search]
      exact ⟨fun none => ⟨none, search_null_misses list search⟩, fun both => both.1⟩
    · rcases search_cases list (Nat.mod_lt _ (by decide)) search with none | ⟨pre, post, rfl, fits, rfl, _⟩ | new
      · exact absurd none nonnull
      · refine ⟨fun restored => absurd restored (inv.hit_changes carved), fun both => ?_⟩
        exact absurd (both.2 n (by simp)) (Nat.not_lt.mpr fits)
      · refine ⟨fun restored => absurd restored (new.fromNewPage.changes list carved), fun both => ?_⟩
        obtain ⟨f, _, _, _, new, _⟩ := new
        have free := new.taking.start
        rw [both.1 f new.taking.lt] at free
        cases free

/-! ### More than there is -/

theorem combinePages_exhausts {f m : Nat} (taking : Taking first s t f m)
    (long : ∀ m ≤ frameCount s, 4096 * m % 2 ^ 64 < size) (enough : frameCount s < fuel + m) :
    ∃ u, combinePages .returns (first + 4096 * f) size fuel (4096 * m % 2 ^ 64) m t = .ok (.fail, u) := by
  induction fuel generalizing m t with
  | zero =>
    obtain ⟨g, _⟩ := taking.last
    omega
  | succ fuel ih =>
    obtain ⟨g, _⟩ := taking.last
    rw [combinePages, if_pos (long m (by omega))]
    rcases pageAlloc_returns taking.table with ⟨_, alloc⟩ | ⟨i, u, alloc, granted⟩
    · rw [alloc]
      exact ⟨_, rfl⟩
    · have round : uadd 64 (4096 * m % 2 ^ 64) 4096 = 4096 * (m + 1) % 2 ^ 64 := by
        unfold uadd
        omega
      rw [alloc, ok_bind]
      simp only [if_neg (taking.table.page_bounds granted.lt).2.2, round]
      exact ih (taking.next granted) (by omega)

theorem combineBlocks_exhausts (table : FrameTable s first) (long : ∀ m ≤ frameCount s, 4096 * m % 2 ^ 64 < size) :
    ∃ t, ∀ fuel > frameCount s, combineBlocks .returns fuel size s = .ok (.fail, t) := by
  have once : ∃ t, combineBlocks .returns (frameCount s + 1) size s = .ok (.fail, t) := by
    unfold combineBlocks
    rcases pageAlloc_returns table with ⟨_, alloc⟩ | ⟨f, u, alloc, granted⟩
    · have first := long 0 (Nat.zero_le _)
      rw [alloc, ok_bind]
      dsimp only
      rw [combinePages, if_pos (by omega), alloc]
      exact ⟨_, rfl⟩
    · rw [alloc, ok_bind]
      exact combinePages_exhausts (granted.taking table) long (by omega)
  obtain ⟨t, call⟩ := once
  exact ⟨t, fun fuel more => combineBlocks_stable call more⟩

/-- A request for more than all the frames fails, when no node on the list serves it. -/
theorem malloc_exhausts (list : FreeList first s nodes) (small : size + 16 < 2 ^ 64) (large : 4096 ≤ size + 16)
    (misses : ∀ a ∈ nodes, nodeSize s.mem a < size + 16) (long : ∀ m ≤ frameCount s, 4096 * m % 2 ^ 64 < size) :
    ∃ t, Returns (findAndRemoveNode .returns · size s) (null, t) ∧ Returns (malloc .returns · size s) (null, t) := by
  obtain ⟨sum, sum'⟩ := uadd_header small
  obtain ⟨t, combine⟩ := combineBlocks_exhausts list.table long
  have search : ∀ fuel ≥ nodes.length + (frameCount s + 2), findAndRemoveNode .returns fuel size s = .ok (null, t) := by
    intro fuel enough
    obtain ⟨skip, stop⟩ := findAndRemoveNode_end .returns size fuel list.chain
      fun a member => by rw [sum]; have := misses a member; omega
    obtain ⟨rest, left⟩ : ∃ rest, fuel - nodes.length = rest + 1 := ⟨fuel - nodes.length - 1, by omega⟩
    rw [skip, left, findFrom, if_pos stop, sum', if_pos large, combine rest (by omega)]
    rfl
  refine ⟨t, ⟨_, search⟩, nodes.length + (frameCount s + 2), fun fuel enough => ?_⟩
  show alloc .returns fuel size 1 s = .ok (null, t)
  rw [alloc, malloc_request (by omega), search fuel enough]
  rfl

theorem smallMachine_exhausts (machine : SmallMachine s) :
    ∃ t, Returns (findAndRemoveNode .returns · 0x5000 s) (null, t) ∧ Returns (malloc .returns · 0x5000 s) (null, t) := by
  apply malloc_exhausts (heapInv_empty machine.table machine.empty).freeList (by decide) (by decide) (by simp)
  intro m le
  rw [machine.count] at le
  omega

theorem failed_allocation_iff_smallMap : ∃ s t, initializeAllocator .halts smallMap { mem := fun _ => 0 } = .ok s ∧
    Returns (malloc .returns · 0x5000 s) (null, t) ∧ (Restored s [] t ↔ Exhausted s) := by
  obtain ⟨s, machine⟩ := smallMachine
  obtain ⟨t, _, returned⟩ := smallMachine_exhausts machine
  exact ⟨s, t, machine.init, returned,
    (failed_allocation_iff (heapInv_empty machine.table machine.empty) 0x5000 1).1 t returned⟩

/-- A request for five pages on a machine with four fails, and leaves the first page taken. -/
theorem failed_allocation_keeps_page : ∃ s t, initializeAllocator .halts smallMap { mem := fun _ => 0 } = .ok s ∧
    HeapInv 0x101000 (frameFree s) s [] [] ∧ Returns (malloc .returns · 0x5000 s) (null, t) ∧ ¬ Restored s [] t := by
  obtain ⟨s, machine⟩ := smallMachine
  have inv := heapInv_empty machine.table machine.empty
  obtain ⟨t, ⟨bound, search⟩, returned⟩ := smallMachine_exhausts machine
  refine ⟨s, t, machine.init, inv, returned, fun restored => ?_⟩
  have none := (search_null_iff inv.freeList (by decide) (search bound (le_refl _))).mp restored
  have count := machine.count
  have free := machine.free 0 (by decide)
  rw [none 0 (by omega)] at free
  cases free

end System14
