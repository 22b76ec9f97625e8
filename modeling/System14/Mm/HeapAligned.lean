import System14.Mm.HeapRequest

/-!
# Aligned allocations

`_alloc` looks for a node that has room for the padding, but computes the rest
of the node as if there were none: the rest starts behind the padded block and
has the padding's bytes too many, and the header that stays counts them too
few. All is well where the padding is empty, as it is for `malloc`. The sums of
a size, an alignment and a header are not checked either.
-/

namespace System14
open ByteMem Run Chain Extent

variable {mode : Panic} {first size fuel n alignment : Nat} {free₀ : Nat → Bool} {s t u : Kernel} {nodes : List Nat}
  {live : List Block}

/-! ### The pointer that is returned -/

theorem alignedAlloc_trim
    (search : findAndRemoveNode mode fuel (uadd 64 size (usub 64 alignment 1)) s = .ok (n, t)) (nonnull : n ≠ null)
    (positive : alignment ≠ 0) (base : uadd 64 n 16 ≠ null) :
    alignedAlloc mode fuel alignment size s = .ok (alignUp 64 (uadd 64 n 16) alignment, trim n size alignment t) := by
  unfold alignedAlloc
  rw [alloc_trim search nonnull positive, ok_bind]
  simp only [if_neg base, pure_eq_ok]

theorem alignedAlloc_ok {r : Nat} (call : alignedAlloc mode fuel alignment size s = .ok (r, u)) (nonnull : r ≠ null) :
    ∃ n t, findAndRemoveNode mode fuel (uadd 64 size (usub 64 alignment 1)) s = .ok (n, t) ∧ n ≠ null ∧
      alignment ≠ 0 ∧ r = alignUp 64 (uadd 64 n 16) alignment ∧ u = trim n size alignment t := by
  unfold alignedAlloc at call
  obtain ⟨⟨p, v⟩, alloc, rest⟩ := bind_ok.mp call
  dsimp only at rest
  split at rest
  · cases rest
    exact absurd rfl nonnull
  · cases rest
    obtain ⟨n, t, search, found, positive, rfl, trimmed⟩ := alloc_ok alloc ‹_›
    exact ⟨n, t, search, found, positive, rfl, trimmed⟩

theorem malloc_eq_alignedAlloc (mode : Panic) (fuel size : Nat) (s : Kernel) :
    malloc mode fuel size s = alignedAlloc mode fuel 1 size s := by
  unfold malloc alignedAlloc
  cases call : alloc mode fuel size 1 s with
  | error e => rfl
  | ok r =>
    obtain ⟨p, u⟩ := r
    rw [ok_bind]
    dsimp only
    split
    · rename_i none
      rw [none]
      rfl
    · obtain ⟨n, t, _, _, _, rfl, _⟩ := alloc_ok call ‹_›
      have small : uadd 64 n 16 < 2 ^ 64 := Nat.mod_lt _ (by decide)
      rw [alignUp_one small]
      rfl

/-! ### What is left of the node -/

theorem carve_stop {stop extra : Nat} (small : extra < 2 ^ 64) (apart : n + 8 ≤ stop ∨ stop + 8 ≤ n) :
    nodeSize (carve n stop extra s).mem stop = extra := by
  show load 8 (store 8 (createNode stop extra s).mem n _) stop = extra
  rw [load_store_of_apart (by omega)]
  exact createNode_size small

theorem carve_node {stop extra : Nat} (apart : n + 8 ≤ stop ∨ stop + 16 ≤ n) :
    nodeSize (carve n stop extra s).mem n = usub 64 (nodeSize s.mem n) extra := by
  have kept : nodeSize (createNode stop extra s).mem n = nodeSize s.mem n :=
    load_congr fun x low high => createNode_mem_apply (by omega)
  show load 8 (store 8 (createNode stop extra s).mem n _) n = _
  rw [load_store_same, kept]
  exact Nat.mod_eq_of_lt (Nat.mod_lt _ (by decide))

/-- The node is cut behind `size` bytes of payload, and the rest goes to `stop`. -/
structure Trimmed (n size stop : Nat) (t u : Kernel) : Prop where
  node : nodeSize u.mem n = 16 + size
  same : nodeSize t.mem n = 16 + size → u = t
  head : 16 + size < nodeSize t.mem n → u.head.next = stop ∧ nodeSize u.mem stop = nodeSize t.mem n - 16 - size

theorem trim_trimmed {stop : Nat} (here : uadd 64 (alignUp 64 (uadd 64 n 16) alignment) size = stop)
    (covers : 16 + size ≤ nodeSize t.mem n) (behind : n + 16 ≤ stop) : Trimmed n size stop t (trim n size alignment t) := by
  have small : nodeSize t.mem n < 2 ^ 64 := load_lt 8 _ _
  have extra := extraSize_eq small covers
  unfold trim
  rw [here, extra]
  by_cases whole : nodeSize t.mem n = 16 + size
  · rw [if_neg (by omega)]
    exact ⟨whole, fun _ => rfl, fun more => absurd whole (Nat.ne_of_gt more)⟩
  · rw [if_pos (by omega)]
    refine ⟨?_, fun same => absurd same whole, fun _ => ⟨rfl, carve_stop (by omega) (by omega)⟩⟩
    rw [carve_node (by omega), usub_of_le small (by omega)]
    omega

/-! ### Inside the node -/

/-- The block is aligned and inside the node, with the rest that goes back on
the list next to it, and the size in the node's header reaches its end. -/
structure AlignedInside (n total alignment size r : Nat) (u : Kernel) : Prop where
  aligned : alignment ∣ r
  inside : n + 16 ≤ r ∧ r + size ≤ n + total
  rest : 0 < extraSize total size →
    (Extent.mk u.head.next (max 16 (nodeSize u.mem u.head.next))).Within ⟨n, total⟩ ∧
      (Extent.mk u.head.next (max 16 (nodeSize u.mem u.head.next))).Apart ⟨r, size⟩
  covers : r + size ≤ n + nodeSize u.mem n

theorem request_eq (positive : 1 ≤ alignment) (wide : size + alignment + 15 < 2 ^ 64) :
    uadd 64 size (usub 64 alignment 1) = size + alignment - 1 := by
  rw [usub_of_le (by omega) positive, uadd_of_lt (by omega)]
  omega

/-- In a well-formed heap the node that is found has room for the padding, and lies in the address space. -/
theorem HeapInv.fetched_room (inv : HeapInv first free₀ s nodes live) (positive : 1 ≤ alignment)
    (wide : size + alignment + 15 < 2 ^ 64) (call : findAndRemoveNode mode fuel (size + alignment - 1) s = .ok (n, t))
    (nonnull : n ≠ null) :
    size + alignment + 15 ≤ nodeSize t.mem n ∧ n + (size + alignment + 15) < 2 ^ 64 := by
  have fetched := inv.fetched (by omega) call nonnull
  have top := inv.table.top_le
  have room := fetched.room (by omega)
  have fits := fetched.fits
  rw [uadd_of_lt (by omega)] at fits
  omega

/-- For a node with room for the padding the arithmetic of `_alloc` is exact. -/
theorem trim_exact (positive : 1 ≤ alignment) (fits : size + alignment + 15 ≤ nodeSize t.mem n)
    (room : n + (size + alignment + 15) < 2 ^ 64) :
    uadd 64 n 16 = n + 16 ∧ n + 16 + (alignment - 1) < 2 ^ 64 ∧
      Trimmed n size (alignUp 64 (n + 16) alignment + size) t (trim n size alignment t) := by
  have base : uadd 64 n 16 = n + 16 := uadd_of_lt (by omega)
  have small : n + 16 + (alignment - 1) < 2 ^ 64 := by omega
  obtain ⟨_, low, high⟩ := alignUp_bounds (w := 64) positive small
  refine ⟨base, small, trim_trimmed ?_ (by omega) (by omega)⟩
  rw [base]
  exact uadd_of_lt (by omega)

theorem Trimmed.inside_iff (trimmed : Trimmed n size (alignUp 64 (n + 16) alignment + size) t u)
    (positive : 1 ≤ alignment) (small : n + 16 + (alignment - 1) < 2 ^ 64)
    (fits : size + alignment + 15 ≤ nodeSize t.mem n) :
    AlignedInside n (nodeSize t.mem n) alignment size (alignUp 64 (n + 16) alignment) u ↔
      alignment ∣ n + 16 ∧ SplitClean (nodeSize t.mem n) size := by
  obtain ⟨divides, low, high⟩ := alignUp_bounds (w := 64) positive small
  have extra : extraSize (nodeSize t.mem n) size = nodeSize t.mem n - 16 - size :=
    extraSize_eq (load_lt 8 _ _) (by omega)
  rw [← alignUp_eq_self (w := 64) positive small, SplitClean]
  constructor
  · rintro ⟨_, _, rest, covers⟩
    rw [trimmed.node] at covers
    refine ⟨by omega, ?_⟩
    by_cases whole : nodeSize t.mem n = 16 + size
    · exact Or.inl whole
    · obtain ⟨head, total⟩ := trimmed.head (by omega)
      have within := (rest (by omega)).1
      rw [head, total] at within
      simp only [Extent.Within] at within
      omega
  · rintro ⟨start, split⟩
    refine ⟨divides, by omega, fun more => ?_, by rw [trimmed.node]; omega⟩
    obtain ⟨head, total⟩ := trimmed.head (by omega)
    rw [head, total]
    simp only [Extent.Within, Extent.Apart]
    omega

theorem alignedAlloc_inside (positive : 1 ≤ alignment) (wide : size + alignment + 15 < 2 ^ 64)
    (search : Returns (findAndRemoveNode mode · (size + alignment - 1) s) (n, t)) (nonnull : n ≠ null)
    (fits : size + alignment + 15 ≤ nodeSize t.mem n) (room : n + (size + alignment + 15) < 2 ^ 64) :
    ∃ r u, Returns (alignedAlloc mode · alignment size s) (r, u) ∧
      (AlignedInside n (nodeSize t.mem n) alignment size r u ↔
        alignment ∣ n + 16 ∧ SplitClean (nodeSize t.mem n) size) := by
  obtain ⟨bound, call⟩ := search
  obtain ⟨base, small, trimmed⟩ := trim_exact positive fits room
  refine ⟨_, _, ⟨bound, fun fuel enough => ?_⟩, trimmed.inside_iff positive small fits⟩
  have found : findAndRemoveNode mode fuel (size + alignment - 1) s = .ok (n, t) := call fuel enough
  rw [← request_eq positive wide] at found
  show alignedAlloc mode fuel alignment size s = _
  rw [alignedAlloc_trim found nonnull (by omega) (by rw [base]; exact Nat.succ_ne_zero _), base]

/-- An aligned block stays inside the node it was carved from exactly when it
needs no padding and the rest of the node is nothing or has room for a header.
The node has the size that was asked for, as it does in a well-formed heap. -/
theorem aligned_inside_iff (positive : 1 ≤ alignment) (wide : size + alignment + 15 < 2 ^ 64)
    (search : Returns (findAndRemoveNode mode · (size + alignment - 1) s) (n, t)) (nonnull : n ≠ null) :
    (size + alignment + 15 ≤ nodeSize t.mem n → n + (size + alignment + 15) < 2 ^ 64 →
      ∃ r u, Returns (alignedAlloc mode · alignment size s) (r, u) ∧
        (AlignedInside n (nodeSize t.mem n) alignment size r u ↔
          alignment ∣ n + 16 ∧ SplitClean (nodeSize t.mem n) size)) ∧
    ∀ first free₀ nodes live, HeapInv first free₀ s nodes live →
      size + alignment + 15 ≤ nodeSize t.mem n ∧ n + (size + alignment + 15) < 2 ^ 64 := by
  refine ⟨alignedAlloc_inside positive wide search nonnull, fun first free₀ nodes live inv => ?_⟩
  obtain ⟨bound, call⟩ := search
  exact inv.fetched_room positive wide (call bound (le_refl _)) nonnull

/-- The first request on the small machine is served from its first page. -/
theorem SmallMachine.search (machine : SmallMachine s) (small : uadd 64 size 16 < 4096) :
    ∃ t, Returns (findAndRemoveNode .halts · size s) (0x101000, t) ∧ nodeSize t.mem 0x101000 = 4096 := by
  have count := machine.count
  obtain ⟨t, call, granted⟩ := pageAlloc_grants .halts machine.table (by omega) (machine.free 0 (by omega)) (by omega)
  obtain ⟨u, _, search, found, _⟩ :=
    findAndRemoveNode_page (heapInv_empty machine.table machine.empty) call granted small
  refine ⟨u, ⟨1, fun fuel enough => ?_⟩, found.size⟩
  obtain ⟨k, rfl⟩ : ∃ k, fuel = k + 1 := ⟨fuel - 1, by omega⟩
  exact search k

theorem aligned_inside_iff_smallMap : ∃ s r u, initializeAllocator .halts smallMap { mem := fun _ => 0 } = .ok s ∧
    Returns (alignedAlloc .halts · 16 100 s) (r, u) ∧ AlignedInside 0x101000 4096 16 100 r u := by
  obtain ⟨s, machine⟩ := smallMachine
  obtain ⟨t, search, total⟩ := machine.search (show uadd 64 (100 + 16 - 1) 16 < 4096 by decide)
  obtain ⟨r, u, returned, inside⟩ := (aligned_inside_iff (by decide) (by decide) search (by decide)).1
    (by rw [total]; decide) (by decide)
  rw [total] at inside
  exact ⟨s, r, u, machine.init, returned, inside.mpr ⟨by decide, Or.inr (by decide)⟩⟩

/-- A first request for 100 bytes on a boundary of 64 is padded by 48 bytes, and
the node for the rest of its page runs 48 bytes into the page behind it. -/
theorem smallMap_aligned_outside : ∃ s t r u, initializeAllocator .halts smallMap { mem := fun _ => 0 } = .ok s ∧
    HeapInv 0x101000 (frameFree s) s [] [] ∧ Returns (findAndRemoveNode .halts · (100 + 64 - 1) s) (0x101000, t) ∧
    nodeSize t.mem 0x101000 = 4096 ∧ Returns (alignedAlloc .halts · 64 100 s) (r, u) ∧
    ¬ AlignedInside 0x101000 4096 64 100 r u := by
  obtain ⟨s, machine⟩ := smallMachine
  obtain ⟨t, search, total⟩ := machine.search (show uadd 64 (100 + 64 - 1) 16 < 4096 by decide)
  obtain ⟨r, u, returned, inside⟩ := alignedAlloc_inside (by decide) (by decide) search (by decide)
    (by rw [total]; decide) (by decide)
  rw [total] at inside
  exact ⟨s, t, r, u, machine.init, heapInv_empty machine.table machine.empty, search, total, returned,
    fun whole => absurd (inside.mp whole).1 (by decide)⟩

/-! ### Sums that wrap -/

/-- The node has `size` bytes from `r` on, and what `_alloc` computes as its
rest is what remains of it behind a header and `size` bytes. -/
structure LargeEnough (n total size r : Nat) : Prop where
  inside : n ≤ r ∧ r + size ≤ n + total
  address : r + size ≤ 2 ^ 64
  rest : 16 + size ≤ total ∧ extraSize total size = total - 16 - size

theorem largeEnough_of_room (positive : 1 ≤ alignment) (fits : size + alignment + 15 ≤ nodeSize t.mem n)
    (room : n + (size + alignment + 15) < 2 ^ 64) :
    LargeEnough n (nodeSize t.mem n) size (alignUp 64 (uadd 64 n 16) alignment) := by
  obtain ⟨base, small, _⟩ := trim_exact positive fits room
  obtain ⟨_, low, high⟩ := alignUp_bounds (w := 64) positive small
  rw [base]
  exact ⟨by omega, by omega, by omega, extraSize_eq (load_lt 8 _ _) (by omega)⟩

/-- A sum that wraps leaves a node too small: a multiple of the alignment and
`size` bytes behind it do not fit below the last address, or not below the last frame. -/
theorem Fetched.too_small {r : Nat} (fetched : Fetched first s (uadd 64 size (usub 64 alignment 1)) n t)
    (table : FrameTable s first) (positive : 1 ≤ alignment) (bound : alignment < 2 ^ 64)
    (divides : alignment ∣ r) (nonnull : r ≠ null) (wraps : 2 ^ 64 ≤ size + alignment + 15) :
    ¬ LargeEnough n (nodeSize t.mem n) size r := by
  rintro ⟨inside, address, _⟩
  have top := table.top_le
  have above : alignment ≤ r := Nat.le_of_dvd (Nat.pos_of_ne_zero nonnull) divides
  by_cases header : size + (alignment - 1) < 2 ^ 64
  · have short := fetched.short
    rw [usub_of_le bound positive, uadd_of_lt header] at short
    have few : uadd 64 (size + (alignment - 1)) 16 < 4096 := by
      unfold uadd
      omega
    have stop := short few
    omega
  · omega

theorem alignedAlloc_large {r : Nat} (inv : HeapInv first free₀ s nodes live) (positive : 1 ≤ alignment)
    (bound : alignment < 2 ^ 64)
    (call : Returns (alignedAlloc mode · alignment size s) (r, u)) (nonnull : r ≠ null) :
    ∃ n t, Returns (findAndRemoveNode mode · (uadd 64 size (usub 64 alignment 1)) s) (n, t) ∧
      (LargeEnough n (nodeSize t.mem n) size r ↔ size + alignment + 15 < 2 ^ 64) := by
  obtain ⟨fuel, returned⟩ := call
  obtain ⟨n, t, search, found, _, rfl, _⟩ := alignedAlloc_ok (returned fuel (le_refl _)) nonnull
  have fetched := inv.fetched (Nat.mod_lt _ (by decide)) search found
  refine ⟨n, t, findAndRemoveNode_returns search, fun large => ?_, fun small => ?_⟩
  · by_contra wraps
    exact fetched.too_small inv.table positive bound (Nat.dvd_mul_left _ _) nonnull (by omega) large
  · rw [request_eq positive small] at search
    obtain ⟨fits, room⟩ := inv.fetched_room positive small search found
    exact largeEnough_of_room positive fits room

/-- A block is as large as was asked for exactly when the sum of size,
alignment and header does not wrap. -/
theorem allocation_large_iff (inv : HeapInv first free₀ s nodes live) (wide : size < 2 ^ 64) :
    (∀ r u, Returns (malloc mode · size s) (r, u) → r ≠ null →
      ∃ n t, Returns (findAndRemoveNode mode · size s) (n, t) ∧
        (LargeEnough n (nodeSize t.mem n) size r ↔ size + 16 < 2 ^ 64)) ∧
    ∀ alignment, 1 ≤ alignment → alignment < 2 ^ 64 →
      ∀ r u, Returns (alignedAlloc mode · alignment size s) (r, u) → r ≠ null →
        ∃ n t, Returns (findAndRemoveNode mode · (uadd 64 size (usub 64 alignment 1)) s) (n, t) ∧
          (LargeEnough n (nodeSize t.mem n) size r ↔ size + alignment + 15 < 2 ^ 64) := by
  constructor
  · intro r u returned nonnull
    simp only [malloc_eq_alignedAlloc] at returned
    obtain ⟨n, t, search, large⟩ := alignedAlloc_large inv (le_refl 1) (by decide) returned nonnull
    rw [malloc_request wide] at search
    refine ⟨n, t, search, large.trans ?_⟩
    omega
  · intro alignment positive bound r u returned nonnull
    exact alignedAlloc_large inv positive bound returned nonnull

theorem smallMachine_malloc (machine : SmallMachine s) (wide : size < 2 ^ 64) (small : uadd 64 size 16 < 4096) :
    ∃ t u, Returns (findAndRemoveNode .halts · size s) (0x101000, t) ∧ nodeSize t.mem 0x101000 = 4096 ∧
      Returns (malloc .halts · size s) (0x101010, u) := by
  obtain ⟨t, ⟨bound, search⟩, total⟩ := machine.search small
  refine ⟨t, trim 0x101000 size 1 t, ⟨bound, search⟩, total, bound, fun fuel enough => ?_⟩
  have found : findAndRemoveNode .halts fuel size s = .ok (0x101000, t) := search fuel enough
  rw [← malloc_request wide] at found
  exact alloc_trim found (by decide) (by decide)

theorem allocation_large_iff_smallMap : ∃ s n t u, initializeAllocator .halts smallMap { mem := fun _ => 0 } = .ok s ∧
    Returns (malloc .halts · 100 s) (0x101010, u) ∧ Returns (findAndRemoveNode .halts · 100 s) (n, t) ∧
    LargeEnough n (nodeSize t.mem n) 100 0x101010 := by
  obtain ⟨s, machine⟩ := smallMachine
  obtain ⟨_, u, _, _, returned⟩ := smallMachine_malloc machine (show 100 < 2 ^ 64 by decide) (by decide)
  obtain ⟨n, t, search, large⟩ :=
    (allocation_large_iff (heapInv_empty machine.table machine.empty) (show 100 < 2 ^ 64 by decide)).1 _ u returned
      (by decide)
  exact ⟨s, n, t, u, machine.init, returned, search, large.mpr (by decide)⟩

/-- A request for 16 bytes less than there are addresses is served from one page. -/
theorem smallMap_malloc_wraps : ∃ s t u, initializeAllocator .halts smallMap { mem := fun _ => 0 } = .ok s ∧
    HeapInv 0x101000 (frameFree s) s [] [] ∧ Returns (malloc .halts · (2 ^ 64 - 16) s) (0x101010, u) ∧
    Returns (findAndRemoveNode .halts · (2 ^ 64 - 16) s) (0x101000, t) ∧ nodeSize t.mem 0x101000 = 4096 ∧
    ¬ LargeEnough 0x101000 4096 (2 ^ 64 - 16) 0x101010 := by
  obtain ⟨s, machine⟩ := smallMachine
  obtain ⟨t, u, search, total, returned⟩ := smallMachine_malloc machine (show 2 ^ 64 - 16 < 2 ^ 64 by decide) (by decide)
  refine ⟨s, t, u, machine.init, heapInv_empty machine.table machine.empty, returned, search, total, fun large => ?_⟩
  exact absurd large.inside.2 (by decide)

end System14
