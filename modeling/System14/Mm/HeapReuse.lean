import System14.Mm.HeapAligned
import System14.Mm.HeapSplit

/-!
# Blocks that are asked for again

A block that is freed goes to the front of the free list with the size that its
own header records, so the next request for that size takes it back. The list is
what it was unless the block lies over the header of a free node: pages that
`CombineBlocks` takes need not follow one another, but their node claims the
bytes behind the first of them.
-/

namespace System14
open ByteMem Run Chain Extent

variable {mode : Panic} {first size n : Nat} {free₀ : Nat → Bool} {s t u v : Kernel} {nodes : List Nat}
  {live : List Block} {m : Mem}

/-! ### The free list, node by node -/

/-- The `k`-th node that following the free list comes to, or null. -/
def nodeAt (s : Kernel) : Nat → Nat := nth (nodeNext s.mem) null s.head.next

def nodeHeader (a : Nat) : Extent := ⟨a, 16⟩

/-- Both free lists have the same nodes with the same sizes, in the same order. -/
def SameNodes (s t : Kernel) : Prop :=
  ∀ k, nodeAt t k = nodeAt s k ∧ (nodeAt s k ≠ null → nodeSize t.mem (nodeAt s k) = nodeSize s.mem (nodeAt s k))

theorem sameNodes_iff (head : v.head.next = u.head.next) :
    SameNodes u v ↔ ∀ k, nodeAt u k ≠ null → ∀ x, (nodeHeader (nodeAt u k)).Has x → v.mem x = u.mem x := by
  constructor
  · intro same k nonnull x has
    obtain ⟨here, size⟩ := same k
    have next : nodeNext v.mem (nodeAt u k) = nodeNext u.mem (nodeAt u k) := by
      have step := (same (k + 1)).1
      unfold nodeAt at step here nonnull ⊢
      rw [nth, nth, here, if_neg nonnull, if_neg nonnull] at step
      exact step
    simp only [nodeHeader, Extent.Has] at has
    by_cases low : x < nodeAt u k + 8
    · exact load_inj (size nonnull) has.1 low
    · exact load_inj next (by omega) (by omega)
  · intro same
    have headers : ∀ k, nodeAt u k ≠ null → ∀ x, nodeAt u k ≤ x → x < nodeAt u k + 16 → v.mem x = u.mem x :=
      fun k nonnull x low high => same k nonnull x ⟨low, high⟩
    intro k
    constructor
    · unfold nodeAt
      rw [head]
      apply nth_congr
      intro k nonnull
      exact load_congr fun x low high => headers k nonnull x (by unfold nodeAt; omega) (by unfold nodeAt; omega)
    · intro nonnull
      exact load_congr fun x low high => headers k nonnull x low (by omega)

/-! ### Freed and asked for again -/

/-- Freed in the memory `m`, the block at `p` is what the next request for
`size` bytes gets; no frame is taken and the free list is as it was in `u`. -/
def Reused (mode : Panic) (size p : Nat) (u : Kernel) (m : Mem) : Prop :=
  ∃ v, Returns (malloc mode · size (heapFree p { u with mem := m })) (p, v) ∧ SameTable u v ∧ SameNodes u v

/-- No node on the free list has a byte of its header in the block at `p`, or
among those before it that `free` changes. -/
def BlockClear (u : Kernel) (p size : Nat) : Prop :=
  ∀ k, nodeAt u k ≠ null → ∀ x, (nodeHeader (nodeAt u k)).Has x →
    ¬ (Extent.mk p size).Has x ∧ store 8 u.mem (p - 8) u.head.next x = u.mem x

/-- What `malloc` needs of the block that it has just returned, to return it again. -/
structure Given (u : Kernel) (n size : Nat) : Prop where
  header : nodeSize u.mem n = 16 + size
  above : u.frameList + 16 * frameCount u ≤ n
  nonnull : n ≠ null
  room : n + 16 + size < 2 ^ 64
  head : u.head.next < 2 ^ 64

theorem Given.header_kept (given : Given u n size) (payload : ∀ x, m x ≠ u.mem x → (Extent.mk (n + 16) size).Has x) :
    nodeSize m n = 16 + size := by
  rw [← given.header]
  refine load_congr fun x low high => ?_
  by_contra changed
  have has := payload x changed
  simp only [Extent.Has] at has
  omega

theorem heapFree_payload (given : Given u n size) (payload : ∀ x, m x ≠ u.mem x → (Extent.mk (n + 16) size).Has x) :
    heapFree (n + 16) { u with mem := m } =
      { u with mem := store 8 m (n + 8) u.head.next, head := { u.head with next := n } } := by
  have room := given.room
  have header := given.header_kept payload
  have kept : load 8 (store 8 m (n + 8) u.head.next) n = 16 + size := by
    rw [load_store_of_apart (by omega)]
    exact header
  unfold heapFree
  rw [usub_of_le (by omega) (by omega), Nat.add_sub_cancel]
  dsimp only
  rw [header, createNode]
  simp only
  rw [← kept, store_load]

theorem Given.freed (given : Given u n size) :
    heapFree (n + 16) u = { u with mem := store 8 u.mem (n + 8) u.head.next, head := { u.head with next := n } } :=
  heapFree_payload given fun _ changed => absurd rfl changed

theorem malloc_freed (given : Given u n size) (payload : ∀ x, m x ≠ u.mem x → (Extent.mk (n + 16) size).Has x) :
    Returns (malloc mode · size (heapFree (n + 16) { u with mem := m }))
      (n + 16, { u with mem := store 8 m (n + 8) u.head.next }) := by
  rw [heapFree_payload given payload]
  obtain ⟨w, value⟩ : ∃ w : Kernel, { u with mem := store 8 m (n + 8) u.head.next, head := { u.head with next := n } } = w :=
    ⟨_, rfl⟩
  have room := given.room
  have mem : store 8 m (n + 8) u.head.next = w.mem := by rw [← value]
  have header : nodeSize w.mem n = 16 + size := by
    rw [← mem, nodeSize, load_store_of_apart (by omega)]
    exact given.header_kept payload
  have next : nodeNext w.mem n = u.head.next := by
    rw [← mem, nodeNext, load_store_same]
    exact Nat.mod_eq_of_lt given.head
  have start : cursorNext w none = n := by
    rw [← value]
    rfl
  have after : setCursorNext w u.head.next none = { u with mem := store 8 m (n + 8) u.head.next } := by
    rw [← value]
    rfl
  have sum := (uadd_header (show size + 16 < 2 ^ 64 by omega)).1
  rw [value]
  refine ⟨1, fun fuel enough => ?_⟩
  obtain ⟨rest, rfl⟩ : ∃ rest, fuel = rest + 1 := ⟨fuel - 1, by omega⟩
  have search : findAndRemoveNode mode (rest + 1) size w = .ok (n, { u with mem := store 8 m (n + 8) u.head.next }) := by
    rw [← after]
    simp only [findAndRemoveNode, findFrom, tryNext, start, if_neg given.nonnull, header, next, sum, le_refl, if_true]
  have cut := malloc_cut search given.nonnull room (by simp only [mem, header, le_refl])
  rw [cutNode] at cut
  simp only [mem, header, if_true] at cut ⊢
  exact cut

theorem reused_iff (given : Given u n size) (payload : ∀ x, m x ≠ u.mem x → (Extent.mk (n + 16) size).Has x) :
    Reused mode size (n + 16) u m ↔ ∀ k, nodeAt u k ≠ null → ∀ x, (nodeHeader (nodeAt u k)).Has x →
      store 8 m (n + 8) u.head.next x = u.mem x := by
  have again : Returns (malloc mode · size (heapFree (n + 16) { u with mem := m })) _ := malloc_freed given payload
  have same : SameNodes u { u with mem := store 8 m (n + 8) u.head.next } ↔ _ := sameNodes_iff rfl
  rw [← same]
  constructor
  · rintro ⟨v, returned, _, nodes⟩
    cases again.unique returned
    exact nodes
  · intro nodes
    refine ⟨_, again, ⟨rfl, rfl, fun x _ high => ?_⟩, nodes⟩
    have above := given.above
    show store 8 m (n + 8) u.head.next x = u.mem x
    rw [store_apply_of_not_mem (by omega)]
    by_contra changed
    have has := payload x changed
    simp only [Extent.Has] at has
    omega

/-- Whatever the caller writes to the block, it is reused, exactly when the block is clear of the free list. -/
theorem reused_all_iff (given : Given u n size) :
    (∀ m : Mem, (∀ x, m x ≠ u.mem x → (Extent.mk (n + 16) size).Has x) → Reused mode size (n + 16) u m) ↔
      BlockClear u (n + 16) size := by
  constructor
  · intro reused k nonnull x has
    have link := (reused_iff given fun x changed => absurd rfl changed).mp
      (reused u.mem fun x changed => absurd rfl changed) k nonnull x has
    refine ⟨fun inside => ?_, link⟩
    -- A caller that changes this byte changes the header.
    have writes : ∀ y, Function.update u.mem x (u.mem x + 1) y ≠ u.mem y → (Extent.mk (n + 16) size).Has y := by
      intro y changed
      by_cases here : y = x
      · rw [here]
        exact inside
      · exact absurd (Function.update_of_ne here _ _) changed
    have kept := (reused_iff given writes).mp (reused _ writes) k nonnull x has
    simp only [Extent.Has] at inside
    rw [store_apply_of_not_mem (by omega), Function.update_self] at kept
    exact absurd kept (by simp)
  · intro clear m payload
    apply (reused_iff given payload).mpr
    intro k nonnull x has
    obtain ⟨outside, link⟩ := clear k nonnull x has
    by_cases inLink : n + 8 ≤ x ∧ x < n + 8 + 8
    · rw [← link]
      exact store_apply_of_mem inLink.1 inLink.2
    · rw [store_apply_of_not_mem (by omega)]
      by_contra changed
      exact outside (payload x changed)

/-! ### The block that `malloc` returned -/

theorem blockClear_of_list (chain : Linked (nodeNext u.mem) null u.head.next nodes)
    (off : ∀ a ∈ nodes, ∀ x, (nodeHeader a).Has x → ¬ (Extent.mk n (16 + size)).Has x) : BlockClear u (n + 16) size := by
  intro k nonnull x has
  have outside := off _ (linked_nth_mem chain nonnull) x has
  simp only [Extent.Has] at outside ⊢
  exact ⟨by omega, store_apply_of_not_mem (by omega)⟩

/-- A node of the list is apart from the others, so what is made of it is too. -/
theorem FirstFit.blockClear {pre post : List Nat} (fit : FirstFit s pre post n size u)
    (free : FreeNodes s (pre ++ n :: post)) (split : SplitClean (nodeSize s.mem n) size) : BlockClear u (n + 16) size := by
  apply blockClear_of_list fit.list
  intro a member x header inside
  simp only [nodeHeader, Extent.Has] at header inside
  rcases List.mem_append.mp member with rest | member
  · unfold remainder at rest
    split at rest
    · cases rest
    · rw [List.mem_singleton.mp rest] at header
      omega
  · have apart := free.apart_node a member
    have large := free.large a (mem_unlinked member)
    simp only [Extent.Apart, nodeExtent] at apart
    have covers := split.covers
    omega

/-- When the node is new, the other nodes are those of the list before, unless
the rest of the new node falls on one of their headers. -/
theorem ServedNew.list_cut (new : ServedNew first s nodes size n t) (list : FreeList first s nodes)
    (off : nodeSize t.mem n ≠ 16 + size → ∀ a ∈ nodes, (nodeHeader a).Apart (nodeHeader (n + 16 + size))) :
    Linked (nodeNext (cutNode n size t).mem) null (cutNode n size t).head.next
      (remainder n (nodeSize t.mem n) size ++ nodes) := by
  obtain ⟨chain, others⟩ := new.others list
  apply cutNode_list chain (new.fetched list).head
  intro a member
  by_cases whole : nodeSize t.mem n = 16 + size
  · rw [cutNode, if_pos whole]
  · rw [cutNode, if_neg whole]
    refine load_congr fun x low high => ?_
    have far := (others a member).2
    have clear := off whole a member
    simp only [Extent.Apart, nodeHeader] at clear
    rw [createNode_mem_apply (by omega)]
    exact store_apply_of_not_mem (by omega)

theorem ServedNew.blockClear_iff (new : ServedNew first s nodes size n t) (list : FreeList first s nodes)
    (off : nodeSize t.mem n ≠ 16 + size → ∀ a ∈ nodes, (nodeHeader a).Apart (nodeHeader (n + 16 + size))) :
    BlockClear (cutNode n size t) (n + 16) size ↔
      ∀ a ∈ nodes, ∀ x, (nodeHeader a).Has x → ¬ (Extent.mk (n + 16) size).Has x := by
  have chain := new.list_cut list off
  constructor
  · intro clear a member x has
    obtain ⟨k, here⟩ := linked_mem_nth chain (List.mem_append_right _ member)
    have nonnull := linked_ne_nil list.chain member
    rw [← here] at has nonnull
    exact (clear k nonnull x has).1
  · intro clear
    apply blockClear_of_list chain
    intro a member x header inside
    rcases List.mem_append.mp member with rest | member
    · unfold remainder at rest
      split at rest
      · cases rest
      · rw [List.mem_singleton.mp rest] at header
        simp only [nodeHeader, Extent.Has] at header inside
        omega
    · have outside := clear a member x header
      have far := ((new.others list).2 a member).2
      simp only [nodeHeader, Extent.Has] at header inside outside
      omega

theorem HeapInv.search_table (inv : HeapInv first free₀ s nodes live) (wide : size < 2 ^ 64) {fuel : Nat}
    (call : findAndRemoveNode mode fuel size s = .ok (n, t)) (nonnull : n ≠ null) :
    t.frameList = s.frameList ∧ frameCount t = frameCount s := by
  rcases search_cases inv.freeList wide (findFrom_any call) with none | ⟨pre, post, _, _, rfl, _⟩ | new
  · exact absurd none nonnull
  · rw [setCursorNext_globals]
    exact ⟨rfl, rfl⟩
  · obtain ⟨f, m, total, w, new, _, rfl⟩ := new
    have globals := new.taking.globals
    exact ⟨(congrArg Kernel.frameList globals :), new.taking.count⟩

/-- What cutting the node that a search for `request` bytes found leaves of it. -/
theorem HeapInv.given {fuel request : Nat} (inv : HeapInv first free₀ s nodes live) (wide : request < 2 ^ 64)
    (search : findAndRemoveNode mode fuel request s = .ok (n, t)) (nonnull : n ≠ null) (room : n + 16 + size < 2 ^ 64) :
    Given (cutNode n size t) n size := by
  have fetched := inv.fetched wide search nonnull
  obtain ⟨list, count⟩ := inv.search_table wide search nonnull
  refine ⟨cutNode_size (by omega), ?_, nonnull, room, ?_⟩
  · rw [cutNode_globals]
    show t.frameList + 16 * frameCount t ≤ n
    rw [list, count]
    exact fetched.above
  · unfold cutNode
    split
    · exact fetched.head
    · show n + 16 + size < 2 ^ 64
      exact room

theorem HeapInv.malloc_given {fuel : Nat} (inv : HeapInv first free₀ s nodes live) (wide : size + 16 < 2 ^ 64)
    (search : findAndRemoveNode mode fuel size s = .ok (n, t)) (nonnull : n ≠ null)
    (split : SplitClean (nodeSize t.mem n) size) :
    malloc mode fuel size s = .ok (n + 16, cutNode n size t) ∧ Given (cutNode n size t) n size := by
  have fetched := inv.fetched (by omega) search nonnull
  have top := inv.table.top_le
  have room := fetched.room wide
  have covers := split.covers
  exact ⟨malloc_cut search nonnull (by omega) covers, inv.given (by omega) search nonnull (by omega)⟩

theorem HeapInv.blockClear {fuel : Nat} (inv : HeapInv first free₀ s nodes live) (wide : size + 16 < 2 ^ 64)
    (search : findAndRemoveNode mode fuel size s = .ok (n, t)) (nonnull : n ≠ null)
    (split : SplitClean (nodeSize t.mem n) size) :
    (n ∈ nodes → BlockClear (cutNode n size t) (n + 16) size) ∧
      (n ∉ nodes → (nodeSize t.mem n ≠ 16 + size → ∀ a ∈ nodes, (nodeHeader a).Apart (nodeHeader (n + 16 + size))) →
        (BlockClear (cutNode n size t) (n + 16) size ↔
          ∀ a ∈ nodes, ∀ x, (nodeHeader a).Has x → ¬ (Extent.mk (n + 16) size).Has x)) := by
  rcases search_cases inv.freeList (by omega) (findFrom_any search) with none | ⟨pre, post, rfl, fits, rfl, _⟩ | new
  · exact absurd none nonnull
  · have free := inv.freeNodes
    have split : SplitClean (nodeSize s.mem n) size := by
      rw [← free.unlink.2.1 n (by simp)]
      exact split
    have bounded : ∀ a ∈ pre ++ n :: post, a + nodeSize s.mem a < 2 ^ 64 := fun a member => (inv.node_bounds member).2
    exact ⟨fun _ => (free.firstFit bounded split).blockClear free split, fun off => absurd (by simp) off⟩
  · refine ⟨fun member => ?_, fun _ => new.blockClear_iff inv.freeList⟩
    obtain ⟨f, m, total, w, new, rfl, _⟩ := new
    have apart := inv.freeList.off_page member new.taking.start
    omega

/-- `malloc` gives a freed block out again, and leaves the free list as it was,
exactly when the block is clear of the headers on that list. It always is when it
came from the list. When it is new, and its rest falls on no header of a free
node, it is clear exactly when no free node had its header where the block is. -/
theorem malloc_reuse_iff {p : Nat} (inv : HeapInv first free₀ s nodes live) (wide : size + 16 < 2 ^ 64)
    (returned : Returns (malloc mode · size s) (p, u)) (nonnull : p ≠ null) :
    ∃ n t, Returns (findAndRemoveNode mode · size s) (n, t) ∧ p = n + 16 ∧
      Serves first s nodes size n (nodeSize t.mem n) ∧
      (SplitClean (nodeSize t.mem n) size →
        ((∀ m : Mem, (∀ x, m x ≠ u.mem x → (Extent.mk p size).Has x) → Reused mode size p u m) ↔ BlockClear u p size) ∧
        (n ∈ nodes → BlockClear u p size) ∧
        (n ∉ nodes → (nodeSize t.mem n ≠ 16 + size → ∀ a ∈ nodes, (nodeHeader a).Apart (nodeHeader (p + size))) →
          (BlockClear u p size ↔ ∀ a ∈ nodes, ∀ x, (nodeHeader a).Has x → ¬ (Extent.mk p size).Has x))) := by
  obtain ⟨fuel, call⟩ := returned
  have call := call fuel (le_refl _)
  obtain ⟨n, t, search, found, _, rfl, trimmed⟩ := alloc_ok call nonnull
  rw [malloc_request (by omega)] at search
  have fetched := inv.fetched (by omega) search found
  have top := inv.table.top_le
  have header := fetched.header
  have base : uadd 64 n 16 = n + 16 := uadd_of_lt (by omega)
  rw [base] at call nonnull ⊢
  refine ⟨n, t, findAndRemoveNode_returns search, rfl, inv.serves (by omega) search found, fun split => ?_⟩
  obtain ⟨given, block⟩ := inv.malloc_given wide search found split
  cases given.symm.trans call
  exact ⟨reused_all_iff block, inv.blockClear wide search found split⟩

theorem malloc_reuse_iff_smallMap : ∃ s u, initializeAllocator .halts smallMap { mem := fun _ => 0 } = .ok s ∧
    Returns (malloc .halts · 100 s) (0x101010, u) ∧
    ∀ m : Mem, (∀ x, m x ≠ u.mem x → (Extent.mk 0x101010 100).Has x) → Reused .halts 100 0x101010 u m := by
  obtain ⟨s, machine⟩ := smallMachine
  obtain ⟨t, u, search, total, returned⟩ := smallMachine_malloc machine (show 100 < 2 ^ 64 by decide) (by decide)
  obtain ⟨n, t', search', here, _, clean⟩ :=
    malloc_reuse_iff (heapInv_empty machine.table machine.empty) (show 100 + 16 < 2 ^ 64 by decide) returned (by decide)
  cases search.unique search'
  obtain ⟨reused, _, new⟩ := clean (by rw [total]; exact Or.inr (by decide))
  exact ⟨s, u, machine.init, returned, reused.mpr ((new (by simp) (by simp)).mpr (by simp))⟩

/-! ### Pages that do not follow one another -/

/-- A page that the heap has no byte in may be given back. -/
theorem HeapInv.pageFree {f : Nat} (inv : HeapInv first free₀ s nodes live) (start : free₀ f = true)
    (off : ∀ x, InUse s.mem nodes live x → x < first + 4096 * f ∨ first + 4096 * f + 4096 ≤ x) :
    HeapInv first free₀ (pageFree (first + 4096 * f) s) nodes live ∧
      SameHeaders s.mem (pageFree (first + 4096 * f) s).mem nodes live := by
  obtain ⟨globals, table, keep, flags⟩ := pageFree_spec inv.table (first + 4096 * f)
  have count : frameCount (System14.pageFree (first + 4096 * f) s) = frameCount s := by
    rw [globals]
    rfl
  have headers : SameHeaders s.mem (System14.pageFree (first + 4096 * f) s).mem nodes live := by
    apply SameHeaders.of_bytes inv.large
    intro e member x has
    have bounds := (inv.inside e member x has).bounds inv.table
    apply keep
    intro i lt _
    unfold frameEntry
    omega
  have pool : ∀ i < frameCount (System14.pageFree (first + 4096 * f) s),
      frameFree (System14.pageFree (first + 4096 * f) s) i = true → free₀ i = true := by
    intro i lt free
    rw [count] at lt
    rw [flags i lt] at free
    rcases Bool.or_eq_true_iff.mp free with free | here
    · exact inv.pool i lt free
    · have page := of_decide_eq_true here
      have same : i = f := by omega
      rw [same]
      exact start
  have grow : ∀ x, InUse s.mem nodes live x → HeapByte first free₀ s x →
      HeapByte first free₀ (System14.pageFree (first + 4096 * f) s) x := by
    rintro x used ⟨j, lt, pool, taken, low, high⟩
    have far := off x used
    refine ⟨j, by rw [count]; exact lt, pool, ?_, low, high⟩
    rw [flags j lt, taken]
    simp only [Bool.false_or, decide_eq_false_iff_not]
    omega
  exact ⟨inv.transport table pool grow (by rw [globals]) headers, headers⟩

/-- The heap has the second of four frames: someone else took the first one before
it, and has given it back. -/
structure HoledMachine (s₀ s : Kernel) : Prop where
  init : initializeAllocator .halts smallMap { mem := fun _ => 0 } = .ok s₀
  run : ∃ t u, pageAlloc .halts s₀ = .ok (0x101000, t) ∧ Returns (malloc .halts · 100 t) (0x102010, u) ∧
    s = pageFree 0x101000 u
  inv : HeapInv 0x101000 (frameFree s₀) s [0x102074] [⟨0x102010, 100⟩]
  total : nodeSize s.mem 0x102074 = 3980
  count : frameCount s = 4
  free : ∀ i < 4, frameFree s i = decide (i ≠ 1)

theorem SmallMachine.holed (machine : SmallMachine s) : ∃ u, HoledMachine s u := by
  have count := machine.count
  have inv := heapInv_empty machine.table machine.empty
  obtain ⟨t, call, granted⟩ := pageAlloc_grants .halts machine.table (i := 0) (by omega) (machine.free 0 (by omega)) (by omega)
  obtain ⟨kept, _⟩ := inv.granted granted
  have empty : t.head.next = null := kept.chain
  have count₁ := granted.count
  have free₁ : frameFree t 1 = true := by
    rw [granted.taken 1 (by omega), if_neg (by decide)]
    exact machine.free 1 (by decide)
  have used₁ : ∀ j < 1, frameFree t j = false := by
    intro j below
    rw [granted.taken j (by omega), if_pos (by omega)]
  obtain ⟨u, call', granted'⟩ := pageAlloc_grants .halts granted.table (i := 1) (by omega) free₁ used₁
  obtain ⟨v, returned, page, _⟩ := malloc_page granted.table empty call' granted' (show 100 + 16 < 4096 by decide)
  obtain ⟨writes, rest⟩ := page (by decide)
  have same := writes.sameTable granted' granted.table
  have count₂ := granted'.count
  obtain ⟨⟨nodes, after⟩, _⟩ := returned.yields fun fuel enough =>
    malloc_yields kept (mallocClean_empty empty (by decide) (Or.inr (by decide))) enough
  have list : nodes = [0x102074] := linked_unique after.chain rest.chain
  subst list
  change HeapInv 0x101000 (frameFree s) v [0x102074] [⟨0x102010, 100⟩] at after
  have count₃ : frameCount v = 4 := by
    rw [same.count]
    omega
  have total : nodeSize v.mem 0x102074 = 3980 := rest.total
  have off : ∀ x, InUse v.mem [0x102074] [⟨0x102010, 100⟩] x → x < 0x101000 ∨ 0x101000 + 4096 ≤ x := by
    rintro x ⟨e, member, has⟩
    apply Or.inr
    rcases List.mem_cons.mp member with rfl | member
    · exact le_trans (show 0x101000 + 4096 ≤ 0x102074 by decide) has.1
    · rw [List.mem_singleton.mp member] at has
      exact le_trans (by decide) has.1
  obtain ⟨final, headers⟩ := after.pageFree (f := 0) (machine.free 0 (by omega)) off
  obtain ⟨globals, _, _, flags⟩ := pageFree_spec after.table 0x101000
  refine ⟨_, machine.init, ⟨t, v, call, returned, rfl⟩, final, (headers.size _ (by simp)).trans total, ?_, fun i lt => ?_⟩
  · rw [globals]
    exact count₃
  · rw [flags i (by omega), same.free (by omega), granted'.taken i (by omega), granted.taken i (by omega), machine.free i lt]
    have frames : i = 0 ∨ i = 1 ∨ i = 2 ∨ i = 3 := by omega
    rcases frames with rfl | rfl | rfl | rfl <;> rfl

/-- `CombineBlocks` takes the frame before the heap's page and two behind it. -/
theorem HoledMachine.combined {s₀ : Kernel} (machine : HoledMachine s₀ s) :
    ∃ t, Combined [0x102074] 5000 0x101000 s (createNode 0x101000 8192 t) := by
  have count := machine.count
  have free := machine.free
  obtain ⟨a, callA, grantedA⟩ := pageAlloc_grants .halts machine.inv.table (i := 0) (by omega) (free 0 (by omega)) (by omega)
  have countA := grantedA.count
  have freeA : ∀ i < 4, frameFree a i = decide (2 ≤ i) := by
    intro i lt
    rw [grantedA.taken i (by omega), free i lt]
    have frames : i = 0 ∨ i = 1 ∨ i = 2 ∨ i = 3 := by omega
    rcases frames with rfl | rfl | rfl | rfl <;> rfl
  obtain ⟨b, callB, grantedB⟩ := pageAlloc_grants .halts grantedA.table (i := 2) (by omega) (freeA 2 (by omega))
    fun j below => by rw [freeA j (by omega)]; exact decide_eq_false (by omega)
  have countB := grantedB.count
  have freeB : ∀ i < 4, frameFree b i = decide (3 ≤ i) := by
    intro i lt
    rw [grantedB.taken i (by omega), freeA i lt]
    have frames : i = 0 ∨ i = 1 ∨ i = 2 ∨ i = 3 := by omega
    rcases frames with rfl | rfl | rfl | rfl <;> rfl
  obtain ⟨c, callC, grantedC⟩ := pageAlloc_grants .halts grantedB.table (i := 3) (by omega) (freeB 3 (by omega))
    fun j below => by rw [freeB j (by omega)]; exact decide_eq_false (by omega)
  have taking := ((grantedA.taking machine.inv.table).next grantedB).next grantedC
  obtain ⟨pushed, sizes⟩ := taking.push machine.inv.freeList 8192
  refine ⟨c, fun fuel more => ?_, pushed.chain, createNode_size (by decide), sizes⟩
  obtain ⟨rest, rfl⟩ : ∃ rest, fuel = rest + 3 := ⟨fuel - 3, by unfold pageRounds at more; omega⟩
  unfold combineBlocks
  rw [callA, ok_bind]
  dsimp only
  rw [combinePages, if_pos (by decide), callB, ok_bind]
  dsimp only
  rw [if_neg (by decide), combinePages, if_pos (by decide), callC, ok_bind]
  dsimp only
  rw [if_neg (by decide), combinePages, if_neg (by decide)]
  rfl

/-- A request for 5000 bytes is then given the page before the heap's own and
the bytes behind that, where the heap has its only free node. -/
theorem holedMachine_not_reused : ∃ s₀ s t u, HoledMachine s₀ s ∧ Returns (malloc .halts · 5000 s) (0x101010, u) ∧
    Returns (findAndRemoveNode .halts · 5000 s) (0x101000, t) ∧ nodeSize t.mem 0x101000 = 8192 ∧
    ¬ ∀ m : Mem, (∀ x, m x ≠ u.mem x → (Extent.mk 0x101010 5000).Has x) → Reused .halts 5000 0x101010 u m := by
  obtain ⟨s₀, small⟩ := smallMachine
  obtain ⟨s, machine⟩ := small.holed
  obtain ⟨c, combined⟩ := machine.combined
  have inv := machine.inv
  obtain ⟨t, value⟩ : ∃ t, setCursorNext (createNode 0x101000 8192 c)
      (nodeNext (createNode 0x101000 8192 c).mem 0x101000) none = t := ⟨_, rfl⟩
  obtain ⟨bound, search⟩ : Returns (findAndRemoveNode .halts · 5000 s) (0x101000, t) := by
    refine ⟨5, fun fuel enough => ?_⟩
    rw [← value]
    exact combined.search inv.chain (by decide) (by simp [machine.total, uadd]) (by rw [combined.total]; decide)
      (le_trans (by decide) enough)
  have total : nodeSize t.mem 0x101000 = 8192 := by
    rw [← value]
    exact combined.total
  have split : SplitClean (nodeSize t.mem 0x101000) 5000 := by
    rw [total]
    exact Or.inr (by decide)
  have wide : 5000 + 16 < 2 ^ 64 := by decide
  refine ⟨s₀, s, t, cutNode 0x101000 5000 t, machine, ⟨bound, fun fuel enough => ?_⟩, ⟨bound, search⟩, total, fun reused => ?_⟩
  · exact (inv.malloc_given wide (search fuel enough) (by decide) split).1
  · have found := search bound (le_refl bound)
    have given := (inv.malloc_given wide found (by decide) split).2
    have clear := (reused_all_iff given).mp reused
    have new := (inv.blockClear wide found (by decide) split).2
    have outside := (new (by decide) fun _ a member => by rw [List.mem_singleton.mp member]; exact Or.inl (by decide)).mp clear
    exact outside 0x102074 (by simp) 0x102074 ⟨by decide, by decide⟩ ⟨by decide, by decide⟩

end System14
