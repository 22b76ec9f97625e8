import System14.Mm.HeapProgress

/-!
# Frames the heap loses

Cutting, freeing and unlinking leave every byte of the heap in a node or in a
block, and a new page becomes a node as a whole. `CombineBlocks` takes one page
more than it records in its node: that page is neither in a node nor in a block.
-/

namespace System14
open ByteMem Run Chain Extent

variable {first size fuel : Nat} {free₀ : Nat → Bool} {s t u : Kernel} {nodes nodes' : List Nat}
  {live live' : List Block}

/-! ### Bytes in use -/

/-- Every byte of the frames that the heap has taken is in a node or in a block. -/
def Tiled (first : Nat) (free₀ : Nat → Bool) (s : Kernel) (nodes : List Nat) (live : List Block) : Prop :=
  ∀ x, HeapByte first free₀ s x → InUse s.mem nodes live x

theorem Repacked.tiled (repacked : Repacked s nodes live t nodes' live') (tiled : Tiled first free₀ s nodes live) :
    Tiled first free₀ t nodes' live' := by
  intro x owned
  apply (repacked.bytes x).mpr
  exact tiled x ((HeapByte.sameTable repacked.table).mp owned)

theorem HeapByte.of_granted {i p x : Nat} (granted : Granted s first i p t) (h : HeapByte first free₀ t x) :
    HeapByte first free₀ s x ∨ (p ≤ x ∧ x < p + 4096) := by
  obtain ⟨j, lt, start, used, low, high⟩ := h
  have page := granted.page
  rw [granted.count] at lt
  rw [granted.taken j lt] at used
  by_cases here : j = i
  · exact Or.inr (by subst here; omega)
  · rw [if_neg here] at used
    exact Or.inl ⟨j, lt, start, used, low, high⟩

theorem HeapInv.page_tiled {i p : Nat} (inv : HeapInv first free₀ s nodes live) (granted : Granted s first i p t)
    (tiled : Tiled first free₀ s nodes live) : Tiled first free₀ (createNode p 4096 t) (p :: nodes) live := by
  obtain ⟨kept, _, fresh, added⟩ := inv.granted granted
  have same := createNode_sameTable kept.table (by omega) added
  intro x owned
  rw [createNode_inUse kept.large (by omega) (by omega) fresh]
  rcases ((HeapByte.sameTable same).mp owned).of_granted granted with old | new
  · apply Or.inr
    rw [InUse, extents_congr (inv.headers_granted granted).size]
    exact tiled x old
  · exact Or.inl new

/-! ### One call -/

/-- The search is served without combining pages. -/
def Plain (s : Kernel) (nodes : List Nat) (size : Nat) : Prop :=
  size + 16 < 4096 ∨ ∃ a ∈ nodes, size + 16 ≤ nodeSize s.mem a

theorem findAndRemoveNode_exhausted (inv : HeapInv first free₀ s nodes live) (small : size + 16 < 4096)
    (none : ∀ i < frameCount s, frameFree s i = false) (misses : ∀ a ∈ nodes, nodeSize s.mem a < size + 16)
    (enough : nodes.length < fuel) :
    findAndRemoveNode .halts fuel size s = .error (.panic "No free mem left!") := by
  obtain ⟨sum, sum'⟩ := uadd_header (show size + 16 < 2 ^ 64 by omega)
  obtain ⟨skip, stop⟩ := findAndRemoveNode_end .halts size fuel inv.chain
    fun a member => by rw [sum]; have := misses a member; omega
  obtain ⟨rest, left⟩ : ∃ rest, fuel - nodes.length = rest + 1 := ⟨fuel - nodes.length - 1, by omega⟩
  rw [skip, left, findFrom, if_pos stop, sum', if_neg (by omega), pageAlloc_exhausted none]
  rfl

theorem HeapInv.take_tiled {n : Nat} {post : List Nat} (pre : List Nat)
    (inv : HeapInv first free₀ s (pre ++ n :: post) live) (tiled : Tiled first free₀ s (pre ++ n :: post) live)
    (value : t = setCursorNext s (nodeNext s.mem n) pre.getLast?) :
    ∃ nodes', HeapInv first free₀ t nodes' (⟨n + 16, nodeSize t.mem n - 16⟩ :: live) ∧
      Tiled first free₀ t nodes' (⟨n + 16, nodeSize t.mem n - 16⟩ :: live) := by
  obtain ⟨taken, _, repacked, sizes⟩ := inv.take
  rw [value, sizes n (by simp)]
  exact ⟨pre ++ post, taken, repacked.tiled tiled⟩

theorem search_tiled {n : Nat} (inv : HeapInv first free₀ s nodes live) (wide : size + 16 < 2 ^ 64)
    (plain : Plain s nodes size) (tiled : Tiled first free₀ s nodes live) (enough : nodes.length < fuel)
    (call : findAndRemoveNode .halts fuel size s = .ok (n, t)) :
    ∃ nodes', HeapInv first free₀ t nodes' (⟨n + 16, nodeSize t.mem n - 16⟩ :: live) ∧
      Tiled first free₀ t nodes' (⟨n + 16, nodeSize t.mem n - 16⟩ :: live) := by
  by_cases fit : ∃ a ∈ nodes, size + 16 ≤ nodeSize s.mem a
  · obtain ⟨pre, a, post, rfl, misses, fits⟩ := first_fit fit
    have sum := (uadd_header wide).1
    rw [List.length_append] at enough
    rw [findAndRemoveNode_hit .halts pre inv.chain (fun b member => by rw [sum]; have := misses b member; omega)
      (by omega) (by omega)] at call
    cases call
    exact inv.take_tiled pre tiled rfl
  · have small := plain.resolve_right fit
    have misses : ∀ a ∈ nodes, nodeSize s.mem a < size + 16 := by
      intro a member
      by_contra fits
      exact fit ⟨a, member, by omega⟩
    rcases first_free_or_none s with none | ⟨i, lt, free, least⟩
    · rw [findAndRemoveNode_exhausted inv small none misses enough] at call
      cases call
    · by_cases some : nodes = []
      · subst some
        obtain ⟨u, alloc, granted⟩ := pageAlloc_grants .halts inv.table lt free least
        obtain ⟨v, value, search, _⟩ := findAndRemoveNode_page inv alloc granted (uadd_header_small small)
        obtain ⟨rest, rfl⟩ : ∃ rest, fuel = rest + 1 := ⟨fuel - 1, by omega⟩
        rw [search rest] at call
        cases call
        obtain ⟨kept, _, fresh, added⟩ := inv.granted granted
        obtain ⟨created, _⟩ := kept.create _ 4096 (by omega) (by omega) fresh added
        exact created.take_tiled [] (inv.page_tiled granted tiled) value
      · rw [findAndRemoveNode_stuck inv small ⟨i, lt, free⟩ some misses enough] at call
        cases call

theorem malloc_search {p : Nat} (small : size < 2 ^ 64) (call : malloc .halts fuel size s = .ok (p, t)) :
    ∃ n u, findAndRemoveNode .halts fuel size s = .ok (n, u) := by
  unfold malloc alloc at call
  rw [malloc_request small] at call
  obtain ⟨⟨n, u⟩, search, _⟩ := bind_ok.mp call
  exact ⟨n, u, search⟩

theorem malloc_tiled {p : Nat} (inv : HeapInv first free₀ s nodes live) (clean : MallocClean s size)
    (plain : Plain s nodes size) (tiled : Tiled first free₀ s nodes live)
    (enough : nodes.length + pageRounds size + 3 ≤ fuel) (call : malloc .halts fuel size s = .ok (p, t)) :
    ∃ nodes', HeapInv first free₀ t nodes' (⟨p, size⟩ :: live) ∧ Tiled first free₀ t nodes' (⟨p, size⟩ :: live) := by
  obtain ⟨wide, served⟩ := clean
  obtain ⟨n, u, search⟩ := malloc_search (by omega) call
  have found := (findAndRemoveNode_yields inv wide (fun _ => SplitClean.covers) (served nodes inv.chain) enough).ok search
  have split : SplitClean (nodeSize u.mem n) size := found.size
  obtain ⟨nodes', taken, kept⟩ := search_tiled inv wide plain tiled (by omega) search
  rw [malloc_of_found search taken split.covers] at call
  cases call
  obtain ⟨_, nodes'', given, repacked⟩ := taken.cut split
  exact ⟨nodes'', given, repacked.tiled kept⟩

theorem calloc_malloc {p : Nat} (call : calloc .halts fuel size s = .ok (p, t)) :
    ∃ u, malloc .halts fuel size s = .ok (p, u) ∧ t = if p = null then u else { u with mem := memset u.mem p 0 size } := by
  unfold calloc at call
  obtain ⟨⟨r, u⟩, given, rest⟩ := bind_ok.mp call
  dsimp only at rest
  split at rest
  · cases rest
    exact ⟨_, given, (if_pos ‹_›).symm⟩
  · cases rest
    exact ⟨_, given, (if_neg ‹_›).symm⟩

/-! ### Runs -/

/-- A request is served from a node on the list or from one new page. -/
def OnePage : Kernel × List Block → HeapCall → Prop
  | (s, _), .malloc size => ∀ nodes, Linked (nodeNext s.mem) null s.head.next nodes → Plain s nodes size
  | (s, _), .calloc size => ∀ nodes, Linked (nodeNext s.mem) null s.head.next nodes → Plain s nodes size
  | _, _ => True

theorem heapStep_tiled {call : HeapCall} (inv : HeapInv first free₀ s nodes live)
    (tiled : Tiled first free₀ s nodes live) (clean : HeapClean (s, live) call) (plain : OnePage (s, live) call)
    (taken : HeapStep (s, live) call (t, live')) :
    ∃ nodes', HeapInv first free₀ t nodes' live' ∧ Tiled first free₀ t nodes' live' := by
  cases call with
  | malloc size =>
    obtain ⟨p, ⟨bound, returned⟩, rfl⟩ := taken
    obtain ⟨nodes', given, kept⟩ := malloc_tiled inv clean (plain nodes inv.chain) tiled
      (Nat.le_max_right bound (nodes.length + pageRounds size + 3)) (returned _ (Nat.le_max_left _ _))
    rw [if_neg given.ptr_ne_null]
    exact ⟨nodes', given, kept⟩
  | calloc size =>
    obtain ⟨p, ⟨bound, returned⟩, rfl⟩ := taken
    obtain ⟨u, call, rfl⟩ := calloc_malloc (returned _ (Nat.le_max_left bound (nodes.length + pageRounds size + 3)))
    obtain ⟨nodes', given, kept⟩ := malloc_tiled inv clean (plain nodes inv.chain) tiled (Nat.le_max_right _ _) call
    obtain ⟨cleared, _, repacked⟩ := given.memset
    rw [if_neg given.ptr_ne_null, if_neg given.ptr_ne_null]
    exact ⟨nodes', cleared, repacked.tiled kept⟩
  | free b =>
    obtain ⟨member, rfl, rfl⟩ := taken
    obtain ⟨after, _, repacked⟩ := inv.free member
    exact ⟨_, after, repacked.tiled tiled⟩
  | write b offset value =>
    obtain ⟨member, inside, rfl, rfl⟩ := taken
    obtain ⟨after, _, repacked⟩ := inv.payload member (m := Function.update s.mem (b.ptr + offset) value) fun x changed => by
      by_cases here : x = b.ptr + offset
      · omega
      · exact absurd (Function.update_of_ne here _ _) changed
    exact ⟨nodes, after, repacked.tiled tiled⟩

/-- Every byte of the frames taken since the start is in a node of the free list or in a live block. -/
def HeapCovered (first : Nat) (free₀ : Nat → Bool) (s : Kernel) (live : List Block) : Prop :=
  ∃ nodes, Linked (nodeNext s.mem) null s.head.next nodes ∧ Tiled first free₀ s nodes live

/-- In every run of clean calls that combine no pages, the heap loses no byte of its frames. -/
theorem heap_run_covered {s₀ : Kernel} (table : FrameTable s₀ first) (empty : s₀.head.next = null)
    (reached : HeapReach s₀ (fun state call => HeapClean state call ∧ OnePage state call) (s, live)) :
    HeapCovered first (frameFree s₀) s live := by
  have tiled : ∃ nodes, HeapInv first (frameFree s₀) s nodes live ∧ Tiled first (frameFree s₀) s nodes live := by
    refine Reach.invariant (I := fun state => ∃ nodes, HeapInv first (frameFree s₀) state.1 nodes state.2 ∧
      Tiled first (frameFree s₀) state.1 nodes state.2) reached ?_ ?_
    · intro state start
      subst start
      refine ⟨[], heapInv_empty table empty, fun x owned => ?_⟩
      obtain ⟨i, _, free, used, _⟩ := owned
      rw [free] at used
      cases used
    · intro state call state' kept allowed taken
      obtain ⟨nodes, inv, tiled⟩ := kept
      exact heapStep_tiled inv tiled allowed.1 allowed.2 taken
  obtain ⟨nodes, inv, tiled⟩ := tiled
  exact ⟨nodes, inv.chain, tiled⟩

theorem SmallMachine.clean (machine : SmallMachine s) (small : size + 16 < 4096) (split : SplitClean 4096 size) :
    HeapClean (s, []) (.malloc size) ∧ OnePage (s, []) (.malloc size) :=
  ⟨mallocClean_empty machine.empty small split, fun _ _ => Or.inl small⟩

theorem heap_run_covered_smallMap : ∃ s₁ t, initializeAllocator .halts smallMap { mem := fun _ => 0 } = .ok s₁ ∧
    HeapReach s₁ (fun state call => HeapClean state call ∧ OnePage state call) (t, [⟨0x101010, 100⟩]) ∧
    HeapCovered 0x101000 (frameFree s₁) t [⟨0x101010, 100⟩] := by
  obtain ⟨s₁, machine⟩ := smallMachine
  obtain ⟨t, step, _⟩ := machine.malloc 100 (by decide)
  have reached : HeapReach s₁ (fun state call => HeapClean state call ∧ OnePage state call) (t, [⟨0x101010, 100⟩]) :=
    Reach.step (Reach.init rfl) (machine.clean (by decide) (Or.inr (by decide))) step
  exact ⟨s₁, t, machine.init, reached, heap_run_covered machine.table machine.empty reached⟩

/-! ### Requests that combine pages -/

/-- A request served from combined pages leaves the last of them unused: the
first byte of that page is in no node and in no block. -/
theorem malloc_loses (inv : HeapInv first free₀ s nodes live) (large : 4096 ≤ size + 16)
    (misses : ∀ a ∈ nodes, nodeSize s.mem a < size + 16) (small : 4096 * pageRounds size < 2 ^ 31)
    (split : SplitClean (4096 * pageRounds size) size) (adjacent : FreeRun s (pageRounds size))
    (room : Room s (pageRounds size)) :
    ∃ i t, Returns (malloc .halts · size s) (first + 4096 * i + 16, t) ∧
      ¬ HeapCovered first free₀ t (⟨first + 4096 * i + 16, size⟩ :: live) := by
  have rounds : size ≤ 4096 * pageRounds size ∧ 0 < pageRounds size := by
    unfold pageRounds
    omega
  obtain ⟨sum, sum'⟩ := uadd_header (show size + 16 < 2 ^ 64 by omega)
  obtain ⟨i, u, combined, after, hand⟩ := combineBlocks_room inv (by omega) adjacent room
  obtain ⟨created, total, _⟩ := hand.create after rounds.2 small
  have covers := split.covers
  have amount : intToU64 (pageRounds size * 4096) = 4096 * pageRounds size := by
    rw [intToU64_of_lt (by omega), Nat.mul_comm]
  rw [amount] at combined created total
  have same : SameTable u (createNode (first + 4096 * i) (4096 * pageRounds size) u) :=
    createNode_sameTable after.table (by omega) fun x low high => hand.owned x low (by omega)
  have part : (Extent.mk (first + 4096 * i) (4096 * pageRounds size)).Within
      ⟨first + 4096 * i, 4096 * pageRounds size + 4096⟩ := ⟨le_refl _, by simp only; omega⟩
  have created : HeapInv first free₀ _ ([] ++ (first + 4096 * i) :: nodes) live := created
  obtain ⟨taken, _, repacked, sizes⟩ := created.take
  have kept := sizes _ (List.mem_append_right _ List.mem_cons_self)
  rw [← kept] at taken repacked
  obtain ⟨_, nodes', given, repacked'⟩ := taken.cut (by rw [kept, total]; exact split)
  have search := fun fuel (enough : nodes.length + (pageRounds size + 2) ≤ fuel) => combined.search inv.chain (by omega)
    (fun a member => by have := misses a member; omega) (by omega) enough
  refine ⟨i, _, ⟨_, fun fuel enough => malloc_of_found (search fuel enough) taken
    (le_of_le_of_eq covers (kept.trans total).symm)⟩, ?_⟩
  rintro ⟨nodes'', chain, tiled⟩
  have list : nodes'' = nodes' := linked_unique chain given.chain
  subst list
  have lost := hand.owned (first + 4096 * i + 4096 * pageRounds size) (by omega) (by omega)
  have owned := (HeapByte.sameTable ((same.trans repacked.table).trans repacked'.table)).mpr lost
  have used := (repacked.bytes _).mp ((repacked'.bytes _).mp (tiled _ owned))
  rcases (createNode_inUse after.large (by omega) (by omega) (fun e member => part.apart (hand.apart e member)) _).mp used
    with node | ⟨e, member, has⟩
  · simp only [Extent.Has] at node
    omega
  · exact (hand.apart e member).not_has ⟨by simp only; omega, by simp only; omega⟩ has

/-- A first request for 5000 bytes takes three pages and uses two of them. -/
theorem smallMap_page_lost : ∃ s₁ t p, initializeAllocator .halts smallMap { mem := fun _ => 0 } = .ok s₁ ∧
    HeapReach s₁ anyStep (t, [⟨p, 5000⟩]) ∧ ¬ HeapCovered 0x101000 (frameFree s₁) t [⟨p, 5000⟩] := by
  obtain ⟨s₁, machine⟩ := smallMachine
  have inv := heapInv_empty machine.table machine.empty
  obtain ⟨i, t, returned, lost⟩ := malloc_loses inv (by decide) (by simp) (by decide) (Or.inr (by decide))
    (machine.tail.run (pageRounds 5000)) (machine.tail.room (by rw [machine.count]; decide))
  have nonnull : 0x101000 + 4096 * i + 16 ≠ null := by
    unfold null
    omega
  refine ⟨s₁, t, _, machine.init, Reach.step (e := .malloc 5000) (Reach.init rfl) trivial ⟨_, returned, ?_⟩, lost⟩
  rw [if_neg nonnull]

end System14
