import System14.Lib.Chain
import System14.Lib.Extent
import System14.Mm.Heap

/-!
# The heap's representation invariant

The free nodes and the live blocks are separate extents inside the frames that
the heap took from the page allocator. `HeapInv` states this for a kernel, the
list of its free nodes and the list of live blocks; each primitive of `heap.c`
moves one extent between the two lists, cuts one in two, or adds one that lies
in new frames. `HeapMove` records what such a move may write.
-/

namespace System14
open ByteMem Run Chain Extent

/-- A block that `malloc` returned: the pointer and the size asked for. -/
structure Block where
  ptr : Nat
  size : Nat
  deriving DecidableEq

def Block.extent (b : Block) : Extent := ⟨b.ptr - 16, 16 + b.size⟩

def nodeExtent (m : Mem) (node : Nat) : Extent := ⟨node, nodeSize m node⟩

def extents (m : Mem) (nodes : List Nat) (live : List Block) : List Extent :=
  nodes.map (nodeExtent m) ++ live.map Block.extent

/-- `x` lies in a frame that was free at the start and has been taken since. -/
def HeapByte (first : Nat) (free₀ : Nat → Bool) (s : Kernel) (x : Nat) : Prop :=
  ∃ i < frameCount s, free₀ i = true ∧ frameFree s i = false ∧
    first + 4096 * i ≤ x ∧ x < first + 4096 * i + 4096

structure HeapInv (first : Nat) (free₀ : Nat → Bool) (s : Kernel) (nodes : List Nat) (live : List Block) : Prop where
  table : FrameTable s first
  pool : ∀ i < frameCount s, frameFree s i = true → free₀ i = true
  chain : Linked (nodeNext s.mem) null s.head.next nodes
  large : ∀ a ∈ nodes, 16 ≤ nodeSize s.mem a
  headers : ∀ b ∈ live, 16 ≤ b.ptr ∧ nodeSize s.mem (b.ptr - 16) = 16 + b.size
  separate : Separate (extents s.mem nodes live)
  inside : ∀ e ∈ extents s.mem nodes live, ∀ x, e.Has x → HeapByte first free₀ s x

/-- What a heap operation changes: frames are only taken, never returned, and a
byte that changes is in the frame table, or in a frame of the heap but in none
of the blocks `live`. -/
structure HeapMove (first : Nat) (free₀ : Nat → Bool) (live : List Block) (s t : Kernel) : Prop where
  list : t.frameList = s.frameList
  count : frameCount t = frameCount s
  grow : ∀ x, HeapByte first free₀ s x → HeapByte first free₀ t x
  writes : ∀ x, t.mem x ≠ s.mem x → (s.frameList ≤ x ∧ x < s.frameList + 16 * frameCount s) ∨
    (HeapByte first free₀ t x ∧ ∀ b ∈ live, ¬ b.extent.Has x)

/-- A node or a block has the byte at `x`. -/
def InUse (m : Mem) (nodes : List Nat) (live : List Block) (x : Nat) : Prop := ∃ e ∈ extents m nodes live, e.Has x

/-- The same frames are taken, and nodes and blocks together have the same bytes. -/
structure Repacked (s : Kernel) (nodes : List Nat) (live : List Block) (t : Kernel) (nodes' : List Nat)
    (live' : List Block) : Prop where
  table : SameTable s t
  bytes : ∀ x, InUse t.mem nodes' live' x ↔ InUse s.mem nodes live x

variable {first : Nat} {free₀ : Nat → Bool} {s t u : Kernel} {nodes pre mid post : List Nat} {live : List Block}

theorem HeapMove.trans (one : HeapMove first free₀ live s t) (two : HeapMove first free₀ live t u) :
    HeapMove first free₀ live s u := by
  refine ⟨two.list.trans one.list, two.count.trans one.count, fun x h => two.grow x (one.grow x h), ?_⟩
  intro x changed
  by_cases same : t.mem x = s.mem x
  · have moved := two.writes x (same ▸ changed)
    rw [one.list, one.count] at moved
    exact moved
  · rcases one.writes x same with table | ⟨owned, apart⟩
    · exact Or.inl table
    · exact Or.inr ⟨two.grow x owned, apart⟩

theorem HeapMove.mono {live' : List Block} (move : HeapMove first free₀ live' s t) (sub : ∀ b ∈ live, b ∈ live') :
    HeapMove first free₀ live s t := by
  refine ⟨move.list, move.count, move.grow, fun x changed => ?_⟩
  exact (move.writes x changed).imp_right fun h => ⟨h.1, fun b member => h.2 b (sub b member)⟩

/-! ### Extents and frames -/

theorem mem_extents_node {m : Mem} {a : Nat} (member : a ∈ nodes) : nodeExtent m a ∈ extents m nodes live :=
  List.mem_append_left _ (List.mem_map_of_mem member)

theorem mem_extents_live {m : Mem} {b : Block} (member : b ∈ live) : b.extent ∈ extents m nodes live :=
  List.mem_append_right _ (List.mem_map_of_mem member)

theorem extents_congr {m m' : Mem} (same : ∀ a ∈ nodes, nodeSize m' a = nodeSize m a) :
    extents m' nodes live = extents m nodes live := by
  have nodesSame : nodes.map (nodeExtent m') = nodes.map (nodeExtent m) := by
    apply List.map_congr_left
    intro a member
    rw [nodeExtent, nodeExtent, same a member]
  rw [extents, extents, nodesSame]

theorem inUse_perm {m m' : Mem} {nodes' : List Nat} {live' : List Block}
    (perm : (extents m' nodes' live').Perm (extents m nodes live)) (x : Nat) :
    InUse m' nodes' live' x ↔ InUse m nodes live x :=
  exists_congr fun _ => and_congr_left' perm.mem_iff

theorem inUse_block {m : Mem} (b : Block) (x : Nat) :
    InUse m nodes (b :: live) x ↔ b.extent.Has x ∨ InUse m nodes live x := by
  have middle : (extents m nodes (b :: live)).Perm (b.extent :: extents m nodes live) := List.perm_middle
  exact (exists_congr fun e => and_congr_left' middle.mem_iff).trans (List.exists_mem_cons_iff _ _ _)

theorem HeapByte.bounds {x : Nat} (table : FrameTable s first) (h : HeapByte first free₀ s x) :
    s.frameList + 16 * frameCount s ≤ x ∧ x + 1 < 2 ^ 64 ∧ x ≠ null := by
  obtain ⟨i, lt, _, _, low, high⟩ := h
  have above := table.above
  have fits := table.fits
  unfold null
  omega

theorem HeapInv.node_bounds {a : Nat} (inv : HeapInv first free₀ s nodes live) (member : a ∈ nodes) :
    a ≠ null ∧ a + nodeSize s.mem a < 2 ^ 64 := by
  have large := inv.large a member
  have start := (inv.inside _ (mem_extents_node member) a ⟨le_refl _, by simp only [nodeExtent]; omega⟩).bounds inv.table
  have stop := (inv.inside _ (mem_extents_node member) (a + nodeSize s.mem a - 1)
    ⟨by simp only [nodeExtent]; omega, by simp only [nodeExtent]; omega⟩).bounds inv.table
  exact ⟨start.2.2, by omega⟩

theorem HeapInv.extent_pos {e : Extent} (inv : HeapInv first free₀ s nodes live)
    (member : e ∈ extents s.mem nodes live) : 0 < e.len := by
  rcases List.mem_append.mp member with node | block
  · obtain ⟨a, present, rfl⟩ := List.mem_map.mp node
    have large := inv.large a present
    simp only [nodeExtent]
    omega
  · obtain ⟨b, _, rfl⟩ := List.mem_map.mp block
    simp only [Block.extent]
    omega

/-- The headers of the nodes and of the blocks read the same in both memories. -/
structure SameHeaders (m m' : Mem) (nodes : List Nat) (live : List Block) : Prop where
  size : ∀ a ∈ nodes, nodeSize m' a = nodeSize m a
  next : ∀ a ∈ nodes, nodeNext m' a = nodeNext m a
  block : ∀ b ∈ live, nodeSize m' (b.ptr - 16) = nodeSize m (b.ptr - 16)

theorem SameHeaders.refl (m : Mem) (nodes : List Nat) (live : List Block) : SameHeaders m m nodes live :=
  ⟨fun _ _ => rfl, fun _ _ => rfl, fun _ _ => rfl⟩

theorem SameHeaders.trans {m m' m'' : Mem} (one : SameHeaders m m' nodes live) (two : SameHeaders m' m'' nodes live) :
    SameHeaders m m'' nodes live :=
  ⟨fun a member => (two.size a member).trans (one.size a member),
    fun a member => (two.next a member).trans (one.next a member),
    fun b member => (two.block b member).trans (one.block b member)⟩

theorem SameHeaders.of_bytes {m m' : Mem} (large : ∀ a ∈ nodes, 16 ≤ nodeSize m a)
    (same : ∀ e ∈ extents m nodes live, ∀ x, e.Has x → m' x = m x) : SameHeaders m m' nodes live := by
  have header : ∀ a ∈ nodes, ∀ x, a ≤ x → x < a + 16 → m' x = m x := by
    intro a member x low high
    have room := large a member
    exact same _ (mem_extents_node member) x ⟨low, by simp only [nodeExtent]; omega⟩
  constructor
  · intro a member
    exact load_congr fun x low high => header a member x low (by omega)
  · intro a member
    exact load_congr fun x low high => header a member x (by omega) (by omega)
  · intro b member
    exact load_congr fun x low high => same _ (mem_extents_live member) x ⟨low, by simp only [Block.extent]; omega⟩

theorem SameHeaders.of_apart {m m' : Mem} {w : Extent} (large : ∀ a ∈ nodes, 16 ≤ nodeSize m a)
    (writes : ∀ x, m' x ≠ m x → w.Has x) (apart : ∀ e ∈ extents m nodes live, w.Apart e) :
    SameHeaders m m' nodes live := by
  apply SameHeaders.of_bytes large
  intro e member x has
  by_contra changed
  exact (apart e member).not_has (writes x changed) has

theorem HeapInv.transport (inv : HeapInv first free₀ s nodes live) (table : FrameTable t first)
    (pool : ∀ i < frameCount t, frameFree t i = true → free₀ i = true)
    (grow : ∀ x, InUse s.mem nodes live x → HeapByte first free₀ s x → HeapByte first free₀ t x)
    (head : t.head.next = s.head.next) (headers : SameHeaders s.mem t.mem nodes live) : HeapInv first free₀ t nodes live := by
  have same : extents t.mem nodes live = extents s.mem nodes live := extents_congr headers.size
  refine ⟨table, pool, ?_, ?_, ?_, ?_, ?_⟩
  · rw [head]
    exact linked_congr inv.chain headers.next
  · intro a member
    rw [headers.size a member]
    exact inv.large a member
  · intro b member
    obtain ⟨room, header⟩ := inv.headers b member
    exact ⟨room, (headers.block b member).trans header⟩
  · rw [same]
    exact inv.separate
  · intro e member x has
    rw [same] at member
    exact grow x ⟨e, member, has⟩ (inv.inside e member x has)

theorem HeapInv.reorder {live' : List Block} (inv : HeapInv first free₀ s nodes live) (perm : live.Perm live') :
    HeapInv first free₀ s nodes live' := by
  have same : (extents s.mem nodes live).Perm (extents s.mem nodes live') := (perm.map _).append_left _
  refine ⟨inv.table, inv.pool, inv.chain, inv.large, fun b member => inv.headers b (perm.mem_iff.mpr member),
    (separate_perm same).mp inv.separate, fun e member => inv.inside e (same.mem_iff.mpr member)⟩

theorem HeapInv.forget {b : Block} (inv : HeapInv first free₀ s nodes (b :: live)) :
    HeapInv first free₀ s nodes live ∧ ∀ e ∈ extents s.mem nodes live, b.extent.Apart e := by
  have middle : (extents s.mem nodes (b :: live)).Perm (b.extent :: extents s.mem nodes live) :=
    List.perm_middle
  obtain ⟨apart, separate⟩ := separate_cons.mp ((separate_perm middle).mp inv.separate)
  refine ⟨⟨inv.table, inv.pool, inv.chain, inv.large, ?_, separate, ?_⟩, apart⟩
  · intro c member
    exact inv.headers c (List.mem_cons_of_mem _ member)
  · intro e member
    exact inv.inside e (middle.mem_iff.mpr (List.mem_cons_of_mem _ member))

/-! ### Taking a frame -/

theorem HeapByte.granted {i p x : Nat} (granted : Granted s first i p t) (h : HeapByte first free₀ s x) :
    HeapByte first free₀ t x := by
  obtain ⟨j, lt, start, used, low, high⟩ := h
  have count := granted.count
  refine ⟨j, by omega, start, ?_, low, high⟩
  rw [granted.taken j lt]
  split
  · rfl
  · exact used

theorem HeapByte.apart_granted {i p x : Nat} (table : FrameTable s first) (granted : Granted s first i p t)
    (h : HeapByte first free₀ s x) : (x < p ∨ p + 4096 ≤ x) ∧ x ≠ frameEntry s i + 8 := by
  have bounds := h.bounds table
  have lt := granted.lt
  have page := granted.page
  obtain ⟨j, _, _, used, low, high⟩ := h
  have other : j ≠ i := by
    intro same
    rw [same, granted.free] at used
    exact nomatch used
  unfold frameEntry
  omega

theorem HeapInv.headers_granted {i p : Nat} (inv : HeapInv first free₀ s nodes live) (granted : Granted s first i p t) :
    SameHeaders s.mem t.mem nodes live := by
  apply SameHeaders.of_bytes inv.large
  intro e member x has
  have apart := (inv.inside e member x has).apart_granted inv.table granted
  exact granted.keep x apart.1 apart.2

theorem HeapInv.granted {i p : Nat} (inv : HeapInv first free₀ s nodes live) (granted : Granted s first i p t) :
    HeapInv first free₀ t nodes live ∧ HeapMove first free₀ live s t ∧
      (∀ e ∈ extents t.mem nodes live, (Extent.mk p 4096).Apart e) ∧
      ∀ x, p ≤ x → x < p + 4096 → HeapByte first free₀ t x := by
  have count := granted.count
  have headers := inv.headers_granted granted
  have page : ∀ x, p ≤ x → x < p + 4096 → HeapByte first free₀ t x := by
    intro x low high
    have start := granted.page
    refine ⟨i, by rw [count]; exact granted.lt, inv.pool i granted.lt granted.free, ?_, by omega, by omega⟩
    rw [granted.taken i granted.lt, if_pos rfl]
  have pool : ∀ j < frameCount t, frameFree t j = true → free₀ j = true := by
    intro j lt free
    rw [count] at lt
    exact inv.pool j lt (granted.taken_free lt free)
  have kept : HeapInv first free₀ t nodes live :=
    inv.transport granted.table pool (fun x _ h => h.granted granted) (by rw [granted.globals]) headers
  have before : extents t.mem nodes live = extents s.mem nodes live := extents_congr headers.size
  have apart : ∀ e ∈ extents t.mem nodes live, (Extent.mk p 4096).Apart e := by
    intro e member
    rw [before] at member
    apply apart_of_not_has (show 0 < 4096 by omega) (inv.extent_pos member)
    intro x inPage has
    have far := ((inv.inside e member x has).apart_granted inv.table granted).1
    simp only [Extent.Has] at inPage
    omega
  refine ⟨kept, ⟨granted.list, count, fun x h => h.granted granted, ?_⟩, apart, page⟩
  intro x changed
  rcases granted.writes changed with table | inPage
  · exact Or.inl table
  · exact Or.inr ⟨page x inPage.1 inPage.2, fun b member => (apart _ (mem_extents_live member)).not_has inPage⟩

/-! ### Node operations -/

theorem createNode_mem_apply {addr size x : Nat} (outside : x < addr ∨ addr + 16 ≤ x) :
    (createNode addr size s).mem x = s.mem x := by
  show store 8 (store 8 s.mem (addr + 8) s.head.next) addr size x = s.mem x
  rw [store_apply_of_not_mem (by omega), store_apply_of_not_mem (by omega)]

theorem createNode_size {addr size : Nat} (small : size < 2 ^ 64) :
    nodeSize (createNode addr size s).mem addr = size := by
  show load 8 (store 8 (store 8 s.mem (addr + 8) s.head.next) addr size) addr = size
  rw [load_store_same]
  exact Nat.mod_eq_of_lt small

theorem createNode_next {addr size : Nat} (small : s.head.next < 2 ^ 64) :
    nodeNext (createNode addr size s).mem addr = s.head.next := by
  show load 8 (store 8 (store 8 s.mem (addr + 8) s.head.next) addr size) (addr + 8) = s.head.next
  rw [load_store_of_apart (by omega), load_store_same]
  exact Nat.mod_eq_of_lt small

theorem linked_head_lt (chain : Linked (nodeNext s.mem) null s.head.next nodes) (bounded : ∀ a ∈ nodes, a < 2 ^ 64) :
    s.head.next < 2 ^ 64 := by
  rcases linked_head chain with empty | member
  · rw [empty]
    decide
  · exact bounded _ member

theorem HeapInv.head_lt (inv : HeapInv first free₀ s nodes live) : s.head.next < 2 ^ 64 := by
  apply linked_head_lt inv.chain
  intro a member
  have bounds := inv.node_bounds member
  omega

theorem sameTable_of_writes {m : Mem} {head : HeapNode} (free₀ : Nat → Bool) (table : FrameTable s first)
    (writes : ∀ x, m x ≠ s.mem x → HeapByte first free₀ s x) : SameTable s { s with mem := m, head := head } := by
  refine ⟨rfl, rfl, fun x _ high => ?_⟩
  by_contra changed
  have bounds := (writes x changed).bounds table
  omega

theorem HeapByte.sameTable {x : Nat} (same : SameTable s t) :
    HeapByte first free₀ t x ↔ HeapByte first free₀ s x := by
  unfold HeapByte
  rw [same.count]
  constructor
  · rintro ⟨i, lt, start, used, range⟩
    exact ⟨i, lt, start, by rw [← same.free lt]; exact used, range⟩
  · rintro ⟨i, lt, start, used, range⟩
    exact ⟨i, lt, start, by rw [same.free lt]; exact used, range⟩

theorem HeapInv.pool_same (inv : HeapInv first free₀ s nodes live) (same : SameTable s t) :
    ∀ i < frameCount t, frameFree t i = true → free₀ i = true := by
  intro i lt free
  rw [same.count] at lt
  rw [same.free lt] at free
  exact inv.pool i lt free

theorem HeapMove.of_writes {w : Extent} (same : SameTable s t) (writes : ∀ x, t.mem x ≠ s.mem x → w.Has x)
    (owned : ∀ x, w.Has x → HeapByte first free₀ s x) (apart : ∀ b ∈ live, w.Apart b.extent) :
    HeapMove first free₀ live s t := by
  have grow : ∀ x, HeapByte first free₀ s x → HeapByte first free₀ t x := fun x => (HeapByte.sameTable same).mpr
  refine ⟨same.frameList, same.count, grow, ?_⟩
  intro x changed
  have has := writes x changed
  exact Or.inr ⟨grow x (owned x has), fun b member => (apart b member).not_has has⟩

theorem createNode_writes {addr size len x : Nat} (room : 16 ≤ len)
    (changed : (createNode addr size s).mem x ≠ s.mem x) : (Extent.mk addr len).Has x := by
  have range : addr ≤ x ∧ x < addr + 16 := by
    by_contra outside
    exact changed (createNode_mem_apply (by omega))
  exact ⟨range.1, by simp only; omega⟩

theorem createNode_sameTable {addr size : Nat} (table : FrameTable s first) (room : 16 ≤ size)
    (owned : ∀ x, addr ≤ x → x < addr + size → HeapByte first free₀ s x) : SameTable s (createNode addr size s) := by
  apply sameTable_of_writes free₀ table
  intro x changed
  have has := createNode_writes room changed
  exact owned x has.1 has.2

theorem createNode_extents {addr size : Nat} (large : ∀ a ∈ nodes, 16 ≤ nodeSize s.mem a) (room : 16 ≤ size)
    (small : size < 2 ^ 64) (apart : ∀ e ∈ extents s.mem nodes live, (Extent.mk addr size).Apart e) :
    extents (createNode addr size s).mem (addr :: nodes) live = ⟨addr, size⟩ :: extents s.mem nodes live := by
  have headers : SameHeaders s.mem (createNode addr size s).mem nodes live :=
    SameHeaders.of_apart large (fun x => createNode_writes room) apart
  have start : nodeExtent (createNode addr size s).mem addr = ⟨addr, size⟩ := by
    rw [nodeExtent, createNode_size small]
  rw [← extents_congr headers.size, ← start]
  rfl

theorem createNode_inUse {addr size : Nat} (large : ∀ a ∈ nodes, 16 ≤ nodeSize s.mem a) (room : 16 ≤ size)
    (small : size < 2 ^ 64) (apart : ∀ e ∈ extents s.mem nodes live, (Extent.mk addr size).Apart e) (x : Nat) :
    InUse (createNode addr size s).mem (addr :: nodes) live x ↔ (Extent.mk addr size).Has x ∨ InUse s.mem nodes live x := by
  rw [InUse, createNode_extents large room small apart]
  exact List.exists_mem_cons_iff _ _ _

theorem HeapInv.create (addr size : Nat) (inv : HeapInv first free₀ s nodes live) (room : 16 ≤ size)
    (small : size < 2 ^ 64) (apart : ∀ e ∈ extents s.mem nodes live, (Extent.mk addr size).Apart e)
    (owned : ∀ x, addr ≤ x → x < addr + size → HeapByte first free₀ s x) :
    HeapInv first free₀ (createNode addr size s) (addr :: nodes) live ∧
      HeapMove first free₀ live s (createNode addr size s) := by
  have same := createNode_sameTable inv.table room owned
  have headers : SameHeaders s.mem (createNode addr size s).mem nodes live :=
    SameHeaders.of_apart inv.large (fun x => createNode_writes room) apart
  have all := createNode_extents inv.large room small apart
  have move : HeapMove first free₀ live s (createNode addr size s) :=
    HeapMove.of_writes same (fun x => createNode_writes room) (fun x has => owned x has.1 has.2)
      fun b member => apart _ (mem_extents_live member)
  have nonnull : addr ≠ null := ((owned addr (le_refl _) (by omega)).bounds inv.table).2.2
  refine ⟨⟨inv.table.congr same, inv.pool_same same, ?_, ?_, ?_, ?_, ?_⟩, move⟩
  · exact linked_push inv.chain nonnull (createNode_next inv.head_lt) headers.next
  · intro a member
    rcases List.mem_cons.mp member with rfl | member
    · rw [createNode_size small]
      exact room
    · rw [headers.size a member]
      exact inv.large a member
  · intro b member
    obtain ⟨low, header⟩ := inv.headers b member
    exact ⟨low, (headers.block b member).trans header⟩
  · rw [all]
    exact separate_cons.mpr ⟨apart, inv.separate⟩
  · intro e member x has
    rw [all] at member
    apply (HeapByte.sameTable same).mpr
    rcases List.mem_cons.mp member with rfl | member
    · exact owned x has.1 has.2
    · exact inv.inside e member x has

theorem extents_middle {m : Mem} {a : Nat} :
    (extents m (pre ++ a :: post) live).Perm (nodeExtent m a :: extents m (pre ++ post) live) := by
  unfold extents
  rw [List.map_append, List.map_append, List.map_cons, List.append_assoc, List.append_assoc, List.cons_append]
  exact List.perm_middle

theorem HeapInv.apart_node {a : Nat} (inv : HeapInv first free₀ s (pre ++ a :: post) live) :
    ∀ e ∈ extents s.mem (pre ++ post) live, (nodeExtent s.mem a).Apart e :=
  (separate_cons.mp ((separate_perm extents_middle).mp inv.separate)).1

theorem node_block_extent {m : Mem} {n : Nat} (large : 16 ≤ nodeSize m n) :
    (Block.mk (n + 16) (nodeSize m n - 16)).extent = nodeExtent m n := by
  simp only [Block.extent, nodeExtent, Nat.add_sub_cancel]
  congr 1
  omega

/-- The node taken off the list becomes a block, with the same extent. -/
theorem unlinked_extents {n : Nat} {m m' : Mem} (pre post : List Nat) (live : List Block) (large : 16 ≤ nodeSize m n)
    (sizes : ∀ c ∈ pre ++ post, nodeSize m' c = nodeSize m c) :
    (extents m' (pre ++ post) (⟨n + 16, nodeSize m n - 16⟩ :: live)).Perm (extents m (pre ++ n :: post) live) := by
  have moved : (extents m (pre ++ post) (⟨n + 16, nodeSize m n - 16⟩ :: live)).Perm
      ((Block.mk (n + 16) (nodeSize m n - 16)).extent :: extents m (pre ++ post) live) := List.perm_middle
  rw [node_block_extent large] at moved
  rw [extents_congr sizes]
  exact moved.trans extents_middle.symm

theorem mem_unlinked {n c : Nat} (member : c ∈ pre ++ post) : c ∈ pre ++ n :: post := by
  rcases List.mem_append.mp member with member | member
  · exact List.mem_append_left _ member
  · exact List.mem_append_right _ (List.mem_cons_of_mem _ member)

/-- Unlinking a node, given what the link does to memory: the node becomes a block. -/
theorem HeapInv.unlinked {n : Nat} (inv : HeapInv first free₀ s (pre ++ n :: post) live) (same : SameTable s t)
    (chain : Linked (nodeNext t.mem) null t.head.next (pre ++ post))
    (sizes : ∀ c ∈ pre ++ n :: post, nodeSize t.mem c = nodeSize s.mem c)
    (blocks : ∀ b ∈ live, nodeSize t.mem (b.ptr - 16) = nodeSize s.mem (b.ptr - 16)) :
    HeapInv first free₀ t (pre ++ post) (⟨n + 16, nodeSize s.mem n - 16⟩ :: live) := by
  have large := inv.large n (by simp)
  have perm := unlinked_extents pre post live large fun c member => sizes c (mem_unlinked member)
  refine ⟨inv.table.congr same, inv.pool_same same, chain, ?_, ?_, (separate_perm perm).mpr inv.separate, ?_⟩
  · intro c member
    rw [sizes c (mem_unlinked member)]
    exact inv.large c (mem_unlinked member)
  · intro b member
    rcases List.mem_cons.mp member with rfl | member
    · refine ⟨by simp only; omega, ?_⟩
      simp only [Nat.add_sub_cancel]
      rw [sizes n (by simp)]
      omega
    · obtain ⟨low, header⟩ := inv.headers b member
      exact ⟨low, (blocks b member).trans header⟩
  · intro e member x has
    exact (HeapByte.sameTable same).mpr (inv.inside e (perm.mem_iff.mp member) x has)

/-- The free list alone: separate nodes, each with room for its header. -/
structure FreeNodes (s : Kernel) (nodes : List Nat) : Prop where
  chain : Linked (nodeNext s.mem) null s.head.next nodes
  large : ∀ a ∈ nodes, 16 ≤ nodeSize s.mem a
  separate : Separate (nodes.map (nodeExtent s.mem))

theorem HeapInv.freeNodes (inv : HeapInv first free₀ s nodes live) : FreeNodes s nodes :=
  ⟨inv.chain, inv.large, inv.separate.sublist (List.sublist_append_left _ _)⟩

theorem FreeNodes.apart_node {a : Nat} (free : FreeNodes s (pre ++ a :: post)) :
    ∀ c ∈ pre ++ post, (nodeExtent s.mem a).Apart (nodeExtent s.mem c) := by
  have middle : ((pre ++ a :: post).map (nodeExtent s.mem)).Perm
      (nodeExtent s.mem a :: (pre ++ post).map (nodeExtent s.mem)) := List.perm_middle.map _
  intro c member
  exact (separate_cons.mp ((separate_perm middle).mp free.separate)).1 _ (List.mem_map_of_mem member)

theorem setCursorNext_globals (s : Kernel) (next : Nat) (cursor : HeapCursor) :
    setCursorNext s next cursor =
      { s with mem := (setCursorNext s next cursor).mem, head := (setCursorNext s next cursor).head } := by
  cases cursor <;> rfl

/-- Taking a node off the list writes the link of the node before it, and nothing else. -/
theorem FreeNodes.unlink {n : Nat} (free : FreeNodes s (pre ++ n :: post)) :
    Linked (nodeNext (setCursorNext s (nodeNext s.mem n) pre.getLast?).mem) null
        (setCursorNext s (nodeNext s.mem n) pre.getLast?).head.next (pre ++ post) ∧
      (∀ c ∈ pre ++ n :: post, nodeSize (setCursorNext s (nodeNext s.mem n) pre.getLast?).mem c = nodeSize s.mem c) ∧
      ∀ x, (setCursorNext s (nodeNext s.mem n) pre.getLast?).mem x ≠ s.mem x →
        ∃ a, pre.getLast? = some a ∧ a + 8 ≤ x ∧ x < a + 16 := by
  rcases List.eq_nil_or_concat pre with rfl | ⟨before, a, rfl⟩
  · -- The list head is the kernel's own variable, so no byte of memory changes.
    exact ⟨free.chain.2.2, fun _ _ => rfl, fun _ changed => absurd rfl changed⟩
  · simp only [List.concat_eq_append, List.getLast?_concat, List.append_assoc, List.singleton_append] at free ⊢
    have apart := free.apart_node
    have large := free.large a (by simp)
    have header : ∀ c ∈ before ++ n :: post, ∀ x, c ≤ x → x < c + 16 →
        (setCursorNext s (nodeNext s.mem n) (some a)).mem x = s.mem x := by
      intro c member x low high
      have far := apart c member
      have room := free.large c (mem_unlinked member)
      simp only [Extent.Apart, nodeExtent] at far
      exact store_apply_of_not_mem (by omega)
    have sizes : ∀ c ∈ before ++ a :: n :: post,
        nodeSize (setCursorNext s (nodeNext s.mem n) (some a)).mem c = nodeSize s.mem c := by
      intro c member
      by_cases here : c = a
      · subst c
        exact load_store_of_apart (by omega)
      · exact load_congr fun x low high => header c (by simpa [here] using member) x low (by omega)
    have next : ∀ c ∈ before ++ n :: post,
        nodeNext (setCursorNext s (nodeNext s.mem n) (some a)).mem c = nodeNext s.mem c := fun c member =>
      load_congr fun x low high => header c member x (by omega) (by omega)
    have link : nodeNext (setCursorNext s (nodeNext s.mem n) (some a)).mem a = nodeNext s.mem n := by
      show load 8 (store 8 s.mem (a + 8) (nodeNext s.mem n)) (a + 8) = nodeNext s.mem n
      rw [load_store_same]
      exact Nat.mod_eq_of_lt (load_lt 8 _ _)
    refine ⟨?_, sizes, fun x changed => ⟨a, rfl, ?_⟩⟩
    · show Linked _ null s.head.next _
      apply linked_unlink free.chain link
      · intro c member
        exact next c (by simp [member])
      · intro c member
        exact next c (by simp [member])
    · by_contra outside
      exact changed (store_apply_of_not_mem (by omega))

theorem HeapInv.take {n : Nat} (inv : HeapInv first free₀ s (pre ++ n :: post) live) :
    HeapInv first free₀ (setCursorNext s (nodeNext s.mem n) pre.getLast?) (pre ++ post)
        (⟨n + 16, nodeSize s.mem n - 16⟩ :: live) ∧
      HeapMove first free₀ live s (setCursorNext s (nodeNext s.mem n) pre.getLast?) ∧
      Repacked s (pre ++ n :: post) live (setCursorNext s (nodeNext s.mem n) pre.getLast?) (pre ++ post)
        (⟨n + 16, nodeSize s.mem n - 16⟩ :: live) ∧
      ∀ c ∈ pre ++ n :: post, nodeSize (setCursorNext s (nodeNext s.mem n) pre.getLast?).mem c = nodeSize s.mem c := by
  obtain ⟨chain, sizes, changes⟩ := inv.freeNodes.unlink
  obtain ⟨t, value⟩ : ∃ t, setCursorNext s (nodeNext s.mem n) pre.getLast? = t := ⟨_, rfl⟩
  have globals := setCursorNext_globals s (nodeNext s.mem n) pre.getLast?
  rw [value] at chain sizes changes globals ⊢
  -- What is written belongs to the node before, which is apart from every block.
  have writes : ∀ x, t.mem x ≠ s.mem x → ∃ a ∈ pre ++ n :: post, (nodeExtent s.mem a).Has x := by
    intro x changed
    obtain ⟨a, last, low, high⟩ := changes x changed
    have member : a ∈ pre ++ n :: post := List.mem_append_left _ (List.mem_of_getLast? last)
    have large := inv.large a member
    exact ⟨a, member, by simp only [nodeExtent]; omega, by simp only [nodeExtent]; omega⟩
  have owned : ∀ x, t.mem x ≠ s.mem x → HeapByte first free₀ s x := by
    intro x changed
    obtain ⟨a, member, has⟩ := writes x changed
    exact inv.inside _ (mem_extents_node member) x has
  have off : ∀ x, t.mem x ≠ s.mem x → ∀ b ∈ live, ¬ b.extent.Has x := by
    intro x changed b present has
    obtain ⟨a, member, here⟩ := writes x changed
    have apart := (List.pairwise_append.mp inv.separate).2.2 _ (List.mem_map_of_mem member) _ (List.mem_map_of_mem present)
    exact apart.not_has here has
  have same : SameTable s t := by
    rw [globals]
    exact sameTable_of_writes free₀ inv.table owned
  have blocks : ∀ b ∈ live, nodeSize t.mem (b.ptr - 16) = nodeSize s.mem (b.ptr - 16) := by
    intro b present
    refine load_congr fun x low high => ?_
    by_contra changed
    exact off x changed b present ⟨low, by simp only [Block.extent]; omega⟩
  have grow : ∀ x, HeapByte first free₀ s x → HeapByte first free₀ t x := fun x => (HeapByte.sameTable same).mpr
  have perm := unlinked_extents pre post live (inv.large n (by simp)) fun c member => sizes c (mem_unlinked member)
  refine ⟨inv.unlinked same chain sizes blocks, ⟨same.frameList, same.count, grow, fun x changed => Or.inr ?_⟩,
    ⟨same, inUse_perm perm⟩, sizes⟩
  exact ⟨grow x (owned x changed), off x changed⟩

/-- Shrinking a block leaves its tail to the heap, apart from everything else. -/
theorem HeapInv.shrink {n have_ : Nat} (size : Nat) (inv : HeapInv first free₀ s nodes (⟨n + 16, have_ - 16⟩ :: live))
    (fits : 16 + size ≤ have_) (small : have_ < 2 ^ 64) :
    HeapInv first free₀ { s with mem := store 8 s.mem n (16 + size) } nodes (⟨n + 16, size⟩ :: live) ∧
      HeapMove first free₀ live s { s with mem := store 8 s.mem n (16 + size) } ∧
      (∀ e ∈ extents (store 8 s.mem n (16 + size)) nodes (⟨n + 16, size⟩ :: live),
        (Extent.mk (n + 16 + size) (have_ - 16 - size)).Apart e) ∧
      (∀ x, n + 16 + size ≤ x → x < n + 16 + size + (have_ - 16 - size) →
        HeapByte first free₀ { s with mem := store 8 s.mem n (16 + size) } x) ∧
      SameTable s { s with mem := store 8 s.mem n (16 + size) } ∧
      extents (store 8 s.mem n (16 + size)) nodes live = extents s.mem nodes live := by
  obtain ⟨rest, apart⟩ := inv.forget
  have owned := inv.inside _ (mem_extents_live List.mem_cons_self)
  simp only [Block.extent, Nat.add_sub_cancel] at apart owned
  have writes : ∀ x, store 8 s.mem n (16 + size) x ≠ s.mem x → (Extent.mk n (16 + (have_ - 16))).Has x := by
    intro x changed
    have range : n ≤ x ∧ x < n + 8 := by
      by_contra outside
      exact changed (store_apply_of_not_mem (by omega))
    exact ⟨range.1, by simp only; omega⟩
  have same : SameTable s { s with mem := store 8 s.mem n (16 + size) } := by
    apply sameTable_of_writes free₀ inv.table
    intro x changed
    exact owned x (writes x changed)
  have headers : SameHeaders s.mem (store 8 s.mem n (16 + size)) nodes live :=
    SameHeaders.of_apart inv.large writes apart
  have grow : ∀ x, HeapByte first free₀ s x → HeapByte first free₀ { s with mem := store 8 s.mem n (16 + size) } x :=
    fun x => (HeapByte.sameTable same).mpr
  have kept : HeapInv first free₀ { s with mem := store 8 s.mem n (16 + size) } nodes live :=
    rest.transport (inv.table.congr same) (inv.pool_same same) (fun x _ => grow x) rfl headers
  have sizes : extents (store 8 s.mem n (16 + size)) nodes live = extents s.mem nodes live := extents_congr headers.size
  have move : HeapMove first free₀ live s { s with mem := store 8 s.mem n (16 + size) } :=
    HeapMove.of_writes same writes owned fun b member => apart _ (mem_extents_live member)
  have left : (Extent.mk n (16 + size)).Within ⟨n, 16 + (have_ - 16)⟩ := ⟨le_refl _, by simp only; omega⟩
  have right : (Extent.mk (n + 16 + size) (have_ - 16 - size)).Within ⟨n, 16 + (have_ - 16)⟩ :=
    ⟨by simp only; omega, by simp only; omega⟩
  have block : (Block.mk (n + 16) size).extent = ⟨n, 16 + size⟩ := by simp only [Block.extent, Nat.add_sub_cancel]
  have middle : (extents (store 8 s.mem n (16 + size)) nodes (⟨n + 16, size⟩ :: live)).Perm
      (⟨n, 16 + size⟩ :: extents s.mem nodes live) := by
    rw [← sizes, ← block]
    exact List.perm_middle
  refine ⟨⟨kept.table, kept.pool, kept.chain, kept.large, ?_, ?_, ?_⟩, move, ?_, ?_, same, sizes⟩
  · intro b member
    rcases List.mem_cons.mp member with rfl | member
    · refine ⟨by simp only; omega, ?_⟩
      simp only [Nat.add_sub_cancel]
      show load 8 (store 8 s.mem n (16 + size)) n = 16 + size
      rw [load_store_same]
      exact Nat.mod_eq_of_lt (by omega)
    · exact kept.headers b member
  · apply (separate_perm middle).mpr
    apply separate_cons.mpr
    exact ⟨fun e member => left.apart (apart e member), rest.separate⟩
  · intro e member x has
    apply grow
    rcases List.mem_cons.mp (middle.mem_iff.mp member) with rfl | member
    · exact owned x (left.has has)
    · exact rest.inside e member x has
  · intro e member
    rcases List.mem_cons.mp (middle.mem_iff.mp member) with rfl | member
    · exact Or.inr (by simp only; omega)
    · exact right.apart (apart e member)
  · intro x low high
    exact grow x (owned x ⟨by simp only; omega, by simp only; omega⟩)

theorem HeapInv.free {b : Block} (inv : HeapInv first free₀ s nodes live) (member : b ∈ live) :
    HeapInv first free₀ (heapFree b.ptr s) ((b.ptr - 16) :: nodes) (live.erase b) ∧
      HeapMove first free₀ (live.erase b) s (heapFree b.ptr s) ∧
      Repacked s nodes live (heapFree b.ptr s) ((b.ptr - 16) :: nodes) (live.erase b) := by
  obtain ⟨room, header⟩ := inv.headers b member
  have owned := inv.inside _ (mem_extents_live member)
  obtain ⟨rest, apart⟩ := (inv.reorder (List.perm_cons_erase member)).forget
  have last := (owned (b.ptr + b.size - 1) ⟨by simp only [Block.extent]; omega, by simp only [Block.extent]; omega⟩).bounds
    inv.table
  have small : b.ptr + b.size < 2 ^ 64 := by omega
  have call : heapFree b.ptr s = createNode (b.ptr - 16) (16 + b.size) s := by
    unfold heapFree
    rw [usub_of_le (by omega) room]
    dsimp only
    rw [header]
  have mine : ∀ x, b.ptr - 16 ≤ x → x < b.ptr - 16 + (16 + b.size) → HeapByte first free₀ s x :=
    fun x low high => owned x ⟨low, high⟩
  have same := createNode_sameTable inv.table (by omega) mine
  have perm : (extents s.mem nodes (b :: live.erase b)).Perm (extents s.mem nodes live) :=
    ((List.perm_cons_erase member).symm.map _).append_left _
  obtain ⟨created, moved⟩ := rest.create _ _ (by omega) (by omega) apart mine
  rw [call]
  refine ⟨created, moved, same, fun x => ?_⟩
  rw [createNode_inUse rest.large (by omega) (by omega) apart, ← inUse_perm perm, inUse_block]
  rfl

end System14
