import System14.Mm.HeapReuse

/-!
# Freeing aligned allocations

`free` looks for the header of a block sixteen bytes below its pointer.
`aligned_alloc` leaves the header at the start of the node and moves the pointer
up by the padding, so the two agree only where there is none. Where they agree,
the bytes of the node are back on the list, as long as they were the node's own.
-/

namespace System14
open ByteMem Run Chain Extent

variable {mode : Panic} {first size n alignment r request total : Nat} {free₀ : Nat → Bool} {s t u v : Kernel}
  {nodes : List Nat} {live : List Block}

/-! ### Back on the list -/

/-- Every byte from `n` on is in the heap's frames, and in none of its nodes and blocks. -/
def Unclaimed (first : Nat) (free₀ : Nat → Bool) (s : Kernel) (nodes : List Nat) (live : List Block) (n total : Nat) :
    Prop :=
  ∀ x, (Extent.mk n total).Has x →
    (∃ j < frameCount s, free₀ j = true ∧ first + 4096 * j ≤ x ∧ x < first + 4096 * j + 4096) ∧ ¬ InUse s.mem nodes live x

/-- Freed in any memory that the caller may have left, the block at `r` gives
back those of the node's `total` bytes that were not put on the list as its rest. -/
def FreeUndoes (first : Nat) (free₀ : Nat → Bool) (live : List Block) (n total size r : Nat) (u : Kernel) : Prop :=
  ∀ m : Mem, (∀ x, m x ≠ u.mem x → (Extent.mk r size).Has x) →
    HeapWellFormed first free₀ (heapFree r { u with mem := m }) live ∧
    ∀ x, (nodeExtent (heapFree r { u with mem := m }).mem (heapFree r { u with mem := m }).head.next).Has x ↔
      (Extent.mk n total).Has x ∧ ¬ (Extent.mk u.head.next (extraSize total size)).Has x

theorem FreeUndoes.unwritten (undoes : FreeUndoes first free₀ live n total size r u) :
    HeapWellFormed first free₀ (heapFree r u) live ∧
      ∀ x, (nodeExtent (heapFree r u).mem (heapFree r u).head.next).Has x ↔
        (Extent.mk n total).Has x ∧ ¬ (Extent.mk u.head.next (extraSize total size)).Has x :=
  undoes u.mem fun _ changed => absurd rfl changed

/-! ### The node that was found is a block -/

theorem Taking.inv {f k : Nat} (taking : Taking first s t f k) (inv : HeapInv first free₀ s nodes live) :
    HeapInv first free₀ t nodes live ∧ extents t.mem nodes live = extents s.mem nodes live := by
  have headers : SameHeaders s.mem t.mem nodes live := by
    apply SameHeaders.of_bytes inv.large
    intro e member x has
    obtain ⟨j, lt, _, used, range⟩ := inv.inside e member x has
    exact taking.keep x ⟨j, lt, rfl, used, range⟩
  have pool : ∀ j < frameCount t, frameFree t j = true → free₀ j = true := by
    intro j lt free
    rw [taking.count] at lt
    exact inv.pool j lt (taking.older j lt free)
  have grow : ∀ x, InUse s.mem nodes live x → HeapByte first free₀ s x → HeapByte first free₀ t x := by
    rintro x _ ⟨j, lt, pool, used, range⟩
    refine ⟨j, by rw [taking.count]; exact lt, pool, ?_, range⟩
    by_contra free
    rw [taking.older j lt (by simpa using free)] at used
    cases used
  exact ⟨inv.transport taking.table pool grow (by rw [taking.globals]) headers, extents_congr headers.size⟩

theorem intToU64_le {k : Nat} (low : intToU64 k < 2 ^ 31) : intToU64 k ≤ k := by
  unfold intToU64 at low ⊢
  dsimp only at low ⊢
  split at low
  · rw [if_pos ‹_›]
    exact Nat.mod_le _ _
  · omega

/-- A new node that lies in the frames lies in those that were taken for it. -/
theorem NewNode.inside_taken {f k : Nat} (new : NewNode first s nodes request f k total u)
    (table : FrameTable s first) (inside : first + 4096 * f + total ≤ first + 4096 * frameCount s) :
    total ≤ 4096 * k + 4096 := by
  have fits := table.fits
  have above := table.above
  rcases new.kind with ⟨_, _, _, rfl⟩ | ⟨_, _, rfl⟩
  · omega
  · rcases intToU64_range (k * 4096) with low | high
    · have exact_ := intToU64_le low
      omega
    · -- A frame list for that much memory does not fit below the node.
      omega

theorem ServedNew.inv (new : ServedNew first s nodes request n t) (inv : HeapInv first free₀ s nodes live)
    (own : Unclaimed first free₀ s nodes live n (nodeSize t.mem n)) :
    HeapInv first free₀ t nodes (⟨n + 16, nodeSize t.mem n - 16⟩ :: live) := by
  have fetched := new.fetched inv.freeList
  obtain ⟨f, k, total, w, new, rfl, rfl⟩ := new
  obtain ⟨n, here⟩ : ∃ n, first + 4096 * f = n := ⟨_, rfl⟩
  obtain ⟨kept, same⟩ := new.taking.inv inv
  have size : nodeSize (createNode n total w).mem n = total := createNode_size new.total_lt
  rw [here] at own fetched ⊢
  have whole : nodeSize (setCursorNext (createNode n total w) (nodeNext (createNode n total w).mem n) none).mem n = total :=
    size
  have large := fetched.large
  rw [whole] at own large
  obtain ⟨⟨last, lt, _, _, stop⟩, _⟩ := own (n + total - 1) ⟨by simp only; omega, by simp only; omega⟩
  have span := new.inside_taken inv.table (by omega)
  obtain ⟨g, _, behind, _, used⟩ := new.taking.last
  have apart : ∀ e ∈ extents w.mem nodes live, (Extent.mk n total).Apart e := by
    intro e member
    apply apart_of_not_has (show 0 < total by omega) (kept.extent_pos member)
    intro x has inUse
    rw [same] at member
    exact (own x has).2 ⟨e, member, inUse⟩
  have owned : ∀ x, n ≤ x → x < n + total → HeapByte first free₀ w x := by
    intro x low high
    obtain ⟨⟨j, lt, pool, start, stop⟩, _⟩ := own x ⟨low, high⟩
    exact ⟨j, by rw [new.taking.count]; exact lt, pool, used j (by omega), start, stop⟩
  obtain ⟨created, _⟩ := kept.create n total large new.total_lt apart owned
  have created : HeapInv first free₀ (createNode n total w) ([] ++ n :: nodes) live := created
  have taken := created.take.1
  rw [size] at taken
  rw [whole]
  exact taken

theorem HeapInv.searched {fuel : Nat} (inv : HeapInv first free₀ s nodes live) (wide : request < 2 ^ 64)
    (search : findAndRemoveNode mode fuel request s = .ok (n, t)) (nonnull : n ≠ null)
    (own : n ∈ nodes ∨ Unclaimed first free₀ s nodes live n (nodeSize t.mem n)) :
    ∃ nodes', HeapInv first free₀ t nodes' (⟨n + 16, nodeSize t.mem n - 16⟩ :: live) := by
  rcases search_cases inv.freeList wide (findFrom_any search) with none | ⟨pre, post, rfl, _, rfl, _⟩ | new
  · exact absurd none nonnull
  · obtain ⟨taken, _, _, sizes⟩ := inv.take
    have same := sizes n (by simp)
    rw [← same] at taken
    exact ⟨pre ++ post, taken⟩
  · rcases own with member | own
    · have apart := ((new.others inv.freeList).2 n member).2
      omega
    · exact ⟨nodes, new.inv inv own⟩

theorem heapFree_extent {m : Mem} (given : Given u n size)
    (payload : ∀ x, m x ≠ u.mem x → (Extent.mk (n + 16) size).Has x) :
    nodeExtent (heapFree (n + 16) { u with mem := m }).mem (heapFree (n + 16) { u with mem := m }).head.next =
      ⟨n, 16 + size⟩ := by
  have header := given.header_kept payload
  rw [heapFree_payload given payload]
  show Extent.mk n (nodeSize (store 8 m (n + 8) u.head.next) n) = ⟨n, 16 + size⟩
  rw [nodeSize, load_store_of_apart (by omega), ← nodeSize, header]

/-- What a block and its rest were cut from is theirs: freeing the block puts its part back. -/
theorem HeapInv.freeUndoes (taken : HeapInv first free₀ t nodes (⟨n + 16, nodeSize t.mem n - 16⟩ :: live))
    (split : SplitClean (nodeSize t.mem n) size) (given : Given (cutNode n size t) n size) :
    FreeUndoes first free₀ live n (nodeSize t.mem n) size (n + 16) (cutNode n size t) := by
  obtain ⟨_, nodes', cut, _⟩ := taken.cut split
  intro m payload
  constructor
  · obtain ⟨written, _⟩ := cut.payload (b := ⟨n + 16, size⟩) List.mem_cons_self payload
    obtain ⟨freed, _⟩ := written.free (b := ⟨n + 16, size⟩) List.mem_cons_self
    rw [List.erase_cons_head] at freed
    exact freed.wellFormed
  · intro x
    unfold SplitClean at split
    have small : nodeSize t.mem n < 2 ^ 64 := load_lt 8 _ _
    rw [heapFree_extent given payload, extraSize_eq small (by omega)]
    simp only [Extent.Has]
    by_cases whole : nodeSize t.mem n = 16 + size
    · omega
    · rw [cutNode_head whole]
      omega

/-! ### What the list says afterwards -/

/-- The bytes before the block are not the rest's, whose end would have to be the block's start. -/
theorem unpadded_of_span {f len rest extra : Nat} (low : n ≤ f) (room : 16 ≤ len) (large : 16 ≤ total)
    (small : total < 2 ^ 64) (left : extra = extraSize total size) (stop : 0 < extra → rest = uadd 64 (f + 16) size)
    (span : ∀ x, (Extent.mk f len).Has x ↔ (Extent.mk n total).Has x ∧ ¬ (Extent.mk rest extra).Has x) : f = n := by
  by_contra padded
  have start := span n
  have here := span f
  have before := span (f - 1)
  simp only [Extent.Has] at start here before
  have positive : 0 < extra := by omega
  have joined : rest + extra = f := by omega
  rw [stop positive, left] at joined
  unfold extraSize usub uadd at joined
  omega

theorem clean_of_span {len rest extra : Nat} (room : 16 ≤ len) (large : 16 ≤ total) (small : total < 2 ^ 64)
    (wide : size < 2 ^ 64) (left : extra = extraSize total size) (stop : 0 < extra → rest = uadd 64 (n + 16) size)
    (span : ∀ x, (Extent.mk n len).Has x ↔ (Extent.mk n total).Has x ∧ ¬ (Extent.mk rest extra).Has x)
    (top : ∀ x, (Extent.mk n len).Has x → x + 1 < 2 ^ 64)
    (fits : 0 < extra → rest = n + 16 + size → 16 ≤ extra ∧ rest + extra ≤ 2 ^ 64) :
    SplitClean total size ∧ n + 16 + size < 2 ^ 64 := by
  have start := span (n + 15)
  have last := span (n + total - 1)
  have bound := top (n + total - 1)
  simp only [Extent.Has] at start last bound
  unfold SplitClean
  by_cases none : extra = 0
  · have whole : total = 16 + size := by
      rw [none] at left
      unfold extraSize usub at left
      omega
    omega
  · have place := stop (by omega)
    unfold uadd at place
    unfold extraSize usub at left
    by_cases wraps : n + 16 + size < 2 ^ 64
    · have behind : rest = n + 16 + size := by omega
      have whole := fits (by omega) behind
      omega
    · exfalso
      by_cases covers : 16 + size ≤ total
      · -- The rest went below, so the last byte of the node is the block's, and past the last address.
        omega
      · -- The rest reaches the end of the node, and starts in the block's header.
        omega

theorem HeapWellFormed.node {a k : Nat} {e : Extent} (wf : HeapWellFormed first free₀ v live) (here : nodeAt v k = a)
    (nonnull : a ≠ null) (extent : nodeExtent v.mem a = e) : 16 ≤ e.len ∧ ∀ x, e.Has x → HeapByte first free₀ v x := by
  obtain ⟨nodes, chain, _, large, _, inside⟩ := wf
  rw [← here] at nonnull extent
  have member := linked_nth_mem chain nonnull
  rw [← extent]
  refine ⟨large _ member, fun x has => ?_⟩
  apply inside _ (List.mem_append_left _ (List.mem_map_of_mem member)) x
  exact ⟨has.1, lt_of_lt_of_le has.2 (Nat.add_le_add_left (Nat.le_max_right _ _) _)⟩

theorem trim_globals (n size alignment : Nat) (s : Kernel) :
    trim n size alignment s = { s with mem := (trim n size alignment s).mem, head := (trim n size alignment s).head } := by
  unfold trim
  split <;> rfl

/-- The rest of the node is on the list behind the block that was freed. -/
theorem HeapWellFormed.freed_rest {stop extra len : Nat}
    (wf : HeapWellFormed first free₀ (createNode n len (carve n stop extra t)) live) (nonnull : n ≠ null)
    (apart : n + 16 ≤ stop) (address : stop < 2 ^ 64) (small : extra < 2 ^ 64) :
    16 ≤ extra ∧ ∀ x, (Extent.mk stop extra).Has x → HeapByte first free₀ (createNode n len (carve n stop extra t)) x := by
  have size : nodeSize (createNode n len (carve n stop extra t)).mem stop = extra := by
    have kept : nodeSize (createNode n len (carve n stop extra t)).mem stop = nodeSize (carve n stop extra t).mem stop :=
      load_congr fun x low high => createNode_mem_apply (by omega)
    rw [kept]
    exact carve_stop small (by omega)
  have next : nodeAt (createNode n len (carve n stop extra t)) 1 = stop := (if_neg nonnull).trans (createNode_next address)
  exact wf.node next (by unfold null; omega) (by rw [nodeExtent, size])

/-- The block has no padding and its node was cut cleanly, if freeing it undoes the allocation. -/
theorem FreeUndoes.clean (undoes : FreeUndoes first free₀ live n (nodeSize t.mem n) size r (trim n size alignment t))
    (place : r = alignUp 64 (uadd 64 n 16) alignment) (low : n + 16 ≤ r) (small : r < 2 ^ 64) (wide : size < 2 ^ 64)
    (nonnull : n ≠ null) (large : 16 ≤ nodeSize t.mem n) (top : first + 4096 * frameCount t < 2 ^ 64) :
    r = n + 16 ∧ SplitClean (nodeSize t.mem n) size ∧ n + 16 + size < 2 ^ 64 := by
  obtain ⟨extra, left⟩ : ∃ extra, extra = extraSize (nodeSize t.mem n) size := ⟨_, rfl⟩
  obtain ⟨u, value⟩ : ∃ u, trim n size alignment t = u := ⟨_, rfl⟩
  have cut : 0 < extra → u = carve n (uadd 64 r size) extra t := by
    intro more
    rw [left] at more
    rw [← value, place, left, trim, if_pos more]
  have globals := trim_globals n size alignment t
  rw [value] at undoes globals
  obtain ⟨wf, span⟩ := undoes.unwritten
  obtain ⟨len, length⟩ : ∃ len, nodeSize u.mem (r - 16) = len := ⟨_, rfl⟩
  have call : heapFree r u = createNode (r - 16) len u := by
    unfold heapFree
    rw [usub_of_le small (by omega)]
    simp only [length]
  have start : (createNode (r - 16) len u).head.next = r - 16 := rfl
  have total : nodeExtent (createNode (r - 16) len u).mem (r - 16) = ⟨r - 16, len⟩ := by
    rw [nodeExtent, createNode_size (by rw [← length]; exact load_lt 8 _ _)]
  rw [call] at wf span
  rw [start, total, ← left] at span
  have bounded : ∀ x, HeapByte first free₀ (createNode (r - 16) len u) x → x + 1 < 2 ^ 64 := by
    intro x owned
    have limit := owned.top.2
    have count : frameCount (createNode (r - 16) len u) = frameCount t := by
      rw [globals]
      rfl
    omega
  -- The block's own node and, if there is one, the rest are on a list of whole nodes in the frames.
  obtain ⟨room, inside⟩ := wf.node (k := 0) start (by unfold null at nonnull ⊢; omega) total
  simp only at room
  have rest : 0 < extra → u.head.next = uadd 64 (r - 16 + 16) size := by
    intro more
    rw [cut more, Nat.sub_add_cancel (by omega)]
    rfl
  have same : r - 16 = n := unpadded_of_span (by omega) room large (load_lt 8 _ _) left rest span
  have tail : 0 < extra → u.head.next = n + 16 + size → 16 ≤ extra ∧ u.head.next + extra ≤ 2 ^ 64 := by
    intro more behind
    have here := rest more
    have address : uadd 64 r size < 2 ^ 64 := Nat.mod_lt _ (by decide)
    rw [Nat.sub_add_cancel (by omega)] at here
    rw [same, cut more] at wf
    obtain ⟨whole, owned⟩ := wf.freed_rest nonnull (by omega) address (by rw [left]; exact Nat.mod_lt _ (by decide))
    rw [← cut more, ← same] at owned
    have limit := bounded _ (owned (uadd 64 r size + extra - 1) ⟨by simp only; omega, by simp only; omega⟩)
    exact ⟨whole, by omega⟩
  rw [same] at span rest inside bounded
  have clean := clean_of_span room large (load_lt 8 _ _) wide left rest span (fun x has => bounded x (inside x has)) tail
  exact ⟨by omega, clean⟩

/-! ### Whose the bytes were -/

/-- The list after a block is freed that was cut cleanly: its node, the rest, and what was behind. -/
theorem freed_list {nodes' : List Nat} (given : Given (cutNode n size t) n size)
    (split : SplitClean (nodeSize t.mem n) size) (head : t.head.next < 2 ^ 64)
    (freed : heapFree (n + 16) (cutNode n size t) = v) (chain : Linked (nodeNext v.mem) null v.head.next nodes') :
    ∃ others, nodes' = n :: (remainder n (nodeSize t.mem n) size ++ others) ∧
      Linked (nodeNext v.mem) null t.head.next others ∧ nodeSize v.mem n = 16 + size ∧
      (nodeSize t.mem n ≠ 16 + size → nodeSize v.mem (n + 16 + size) = nodeSize t.mem n - 16 - size) ∧
      ∀ x, v.mem x ≠ t.mem x → (nodeExtent t.mem n).Has x := by
  have value := given.freed
  rw [freed] at value
  have start : v.head.next = n := by rw [value]
  have mem : v.mem = store 8 (cutNode n size t).mem (n + 8) (cutNode n size t).head.next := by rw [value]
  have header : nodeSize v.mem n = 16 + size := by
    rw [mem, nodeSize, load_store_of_apart (by omega), ← nodeSize, given.header]
  have next : nodeNext v.mem n = (cutNode n size t).head.next := by
    rw [mem, nodeNext, load_store_same]
    exact Nat.mod_eq_of_lt given.head
  have writes : ∀ x, v.mem x ≠ t.mem x → (nodeExtent t.mem n).Has x := by
    intro x changed
    by_cases same : (cutNode n size t).mem x = t.mem x
    · have link : n + 8 ≤ x ∧ x < n + 16 := by
        by_contra outside
        rw [mem, store_apply_of_not_mem (by omega)] at changed
        exact changed same
      unfold SplitClean at split
      exact ⟨by simp only [nodeExtent]; omega, by simp only [nodeExtent]; omega⟩
    · exact cutNode_writes split same
  rw [start] at chain
  cases nodes' with
  | nil => exact absurd chain given.nonnull
  | cons a tail =>
    obtain ⟨rfl, _, chain⟩ := chain
    rw [next] at chain
    by_cases whole : nodeSize t.mem n = 16 + size
    · rw [cutNode, if_pos whole] at chain
      exact ⟨tail, by simp [remainder, whole], chain, header, fun more => absurd whole more, writes⟩
    · rw [cutNode_head whole] at chain
      cases tail with
      | nil =>
        have none : n + 16 + size = null := chain
        unfold null at none
        omega
      | cons b tail =>
        obtain ⟨rfl, _, chain⟩ := chain
        have kept : ∀ x, n + 16 ≤ x → v.mem x = (cutNode n size t).mem x := by
          intro x low
          rw [mem, store_apply_of_not_mem (by omega)]
        obtain ⟨size_rest, next_rest⟩ := cutNode_rest head whole
        have rest : nodeSize v.mem (n + 16 + size) = nodeSize t.mem n - 16 - size :=
          (load_congr fun x low _ => kept x (by omega)).trans size_rest
        have behind : nodeNext v.mem (n + 16 + size) = t.head.next :=
          (load_congr fun x low _ => kept x (by omega)).trans next_rest
        rw [behind] at chain
        exact ⟨tail, by simp [remainder, whole], chain, header, fun _ => rest, writes⟩

/-- The node and what was cut from it cover what they were cut from: nothing else
on the list reaches into it, and all of it is in the frames. -/
theorem pieces_apart {tail : List Nat} {P : Nat → Prop} (split : SplitClean (nodeSize t.mem n) size)
    (header : nodeSize v.mem n = 16 + size)
    (rest : nodeSize t.mem n ≠ 16 + size → nodeSize v.mem (n + 16 + size) = nodeSize t.mem n - 16 - size)
    (separate : Separate ((n :: (remainder n (nodeSize t.mem n) size ++ tail)).map
      (fun a => Extent.mk a (max 16 (nodeSize v.mem a))) ++ live.map Block.extent))
    (inside : ∀ e ∈ (n :: (remainder n (nodeSize t.mem n) size ++ tail)).map
      (fun a => Extent.mk a (max 16 (nodeSize v.mem a))) ++ live.map Block.extent, ∀ x, e.Has x → P x) :
    (∀ e ∈ tail.map (fun a => Extent.mk a (max 16 (nodeSize v.mem a))) ++ live.map Block.extent, 0 < e.len →
      (nodeExtent t.mem n).Apart e) ∧ ∀ x, (nodeExtent t.mem n).Has x → P x := by
  have node : Extent.mk n (max 16 (nodeSize v.mem n)) = ⟨n, 16 + size⟩ := by rw [header, Nat.max_eq_right (by omega)]
  unfold SplitClean at split
  by_cases whole : nodeSize t.mem n = 16 + size
  · rw [remainder, if_pos whole, List.nil_append, List.map_cons, List.cons_append, node] at separate inside
    rw [nodeExtent, whole]
    exact ⟨fun e member _ => (separate_cons.mp separate).1 e member, inside _ List.mem_cons_self⟩
  · have left : Extent.mk (n + 16 + size) (max 16 (nodeSize v.mem (n + 16 + size))) =
        ⟨n + (16 + size), nodeSize t.mem n - 16 - size⟩ := by
      rw [rest whole, Nat.max_eq_right (by omega), Nat.add_assoc]
    have sum : nodeExtent t.mem n = ⟨n, 16 + size + (nodeSize t.mem n - 16 - size)⟩ := by
      rw [nodeExtent]
      congr 1
      omega
    rw [remainder, if_neg whole, List.singleton_append, List.map_cons, List.map_cons, List.cons_append, List.cons_append,
      node, left] at separate inside
    obtain ⟨apart, separate⟩ := separate_cons.mp separate
    rw [sum]
    constructor
    · intro e member some
      exact (apart e (List.mem_cons_of_mem _ member)).append ((separate_cons.mp separate).1 e member) some
    · intro x has
      by_cases mine : x < n + (16 + size)
      · exact inside _ List.mem_cons_self x ⟨has.1, mine⟩
      · refine inside _ (List.mem_cons_of_mem _ List.mem_cons_self) x ⟨by simp only; omega, ?_⟩
        have high := has.2
        simp only at high ⊢
        omega

/-- No other node or block has a byte of the node that the block was cut from. -/
theorem HeapWellFormed.unclaimed (wf : HeapWellFormed first free₀ v live) (given : Given (cutNode n size t) n size)
    (split : SplitClean (nodeSize t.mem n) size) (freed : heapFree (n + 16) (cutNode n size t) = v)
    (inv : HeapInv first free₀ s nodes live) (new : ServedNew first s nodes request n t) (count : frameCount v = frameCount s) :
    Unclaimed first free₀ s nodes live n (nodeSize t.mem n) := by
  have fetched := new.fetched inv.freeList
  obtain ⟨chain, others⟩ := new.others inv.freeList
  obtain ⟨nodes', chain', _, _, separate, inside⟩ := wf
  obtain ⟨tail, rfl, behind, header, rest, writes⟩ := freed_list given split fetched.head freed chain'
  obtain ⟨apart, owned⟩ := pieces_apart split header rest separate inside
  have off : ∀ a ∈ tail, (nodeExtent t.mem n).Apart ⟨a, max 16 (nodeSize v.mem a)⟩ := fun a member =>
    apart _ (List.mem_append_left _ (List.mem_map_of_mem member)) (by simp only; omega)
  have kept : ∀ a ∈ tail, ∀ x, a ≤ x → x < a + 16 → t.mem x = v.mem x := by
    intro a member x low high
    by_contra changed
    exact (off a member).not_has (writes x fun same => changed same.symm) ⟨low, by simp only; omega⟩
  -- The walk from the old first node is the same in both memories.
  have walk : Linked (nodeNext t.mem) null t.head.next tail :=
    linked_congr behind fun a member => load_congr fun x low high => kept a member x (by omega) (by omega)
  have same : tail = nodes := linked_unique walk chain
  subst same
  intro x has
  obtain ⟨j, lt, pool, _, range⟩ := owned x has
  refine ⟨⟨j, by rw [← count]; exact lt, pool, range⟩, ?_⟩
  rintro ⟨e, member, inUse⟩
  rcases List.mem_append.mp member with node | block
  · obtain ⟨a, present, rfl⟩ := List.mem_map.mp node
    have size_t : nodeSize t.mem a = nodeSize v.mem a := load_congr fun x low high => kept a present x low (by omega)
    have size_s := (others a present).1
    have within : (nodeExtent s.mem a).Within ⟨a, max 16 (nodeSize v.mem a)⟩ := by
      simp only [Extent.Within, nodeExtent]
      omega
    exact (off a present).not_has has (within.has inUse)
  · obtain ⟨b, present, rfl⟩ := List.mem_map.mp block
    have positive : 0 < b.extent.len := by
      simp only [Block.extent]
      omega
    exact (apart _ (List.mem_append_right _ (List.mem_map_of_mem present)) positive).not_has has inUse

/-! ### Allocated and freed -/

theorem alignedAlloc_undone_iff {fuel : Nat} (inv : HeapInv first free₀ s nodes live) (wide : size < 2 ^ 64)
    (positive : 1 ≤ alignment) (bound : alignment < 2 ^ 64)
    (search : findAndRemoveNode mode fuel (uadd 64 size (usub 64 alignment 1)) s = .ok (n, t)) (found : n ≠ null)
    (nonnull : alignUp 64 (uadd 64 n 16) alignment ≠ null) :
    FreeUndoes first free₀ live n (nodeSize t.mem n) size (alignUp 64 (uadd 64 n 16) alignment) (trim n size alignment t) ↔
      alignment ∣ n + 16 ∧ SplitClean (nodeSize t.mem n) size ∧
        (n ∈ nodes ∨ Unclaimed first free₀ s nodes live n (nodeSize t.mem n)) := by
  have request : uadd 64 size (usub 64 alignment 1) < 2 ^ 64 := Nat.mod_lt _ (by decide)
  have fetched := inv.fetched request search found
  have count := (inv.search_table request search found).2
  have header := fetched.header
  have top := inv.table.top_le
  have base : uadd 64 n 16 = n + 16 := uadd_of_lt (by omega)
  rw [base] at nonnull ⊢
  have small : n + 16 + (alignment - 1) < 2 ^ 64 := alignUp_small (by omega) bound nonnull
  obtain ⟨divides, low, high⟩ := alignUp_bounds (w := 64) positive small
  constructor
  · intro undoes
    obtain ⟨unpadded, split, room⟩ :=
      undoes.clean (by rw [base]) low (by omega) wide found fetched.large (by rw [count]; omega)
    rw [unpadded] at divides undoes
    refine ⟨divides, split, ?_⟩
    rcases search_cases inv.freeList request (findFrom_any search) with none | ⟨pre, post, rfl, _⟩ | new
    · exact absurd none found
    · exact Or.inl (by simp)
    · have given := inv.given request search found room
      rw [trim_cut (by rw [base, unpadded]) room split.covers] at undoes
      have wf := undoes.unwritten.1
      have frames : frameCount (cutNode n size t) = frameCount s := by
        rw [cutNode_globals]
        exact count
      exact Or.inr (wf.unclaimed given split rfl inv new frames)
  · rintro ⟨divides, split, own⟩
    obtain ⟨nodes', taken⟩ := inv.searched request search found own
    have room := (taken.block_bounds List.mem_cons_self).2
    have unpadded := (alignUp_eq_self positive small).mpr divides
    have covers := split.covers
    simp only at room
    rw [unpadded, trim_cut (by rw [base, unpadded]) (by omega) (by omega)]
    exact taken.freeUndoes split (inv.given request search found (by omega))

/-- `free` undoes an aligned allocation exactly when the block needs no padding,
the rest of its node is nothing or has room for a header, and the node was on the
list or is made of bytes of the heap's frames that nothing else uses. -/
theorem free_undoes_iff (inv : HeapInv first free₀ s nodes live) (wide : size < 2 ^ 64) (positive : 1 ≤ alignment)
    (bound : alignment < 2 ^ 64) (returned : Returns (alignedAlloc mode · alignment size s) (r, u)) (nonnull : r ≠ null) :
    ∃ n t, Returns (findAndRemoveNode mode · (uadd 64 size (usub 64 alignment 1)) s) (n, t) ∧
      Serves first s nodes (uadd 64 size (usub 64 alignment 1)) n (nodeSize t.mem n) ∧
      (FreeUndoes first free₀ live n (nodeSize t.mem n) size r u ↔
        alignment ∣ n + 16 ∧ SplitClean (nodeSize t.mem n) size ∧
          (n ∈ nodes ∨ Unclaimed first free₀ s nodes live n (nodeSize t.mem n))) := by
  obtain ⟨fuel, call⟩ := returned
  obtain ⟨n, t, search, found, _, rfl, rfl⟩ := alignedAlloc_ok (call fuel (le_refl _)) nonnull
  have request : uadd 64 size (usub 64 alignment 1) < 2 ^ 64 := Nat.mod_lt _ (by decide)
  exact ⟨n, t, findAndRemoveNode_returns search, inv.serves request search found,
    alignedAlloc_undone_iff inv wide positive bound search found nonnull⟩

/-- The first request on the small machine is served from its first page, whatever its alignment. -/
theorem SmallMachine.aligned (machine : SmallMachine s) (positive : alignment ≠ 0)
    (few : uadd 64 (uadd 64 size (usub 64 alignment 1)) 16 < 4096) :
    ∃ t, Returns (findAndRemoveNode .halts · (uadd 64 size (usub 64 alignment 1)) s) (0x101000, t) ∧
      nodeSize t.mem 0x101000 = 4096 ∧
      Returns (alignedAlloc .halts · alignment size s) (alignUp 64 0x101010 alignment, trim 0x101000 size alignment t) := by
  obtain ⟨t, ⟨bound, search⟩, total⟩ := machine.search few
  refine ⟨t, ⟨bound, search⟩, total, bound, fun fuel enough => ?_⟩
  exact alignedAlloc_trim (search fuel enough) (by decide) positive (by decide)

theorem free_undoes_iff_smallMap : ∃ s u, initializeAllocator .halts smallMap { mem := fun _ => 0 } = .ok s ∧
    Returns (alignedAlloc .halts · 16 100 s) (0x101010, u) ∧
    FreeUndoes 0x101000 (frameFree s) [] 0x101000 4096 100 0x101010 u := by
  obtain ⟨s, machine⟩ := smallMachine
  obtain ⟨t, search, total, returned⟩ := machine.aligned (show 16 ≠ 0 by decide)
    (show uadd 64 (uadd 64 100 (usub 64 16 1)) 16 < 4096 by decide)
  obtain ⟨n, t', search', _, undone⟩ := free_undoes_iff (heapInv_empty machine.table machine.empty)
    (show 100 < 2 ^ 64 by decide) (show 1 ≤ 16 by decide) (by decide) returned (by decide)
  cases search.unique search'
  rw [total] at undone
  have unclaimed : Unclaimed 0x101000 (frameFree s) s [] [] 0x101000 4096 := by
    rintro x ⟨low, high⟩
    refine ⟨⟨0, by rw [machine.count]; decide, machine.free 0 (by decide), low, high⟩, ?_⟩
    rintro ⟨e, member, _⟩
    cases member
  exact ⟨s, _, machine.init, returned, undone.mpr ⟨by decide, Or.inr (by decide), Or.inr unclaimed⟩⟩

/-- A first request for 100 bytes on a boundary of 64 has 48 bytes of padding. -/
theorem smallMap_free_not_undone : ∃ s t u, initializeAllocator .halts smallMap { mem := fun _ => 0 } = .ok s ∧
    HeapInv 0x101000 (frameFree s) s [] [] ∧
    Returns (findAndRemoveNode .halts · (uadd 64 100 (usub 64 64 1)) s) (0x101000, t) ∧ nodeSize t.mem 0x101000 = 4096 ∧
    Returns (alignedAlloc .halts · 64 100 s) (0x101040, u) ∧
    ¬ FreeUndoes 0x101000 (frameFree s) [] 0x101000 4096 100 0x101040 u := by
  obtain ⟨s, machine⟩ := smallMachine
  have inv := heapInv_empty machine.table machine.empty
  obtain ⟨t, ⟨bound, search⟩, total, returned⟩ := machine.aligned (show 64 ≠ 0 by decide)
    (show uadd 64 (uadd 64 100 (usub 64 64 1)) 16 < 4096 by decide)
  have undone := alignedAlloc_undone_iff inv (show 100 < 2 ^ 64 by decide) (show 1 ≤ 64 by decide) (by decide)
    (search bound (le_refl bound)) (by decide) (by decide)
  rw [total] at undone
  exact ⟨s, t, _, machine.init, inv, ⟨bound, search⟩, total, returned, fun undoes =>
    absurd (undone.mp undoes).1 (by decide)⟩

end System14
