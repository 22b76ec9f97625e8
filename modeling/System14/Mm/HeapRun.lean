import System14.Mm.AllocatorSafety
import System14.Mm.HeapSearch

/-!
# Runs of the heap

`malloc` cuts the node it found in two and writes a node header into the rest,
however small the rest is. Runs whose requests are all `MallocClean` keep the
representation invariant; a request that leaves fewer than 16 bytes breaks it.
-/

namespace System14
open ByteMem Run Chain Extent

variable {first size fuel : Nat} {free₀ : Nat → Bool} {s t u : Kernel} {nodes : List Nat} {live : List Block}
  {P : Nat → Prop}

/-! ### Cutting a node -/

/-- The node `n` is cut at `stop`, where a node of `extra` bytes is put on the list. -/
def carve (n stop extra : Nat) (s : Kernel) : Kernel :=
  { createNode stop extra s with
    mem := store 8 (createNode stop extra s).mem n (usub 64 (nodeSize (createNode stop extra s).mem n) extra) }

/-- `extraSize` of `_alloc`, for a node of `total` bytes. -/
def extraSize (total size : Nat) : Nat := usub 64 (usub 64 total 16) size

theorem extraSize_eq {total : Nat} (small : total < 2 ^ 64) (covers : 16 + size ≤ total) :
    extraSize total size = total - 16 - size := by
  rw [extraSize, usub_of_le small (by omega), usub_of_le (by omega) (by omega)]

/-- What `_alloc` does to the node it found. -/
def trim (n size alignment : Nat) (s : Kernel) : Kernel :=
  if extraSize (nodeSize s.mem n) size > 0 then
    carve n (uadd 64 (alignUp 64 (uadd 64 n 16) alignment) size) (extraSize (nodeSize s.mem n) size) s
  else s

theorem alloc_trim {mode : Panic} {n alignment : Nat}
    (search : findAndRemoveNode mode fuel (uadd 64 size (usub 64 alignment 1)) s = .ok (n, t)) (nonnull : n ≠ null)
    (positive : alignment ≠ 0) : alloc mode fuel size alignment s = .ok (uadd 64 n 16, trim n size alignment t) := by
  unfold alloc trim extraSize
  rw [search]
  simp only [ok_bind, if_neg nonnull, if_neg positive, pure_eq_ok]
  split <;> rfl

/-- The code writes the rest's header first and then shrinks the node; the order does not matter. -/
theorem cut_eq {n rest total : Nat} (apart : n + 16 ≤ rest) :
    { createNode rest size s with mem := store 8 (createNode rest size s).mem n total } =
      createNode rest size { s with mem := store 8 s.mem n total } := by
  have commute : store 8 (store 8 (store 8 s.mem (rest + 8) s.head.next) rest size) n total =
      store 8 (store 8 (store 8 s.mem n total) (rest + 8) s.head.next) rest size := by
    rw [store_comm (by omega), store_comm (a := n) (b := rest + 8) (by omega)]
  exact congrArg (fun m => { createNode rest size s with mem := m }) commute

theorem HeapInv.block_bounds {b : Block} (inv : HeapInv first free₀ s nodes live) (member : b ∈ live) :
    b.ptr - 16 ≠ null ∧ b.ptr + b.size < 2 ^ 64 := by
  have room := (inv.headers b member).1
  have owned := inv.inside _ (mem_extents_live member)
  have start := (owned (b.ptr - 16) ⟨le_refl _, by simp only [Block.extent]; omega⟩).bounds inv.table
  have stop := (owned (b.ptr + b.size - 1) ⟨by simp only [Block.extent]; omega, by simp only [Block.extent]; omega⟩).bounds
    inv.table
  exact ⟨start.2.2, by omega⟩

/-- What `malloc` does to the node it found: the rest behind `size` bytes becomes a node of its own. -/
def cutNode (n size : Nat) (s : Kernel) : Kernel :=
  if nodeSize s.mem n = 16 + size then s
  else createNode (n + 16 + size) (nodeSize s.mem n - 16 - size) { s with mem := store 8 s.mem n (16 + size) }

/-- What `malloc` asks the search for: the alignment of 1 adds nothing. -/
theorem malloc_request (small : size < 2 ^ 64) : uadd 64 size (usub 64 1 1) = size := by
  rw [usub_of_le (by omega) (le_refl _)]
  exact uadd_of_lt (by omega)

/-- Where the block starts right behind the header, `_alloc` cuts the node there. -/
theorem trim_cut {n alignment : Nat} (aligned : alignUp 64 (uadd 64 n 16) alignment = n + 16)
    (room : n + 16 + size < 2 ^ 64) (covers : 16 + size ≤ nodeSize s.mem n) :
    trim n size alignment s = cutNode n size s := by
  have total : nodeSize s.mem n < 2 ^ 64 := load_lt 8 _ _
  have stop : uadd 64 (n + 16) size = n + 16 + size := uadd_of_lt room
  have extra := extraSize_eq total covers
  unfold trim cutNode
  rw [aligned, stop, extra]
  by_cases whole : nodeSize s.mem n = 16 + size
  · rw [if_pos whole, if_neg (by omega)]
  · rw [if_neg whole, if_pos (by omega)]
    have kept : nodeSize (createNode (n + 16 + size) (nodeSize s.mem n - 16 - size) s).mem n = nodeSize s.mem n :=
      load_congr fun x low high => createNode_mem_apply (by omega)
    have header : usub 64 (nodeSize s.mem n) (nodeSize s.mem n - 16 - size) = 16 + size := by
      rw [usub_of_le total (by omega)]
      omega
    rw [carve, kept, header]
    exact cut_eq (by omega)

theorem malloc_cut {mode : Panic} {n : Nat} (search : findAndRemoveNode mode fuel size s = .ok (n, t))
    (nonnull : n ≠ null) (room : n + 16 + size < 2 ^ 64) (covers : 16 + size ≤ nodeSize t.mem n) :
    malloc mode fuel size s = .ok (n + 16, cutNode n size t) := by
  have base : uadd 64 n 16 = n + 16 := uadd_of_lt (by omega)
  have aligned : alignUp 64 (uadd 64 n 16) 1 = n + 16 := by
    rw [base]
    exact alignUp_one (by omega)
  rw [← malloc_request (show size < 2 ^ 64 by omega)] at search
  have call : malloc mode fuel size s = _ := alloc_trim search nonnull Nat.one_ne_zero
  rw [call, base, trim_cut aligned room covers]

theorem malloc_of_found {mode : Panic} {n : Nat} (search : findAndRemoveNode mode fuel size s = .ok (n, t))
    (taken : HeapInv first free₀ t nodes (⟨n + 16, nodeSize t.mem n - 16⟩ :: live))
    (covers : 16 + size ≤ nodeSize t.mem n) : malloc mode fuel size s = .ok (n + 16, cutNode n size t) := by
  obtain ⟨nonnull, bound⟩ := taken.block_bounds List.mem_cons_self
  simp only [Nat.add_sub_cancel] at nonnull bound
  exact malloc_cut search nonnull (by omega) covers

theorem HeapInv.cut {n : Nat} (inv : HeapInv first free₀ s nodes (⟨n + 16, nodeSize s.mem n - 16⟩ :: live))
    (split : SplitClean (nodeSize s.mem n) size) :
    HeapMove first free₀ live s (cutNode n size s) ∧ ∃ nodes',
      HeapInv first free₀ (cutNode n size s) nodes' (⟨n + 16, size⟩ :: live) ∧
      Repacked s nodes (⟨n + 16, nodeSize s.mem n - 16⟩ :: live) (cutNode n size s) nodes' (⟨n + 16, size⟩ :: live) := by
  have bound := (inv.block_bounds List.mem_cons_self).2
  simp only at bound
  unfold SplitClean at split
  unfold cutNode
  by_cases whole : nodeSize s.mem n = 16 + size
  · rw [if_pos whole]
    rw [whole, Nat.add_sub_cancel_left] at inv ⊢
    refine ⟨⟨rfl, rfl, fun _ h => h, fun _ changed => absurd rfl changed⟩, nodes, inv, ⟨rfl, rfl, fun _ _ _ => rfl⟩, ?_⟩
    exact fun x => Iff.rfl
  · rw [if_neg whole]
    obtain ⟨cut, shrunk, apart, owned, same, others⟩ := inv.shrink size (by omega) (by omega)
    obtain ⟨created, moved⟩ := cut.create _ _ (by omega) (by omega) apart owned
    refine ⟨shrunk.trans (moved.mono fun b => List.mem_cons_of_mem _), _, created,
      same.trans (createNode_sameTable cut.table (by omega) owned), fun x => ?_⟩
    rw [createNode_inUse cut.large (by omega) (by omega) apart, inUse_block, inUse_block, InUse, others]
    simp only [Block.extent, Extent.Has, InUse, Nat.add_sub_cancel]
    rw [← or_assoc]
    exact or_congr_left (by omega)

/-! ### One call -/

/-- A request that can be served without a rest too small for a header. -/
def MallocClean (s : Kernel) (size : Nat) : Prop :=
  size + 16 < 2 ^ 64 ∧ ∀ nodes, Linked (nodeNext s.mem) null s.head.next nodes → Served (SplitClean · size) s nodes size

theorem malloc_yields (inv : HeapInv first free₀ s nodes live) (clean : MallocClean s size)
    (enough : nodes.length + pageRounds size + 3 ≤ fuel) :
    Yields Fault (malloc .halts fuel size s) fun r =>
      (∃ nodes', HeapInv first free₀ r.2 nodes' (⟨r.1, size⟩ :: live)) ∧ HeapMove first free₀ live s r.2 := by
  obtain ⟨wide, served⟩ := clean
  have search := findAndRemoveNode_yields inv wide (fun _ => SplitClean.covers) (served nodes inv.chain) enough
  cases call : findAndRemoveNode .halts fuel size s with
  | error e =>
    have stopped : malloc .halts fuel size s = .error e := by
      unfold malloc alloc
      rw [malloc_request (by omega), call]
      rfl
    rw [stopped]
    exact search.stops call
  | ok r =>
    obtain ⟨n, t⟩ := r
    have found := search.ok call
    have split : SplitClean (nodeSize t.mem n) size := found.size
    obtain ⟨nodes', taken⟩ := found.inv
    rw [malloc_of_found call taken split.covers]
    obtain ⟨moved, nodes'', given, _⟩ := taken.cut split
    exact ⟨⟨nodes'', given⟩, found.move.trans moved⟩

theorem HeapInv.payload {b : Block} {m : Mem} (inv : HeapInv first free₀ s nodes live) (member : b ∈ live)
    (writes : ∀ x, m x ≠ s.mem x → b.ptr ≤ x ∧ x < b.ptr + b.size) :
    HeapInv first free₀ { s with mem := m } nodes live ∧
      HeapMove first free₀ (live.erase b) s { s with mem := m } ∧ Repacked s nodes live { s with mem := m } nodes live := by
  have room := (inv.headers b member).1
  have owned := inv.inside _ (mem_extents_live member)
  obtain ⟨_, apart⟩ := (inv.reorder (List.perm_cons_erase member)).forget
  have has : ∀ x, m x ≠ s.mem x → b.extent.Has x := by
    intro x changed
    have range := writes x changed
    simp only [Block.extent, Extent.Has]
    omega
  have same : SameTable s { s with mem := m } := by
    apply sameTable_of_writes free₀ inv.table
    intro x changed
    exact owned x (has x changed)
  have others : SameHeaders s.mem m nodes (live.erase b) := SameHeaders.of_apart inv.large has apart
  have mine : nodeSize m (b.ptr - 16) = nodeSize s.mem (b.ptr - 16) := by
    apply load_congr
    intro x low high
    by_contra changed
    have range := writes x changed
    omega
  have headers : SameHeaders s.mem m nodes live := by
    refine ⟨others.size, others.next, ?_⟩
    intro c present
    by_cases here : c = b
    · rw [here]
      exact mine
    · exact others.block c ((List.mem_erase_of_ne here).mpr present)
  have grow : ∀ x, HeapByte first free₀ s x → HeapByte first free₀ { s with mem := m } x :=
    fun x => (HeapByte.sameTable same).mpr
  have move : HeapMove first free₀ (live.erase b) s { s with mem := m } :=
    HeapMove.of_writes same has owned fun c present => apart _ (mem_extents_live present)
  refine ⟨inv.transport (inv.table.congr same) (inv.pool_same same) (fun x _ => grow x) rfl headers, move, same, fun x => ?_⟩
  rw [InUse, extents_congr headers.size]
  rfl

theorem HeapInv.ptr_ne_null {p : Nat} (inv : HeapInv first free₀ s nodes (⟨p, size⟩ :: live)) : p ≠ null := by
  have bounds := inv.block_bounds List.mem_cons_self
  simp only at bounds
  unfold null at bounds ⊢
  omega

/-- Clearing a block is writing to its payload. -/
theorem HeapInv.memset {p : Nat} (inv : HeapInv first free₀ s nodes (⟨p, size⟩ :: live)) :
    HeapInv first free₀ { s with mem := memset s.mem p 0 size } nodes (⟨p, size⟩ :: live) ∧
      HeapMove first free₀ live s { s with mem := memset s.mem p 0 size } ∧
      Repacked s nodes (⟨p, size⟩ :: live) { s with mem := memset s.mem p 0 size } nodes (⟨p, size⟩ :: live) := by
  have writes : ∀ x, System14.memset s.mem p 0 size x ≠ s.mem x → p ≤ x ∧ x < p + size := by
    intro x changed
    by_contra outside
    rw [memset_apply, if_neg outside] at changed
    exact changed rfl
  obtain ⟨kept, moved, repacked⟩ := inv.payload (b := ⟨p, size⟩) List.mem_cons_self writes
  refine ⟨kept, moved.mono fun b member => ?_, repacked⟩
  rw [List.erase_cons_head]
  exact member

theorem calloc_yields (inv : HeapInv first free₀ s nodes live) (clean : MallocClean s size)
    (enough : nodes.length + pageRounds size + 3 ≤ fuel) :
    Yields Fault (calloc .halts fuel size s) fun r =>
      (∃ nodes', HeapInv first free₀ r.2 nodes' (⟨r.1, size⟩ :: live)) ∧ HeapMove first free₀ live s r.2 ∧
        ∀ x, r.1 ≤ x → x < r.1 + size → r.2.mem x = 0 := by
  unfold calloc
  apply (malloc_yields inv clean enough).bind
  rintro ⟨p, t⟩ ⟨⟨nodes', given⟩, move⟩
  obtain ⟨kept, moved, _⟩ := given.memset
  simp only [if_neg given.ptr_ne_null]
  refine ⟨⟨nodes', kept⟩, move.trans moved, fun x low high => ?_⟩
  show memset t.mem p 0 size x = 0
  rw [memset_apply, if_pos ⟨low, high⟩]
  rfl

/-! ### Runs -/

/-- What a client of the heap does. It writes to its blocks, and frees each once. -/
inductive HeapCall where
  | malloc (size : Nat)
  | calloc (size : Nat)
  | free (b : Block)
  | write (b : Block) (offset : Nat) (value : UInt8)

def HeapStep : Kernel × List Block → HeapCall → Kernel × List Block → Prop
  | (s, live), .malloc size, (t, live') =>
    ∃ p, Returns (malloc .halts · size s) (p, t) ∧ live' = if p = null then live else ⟨p, size⟩ :: live
  | (s, live), .calloc size, (t, live') =>
    ∃ p, Returns (calloc .halts · size s) (p, t) ∧ live' = if p = null then live else ⟨p, size⟩ :: live
  | (s, live), .free b, (t, live') => b ∈ live ∧ t = heapFree b.ptr s ∧ live' = live.erase b
  | (s, live), .write b offset value, (t, live') =>
    b ∈ live ∧ offset < b.size ∧ t = { s with mem := Function.update s.mem (b.ptr + offset) value } ∧ live' = live

def HeapClean : Kernel × List Block → HeapCall → Prop
  | (s, _), .malloc size => MallocClean s size
  | (s, _), .calloc size => MallocClean s size
  | _, _ => True

def HeapReach (s₀ : Kernel) (guard : Kernel × List Block → HeapCall → Prop) : Kernel × List Block → Prop :=
  Reach (· = (s₀, [])) HeapStep guard

theorem heapInv_empty (table : FrameTable s first) (empty : s.head.next = null) :
    HeapInv first (frameFree s) s [] [] :=
  ⟨table, fun _ _ free => free, empty, nofun, nofun, List.Pairwise.nil, nofun⟩

theorem heapStep_inv {live' : List Block} {call : HeapCall} (inv : HeapInv first free₀ s nodes live)
    (clean : HeapClean (s, live) call) (taken : HeapStep (s, live) call (t, live')) :
    (∃ nodes', HeapInv first free₀ t nodes' live') ∧
      ((∀ b offset value, call ≠ .write b offset value) →
        HeapMove first free₀ (live.filter (· ∈ live')) s t) := by
  have kept : ∀ {live'' : List Block}, ∀ b ∈ live.filter (· ∈ live''), b ∈ live :=
    fun b member => (List.mem_filter.mp member).1
  cases call with
  | malloc size =>
    obtain ⟨p, returned, rfl⟩ := taken
    obtain ⟨⟨nodes', given⟩, move⟩ := returned.yields fun fuel enough => malloc_yields inv clean enough
    simp only [if_neg given.ptr_ne_null]
    exact ⟨⟨nodes', given⟩, fun _ => move.mono kept⟩
  | calloc size =>
    obtain ⟨p, returned, rfl⟩ := taken
    obtain ⟨⟨nodes', given⟩, move, _⟩ := returned.yields fun fuel enough => calloc_yields inv clean enough
    simp only [if_neg given.ptr_ne_null]
    exact ⟨⟨nodes', given⟩, fun _ => move.mono kept⟩
  | free b =>
    obtain ⟨member, rfl, rfl⟩ := taken
    obtain ⟨after, move, _⟩ := inv.free member
    refine ⟨⟨_, after⟩, fun _ => move.mono fun c present => ?_⟩
    simpa using (List.mem_filter.mp present).2
  | write b offset value =>
    obtain ⟨member, inside, rfl, rfl⟩ := taken
    refine ⟨⟨nodes, (inv.payload member fun x changed => ?_).1⟩, fun other => absurd rfl (other b offset value)⟩
    by_cases here : x = b.ptr + offset
    · omega
    · exact absurd (Function.update_of_ne here _ _) changed

/-- The free list ends and repeats no node, every node has room for its header,
and nodes and live blocks are separate, inside frames taken since the start. -/
def HeapWellFormed (first : Nat) (free₀ : Nat → Bool) (s : Kernel) (live : List Block) : Prop :=
  ∃ nodes, Linked (nodeNext s.mem) null s.head.next nodes ∧ nodes.Nodup ∧
    (∀ a ∈ nodes, 16 ≤ nodeSize s.mem a) ∧
    Separate (nodes.map (fun a => ⟨a, max 16 (nodeSize s.mem a)⟩) ++ live.map Block.extent) ∧
    ∀ e ∈ nodes.map (fun a => ⟨a, max 16 (nodeSize s.mem a)⟩) ++ live.map Block.extent,
      ∀ x, e.Has x → HeapByte first free₀ s x

theorem HeapInv.wellFormed (inv : HeapInv first free₀ s nodes live) : HeapWellFormed first free₀ s live := by
  have same : nodes.map (fun a => Extent.mk a (max 16 (nodeSize s.mem a))) = nodes.map (nodeExtent s.mem) := by
    apply List.map_congr_left
    intro a member
    rw [nodeExtent, Nat.max_eq_right (inv.large a member)]
  refine ⟨nodes, inv.chain, linked_nodup inv.chain, inv.large, ?_⟩
  rw [same]
  exact ⟨inv.separate, inv.inside⟩

theorem heapReach_inv (table : FrameTable s first) (empty : s.head.next = null)
    (reached : HeapReach s HeapClean (t, live)) : ∃ nodes, HeapInv first (frameFree s) t nodes live := by
  refine Reach.invariant (I := fun state => ∃ nodes, HeapInv first (frameFree s) state.1 nodes state.2) reached ?_ ?_
  · rintro _ rfl
    exact ⟨[], heapInv_empty table empty⟩
  · rintro ⟨s, live⟩ call ⟨t, live'⟩ ⟨nodes, inv⟩ clean taken
    exact (heapStep_inv inv clean taken).1

/-- In every run of clean calls from the empty heap the heap stays well formed,
a clean request never faults, and a call writes only the frame table and memory
of the heap that no surviving block holds. -/
theorem heap_run_well_formed {s₀ : Kernel} (table : FrameTable s₀ first) (empty : s₀.head.next = null)
    (reached : HeapReach s₀ HeapClean (s, live)) :
    HeapWellFormed first (frameFree s₀) s live ∧
    (∀ size, MallocClean s size → ∃ bound, ∀ fuel ≥ bound,
      Yields Fault (malloc .halts fuel size s) (fun _ => True) ∧
      Yields Fault (calloc .halts fuel size s) (fun _ => True)) ∧
    ∀ call t live', HeapClean (s, live) call → HeapStep (s, live) call (t, live') →
      (∀ b offset value, call ≠ .write b offset value) → ∀ x, t.mem x ≠ s.mem x →
        (s.frameList ≤ x ∧ x < s.frameList + 16 * frameCount s) ∨
        (HeapByte first (frameFree s₀) t x ∧ ∀ b ∈ live, b ∈ live' → ¬ b.extent.Has x) := by
  obtain ⟨nodes, inv⟩ := heapReach_inv table empty reached
  refine ⟨inv.wellFormed, ?_, ?_⟩
  · intro size clean
    refine ⟨nodes.length + pageRounds size + 3, fun fuel enough => ?_⟩
    exact ⟨(malloc_yields inv clean enough).mono fun _ _ => trivial,
      (calloc_yields inv clean enough).mono fun _ _ => trivial⟩
  · intro call t live' clean taken heapOp x changed
    apply ((heapStep_inv inv clean taken).2 heapOp).writes x changed |>.imp_right
    rintro ⟨owned, apart⟩
    refine ⟨owned, fun b member survives => apart b (List.mem_filter.mpr ⟨member, ?_⟩)⟩
    simpa using survives

/-! ### Requests that leave too little -/

/-- A rest of fewer than 16 bytes becomes a node that cannot hold its own header. -/
theorem malloc_breaks {n : Nat} (search : findAndRemoveNode .halts fuel size s = .ok (n, t))
    (small : size < 2 ^ 64) (found : Found first free₀ live P s n t)
    (short : 16 + size < nodeSize t.mem n) (rest : nodeSize t.mem n < 32 + size) :
    ∃ u, malloc .halts fuel size s = .ok (n + 16, u) ∧ ∀ first' free₁ live', ¬ HeapWellFormed first' free₁ u live' := by
  obtain ⟨nodes, taken⟩ := found.inv
  have call := malloc_of_found search taken (by omega)
  rw [cutNode, if_neg (by omega)] at call
  refine ⟨_, call, ?_⟩
  rintro first' free₁ live' ⟨nodes', chain, _, large, _⟩
  cases nodes' with
  | nil =>
    have head : n + 16 + size = null := chain
    unfold null at head
    omega
  | cons a nodes =>
    have head : n + 16 + size = a := chain.1
    have header := large a List.mem_cons_self
    rw [← head, createNode_size (by omega)] at header
    omega

/-- What a request does that is served from a new page: it writes that page. -/
structure WritesPage (p : Nat) (s t : Kernel) : Prop where
  globals : t = { s with mem := t.mem, head := t.head }
  keep : ∀ x, x < p ∨ p + 4096 ≤ x → t.mem x = s.mem x

theorem WritesPage.sameTable {i p : Nat} (writes : WritesPage p t u) (granted : Granted s first i p t)
    (table : FrameTable s first) : SameTable t u := by
  have page := granted.page
  have above := table.above
  refine ⟨by rw [writes.globals], by rw [writes.globals], fun x _ high => writes.keep x (Or.inl ?_)⟩
  rw [granted.list, granted.count] at high
  omega

theorem uadd_header_small (small : size + 16 < 4096) : uadd 64 size 16 < 4096 := by
  rw [uadd_of_lt (by omega)]
  exact small

theorem findAndRemoveNode_page {i p : Nat} (inv : HeapInv first free₀ s [] live)
    (call : pageAlloc .halts s = .ok (p, t)) (granted : Granted s first i p t) (small : uadd 64 size 16 < 4096) :
    ∃ u, u = setCursorNext (createNode p 4096 t) (nodeNext (createNode p 4096 t).mem p) none ∧
      (∀ fuel, findAndRemoveNode .halts (fuel + 1) size s = .ok (p, u)) ∧
      Found first free₀ live (· = 4096) s p u ∧ WritesPage p t u ∧ u.head.next = null := by
  obtain ⟨kept, move, fresh, added⟩ := inv.granted granted
  have nonnull : p ≠ null := ((added p (le_refl _) (by omega)).bounds kept.table).2.2
  obtain ⟨created, moved⟩ := kept.create _ 4096 (by omega) (by omega) fresh added
  have total : nodeSize (createNode p 4096 t).mem p = 4096 := createNode_size (by omega)
  have found := created.found [] (P := (· = 4096)) total
  have empty : s.head.next = null := inv.chain
  have last : nodeNext (createNode p 4096 t).mem p = null := created.chain.2.2
  refine ⟨_, rfl, fun fuel => ?_, found.after (move.trans moved), ⟨rfl, fun x outside => createNode_mem_apply (by omega)⟩,
    last⟩
  have cursor : cursorNext (createNode p 4096 t) none = p := rfl
  have start : cursorNext s none = null := empty
  have sum : uadd 64 16 size = uadd 64 size 16 := by rw [uadd, uadd, Nat.add_comm]
  unfold findAndRemoveNode findFrom
  rw [if_pos start, if_neg (Nat.not_le.mpr small), call]
  simp only [ok_bind, if_neg nonnull, tryNext, cursor, sum, total, if_pos (Nat.le_of_lt small)]

/-- The rest of the page is the only node on the list. -/
structure LeavesRest (p size : Nat) (t : Kernel) : Prop where
  chain : Linked (nodeNext t.mem) null t.head.next [p + 16 + size]
  total : nodeSize t.mem (p + 16 + size) = 4080 - size

theorem malloc_page {i p : Nat} (table : FrameTable s first) (empty : s.head.next = null)
    (call : pageAlloc .halts s = .ok (p, t)) (granted : Granted s first i p t) (small : size + 16 < 4096) :
    ∃ u, Returns (malloc .halts · size s) (p + 16, u) ∧ (size + 32 ≤ 4096 → WritesPage p t u ∧ LeavesRest p size u) ∧
      (4064 < size → size < 4080 → ∀ first' free₁ live', ¬ HeapWellFormed first' free₁ u live') := by
  obtain ⟨u, _, search, found, page, last⟩ := findAndRemoveNode_page (heapInv_empty table empty) call granted
    (uadd_header_small small)
  have total : nodeSize u.mem p = 4096 := found.size
  obtain ⟨v, returned, writes⟩ : ∃ v, (∀ fuel, malloc .halts (fuel + 1) size s = .ok (p + 16, v)) ∧
      (size + 32 ≤ 4096 → WritesPage p t v ∧ LeavesRest p size v) := by
    obtain ⟨_, taken⟩ := found.inv
    refine ⟨_, fun fuel => malloc_of_found (search fuel) taken (by omega), fun room => ?_⟩
    rw [cutNode, if_neg (by omega), total]
    refine ⟨⟨by rw [page.globals]; rfl, fun x outside => ?_⟩, ⟨rfl, by unfold null; omega, ?_⟩, ?_⟩
    · rw [createNode_mem_apply (by omega)]
      show store 8 u.mem p (16 + size) x = t.mem x
      rw [store_apply_of_not_mem (by omega), page.keep x outside]
    · rw [createNode_next (by rw [last]; decide)]
      exact last
    · rw [createNode_size (by omega)]
  refine ⟨v, ⟨1, fun fuel enough => ?_⟩, writes, ?_⟩
  · obtain ⟨k, rfl⟩ : ∃ k, fuel = k + 1 := ⟨fuel - 1, by omega⟩
    exact returned k
  · intro low high
    obtain ⟨w, broken, bad⟩ := malloc_breaks (search 0) (by omega) found (by omega) (by omega)
    rw [returned 0] at broken
    cases broken
    exact bad

theorem mallocClean_empty (empty : s.head.next = null) (small : size + 16 < 4096) (split : SplitClean 4096 size) :
    MallocClean s size := by
  refine ⟨by omega, fun nodes chain => ?_⟩
  rw [(linked_nil_iff chain).mp empty]
  simp only [Served, List.find?_nil, if_pos small]
  exact ⟨trivial, split⟩

/-- A machine with four frames of memory, before its heap is used. -/
structure SmallMachine (s : Kernel) : Prop where
  init : initializeAllocator .halts smallMap { mem := fun _ => 0 } = .ok s
  table : FrameTable s 0x101000
  empty : s.head.next = null
  count : frameCount s = 4
  free : ∀ i < 4, frameFree s i = true

theorem smallMachine : ∃ s, SmallMachine s := by
  obtain ⟨s, init⟩ := initializeAllocator_returns smallMap { mem := fun _ => 0 } (by decide)
  obtain ⟨_, _, count, table, free⟩ := initializeAllocator_ok init smallMap_noWrap
  have count : frameCount s = 4 := by
    rw [count]
    decide
  have start : (selectedEntry smallMap).firstFrame = 0x101000 := by decide
  rw [start] at table
  rw [count] at free
  exact ⟨s, init, table, by rw [(initializeAllocator_keeps init).1], count, free⟩

theorem SmallMachine.malloc (machine : SmallMachine s) (size : Nat) (small : size + 16 < 4096) :
    ∃ t, HeapStep (s, []) (.malloc size) (t, [⟨0x101010, size⟩]) ∧
      (size + 32 ≤ 4096 → LeavesRest 0x101000 size t ∧ frameCount t = 4 ∧ frameFree t 1 = true) ∧
      (4064 < size → size < 4080 → ∀ first' free₁ live', ¬ HeapWellFormed first' free₁ t live') := by
  have count := machine.count
  obtain ⟨t, call, granted⟩ := pageAlloc_grants .halts machine.table (by omega) (machine.free 0 (by omega)) (by omega)
  obtain ⟨u, returned, page, broken⟩ := malloc_page machine.table machine.empty call granted small
  refine ⟨u, ⟨0x101010, returned, rfl⟩, fun room => ?_, broken⟩
  obtain ⟨writes, rest⟩ := page room
  have same := writes.sameTable granted machine.table
  have count₁ := granted.count
  refine ⟨rest, by rw [same.count, count₁, count], ?_⟩
  rw [same.free (by omega), granted.taken 1 (by omega), if_neg (by omega)]
  exact machine.free 1 (by omega)

/-- A first block that has been given back stands in front of the rest of its page. -/
theorem SmallMachine.freed (machine : SmallMachine s) (size : Nat) (room : size + 32 ≤ 4096) :
    ∃ t, HeapReach s HeapClean (t, []) ∧ HeapInv 0x101000 (frameFree s) t [0x101000, 0x101010 + size] [] ∧
      nodeSize t.mem 0x101000 = 16 + size ∧ nodeSize t.mem (0x101010 + size) = 4080 - size ∧
      frameCount t = 4 ∧ frameFree t 1 = true := by
  obtain ⟨t, step, left, _⟩ := machine.malloc size (by omega)
  obtain ⟨rest, count, free⟩ := left room
  have clean : MallocClean s size := mallocClean_empty machine.empty (by omega) (Or.inr (by omega))
  have reached : HeapReach s HeapClean (t, [⟨0x101010, size⟩]) := .step (e := .malloc size) (.init rfl) clean step
  obtain ⟨nodes, inv⟩ := heapReach_inv machine.table machine.empty reached
  rw [linked_unique inv.chain rest.chain] at inv
  obtain ⟨after, _, packed⟩ := inv.free List.mem_cons_self
  have header : nodeSize t.mem 0x101000 = 16 + size := (inv.headers _ List.mem_cons_self).2
  have call : heapFree 0x101010 t = createNode 0x101000 (16 + size) t := by
    rw [← header]
    rfl
  rw [List.erase_cons_head] at after
  refine ⟨heapFree 0x101010 t, reached.step (e := .free ⟨0x101010, size⟩) trivial ⟨List.mem_cons_self, rfl, ?_⟩, after, ?_, ?_,
    ?_, ?_⟩
  · rw [List.erase_cons_head]
  · rw [call, createNode_size (by omega)]
  · rw [call, ← rest.total]
    exact load_congr fun x low high => createNode_mem_apply (by omega)
  · rw [packed.table.count, count]
  · rw [packed.table.free (by omega), free]

theorem heap_run_well_formed_smallMap : ∃ s₁ t, initializeAllocator .halts smallMap { mem := fun _ => 0 } = .ok s₁ ∧
    HeapReach s₁ HeapClean (t, [⟨0x101010, 4064⟩]) ∧
    HeapWellFormed (selectedEntry smallMap).firstFrame (frameFree s₁) t [⟨0x101010, 4064⟩] := by
  obtain ⟨s₁, machine⟩ := smallMachine
  obtain ⟨t, step, _⟩ := machine.malloc 4064 (by decide)
  have clean : MallocClean s₁ 4064 := mallocClean_empty machine.empty (by decide) (Or.inr (by decide))
  have reached : HeapReach s₁ HeapClean (t, [⟨0x101010, 4064⟩]) :=
    Reach.step (e := .malloc 4064) (Reach.init rfl) clean step
  exact ⟨s₁, t, machine.init, reached, (heap_run_well_formed machine.table machine.empty reached).1⟩

/-- A first request for 4072 bytes leaves eight bytes of the page, and a header of sixteen in them. -/
theorem smallMap_malloc_breaks : ∃ s₁ t, initializeAllocator .halts smallMap { mem := fun _ => 0 } = .ok s₁ ∧
    HeapReach s₁ anyStep (t, [⟨0x101010, 4072⟩]) ∧
    ∀ first free₀, ¬ HeapWellFormed first free₀ t [⟨0x101010, 4072⟩] := by
  obtain ⟨s₁, machine⟩ := smallMachine
  obtain ⟨t, step, _, broken⟩ := machine.malloc 4072 (by decide)
  exact ⟨s₁, t, machine.init, Reach.step (Reach.init rfl) trivial step,
    fun first free₀ => broken (by decide) (by decide) first free₀ _⟩

end System14
