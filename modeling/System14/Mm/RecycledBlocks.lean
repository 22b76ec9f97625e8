import System14.Mm.HeapSplit
import System14.Mm.TwoStates

/-!
# Blocks that were used before

The free list does not depend on what its blocks were used for: two heaps that
differ at most in the payload of free blocks serve a request with the same
block. What the block still holds is the caller's business, since `malloc`
writes no byte of it.
-/

namespace System14
open ByteMem Run Chain Extent

variable {D : Nat → Prop} {mode : Panic} {first size fuel n x : Nat} {free₀ : Nat → Bool} {s s' t : Kernel}
  {nodes pre post : List Nat} {live : List Block}

/-- The bytes of free blocks behind their headers. -/
def FreePayload (m : Mem) (nodes : List Nat) (x : Nat) : Prop := ∃ a ∈ nodes, a + 16 ≤ x ∧ x < a + nodeSize m a

theorem FreePayload.has {m : Mem} (payload : FreePayload m nodes x) : ∃ a ∈ nodes, (nodeExtent m a).Has x := by
  obtain ⟨a, member, low, high⟩ := payload
  exact ⟨a, member, by simp only [nodeExtent]; omega, high⟩

/-! ### The payload against the rest -/

theorem HeapInv.payload_off_header {a : Nat} (inv : HeapInv first free₀ s nodes live) (member : a ∈ nodes) (low : a ≤ x)
    (high : x < a + 16) : ¬ FreePayload s.mem nodes x := by
  intro payload
  obtain ⟨b, member', low', high'⟩ := payload
  have large := inv.large a member
  by_cases same : b = a
  · omega
  · obtain ⟨pre, post, split⟩ := List.append_of_mem member
    subst split
    have other : b ∈ pre ++ post := by
      rcases List.mem_append.mp member' with before | later
      · exact List.mem_append_left _ before
      · exact List.mem_append_right _ ((List.mem_cons.mp later).resolve_left same)
    have apart := inv.freeNodes.apart_node b other
    simp only [Extent.Apart, nodeExtent] at apart
    omega

theorem HeapInv.payload_off_block {b : Block} (inv : HeapInv first free₀ s nodes live) (member : b ∈ live)
    (has : b.extent.Has x) : ¬ FreePayload s.mem nodes x := by
  intro payload
  obtain ⟨a, present, here⟩ := payload.has
  have apart := (List.pairwise_append.mp inv.separate).2.2 _ (List.mem_map_of_mem present) _ (List.mem_map_of_mem member)
  exact apart.not_has here has

theorem HeapInv.payload_byte (inv : HeapInv first free₀ s nodes live) (payload : FreePayload s.mem nodes x) :
    HeapByte first free₀ s x := by
  obtain ⟨a, member, has⟩ := payload.has
  exact inv.inside _ (mem_extents_node member) x has

theorem HeapInv.offFrames (inv : HeapInv first free₀ s nodes live) : OffFrames (FreePayload s.mem nodes) s first := by
  refine ⟨fun x low high payload => ?_, fun i lt free x low high payload => ?_⟩
  · have bounds := (inv.payload_byte payload).bounds inv.table
    omega
  · obtain ⟨j, _, _, used, low', high'⟩ := inv.payload_byte payload
    have same : j = i := by omega
    rw [same, free] at used
    exact nomatch used

theorem HeapInv.twin_headers (inv : HeapInv first free₀ s nodes live) (twin : Twin (FreePayload s.mem nodes) s s') :
    SameHeaders s.mem s'.mem nodes live := by
  constructor
  · intro a member
    exact twin.agree.load fun x low high => inv.payload_off_header member low (by omega)
  · intro a member
    exact twin.agree.load fun x low high => inv.payload_off_header member (by omega) (by omega)
  · intro b member
    exact twin.agree.load fun x low high => inv.payload_off_block member ⟨low, by simp only [Block.extent]; omega⟩

/-- The payload of free blocks is no part of the heap's state. -/
theorem HeapInv.twin (inv : HeapInv first free₀ s nodes live) (twin : Twin (FreePayload s.mem nodes) s s') :
    HeapInv first free₀ s' nodes live := by
  have same := twin.sameTable inv.offFrames.table
  refine inv.transport (inv.table.congr same) (inv.pool_same same) (fun x _ => (HeapByte.sameTable same).mpr) ?_
    (inv.twin_headers twin)
  rw [twin.globals]

/-! ### A block of the list -/

/-- What `malloc` leaves of the heap when it serves a request with the node `n`. -/
def unlinkCut (pre : List Nat) (n size : Nat) (s : Kernel) : Kernel :=
  cutNode n size (setCursorNext s (nodeNext s.mem n) pre.getLast?)

theorem malloc_listed (inv : HeapInv first free₀ s (pre ++ n :: post) live) (wide : size + 16 < 2 ^ 64)
    (misses : ∀ a ∈ pre, nodeSize s.mem a < size + 16) (fits : size + 16 ≤ nodeSize s.mem n) (enough : pre.length < fuel) :
    malloc mode fuel size s = .ok (n + 16, unlinkCut pre n size s) := by
  have sum := (uadd_header wide).1
  have search := findAndRemoveNode_hit mode pre inv.chain
    (fun a member => by rw [sum]; have := misses a member; omega) (show uadd 64 16 size ≤ _ by omega) enough
  obtain ⟨taken, _, _, sizes⟩ := inv.take
  have same := sizes n (by simp)
  rw [← same] at taken
  exact malloc_of_found search taken (by omega)

theorem cutNode_changes (changed : (cutNode n size s).mem x ≠ s.mem x) :
    (n ≤ x ∧ x < n + 16) ∨ (n + 16 + size ≤ x ∧ x < n + 32 + size) := by
  unfold cutNode at changed
  by_contra outside
  split at changed
  · exact changed rfl
  · rw [createNode_mem_apply (by omega)] at changed
    exact changed (store_apply_of_not_mem (by omega))

theorem unlinkCut_changes (inv : HeapInv first free₀ s (pre ++ n :: post) live)
    (changed : (unlinkCut pre n size s).mem x ≠ s.mem x) :
    (n ≤ x ∧ x < n + 16) ∨ (n + 16 + size ≤ x ∧ x < n + 32 + size) ∨ ∃ a ∈ pre, a + 8 ≤ x ∧ x < a + 16 := by
  by_cases same : (setCursorNext s (nodeNext s.mem n) pre.getLast?).mem x = s.mem x
  · unfold unlinkCut at changed
    rw [← same] at changed
    rcases cutNode_changes changed with own | rest
    · exact Or.inl own
    · exact Or.inr (Or.inl rest)
  · obtain ⟨a, last, range⟩ := inv.freeNodes.unlink.2.2 x same
    exact Or.inr (Or.inr ⟨a, List.mem_of_getLast? last, range⟩)

theorem unlinkCut_payload (inv : HeapInv first free₀ s (pre ++ n :: post) live) (fits : size + 16 ≤ nodeSize s.mem n)
    (low : n + 16 ≤ x) (high : x < n + 16 + size) : (unlinkCut pre n size s).mem x = s.mem x := by
  by_contra changed
  rcases unlinkCut_changes inv changed with own | rest | ⟨a, before, link⟩
  · omega
  · omega
  · have apart := inv.freeNodes.apart_node a (List.mem_append_left _ before)
    have large := inv.large a (List.mem_append_left _ before)
    simp only [Extent.Apart, nodeExtent] at apart
    omega

theorem unlinkCut_sameTable (inv : HeapInv first free₀ s (pre ++ n :: post) live) :
    SameTable s (unlinkCut pre n size s) := by
  have globals : unlinkCut pre n size s =
      { s with mem := (unlinkCut pre n size s).mem, head := (unlinkCut pre n size s).head } := by
    unfold unlinkCut
    rw [cutNode_globals, setCursorNext_globals]
  have above := inv.table.above
  refine ⟨by rw [globals], by rw [globals], fun x low high => ?_⟩
  by_contra changed
  rcases unlinkCut_changes inv changed with own | rest | ⟨a, before, link⟩
  · have inside := inv.node_inside (a := n) (by simp)
    omega
  · have inside := inv.node_inside (a := n) (by simp)
    omega
  · have inside := inv.node_inside (List.mem_append_left _ before)
    omega

/-! ### No block of the list -/

/-- A block from a new page is clear. -/
theorem malloc_fresh {p : Nat} (inv : HeapInv first free₀ s [] live) (small : size + 16 < 4096)
    (call : malloc .halts fuel size s = .ok (p, t)) : ∀ x, p ≤ x → x < p + size → t.mem x = 0 := by
  have header := uadd_header_small small
  have search : ∃ r, findAndRemoveNode .halts fuel size s = .ok r := by
    unfold malloc alloc at call
    rw [malloc_request (by omega)] at call
    obtain ⟨r, search, _⟩ := bind_ok.mp call
    exact ⟨r, search⟩
  obtain ⟨r, search⟩ := search
  obtain ⟨fuel, rfl⟩ : ∃ f, fuel = f + 1 := Nat.exists_eq_succ_of_ne_zero fun none => by
    subst none
    cases search
  have page : ∃ r, pageAlloc .halts s = .ok r := by
    rw [findAndRemoveNode, findFrom, if_pos (show cursorNext s none = null from inv.chain), if_neg (by omega)] at search
    obtain ⟨r, page, _⟩ := bind_ok.mp search
    exact ⟨r, page⟩
  obtain ⟨⟨q, u⟩, page⟩ := page
  obtain ⟨i, granted⟩ := pageAlloc_ok inv.table page
  obtain ⟨v, here, found, node, writes, _⟩ := findAndRemoveNode_page inv page granted header
  have total : nodeSize v.mem q = 4096 := node.size
  obtain ⟨_, taken⟩ := node.inv
  rw [malloc_of_found (found fuel) taken (by omega)] at call
  cases call
  intro x low high
  by_contra changed
  have zero := granted.zero x (by omega) (by omega)
  have made : v.mem x = u.mem x := by
    rw [here]
    exact createNode_mem_apply (by omega)
  rw [← zero, ← made] at changed
  have range := cutNode_changes changed
  omega

/-- Where the list has blocks and none is large enough, the search walks past its end. -/
theorem malloc_misses {r : Nat × Kernel} (inv : HeapInv first free₀ s nodes live) (some : nodes ≠ [])
    (small : size + 16 < 4096) (misses : ∀ a ∈ nodes, nodeSize s.mem a < size + 16) :
    malloc .halts fuel size s ≠ .ok r := by
  intro call
  unfold malloc alloc at call
  rw [malloc_request (by omega)] at call
  obtain ⟨r, search, _⟩ := bind_ok.mp call
  have header := uadd_header_small small
  have sum : uadd 64 16 size = 16 + size := (uadd_header (by omega)).1
  obtain ⟨skip, stop⟩ := findAndRemoveNode_end .halts size fuel inv.chain fun a member => by
    have := misses a member
    omega
  rw [skip] at search
  cases left : fuel - nodes.length with
  | zero =>
    rw [left] at search
    cases search
  | succ rest =>
    rw [left, findFrom, if_pos stop, if_neg (by omega)] at search
    obtain ⟨⟨p, u⟩, page, search⟩ := bind_ok.mp search
    obtain ⟨i, granted⟩ := pageAlloc_ok inv.table page
    obtain ⟨kept, _, fresh, owned⟩ := inv.granted granted
    have created := (kept.create p 4096 (by omega) (by omega) fresh owned).1
    simp only [if_neg (granted.nonnull inv.table), tryNext, cursor_end created.chain some, if_true] at search
    cases search

/-! ### The same block in both heaps -/

theorem setCursorNext_both (next : Nat) (cursor : HeapCursor) (twin : Twin D s s') :
    Twin D (setCursorNext s next cursor) (setCursorNext s' next cursor) := by
  cases cursor with
  | none => exact ⟨by rw [setCursorNext, setCursorNext, twin.globals], twin.agree⟩
  | some node => exact twin.mem (twin.agree.store 8 _ _)

theorem createNode_both (addr size : Nat) (twin : Twin D s s') :
    Twin D (createNode addr size s) (createNode addr size s') := by
  have head : s'.head = s.head := by rw [twin.globals]
  refine ⟨by rw [createNode, createNode, twin.globals], ?_⟩
  unfold createNode
  rw [head]
  exact (twin.agree.store 8 _ _).store 8 _ _

theorem cutNode_both (size : Nat) (same : nodeSize s'.mem n = nodeSize s.mem n) (twin : Twin D s s') :
    Twin D (cutNode n size s) (cutNode n size s') := by
  unfold cutNode
  rw [same]
  split
  · exact twin
  · exact createNode_both _ _ (twin.mem (twin.agree.store 8 _ _))

theorem unlinkCut_both (size : Nat) (inv : HeapInv first free₀ s (pre ++ n :: post) live)
    (twin : Twin (FreePayload s.mem (pre ++ n :: post)) s s') :
    Twin (FreePayload s.mem (pre ++ n :: post)) (unlinkCut pre n size s) (unlinkCut pre n size s') := by
  have headers := inv.twin_headers twin
  have sizes := inv.freeNodes.unlink.2.1 n (by simp)
  have sizes' := (inv.twin twin).freeNodes.unlink.2.1 n (by simp)
  have unlinked := setCursorNext_both (nodeNext s.mem n) pre.getLast? twin
  rw [headers.next n (by simp)] at sizes'
  unfold unlinkCut
  rw [headers.next n (by simp)]
  exact cutNode_both size (by rw [sizes, sizes', headers.size n (by simp)]) unlinked

end System14
