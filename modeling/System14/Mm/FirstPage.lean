import System14.Mm.Coexistence
import System14.Mm.HeapLeak
import System14.Mm.HeapProgress

/-!
# The first page of the heap

As long as nothing is given back, small blocks come one after the other from the
front of one page. When the rest of it is too small, `malloc` does not take a
second page: it follows the null pointer behind the last node.
-/

namespace System14
open ByteMem Run Chain Extent

variable {first size : Nat} {free₀ : Nat → Bool} {s t u : Kernel} {nodes : List Nat} {live : List Block}

/-! ### Blocks from the front of a node -/

theorem HeapInv.split {n : Nat} (inv : HeapInv first free₀ s nodes (⟨n + 16, nodeSize s.mem n - 16⟩ :: live))
    (room : 32 + size ≤ nodeSize s.mem n) :
    HeapInv first free₀ (cutNode n size s) ((n + 16 + size) :: nodes) (⟨n + 16, size⟩ :: live) ∧
      nodeSize (cutNode n size s).mem (n + 16 + size) = nodeSize s.mem n - 16 - size ∧
      HeapMove first free₀ live s (cutNode n size s) ∧ SameTable s (cutNode n size s) := by
  have bound := (inv.block_bounds List.mem_cons_self).2
  simp only at bound
  unfold cutNode
  rw [if_neg (by omega)]
  obtain ⟨cut, shrunk, apart, owned, same, _⟩ := inv.shrink size (by omega) (by omega)
  obtain ⟨created, moved⟩ := cut.create _ _ (by omega) (by omega) apart owned
  exact ⟨created, createNode_size (by omega), shrunk.trans (moved.mono fun b => List.mem_cons_of_mem _),
    same.trans (createNode_sameTable cut.table (by omega) owned)⟩

/-- Cutting a node writes the two headers and nothing else. -/
theorem cutNode_keeps {n x : Nat} (low : n + 16 ≤ x) (off : x < n + 16 + size ∨ n + 32 + size ≤ x) :
    (cutNode n size s).mem x = s.mem x := by
  unfold cutNode
  split
  · rfl
  · rw [createNode_mem_apply (by omega)]
    exact store_apply_of_not_mem (by omega)

/-- `malloc` has cut a block of `size` bytes off a node `n` of `total`, and no other node is left. -/
structure Sliced (first : Nat) (free₀ : Nat → Bool) (live : List Block) (n total size : Nat) (s t : Kernel) : Prop where
  call : ∀ fuel > 0, malloc .halts fuel size s = .ok (n + 16, t)
  heap : HeapInv first free₀ t [n + 16 + size] (⟨n + 16, size⟩ :: live)
  rest : nodeSize t.mem (n + 16 + size) = total - 16 - size
  move : HeapMove first free₀ live s t

theorem Sliced.only {n total : Nat} (sliced : Sliced first free₀ live n total size s t) : OnlyHeap s t :=
  (alloc_onlyHeap 1 size 1 s).ok (sliced.call 1 (by decide))

theorem Found.sliced {P : Nat → Prop} {n : Nat} (found : Found first free₀ live P s n t)
    (search : ∀ fuel > 0, findAndRemoveNode .halts fuel size s = .ok (n, t)) (last : t.head.next = null)
    (room : 32 + size ≤ nodeSize t.mem n) :
    Sliced first free₀ live n (nodeSize t.mem n) size s (cutNode n size t) ∧ SameTable t (cutNode n size t) := by
  obtain ⟨nodes, inv⟩ := found.inv
  have none : nodes = [] := (linked_nil_iff inv.chain).mp last
  rw [none] at inv
  obtain ⟨heap, rest, move, same⟩ := inv.split room
  exact ⟨⟨fun fuel enough => malloc_of_found (search fuel enough) inv (by omega), heap, rest, found.move.trans move⟩, same⟩

/-- The page of the first free frame. -/
def FirstFree (first : Nat) (s : Kernel) (page : Nat) : Prop :=
  ∃ i < frameCount s, frameFree s i = true ∧ (∀ j < i, frameFree s j = false) ∧ page = first + 4096 * i

/-- The first block comes from a new page, which is zero but for the headers. -/
theorem malloc_new_page {p : Nat} (inv : HeapInv first free₀ s [] live) (room : 32 + size ≤ 4096)
    (free : FirstFree first s p) : ∃ t, Sliced first free₀ live p 4096 size s t ∧ freeFrames t + 1 = freeFrames s ∧
      ∀ x, p + 16 ≤ x → x < p + 4096 → (x < p + 16 + size ∨ p + 32 + size ≤ x) → t.mem x = 0 := by
  obtain ⟨i, lt, free, least, rfl⟩ := free
  obtain ⟨t, call, granted⟩ := pageAlloc_grants .halts inv.table lt free least
  obtain ⟨u, here, search, found, page, last⟩ := findAndRemoveNode_page inv call granted
    (uadd_header_small (show size + 16 < 4096 by omega))
  have total : nodeSize u.mem (first + 4096 * i) = 4096 := found.size
  obtain ⟨sliced, same⟩ := found.sliced (fun fuel enough => by
    obtain ⟨fuel, rfl⟩ := Nat.exists_eq_add_one.mpr enough
    exact search fuel) last (show 32 + size ≤ nodeSize u.mem (first + 4096 * i) by omega)
  rw [total] at sliced
  refine ⟨_, sliced, ?_, fun x low high off => ?_⟩
  · rw [same.freeFrames, (page.sameTable granted inv.table).freeFrames]
    exact granted.freeFrames
  · rw [cutNode_keeps low off, here]
    exact (createNode_mem_apply (Or.inr low)).trans (granted.zero x (by omega) high)

/-- The following blocks come from the rest of it, and nothing else is written there. -/
theorem malloc_rest {n : Nat} (inv : HeapInv first free₀ s [n] live) (room : 32 + size ≤ nodeSize s.mem n) :
    ∃ t, Sliced first free₀ live n (nodeSize s.mem n) size s t ∧ SameTable s t ∧
      ∀ x, n + 16 ≤ x → (x < n + 16 + size ∨ n + 32 + size ≤ x) → t.mem x = s.mem x := by
  have large := inv.node_bounds List.mem_cons_self
  have sum : uadd 64 16 size = 16 + size := uadd_of_lt (by omega)
  have search : ∀ fuel > 0, findAndRemoveNode .halts fuel size s = .ok (n, setCursorNext s (nodeNext s.mem n) none) :=
    fun fuel enough => findAndRemoveNode_hit .halts [] inv.chain nofun (by omega) enough
  have found : Found first free₀ live (· = nodeSize s.mem n) s n (setCursorNext s (nodeNext s.mem n) none) :=
    HeapInv.found [] inv rfl
  have total : nodeSize (setCursorNext s (nodeNext s.mem n) none).mem n = nodeSize s.mem n := found.size
  obtain ⟨sliced, same⟩ := found.sliced search inv.chain.2.2 (by omega)
  rw [total] at sliced
  obtain ⟨_, _, unlinked, _⟩ := HeapInv.take (show HeapInv first free₀ s ([] ++ n :: []) live from inv)
  exact ⟨_, sliced, unlinked.table.trans same, fun x low off => cutNode_keeps low off⟩

/-- Where the only node is too small, there is no next one to look at. -/
theorem malloc_stuck {n fuel : Nat} (inv : HeapInv first free₀ s [n] live) (small : size + 16 < 4096)
    (rest : nodeSize s.mem n < size + 16) (free : 0 < freeFrames s) (enough : 1 < fuel) :
    malloc .halts fuel size s = .error .nullDereference := by
  obtain ⟨i, member, free⟩ := List.countP_pos_iff.mp free
  have misses : ∀ c ∈ [n], nodeSize s.mem c < size + 16 := fun c only => by
    rw [List.mem_singleton.mp only]
    exact rest
  have search := findAndRemoveNode_stuck inv small ⟨i, List.mem_range.mp member, free⟩ (List.cons_ne_nil _ _) misses enough
  unfold malloc alloc
  rw [malloc_request (by omega), search]
  rfl

/-- Where nothing is free at all, it panics. -/
theorem malloc_exhausted {fuel : Nat} (inv : HeapInv first free₀ s nodes live) (small : size + 16 < 4096)
    (misses : ∀ a ∈ nodes, nodeSize s.mem a < size + 16) (none : freeFrames s = 0) (enough : nodes.length < fuel) :
    malloc .halts fuel size s = .error (.panic "No free mem left!") := by
  have used : ∀ i < frameCount s, frameFree s i = false := fun i lt =>
    Bool.eq_false_iff.mpr (List.countP_eq_zero.mp none i (List.mem_range.mpr lt))
  have search := findAndRemoveNode_exhausted inv small used misses enough
  unfold malloc alloc
  rw [malloc_request (by omega), search]
  rfl

theorem firstFree_of_pos (first : Nat) (free : 0 < freeFrames s) : ∃ page, FirstFree first s page := by
  obtain ⟨i, member, free⟩ := List.countP_pos_iff.mp free
  rcases first_free_or_none s with none | ⟨j, lt, here, least⟩
  · rw [none i (List.mem_range.mp member)] at free
    cases free
  · exact ⟨_, j, lt, here, least, rfl⟩

end System14
