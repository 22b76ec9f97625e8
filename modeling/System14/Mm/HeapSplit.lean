import System14.Mm.HeapRequest

/-!
# Requests served from the free list

A request that a node of the list serves takes the first node that is large
enough, unlinks it and puts what is left of it back at the front. All of this
happens in the bytes of that node and in the link of the one before it.
-/

namespace System14
open ByteMem Run Chain Extent

variable {mode : Panic} {size n : Nat} {s t u : Kernel} {nodes pre post : List Nat}

/-! ### Cutting the node that was found -/

theorem cutNode_globals (n size : Nat) (s : Kernel) :
    cutNode n size s = { s with mem := (cutNode n size s).mem, head := (cutNode n size s).head } := by
  unfold cutNode
  split <;> rfl

/-- Cutting a node writes its own bytes only. -/
theorem cutNode_writes {x : Nat} (split : SplitClean (nodeSize s.mem n) size)
    (changed : (cutNode n size s).mem x ≠ s.mem x) : (nodeExtent s.mem n).Has x := by
  unfold SplitClean at split
  unfold cutNode at changed
  simp only [Extent.Has, nodeExtent]
  by_contra outside
  split at changed
  · exact changed rfl
  · rw [createNode_mem_apply (by omega)] at changed
    exact changed (store_apply_of_not_mem (by omega))

theorem cutNode_size (small : 16 + size < 2 ^ 64) : nodeSize (cutNode n size s).mem n = 16 + size := by
  unfold cutNode
  split
  · assumption
  · have kept : nodeSize (createNode (n + 16 + size) (nodeSize s.mem n - 16 - size)
        { s with mem := store 8 s.mem n (16 + size) }).mem n = nodeSize (store 8 s.mem n (16 + size)) n :=
      load_congr fun x low high => createNode_mem_apply (by omega)
    rw [kept, nodeSize, load_store_same]
    exact Nat.mod_eq_of_lt small

theorem cutNode_head (more : nodeSize s.mem n ≠ 16 + size) : (cutNode n size s).head.next = n + 16 + size := by
  rw [cutNode, if_neg more]
  rfl

theorem cutNode_rest (head : s.head.next < 2 ^ 64) (more : nodeSize s.mem n ≠ 16 + size) :
    nodeSize (cutNode n size s).mem (n + 16 + size) = nodeSize s.mem n - 16 - size ∧
      nodeNext (cutNode n size s).mem (n + 16 + size) = s.head.next := by
  have small : nodeSize s.mem n < 2 ^ 64 := load_lt 8 _ _
  rw [cutNode, if_neg more]
  exact ⟨createNode_size (by omega), createNode_next head⟩

/-- What is left of the node of `total` bytes goes to the front of the list. -/
def remainder (n total size : Nat) : List Nat := if total = 16 + size then [] else [n + 16 + size]

/-- The list after a cut that writes to none of its links. -/
theorem cutNode_list (chain : Linked (nodeNext s.mem) null s.head.next nodes) (head : s.head.next < 2 ^ 64)
    (next : ∀ a ∈ nodes, nodeNext (cutNode n size s).mem a = nodeNext s.mem a) :
    Linked (nodeNext (cutNode n size s).mem) null (cutNode n size s).head.next
      (remainder n (nodeSize s.mem n) size ++ nodes) := by
  unfold remainder
  by_cases whole : nodeSize s.mem n = 16 + size
  · rw [if_pos whole, cutNode, if_pos whole]
    exact chain
  · rw [if_neg whole, cutNode_head whole]
    have nonnull : n + 16 + size ≠ null := by
      unfold null
      omega
    exact linked_push chain nonnull (cutNode_rest head whole).2 next

/-- What cutting a node that is off the list leaves of it. -/
structure Cut (n size : Nat) (s t : Kernel) (nodes : List Nat) : Prop where
  header : nodeSize t.mem n = 16 + size
  chain : Linked (nodeNext t.mem) null t.head.next (remainder n (nodeSize s.mem n) size ++ nodes)
  rest : nodeSize s.mem n ≠ 16 + size → nodeSize t.mem (n + 16 + size) = nodeSize s.mem n - 16 - size
  writes : ∀ x, t.mem x ≠ s.mem x → (nodeExtent s.mem n).Has x

theorem cutNode_cut (chain : Linked (nodeNext s.mem) null s.head.next nodes) (head : s.head.next < 2 ^ 64)
    (large : ∀ a ∈ nodes, 16 ≤ nodeSize s.mem a)
    (apart : ∀ a ∈ nodes, (nodeExtent s.mem n).Apart (nodeExtent s.mem a))
    (bound : nodeSize s.mem n < 2 ^ 64) (split : SplitClean (nodeSize s.mem n) size) :
    Cut n size s (cutNode n size s) nodes := by
  have next : ∀ a ∈ nodes, nodeNext (cutNode n size s).mem a = nodeNext s.mem a := by
    intro a member
    refine load_congr fun x low high => ?_
    by_contra changed
    have room := large a member
    exact (apart a member).not_has (cutNode_writes split changed)
      ⟨by simp only [nodeExtent]; omega, by simp only [nodeExtent]; omega⟩
  have small : 16 + size < 2 ^ 64 := split.covers.trans_lt bound
  exact ⟨cutNode_size small, cutNode_list chain head next, fun more => (cutNode_rest head more).1, fun x => cutNode_writes split⟩

/-! ### The first fit -/

/-- `malloc` has taken the node `n` off the list and cut it behind `size` bytes:
the rest goes to the front, the other nodes stay as they are and in order, and
the node's bytes are those of the block and those of the rest. -/
structure FirstFit (s : Kernel) (pre post : List Nat) (n size : Nat) (t : Kernel) : Prop where
  header : nodeSize t.mem n = 16 + size
  list : Linked (nodeNext t.mem) null t.head.next (remainder n (nodeSize s.mem n) size ++ (pre ++ post))
  sizes : ∀ a ∈ pre ++ post, nodeSize t.mem a = nodeSize s.mem a
  rest : nodeSize s.mem n ≠ 16 + size → nodeSize t.mem (n + 16 + size) = nodeSize s.mem n - 16 - size
  parts : ∀ x, (nodeExtent s.mem n).Has x ↔
    (Extent.mk n (16 + size)).Has x ∨ (Extent.mk (n + 16 + size) (nodeSize s.mem n - 16 - size)).Has x
  globals : t = { s with mem := t.mem, head := t.head }
  writes : ∀ x, t.mem x ≠ s.mem x →
    (nodeExtent s.mem n).Has x ∨ ∃ a, pre.getLast? = some a ∧ a + 8 ≤ x ∧ x < a + 16

theorem FreeNodes.firstFit (free : FreeNodes s (pre ++ n :: post))
    (bounded : ∀ a ∈ pre ++ n :: post, a + nodeSize s.mem a < 2 ^ 64) (split : SplitClean (nodeSize s.mem n) size) :
    FirstFit s pre post n size (cutNode n size (setCursorNext s (nodeNext s.mem n) pre.getLast?)) := by
  obtain ⟨chain, sizes, links⟩ := free.unlink
  obtain ⟨t, value⟩ : ∃ t, setCursorNext s (nodeNext s.mem n) pre.getLast? = t := ⟨_, rfl⟩
  have globals := setCursorNext_globals s (nodeNext s.mem n) pre.getLast?
  rw [value] at chain sizes links globals ⊢
  have same := sizes n (by simp)
  have apart : ∀ a ∈ pre ++ post, (nodeExtent t.mem n).Apart (nodeExtent t.mem a) := by
    intro a member
    rw [nodeExtent, nodeExtent, same, sizes a (mem_unlinked member)]
    exact free.apart_node a member
  have large : ∀ a ∈ pre ++ post, 16 ≤ nodeSize t.mem a := by
    intro a member
    rw [sizes a (mem_unlinked member)]
    exact free.large a (mem_unlinked member)
  have head := linked_head_lt chain fun a member => by
    have := bounded a (mem_unlinked member)
    omega
  have bound := bounded n (by simp)
  have cut := cutNode_cut chain head large apart (by rw [same]; omega) (by rw [same]; exact split)
  obtain ⟨header, list, rest, writes⟩ := cut
  rw [same] at list rest
  unfold SplitClean at split
  refine ⟨header, list, fun a member => ?_, rest, fun x => ?_, ?_, fun x changed => ?_⟩
  · rw [← sizes a (mem_unlinked member)]
    refine load_congr fun x low high => ?_
    by_contra changed
    have room := large a member
    exact (apart a member).not_has (writes x changed) ⟨low, by simp only [nodeExtent]; omega⟩
  · simp only [Extent.Has, nodeExtent]
    omega
  · rw [cutNode_globals, globals]
  · by_cases old : t.mem x = s.mem x
    · rw [← old] at changed
      have has := writes x changed
      rw [nodeExtent, same] at has
      exact Or.inl has
    · exact Or.inr (links x old)

/-- The frame table is none of the free nodes' business. -/
theorem FirstFit.sameTable (fit : FirstFit s pre post n size t) (free : FreeNodes s (pre ++ n :: post))
    (apart : ∀ a ∈ pre ++ n :: post, (nodeExtent s.mem a).Apart ⟨s.frameList, 16 * frameCount s⟩) : SameTable s t := by
  refine ⟨by rw [fit.globals], by rw [fit.globals], fun x low high => ?_⟩
  by_contra changed
  have inTable : (Extent.mk s.frameList (16 * frameCount s)).Has x := ⟨low, high⟩
  rcases fit.writes x changed with own | ⟨a, last, link⟩
  · exact (apart n (by simp)).not_has own inTable
  · have member : a ∈ pre ++ n :: post := List.mem_append_left _ (List.mem_of_getLast? last)
    have large := free.large a member
    exact (apart a member).not_has ⟨by simp only [nodeExtent]; omega, by simp only [nodeExtent]; omega⟩ inTable

/-- `malloc` takes the first node that is large enough and splits it exactly. -/
theorem malloc_first_fit (free : FreeNodes s (pre ++ n :: post))
    (bounded : ∀ a ∈ pre ++ n :: post, a + nodeSize s.mem a < 2 ^ 64) (wide : size + 16 < 2 ^ 64)
    (misses : ∀ a ∈ pre, nodeSize s.mem a < size + 16) (split : SplitClean (nodeSize s.mem n) size) :
    ∃ t, Returns (malloc mode · size s) (n + 16, t) ∧ FirstFit s pre post n size t ∧
      ((∀ a ∈ pre ++ n :: post, (nodeExtent s.mem a).Apart ⟨s.frameList, 16 * frameCount s⟩) → SameTable s t) := by
  have covers := split.covers
  have sum := (uadd_header wide).1
  have nonnull : n ≠ null := linked_ne_nil free.chain (by simp)
  have same := free.unlink.2.1 n (by simp)
  have bound := bounded n (by simp)
  have fit := free.firstFit bounded split
  refine ⟨_, ⟨pre.length + 1, fun fuel enough => ?_⟩, fit, fit.sameTable free⟩
  have search := findAndRemoveNode_hit mode pre free.chain
    (fun a member => by rw [sum]; have := misses a member; omega) (by omega) enough
  exact malloc_cut search nonnull (by omega) (by rw [same]; omega)

/-- A block of 100 bytes has been given back; a request for 200 passes its node and is cut from the rest of the page. -/
theorem malloc_first_fit_smallMap : ∃ s t u, initializeAllocator .halts smallMap { mem := fun _ => 0 } = .ok s ∧
    HeapReach s HeapClean (t, []) ∧ FreeNodes t ([0x101000] ++ 0x101074 :: []) ∧ nodeSize t.mem 0x101000 = 116 ∧
    Returns (malloc .halts · 200 t) (0x101084, u) ∧ FirstFit t [0x101000] [] 0x101074 200 u := by
  obtain ⟨s, machine⟩ := smallMachine
  obtain ⟨t, reached, inv, first, second, _⟩ := machine.freed 100 (by decide)
  have free : FreeNodes t ([0x101000] ++ 0x101074 :: []) := inv.freeNodes
  have second : nodeSize t.mem 0x101074 = 3980 := second
  have bounded : ∀ a ∈ [0x101000] ++ 0x101074 :: [], a + nodeSize t.mem a < 2 ^ 64 := by
    intro a member
    rcases List.mem_pair.mp member with rfl | rfl
    · omega
    · omega
  have misses : ∀ a ∈ [0x101000], nodeSize t.mem a < 200 + 16 := by
    intro a member
    rw [List.mem_singleton.mp member]
    omega
  have split : SplitClean (nodeSize t.mem 0x101074) 200 := by
    rw [second]
    exact Or.inr (by decide)
  have wide : 200 + 16 < 2 ^ 64 := by decide
  obtain ⟨u, returned, fit, _⟩ := malloc_first_fit free bounded wide misses split
  exact ⟨s, t, u, machine.init, reached, free, first, returned, fit⟩

end System14
