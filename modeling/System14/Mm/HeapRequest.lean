import System14.Mm.HeapFailure

/-!
# Requests that return

A request that returns under one reading of `panic` returns the same under the
other, so what `HeapFailure` says of the search holds of both. `Serves` says
which node it finds, and `Fetched` collects what the rest of `_alloc` relies on
about the node that the search took off the list.
-/

namespace System14
open ByteMem Run Chain Extent

variable {mode : Panic} {first size fuel : Nat} {free₀ : Nat → Bool} {s t u : Kernel} {nodes : List Nat}
  {live : List Block}

/-! ### Either reading of `panic` -/

theorem pageAlloc_any {r : Nat × Kernel} (call : pageAlloc mode s = .ok r) : pageAlloc .returns s = .ok r := by
  unfold pageAlloc at call ⊢
  cases search : (List.range (frameCount s)).find? (frameFree s) with
  | some i =>
    rw [search] at call
    exact call
  | none =>
    rw [search] at call
    cases mode with
    | halts => cases call
    | returns => exact call

theorem combineBlocks_any {r : KStatus × Kernel} (call : combineBlocks mode fuel size s = .ok r) :
    combineBlocks .returns fuel size s = .ok r := combineBlocks_mono pageAlloc_any (Nat.le_refl fuel) call

theorem tryNext_mono {next next' : HeapCursor → Kernel → Except Stop (Nat × Kernel)} {current : HeapCursor}
    {r : Nat × Kernel} (later : ∀ c, next c s = .ok r → next' c s = .ok r) (call : tryNext size next current s = .ok r) :
    tryNext size next' current s = .ok r := by
  unfold tryNext at call ⊢
  dsimp only at call ⊢
  split at call
  · cases call
  · rw [if_neg ‹_›]
    split at call
    · rw [if_pos ‹_›]
      exact call
    · rw [if_neg ‹_›]
      exact later _ call

/-- What one round of the search returns, another one returns whose steps return the same. -/
theorem findFrom_mono {mode' : Panic} {fuel' : Nat} {current : HeapCursor} {r : Nat × Kernel}
    (page : ∀ r, pageAlloc mode s = .ok r → pageAlloc mode' s = .ok r)
    (combine : ∀ r, combineBlocks mode fuel size s = .ok r → combineBlocks mode' fuel' size s = .ok r)
    (later : ∀ c s, findFrom mode size fuel c s = .ok r → findFrom mode' size fuel' c s = .ok r)
    (call : findFrom mode size (fuel + 1) current s = .ok r) : findFrom mode' size (fuel' + 1) current s = .ok r := by
  rw [findFrom] at call ⊢
  split at call
  · rw [if_pos ‹_›]
    split at call
    · obtain ⟨⟨status, t⟩, done, rest⟩ := bind_ok.mp call
      rw [if_pos ‹_›, combine _ done]
      simp only [ok_bind] at rest ⊢
      split at rest
      · rw [if_pos ‹_›]
        exact rest
      · rw [if_neg ‹_›]
        exact later _ _ rest
    · obtain ⟨⟨block, t⟩, alloc, rest⟩ := bind_ok.mp call
      rw [if_neg ‹_›, page _ alloc]
      simp only [ok_bind] at rest ⊢
      split at rest
      · rw [if_pos ‹_›]
        exact rest
      · rw [if_neg ‹_›]
        exact tryNext_mono (fun c => later c _) rest
  · rw [if_neg ‹_›]
    exact tryNext_mono (fun c => later c _) call

theorem findFrom_any {current : HeapCursor} {r : Nat × Kernel} (call : findFrom mode size fuel current s = .ok r) :
    findFrom .returns size fuel current s = .ok r := by
  induction fuel generalizing current s with
  | zero => cases call
  | succ fuel ih => exact findFrom_mono (fun _ => pageAlloc_any) (fun _ => combineBlocks_any) (fun _ _ => ih) call

theorem findFrom_more {current : HeapCursor} {r : Nat × Kernel} (call : findFrom mode size fuel current s = .ok r) :
    findFrom mode size (fuel + 1) current s = .ok r := by
  induction fuel generalizing current s with
  | zero => cases call
  | succ fuel ih =>
    exact findFrom_mono (fun _ => id) (fun _ done => combineBlocks_stable done (Nat.le_succ fuel)) (fun _ _ => ih) call

/-- A search that returns on some fuel returns the same on more. -/
theorem findAndRemoveNode_returns {r : Nat × Kernel} (call : findAndRemoveNode mode fuel size s = .ok r) :
    Returns (findAndRemoveNode mode · size s) r := by
  refine ⟨fuel, fun more le => ?_⟩
  induction more, le using Nat.le_induction with
  | base => exact call
  | succ more _ ih => exact findFrom_more ih

/-! ### The node that was found -/

/-- What holds of the node that a search for `size` bytes took off the list. The
number of its bytes is exact, and inside the frames, unless it was combined. -/
structure Fetched (first : Nat) (s : Kernel) (size n : Nat) (t : Kernel) : Prop where
  above : s.frameList + 16 * frameCount s ≤ n
  header : n + 16 ≤ first + 4096 * frameCount s
  large : 16 ≤ nodeSize t.mem n
  fits : uadd 64 16 size ≤ nodeSize t.mem n
  room : size + 16 < 2 ^ 64 → n + 16 + size ≤ first + 4096 * frameCount s
  short : uadd 64 size 16 < 4096 → n + nodeSize t.mem n ≤ first + 4096 * frameCount s
  head : t.head.next < 2 ^ 64

theorem HeapByte.top {x : Nat} (h : HeapByte first free₀ s x) : first ≤ x ∧ x < first + 4096 * frameCount s := by
  obtain ⟨i, lt, _, _, low, high⟩ := h
  omega

theorem HeapInv.node_inside {a : Nat} (inv : HeapInv first free₀ s nodes live) (member : a ∈ nodes) :
    first ≤ a ∧ a + nodeSize s.mem a ≤ first + 4096 * frameCount s := by
  have large := inv.large a member
  have owned := inv.inside _ (mem_extents_node member)
  have start := (owned a ⟨le_refl _, by simp only [nodeExtent]; omega⟩).top
  have stop := (owned (a + nodeSize s.mem a - 1)
    ⟨by simp only [nodeExtent]; omega, by simp only [nodeExtent]; omega⟩).top
  omega

theorem Rounds.le {n : Nat} (rounds : Rounds size n) (small : n < 2 ^ 52) : size ≤ 4096 * n := by
  have enough := rounds.1
  omega

theorem FrameTable.top_le (table : FrameTable s first) : first + 4096 * frameCount s + 4096 ≤ 2 ^ 64 := by
  have fits := table.fits
  have aligned := table.aligned
  omega

theorem FrameTable.count_lt (table : FrameTable s first) : frameCount s < 2 ^ 52 := by
  have fits := table.fits
  omega

theorem NewNode.total_lt {f m total : Nat} (new : NewNode first s nodes size f m total u) : total < 2 ^ 64 := by
  rcases new.kind with ⟨_, _, _, rfl⟩ | ⟨_, _, rfl⟩
  · decide
  · exact intToU64_lt _

theorem ServedNew.fetched {n : Nat} (new : ServedNew first s nodes size n t) (list : FreeList first s nodes) :
    Fetched first s size n t := by
  obtain ⟨f, m, total, u, new, rfl, rfl⟩ := new
  have total_lt := new.total_lt
  obtain ⟨taking, _, _, kind, fits⟩ := new
  have bounds := list.table.page_bounds taking.lt
  have small := list.table.count_lt
  obtain ⟨g, lt, behind, _⟩ := taking.last
  have size_eq : nodeSize (setCursorNext (createNode (first + 4096 * f) total u)
      (nodeNext (createNode (first + 4096 * f) total u).mem (first + 4096 * f)) none).mem (first + 4096 * f) = total :=
    createNode_size total_lt
  refine ⟨bounds.1, by omega, ?_, by rw [size_eq]; exact fits, fun wide => ?_, fun few => ?_, load_lt 8 _ _⟩
  · rw [size_eq]
    rcases kind with ⟨_, _, _, rfl⟩ | ⟨large, _, _⟩
    · decide
    · unfold uadd at large fits
      omega
  · rcases kind with ⟨few, _, rfl, _⟩ | ⟨_, rounds, _⟩
    · rw [uadd_of_lt wide] at few
      omega
    · have le := rounds.le (by omega)
      omega
  · rw [size_eq]
    rcases kind with ⟨_, _, _, rfl⟩ | ⟨large, _⟩
    · omega
    · exact absurd large (Nat.not_le.mpr few)

theorem HeapInv.fetched {n : Nat} (inv : HeapInv first free₀ s nodes live) (wide : size < 2 ^ 64)
    (call : findAndRemoveNode mode fuel size s = .ok (n, t)) (nonnull : n ≠ null) : Fetched first s size n t := by
  have list := inv.freeList
  rcases search_cases list wide (findFrom_any call) with none | ⟨pre, post, rfl, fits, rfl, _⟩ | new
  · exact absurd none nonnull
  · obtain ⟨taken, _, _, sizes⟩ := inv.take
    have same := sizes n (by simp)
    have bounds := inv.node_inside (a := n) (by simp)
    have large := inv.large n (by simp)
    have above := inv.table.above
    refine ⟨by omega, by omega, by omega, by rw [same]; exact fits, fun wide => ?_, fun _ => by omega, taken.head_lt⟩
    rw [uadd_of_lt (by omega)] at fits
    omega
  · exact new.fetched list

/-- The nodes that were on the list are what is left of it when a new node has been taken off again. -/
theorem ServedNew.others {n : Nat} (new : ServedNew first s nodes size n t) (list : FreeList first s nodes) :
    Linked (nodeNext t.mem) null t.head.next nodes ∧
      ∀ a ∈ nodes, nodeSize t.mem a = nodeSize s.mem a ∧ (a + 16 ≤ n ∨ n + 4096 ≤ a) := by
  obtain ⟨f, m, total, u, new, rfl, rfl⟩ := new
  obtain ⟨pushed, sizes⟩ := new.taking.push list total
  exact ⟨pushed.chain.2.2, fun a member => ⟨sizes a member, list.off_page member new.taking.start⟩⟩

/-- Where a search for `size` bytes finds its node, and the size recorded in it:
the first node that is large enough, else the page of the first free frame. -/
def Serves (first : Nat) (s : Kernel) (nodes : List Nat) (size n total : Nat) : Prop :=
  match nodes.find? fun a => uadd 64 16 size ≤ nodeSize s.mem a with
  | some a => n = a ∧ total = nodeSize s.mem a
  | none =>
    (∃ f < frameCount s, frameFree s f = true ∧ (∀ j < f, frameFree s j = false) ∧ n = first + 4096 * f) ∧
      total = if uadd 64 size 16 < 4096 then 4096 else intToU64 (pageRounds size * 4096)

theorem Rounds.eq_pageRounds {n : Nat} (rounds : Rounds size n) (small : n < 2 ^ 52) : n = pageRounds size := by
  have enough := rounds.le small
  unfold pageRounds
  by_cases none : n = 0
  · omega
  · have before := rounds.2 (n - 1) (by omega)
    omega

theorem HeapInv.serves {n : Nat} (inv : HeapInv first free₀ s nodes live) (wide : size < 2 ^ 64)
    (call : findAndRemoveNode mode fuel size s = .ok (n, t)) (nonnull : n ≠ null) :
    Serves first s nodes size n (nodeSize t.mem n) := by
  rcases search_cases inv.freeList wide (findFrom_any call) with none | ⟨pre, post, rfl, fits, rfl, misses⟩ | new
  · exact absurd none nonnull
  · have hit : (pre ++ n :: post).find? (fun a => uadd 64 16 size ≤ nodeSize s.mem a) = some n := by
      apply List.find?_eq_some_iff_append.mpr
      exact ⟨by simpa using fits, pre, post, rfl, fun a before => by simpa using misses a before⟩
    have same := inv.freeNodes.unlink.2.1 n (by simp)
    simp only [Serves, hit]
    exact ⟨trivial, same⟩
  · obtain ⟨f, m, total, u, new, rfl, rfl⟩ := new
    have none : nodes.find? (fun a => uadd 64 16 size ≤ nodeSize s.mem a) = none := by
      apply List.find?_eq_none.mpr
      intro a member
      simpa using new.misses a member
    obtain ⟨g, lt, behind, _⟩ := new.taking.last
    have count := inv.table.count_lt
    simp only [Serves, none]
    refine ⟨⟨f, new.taking.lt, new.taking.start, new.least, rfl⟩, (createNode_size new.total_lt).trans ?_⟩
    rcases new.kind with ⟨few, _, _, rfl⟩ | ⟨large, rounds, rfl⟩
    · rw [if_pos (Nat.not_le.mp few)]
    · rw [if_neg (Nat.not_lt.mpr large), rounds.eq_pageRounds (by omega)]

/-! ### The rest of `_alloc` -/

theorem alloc_ok {alignment p : Nat} (call : alloc mode fuel size alignment s = .ok (p, u)) (nonnull : p ≠ null) :
    ∃ n t, findAndRemoveNode mode fuel (uadd 64 size (usub 64 alignment 1)) s = .ok (n, t) ∧ n ≠ null ∧
      alignment ≠ 0 ∧ p = uadd 64 n 16 ∧ u = trim n size alignment t := by
  have whole := call
  unfold alloc at call
  obtain ⟨⟨n, t⟩, search, rest⟩ := bind_ok.mp call
  dsimp only at rest
  by_cases none : n = null
  · rw [if_pos none] at rest
    cases rest
    exact absurd rfl nonnull
  · rw [if_neg none] at rest
    by_cases zero : alignment = 0
    · rw [if_pos zero] at rest
      cases rest
    · rw [alloc_trim search none zero] at whole
      cases whole
      exact ⟨n, t, search, none, zero, rfl, rfl⟩

end System14
