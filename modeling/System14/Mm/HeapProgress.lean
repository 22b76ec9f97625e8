import System14.Mm.HeapRun

/-!
# How far the search gets

A page that the search takes for a small request is linked in at the head of
the list, while the cursor stays at its end: the search goes on through the
null pointer there, unless the list was empty. The pages it combines for a
large request hold the request without its header; when the header does not fit
in what is left of the last page, the search combines pages again.
-/

namespace System14
open ByteMem Run Chain Extent

variable {mode : Panic} {first size fuel : Nat} {free₀ : Nat → Bool} {s t u : Kernel} {nodes : List Nat}
  {live : List Block}

/-! ### Small requests -/

/-- The two kernels agree on the frame table, on `head` and on the headers of `nodes`. -/
structure SameList (nodes : List Nat) (s t : Kernel) : Prop where
  table : SameTable s t
  head : t.head = s.head
  header : ∀ a ∈ nodes, ∀ x, a ≤ x → x < a + 16 → t.mem x = s.mem x

theorem SameList.nodeSize_eq (same : SameList nodes s t) {a : Nat} (member : a ∈ nodes) :
    nodeSize t.mem a = nodeSize s.mem a :=
  load_congr fun x low high => same.header a member x low (by omega)

theorem SameList.chain (same : SameList nodes s t) (chain : Linked (nodeNext s.mem) null s.head.next nodes) :
    Linked (nodeNext t.mem) null t.head.next nodes := by
  rw [same.head]
  apply linked_congr chain
  intro a member
  exact load_congr fun x low high => same.header a member x (by omega) (by omega)

/-- The search returns a node that is large enough and no longer on the list.
What it returns depends on nothing but the frame table, `head` and the nodes on
the list. -/
def FindsNode (s : Kernel) (nodes : List Nat) (size : Nat) : Prop :=
  ∃ n t, Returns (findAndRemoveNode .halts · size s) (n, t) ∧ size + 16 ≤ nodeSize t.mem n ∧
    (∃ rest, Linked (nodeNext t.mem) null t.head.next rest ∧ n ∉ rest) ∧
    ∀ s', SameList nodes s s' → ∃ t', Returns (findAndRemoveNode .halts · size s') (n, t')

theorem HeapInv.block_off {n k : Nat} (inv : HeapInv first free₀ s nodes (⟨n + 16, k⟩ :: live)) : n ∉ nodes := by
  intro member
  have large := inv.large n member
  have apart := inv.forget.2 _ (mem_extents_node member)
  simp only [Block.extent, nodeExtent, Extent.Apart] at apart
  omega

theorem Found.off_list {P : Nat → Prop} {n : Nat} (found : Found first free₀ live P s n t) :
    ∃ rest, Linked (nodeNext t.mem) null t.head.next rest ∧ n ∉ rest := by
  obtain ⟨rest, inv⟩ := found.inv
  exact ⟨rest, inv.chain, inv.block_off⟩

theorem first_fit (fit : ∃ a ∈ nodes, size + 16 ≤ nodeSize s.mem a) :
    ∃ pre n post, nodes = pre ++ n :: post ∧ (∀ a ∈ pre, nodeSize s.mem a < size + 16) ∧ size + 16 ≤ nodeSize s.mem n := by
  rcases first_miss_or_hit s nodes (size + 16) with misses | hit
  · obtain ⟨a, member, large⟩ := fit
    exact absurd large (Nat.not_le.mpr (misses a member))
  · exact hit

theorem findsNode_of_fit (inv : HeapInv first free₀ s nodes live) (wide : size + 16 < 2 ^ 64)
    (fit : ∃ a ∈ nodes, size + 16 ≤ nodeSize s.mem a) : FindsNode s nodes size := by
  obtain ⟨pre, n, post, rfl, misses, fits⟩ := first_fit fit
  have sum := (uadd_header wide).1
  have found := inv.found pre (P := fun total => size + 16 ≤ total) fits
  refine ⟨n, _, ⟨pre.length + 1, fun fuel enough => ?_⟩, found.size, found.off_list, fun s' same => ?_⟩
  · exact findAndRemoveNode_hit .halts pre inv.chain (fun a member => by rw [sum]; have := misses a member; omega)
      (by omega) enough
  · refine ⟨setCursorNext s' (nodeNext s'.mem n) pre.getLast?, pre.length + 1, fun fuel enough => ?_⟩
    apply findAndRemoveNode_hit .halts pre (same.chain inv.chain) _ _ enough
    · intro a member
      rw [sum, same.nodeSize_eq (List.mem_append_left _ member)]
      have := misses a member
      omega
    · rw [sum, same.nodeSize_eq (by simp)]
      omega

theorem findsNode_of_empty (inv : HeapInv first free₀ s [] live) (small : size + 16 < 4096)
    (free : ∃ i < frameCount s, frameFree s i = true) : FindsNode s [] size := by
  rcases first_free_or_none s with none | ⟨i, lt, isFree, least⟩
  · obtain ⟨i, lt, isFree⟩ := free
    rw [none i lt] at isFree
    cases isFree
  · obtain ⟨t, call, granted⟩ := pageAlloc_grants .halts inv.table lt isFree least
    obtain ⟨u, _, search, found, _⟩ := findAndRemoveNode_page inv call granted (uadd_header_small small)
    have returns : ∀ {s' u'}, (∀ fuel, findAndRemoveNode .halts (fuel + 1) size s' = .ok (first + 4096 * i, u')) →
        Returns (findAndRemoveNode .halts · size s') (first + 4096 * i, u') := by
      intro s' u' call
      refine ⟨1, fun fuel enough => ?_⟩
      obtain ⟨k, rfl⟩ : ∃ k, fuel = k + 1 := ⟨fuel - 1, by omega⟩
      exact call k
    refine ⟨_, u, returns search, ?_, found.off_list, fun s' same => ?_⟩
    · have total : nodeSize u.mem (first + 4096 * i) = 4096 := found.size
      omega
    · have count := same.table.count
      obtain ⟨t', call', granted'⟩ := pageAlloc_grants .halts (inv.table.congr same.table) (by omega)
        ((same.table.free lt).trans isFree) fun j below => (same.table.free (by omega)).trans (least j below)
      have empty : s'.head.next = null := same.chain inv.chain
      obtain ⟨u', _, search', _⟩ := findAndRemoveNode_page (heapInv_empty (inv.table.congr same.table) empty) call' granted'
        (uadd_header_small small)
      exact ⟨u', returns search'⟩

/-- The cursor is at the last node, the new page in front of the first one. -/
theorem findAndRemoveNode_stuck (inv : HeapInv first free₀ s nodes live) (small : size + 16 < 4096)
    (free : ∃ i < frameCount s, frameFree s i = true) (some : nodes ≠ [])
    (misses : ∀ a ∈ nodes, nodeSize s.mem a < size + 16) (enough : nodes.length < fuel) :
    findAndRemoveNode .halts fuel size s = .error .nullDereference := by
  obtain ⟨sum, sum'⟩ := uadd_header (show size + 16 < 2 ^ 64 by omega)
  obtain ⟨skip, stop⟩ := findAndRemoveNode_end .halts size fuel inv.chain
    fun a member => by rw [sum]; have := misses a member; omega
  obtain ⟨rest, left⟩ : ∃ rest, fuel - nodes.length = rest + 1 := ⟨fuel - nodes.length - 1, by omega⟩
  obtain ⟨⟨p, t⟩, call, i, granted⟩ := (pageAlloc_yields inv.table).returns fun e => Or.inr free
  change Granted s first i p t at granted
  obtain ⟨kept, _, fresh, added⟩ := inv.granted granted
  have nonnull : p ≠ null := ((added p (le_refl _) (by omega)).bounds kept.table).2.2
  obtain ⟨created, _⟩ := kept.create p 4096 (by omega) (by omega) fresh added
  have last := cursor_end created.chain some
  rw [skip, left, findFrom, if_pos stop, sum', if_neg (by omega), call]
  simp only [ok_bind, if_neg nonnull, tryNext, last, if_true]

theorem FindsNode.served (finds : FindsNode s nodes size) (inv : HeapInv first free₀ s nodes live)
    (small : size + 16 < 4096) (free : ∃ i < frameCount s, frameFree s i = true) :
    nodes = [] ∨ ∃ a ∈ nodes, size + 16 ≤ nodeSize s.mem a := by
  obtain ⟨n, t, ⟨bound, call⟩, _⟩ := finds
  by_contra neither
  obtain ⟨some, misses⟩ := not_or.mp neither
  have stuck := findAndRemoveNode_stuck inv small free some
    (fun a member => by by_contra large; exact misses ⟨a, member, by omega⟩)
    (show nodes.length < max bound (nodes.length + 1) by omega)
  have returned := call (max bound (nodes.length + 1)) (Nat.le_max_left _ _)
  dsimp only at returned
  rw [stuck] at returned
  cases returned

/-- A small request is served without a walk off the list exactly when the list
is empty or one of its nodes is large enough. -/
theorem small_search_iff (inv : HeapInv first free₀ s nodes live) (small : size + 16 < 4096)
    (free : ∃ i < frameCount s, frameFree s i = true) :
    FindsNode s nodes size ↔ nodes = [] ∨ ∃ a ∈ nodes, size + 16 ≤ nodeSize s.mem a := by
  constructor
  · intro finds
    exact finds.served inv small free
  · rintro (rfl | fit)
    · exact findsNode_of_empty inv small free
    · exact findsNode_of_fit inv (by omega) fit

/-- The search passes the node of 116 bytes and finds the rest of the page behind it. -/
theorem small_search_iff_smallMap : ∃ s t, initializeAllocator .halts smallMap { mem := fun _ => 0 } = .ok s ∧
    HeapReach s HeapClean (t, []) ∧ nodeSize t.mem 0x101000 < 200 + 16 ∧ FindsNode t [0x101000, 0x101074] 200 ∧
    ¬ FindsNode t [0x101000, 0x101074] 3970 := by
  obtain ⟨s, machine⟩ := smallMachine
  obtain ⟨t, reached, inv, first, second, count, free⟩ := machine.freed 100 (by decide)
  have some : ∃ i < frameCount t, frameFree t i = true := ⟨1, by rw [count]; decide, free⟩
  have second : nodeSize t.mem 0x101074 = 3980 := second
  refine ⟨s, t, machine.init, reached, by rw [first]; decide, ?_, fun finds => ?_⟩
  · refine (small_search_iff inv (by decide) some).mpr (Or.inr ⟨0x101074, by decide, ?_⟩)
    rw [second]
    decide
  · rcases (small_search_iff inv (by decide) some).mp finds with none | ⟨a, member, large⟩
    · cases none
    · rcases List.mem_pair.mp member with rfl | rfl
      · omega
      · omega

/-- After a first request for 4064 bytes the list holds one node of sixteen, and
three frames are free; a request for one byte then follows a null pointer. -/
theorem small_search_stuck : ∃ s₁ t, initializeAllocator .halts smallMap { mem := fun _ => 0 } = .ok s₁ ∧
    HeapReach s₁ HeapClean (t, [⟨0x101010, 4064⟩]) ∧ HeapInv 0x101000 (frameFree s₁) t [0x101ff0] [⟨0x101010, 4064⟩] ∧
    (∃ i < frameCount t, frameFree t i = true) ∧ ¬ FindsNode t [0x101ff0] 1 := by
  obtain ⟨s₁, machine⟩ := smallMachine
  obtain ⟨t, step, room, _⟩ := machine.malloc 4064 (by decide)
  obtain ⟨rest, count, free⟩ := room (by decide)
  have clean : MallocClean s₁ 4064 := mallocClean_empty machine.empty (by decide) (Or.inr (by decide))
  have reached : HeapReach s₁ HeapClean (t, [⟨0x101010, 4064⟩]) :=
    Reach.step (e := .malloc 4064) (Reach.init rfl) clean step
  obtain ⟨nodes, inv⟩ := heapReach_inv machine.table machine.empty reached
  have same : nodes = [0x101ff0] := linked_unique inv.chain rest.chain
  subst same
  have some : ∃ i < frameCount t, frameFree t i = true := ⟨1, by rw [count]; decide, free⟩
  refine ⟨s₁, t, machine.init, reached, inv, some, fun finds => ?_⟩
  have total : nodeSize t.mem 0x101ff0 = 16 := rest.total
  rcases finds.served inv (by decide) some with none | ⟨a, member, large⟩
  · cases none
  · rw [List.mem_singleton.mp member, total] at large
    omega

/-! ### Large requests -/

section

variable {mode' : Panic} {fuel' : Nat} (pages : ∀ {s r}, pageAlloc mode s = .ok r → pageAlloc mode' s = .ok r)
  (more : fuel ≤ fuel')
include pages more

theorem combinePages_mono {initial i n : Nat} {r : KStatus × Kernel}
    (call : combinePages mode initial size fuel i n s = .ok r) :
    combinePages mode' initial size fuel' i n s = .ok r := by
  induction fuel generalizing fuel' i n s with
  | zero => cases call
  | succ fuel ih =>
    obtain ⟨fuel', rfl⟩ := Nat.exists_eq_add_one.mpr (Nat.zero_lt_of_lt more)
    rw [combinePages] at call ⊢
    split at call
    · obtain ⟨⟨page, t⟩, alloc, rest⟩ := bind_ok.mp call
      rw [if_pos ‹_›, pages alloc]
      dsimp only at rest
      simp only [ok_bind]
      split at rest
      · rw [if_pos ‹_›]
        exact rest
      · rw [if_neg ‹_›]
        exact ih (Nat.le_of_succ_le_succ more) rest
    · rw [if_neg ‹_›]
      exact call

/-- What `CombineBlocks` returns it returns on more fuel, and where more pages are granted. -/
theorem combineBlocks_mono {r : KStatus × Kernel} (call : combineBlocks mode fuel size s = .ok r) :
    combineBlocks mode' fuel' size s = .ok r := by
  unfold combineBlocks at call ⊢
  obtain ⟨⟨initial, t⟩, alloc, rest⟩ := bind_ok.mp call
  exact bind_ok.mpr ⟨_, pages alloc, combinePages_mono pages more rest⟩

end

theorem combineBlocks_stable {fuel' : Nat} {r : KStatus × Kernel} (call : combineBlocks mode fuel size s = .ok r)
    (more : fuel ≤ fuel') : combineBlocks mode fuel' size s = .ok r := combineBlocks_mono id more call

/-- How often the search loop calls `CombineBlocks`. A request that starts the
loop below 4096 bytes never does. -/
def combineCalls (mode : Panic) (size : Nat) : Nat → HeapCursor → Kernel → Nat
  | 0, _, _ => 0
  | fuel + 1, current, s =>
    if cursorNext s current = null then
      if uadd 64 size 16 ≥ 4096 then
        match combineBlocks mode fuel size s with
        | .ok (.success, s) => combineCalls mode size fuel none s + 1
        | _ => 1
      else 0
    else if uadd 64 16 size ≤ nodeSize s.mem (cursorNext s current) then 0
    else combineCalls mode size fuel (some (cursorNext s current)) s

/-- The frames from `i` on are free, and no others. -/
def FreeTail (s : Kernel) (i : Nat) : Prop := ∀ j < frameCount s, frameFree s j = true ↔ i ≤ j

/-- The search returns a node that is large enough, with at most one call of `CombineBlocks`. -/
def OneCombination (s : Kernel) (size : Nat) : Prop :=
  (∃ n t, Returns (findAndRemoveNode .halts · size s) (n, t) ∧ size + 16 ≤ nodeSize t.mem n) ∧
    ∀ fuel, combineCalls .halts size fuel none s ≤ 1

theorem combineCalls_skip {pre post : List Nat} (mode : Panic) (size fuel : Nat)
    (chain : Linked (nodeNext s.mem) null s.head.next (pre ++ post))
    (misses : ∀ a ∈ pre, nodeSize s.mem a < uadd 64 16 size) :
    combineCalls mode size fuel none s = combineCalls mode size (fuel - pre.length) pre.getLast? s := by
  have skips : ∀ fuel current, cursorNext s current ≠ null → nodeSize s.mem (cursorNext s current) < uadd 64 16 size →
      combineCalls mode size (fuel + 1) current s = combineCalls mode size fuel (some (cursorNext s current)) s := by
    intro fuel current nonnull small
    simp only [combineCalls, if_neg nonnull, if_neg (Nat.not_le.mpr small)]
  exact walk_past (combineCalls mode size · · s) size fuel [] pre post (fun _ _ => rfl) skips chain misses

theorem combineCalls_hit {n : Nat} {post : List Nat} (mode : Panic) (size fuel : Nat) (pre : List Nat)
    (chain : Linked (nodeNext s.mem) null s.head.next (pre ++ n :: post))
    (misses : ∀ a ∈ pre, nodeSize s.mem a < uadd 64 16 size) (fits : uadd 64 16 size ≤ nodeSize s.mem n) :
    combineCalls mode size fuel none s = 0 := by
  have cursor := linked_cursor chain
  have here : cursorNext s pre.getLast? = n := cursor.1
  rw [combineCalls_skip mode size fuel chain misses]
  cases fuel - pre.length with
  | zero => rfl
  | succ rest => rw [combineCalls, here, if_neg cursor.2.1, if_pos fits]

theorem FreeTail.run {i : Nat} (tail : FreeTail s i) (k : Nat) : FreeRun s k := by
  intro j lt free _ m _ lt'
  have low := (tail j lt).mp free
  exact (tail (j + m) lt').mpr (by omega)

theorem FreeTail.room {i k : Nat} (tail : FreeTail s i) (enough : i + k < frameCount s) : Room s k := by
  refine ⟨i, enough, (tail i (by omega)).mpr (le_refl i), fun j below => ?_⟩
  have used := mt (tail j (by omega)).mp (by omega)
  simpa using used

/-- `CombineBlocks` has put a new node before the nodes `nodes`. -/
structure Combined (nodes : List Nat) (size n : Nat) (s t : Kernel) : Prop where
  call : ∀ fuel > pageRounds size, combineBlocks .halts fuel size s = .ok (.success, t)
  chain : Linked (nodeNext t.mem) null t.head.next (n :: nodes)
  total : nodeSize t.mem n = intToU64 (pageRounds size * 4096)
  sizes : ∀ a ∈ nodes, nodeSize t.mem a = nodeSize s.mem a

theorem intToU64_lt (n : Nat) : intToU64 n < 2 ^ 64 := by
  unfold intToU64
  dsimp only
  split <;> omega

theorem combineBlocks_room (inv : HeapInv first free₀ s nodes live) (bounded : size + 4096 ≤ 2 ^ 64)
    (adjacent : FreeRun s (pageRounds size)) (room : Room s (pageRounds size)) :
    ∃ i u, Combined nodes size (first + 4096 * i) s
        (createNode (first + 4096 * i) (intToU64 (pageRounds size * 4096)) u) ∧
      HeapInv first free₀ u nodes live ∧ InHand first free₀ i (pageRounds size) (pageRounds size) u nodes live := by
  have yields := combineBlocks_yields inv bounded adjacent (Nat.lt_succ_self (pageRounds size))
  obtain ⟨r, call, i, u, rfl, after, hand, _, headers⟩ := yields.returns fun e => Or.inr room
  obtain ⟨chain, same⟩ := hand.front after (intToU64 (pageRounds size * 4096))
  refine ⟨i, u, ⟨fun fuel more => combineBlocks_stable call more, chain, createNode_size (intToU64_lt _), ?_⟩, after, hand⟩
  exact (headers.trans same).size

theorem combineBlocks_tail {i : Nat} (inv : HeapInv first free₀ s nodes live) (bounded : size + 4096 ≤ 2 ^ 64)
    (tail : FreeTail s i) (enough : i + pageRounds size < frameCount s) : ∃ n t, Combined nodes size n s t := by
  obtain ⟨j, u, combined, _⟩ := combineBlocks_room inv bounded (tail.run _) (tail.room enough)
  exact ⟨_, _, combined⟩

/-- The search at the end of a list without a node that is large enough. -/
theorem findAndRemoveNode_combined {n : Nat} (combined : Combined nodes size n s t)
    (chain : Linked (nodeNext s.mem) null s.head.next nodes) (large : uadd 64 size 16 ≥ 4096)
    (misses : ∀ a ∈ nodes, nodeSize s.mem a < uadd 64 16 size) (rest : Nat) (enough : pageRounds size < rest) :
    findAndRemoveNode .halts (nodes.length + (rest + 1)) size s = findAndRemoveNode .halts rest size t ∧
      combineCalls .halts size (nodes.length + (rest + 1)) none s = combineCalls .halts size rest none t + 1 := by
  obtain ⟨skip, stop⟩ := findAndRemoveNode_end .halts size (nodes.length + (rest + 1)) chain misses
  have whole : Linked (nodeNext s.mem) null s.head.next (nodes ++ []) := by simpa using chain
  have calls := combineCalls_skip .halts size (nodes.length + (rest + 1)) whole misses
  have call := combined.call rest enough
  rw [Nat.add_sub_cancel_left] at skip calls
  rw [skip, calls]
  constructor
  · rw [findFrom, if_pos stop, if_pos large, call]
    rfl
  · rw [combineCalls, if_pos stop, if_pos large, call]

theorem Combined.calls_le {n : Nat} (combined : Combined nodes size n s t)
    (chain : Linked (nodeNext s.mem) null s.head.next nodes)
    (misses : ∀ a ∈ nodes, nodeSize s.mem a < uadd 64 16 size) (fits : uadd 64 16 size ≤ nodeSize t.mem n) (fuel : Nat) :
    combineCalls .halts size fuel none s ≤ 1 := by
  have whole : Linked (nodeNext s.mem) null s.head.next (nodes ++ []) := by simpa using chain
  have stop : cursorNext s nodes.getLast? = null := linked_cursor whole
  rw [combineCalls_skip .halts size fuel whole misses]
  cases fuel - nodes.length with
  | zero => exact Nat.zero_le 1
  | succ rest =>
    rw [combineCalls, if_pos stop]
    split
    · split
      · rename_i u call
        -- Whatever fuel was left for it, the call made the one node there is.
        have one := combineBlocks_stable call (Nat.le_max_left rest (pageRounds size + 1))
        have two := combined.call (max rest (pageRounds size + 1)) (by omega)
        rw [one] at two
        cases two
        rw [combineCalls_hit .halts size rest [] combined.chain (by simp) fits]
      · exact le_refl 1
    · exact Nat.zero_le 1

theorem oneCombination_of_fit (inv : HeapInv first free₀ s nodes live) (wide : size + 16 < 2 ^ 64)
    (fit : ∃ a ∈ nodes, size + 16 ≤ nodeSize s.mem a) : OneCombination s size := by
  obtain ⟨n, t, returned, total, _⟩ := findsNode_of_fit inv wide fit
  obtain ⟨pre, n, post, rfl, misses, fits⟩ := first_fit fit
  have sum := (uadd_header wide).1
  refine ⟨⟨_, t, returned, total⟩, fun fuel => ?_⟩
  rw [combineCalls_hit .halts size fuel pre inv.chain (fun a member => by rw [sum]; have := misses a member; omega) (by omega)]
  exact Nat.zero_le 1

theorem Combined.search {n : Nat} (combined : Combined nodes size n s t)
    (chain : Linked (nodeNext s.mem) null s.head.next nodes) (large : uadd 64 size 16 ≥ 4096)
    (misses : ∀ a ∈ nodes, nodeSize s.mem a < uadd 64 16 size) (fits : uadd 64 16 size ≤ nodeSize t.mem n)
    (enough : nodes.length + (pageRounds size + 2) ≤ fuel) :
    findAndRemoveNode .halts fuel size s = .ok (n, setCursorNext t (nodeNext t.mem n) none) := by
  obtain ⟨rest, rfl⟩ : ∃ rest, fuel = nodes.length + (rest + 1) := ⟨fuel - nodes.length - 1, by omega⟩
  rw [(findAndRemoveNode_combined combined chain large misses rest (by omega)).1]
  exact findAndRemoveNode_hit .halts [] combined.chain (by simp) fits (by simp; omega)

theorem Combined.oneCombination {n : Nat} (combined : Combined nodes size n s t)
    (chain : Linked (nodeNext s.mem) null s.head.next nodes) (large : uadd 64 size 16 ≥ 4096)
    (misses : ∀ a ∈ nodes, nodeSize s.mem a < uadd 64 16 size) (fits : uadd 64 16 size ≤ nodeSize t.mem n)
    (covers : size + 16 ≤ nodeSize t.mem n) : OneCombination s size := by
  refine ⟨⟨n, setCursorNext t (nodeNext t.mem n) none, ⟨nodes.length + (pageRounds size + 2), fun fuel enough => ?_⟩,
    covers⟩, combined.calls_le chain misses fits⟩
  exact combined.search chain large misses fits enough

/-- The new node is too small as well, so the search combines again. -/
theorem Combined.twice {n : Nat} (combined : Combined nodes size n s t)
    (chain : Linked (nodeNext s.mem) null s.head.next nodes) (large : uadd 64 size 16 ≥ 4096)
    (misses : ∀ a ∈ nodes, nodeSize s.mem a < uadd 64 16 size) (short : nodeSize t.mem n < uadd 64 16 size) :
    ¬ OneCombination s size := by
  intro one
  have once := one.2 (nodes.length + ((nodes.length + 1 + (pageRounds size + 1)) + 1))
  rw [(findAndRemoveNode_combined combined chain large misses _ (by omega)).2] at once
  have whole : Linked (nodeNext t.mem) null t.head.next ((n :: nodes) ++ []) := by simpa using combined.chain
  have stop : cursorNext t (n :: nodes).getLast? = null := linked_cursor whole
  have all : ∀ a ∈ n :: nodes, nodeSize t.mem a < uadd 64 16 size := by
    intro a member
    rcases List.mem_cons.mp member with rfl | member
    · exact short
    · rw [combined.sizes a member]
      exact misses a member
  rw [combineCalls_skip .halts size _ whole all, List.length_cons, Nat.add_sub_cancel_left, combineCalls, if_pos stop,
    if_pos large] at once
  split at once <;> omega

/-- A large request takes one combination exactly when a node on the list is
large enough, or when the pages that hold the request hold its header too. -/
theorem one_combination_iff {i : Nat} (inv : HeapInv first free₀ s nodes live) (large : 4096 ≤ size + 16)
    (small : size + 16 < 2 ^ 31) (tail : FreeTail s i) (room : i + ((size + 16 + 4095) / 4096 + 1) ≤ frameCount s) :
    OneCombination s size ↔
      (∃ a ∈ nodes, size + 16 ≤ nodeSize s.mem a) ∨ (1 ≤ size % 4096 ∧ size % 4096 ≤ 4080) := by
  obtain ⟨sum, sum'⟩ := uadd_header (show size + 16 < 2 ^ 64 by omega)
  by_cases fit : ∃ a ∈ nodes, size + 16 ≤ nodeSize s.mem a
  · exact ⟨fun _ => Or.inl fit, fun _ => oneCombination_of_fit inv (by omega) fit⟩
  · have misses : ∀ a ∈ nodes, nodeSize s.mem a < uadd 64 16 size := by
      intro a member
      by_contra fits
      exact fit ⟨a, member, by omega⟩
    obtain ⟨n, t, combined⟩ := combineBlocks_tail inv (by omega) tail
      (show i + pageRounds size < frameCount s by unfold pageRounds; omega)
    have total := combined.total
    by_cases residue : 1 ≤ size % 4096 ∧ size % 4096 ≤ 4080
    · have covers : size + 16 ≤ nodeSize t.mem n := by
        rw [total]
        unfold intToU64 pageRounds
        dsimp only
        split <;> omega
      exact ⟨fun _ => Or.inr residue, fun _ => combined.oneCombination inv.chain (by omega) misses (by omega) covers⟩
    · have short : nodeSize t.mem n < uadd 64 16 size := by
        rw [total, intToU64_of_lt (by unfold pageRounds; omega)]
        unfold pageRounds
        omega
      exact ⟨fun one => absurd one (combined.twice inv.chain (by omega) misses short),
        fun either => absurd either (not_or.mpr ⟨fit, residue⟩)⟩

theorem SmallMachine.tail (machine : SmallMachine s) : FreeTail s 0 := by
  intro j lt
  rw [machine.count] at lt
  simp [machine.free j lt]

theorem one_combination_iff_smallMap : ∃ s, initializeAllocator .halts smallMap { mem := fun _ => 0 } = .ok s ∧
    FreeTail s 0 ∧ OneCombination s 5000 := by
  obtain ⟨s, machine⟩ := smallMachine
  refine ⟨s, machine.init, machine.tail, ?_⟩
  exact (one_combination_iff (heapInv_empty machine.table machine.empty) (by decide) (by decide) machine.tail
    (by rw [machine.count]; decide)).mpr (Or.inr (by decide))

/-- Two pages combined for 4096 bytes make a node of 4096, with no room for the header. -/
theorem page_combined_twice : ∃ s, initializeAllocator .halts smallMap { mem := fun _ => 0 } = .ok s ∧
    HeapInv 0x101000 (frameFree s) s [] [] ∧ FreeTail s 0 ∧ 0 + ((4096 + 16 + 4095) / 4096 + 1) ≤ frameCount s ∧
    ¬ OneCombination s 4096 := by
  obtain ⟨s, machine⟩ := smallMachine
  have count := machine.count
  have inv := heapInv_empty machine.table machine.empty
  obtain ⟨n, t, combined⟩ := combineBlocks_tail inv (by decide) machine.tail
    (show 0 + pageRounds 4096 < frameCount s by rw [count]; decide)
  refine ⟨s, machine.init, inv, machine.tail, by rw [count]; decide, ?_⟩
  exact combined.twice inv.chain (by decide) (by simp) (by rw [combined.total]; decide)

end System14
