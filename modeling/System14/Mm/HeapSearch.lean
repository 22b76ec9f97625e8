import System14.Mm.HeapInvariant

/-!
# The search for a node

The search loop walks the free list to the first node that is large enough;
when there is none it takes one page, or combines several. A request is clean
when the node it ends up with is used up exactly or leaves room for another
node header, and when the pages it combines are adjacent.
-/

namespace System14
open ByteMem Run Chain Extent

variable {mode : Panic} {first size fuel : Nat} {free₀ : Nat → Bool} {s t : Kernel}
  {nodes pre mid post : List Nat} {live : List Block}

/-! ### The search loop -/

theorem linked_cursor (chain : Linked (nodeNext s.mem) null s.head.next (pre ++ post)) :
    Linked (nodeNext s.mem) null (cursorNext s pre.getLast?) post := by
  rcases List.eq_nil_or_concat pre with rfl | ⟨before, a, rfl⟩
  · exact chain
  · simp only [List.concat_eq_append, List.getLast?_concat, List.append_assoc, List.singleton_append] at chain ⊢
    exact linked_after chain

/-- The end of the list is not where a new node goes. -/
theorem cursor_end {p : Nat} (chain : Linked (nodeNext s.mem) null s.head.next (p :: nodes)) (some : nodes ≠ []) :
    cursorNext s nodes.getLast? = null := by
  have whole : Linked (nodeNext s.mem) null s.head.next ((p :: nodes) ++ []) := by simpa using chain
  have stop : cursorNext s (p :: nodes).getLast? = null := linked_cursor whole
  obtain ⟨a, rest, rfl⟩ := List.exists_cons_of_ne_nil some
  simpa using stop

/-- What steps over each node that is too small steps over a run of them. -/
theorem walk_past {β : Type} (walk : Nat → HeapCursor → β) (size fuel : Nat) (pre mid post : List Nat)
    (out : ∀ c c', walk 0 c = walk 0 c')
    (skips : ∀ fuel current, cursorNext s current ≠ null → nodeSize s.mem (cursorNext s current) < uadd 64 16 size →
      walk (fuel + 1) current = walk fuel (some (cursorNext s current)))
    (chain : Linked (nodeNext s.mem) null s.head.next (pre ++ (mid ++ post)))
    (misses : ∀ a ∈ mid, nodeSize s.mem a < uadd 64 16 size) :
    walk fuel pre.getLast? = walk (fuel - mid.length) (pre ++ mid).getLast? := by
  induction mid generalizing pre fuel with
  | nil => simp
  | cons a mid ih =>
    cases fuel with
    | zero =>
      rw [Nat.zero_sub]
      exact out _ _
    | succ fuel =>
      have cursor := linked_cursor chain
      have here : cursorNext s pre.getLast? = a := cursor.1
      have nonnull : a ≠ null := cursor.2.1
      have small := misses a List.mem_cons_self
      have step := skips fuel pre.getLast? (by rw [here]; exact nonnull) (by rw [here]; exact small)
      have rest := ih fuel (pre ++ [a]) (by simpa using chain)
        fun b member => misses b (List.mem_cons_of_mem _ member)
      rw [step, here, show some a = (pre ++ [a]).getLast? by simp, rest]
      simp

theorem findFrom_skip (mode : Panic) (size fuel : Nat) (pre mid post : List Nat)
    (chain : Linked (nodeNext s.mem) null s.head.next (pre ++ (mid ++ post)))
    (misses : ∀ a ∈ mid, nodeSize s.mem a < uadd 64 16 size) :
    findFrom mode size fuel pre.getLast? s = findFrom mode size (fuel - mid.length) (pre ++ mid).getLast? s := by
  apply walk_past (findFrom mode size · · s) size fuel pre mid post _ _ chain misses
  · intro c c'
    rfl
  · intro fuel current nonnull small
    simp only [findFrom, tryNext, if_neg nonnull, if_neg (Nat.not_le.mpr small)]

theorem findFrom_hit {n : Nat} (mode : Panic) (size fuel : Nat) (pre : List Nat)
    (chain : Linked (nodeNext s.mem) null s.head.next (pre ++ n :: post))
    (fits : uadd 64 16 size ≤ nodeSize s.mem n) :
    findFrom mode size (fuel + 1) pre.getLast? s =
      .ok (n, setCursorNext s (nodeNext s.mem n) pre.getLast?) := by
  have cursor := linked_cursor chain
  have here : cursorNext s pre.getLast? = n := cursor.1
  have nonnull : n ≠ null := cursor.2.1
  simp only [findFrom, tryNext, here, if_neg nonnull, if_pos fits]

theorem findAndRemoveNode_hit {n : Nat} (mode : Panic) (pre : List Nat)
    (chain : Linked (nodeNext s.mem) null s.head.next (pre ++ n :: post))
    (misses : ∀ a ∈ pre, nodeSize s.mem a < uadd 64 16 size) (fits : uadd 64 16 size ≤ nodeSize s.mem n)
    (enough : pre.length < fuel) :
    findAndRemoveNode mode fuel size s = .ok (n, setCursorNext s (nodeNext s.mem n) pre.getLast?) := by
  have skip := findFrom_skip mode size fuel [] pre _ chain misses
  obtain ⟨rest, left⟩ : ∃ rest, fuel - pre.length = rest + 1 := ⟨fuel - pre.length - 1, by omega⟩
  rw [List.getLast?_nil, List.nil_append, left, findFrom_hit mode size rest pre chain fits] at skip
  exact skip

theorem first_miss_or_hit (s : Kernel) (nodes : List Nat) (need : Nat) :
    (∀ a ∈ nodes, nodeSize s.mem a < need) ∨
      ∃ pre n post, nodes = pre ++ n :: post ∧ (∀ a ∈ pre, nodeSize s.mem a < need) ∧ need ≤ nodeSize s.mem n := by
  cases search : nodes.find? fun a => need ≤ nodeSize s.mem a with
  | none => exact Or.inl fun a member => by simpa using List.find?_eq_none.mp search a member
  | some n =>
    obtain ⟨fits, pre, post, split, misses⟩ := List.find?_eq_some_iff_append.mp search
    exact Or.inr ⟨pre, n, post, split, fun b before => by simpa using misses b before, by simpa using fits⟩

theorem findAndRemoveNode_end (mode : Panic) (size fuel : Nat) (chain : Linked (nodeNext s.mem) null s.head.next nodes)
    (misses : ∀ a ∈ nodes, nodeSize s.mem a < uadd 64 16 size) :
    findAndRemoveNode mode fuel size s = findFrom mode size (fuel - nodes.length) nodes.getLast? s ∧
      cursorNext s nodes.getLast? = null := by
  have whole : Linked (nodeNext s.mem) null s.head.next (nodes ++ []) := by simpa using chain
  have skip := findFrom_skip mode size fuel [] nodes [] whole misses
  rw [List.getLast?_nil, List.nil_append] at skip
  exact ⟨skip, linked_cursor whole⟩

/-! ### Combining pages -/

def pageRounds (size : Nat) : Nat := (size + 4095) / 4096

/-- The first free frame is followed by `k` more, unless memory ends there. -/
def FreeRun (s : Kernel) (k : Nat) : Prop :=
  ∀ i < frameCount s, frameFree s i = true → (∀ j < i, frameFree s j = false) →
    ∀ j ≤ k, i + j < frameCount s → frameFree s (i + j) = true

def Fault (e : Stop) : Prop := e ≠ .panic "No free mem left!"

/-- A fault, or any stop at all when there is `enough` to go on with. -/
def Unforced (enough : Prop) (e : Stop) : Prop := Fault e ∨ enough

theorem pageAlloc_yields (table : FrameTable s first) :
    Yields (Unforced (∃ i < frameCount s, frameFree s i = true)) (pageAlloc .halts s) fun r =>
      ∃ i, Granted s first i r.1 r.2 := by
  rcases first_free_or_none s with none | ⟨i, lt, free, least⟩
  · rw [pageAlloc_exhausted none]
    rintro (fault | ⟨i, lt, free⟩)
    · exact fault rfl
    · rw [none i lt] at free
      cases free
  · obtain ⟨u, call, granted⟩ := pageAlloc_grants .halts table lt free least
    rw [call]
    exact ⟨i, granted⟩

theorem Granted.frame_eq {i k p : Nat} (granted : Granted s first i p t) (lt : k < frameCount s → frameFree s k = true)
    (used : ∀ j < k, j < frameCount s → frameFree s j = false) : i = k := by
  have free := granted.free
  have bound := granted.lt
  rcases Nat.lt_trichotomy i k with below | same | above
  · rw [used i below bound] at free
    exact nomatch free
  · exact same
  · have notFree := granted.least k above
    rw [lt (by omega)] at notFree
    exact nomatch notFree

theorem intToU64_of_lt {n : Nat} (small : n < 2 ^ 31) : intToU64 n = n := by
  unfold intToU64
  simp only [Nat.mod_eq_of_lt (show n < 2 ^ 32 by omega), if_pos small]

/-- The frames `i` to `i + m` are in the heap's hands and nothing uses them yet;
those that follow, up to `i + k`, are the next to be handed out. -/
structure InHand (first : Nat) (free₀ : Nat → Bool) (i m k : Nat) (s : Kernel) (nodes : List Nat) (live : List Block) :
    Prop where
  used : ∀ j < i + m + 1, j < frameCount s → frameFree s j = false
  free : ∀ j ≤ k, m < j → i + j < frameCount s → frameFree s (i + j) = true
  owned : ∀ x, first + 4096 * i ≤ x → x < first + 4096 * i + (4096 * m + 4096) → HeapByte first free₀ s x
  apart : ∀ e ∈ extents s.mem nodes live, (Extent.mk (first + 4096 * i) (4096 * m + 4096)).Apart e

theorem HeapInv.inHand {i k : Nat} (inv : HeapInv first free₀ s nodes live)
    (granted : Granted s first i (first + 4096 * i) t) (adjacent : FreeRun s k) :
    InHand first free₀ i 0 k t nodes live := by
  have count := granted.count
  obtain ⟨_, _, fresh, added⟩ := inv.granted granted
  refine ⟨?_, ?_, added, fresh⟩
  · intro j below lt
    rw [count] at lt
    rw [granted.taken j lt]
    split
    · rfl
    · exact granted.least j (by omega)
  · intro j le above lt
    rw [count] at lt
    rw [granted.taken (i + j) lt, if_neg (by omega)]
    exact adjacent i granted.lt granted.free granted.least j le lt

theorem InHand.next {i i' m k p : Nat} (hand : InHand first free₀ i m k s nodes live)
    (inv : HeapInv first free₀ s nodes live) (more : m < k) (granted : Granted s first i' p t) :
    InHand first free₀ i (m + 1) k t nodes live := by
  have frame : i' = i + (m + 1) :=
    granted.frame_eq (fun lt => hand.free (m + 1) (by omega) (by omega) lt) hand.used
  subst frame
  have page : p = first + 4096 * (i + (m + 1)) := granted.page
  have count := granted.count
  obtain ⟨kept, _, fresh, added⟩ := inv.granted granted
  constructor
  · intro j below lt
    rw [count] at lt
    rw [granted.taken j lt]
    split
    · rfl
    · exact hand.used j (by omega) lt
  · intro j le above lt
    rw [count] at lt
    rw [granted.taken (i + j) lt, if_neg (by omega)]
    exact hand.free j le (by omega) lt
  · intro x low high
    by_cases new : p ≤ x
    · exact added x new (by lia)
    · exact (hand.owned x low (by lia)).granted granted
  · intro e member
    have left : (Extent.mk (first + 4096 * i) (4096 * m + 4096)).Apart e := by
      apply hand.apart
      rw [← extents_congr (inv.headers_granted granted).size]
      exact member
    have right := fresh e member
    have size := kept.extent_pos member
    simp only [Extent.Apart] at left right ⊢
    lia

theorem combinePages_yields {i k m : Nat} (fuel : Nat) (inv : HeapInv first free₀ s nodes live)
    (rounds : pageRounds size = k) (bounded : size + 4096 ≤ 2 ^ 64) (reached : m ≤ k) (enough : k < fuel + m)
    (hand : InHand first free₀ i m k s nodes live) :
    Yields (Unforced (i + k < frameCount s)) (combinePages .halts (first + 4096 * i) size fuel (4096 * m) m s) fun r =>
      ∃ u, r = (.success, createNode (first + 4096 * i) (intToU64 (k * 4096)) u) ∧ HeapInv first free₀ u nodes live ∧
        InHand first free₀ i k k u nodes live ∧ HeapMove first free₀ live s u ∧ SameHeaders s.mem u.mem nodes live := by
  induction fuel generalizing m s with
  | zero => omega
  | succ fuel ih =>
    unfold pageRounds at rounds
    unfold combinePages
    by_cases more : 4096 * m < size
    · rw [if_pos more]
      have next : i + k < frameCount s → ∃ j < frameCount s, frameFree s j = true := fun lt =>
        ⟨i + (m + 1), by omega, hand.free (m + 1) (by omega) (by omega) (by omega)⟩
      apply ((pageAlloc_yields inv.table).weaken fun e stop => stop.imp_right next).bind
      rintro ⟨p, u⟩ ⟨i', granted⟩
      change Granted s first i' p u at granted
      obtain ⟨kept, move, _, added⟩ := inv.granted granted
      have nonnull : p ≠ null := ((added p (le_refl _) (by omega)).bounds kept.table).2.2
      simp only [if_neg nonnull]
      rw [uadd_of_lt (by omega), show 4096 * m + 4096 = 4096 * (m + 1) by omega]
      have rest := ih kept (by omega) (by omega) (hand.next inv (by omega) granted)
      rw [granted.count] at rest
      apply rest.mono
      intro r combined
      obtain ⟨v, result, after, all, moved, headers⟩ := combined
      exact ⟨v, result, after, all, move.trans moved, (inv.headers_granted granted).trans headers⟩
    · rw [if_neg more]
      have last : m = k := by omega
      subst last
      exact ⟨s, rfl, inv, hand, ⟨rfl, rfl, fun _ h => h, fun _ changed => absurd rfl changed⟩, .refl _ _ _⟩

/-- The first free frame is followed by `k` more. -/
def Room (s : Kernel) (k : Nat) : Prop :=
  ∃ i, i + k < frameCount s ∧ frameFree s i = true ∧ ∀ j < i, frameFree s j = false

theorem combineBlocks_yields (inv : HeapInv first free₀ s nodes live) (bounded : size + 4096 ≤ 2 ^ 64)
    (adjacent : FreeRun s (pageRounds size)) (enough : pageRounds size < fuel) :
    Yields (Unforced (Room s (pageRounds size))) (combineBlocks .halts fuel size s) fun r =>
      ∃ i u, r = (.success, createNode (first + 4096 * i) (intToU64 (pageRounds size * 4096)) u) ∧
        HeapInv first free₀ u nodes live ∧ InHand first free₀ i (pageRounds size) (pageRounds size) u nodes live ∧
        HeapMove first free₀ live s u ∧ SameHeaders s.mem u.mem nodes live := by
  unfold combineBlocks
  have some : Room s (pageRounds size) → ∃ i < frameCount s, frameFree s i = true := fun ⟨i, lt, free, _⟩ =>
    ⟨i, by omega, free⟩
  apply ((pageAlloc_yields inv.table).weaken fun e stop => stop.imp_right some).bind
  rintro ⟨p, u⟩ ⟨i, granted⟩
  change Granted s first i p u at granted
  have page : p = first + 4096 * i := granted.page
  subst page
  obtain ⟨kept, move, _, _⟩ := inv.granted granted
  have rounds := combinePages_yields fuel kept rfl bounded (Nat.zero_le _) enough (inv.inHand granted adjacent)
  have same : Room s (pageRounds size) → i + pageRounds size < frameCount u := by
    rintro ⟨j, lt, free, least⟩
    rw [granted.count, granted.frame_eq (fun _ => free) fun j' below _ => least j' below]
    exact lt
  apply (rounds.weaken fun e stop => stop.imp_right same).mono
  intro r combined
  obtain ⟨v, result, after, hand, moved, headers⟩ := combined
  exact ⟨i, v, result, after, hand, move.trans moved, (inv.headers_granted granted).trans headers⟩

/-- The node goes in front of the others, whatever size is recorded in it. -/
theorem InHand.front {i k : Nat} (hand : InHand first free₀ i k k s nodes live) (inv : HeapInv first free₀ s nodes live)
    (total : Nat) :
    Linked (nodeNext (createNode (first + 4096 * i) total s).mem) null (first + 4096 * i) ((first + 4096 * i) :: nodes) ∧
      SameHeaders s.mem (createNode (first + 4096 * i) total s).mem nodes live := by
  have headers : SameHeaders s.mem (createNode (first + 4096 * i) total s).mem nodes live :=
    SameHeaders.of_apart inv.large (fun x => createNode_writes (by omega)) hand.apart
  have nonnull := ((hand.owned (first + 4096 * i) (le_refl _) (by omega)).bounds inv.table).2.2
  exact ⟨linked_push inv.chain nonnull (createNode_next inv.head_lt) headers.next, headers⟩

/-- The node that the combined pages make, when the count of their bytes is not negative as an `int`. -/
theorem InHand.create {i k : Nat} (hand : InHand first free₀ i k k s nodes live) (inv : HeapInv first free₀ s nodes live)
    (positive : 0 < k) (small : 4096 * k < 2 ^ 31) :
    HeapInv first free₀ (createNode (first + 4096 * i) (intToU64 (k * 4096)) s) ((first + 4096 * i) :: nodes) live ∧
      nodeSize (createNode (first + 4096 * i) (intToU64 (k * 4096)) s).mem (first + 4096 * i) = 4096 * k ∧
      HeapMove first free₀ live s (createNode (first + 4096 * i) (intToU64 (k * 4096)) s) := by
  have amount : intToU64 (k * 4096) = 4096 * k := by
    rw [intToU64_of_lt (by omega), Nat.mul_comm]
  have part : (Extent.mk (first + 4096 * i) (4096 * k)).Within ⟨first + 4096 * i, 4096 * k + 4096⟩ :=
    ⟨le_refl _, by simp only; omega⟩
  obtain ⟨after, moved⟩ := inv.create (first + 4096 * i) (4096 * k) (by omega) (by omega)
    (fun e member => part.apart (hand.apart e member)) (fun x low high => hand.owned x low (by omega))
  rw [amount]
  exact ⟨after, createNode_size (by omega), moved⟩

/-! ### The search as a whole -/

/-- A node of `total` bytes serves a request for `size` bytes exactly, or with
room for the header of another node. -/
def SplitClean (total size : Nat) : Prop := total = 16 + size ∨ 32 + size ≤ total

theorem SplitClean.covers {total : Nat} (split : SplitClean total size) : 16 + size ≤ total := by
  unfold SplitClean at split
  omega

/-- A search for `size` bytes among the free nodes `nodes` ends with a node
whose size is in `P`: the first that fits, else a new page, else combined pages. -/
def Served (P : Nat → Prop) (s : Kernel) (nodes : List Nat) (size : Nat) : Prop :=
  match nodes.find? fun a => 16 + size ≤ nodeSize s.mem a with
  | some a => P (nodeSize s.mem a)
  | none =>
    -- A page appended behind other nodes is linked at the head, where the cursor no longer looks.
    if size + 16 < 4096 then nodes = [] ∧ P 4096
    else P (4096 * pageRounds size) ∧ 4096 * pageRounds size < 2 ^ 31 ∧ FreeRun s (pageRounds size)

theorem uadd_header (wide : size + 16 < 2 ^ 64) : uadd 64 16 size = 16 + size ∧ uadd 64 size 16 = size + 16 :=
  ⟨uadd_of_lt (by omega), uadd_of_lt wide⟩

/-- What a search that returns leaves behind: the node it found, off the list and large enough. -/
structure Found (first : Nat) (free₀ : Nat → Bool) (live : List Block) (P : Nat → Prop) (s : Kernel) (n : Nat)
    (t : Kernel) : Prop where
  inv : ∃ nodes, HeapInv first free₀ t nodes (⟨n + 16, nodeSize t.mem n - 16⟩ :: live)
  move : HeapMove first free₀ live s t
  size : P (nodeSize t.mem n)

variable {P : Nat → Prop}

theorem HeapInv.found {n : Nat} (pre : List Nat) (inv : HeapInv first free₀ s (pre ++ n :: post) live)
    (split : P (nodeSize s.mem n)) :
    Found first free₀ live P s n (setCursorNext s (nodeNext s.mem n) pre.getLast?) := by
  obtain ⟨taken, move, _, sizes⟩ := inv.take
  have kept := sizes n (by simp)
  refine ⟨⟨pre ++ post, ?_⟩, move, ?_⟩
  · rw [kept]
    exact taken
  · rw [kept]
    exact split

theorem Found.after {n : Nat} {u : Kernel} (move : HeapMove first free₀ live s u)
    (found : Found first free₀ live P u n t) : Found first free₀ live P s n t :=
  ⟨found.inv, move.trans found.move, found.size⟩

theorem findFrom_front {n : Nat} (mode : Panic) (fuel : Nat) (inv : HeapInv first free₀ s (n :: post) live)
    (wide : size + 16 < 2 ^ 64) (covers : ∀ total, P total → 16 + size ≤ total) (split : P (nodeSize s.mem n)) :
    Yields Fault (findFrom mode size (fuel + 1) none s) fun r => Found first free₀ live P s r.1 r.2 := by
  have hit := findFrom_hit mode size fuel [] inv.chain
    (by rw [(uadd_header wide).1]; exact covers _ split)
  rw [List.getLast?_nil] at hit
  rw [hit]
  exact inv.found [] split

theorem findAndRemoveNode_yields (inv : HeapInv first free₀ s nodes live) (wide : size + 16 < 2 ^ 64)
    (covers : ∀ total, P total → 16 + size ≤ total) (clean : Served P s nodes size)
    (enough : nodes.length + pageRounds size + 3 ≤ fuel) :
    Yields Fault (findAndRemoveNode .halts fuel size s) fun r => Found first free₀ live P s r.1 r.2 := by
  obtain ⟨sum, sum'⟩ := uadd_header wide
  unfold Served at clean
  cases search : nodes.find? fun a => 16 + size ≤ nodeSize s.mem a with
  | some a =>
    simp only [search] at clean
    obtain ⟨fits, pre, post, rfl, misses⟩ := List.find?_eq_some_iff_append.mp search
    simp only [List.length_append, List.length_cons] at enough
    rw [findAndRemoveNode_hit .halts pre inv.chain (fun b member => by have := misses b member; simp at this; omega)
      (by simp at fits; omega) (by omega)]
    exact inv.found pre clean
  | none =>
    simp only [search] at clean
    have misses := List.find?_eq_none.mp search
    obtain ⟨skip, stop⟩ := findAndRemoveNode_end .halts size fuel inv.chain
      fun b member => by have := misses b member; simp at this; omega
    obtain ⟨rest, left⟩ : ∃ rest, fuel - nodes.length = rest + 1 := ⟨fuel - nodes.length - 1, by omega⟩
    rw [skip, left, findFrom, if_pos stop, sum']
    by_cases page : size + 16 < 4096
    · rw [if_pos page] at clean
      obtain ⟨rfl, split⟩ := clean
      rw [if_neg (by omega)]
      apply ((pageAlloc_yields inv.table).weaken fun e => Or.inl).bind
      rintro ⟨p, u⟩ ⟨i, granted⟩
      change Granted s first i p u at granted
      obtain ⟨kept, move, fresh, added⟩ := inv.granted granted
      have nonnull : p ≠ null := ((added p (le_refl _) (by omega)).bounds kept.table).2.2
      obtain ⟨created, moved⟩ := kept.create _ 4096 (by omega) (by omega) fresh added
      have total : nodeSize (createNode p 4096 u).mem p = 4096 := createNode_size (by omega)
      have found := findFrom_front .halts rest created wide covers (by rw [total]; exact split)
      have cursor : cursorNext (createNode p 4096 u) none ≠ null := nonnull
      rw [findFrom, if_neg cursor] at found
      simp only [if_neg nonnull]
      exact found.mono fun r h => h.after (move.trans moved)
    · rw [if_neg page] at clean
      obtain ⟨split, small, adjacent⟩ := clean
      rw [if_pos (by omega)]
      have positive : 0 < pageRounds size := by
        unfold pageRounds
        omega
      have bounded : size + 4096 ≤ 2 ^ 64 := by
        unfold pageRounds at small
        omega
      apply ((combineBlocks_yields inv bounded adjacent (by omega)).weaken fun e => Or.inl).bind
      rintro r ⟨i, u, rfl, after, hand, moved, _⟩
      obtain ⟨created, total, moved'⟩ := hand.create after positive small
      obtain ⟨rest, rfl⟩ : ∃ k, rest = k + 1 := ⟨rest - 1, by omega⟩
      have found := findFrom_front .halts rest created wide covers (by rw [total]; exact split)
      exact found.mono fun r h => h.after (moved.trans moved')

end System14
