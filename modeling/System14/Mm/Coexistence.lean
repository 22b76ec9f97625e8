import System14.Mm.HeapRun
import System14.Mm.Isolation
import System14.Mm.UserAccess

/-!
# The heap among page tables

The heap and the page tables take their frames from one allocator. What the heap
does is `Confined` to its own frames, so no address space notices it; and what
is confined to frames of others leaves the heap's invariant alone, because the
frames that others have taken are no longer ones that the heap may take.
-/

namespace System14
open ByteMem Run Radix Chain Extent

variable {mode : Panic} {first size fuel : Nat} {mine free₀ : Nat → Bool} {s t u : Kernel} {nodes : List Nat}
  {live : List Block} {own : Nat → Prop}

/-! ### What the heap's functions leave alone -/

/-- Only memory and the head of the free list differ. -/
def OnlyHeap (s t : Kernel) : Prop := t = { s with mem := t.mem, head := t.head }

theorem OnlyHeap.refl (s : Kernel) : OnlyHeap s s := rfl

theorem OnlyHeap.trans (one : OnlyHeap s t) (two : OnlyHeap t u) : OnlyHeap s u := by
  unfold OnlyHeap at one two ⊢
  rw [two, one]

theorem OnlyHeap.info (only : OnlyHeap s t) : t.globalPagingInfo = s.globalPagingInfo := by
  unfold OnlyHeap at only
  rw [only]

theorem pageAlloc_onlyHeap (mode : Panic) (s : Kernel) : Yields never (pageAlloc mode s) fun r => OnlyHeap s r.2 := by
  unfold pageAlloc
  split
  · exact rfl
  · cases mode with
    | halts => exact id
    | returns => exact rfl

theorem pageFree_onlyHeap (addr : Nat) (s : Kernel) : OnlyHeap s (pageFree addr s) := by
  unfold pageFree
  generalize List.range (frameCount s) = frames
  induction frames generalizing s with
  | nil => exact .refl s
  | cons i frames ih =>
    rw [List.foldl_cons]
    refine OnlyHeap.trans ?_ (ih _)
    split
    · exact rfl
    · exact .refl s

theorem releasePages_onlyHeap (initial n : Nat) (s : Kernel) : OnlyHeap s (releasePages initial n s) := by
  induction n generalizing s with
  | zero => exact .refl s
  | succ n ih => exact (pageFree_onlyHeap _ s).trans (ih _)

theorem combinePages_onlyHeap (initial fuel i numPages : Nat) (s : Kernel) :
    Yields never (combinePages mode initial size fuel i numPages s) fun r => OnlyHeap s r.2 := by
  induction fuel generalizing i numPages s with
  | zero => exact id
  | succ fuel ih =>
    unfold combinePages
    split
    · refine (pageAlloc_onlyHeap mode s).bind fun r taken => ?_
      dsimp only
      split
      · exact taken.trans (releasePages_onlyHeap _ _ _)
      · exact (ih _ _ _).mono fun _ later => taken.trans later
    · exact rfl

theorem combineBlocks_onlyHeap (fuel : Nat) (s : Kernel) :
    Yields never (combineBlocks mode fuel size s) fun r => OnlyHeap s r.2 := by
  unfold combineBlocks
  refine (pageAlloc_onlyHeap mode s).bind fun r taken => ?_
  exact (combinePages_onlyHeap _ _ _ _ _).mono fun _ later => taken.trans later

theorem tryNext_onlyHeap {next : HeapCursor → Kernel → Except Stop (Nat × Kernel)} (size : Nat) (current : HeapCursor)
    (later : ∀ c s, Yields never (next c s) fun r => OnlyHeap s r.2) (s : Kernel) :
    Yields never (tryNext size next current s) fun r => OnlyHeap s r.2 := by
  unfold tryNext
  dsimp only
  split
  · exact id
  · split
    · exact setCursorNext_globals _ _ _
    · exact later _ _

theorem findFrom_onlyHeap (fuel : Nat) (current : HeapCursor) (s : Kernel) :
    Yields never (findFrom mode size fuel current s) fun r => OnlyHeap s r.2 := by
  induction fuel generalizing current s with
  | zero => exact id
  | succ fuel ih =>
    have search := tryNext_onlyHeap size current ih
    unfold findFrom
    split
    · split
      · refine (combineBlocks_onlyHeap fuel s).bind fun r taken => ?_
        dsimp only
        split
        · exact taken
        · exact (ih _ _).mono fun _ later => taken.trans later
      · refine (pageAlloc_onlyHeap mode s).bind fun r taken => ?_
        dsimp only
        split
        · exact taken
        · have created : OnlyHeap r.2 (createNode r.1 4096 r.2) := rfl
          exact (search _).mono fun _ later => (taken.trans created).trans later
    · exact search s

theorem alloc_onlyHeap (fuel size alignment : Nat) (s : Kernel) :
    Yields never (alloc mode fuel size alignment s) fun r => OnlyHeap s r.2 := by
  unfold alloc
  refine (findFrom_onlyHeap fuel none s).bind fun r found => ?_
  dsimp only
  split
  · exact found
  · split
    · exact id
    · split
      · exact found.trans rfl
      · exact found

theorem calloc_onlyHeap (fuel size : Nat) (s : Kernel) : Yields never (calloc mode fuel size s) fun r => OnlyHeap s r.2 := by
  unfold calloc
  refine (alloc_onlyHeap fuel size 1 s).bind fun r given => ?_
  dsimp only
  split
  · exact given
  · exact given.trans rfl

/-! ### The heap's frames -/

/-- The frame at `a` is in the heap's hands. -/
def HeapFrame (first : Nat) (mine : Nat → Bool) (s : Kernel) (a : Nat) : Prop :=
  ∃ i < frameCount s, mine i = true ∧ frameFree s i = false ∧ a = first + 4096 * i

theorem heapByte_iff {x : Nat} :
    HeapByte first mine s x ↔ ∃ a, HeapFrame first mine s a ∧ a ≤ x ∧ x < a + 4096 := by
  constructor
  · rintro ⟨i, lt, here, used, range⟩
    exact ⟨_, ⟨i, lt, here, used, rfl⟩, range⟩
  · rintro ⟨_, ⟨i, lt, here, used, rfl⟩, range⟩
    exact ⟨i, lt, here, used, range⟩

theorem HeapFrame.aligned {a : Nat} (table : FrameTable s first) (frame : HeapFrame first mine s a) : 4096 ∣ a := by
  obtain ⟨i, _, _, _, rfl⟩ := frame
  exact Nat.dvd_add table.aligned (Nat.dvd_mul_right 4096 i)

theorem HeapMove.keeps_used {nodes' : List Nat} {live' live'' : List Block} {i : Nat}
    (move : HeapMove first mine live'' s t) (after : HeapInv first mine t nodes' live')
    (lt : i < frameCount s) (free : frameFree t i = true) : frameFree s i = true := by
  cases used : frameFree s i with
  | true => rfl
  | false =>
    have pool := after.pool i (move.count ▸ lt) free
    obtain ⟨j, _, _, taken, low, high⟩ :=
      move.grow (first + 4096 * i) ⟨i, lt, pool, used, Nat.le_refl _, by omega⟩
    have same : j = i := by omega
    rw [same, free] at taken
    exact nomatch taken

/-- What the heap does is confined to its own frames and to those it takes. -/
theorem HeapMove.confined {nodes' : List Nat} {live' live'' : List Block} (move : HeapMove first mine live'' s t)
    (after : HeapInv first mine t nodes' live') (only : OnlyHeap s t) : Confined first (HeapFrame first mine s) s t := by
  refine ⟨after.table, move.list, move.count, only.info, fun i => move.keeps_used after, ?_⟩
  intro x changed
  rcases move.writes x changed with table | ⟨⟨i, lt, here, used, range⟩, _⟩
  · exact Or.inl table
  · rw [move.count] at lt
    cases before : frameFree s i with
    | false => exact Or.inr (Or.inl ⟨_, ⟨i, lt, here, before, rfl⟩, range⟩)
    | true => exact Or.inr (Or.inr ⟨i, lt, before, used, range⟩)

/-- A frame that the heap has after a change it had before, or it was free. -/
theorem HeapFrame.origin {a : Nat} (count : frameCount t = frameCount s) (frame : HeapFrame first mine t a) :
    HeapFrame first mine s a ∨ ∃ i < frameCount s, frameFree s i = true ∧ a = first + 4096 * i := by
  obtain ⟨i, lt, here, _, rfl⟩ := frame
  rw [count] at lt
  cases before : frameFree s i with
  | false => exact Or.inl ⟨i, lt, here, before, rfl⟩
  | true => exact Or.inr ⟨i, lt, before, rfl⟩

/-! ### What others do -/

/-- The frames that the heap has or may take after others have taken frames from `s` to `t`. -/
def leftTo (mine : Nat → Bool) (s t : Kernel) (i : Nat) : Bool := mine i && (frameFree t i || !frameFree s i)

theorem heapFrame_leftTo {a : Nat} (confined : Confined first own s t) (frame : HeapFrame first mine s a) :
    HeapFrame first (leftTo mine s t) t a := by
  obtain ⟨i, lt, here, used, rfl⟩ := frame
  refine ⟨i, confined.count ▸ lt, ?_, ?_, rfl⟩
  · rw [leftTo, here, used]
    simp
  · cases free : frameFree t i with
    | false => rfl
    | true =>
      rw [confined.taken i lt free] at used
      exact nomatch used

theorem heapFrame_of_leftTo {a : Nat} (count : frameCount t = frameCount s)
    (frame : HeapFrame first (leftTo mine s t) t a) : HeapFrame first mine s a := by
  obtain ⟨i, lt, here, used, rfl⟩ := frame
  rw [leftTo, used] at here
  simp only [Bool.false_or, Bool.and_eq_true, Bool.not_eq_true'] at here
  exact ⟨i, count ▸ lt, here.1, here.2, rfl⟩

theorem Confined.keeps_heap {x : Nat} (confined : Confined first own s t) (table : FrameTable s first)
    (apart : ∀ b, own b → 4096 ∣ b ∧ ¬ HeapFrame first mine s b) (owned : HeapByte first mine s x) : t.mem x = s.mem x := by
  obtain ⟨i, lt, here, used, low, high⟩ := owned
  exact confined.keeps_frame table used (fun b mine => (apart b mine).1)
    (fun mine => (apart _ mine).2 ⟨i, lt, here, used, rfl⟩) low high

/-- Changes confined to frames of others leave the heap as it is. -/
theorem HeapInv.foreign (inv : HeapInv first mine s nodes live) (confined : Confined first own s t) (head : t.head = s.head)
    (apart : ∀ b, own b → 4096 ∣ b ∧ ¬ HeapFrame first mine s b) : HeapInv first (leftTo mine s t) t nodes live := by
  have headers : SameHeaders s.mem t.mem nodes live := SameHeaders.of_bytes inv.large fun e member x has =>
    confined.keeps_heap inv.table apart (inv.inside e member x has)
  have pool : ∀ i < frameCount t, frameFree t i = true → mine i = true := fun i lt free =>
    inv.pool i (confined.count ▸ lt) (confined.taken i (confined.count ▸ lt) free)
  have grow : ∀ x, HeapByte first mine s x → HeapByte first (leftTo mine s t) t x := by
    intro x owned
    obtain ⟨a, frame, range⟩ := heapByte_iff.mp owned
    exact heapByte_iff.mpr ⟨a, heapFrame_leftTo confined frame, range⟩
  have same : extents t.mem nodes live = extents s.mem nodes live := extents_congr headers.size
  have weaker : ∀ x, HeapByte first (leftTo mine s t) t x → HeapByte first mine t x := by
    rintro x ⟨i, lt, here, used, range⟩
    rw [leftTo, Bool.and_eq_true] at here
    exact ⟨i, lt, here.1, used, range⟩
  have kept : HeapInv first mine t nodes live :=
    inv.transport confined.frames pool (fun x _ owned => weaker x (grow x owned)) (by rw [head]) headers
  refine ⟨kept.table, fun i lt free => ?_, kept.chain, kept.large, kept.headers, kept.separate, fun e member x has => ?_⟩
  · rw [leftTo, pool i lt free, free]
    rfl
  · rw [same] at member
    exact grow x (inv.inside e member x has)

/-! ### A page is given back -/

variable {p r : Nat}

/-- The tables of an address space stay when a page is given back that is not one of them. -/
theorem Tables.released (tables : Tables s first r) (low : ∀ i < frameCount s, first + 4096 * i < 2 ^ 40)
    (off : ¬ IsTable s.mem r p) :
    Tables (pageFree p s) first r ∧ (∀ a, IsTable (pageFree p s).mem r a → IsTable s.mem r a) ∧
      ∀ v, translate (pageFree p s).mem r v = translate s.mem r v := by
  obtain ⟨globals, frames, keep, flags⟩ := pageFree_spec tables.frames p
  have list : (pageFree p s).frameList = s.frameList := by rw [globals]
  have count : frameCount (pageFree p s) = frameCount s := by
    rw [globals]
    rfl
  have kept : ∀ a, IsTable s.mem r a → ∀ x, a ≤ x → x < a + 4096 → (pageFree p s).mem x = s.mem x := by
    intro a table x start stop
    apply keep
    intro i lt _
    have outside := (tables.held a table).table
    unfold frameEntry
    omega
  have same : ∀ path l a i, Reaches (tableView s.mem) 3 r path l a →
      tableView (pageFree p s).mem l a i = tableView s.mem l a i :=
    fun path l a i reached => tableView_kept (kept a ⟨_, _, reached⟩)
  have old : ∀ a, IsTable (pageFree p s).mem r a → IsTable s.mem r a := by
    rintro a ⟨path, l, reached⟩
    exact ⟨path, l, reached.of_frame same⟩
  refine ⟨⟨frames, fun i lt _ => low i (count ▸ lt), ?_, Unshared.frame tables.unshared same, ?_⟩, old, fun v => ?_⟩
  · intro a table
    have held := tables.held a (old a table)
    refine ⟨held.aligned, held.nonnull, held.low, by rw [count, list]; exact held.table, fun i lt free => ?_⟩
    rw [count] at lt
    rw [flags i lt] at free
    rcases Bool.or_eq_true_iff.mp free with free | here
    · exact held.used i lt free
    · rintro rfl
      exact off (of_decide_eq_true here ▸ old _ table)
  · intro path l a i reached empty
    have reached' := reached.of_frame same
    rw [same path l a i reached'] at empty
    rw [entryWord_kept (kept a ⟨_, _, reached'⟩)]
    exact tables.blank path l a i reached' empty
  · unfold translate
    rw [lookup_congr fun l a reached => same _ _ _ _ reached]

theorem HeapByte.mono {mine' : Nat → Bool} (more : ∀ i, mine i = true → mine' i = true) {x : Nat}
    (owned : HeapByte first mine s x) : HeapByte first mine' s x := by
  obtain ⟨i, lt, here, range⟩ := owned
  exact ⟨i, lt, more i here, range⟩

theorem HeapInv.mono {mine' : Nat → Bool} (inv : HeapInv first mine s nodes live) (more : ∀ i, mine i = true → mine' i = true) :
    HeapInv first mine' s nodes live :=
  ⟨inv.table, fun i lt free => more i (inv.pool i lt free), inv.chain, inv.large, inv.headers, inv.separate,
    fun e member x has => (inv.inside e member x has).mono more⟩

end System14
