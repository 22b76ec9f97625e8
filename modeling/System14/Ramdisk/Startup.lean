import System14.Mm.FirstPage
import System14.Mm.MemoryManager
import System14.Ramdisk.RoundTrip

/-!
# The ramdisk on the kernel's heap

The nodes of the ramdisk are the first blocks of the heap. They come from one
page, and a page has room for thirty of them. The search for a thirty-first
finds the rest of the page too small and follows the null pointer behind it.
-/

namespace System14
open ByteMem Run Chain Extent

/-! ### `tar.c` and `heap.c` -/

/-- The kernel and the globals of `tar.c`. -/
structure Disk where
  kernel : Kernel
  filehead : Nat := null
  ramdiskInitialized : Bool := false
  allocations : Nat := 0

namespace Disk

def ramdisk (d : Disk) : Ramdisk := ⟨d.kernel.mem, d.filehead, d.ramdiskInitialized, d.allocations⟩

def update (k : Kernel) (r : Ramdisk) : Disk :=
  ⟨{ k with mem := r.mem }, r.filehead, r.ramdiskInitialized, r.allocations⟩

/-- `InsertEntry`, with the heap's `malloc`. -/
def insertEntry (fuel filePath fileSize fileBegin : Nat) (d : Disk) : Except Stop Disk := do
  let (node, k) ← malloc .halts fuel FileNode.bytes d.kernel
  let r ← System14.insertEntry ⟨fun _ => node, fun _ _ => k.mem⟩ fuel filePath fileSize fileBegin d.ramdisk
  return update k r

def initializeLoop (callFuel : Nat) : Nat → Nat → Disk → Except Stop Disk
  | 0, _, _ => .error .outOfFuel
  | fuel + 1, rdstart, d =>
    if d.kernel.mem rdstart ≠ 0 then do
      let d ← d.insertEntry callFuel rdstart (decodeValue d.kernel.mem (rdstart + 124)) (uadd 64 rdstart 512)
      let span := alignUp 32 (uadd 32 512 (decodeValue d.kernel.mem (rdstart + 124))) 512
      initializeLoop callFuel fuel (uadd 64 rdstart span) d
    else .ok { d with ramdiskInitialized := true }

def initializeRamdisk (fuel ramdiskOffset : Nat) (d : Disk) : Except Stop Disk := initializeLoop fuel fuel ramdiskOffset d

end Disk

variable {first size : Nat} {free₀ : Nat → Bool} {s t u : Kernel} {nodes : List Nat} {live : List Block}

/-! ### Nodes in a page -/

/-- The blocks of the first `k` nodes. -/
def nodeBlocks (page : Nat) : Nat → List Block
  | 0 => []
  | k + 1 => ⟨page + 136 * k + 16, FileNode.bytes⟩ :: nodeBlocks page k

def pageNodes (page : Nat) (touch : Nat → Mem → Mem) : NodeMemory := ⟨fun k => page + 136 * k + 16, touch⟩

theorem mem_nodeBlocks {page j k : Nat} (earlier : j < k) :
    (⟨page + 136 * j + 16, FileNode.bytes⟩ : Block) ∈ nodeBlocks page k := by
  induction k with
  | zero => exact absurd earlier (Nat.not_lt_zero j)
  | succ k ih =>
    rcases Nat.lt_succ_iff_lt_or_eq.mp earlier with before | rfl
    · exact List.mem_cons_of_mem _ (ih before)
    · exact List.mem_cons_self

theorem pageNodes_fresh {page lo hi count : Nat} {touch : Nat → Mem → Mem} (fits : page + 4096 ≤ 2 ^ 64) (few : count ≤ 30)
    (outside : page + 4096 ≤ lo ∨ hi ≤ page)
    (quiet : ∀ k < count, ∀ m x, lo ≤ x ∧ x < hi ∨ (∃ j < k, page + 136 * j + 16 ≤ x ∧ x < page + 136 * j + 136) →
      touch k m x = m x) : (pageNodes page touch).Fresh lo hi count where
  nonnull k _ := by
    show page + 136 * k + 16 ≠ 0
    omega
  fits k less := by
    show page + 136 * k + 16 + 120 ≤ 2 ^ 64
    omega
  outside k less := by
    show page + 136 * k + 16 + 120 ≤ lo ∨ hi ≤ page + 136 * k + 16
    omega
  apart k less j earlier := by
    show page + 136 * j + 16 + 120 ≤ page + 136 * k + 16 ∨ page + 136 * k + 16 + 120 ≤ page + 136 * j + 16
    omega
  quiet := quiet

/-- Memory after the call of `malloc` for node number `k`, when it was `before`. -/
noncomputable def touchOnce (k : Nat) (before after : Mem) (j : Nat) (m : Mem) : Mem :=
  have := Classical.propDecidable (j = k ∧ m = before)
  if j = k ∧ m = before then after else m

theorem touchOnce_call (k : Nat) (before after : Mem) : touchOnce k before after k before = after := if_pos ⟨rfl, rfl⟩

theorem touchOnce_quiet {k j x : Nat} {before after m : Mem} (quiet : j = k → after x = before x) :
    touchOnce k before after j m x = m x := by
  unfold touchOnce
  split
  next here => rw [here.2, quiet here.1]
  next => rfl

/-- All that has been allocated since `s` are the nodes of the ramdisk, at the front of `page`. -/
structure Disk.Nodes (first page : Nat) (s : Kernel) (d : Disk) : Prop where
  start : d.allocations = 0 → d.kernel = s
  heap : HeapInv first (frameFree s) d.kernel (if d.allocations = 0 then [] else [page + 136 * d.allocations])
    (nodeBlocks page d.allocations)
  rest : 0 < d.allocations → nodeSize d.kernel.mem (page + 136 * d.allocations) = 4096 - 136 * d.allocations
  move : HeapMove first (frameFree s) [] s d.kernel
  only : OnlyHeap s d.kernel
  spare : 0 < freeFrames d.kernel

variable {page lo hi : Nat} {d : Disk}

theorem Disk.Nodes.slice (nodes : d.Nodes first page s) (few : d.allocations < 30) (free : FirstFree first s page)
    (two : 2 ≤ freeFrames s) :
    ∃ u, Sliced first (frameFree s) (nodeBlocks page d.allocations) (page + 136 * d.allocations)
        (4096 - 136 * d.allocations) FileNode.bytes d.kernel u ∧ 0 < freeFrames u := by
  have heap := nodes.heap
  by_cases none : d.allocations = 0
  · rw [if_pos none] at heap
    rw [← nodes.start none] at free two
    obtain ⟨u, sliced, taken, _⟩ := malloc_new_page heap (show 32 + FileNode.bytes ≤ 4096 by decide) free
    rw [none] at sliced ⊢
    exact ⟨u, sliced, by omega⟩
  · have rest := nodes.rest (by omega)
    rw [if_neg none] at heap
    obtain ⟨u, sliced, same, _⟩ := malloc_rest heap (show 32 + FileNode.bytes ≤ nodeSize d.kernel.mem _ by
      rw [rest]
      unfold FileNode.bytes
      omega)
    rw [rest] at sliced
    exact ⟨u, sliced, by rw [same.freeFrames]; exact nodes.spare⟩

/-- The bytes from `lo` up to `hi` are outside the memory that the allocator manages. -/
def Kernel.Outside (first : Nat) (s : Kernel) (lo hi : Nat) : Prop :=
  hi ≤ s.frameList ∨ first + 4096 * frameCount s ≤ lo

theorem HeapMove.outside {x : Nat} (move : HeapMove first free₀ live s t) (table : FrameTable t first)
    (outside : s.Outside first lo hi) (low : lo ≤ x) (high : x < hi) : t.mem x = s.mem x := by
  by_contra changed
  have count := move.count
  have list := move.list
  have above := table.above
  rcases move.writes x changed with table' | ⟨byte, _⟩
  · rcases outside with below | behind
    · omega
    · omega
  · have bounds := byte.bounds table
    have top := byte.top
    rcases outside with below | behind
    · omega
    · omega

theorem HeapMove.outside_iff (move : HeapMove first free₀ live s t) : t.Outside first lo hi ↔ s.Outside first lo hi := by
  unfold Kernel.Outside
  rw [move.list, move.count]

theorem FirstFree.outside (free : FirstFree first s page) (table : FrameTable s first) (outside : s.Outside first lo hi) :
    page + 4096 ≤ 2 ^ 64 ∧ first ≤ page ∧ (page + 4096 ≤ lo ∨ hi ≤ page) := by
  obtain ⟨i, lt, _, _, rfl⟩ := free
  have fits := table.fits
  have above := table.above
  refine ⟨by omega, by omega, ?_⟩
  rcases outside with below | behind
  · omega
  · omega

/-- What the heap does leaves the nodes alone that it has handed out. -/
theorem HeapMove.keeps_nodes {j k x : Nat} (move : HeapMove first free₀ (nodeBlocks page k) s t) (table : FrameTable s first)
    (above : first ≤ page) (earlier : j < k) (low : page + 136 * j + 16 ≤ x) (high : x < page + 136 * j + 136) :
    t.mem x = s.mem x := by
  by_contra changed
  have behind := table.above
  rcases move.writes x changed with inTable | ⟨_, off⟩
  · omega
  · refine off _ (mem_nodeBlocks earlier) ⟨?_, ?_⟩
    · show page + 136 * j + 16 - 16 ≤ x
      omega
    · show x < page + 136 * j + 16 - 16 + (16 + 120)
      omega

/-- `InsertEntry` asks `malloc` once, and `given` is asked the same. -/
theorem insertEntry_once {given : NodeMemory} {r : Ramdisk} {m : Mem} (touch : given.touch r.allocations r.mem = m)
    (fuel a n b : Nat) :
    insertEntry ⟨fun _ => given.node r.allocations, fun _ _ => m⟩ fuel a n b r = insertEntry given fuel a n b r := by
  unfold insertEntry
  rw [← touch]

/-- Registering a file takes the next node of the page. -/
theorem Disk.Nodes.insert {a : Nat} {f : TarFile} {entries : List Entry} (nodes : d.Nodes first page s)
    (few : d.allocations < 30) (free : FirstFree first s page) (two : 2 ≤ freeFrames s) (table : FrameTable s first)
    (outside : s.Outside first lo hi) (listing : Listing (pageNodes page fun _ m => m) lo hi d.ramdisk entries)
    (entry : HoldsEntry d.kernel.mem a f) (low : lo ≤ a) (high : a + f.span < hi) (bound : hi ≤ 2 ^ 64) :
    ∃ e, (∀ fuel > 99, d.insertEntry fuel a f.content.length (a + 512) = .ok e) ∧ e.Nodes first page s ∧
      Listing (pageNodes page fun _ m => m) lo hi e.ramdisk (⟨page + 136 * d.allocations + 16, a + 512, f⟩ :: entries) ∧
      e.allocations = d.allocations + 1 ∧ ∀ x, lo ≤ x → x < hi → e.kernel.mem x = d.kernel.mem x := by
  obtain ⟨u, sliced, spare⟩ := nodes.slice few free two
  obtain ⟨fits, above, apart⟩ := free.outside table outside
  obtain ⟨touch, here⟩ : ∃ touch, touch = touchOnce d.allocations d.kernel.mem u.mem := ⟨_, rfl⟩
  have called : touch d.allocations d.kernel.mem = u.mem := here ▸ touchOnce_call ..
  -- The heap writes neither to the archive nor to the nodes it has handed out before.
  have kept : ∀ x, lo ≤ x ∧ x < hi ∨ (∃ j < d.allocations, page + 136 * j + 16 ≤ x ∧ x < page + 136 * j + 136) →
      u.mem x = d.kernel.mem x := by
    rintro x (⟨low, high⟩ | ⟨j, earlier, low, high⟩)
    · exact sliced.move.outside sliced.heap.table (nodes.move.outside_iff.mpr outside) low high
    · exact sliced.move.keeps_nodes nodes.heap.table above earlier low high
  have fresh : (pageNodes page touch).Fresh lo hi 30 :=
    pageNodes_fresh fits (le_refl 30) apart fun k _ m x wanted => by
      rw [here]
      exact touchOnce_quiet fun same => kept x (same ▸ wanted)
  have listing' : Listing (pageNodes page touch) lo hi d.ramdisk entries :=
    ⟨listing.linked, listing.nodes, listing.registered, listing.range, listing.contents⟩
  obtain ⟨r, run, listed, handed, image⟩ := listing'.insert fresh few entry low high bound
  have short := f.short
  have path : CString d.ramdisk.mem a f.name := entry.path
  have span : f.span = 512 + f.padded := rfl
  have quiet : ∀ x, a ≤ x → x ≤ a + f.name.length → (pageNodes page touch).touch d.ramdisk.allocations d.ramdisk.mem x =
      d.ramdisk.mem x := fun x below past => (congrFun called x).trans (kept x (Or.inl ⟨by omega, by omega⟩))
  obtain ⟨r', run', _, _, _, _, _, others⟩ := insertEntry_short f.content.length (a + 512) path short quiet (by
    show page + 136 * d.allocations + 16 + 120 ≤ a ∨ a + f.name.length < page + 136 * d.allocations + 16
    omega)
  have same : r' = r := Except.ok.inj ((run' 100 (by decide)).symm.trans (run 100 (by decide)))
  have others : ∀ x, x < page + 136 * d.allocations + 16 ∨ page + 136 * d.allocations + 16 + 120 ≤ x → r.mem x = u.mem x :=
    fun x off => (same ▸ others x off).trans (congrFun called x)
  have writes : ∀ x, r.mem x ≠ u.mem x →
      page + 136 * d.allocations + 16 ≤ x ∧ x < page + 136 * d.allocations + 16 + 120 := by
    intro x changed
    by_contra off
    exact changed (others x (by omega))
  obtain ⟨heap, move, packed⟩ := sliced.heap.payload List.mem_cons_self writes
  have count : (Disk.update u r).allocations = d.allocations + 1 := handed
  have node : page + 136 * (d.allocations + 1) = page + 136 * d.allocations + 16 + FileNode.bytes := by
    unfold FileNode.bytes
    omega
  refine ⟨Disk.update u r, fun fuel enough => ?_, ⟨?_, ?_, ?_, ?_, ?_, ?_⟩,
    ⟨listed.linked, listed.nodes, listed.registered, listed.range, listed.contents⟩, count, image⟩
  · unfold Disk.insertEntry
    rw [sliced.call fuel (by omega), ok_bind]
    have once : System14.insertEntry ⟨fun _ => page + 136 * d.allocations + 16, fun _ _ => u.mem⟩ fuel a f.content.length
        (a + 512) d.ramdisk = .ok r :=
      (insertEntry_once called fuel a f.content.length (a + 512)).trans (run fuel enough)
    show (System14.insertEntry _ fuel a f.content.length (a + 512) d.ramdisk >>= _) = _
    rw [once]
    rfl
  · rw [count]
    exact nofun
  · rw [count, if_neg (Nat.succ_ne_zero _), node]
    exact heap
  · intro _
    rw [count, node]
    have kept : nodeSize r.mem (page + 136 * d.allocations + 16 + FileNode.bytes) =
        nodeSize u.mem (page + 136 * d.allocations + 16 + FileNode.bytes) :=
      load_congr fun x low _ => others x (Or.inr low)
    refine kept.trans (sliced.rest.trans ?_)
    unfold FileNode.bytes
    omega
  · have none : ∀ {l : List Block}, ∀ b ∈ ([] : List Block), b ∈ l := nofun
    exact nodes.move.trans ((sliced.move.mono none).trans (move.mono none))
  · exact nodes.only.trans (sliced.only.trans rfl)
  · show 0 < freeFrames { u with mem := r.mem }
    rw [packed.table.freeFrames]
    exact spare

/-- In a page with thirty nodes there is no room for another one. -/
theorem Disk.Nodes.stuck {fuel a n b : Nat} (nodes : d.Nodes first page s) (full : d.allocations = 30) (enough : 1 < fuel) :
    d.insertEntry fuel a n b = .error .nullDereference := by
  have rest := nodes.rest (by omega)
  have heap := nodes.heap
  rw [if_neg (by omega)] at heap
  have call := malloc_stuck heap (show FileNode.bytes + 16 < 4096 by decide) (by rw [rest]; unfold FileNode.bytes; omega)
    nodes.spare enough
  unfold Disk.insertEntry
  rw [call]
  rfl

/-- A pass of the loop. -/
theorem Disk.initializeLoop_pass {a callFuel fuel : Nat} {f : TarFile} {e : Disk} (entry : HoldsEntry d.kernel.mem a f)
    (same : ∀ x, a ≤ x → x < a + f.span → e.kernel.mem x = d.kernel.mem x) (bound : a + f.span < 2 ^ 64)
    (inserted : d.insertEntry callFuel a f.content.length (a + 512) = .ok e) :
    initializeLoop callFuel (fuel + 1) a d = initializeLoop callFuel fuel (a + f.span) e := by
  have span : f.span = 512 + f.padded := rfl
  have again : HoldsEntry e.kernel.mem a f := entry.congr same
  rw [initializeLoop, if_pos entry.first, entry.decode, uadd_of_lt (by omega), inserted, ok_bind]
  dsimp only
  rw [again.decode, span_eq, uadd_of_lt (by omega)]

section Runs

variable {files : List TarFile} (free : FirstFree first s page) (two : 2 ≤ freeFrames s) (table : FrameTable s first)
  (outside : s.Outside first lo hi) (bound : hi ≤ 2 ^ 64)
include free two table outside bound

/-- What the loop makes of an archive for which there is room in the page. -/
theorem Disk.Nodes.load {a : Nat} {entries : List Entry} (nodes : d.Nodes first page s)
    (listing : Listing (pageNodes page fun _ m => m) lo hi d.ramdisk entries) (image : HoldsImage d.kernel.mem a files)
    (low : lo ≤ a) (high : a + imageSize files < hi) (few : d.allocations + files.length ≤ 30) :
    ∃ e added, (∀ callFuel > 99, ∀ fuel > files.length, Disk.initializeLoop callFuel fuel a d = .ok e) ∧
      e.ramdiskInitialized = true ∧ e.allocations = d.allocations + files.length ∧ e.Nodes first page s ∧
      Listing (pageNodes page fun _ m => m) lo hi e.ramdisk (added ++ entries) ∧ added.map Entry.file = files.reverse := by
  induction files generalizing a d entries with
  | nil =>
    have ended : d.kernel.mem a = 0 := image
    refine ⟨{ d with ramdiskInitialized := true }, [], fun callFuel _ fuel enough => ?_, rfl, rfl,
      ⟨nodes.start, nodes.heap, nodes.rest, nodes.move, nodes.only, nodes.spare⟩,
      ⟨listing.linked, listing.nodes, listing.registered, listing.range, listing.contents⟩, rfl⟩
    obtain ⟨fuel, rfl⟩ := Nat.exists_eq_add_one.mpr enough
    rw [Disk.initializeLoop, if_neg (not_not.mpr ended)]
  | cons f files ih =>
    obtain ⟨entry, rest⟩ := image
    rw [imageSize_cons] at high
    rw [List.length_cons] at few
    obtain ⟨c, inserted, nodes', listing', count, kept⟩ :=
      nodes.insert (by omega) free two table outside listing entry low (by omega) bound
    have later : HoldsImage c.kernel.mem (a + f.span) files :=
      rest.congr fun x below above => kept x (by omega) (by omega)
    obtain ⟨e, added, run, done, total, final, listed, names⟩ :=
      ih nodes' listing' later (by omega) (by omega) (by omega)
    refine ⟨e, added ++ [⟨page + 136 * d.allocations + 16, a + 512, f⟩], fun callFuel calls fuel enough => ?_, done, ?_,
      final, ?_, ?_⟩
    · rw [List.length_cons] at enough
      obtain ⟨fuel, rfl⟩ := Nat.exists_eq_add_one.mpr (Nat.zero_lt_of_lt enough)
      rw [Disk.initializeLoop_pass entry (fun x below above => kept x (by omega) (by omega)) (by omega)
        (inserted callFuel calls)]
      exact run callFuel calls fuel (by omega)
    · rw [List.length_cons]
      omega
    · rw [List.append_assoc]
      exact listed
    · rw [List.map_append, names, List.reverse_cons]
      rfl

/-- What it makes of one for which there is none. -/
theorem Disk.Nodes.overflow {a : Nat} {entries : List Entry} (nodes : d.Nodes first page s)
    (listing : Listing (pageNodes page fun _ m => m) lo hi d.ramdisk entries) (image : HoldsImage d.kernel.mem a files)
    (low : lo ≤ a) (high : a + imageSize files < hi) (upTo : d.allocations ≤ 30) (many : 30 < d.allocations + files.length) :
    ∀ callFuel > 99, ∀ fuel > files.length, Disk.initializeLoop callFuel fuel a d = .error .nullDereference := by
  intro callFuel calls
  induction files generalizing a d entries with
  | nil => exact absurd many (by rw [List.length_nil]; omega)
  | cons f files ih =>
    intro fuel enough
    obtain ⟨entry, rest⟩ := image
    rw [imageSize_cons] at high
    rw [List.length_cons] at many enough
    obtain ⟨fuel, rfl⟩ := Nat.exists_eq_add_one.mpr (Nat.zero_lt_of_lt enough)
    by_cases full : d.allocations = 30
    · rw [Disk.initializeLoop, if_pos entry.first, nodes.stuck full (by omega)]
      rfl
    · obtain ⟨c, inserted, nodes', listing', count, kept⟩ :=
        nodes.insert (by omega) free two table outside listing entry low (by omega) bound
      have later : HoldsImage c.kernel.mem (a + f.span) files :=
        rest.congr fun x below above => kept x (by omega) (by omega)
      rw [Disk.initializeLoop_pass entry (fun x below above => kept x (by omega) (by omega)) (by omega)
        (inserted callFuel calls)]
      exact ih nodes' listing' later (by omega) (by omega) (by omega) (by omega) fuel (by omega)

end Runs

/-! ### From the start of the machine -/

variable {info : GlobalPagingInfo} {roots : List Nat} {files : List TarFile} {base : Nat}

theorem Ready.disk (ready : Ready info first s roots) (page : Nat) (two : 2 ≤ freeFrames s) :
    Disk.Nodes first page s { kernel := s } where
  start _ := rfl
  heap := heapInv_empty ready.spaces.frames ready.head
  rest := nofun
  move := ⟨rfl, rfl, fun _ byte => byte, fun _ changed => absurd rfl changed⟩
  only := OnlyHeap.refl s
  spare := Nat.zero_lt_of_lt two

/-- The blocks of the nodes take their place among the objects of the kernel, and no address space changes. -/
theorem Disk.Nodes.coexist (nodes : d.Nodes first page s) (ready : Ready info first s roots) :
    (∃ mine list, Coexist info first mine list d.kernel { blocks := nodeBlocks page d.allocations, roots := roots }) ∧
      ∀ r ∈ roots, ∀ v, translate d.kernel.mem r v = translate s.mem r v := by
  obtain ⟨coexist, _, walks⟩ := ready.coexist.heapStep nodes.heap nodes.move nodes.only nofun
  exact ⟨⟨_, _, coexist⟩, walks⟩

theorem Ready.load (ready : Ready info first s roots) (free : FirstFree first s page) (two : 2 ≤ freeFrames s)
    (outside : s.Outside first base (base + imageSize files + 1)) (image : HoldsImage s.mem base files)
    (fits : base + imageSize files < 2 ^ 64) (few : files.length ≤ 30) :
    ∃ e entries, Returns (Disk.initializeRamdisk · base { kernel := s }) e ∧ e.ramdiskInitialized = true ∧
      e.allocations = files.length ∧ e.Nodes first page s ∧
      Listing (pageNodes page fun _ m => m) base (base + imageSize files + 1) e.ramdisk entries ∧
      entries.map Entry.file = files.reverse := by
  have nothing : Listing (pageNodes page fun _ m => m) base (base + imageSize files + 1) (Disk.mk s null false 0).ramdisk [] :=
    ⟨rfl, nofun, nofun, nofun, nofun⟩
  obtain ⟨e, entries, run, done, count, nodes, listed, names⟩ := (ready.disk page two).load free two ready.spaces.frames
    outside fits nothing image (Nat.le_refl _) (Nat.lt_succ_self _) (by show 0 + files.length ≤ 30; omega)
  rw [List.append_nil] at listed
  refine ⟨e, entries, ⟨max 100 (files.length + 1), fun fuel enough => ?_⟩, done, by rw [count]; exact Nat.zero_add _, nodes,
    listed, names⟩
  exact run fuel (by omega) fuel (by omega)

theorem Ready.overflow (ready : Ready info first s roots) (free : FirstFree first s page) (two : 2 ≤ freeFrames s)
    (outside : s.Outside first base (base + imageSize files + 1)) (image : HoldsImage s.mem base files)
    (fits : base + imageSize files < 2 ^ 64) (many : 30 < files.length) {fuel : Nat}
    (enough : max 100 (files.length + 1) ≤ fuel) :
    Disk.initializeRamdisk fuel base { kernel := s } = .error .nullDereference := by
  have nothing : Listing (pageNodes page fun _ m => m) base (base + imageSize files + 1) (Disk.mk s null false 0).ramdisk [] :=
    ⟨rfl, nofun, nofun, nofun, nofun⟩
  exact (ready.disk page two).overflow free two ready.spaces.frames outside fits nothing image (Nat.le_refl _)
    (Nat.lt_succ_self _) (Nat.zero_le _) (by show 30 < 0 + files.length; omega) fuel (by omega) fuel (by omega)

/-- Every path reads what the archive has under it. -/
theorem FirstFree.roundTrip {r : Ramdisk} {entries : List Entry} (free : FirstFree first s page)
    (table : FrameTable s first) (outside : s.Outside first base (base + imageSize files + 1)) (few : r.allocations ≤ 30)
    (ready : r.ramdiskInitialized = true)
    (listed : Listing (pageNodes page fun _ m => m) base (base + imageSize files + 1) r entries)
    (names : entries.map Entry.file = files.reverse) : RoundTrip files base r := by
  obtain ⟨fits, _, apart⟩ := free.outside table outside
  exact listed.roundTrip (pageNodes_fresh fits few apart fun _ _ _ _ _ => rfl) ready names

section Boot

variable {s₀ : Kernel} (init : initializeAllocator .halts info.mmap s₀ = .ok s) (fit : (selectedEntry info.mmap).NoWrap)
  (low : (selectedEntry info.mmap).firstFrame + 4096 * (selectedEntry info.mmap).frames ≤ 2 ^ 40) (boot : info.Boot)
  (clear : info.SmallPagesClear) (returned : Returns (initializePaging .halts · info s) t)
  (image : HoldsImage s₀.mem base files)
  (outside : base + imageSize files < (selectedEntry info.mmap).base ∨
    (selectedEntry info.mmap).firstFrame + 4096 * (selectedEntry info.mmap).frames ≤ base)
include init fit low boot clear returned image outside

/-- The archive is still there when the memory has been set up. -/
theorem boot_archive : HoldsImage t.mem base files ∧
    t.Outside (selectedEntry info.mmap).firstFrame base (base + imageSize files + 1) := by
  obtain ⟨list, count, kept⟩ := boot_keeps init fit low boot clear returned
  refine ⟨image.congr fun x below above => kept x (by omega), ?_⟩
  unfold Kernel.Outside
  rw [list, count]
  omega

/-- From the start of the machine: an archive of at most thirty files is
registered and read back as it is, and no address space notices. With more files
the kernel follows a null pointer. -/
theorem ramdisk_starts_iff (head : s₀.head.next = null) (fits : base + imageSize files < 2 ^ 64) (two : 2 ≤ freeFrames t) :
    ((∃ e, Returns (Disk.initializeRamdisk · base { kernel := t }) e) ↔ files.length ≤ 30) ∧
      (30 < files.length →
        ∃ bound, ∀ fuel ≥ bound, Disk.initializeRamdisk fuel base { kernel := t } = .error .nullDereference) ∧
      ∀ e, Returns (Disk.initializeRamdisk · base { kernel := t }) e → RoundTrip files base e.ramdisk ∧
        (∀ v, translate e.kernel.mem t.pml4 v = translate t.mem t.pml4 v) ∧
        ∃ page mine nodes, Coexist info (selectedEntry info.mmap).firstFrame mine nodes e.kernel
          { blocks := nodeBlocks page files.length, roots := [t.pml4] } := by
  obtain ⟨ready, _⟩ := boot_ready init fit low boot clear returned head
  obtain ⟨image, outside⟩ := boot_archive init fit low boot clear returned image outside
  obtain ⟨page, free⟩ := firstFree_of_pos (selectedEntry info.mmap).firstFrame (Nat.zero_lt_of_lt two)
  have stops : 30 < files.length →
      ∃ bound, ∀ fuel ≥ bound, Disk.initializeRamdisk fuel base { kernel := t } = .error .nullDereference :=
    fun many => ⟨_, fun fuel enough => ready.overflow free two outside image fits many enough⟩
  have few : ∀ e, Returns (Disk.initializeRamdisk · base { kernel := t }) e → files.length ≤ 30 := by
    intro e ⟨bound, call⟩
    by_contra many
    obtain ⟨bound', stop⟩ := stops (by omega)
    have same := (call (max bound bound') (Nat.le_max_left _ _)).symm.trans (stop _ (Nat.le_max_right _ _))
    cases same
  refine ⟨⟨fun ⟨e, returned⟩ => few e returned, fun few => ?_⟩, stops, fun e returned => ?_⟩
  · obtain ⟨e, _, returned, _⟩ := ready.load free two outside image fits few
    exact ⟨e, returned⟩
  · obtain ⟨e', entries, returned', done, count, nodes, listed, names⟩ :=
      ready.load free two outside image fits (few e returned)
    rw [returned.unique returned']
    obtain ⟨⟨mine, list, coexist⟩, walks⟩ := nodes.coexist ready
    rw [count] at coexist
    exact ⟨free.roundTrip ready.spaces.frames outside (le_of_eq_of_le count (few e returned)) done listed names,
      walks _ (List.mem_singleton_self _), page, mine, list, coexist⟩

end Boot

theorem smallArchive_outside : 0x200000 + imageSize [smallFile, newerFile] < (selectedEntry (machineInfo [region]).mmap).base ∨
    (selectedEntry (machineInfo [region]).mmap).firstFrame + 4096 * (selectedEntry (machineInfo [region]).mmap).frames ≤
      0x200000 := Or.inl (by decide)

/-- The archive has two files of one name, of which the last one is read. -/
theorem ramdisk_starts_iff_machine : ∃ t : Kernel,
    ((∃ e, Returns (Disk.initializeRamdisk · 0x200000 { kernel := t }) e) ↔ [smallFile, newerFile].length ≤ 30) ∧
      ∀ e, Returns (Disk.initializeRamdisk · 0x200000 { kernel := t }) e →
        RoundTrip [smallFile, newerFile] 0x200000 e.ramdisk ∧ ∀ path, path ≠ null → CString e.ramdisk.mem path [0x61] →
          Returns (rdFileGetSz · path e.ramdisk) 3 := by
  obtain ⟨s, t, init, returned, free⟩ := machine_boots smallArchive
  have starts := ramdisk_starts_iff init region_noWrap region_below (machine_boot region_low) machine_clear returned
    smallArchive_holds smallArchive_outside rfl (by decide) (by omega)
  refine ⟨t, starts.1, fun e started => ?_⟩
  have trip := (starts.2.2 e started).1
  exact ⟨trip, fun path nonnull string => trip.size path [0x61] nonnull string⟩

end System14
