import System14.Bootstrap.Kmain
import System14.Ramdisk.Startup

/-!
# The executable on the kernel's heap

`_kmain` asks the heap for a buffer as large as the file and copies the file
there. The nodes of the ramdisk have left the rest of one page on the free list,
so a small file has to fit in there; a large one gets pages of its own. What
lies between is too large for the rest and too small for pages, and the search
for a buffer follows a null pointer.
-/

namespace System14
open ByteMem Run Chain Extent

/-- `_kmain` from where it looks up `elfTargetFileName`, to the copy of the file. It has the buffer. -/
def Disk.loadFile (fuel elfTargetFileName : Nat) (d : Disk) : Except Stop (Nat × Disk) := do
  let sz ← rdFileGetSz fuel elfTargetFileName d.ramdisk
  if sz = 0 then return (null, d)
  else do
    let (buffer, k) ← malloc .halts fuel sz d.kernel
    if buffer = null then return (null, { d with kernel := k })
    else do
      let r ← rdFileGetStream fuel elfTargetFileName buffer (u64ToInt sz) { d.ramdisk with mem := k.mem }
      return (buffer, Disk.update k r)

variable {info : GlobalPagingInfo} {first page base lo hi size path : Nat} {free₀ : Nat → Bool} {s t u : Kernel} {d : Disk}
  {nodes : List Nat} {live : List Block} {files : List TarFile} {p : List UInt8} {f : TarFile}

/-! ### A buffer -/

theorem malloc_of_search {fuel n : Nat} (search : findAndRemoveNode .halts fuel size s = .ok (n, t)) (small : size < 2 ^ 64) :
    ∃ r, malloc .halts fuel size s = .ok r := by
  unfold malloc
  by_cases none : n = null
  · refine ⟨(null, t), ?_⟩
    unfold alloc
    rw [malloc_request small, search, ok_bind]
    exact if_pos none
  · exact ⟨_, alloc_trim ((malloc_request small).symm ▸ search) none (by decide)⟩

/-- A clean request returns if a node is large enough, or if there is room for the pages that it takes. -/
theorem HeapInv.malloc_returns (inv : HeapInv first free₀ s nodes live) (clean : MallocClean s size)
    (room : (∃ a ∈ nodes, 16 + size ≤ nodeSize s.mem a) ∨ 4096 ≤ size + 16 ∧ Room s (pageRounds size)) :
    ∃ r, Returns (malloc .halts · size s) r := by
  obtain ⟨wide, served⟩ := clean
  obtain ⟨sum, sum'⟩ := uadd_header wide
  suffices search : ∃ fuel n t, findAndRemoveNode .halts fuel size s = .ok (n, t) by
    obtain ⟨fuel, n, t, search⟩ := search
    obtain ⟨r, call⟩ := malloc_of_search search (by omega)
    exact ⟨r, malloc_steady fuel size s fuel (Nat.le_refl _) r call⟩
  by_cases fit : ∃ a ∈ nodes, size + 16 ≤ nodeSize s.mem a
  · obtain ⟨pre, n, post, rfl, misses, fits⟩ := first_fit fit
    exact ⟨pre.length + 1, n, _, findAndRemoveNode_hit .halts pre inv.chain
      (fun a member => by have := misses a member; omega) (by omega) (Nat.lt_succ_self _)⟩
  · have misses : ∀ a ∈ nodes, nodeSize s.mem a < 16 + size := fun a member => by
      by_contra large
      exact fit ⟨a, member, by omega⟩
    obtain ⟨large, room⟩ : 4096 ≤ size + 16 ∧ Room s (pageRounds size) :=
      room.resolve_left fun ⟨a, member, fits⟩ => absurd (misses a member) (by omega)
    have absent : nodes.find? (fun a => 16 + size ≤ nodeSize s.mem a) = none :=
      List.find?_eq_none.mpr fun a member => by
        have := misses a member
        simp only [decide_eq_true_eq]
        omega
    have clean := served nodes inv.chain
    unfold Served at clean
    rw [absent] at clean
    simp only [if_neg (Nat.not_lt.mpr large)] at clean
    obtain ⟨split, small, adjacent⟩ := clean
    have positive : 0 < pageRounds size := by
      unfold pageRounds
      omega
    have bounded : size + 4096 ≤ 2 ^ 64 := by
      unfold pageRounds at small
      omega
    obtain ⟨i, u, combined, after, hand⟩ := combineBlocks_room inv bounded adjacent room
    obtain ⟨_, total, _⟩ := hand.create after positive small
    exact ⟨_, _, _, combined.search inv.chain (by omega) (fun a member => by have := misses a member; omega)
      (by rw [total, sum]; exact split.covers) (Nat.le_refl _)⟩

/-! ### The file in it -/

/-- The heap, with `count` nodes in its first page, has a buffer for `n` bytes:
the rest of that page holds them, or pages of their own do. -/
def FileFits (k : Kernel) (count n : Nat) : Prop :=
  SplitClean (4096 - 136 * count) n ∨
    4096 ≤ n + 16 ∧ SplitClean (4096 * pageRounds n) n ∧ 4096 * pageRounds n < 2 ^ 31 ∧ FreeRun k (pageRounds n) ∧
      Room k (pageRounds n)

theorem Disk.Nodes.chain (nodes : d.Nodes first page s) (some : 0 < d.allocations) :
    HeapInv first (frameFree s) d.kernel [page + 136 * d.allocations] (nodeBlocks page d.allocations) := by
  have heap := nodes.heap
  rw [if_neg (by omega)] at heap
  exact heap

theorem Disk.Nodes.buffer {n : Nat} (nodes : d.Nodes first page s) (some : 0 < d.allocations)
    (fits : FileFits d.kernel d.allocations n) (small : n < 2 ^ 31) :
    MallocClean d.kernel n ∧ ∃ buffer k, Returns (malloc .halts · n d.kernel) (buffer, k) := by
  have heap := nodes.chain some
  have rest := nodes.rest some
  have clean : MallocClean d.kernel n := by
    refine ⟨by omega, fun list chain => ?_⟩
    rw [linked_unique chain heap.chain]
    unfold Served
    rw [List.find?_cons, rest]
    by_cases inRest : 16 + n ≤ 4096 - 136 * d.allocations
    · rw [decide_eq_true inRest]
      rcases fits with clean | ⟨large, _⟩
      · show SplitClean (nodeSize d.kernel.mem (page + 136 * d.allocations)) n
        rw [rest]
        exact clean
      · omega
    · rw [decide_eq_false inRest]
      rcases fits with clean | ⟨large, split, few, run, _⟩
      · exact absurd clean.covers inRest
      · simp only [List.find?_nil, if_neg (Nat.not_lt.mpr large)]
        exact ⟨split, few, run⟩
  obtain ⟨⟨buffer, k⟩, returned⟩ := heap.malloc_returns clean <| fits.imp
    (fun clean => ⟨_, List.mem_singleton_self _, rest ▸ clean.covers⟩) fun large => ⟨large.1, large.2.2.2.2⟩
  exact ⟨clean, buffer, k, returned⟩

/-- The entries stay registered, whatever is written to other memory. -/
theorem Listing.congr {given : NodeMemory} {r : Ramdisk} {m : Mem} {entries : List Entry}
    (listing : Listing given lo hi r entries) (image : ∀ x, lo ≤ x → x < hi → m x = r.mem x)
    (nodes : ∀ k < r.allocations, ∀ x, given.node k ≤ x → x < given.node k + FileNode.bytes → m x = r.mem x) :
    Listing given lo hi { r with mem := m } entries := by
  have node : ∀ e ∈ entries, ∀ x, e.node ≤ x → x < e.node + FileNode.bytes → m x = r.mem x := by
    intro e member x low high
    obtain ⟨k, less, here⟩ := listing.nodes e member
    rw [here] at low high
    exact nodes k less x low high
  refine ⟨linked_congr listing.linked fun q member => ?_, listing.nodes, fun e member => (listing.registered e member).congr
    (node e member), listing.range, fun e member i less => ?_⟩
  · obtain ⟨e, here, rfl⟩ := List.mem_map.mp member
    exact load_congr fun x low high => node e here x (by omega) (by unfold FileNode.bytes; omega)
  · obtain ⟨low, high⟩ := listing.range e member
    exact (image _ (by omega) (by omega)).trans (listing.contents e member i less)

theorem u64ToInt_of_lt {n : Nat} (small : n < 2 ^ 31) : u64ToInt n = n := by
  unfold u64ToInt
  rw [Nat.mod_eq_of_lt (by omega)]
  exact if_pos small

theorem rdFileGetStream_only {fuel buffer : Nat} {n : Int} {r r' : Ramdisk}
    (call : rdFileGetStream fuel path buffer n r = .ok r') : r' = { r with mem := r'.mem } := by
  unfold rdFileGetStream at call
  split at call
  · cases call
    rfl
  · obtain ⟨frame, _, call⟩ := bind_ok.mp call
    split at call
    · cases call
      rfl
    · split at call
      · cases call
        rfl
      · cases call
        rfl

section Load

variable {entries : List Entry} (few : d.allocations ≤ 30)
  (free : FirstFree first s page) (table : FrameTable s first) (outside : s.Outside first base (base + imageSize files + 1))
  (done : d.ramdiskInitialized = true)
  (listed : Listing (pageNodes page fun _ m => m) base (base + imageSize files + 1) d.ramdisk entries)
  (names : entries.map Entry.file = files.reverse) (nonnull : path ≠ null) (string : CString d.kernel.mem path p)
  (found : lastFile files p = some f) (content : f.content ≠ [])
include few free table outside done listed names nonnull string found content

theorem Disk.fileSize : Returns (rdFileGetSz · path d.ramdisk) f.content.length ∧ f.content.length ≠ 0 := by
  have size := (free.roundTrip table outside few done listed names).size path p nonnull string
  rw [found] at size
  exact ⟨size, fun zero => content (List.length_eq_zero_iff.mp zero)⟩

/-- The buffer has the bytes of the file, and everything else is as before. -/
theorem Disk.Nodes.loads (state : d.Nodes first page s) (present : 0 < d.allocations)
    (away : s.Outside first path (path + p.length + 1))
    (fits : FileFits d.kernel d.allocations f.content.length) :
    ∃ buffer g, Returns (d.loadFile · path) (buffer, g) ∧
      (∀ i (h : i < f.content.length), g.kernel.mem (buffer + i) = f.content[i]) ∧ RoundTrip files base g.ramdisk ∧
      (∃ list, HeapInv first (frameFree s) g.kernel list (⟨buffer, f.content.length⟩ :: nodeBlocks page d.allocations)) ∧
      HeapMove first (frameFree s) [] s g.kernel ∧ OnlyHeap s g.kernel := by
  obtain ⟨size, nonempty⟩ := Disk.fileSize few free table outside done listed names nonnull string found content
  obtain ⟨fit, above, _⟩ := free.outside table outside
  have small := f.small
  obtain ⟨clean, buffer, k, allocated⟩ := state.buffer present fits small
  obtain ⟨⟨⟨list, heap⟩, move⟩, only⟩ := allocated.yields fun fuel enough =>
    (malloc_yields (state.chain present) clean enough).and (alloc_onlyHeap fuel f.content.length 1 d.kernel)
  change HeapInv first (frameFree s) k list (⟨buffer, f.content.length⟩ :: nodeBlocks page d.allocations) at heap
  change HeapMove first (frameFree s) (nodeBlocks page d.allocations) d.kernel k at move
  -- What the heap writes keeps the archive, the path and the nodes.
  have kept : ∀ g, HeapMove first (frameFree s) (nodeBlocks page d.allocations) d.kernel g → FrameTable g first →
      Listing (pageNodes page fun _ m => m) base (base + imageSize files + 1) { d.ramdisk with mem := g.mem } entries :=
    fun g move table => listed.congr
      (fun x low high => move.outside table (state.move.outside_iff.mpr outside) low high)
      fun j less x low high => move.keeps_nodes state.heap.table above less low (by
        have high : x < page + 136 * j + 16 + 120 := high
        omega)
  have trip : RoundTrip files base { d.ramdisk with mem := k.mem } :=
    free.roundTrip table outside few done (kept k move heap.table) names
  have string : CString k.mem path p := string.congr fun x low high =>
    move.outside heap.table (state.move.outside_iff.mpr away) low (by omega)
  obtain ⟨start, low, high, copy⟩ := trip.stream path p f nonnull string found
  have member : (⟨buffer, f.content.length⟩ : Block) ∈ ⟨buffer, f.content.length⟩ :: nodeBlocks page d.allocations :=
    List.mem_cons_self
  have room := (heap.headers _ member).1
  have byte := heap.inside _ (mem_extents_live member) buffer ⟨Nat.sub_le _ _, by
    show buffer < buffer - 16 + (16 + f.content.length)
    omega⟩
  have bounds := byte.bounds heap.table
  have top := byte.top
  have list := (state.move.trans (move.mono nofun)).list
  have count := (state.move.trans (move.mono nofun)).count
  have apart : buffer ≤ start ∨ start + f.content.length ≤ buffer := by
    rcases outside with below | behind
    · omega
    · omega
  obtain ⟨r, streamed, bytes, others⟩ := copy buffer f.content.length (le_refl _) apart
  obtain ⟨heap', move', _⟩ := heap.payload member (m := r.mem) fun x changed => by
    by_contra off
    have off : ¬ (buffer ≤ x ∧ x < buffer + f.content.length) := off
    exact changed (others x (by omega))
  rw [List.erase_cons_head] at move'
  have same : r = { d.ramdisk with mem := r.mem } := by
    obtain ⟨bound, call⟩ := streamed
    have only := rdFileGetStream_only (call bound (Nat.le_refl _))
    exact only
  have shown : (Disk.update k r).ramdisk = { d.ramdisk with mem := r.mem } := same
  have total := move.trans move'
  refine ⟨buffer, Disk.update k r, ?_, fun i less => bytes i less less, ?_, ⟨_, heap'⟩, ?_, ?_⟩
  · obtain ⟨sized, sizes⟩ := size
    obtain ⟨served, serves⟩ := allocated
    obtain ⟨copied, copies⟩ := streamed
    refine ⟨max sized (max served copied), fun fuel enough => ?_⟩
    have sizes : rdFileGetSz fuel path d.ramdisk = _ := sizes fuel (by omega)
    have serves : malloc .halts fuel f.content.length d.kernel = _ := serves fuel (by omega)
    have copies : rdFileGetStream fuel path buffer f.content.length { d.ramdisk with mem := k.mem } = _ :=
      copies fuel (by omega)
    show d.loadFile fuel path = _
    unfold Disk.loadFile
    rw [sizes, ok_bind, if_neg nonempty, serves, ok_bind]
    dsimp only
    rw [if_neg heap.ptr_ne_null, u64ToInt_of_lt small, copies]
    rfl
  · rw [shown]
    exact free.roundTrip table outside few done (kept { k with mem := r.mem } total heap'.table) names
  · have none : ∀ {l : List Block}, ∀ b ∈ ([] : List Block), b ∈ l := nofun
    exact state.move.trans (total.mono none)
  · exact state.only.trans (only.trans rfl)

/-- A small file that does not fit into the rest of the page is not loaded. -/
theorem Disk.Nodes.load_stuck (state : d.Nodes first page s) (present : 0 < d.allocations)
    (large : 4096 < f.content.length + 16 + 136 * d.allocations) (small : f.content.length + 16 < 4096) :
    ∃ bound, ∀ fuel ≥ bound, d.loadFile fuel path = .error .nullDereference := by
  obtain ⟨⟨bound, size⟩, nonempty⟩ := Disk.fileSize few free table outside done listed names nonnull string found content
  obtain ⟨i, member, unused⟩ := List.countP_pos_iff.mp state.spare
  have rest := state.rest present
  refine ⟨max bound 2, fun fuel enough => ?_⟩
  have size : rdFileGetSz fuel path d.ramdisk = _ := size fuel (by omega)
  have search := findAndRemoveNode_stuck (state.chain present) small ⟨i, List.mem_range.mp member, unused⟩
    (List.cons_ne_nil _ _) (fun c only => by
      rw [List.mem_singleton.mp only, rest]
      omega) (show 1 < fuel by omega)
  have call : malloc .halts fuel f.content.length d.kernel = .error .nullDereference := by
    unfold malloc alloc
    rw [malloc_request (show f.content.length < 2 ^ 64 by omega), search]
    rfl
  unfold Disk.loadFile
  rw [size, ok_bind, if_neg nonempty, call]
  rfl

end Load

/-- With what the heap gives it, `_kmain` goes on to read the program headers in the buffer. -/
theorem kmainLoad_loadFile {fuel buffer : Nat} {g : Disk} (loaded : d.loadFile fuel path = .ok (buffer, g))
    (nonnull : buffer ≠ null) : ∃ k : Kernel, ∀ segment, kmainLoad ⟨buffer, fun _ => k.mem, segment⟩ fuel path d.ramdisk =
      readELF ⟨buffer, fun _ => k.mem, segment⟩ fuel buffer g.kernel.mem := by
  unfold Disk.loadFile at loaded
  obtain ⟨sz, size, loaded⟩ := bind_ok.mp loaded
  by_cases empty : sz = 0
  · rw [if_pos empty] at loaded
    cases loaded
    exact absurd rfl nonnull
  rw [if_neg empty] at loaded
  obtain ⟨⟨buffer', k⟩, call, loaded⟩ := bind_ok.mp loaded
  dsimp only at loaded
  by_cases none : buffer' = null
  · rw [if_pos none] at loaded
    cases loaded
    exact absurd rfl nonnull
  rw [if_neg none] at loaded
  obtain ⟨r, stream, loaded⟩ := bind_ok.mp loaded
  cases loaded
  refine ⟨k, fun segment => ?_⟩
  unfold kmainLoad
  rw [size, Traced.lift_ok, Traced.done_nil_bind, if_neg empty, if_neg none]
  dsimp only
  rw [stream, Traced.lift_ok, Traced.done_nil_bind]
  rfl

section Boot

variable {s₀ : Kernel} {e : Disk} (init : initializeAllocator .halts info.mmap s₀ = .ok s)
  (fit : (selectedEntry info.mmap).NoWrap)
  (low : (selectedEntry info.mmap).firstFrame + 4096 * (selectedEntry info.mmap).frames ≤ 2 ^ 40) (boot : info.Boot)
  (clear : info.SmallPagesClear) (head : s₀.head.next = null) (returned : Returns (initializePaging .halts · info s) t)
  (two : 2 ≤ freeFrames t) (image : HoldsImage s₀.mem base files) (fits : base + imageSize files < 2 ^ 64)
  (outside : base + imageSize files < (selectedEntry info.mmap).base ∨
    (selectedEntry info.mmap).firstFrame + 4096 * (selectedEntry info.mmap).frames ≤ base)
include init fit low boot clear head returned two image fits outside

/-- From the start of the machine to the executable: where the heap has a buffer
for the file, the buffer gets its bytes, and files and address spaces stay as
they are. A small file that is larger than the rest of the first page ends in a
null pointer. -/
theorem kmain_loads_file (started : Returns (Disk.initializeRamdisk · base { kernel := t }) e) (nonnull : path ≠ null)
    (string : CString s₀.mem path p)
    (away : path + p.length < (selectedEntry info.mmap).base ∨
      (selectedEntry info.mmap).firstFrame + 4096 * (selectedEntry info.mmap).frames ≤ path)
    (found : lastFile files p = some f) (content : f.content ≠ []) :
    (FileFits e.kernel files.length f.content.length → ∃ buffer g, Returns (e.loadFile · path) (buffer, g) ∧
      (∀ i (h : i < f.content.length), g.kernel.mem (buffer + i) = f.content[i]) ∧ RoundTrip files base g.ramdisk ∧
      (∀ v, translate g.kernel.mem t.pml4 v = translate t.mem t.pml4 v) ∧
      ∃ page mine nodes, Coexist info (selectedEntry info.mmap).firstFrame mine nodes g.kernel
        { blocks := ⟨buffer, f.content.length⟩ :: nodeBlocks page files.length, roots := [t.pml4] }) ∧
    (4096 < f.content.length + 16 + 136 * files.length → f.content.length + 16 < 4096 →
      ∃ bound, ∀ fuel ≥ bound, e.loadFile fuel path = .error .nullDereference) := by
  obtain ⟨ready, _⟩ := boot_ready init fit low boot clear returned head
  obtain ⟨list, count, kept⟩ := boot_keeps init fit low boot clear returned
  obtain ⟨image, outside⟩ := boot_archive init fit low boot clear returned image outside
  obtain ⟨page, free⟩ := firstFree_of_pos (selectedEntry info.mmap).firstFrame (Nat.zero_lt_of_lt two)
  have few : files.length ≤ 30 := by
    obtain ⟨bound, call⟩ := started
    by_contra many
    have stop := ready.overflow free two outside image fits (by omega) (Nat.le_max_left (max 100 (files.length + 1)) bound)
    have same := (call _ (Nat.le_max_right (max 100 (files.length + 1)) bound)).symm.trans stop
    cases same
  obtain ⟨e', entries, started', done, number, nodes, listed, names⟩ := ready.load free two outside image fits few
  rw [started.unique started']
  have away : t.Outside (selectedEntry info.mmap).firstFrame path (path + p.length + 1) := by
    unfold Kernel.Outside
    rw [list, count]
    omega
  have table := ready.spaces.frames
  have string : CString e'.kernel.mem path p := (string.congr fun x low high => kept x (by omega)).congr
    fun x low high => nodes.move.outside nodes.heap.table away low (by omega)
  have present : 0 < e'.allocations := by
    rw [number]
    have member := List.mem_of_find?_eq_some found
    exact List.length_pos_of_mem (List.mem_reverse.mp member)
  have upTo : e'.allocations ≤ 30 := le_of_eq_of_le number few
  refine ⟨fun fits => ?_, fun large small => ?_⟩
  · rw [← number] at fits
    obtain ⟨buffer, g, loaded, bytes, trip, ⟨list, heap⟩, move, only⟩ :=
      nodes.loads upTo free table outside done listed names nonnull string found content present away fits
    obtain ⟨coexist, _, walks⟩ := ready.coexist.heapStep heap move only nofun
    rw [number] at coexist
    exact ⟨buffer, g, loaded, bytes, trip, walks _ (List.mem_singleton_self _), page, _, _, coexist⟩
  · rw [← number] at large
    exact nodes.load_stuck upTo free table outside done listed names nonnull string found content present large small

end Boot

theorem kmain_loads_file_machine : ∃ e buffer g, Returns (Disk.loadFile · 0x200000 e) (buffer, g) ∧
    ∀ i (h : i < newerFile.content.length), g.kernel.mem (buffer + i) = newerFile.content[i] := by
  obtain ⟨s, t, init, returned, free⟩ := machine_boots smallArchive
  have boot := machine_boot region_low
  have two : 2 ≤ freeFrames t := by omega
  obtain ⟨ready, _⟩ := boot_ready init region_noWrap region_below boot machine_clear returned rfl
  obtain ⟨image, outside⟩ := boot_archive init region_noWrap region_below boot machine_clear returned smallArchive_holds
    smallArchive_outside
  obtain ⟨page, first⟩ := firstFree_of_pos (selectedEntry (machineInfo [region]).mmap).firstFrame (Nat.zero_lt_of_lt two)
  obtain ⟨e, _, started, _⟩ := ready.load first two outside image (by decide) (by decide)
  obtain ⟨loads, _⟩ := kmain_loads_file init region_noWrap region_below boot machine_clear rfl returned two smallArchive_holds
    (by decide) smallArchive_outside started (show 0x200000 ≠ 0 by decide) (show CString smallArchive 0x200000 [0x61] by decide)
    (Or.inl (by decide)) (show lastFile [smallFile, newerFile] [0x61] = some newerFile from rfl) (List.cons_ne_nil _ _)
  obtain ⟨buffer, g, loaded, bytes, _⟩ := loads (Or.inl (Or.inr (by decide)))
  exact ⟨e, buffer, g, loaded, bytes⟩

end System14
