import System14.Mm.HeapRequest
import System14.Mm.ObjectRuns

/-!
# Runs of the memory manager

From the state that `InitializeAllocator` and `InitializePaging` leave, every
run of clean calls is a run of the abstract machine on objects. What holds of
objects holds of the memory of the kernel.
-/

namespace System14
open ByteMem Run Radix Extent Simulation

variable {info : GlobalPagingInfo} {first : Nat} {mine : Nat → Bool} {nodes roots : List Nat} {s t u : Kernel} {h h' : Handles}
  {call : MemoryCall} {es es' : List (MemoryCall × Nat)}

/-! ### Calls complete -/

theorem malloc_steady (bound size : Nat) (s : Kernel) : Steady bound (malloc .halts · size s) :=
  Steady.bind (fun _ _ _ => findAndRemoveNode_returns) _

theorem createProcessPML4_steady {start stop : Nat} {inKernelCode : Bool}
    (kernel : s.globalPagingInfo.kernelSize + 4096 ≤ 2 ^ 64) (user : stop + 4096 ≤ 2 ^ 64) :
    Steady (2 ^ 64) (createProcessPML4 .halts · start stop inKernelCode s) := by
  intro fuel enough r value
  refine createProcessPML4_returns kernel user ?_
  show createProcessPML4 .halts (2 ^ 64) start stop inKernelCode s = .ok r
  have value : createProcessPML4 .halts fuel start stop inKernelCode s = .ok r := value
  rw [← value, createProcessPML4_eq kernel user enough, createProcessPML4_eq kernel user (Nat.le_refl _)]

/-- With enough fuel the call returns, or it panics because no frame is free. -/
def Settles (s : Kernel) (call : MemoryCall) : Prop :=
  (∃ r, Returns (perform · s call) r) ∨
    ∃ bound, ∀ fuel ≥ bound, perform fuel s call = .error (.panic "No free mem left!")

theorem not_fault {e : Stop} (fine : ¬ Fault e) : e = .panic "No free mem left!" := not_not.mp fine

theorem settles_of_steady {Q : Nat × Kernel → Prop} {bound : Nat} (steady : Steady bound (perform · s call))
    (safe : ∀ fuel ≥ bound, Yields Fault (perform fuel s call) Q) : Settles s call := by
  rcases steady.completes safe with ⟨r, returned, _⟩ | stops
  · exact Or.inl ⟨r, returned⟩
  · refine Or.inr ⟨bound, fun fuel enough => ?_⟩
    obtain ⟨e, stop, fine⟩ := stops fuel enough
    rw [stop, not_fault fine]

theorem settles_of_const {Q : Nat × Kernel → Prop} {x : Except Stop (Nat × Kernel)} (same : ∀ fuel, perform fuel s call = x)
    (safe : Yields Fault x Q) : Settles s call := by
  have constant : (perform · s call) = fun _ => x := funext same
  refine settles_of_steady (Q := Q) (constant ▸ Steady.const x) fun fuel (_ : fuel ≥ 0) => ?_
  rw [same]
  exact safe

/-- Every call that is permitted and clean completes. -/
theorem Coexist.settles (coexist : Coexist info first mine nodes s h) (boot : info.Boot) (permitted : h.Permits call)
    (clean : Clean first s call) : Settles s call := by
  cases call with
  | malloc size => exact settles_of_steady (malloc_steady _ size s) fun fuel enough => malloc_yields coexist.heap clean enough
  | calloc size =>
    exact settles_of_steady ((malloc_steady _ size s).bind _) fun fuel enough => calloc_yields coexist.heap clean enough
  | free b => exact Or.inl ⟨_, 0, fun _ _ => rfl⟩
  | write address value => exact Or.inl ⟨_, 0, fun _ _ => rfl⟩
  | pageFree page => exact Or.inl ⟨_, 0, fun _ _ => rfl⟩
  | pageAlloc =>
    have granted := (pageAlloc_yields coexist.heap.table).weaken fun e (fault : Fault e) => Or.inl fault
    exact settles_of_const (fun _ => rfl) granted
  | createProcessPML4 start stop inKernelCode =>
    obtain rfl := coexist.info
    have small := boot.kernelSmall
    have clean : ProgramClear s.globalPagingInfo start stop inKernelCode := clean
    have fits := clean.fits
    have aligned := clean.stopAligned
    exact settles_of_steady (createProcessPML4_steady (by omega) (by omega)) fun fuel enough =>
      (createProcessPML4_yields coexist.spaces.frames coexist.spaces.pool boot clean enough).weaken fun e (fault : Fault e) =>
        Or.inl fault
  | mapMemory root c =>
    have mapped : Yields Fault (perform 0 s (.mapMemory root c)) fun _ => True := by
      have page := mapPage_mapped (coexist.spaces.tables root permitted) clean.1 clean.2
      exact page.bind fun _ _ => trivial
    exact settles_of_const (fun _ => rfl) mapped
  | allocatePage cr3 =>
    have mapped : Yields Fault (allocatePage .halts cr3 s) fun _ => True := by
      have granted := (pageAlloc_yields coexist.heap.table).weaken fun e (fault : Fault e) => Or.inl fault
      apply granted.bind
      rintro ⟨p, u⟩ ⟨i, granted⟩
      obtain ⟨after, valid, free⟩ := granted.mappable (coexist.spaces.tables cr3 permitted) coexist.low clean
      exact (mapPage_mapped (c := identityCall p) after valid free).bind fun _ _ => trivial
    exact settles_of_const (fun _ => rfl) mapped

/-! ### Where runs start -/

/-- There are tables for some address spaces, and no object has been handed out. -/
structure Ready (info : GlobalPagingInfo) (first : Nat) (s : Kernel) (roots : List Nat) : Prop where
  spaces : Spaces s first roots
  distinct : roots.Nodup
  low : ∀ i < frameCount s, first + 4096 * i < 2 ^ 40
  head : s.head.next = null
  boot : info.Boot
  info : s.globalPagingInfo = info

theorem Ready.coexist (ready : Ready info first s roots) : Coexist info first (frameFree s) [] s { roots := roots } := by
  refine ⟨heapInv_empty ready.spaces.frames ready.head, ready.spaces, nofun, List.nodup_nil, fun r _ a _ => ⟨nofun, ?_⟩,
    ready.low, ready.info⟩
  rintro ⟨i, _, free, used, _⟩
  rw [used] at free
  exact nomatch free

theorem Ready.sound (ready : Ready info first s roots) : (view s { roots := roots }).Sound := by
  refine ⟨fun x => ?_, List.Pairwise.nil, fun r => ?_, ready.distinct⟩
  · have none : ¬ Handles.Holds { roots := roots } x := fun ⟨_, member, _⟩ => nomatch member
    show (if Handles.Holds { roots := roots } x then some (s.mem x) else Option.none) ≠ _ ↔ _
    rw [if_neg none]
    exact ⟨fun same => absurd rfl same, fun held => absurd held none⟩
  · show (if r ∈ roots then some (translate s.mem r) else none) ≠ _ ↔ r ∈ roots
    by_cases member : r ∈ roots
    · rw [if_pos member]
      exact ⟨fun _ => member, fun _ => nofun⟩
    · rw [if_neg member]
      exact ⟨fun same => absurd rfl same, fun here => absurd here member⟩

/-- `InitializePaging` records its root and the boot information before it maps. -/
theorem BlankRoot.record {p : Nat} (blank : BlankRoot u first p) :
    BlankRoot { u with pml4 := p, globalPagingInfo := info } first p :=
  ⟨⟨blank.frames.ptr, blank.frames.aligned, blank.frames.above, blank.frames.fits⟩, blank.pool,
    ⟨blank.held.aligned, blank.held.nonnull, blank.held.low, blank.held.table, blank.held.used⟩, blank.zero⟩

theorem initializePaging_yields {fuel : Nat} (frames : FrameTable s first)
    (pool : ∀ i < frameCount s, frameFree s i = true → first + 4096 * i < 2 ^ 40) (boot : info.Boot)
    (clear : info.SmallPagesClear) (enough : 2 ^ 64 ≤ fuel) :
    Yields (Unexpected (3 * (regions info.defaultCalls).card + 1) s) (initializePaging .halts fuel info s) fun t =>
      ∃ i p u v, Granted s first i p u ∧ v = { u with pml4 := p, globalPagingInfo := info } ∧
        Built first p info.defaultCalls v t := by
  apply (Yields.enough (pageAlloc_grant frames) (by omega)).bind
  rintro ⟨p, u⟩ ⟨i, granted⟩
  change Granted s first i p u at granted
  have count := granted.freeFrames
  obtain ⟨v, here⟩ : ∃ v, v = { u with pml4 := p, globalPagingInfo := info } := ⟨_, rfl⟩
  have blank : BlankRoot v first p := here ▸ (granted.blankRoot frames pool).record
  have known : v.globalPagingInfo = info := by rw [here]
  have left : freeFrames v = freeFrames u := by
    rw [here]
    rfl
  have built := createDefaultMappings_built blank (known ▸ boot) (known ▸ clear) enough
  rw [known] at built
  show Yields _ (createDefaultMappings .halts fuel p { u with pml4 := p, globalPagingInfo := info }) _
  rw [← here]
  exact (Yields.enough built (by omega)).mono fun t built => ⟨i, p, u, v, granted, here, built⟩

theorem initializePaging_steady (boot : info.Boot) : Steady (2 ^ 64) (initializePaging .halts · info s) := by
  intro fuel enough t value
  obtain ⟨⟨p, u⟩, alloc, mapping⟩ := bind_ok.mp value
  have noWrap : ({ u with pml4 := p, globalPagingInfo := info } : Kernel).globalPagingInfo.NoWrap := boot.noWrap
  have mapping : createDefaultMappings .halts fuel p { u with pml4 := p, globalPagingInfo := info } = .ok t := mapping
  refine ⟨2 ^ 64, fun more enough' => bind_ok.mpr ⟨(p, u), alloc, ?_⟩⟩
  show createDefaultMappings .halts more p { u with pml4 := p, globalPagingInfo := info } = .ok t
  rw [createDefaultMappings_eq noWrap enough', ← mapping, createDefaultMappings_eq noWrap enough]

section Boot

variable {s₀ : Kernel} (init : initializeAllocator .halts info.mmap s₀ = .ok s) (fit : (selectedEntry info.mmap).NoWrap)
  (low : (selectedEntry info.mmap).firstFrame + 4096 * (selectedEntry info.mmap).frames ≤ 2 ^ 40) (boot : info.Boot)
  (clear : info.SmallPagesClear) (returned : Returns (initializePaging .halts · info s) t)
include init fit low boot clear returned

/-- After the kernel has set up its memory there is one address space, its own. -/
theorem boot_ready (head : s₀.head.next = null) :
    Ready info (selectedEntry info.mmap).firstFrame t [t.pml4] ∧
      ∀ v, translate t.mem t.pml4 v = spaceOf info.defaultCalls v := by
  obtain ⟨_, _, count, frames, _⟩ := initializeAllocator_ok init fit
  obtain ⟨globals, _⟩ := initializeAllocator_keeps init
  have below : ∀ i < frameCount s, (selectedEntry info.mmap).firstFrame + 4096 * i < 2 ^ 40 := fun i lt => by omega
  obtain ⟨i, p, u, v, granted, here, built⟩ := returned.yields fun fuel enough =>
    initializePaging_yields frames (fun i lt _ => below i lt) boot clear enough
  have moved := built.move.globals
  rw [here] at moved
  have same : t.pml4 = p := by rw [moved]
  have counted : frameCount t = frameCount s := by
    rw [moved]
    exact granted.count
  rw [same]
  have known : v.globalPagingInfo = info := by rw [here]
  have valid := default_valid (s := v) (known ▸ boot)
  rw [known] at valid
  refine ⟨⟨kernel_space built.tables, List.nodup_singleton p, by rw [counted]; exact below, ?_, boot, by rw [moved]⟩,
    built.agrees.translate valid⟩
  rw [moved, granted.globals, globals]
  exact head

/-- Setting it up writes nothing outside of the memory that it hands out. -/
theorem boot_keeps : t.frameList = (selectedEntry info.mmap).base ∧ frameCount t = (selectedEntry info.mmap).frames ∧
    ∀ x, x < (selectedEntry info.mmap).base ∨
      (selectedEntry info.mmap).firstFrame + 4096 * (selectedEntry info.mmap).frames ≤ x → t.mem x = s₀.mem x := by
  obtain ⟨_, list, count, frames, _⟩ := initializeAllocator_ok init fit
  obtain ⟨_, kept⟩ := initializeAllocator_keeps init
  have below : ∀ i < frameCount s, (selectedEntry info.mmap).firstFrame + 4096 * i < 2 ^ 40 := fun i lt => by omega
  obtain ⟨i, p, u, v, granted, here, built⟩ := returned.yields fun fuel enough =>
    initializePaging_yields frames (fun i lt _ => below i lt) boot clear enough
  have blank : BlankRoot v (selectedEntry info.mmap).firstFrame p :=
    here ▸ (granted.blankRoot frames fun i lt _ => below i lt).record
  have mem : v.mem = u.mem := by rw [here]
  have listed : v.frameList = s.frameList := by
    rw [here]
    exact granted.list
  have counted : frameCount v = frameCount s := by
    rw [here]
    exact granted.count
  refine ⟨(built.move.list.trans listed).trans list, (built.move.count.trans counted).trans count, fun x outside => ?_⟩
  have above := frames.above
  have lt := granted.lt
  have page := granted.page
  have mapped : t.mem x = v.mem x := by
    by_contra changed
    rcases built.move.writes x changed with table | ⟨a, ⟨_, _, reached⟩, inside⟩ | ⟨j, less, _, _, inside⟩
    · omega
    · rw [(blank.only_root reached).2] at inside
      omega
    · omega
  rw [mapped, mem, granted.keep x (by omega) (by unfold frameEntry; omega)]
  exact kept x (by omega)

end Boot

theorem region_noWrap : (selectedEntry (machineInfo [region]).mmap).NoWrap := by
  unfold MemmapEntry.NoWrap
  decide

theorem region_below : (selectedEntry (machineInfo [region]).mmap).firstFrame +
    4096 * (selectedEntry (machineInfo [region]).mmap).frames ≤ 2 ^ 40 := by decide

/-- A machine with 128 MiB sets up its memory, whatever is in it. -/
theorem machine_boots (m : Mem) : ∃ s t, initializeAllocator .halts (machineInfo [region]).mmap { mem := m } = .ok s ∧
    Returns (initializePaging .halts · (machineInfo [region]) s) t ∧ 20000 ≤ freeFrames t := by
  have boot := machine_boot region_low
  obtain ⟨s, init⟩ := initializeAllocator_returns (machineInfo [region]).mmap { mem := m } (by decide)
  obtain ⟨_, _, count, frames, free⟩ := initializeAllocator_ok init region_noWrap
  have counted : (selectedEntry (machineInfo [region]).mmap).frames = 32768 := rfl
  have low := region_below
  have all : freeFrames s = 32768 := by
    unfold freeFrames
    rw [List.countP_eq_length.mpr fun i member => free i (List.mem_range.mp member), List.length_range, count, counted]
  have few := machine_few
  have paging := initializePaging_yields frames (fun i lt _ => by omega) boot machine_clear (Nat.le_refl (2 ^ 64))
  obtain ⟨t, call, i, p, u, v, granted, here, built⟩ := paging.returns fun e => Or.inr (by omega)
  have left := built.frames
  have before := granted.freeFrames
  have same : freeFrames v = freeFrames u := by
    rw [here]
    rfl
  exact ⟨s, t, init, initializePaging_steady boot _ (Nat.le_refl _) t call, by omega⟩

theorem machine_ready : ∃ s, Ready (machineInfo [region]) 0x40080000 s [s.pml4] ∧ 20000 ≤ freeFrames s := by
  obtain ⟨s, t, init, returned, free⟩ := machine_boots fun _ => 0
  exact ⟨t, (boot_ready init region_noWrap region_below (machine_boot region_low) machine_clear returned rfl).1, free⟩

/-! ### Runs -/

/-- The state shows these objects, and they do not get in each other's way. -/
def Shows (info : GlobalPagingInfo) (first : Nat) : Kernel × Handles → Objects → Prop
  | (s, h), o => o = view s h ∧ ∃ mine nodes, Coexist info first mine nodes s h

theorem memory_simulates (boot : info.Boot) :
    Simulates (Shows info first) MemoryStep (MemoryAllowed first) (Objects.Step info) := by
  rintro ⟨s, h⟩ o ⟨call, r⟩ ⟨t, h'⟩ ⟨rfl, mine, nodes, coexist⟩ ⟨permitted, clean⟩ ⟨returned, rfl⟩
  have done := coexist.perform_done boot permitted clean returned
  exact ⟨view t (h.after call r), ⟨permitted, rfl, done.changes⟩, rfl, done.coexist⟩

theorem Ready.run (ready : Ready info first s roots)
    (run : Trace MemoryStep (MemoryAllowed first) (s, { roots := roots }) es (t, h)) :
    Trace (Objects.Step info) anyStep (view s { roots := roots }) es (view t h) ∧
      ∃ mine nodes, Coexist info first mine nodes t h := by
  obtain ⟨_, abstract, rfl, coexist⟩ := (memory_simulates ready.boot).trace ⟨rfl, _, _, ready.coexist⟩ run
  exact ⟨abstract, coexist⟩

/-- On a machine with 128 MiB a task is created, and a block is allocated and written to. -/
theorem machine_run : ∃ s t u root b, Ready (machineInfo [region]) 0x40080000 s [s.pml4] ∧
    Trace MemoryStep (MemoryAllowed 0x40080000) (s, { roots := [s.pml4] }) [(.createProcessPML4 0 0 true, root)]
      (t, { roots := [root, s.pml4] }) ∧
    Trace MemoryStep (MemoryAllowed 0x40080000) (t, { roots := [root, s.pml4] }) [(.malloc 100, b), (.write b 7, null)]
      (u, { blocks := [⟨b, 100⟩], roots := [root, s.pml4] }) := by
  obtain ⟨s, ready, enough⟩ := machine_ready
  have boot := ready.boot
  have few := kernelTask_few
  rw [← ready.info] at boot few
  have small := boot.kernelSmall
  have clear := kernelTask_clear s.globalPagingInfo
  obtain ⟨⟨root, t⟩, call, i, v, granted, built⟩ := (createProcessPML4_yields ready.spaces.frames ready.spaces.pool boot
    clear (Nat.le_refl _)).returns fun e => Or.inr (by omega)
  have created := createProcessPML4_returns (by omega) (by omega) call
  have head : t.head.next = null := by
    have moved : t = { v with mem := t.mem } := built.move.globals
    rw [moved, granted.globals]
    exact ready.head
  have left : 1 ≤ freeFrames t := by
    have after : freeFrames v ≤ freeFrames t + _ := built.frames
    have before := granted.freeFrames
    omega
  have frames : FrameTable t 0x40080000 := built.tables.frames
  obtain ⟨⟨p, w⟩, alloc, j, page⟩ := (pageAlloc_grant frames).returns fun e => Or.inr left
  obtain ⟨u, given, _⟩ := malloc_page frames head alloc page (show 100 + 16 < 4096 by decide)
  have clean : MallocClean t 100 := mallocClean_empty head (by decide) (Or.inr (by decide))
  have held : Handles.Holds { blocks := [⟨p + 16, 100⟩], roots := [root, s.pml4] } (p + 16) :=
    ⟨⟨p + 16, 100⟩, List.mem_cons_self .., Nat.le_refl _, Nat.lt_add_of_pos_right (show 0 < 100 by decide)⟩
  refine ⟨s, t, { u with mem := Function.update u.mem (p + 16) 7 }, root, p + 16, ready,
    Trace.single ⟨trivial, clear⟩ ⟨created, rfl⟩, ?_⟩
  have allocated : Trace MemoryStep (MemoryAllowed 0x40080000) (t, { roots := [root, s.pml4] }) [(.malloc 100, p + 16)]
      (u, { blocks := [⟨p + 16, 100⟩], roots := [root, s.pml4] }) := Trace.single ⟨trivial, clean⟩ ⟨given, rfl⟩
  exact allocated.snoc ⟨held, trivial⟩ ⟨⟨0, fun _ _ => rfl⟩, rfl⟩

/-- Every run of clean calls is a run of the abstract machine with the same
calls and the same results, and ends in objects that do not meet. -/
theorem memory_refines_objects (ready : Ready info first s roots)
    (run : Trace MemoryStep (MemoryAllowed first) (s, { roots := roots }) es (t, h)) :
    Trace (Objects.Step info) anyStep (view s { roots := roots }) es (view t h) ∧ (view t h).Sound := by
  have abstract := (ready.run run).1
  exact ⟨abstract, Objects.trace_sound ready.sound abstract⟩

theorem memory_refines_objects_machine : ∃ s t root b,
    Trace (Objects.Step (machineInfo [region])) anyStep (view s { roots := [s.pml4] })
      [(.createProcessPML4 0 0 true, root), (.malloc 100, b), (.write b 7, null)]
      (view t { blocks := [⟨b, 100⟩], roots := [root, s.pml4] }) := by
  obtain ⟨s, t, u, root, b, ready, run, more⟩ := machine_run
  exact ⟨s, u, root, b, (memory_refines_objects ready (run.append more)).1⟩

/-- After any run, a call that is permitted and clean comes to an end: it
returns, or it panics because no frame is free. -/
theorem memory_calls_complete (ready : Ready info first s roots)
    (run : Trace MemoryStep (MemoryAllowed first) (s, { roots := roots }) es (t, h)) :
    ∀ call, h.Permits call → Clean first t call → Settles t call := by
  obtain ⟨_, mine, nodes, coexist⟩ := ready.run run
  exact fun call => coexist.settles ready.boot

theorem memory_calls_complete_machine : ∃ t b, Settles t (.free ⟨b, 100⟩) ∧ Settles t .pageAlloc := by
  obtain ⟨s, t, u, root, b, ready, run, more⟩ := machine_run
  have settles := memory_calls_complete ready (run.append more)
  exact ⟨u, b, settles (.free ⟨b, 100⟩) (List.mem_cons_self ..) trivial, settles .pageAlloc trivial trivial⟩

/-- Page tables have no byte of an object. -/
theorem Coexist.tables_apart {r a x : Nat} (coexist : Coexist info first mine nodes s h) (member : r ∈ h.roots)
    (table : IsTable s.mem r a) (low : a ≤ x) (high : x < a + 4096) : ¬ h.Holds x := by
  obtain ⟨offPages, offHeap⟩ := coexist.untabled r member a table
  obtain ⟨n, aligned⟩ := ((coexist.spaces.tables r member).held a table).aligned
  rintro ⟨e, object, has⟩
  rcases List.mem_append.mp object with block | page
  · obtain ⟨b, present, rfl⟩ := List.mem_map.mp block
    obtain ⟨a', frame, low', high'⟩ := heapByte_iff.mp (coexist.block_byte present has).2
    obtain ⟨m, place⟩ := frame.aligned coexist.heap.table
    have same : a' = a := by omega
    exact offHeap (same ▸ frame)
  · obtain ⟨p, present, rfl⟩ := List.mem_map.mp page
    obtain ⟨i, _, here, _, _⟩ := coexist.pages p present
    obtain ⟨m, place⟩ := coexist.heap.table.aligned
    simp only [Extent.Has] at has
    have same : p = a := by omega
    exact offPages (same ▸ present)

/-- Whatever the calls between, an object that they are not about keeps its
contents and an address space that they do not change translates as before.
Nothing that is handed out shares memory with the kernel's own tables. -/
theorem memory_keeps_objects (ready : Ready info first s roots)
    (run : Trace MemoryStep (MemoryAllowed first) (s, { roots := roots }) es (t, h))
    (more : Trace MemoryStep (MemoryAllowed first) (t, h) es' (u, h')) :
    (∀ x, h.Holds x → (∀ e ∈ es', ¬ Objects.Touches e.1 x) → h'.Holds x ∧ u.mem x = t.mem x) ∧
      (∀ r ∈ h.roots, (∀ e ∈ es', ¬ Objects.Remaps e.1 r) → r ∈ h'.roots ∧ ∀ v, translate u.mem r v = translate t.mem r v) ∧
      ∀ x, h'.Holds x → u.frameList + 16 * frameCount u ≤ x ∧
        ∀ r ∈ h'.roots, ∀ a, IsTable u.mem r a → x < a ∨ a + 4096 ≤ x := by
  obtain ⟨_, coexist⟩ := ready.run run
  obtain ⟨_, later, rfl, mine, nodes, coexist'⟩ := (memory_simulates ready.boot).trace ⟨rfl, coexist⟩ more
  refine ⟨fun x held off => ?_, fun r member off => ?_, fun x held => ⟨coexist'.above held, fun r member a table => ?_⟩⟩
  · have kept : (if h'.Holds x then some (u.mem x) else none) = some (t.mem x) :=
      Objects.trace_keeps_byte later (if_pos held) off
    split at kept
    · exact ⟨‹_›, Option.some.inj kept⟩
    · exact nomatch kept
  · have kept : (if r ∈ h'.roots then some (translate u.mem r) else none) = some (translate t.mem r) :=
      Objects.trace_keeps_space later (if_pos member) off
    split at kept
    · exact ⟨‹_›, congrFun (Option.some.inj kept)⟩
    · exact nomatch kept
  · by_contra inside
    exact coexist'.tables_apart member table (by omega) (by omega) held

theorem memory_keeps_objects_machine : ∃ s t u root b, Ready (machineInfo [region]) 0x40080000 s [s.pml4] ∧
    Trace MemoryStep (MemoryAllowed 0x40080000) (t, { roots := [root, s.pml4] }) [(.malloc 100, b), (.write b 7, null)]
      (u, { blocks := [⟨b, 100⟩], roots := [root, s.pml4] }) ∧
    ∀ v, translate u.mem root v = translate t.mem root v := by
  obtain ⟨s, t, u, root, b, ready, run, more⟩ := machine_run
  have kept := (memory_keeps_objects ready run more).2.1 root (List.mem_cons_self ..) fun e member => by
    rcases List.mem_cons.mp member with rfl | member
    · exact id
    · rw [List.mem_singleton.mp member]
      exact id
  exact ⟨s, t, u, root, b, ready, more, kept.2⟩

end System14
