import System14.Mm.FirstPage
import System14.Mm.MemoryManager
import System14.Multitasking.RecycledFrames

/-!
# Tasks on the kernel's memory

The scheduler's frames are blocks of the heap, the tables of the tasks share
their frames with the heap and the kernel's own tables, and every task has a page
for its stack. In every run from the start of the machine these objects keep out
of each other's way, so the scheduler behaves as it does on frames that are
simply fresh. The blocks come from one page and are never given back: there are
no more than seventeen tasks in the life of the system.
-/

namespace System14
open ByteMem Run Chain Extent Simulation

/-- A call of `AddTask` or `KeAddTask` with what the task has been given. -/
structure SystemTask where
  call : TaskCall
  frame : Nat
  cr3 : Nat
  stack : Nat

structure TaskSystem where
  kernel : Kernel
  scheduler : Scheduler
  tasks : List SystemTask

/-- Calls of `AddTask` and `KeAddTask`, the other events of the scheduler, and
stores of the kernel and the tasks. The frames are structures of the scheduler,
which alone changes them: no store goes into their blocks, and as these are never
given back their bytes are not looked at again. -/
inductive SystemEvent where
  | spawn (c : TaskCall)
  | scheduler (e : SchedulerEvent)
  | write (address : Nat) (value : UInt8)

def SchedulerEvent.adds : SchedulerEvent → Bool
  | .addTask .. | .keAddTask .. => true
  | _ => false

namespace TaskSystem

def used (y : TaskSystem) : List Nat := y.tasks.map SystemTask.frame

/-- The objects of the tasks, next to the address spaces that were there before. -/
def handles (tasks : List SystemTask) (roots : List Nat) : Handles where
  blocks := tasks.map fun p => ⟨p.frame, 224⟩
  pages := tasks.map SystemTask.stack
  roots := tasks.map SystemTask.cr3 ++ roots

end TaskSystem

def SystemStep : TaskSystem → SystemEvent → TaskSystem → Prop
  | y, .spawn c, z => ∃ given, Returns (fun fuel => spawn fuel c y.kernel y.scheduler) (given, z.kernel, z.scheduler) ∧
    z.tasks = ⟨c, given.frame, given.createProcessPML4 c.start c.stop c.kernel, given.stack⟩ :: y.tasks
  | y, .scheduler e, z => SchedulerStep (y.scheduler, y.used) e (z.scheduler, z.used) ∧ z.kernel = y.kernel ∧ z.tasks = y.tasks
  | y, .write address value, z =>
    z = { y with kernel := { y.kernel with mem := Function.update y.kernel.mem address value } }

/-- A user task does not map a page among the large ones, it takes a task to
exit, and only the stacks are written to. -/
def SystemAllowed (y : TaskSystem) : SystemEvent → Prop
  | .spawn c => c.kernel = true ∨ ProgramClear y.kernel.globalPagingInfo c.start c.stop false
  | .scheduler e => SchedulerAllowed (y.scheduler, y.used) e ∧ e.adds = false
  | .write address _ => ∃ p ∈ y.tasks, (Extent.mk p.stack 4096).Has address

variable {info : GlobalPagingInfo} {first n page total : Nat} {mine : Nat → Bool} {roots nodes : List Nat}
  {k k₀ k₁ k' : Kernel} {s s₀ t : Scheduler} {h : Handles} {c : TaskCall} {given : TaskMemory} {y z : TaskSystem}
  {e : SystemEvent} {es : List SystemEvent}

/-! ### The objects of a task -/

/-- `IntAddTask` has taken a block from the node `n` of `total` bytes, which left
`k₁` behind, then tables and a page. -/
structure Equipped (info : GlobalPagingInfo) (first : Nat) (h : Handles) (n total : Nat) (c : TaskCall) (k k₁ : Kernel)
    (given : TaskMemory) (k' : Kernel) : Prop where
  frame : given.frame = n + 16
  contents : given.contents = .read k₁.mem (n + 16)
  coexist : ∃ mine, Coexist info first mine [n + 240] k'
    { blocks := ⟨n + 16, 224⟩ :: h.blocks
      pages := given.stack :: h.pages
      roots := given.createProcessPML4 c.start c.stop c.kernel :: h.roots }
  rest : nodeSize k'.mem (n + 240) = total - 240
  kept : ∀ x, n + 240 ≤ x → x < n + 240 + (total - 240) → k'.mem x = k₁.mem x
  space : ∀ v, translate k'.mem (given.createProcessPML4 c.start c.stop c.kernel) v =
    spaceOf (info.processCalls c.start c.stop c.kernel) v
  others : ∀ r ∈ h.roots, ∀ v, translate k'.mem r v = translate k.mem r v

/-- A kernel task has no pages of its own. -/
theorem programRange (clear : c.kernel = true ∨ ProgramClear info c.start c.stop false) : ∃ start stop,
    ProgramClear info start stop c.kernel ∧
      info.processCalls start stop c.kernel = info.processCalls c.start c.stop c.kernel ∧
      ∀ fuel k, createProcessPML4 .halts fuel c.start c.stop c.kernel k =
        createProcessPML4 .halts fuel start stop c.kernel k := by
  cases kind : c.kernel with
  | true => exact ⟨0, 0, kernelTask_clear info, rfl, fun _ _ => rfl⟩
  | false =>
    refine ⟨c.start, c.stop, clear.resolve_left ?_, rfl, fun _ _ => rfl⟩
    rw [kind]
    exact Bool.false_ne_true

theorem HeapInv.node_byte {a x : Nat} {live : List Block} (inv : HeapInv first mine k nodes live) (member : a ∈ nodes)
    (low : a ≤ x) (high : x < a + nodeSize k.mem a) : HeapByte first mine k x :=
  inv.inside _ (mem_extents_node member) x ⟨low, high⟩

theorem Coexist.equipped (coexist : Coexist info first mine nodes k h) (boot : info.Boot)
    (clear : c.kernel = true ∨ ProgramClear info c.start c.stop false)
    (sliced : Sliced first mine h.blocks n total 224 k k₁)
    (returned : Returns (taskMemory · c.start c.stop c.kernel k) (given, k')) :
    Equipped info first h n total c k k₁ given k' := by
  obtain ⟨start, stop, program, calls, range⟩ := programRange clear
  have rest := sliced.rest
  rw [Nat.sub_sub] at rest
  obtain ⟨between, _, walks⟩ := coexist.heapStep sliced.heap sliced.move sliced.only fun _ => id
  obtain ⟨fuel, enough, run⟩ : ∃ fuel, 2 ^ 64 ≤ fuel ∧ taskMemory fuel c.start c.stop c.kernel k = .ok (given, k') := by
    obtain ⟨bound, run⟩ := returned
    exact ⟨_, Nat.le_max_right bound _, run _ (Nat.le_max_left _ _)⟩
  rw [taskMemory_of_malloc (sliced.call fuel (Nat.lt_of_lt_of_le (Nat.two_pow_pos 64) enough))] at run
  obtain ⟨⟨root, k₂⟩, create, run⟩ := bind_ok.mp run
  obtain ⟨⟨stack, k₃⟩, alloc, same⟩ := bind_ok.mp run
  cases same
  rw [range] at create
  have known := between.info
  have small := boot.kernelSmall
  have aligned := program.stopAligned
  have fits := program.fits
  have created : Returns (createProcessPML4 .halts · start stop c.kernel k₁) (root, k₂) :=
    createProcessPML4_steady (by rw [known]; omega) (by omega) fuel enough _ create
  obtain ⟨tables, kept, walks', _, space⟩ := between.createStep boot (known ▸ program) created
  obtain ⟨i, granted⟩ := pageAlloc_ok tables.heap.table alloc
  obtain ⟨final, _, walks''⟩ := tables.pageStep granted
  have kept : ∀ x, n + 240 ≤ x → x < n + 240 + (total - 240) → k'.mem x = k₁.mem x := by
    intro x low high
    have first := kept x (Or.inl (between.heap.node_byte List.mem_cons_self low (rest ▸ high)))
    have size : nodeSize k₂.mem (n + 240) = total - 240 := by
      refine (load_congr fun x low' high' => kept x (Or.inl ?_)).trans rest
      have large := between.heap.large _ List.mem_cons_self
      exact between.heap.node_byte List.mem_cons_self low' (by omega)
    have owned := tables.heap.node_byte List.mem_cons_self low (size ▸ high)
    exact (granted.confined.keeps_heap tables.heap.table (fun _ => False.elim) owned).trans first
  have large := between.heap.large _ List.mem_cons_self
  rw [rest] at large
  refine ⟨rfl, rfl, ⟨_, final⟩, ?_, kept, fun v => ?_, fun r member v => ?_⟩
  · exact (load_congr fun x low high => kept x low (by omega)).trans rest
  · rw [← calls]
    exact (walks'' root List.mem_cons_self v).trans (space v)
  · exact (walks'' r (List.mem_cons_of_mem _ member) v).trans ((walks' r member v).trans (walks r member v))

/-! ### The page of the frames -/

/-- What is left of the page behind `n` frames. -/
def restOfPage (page : Nat) : Nat → List Nat
  | 0 => []
  | n + 1 => [page + 240 * (n + 1)]

/-- The frames of the tasks are the first blocks of the heap, in one page that is
still blank behind them. -/
structure Staffed (info : GlobalPagingInfo) (first : Nat) (roots : List Nat) (k₀ : Kernel) (page : Nat) (y : TaskSystem) :
    Prop where
  coexist : ∃ mine, Coexist info first mine (restOfPage page y.tasks.length) y.kernel (TaskSystem.handles y.tasks roots)
  rest : 0 < y.tasks.length → nodeSize y.kernel.mem (page + 240 * y.tasks.length) + 240 * y.tasks.length = 4096
  blank : 0 < y.tasks.length → ∀ x, page + 240 * y.tasks.length + 16 ≤ x → x < page + 4096 → y.kernel.mem x = 0
  reached : SchedulerReach (y.scheduler, y.used)
  spaces : ∀ p ∈ y.tasks, (y.scheduler.frames (.heap p.frame)).cr3 = p.cr3 ∧
    ∀ v, translate y.kernel.mem p.cr3 v = spaceOf (info.processCalls p.call.start p.call.stop p.call.kernel) v
  older : ∀ r ∈ roots, ∀ v, translate y.kernel.mem r v = translate k₀.mem r v

theorem restOfPage_pos (some : 0 < n) : restOfPage page n = [page + 240 * n] := by
  obtain ⟨n, rfl⟩ := Nat.exists_eq_add_one.mpr some
  rfl

theorem Staffed.few (staffed : Staffed info first roots k₀ page y) : y.tasks.length ≤ 17 := by
  rcases Nat.eq_zero_or_pos y.tasks.length with none | some
  · omega
  · obtain ⟨mine, coexist⟩ := staffed.coexist
    have heap := coexist.heap
    rw [restOfPage_pos some] at heap
    have large := heap.large _ List.mem_cons_self
    have rest := staffed.rest some
    omega

/-- The next frame comes from the page, if there is room for it. -/
theorem Staffed.nextFrame (staffed : Staffed info first roots k₀ page y) (few : y.tasks.length < 17)
    (coexist : Coexist info first mine (restOfPage page y.tasks.length) y.kernel (TaskSystem.handles y.tasks roots)) :
    (∃ page' k₁, (0 < y.tasks.length → page' = page) ∧
      Sliced first mine (TaskSystem.handles y.tasks roots).blocks (page' + 240 * y.tasks.length) (4096 - 240 * y.tasks.length) 224
        y.kernel k₁ ∧
      ∀ x, page' + 240 * y.tasks.length + 16 ≤ x → x < page' + 4096 →
        (x < page' + 240 * y.tasks.length + 240 ∨ page' + 240 * y.tasks.length + 256 ≤ x) → k₁.mem x = 0) ∨
      ∀ fuel > 0, malloc .halts fuel 224 y.kernel = .error (.panic "No free mem left!") := by
  have heap := coexist.heap
  rcases Nat.eq_zero_or_pos y.tasks.length with none | some
  · rw [none] at heap ⊢
    rcases Nat.eq_zero_or_pos (freeFrames y.kernel) with exhausted | free
    · exact Or.inr fun fuel enough => malloc_exhausted heap (by decide) nofun exhausted enough
    · obtain ⟨page', place⟩ := firstFree_of_pos first free
      obtain ⟨k₁, sliced, _, zero⟩ := malloc_new_page heap (show 32 + 224 ≤ 4096 by decide) place
      exact Or.inl ⟨page', k₁, nofun, sliced, fun x low high off => zero x low high (by omega)⟩
  · have rest := staffed.rest some
    rw [restOfPage_pos some] at heap
    obtain ⟨k₁, sliced, _, kept⟩ := malloc_rest heap (show 32 + 224 ≤ nodeSize y.kernel.mem _ by omega)
    rw [show nodeSize y.kernel.mem (page + 240 * y.tasks.length) = 4096 - 240 * y.tasks.length by omega] at sliced
    exact Or.inl ⟨page, k₁, fun _ => rfl, sliced, fun x low high off =>
      (kept x low (by omega)).trans (staffed.blank some x low high)⟩

/-- With seventeen frames the page is full. -/
theorem Staffed.full (staffed : Staffed info first roots k₀ page y) (full : y.tasks.length = 17) {fuel : Nat}
    (enough : 1 < fuel) :
    malloc .halts fuel 224 y.kernel =
      .error (if 0 < freeFrames y.kernel then .nullDereference else .panic "No free mem left!") := by
  obtain ⟨mine, coexist⟩ := staffed.coexist
  have heap := coexist.heap
  have rest := staffed.rest (by omega)
  rw [restOfPage_pos (by omega)] at heap
  have small : nodeSize y.kernel.mem (page + 240 * y.tasks.length) < 224 + 16 := by omega
  split
  next free => exact malloc_stuck heap (by decide) small free enough
  next none =>
    refine malloc_exhausted heap (by decide) (fun a only => ?_) (by omega) enough
    rw [List.mem_singleton.mp only]
    exact small

/-! ### Steps -/

/-- A block that is handed out is not one that somebody has. -/
theorem Coexist.fresh_block {b : Block} {others : List Block} (coexist : Coexist info first mine nodes k h)
    (blocks : h.blocks = b :: others) (some : 0 < b.size) {b' : Block} (member : b' ∈ others) (some' : 0 < b'.size) :
    b'.ptr ≠ b.ptr := by
  intro same
  have disjoint := coexist.disjoint
  rw [Handles.extents, blocks, List.map_cons, List.cons_append, List.pairwise_cons] at disjoint
  have apart := disjoint.1 ⟨b'.ptr, b'.size⟩ (List.mem_append_left _ (List.mem_map_of_mem member)) b.ptr
    ⟨Nat.le_refl _, Nat.lt_add_of_pos_right some⟩
  exact apart ⟨Nat.le_of_eq same, by show b.ptr < b'.ptr + b'.size; omega⟩

theorem intAddTask_frame (added : intAddTask given c.taskName c.start c.stop c.kernel s = .ok t) :
    t.frames (.heap given.frame) = given.newFrame c.taskName c.start c.stop c.kernel s := by
  have other : FramePtr.heap given.frame ≠ .prochead := nofun
  rw [intAddTask_new] at added
  rw [← Except.ok.inj added]
  dsimp only
  rw [Function.update_of_ne other, Function.update_self]

/-- A new task is one that the scheduler gets with a frame that it has not had. -/
theorem spawn_schedules {used : List Nat} (reached : SchedulerReach (s, used)) (fresh : given.frame ∉ used)
    (added : intAddTask given c.taskName c.start c.stop c.kernel s = .ok t) : SchedulerReach (t, given.frame :: used) := by
  cases kind : c.kernel with
  | true =>
    rw [kind] at added
    exact reached.step (e := .keAddTask given c.taskName c.start c.stop) fresh ⟨added, rfl⟩
  | false =>
    rw [kind] at added
    exact reached.step (e := .addTask given c.taskName c.start c.stop) fresh ⟨added, rfl⟩

/-- What does not add a task leaves the tables of all tasks as they are. -/
theorem schedulerStep_cr3 {used used' : List Nat} {l : List FramePtr} {e : SchedulerEvent} (linkage : Linkage s used l)
    (quiet : e.adds = false) (taken : SchedulerStep (s, used) e (t, used')) (p : FramePtr) :
    (t.frames p).cr3 = (s.frames p).cr3 := by
  have marked : ∀ {t : Scheduler}, s.modify s.current ({ · with invalid := true }) = .ok t →
      (t.frames p).cr3 = (s.frames p).cr3 := by
    intro t call
    rw [modify_eq (modify_nonnull call)] at call
    cases call
    exact update_keeps ProcessFrame.cr3 (by rfl) p
  cases e with
  | tick stack =>
    obtain ⟨⟨r, returned⟩, _⟩ := taken
    rw [(tick_turned linkage.1 linkage.2.1 returned).frames p]
  | addTask => cases quiet
  | keAddTask => cases quiet
  | processExit => exact marked taken.1
  | exception exceptionType => exact marked (commonExceptionHandler_ok taken.1)
  | markSchedulingActive =>
    rw [taken.1]
    rfl

/-- A call that has returned has found room in the page, which was blank. -/
theorem Staffed.equipped (staffed : Staffed info first roots k₀ page y) (boot : info.Boot)
    (allowed : SystemAllowed y (.spawn c)) (memory : Returns (taskMemory · c.start c.stop c.kernel y.kernel) (given, k')) :
    y.tasks.length < 17 ∧ ∃ page' k₁,
      Equipped info first (TaskSystem.handles y.tasks roots) (page' + 240 * y.tasks.length) (4096 - 240 * y.tasks.length) c
        y.kernel k₁ given k' ∧
      ∀ x, page' + 240 * y.tasks.length + 16 ≤ x → x < page' + 4096 →
        (x < page' + 240 * y.tasks.length + 240 ∨ page' + 240 * y.tasks.length + 256 ≤ x) → k₁.mem x = 0 := by
  obtain ⟨mine, coexist⟩ := staffed.coexist
  have allowed : c.kernel = true ∨ ProgramClear y.kernel.globalPagingInfo c.start c.stop false := allowed
  rw [coexist.info] at allowed
  have runs : ∀ e, ¬ ∀ fuel > 1, malloc .halts fuel 224 y.kernel = .error e := by
    intro e stops
    obtain ⟨bound, call⟩ := memory
    have call : taskMemory (max bound 2) c.start c.stop c.kernel y.kernel = .ok (given, k') := call _ (Nat.le_max_left _ _)
    unfold taskMemory at call
    rw [stops _ (Nat.lt_of_lt_of_le (by decide) (Nat.le_max_right bound 2))] at call
    cases call
  have few : y.tasks.length < 17 :=
    Nat.lt_of_le_of_ne staffed.few fun full => runs _ fun fuel enough => staffed.full full enough
  obtain ⟨page', k₁, _, sliced, blank⟩ := (staffed.nextFrame few coexist).resolve_right fun stops =>
    runs _ fun fuel enough => stops fuel (Nat.lt_of_succ_lt enough)
  exact ⟨few, page', k₁, coexist.equipped boot allowed sliced memory, blank⟩

theorem Staffed.spawned (staffed : Staffed info first roots k₀ page y) (boot : info.Boot)
    (allowed : SystemAllowed y (.spawn c)) (taken : SystemStep y (.spawn c) z) :
    ∃ page', Staffed info first roots k₀ page' z := by
  obtain ⟨given, returned, tasks⟩ := taken
  obtain ⟨memory, added⟩ := spawn_returned returned
  obtain ⟨few, page', k₁, equipped, blank⟩ := staffed.equipped boot allowed memory
  obtain ⟨mine', coexist'⟩ := equipped.coexist
  have place : page' + 240 * y.tasks.length + 240 = page' + 240 * (y.tasks.length + 1) := by omega
  have frame := equipped.frame
  have fresh : given.frame ∉ y.used := by
    intro member
    obtain ⟨p, old, here⟩ := List.mem_map.mp member
    have block : (⟨p.frame, 224⟩ : Block) ∈ (TaskSystem.handles y.tasks roots).blocks := List.mem_map_of_mem old
    exact coexist'.fresh_block rfl (Nat.zero_lt_of_lt (Nat.lt_succ_self 223)) block (Nat.zero_lt_of_lt (Nat.lt_succ_self 223))
      (here.trans frame)
  obtain ⟨_, _, frames⟩ := intAddTask_frames added
  refine ⟨page', ⟨mine', ?_⟩, fun _ => ?_, fun _ x low high => ?_, ?_, ?_, fun r member v => ?_⟩
  · rw [tasks, List.length_cons, restOfPage, ← place]
    have blocks : (⟨page' + 240 * y.tasks.length + 16, 224⟩ : Block) = ⟨given.frame, 224⟩ := by rw [frame]
    rw [blocks] at coexist'
    exact coexist'
  · have rest := equipped.rest
    rw [tasks, List.length_cons, ← place, rest]
    omega
  · rw [tasks, List.length_cons, ← place] at low
    exact (equipped.kept x (by omega) (by omega)).trans (blank x (by omega) high (Or.inr (by omega)))
  · show SchedulerReach (z.scheduler, z.tasks.map SystemTask.frame)
    rw [tasks]
    exact spawn_schedules staffed.reached fresh added
  · rw [tasks]
    intro p member
    rcases List.mem_cons.mp member with rfl | old
    · refine ⟨?_, equipped.space⟩
      rw [intAddTask_frame added]
      rfl
    · obtain ⟨cr3, space⟩ := staffed.spaces p old
      have other : FramePtr.heap p.frame ≠ .heap given.frame := fun same =>
        fresh (FramePtr.heap.inj same ▸ List.mem_map_of_mem old)
      refine ⟨?_, fun v => ?_⟩
      · rw [frames _ other]
        exact cr3
      · exact (equipped.others p.cr3 (List.mem_append_left _ (List.mem_map_of_mem old)) v).trans (space v)
  · exact (equipped.others r (List.mem_append_right _ member) v).trans (staffed.older r member v)

/-- Objects have no byte of the heap's free memory. -/
theorem Coexist.node_free {a x : Nat} (coexist : Coexist info first mine nodes k h) (member : a ∈ nodes) (low : a ≤ x)
    (high : x < a + nodeSize k.mem a) : ¬ h.Holds x := by
  rintro ⟨e, object, has⟩
  rcases List.mem_append.mp object with block | page
  · obtain ⟨b, present, rfl⟩ := List.mem_map.mp block
    have apart := (List.pairwise_append.mp coexist.heap.separate).2.2 _ (List.mem_map_of_mem member) _
      (List.mem_map_of_mem present)
    exact apart.not_has ⟨low, high⟩ (coexist.block_byte present has).1
  · obtain ⟨p, present, rfl⟩ := List.mem_map.mp page
    exact coexist.page_not_heap present has (coexist.heap.node_byte member low high)

theorem Staffed.scheduled {e : SchedulerEvent} (staffed : Staffed info first roots k₀ page y)
    (allowed : SystemAllowed y (.scheduler e)) (taken : SystemStep y (.scheduler e) z) :
    Staffed info first roots k₀ page z := by
  obtain ⟨kernel, scheduler, tasks⟩ := z
  obtain ⟨step, rfl, rfl⟩ := taken
  obtain ⟨l, linkage⟩ := schedulerReach_linkage staffed.reached
  refine ⟨staffed.coexist, staffed.rest, staffed.blank, staffed.reached.step allowed.1 step, fun p member => ?_, staffed.older⟩
  obtain ⟨cr3, space⟩ := staffed.spaces p member
  exact ⟨(schedulerStep_cr3 linkage allowed.2 step _).trans cr3, space⟩

theorem Staffed.written {address : Nat} {value : UInt8} (staffed : Staffed info first roots k₀ page y)
    (held : (TaskSystem.handles y.tasks roots).Holds address) :
    Staffed info first roots k₀ page
      { y with kernel := { y.kernel with mem := Function.update y.kernel.mem address value } } := by
  obtain ⟨mine, coexist⟩ := staffed.coexist
  obtain ⟨after, walks⟩ := coexist.writeStep value held
  have kept : 0 < y.tasks.length → ∀ x, page + 240 * y.tasks.length ≤ x → x < page + 4096 →
      Function.update y.kernel.mem address value x = y.kernel.mem x := by
    intro some x low high
    have rest := staffed.rest some
    have here : page + 240 * y.tasks.length ∈ restOfPage page y.tasks.length := by
      rw [restOfPage_pos some]
      exact List.mem_cons_self
    refine Function.update_of_ne (fun same : x = address => ?_) _ _
    exact coexist.node_free here low (by omega) (same ▸ held)
  refine ⟨after, fun some => ?_, fun some x low high => ?_, staffed.reached, fun p member => ?_, fun r member v => ?_⟩
  · have few := staffed.few
    have rest := staffed.rest some
    have small : page + 240 * y.tasks.length + 8 ≤ page + 4096 := by omega
    rw [← rest]
    exact congrArg (· + 240 * y.tasks.length)
      (load_congr fun x low high => kept some x low (Nat.lt_of_lt_of_le high small))
  · exact (kept some x (Nat.le_trans (Nat.le_add_right _ 16) low) high).trans (staffed.blank some x low high)
  · obtain ⟨cr3, space⟩ := staffed.spaces p member
    exact ⟨cr3, fun v => (walks p.cr3 (List.mem_append_left _ (List.mem_map_of_mem member)) v).trans (space v)⟩
  · exact (walks r (List.mem_append_right _ member) v).trans (staffed.older r member v)

theorem stack_held {p : SystemTask} {x : Nat} (member : p ∈ y.tasks) (inside : (Extent.mk p.stack 4096).Has x) :
    (TaskSystem.handles y.tasks roots).Holds x :=
  ⟨_, List.mem_append_right _ (List.mem_map_of_mem (List.mem_map_of_mem member)), inside⟩

theorem Staffed.step (boot : info.Boot) (staffed : ∃ page, Staffed info first roots k₀ page y)
    (allowed : SystemAllowed y e) (taken : SystemStep y e z) : ∃ page, Staffed info first roots k₀ page z := by
  obtain ⟨page, staffed⟩ := staffed
  cases e with
  | spawn c => exact staffed.spawned boot allowed taken
  | scheduler e => exact ⟨page, staffed.scheduled allowed taken⟩
  | write address value =>
    obtain ⟨p, member, inside⟩ := allowed
    cases taken
    exact ⟨page, staffed.written (stack_held member inside)⟩

theorem Ready.staffed (ready : Ready info first k₀ roots) (initial : s₀.Initial) (page : Nat) :
    Staffed info first roots k₀ page ⟨k₀, s₀, []⟩ :=
  ⟨⟨_, ready.coexist⟩, fun some => absurd some (Nat.lt_irrefl 0), fun some => absurd some (Nat.lt_irrefl 0),
    .init ⟨initial, rfl⟩, nofun, fun _ _ _ => rfl⟩

/-! ### Calls to come -/

/-- While the page has room, adding a task ends: with the task, or because no frame is free. -/
theorem Staffed.spawn_ends (staffed : Staffed info first roots k₀ page y) (boot : info.Boot)
    (allowed : SystemAllowed y (.spawn c)) (few : y.tasks.length < 17) :
    ReturnsOr (.panic "No free mem left!") fun fuel => spawn fuel c y.kernel y.scheduler := by
  obtain ⟨mine, coexist⟩ := staffed.coexist
  have allowed : c.kernel = true ∨ ProgramClear y.kernel.globalPagingInfo c.start c.stop false := allowed
  rw [coexist.info] at allowed
  have memory : ReturnsOr (.panic "No free mem left!") (taskMemory · c.start c.stop c.kernel y.kernel) := by
    rcases staffed.nextFrame few coexist with ⟨page', k₁, _, sliced, _⟩ | stops
    · obtain ⟨start, stop, program, _, range⟩ := programRange allowed
      obtain ⟨between, _, _⟩ := coexist.heapStep sliced.heap sliced.move sliced.only fun _ => id
      have tables : ReturnsOr (.panic "No free mem left!") (tablesAndStack · c (page' + 240 * y.tasks.length + 16)
          (.read k₁.mem (page' + 240 * y.tasks.length + 16)) k₁) := by
        have known : ProgramClear k₁.globalPagingInfo start stop c.kernel := between.info ▸ program
        have create : ReturnsOr (.panic "No free mem left!") (createProcessPML4 .halts · c.start c.stop c.kernel k₁) := by
          have settles : Settles k₁ (.createProcessPML4 start stop c.kernel) := between.settles boot trivial known
          exact ReturnsOr.congr 0 settles fun fuel _ => range fuel k₁
        refine create.bind fun r created => ?_
        obtain ⟨root, k₂⟩ := r
        have created : Returns (createProcessPML4 .halts · start stop c.kernel k₁) (root, k₂) := by
          rw [funext fun fuel => range fuel k₁] at created
          exact created
        obtain ⟨after, _⟩ := between.createStep boot known created
        have settles : Settles k₂ .pageAlloc := after.settles boot trivial trivial
        have page : ReturnsOr (.panic "No free mem left!") fun _ => pageAlloc .halts k₂ := settles
        exact page.bind fun _ _ => Or.inl ⟨_, Returns.now⟩
      exact ReturnsOr.congr 1 tables fun fuel enough => taskMemory_of_malloc (sliced.call fuel enough)
    · refine Or.inr ⟨1, fun fuel enough => ?_⟩
      show taskMemory fuel c.start c.stop c.kernel y.kernel = _
      unfold taskMemory
      rw [stops fuel enough]
      rfl
  refine memory.bind fun r _ => Or.inl ?_
  obtain ⟨given, k'⟩ := r
  simp only [intAddTask_new, ok_bind]
  exact ⟨_, Returns.now⟩

/-- A new task is valid, and has no registers but those that it is given. -/
structure StartsClear (c : TaskCall) (stack : Nat) (f : ProcessFrame) : Prop where
  valid : f.invalid = false
  registers : f.registers =
    { Registers.zero with cs := 0x08, rip := .ofNat 64 c.start, ss := 0x10, rsp := .ofNat 64 stack, flags := 0x202 }

theorem read_blank (a : Nat) : ProcessFrame.read (fun _ => 0) a = .zero := by
  have blank : ∀ a, load 8 (fun _ => 0) a = 0 := fun a => load_of_zero fun _ _ _ => rfl
  have word : ∀ a, readWord (fun _ => 0) a = 0 := fun a => by
    rw [readWord, blank]
    rfl
  unfold ProcessFrame.read Registers.read
  rw [blank, blank]
  simp only [word]
  rfl

theorem copyName_zero (name : List UInt8) : (ProcessFrame.zero.copyName name).registers = .zero := by
  unfold ProcessFrame.copyName
  dsimp only
  split
  · rfl
  · rfl

/-- The page has nothing of older tasks behind the frames, so new tasks start clear. -/
theorem Staffed.spawn_clear (staffed : Staffed info first roots k₀ page y) (boot : info.Boot)
    (allowed : SystemAllowed y (.spawn c))
    (returned : Returns (fun fuel => spawn fuel c y.kernel y.scheduler) (given, k', t)) :
    StartsClear c given.stack (t.frames (.heap given.frame)) := by
  obtain ⟨memory, added⟩ := spawn_returned returned
  obtain ⟨few, page', k₁, equipped, blank⟩ := staffed.equipped boot allowed memory
  have zero : given.contents = .zero := by
    rw [equipped.contents, ← read_blank (page' + 240 * y.tasks.length + 16)]
    exact read_congr fun x low high => blank x low (by omega) (Or.inl (by omega))
  rw [intAddTask_frame added]
  refine ⟨?_, ?_⟩
  · show given.contents.invalid = false
    rw [zero]
    rfl
  · show given.initial c.taskName c.start = _
    rw [TaskMemory.initial, zero, copyName_zero]

/-- When it has none, adding a task follows a null pointer. -/
theorem Staffed.spawn_stuck (staffed : Staffed info first roots k₀ page y) (full : y.tasks.length = 17)
    (free : 0 < freeFrames y.kernel) (c : TaskCall) {fuel : Nat} (enough : 1 < fuel) :
    spawn fuel c y.kernel y.scheduler = .error .nullDereference := by
  have call := staffed.full full enough
  rw [if_pos free] at call
  unfold spawn taskMemory
  rw [call]
  rfl

/-! ### Runs -/

theorem Ready.staffed_run (ready : Ready info first k₀ roots) (initial : s₀.Initial)
    (run : Trace SystemStep SystemAllowed ⟨k₀, s₀, []⟩ es y) : ∃ page, Staffed info first roots k₀ page y :=
  run.invariant (I := fun y => ∃ page, Staffed info first roots k₀ page y) ⟨0, ready.staffed initial 0⟩
    fun _ _ _ staffed allowed taken => Staffed.step ready.boot staffed allowed taken

def noTasks : Scheduler := ⟨1, false, .null, fun _ => .zero⟩

/-- A kernel task on a machine with 128 MiB, right after boot. -/
theorem machine_staff : ∃ k₀ y, Ready (machineInfo [region]) 0x40080000 k₀ [k₀.pml4] ∧ y.tasks.length = 1 ∧
    Trace SystemStep SystemAllowed ⟨k₀, noTasks, []⟩ [.spawn ⟨[0x61], 0, 0, true⟩] y := by
  obtain ⟨k₀, ready, enough⟩ := machine_ready
  have boot := ready.boot
  have few := kernelTask_few
  obtain ⟨page, place⟩ := firstFree_of_pos 0x40080000 (Nat.lt_of_lt_of_le (by decide : 0 < 20000) enough)
  obtain ⟨k₁, sliced, left, _⟩ := malloc_new_page ready.coexist.heap (show 32 + 224 ≤ 4096 by decide) place
  obtain ⟨between, _, _⟩ := ready.coexist.heapStep sliced.heap sliced.move sliced.only fun _ => id
  rw [← between.info] at boot few
  have small := boot.kernelSmall
  obtain ⟨⟨root, k₂⟩, create, i, u, granted, built⟩ := (createProcessPML4_yields between.spaces.frames between.spaces.pool
    boot (kernelTask_clear _) (Nat.le_refl _)).returns fun e => Or.inr (by omega)
  change Granted k₁ 0x40080000 i root u at granted
  change Built 0x40080000 root _ u k₂ at built
  have created := createProcessPML4_returns (by omega) (by omega) create
  have before := granted.freeFrames
  have after := built.frames
  obtain ⟨⟨stack, k₃⟩, alloc, _⟩ := (pageAlloc_grant built.tables.frames).returns fun e => Or.inr (by omega)
  obtain ⟨given, memory⟩ : ∃ given : TaskMemory, given =
      ⟨page + 16, ProcessFrame.read k₁.mem (page + 16), fun _ _ _ => root, stack⟩ := ⟨_, rfl⟩
  obtain ⟨bound, created⟩ := created
  have returned : Returns (taskMemory · 0 0 true k₀) (given, k₃) := by
    refine ⟨max bound 1, fun fuel enough => ?_⟩
    have created := created fuel (Nat.le_trans (Nat.le_max_left _ _) enough)
    have call := sliced.call fuel (Nat.le_trans (Nat.le_max_right _ _) enough)
    dsimp only at created ⊢
    unfold taskMemory
    simp only [call, created, alloc, ok_bind, pure_eq_ok, ← memory]
  obtain ⟨t, added⟩ : ∃ t, intAddTask given [0x61] 0 0 true noTasks = .ok t := ⟨_, intAddTask_new _ _ _ _ _ _⟩
  refine ⟨k₀, ⟨k₃, t, [⟨⟨[0x61], 0, 0, true⟩, given.frame, given.createProcessPML4 0 0 true, given.stack⟩]⟩, ready, rfl,
    .single (Or.inl rfl) ⟨given, ?_, rfl⟩⟩
  exact spawn_returns (c := ⟨[0x61], 0, 0, true⟩) returned added

/-- From the start of the machine the scheduler runs on the kernel's memory as it
does on fresh frames: the frames and stacks of the tasks keep apart, a frame
always has the tables that were made for its task, and these translate as they
did at first, like those of the kernel. -/
theorem tasks_keep_apart (ready : Ready info first k₀ roots) (initial : s₀.Initial)
    (run : Trace SystemStep SystemAllowed ⟨k₀, s₀, []⟩ es y) :
    SchedulerReach (y.scheduler, y.used) ∧
      ((TaskSystem.handles y.tasks roots).extents.Pairwise fun e f => ∀ x, e.Has x → ¬ f.Has x) ∧
      (∀ p ∈ y.tasks, (y.scheduler.frames (.heap p.frame)).cr3 = p.cr3 ∧
        ∀ v, translate y.kernel.mem p.cr3 v = spaceOf (info.processCalls p.call.start p.call.stop p.call.kernel) v) ∧
      ∀ r ∈ roots, ∀ v, translate y.kernel.mem r v = translate k₀.mem r v := by
  obtain ⟨page, staffed⟩ := ready.staffed_run initial run
  obtain ⟨mine, coexist⟩ := staffed.coexist
  exact ⟨staffed.reached, coexist.disjoint, staffed.spaces, staffed.older⟩

theorem noTasks_initial : noTasks.Initial := ⟨rfl, rfl, rfl, rfl⟩

theorem tasks_keep_apart_machine : ∃ (k₀ : Kernel) (y : TaskSystem), y.tasks.length = 1 ∧ SchedulerReach (y.scheduler, y.used) ∧
    (∀ p ∈ y.tasks, (y.scheduler.frames (.heap p.frame)).cr3 = p.cr3) ∧
    ∀ v, translate y.kernel.mem k₀.pml4 v = translate k₀.mem k₀.pml4 v := by
  obtain ⟨k₀, y, ready, one, run⟩ := machine_staff
  obtain ⟨reached, _, spaces, older⟩ := tasks_keep_apart ready noTasks_initial run
  exact ⟨k₀, y, one, reached, fun p member => (spaces p member).1, older k₀.pml4 (List.mem_singleton_self _)⟩

/-- In every such run at most seventeen tasks are ever added. Before, a call that
adds one ends with a task that starts clear, or because no frame is free; after,
it follows a null pointer, even if all other tasks have exited. -/
theorem seventeen_tasks (ready : Ready info first k₀ roots) (initial : s₀.Initial)
    (run : Trace SystemStep SystemAllowed ⟨k₀, s₀, []⟩ es y) : y.tasks.length ≤ 17 ∧
    ∀ c, SystemAllowed y (.spawn c) →
      (y.tasks.length < 17 → ReturnsOr (.panic "No free mem left!") fun fuel => spawn fuel c y.kernel y.scheduler) ∧
      (∀ given k' t, Returns (fun fuel => spawn fuel c y.kernel y.scheduler) (given, k', t) →
        StartsClear c given.stack (t.frames (.heap given.frame))) ∧
      (y.tasks.length = 17 → 0 < freeFrames y.kernel →
        ∀ fuel > 1, spawn fuel c y.kernel y.scheduler = .error .nullDereference) := by
  obtain ⟨page, staffed⟩ := ready.staffed_run initial run
  exact ⟨staffed.few, fun c allowed => ⟨staffed.spawn_ends ready.boot allowed,
    fun _ _ _ => staffed.spawn_clear ready.boot allowed,
    fun full free _ => staffed.spawn_stuck full free c⟩⟩

theorem seventeen_tasks_machine : ∃ y : TaskSystem, y.tasks.length = 1 ∧
    ReturnsOr (.panic "No free mem left!") fun fuel => spawn fuel ⟨[0x62], 0, 0, true⟩ y.kernel y.scheduler := by
  obtain ⟨k₀, y, ready, one, run⟩ := machine_staff
  obtain ⟨_, calls⟩ := seventeen_tasks ready noTasks_initial run
  exact ⟨y, one, (calls ⟨[0x62], 0, 0, true⟩ (Or.inl rfl)).1 (by omega)⟩

end System14
