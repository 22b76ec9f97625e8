import System14.Mm.HeapRun
import System14.Mm.Isolation
import System14.Multitasking.Contexts

/-!
# The memory of a task

`IntAddTask` takes the frame of a task from the heap, its tables from
`CreateProcessPML4` and a page for its stack from `PageAlloc`. It starts the
task with that page as its stack pointer. A stack grows downwards, so the first
word that the task pushes lies below the page.
-/

namespace System14
open ByteMem Run WordStack

variable {s t : Scheduler} {k k' : Kernel}

/-! ### `struct ProcessFrame` in memory -/

def readWord (m : Mem) (a : Nat) : Word := .ofNat 64 (load 8 m a)

def Registers.read (m : Mem) (a : Nat) : Registers :=
  ⟨readWord m a, readWord m (a + 8), readWord m (a + 16), readWord m (a + 24), readWord m (a + 32), readWord m (a + 40),
    readWord m (a + 48), readWord m (a + 56), readWord m (a + 64), readWord m (a + 72), readWord m (a + 80),
    readWord m (a + 88), readWord m (a + 96), readWord m (a + 104), readWord m (a + 112), readWord m (a + 120),
    readWord m (a + 128), readWord m (a + 136), readWord m (a + 144), readWord m (a + 152)⟩

def FramePtr.read (address : Nat) : FramePtr := if address = System14.null then .null else .heap address

/-- The registers are packed, so they follow the name without a gap; the fields after them are aligned. -/
def ProcessFrame.read (m : Mem) (a : Nat) : ProcessFrame where
  pid := m a
  processName := Vector.ofFn fun i => m (a + 1 + i)
  registers := .read m (a + 33)
  quanta := m (a + 193)
  cr3 := load 8 m (a + 200)
  invalid := m (a + 208) ≠ 0
  next := .read (load 8 m (a + 216))

/-! ### Adding a task -/

/-- The allocations of `IntAddTask`, in its order. `sizeof(struct ProcessFrame)` is 224. -/
def taskMemory (fuel start stop : Nat) (kernel : Bool) (k : Kernel) : Except Stop (TaskMemory × Kernel) := do
  let (frame, k) ← malloc .halts fuel 224 k
  let contents := ProcessFrame.read k.mem frame
  let (cr3, k) ← createProcessPML4 .halts fuel start stop kernel k
  let (stack, k) ← pageAlloc .halts k
  return (⟨frame, contents, fun _ _ _ => cr3, stack⟩, k)

structure TaskCall where
  taskName : List UInt8
  start : Nat
  stop : Nat
  kernel : Bool

/-- `AddTask`, or `KeAddTask` if `kernel` is set, with the memory of the task. -/
def spawn (fuel : Nat) (c : TaskCall) (k : Kernel) (s : Scheduler) : Except Stop (TaskMemory × Kernel × Scheduler) := do
  let (given, k) ← taskMemory fuel c.start c.stop c.kernel k
  let s ← intAddTask given c.taskName c.start c.stop c.kernel s
  return (given, k, s)

/-- A task as it was created: its stack page and the registers it starts with. -/
structure Spawned where
  stack : Nat
  registers : Registers

def SpawnStep : (Kernel × Scheduler) × List Spawned → TaskCall → (Kernel × Scheduler) × List Spawned → Prop
  | ((k, s), tasks), c, ((k', t), tasks') => ∃ given, Returns (fun fuel => spawn fuel c k s) (given, k', t) ∧
    tasks' = ⟨given.stack, (t.frames (.heap given.frame)).registers⟩ :: tasks

/-- The states that calls of `AddTask` and `KeAddTask` lead to, on any machine. -/
def SpawnReach : (Kernel × Scheduler) × List Spawned → Prop := Reach (·.2 = []) SpawnStep anyStep

/-! ### The stack -/

/-- The bytes of the word that the first push writes. -/
def FirstPush (sp : Word) (x : Nat) : Prop := ∃ i < 8, x = (sp - 8 + .ofNat 64 i).toNat

/-- The first push of the task stays in the page that `PageAlloc` returned for its stack. -/
def Spawned.OwnsStack (task : Spawned) : Prop :=
  ∀ x, FirstPush task.registers.rsp x → task.stack ≤ x ∧ x < task.stack + 4096

theorem pageAlloc_lt {p : Nat} (call : pageAlloc .halts k = .ok (p, k')) : p < 2 ^ 64 := by
  unfold pageAlloc at call
  split at call
  · cases call
    exact load_lt 8 _ _
  · cases call

theorem firstPush_outside {stack x : Nat} (small : stack < 2 ^ 64) (push : FirstPush (.ofNat 64 stack) x) :
    x < stack ∨ stack + 4096 ≤ x := by
  obtain ⟨i, lt, rfl⟩ := push
  have eight : (8 : Word).toNat = 8 := rfl
  simp only [BitVec.toNat_add, BitVec.toNat_sub, BitVec.toNat_ofNat, eight]
  omega

theorem spawn_stack {fuel : Nat} {c : TaskCall} {given : TaskMemory} (call : spawn fuel c k s = .ok (given, k', t)) :
    given.stack < 2 ^ 64 ∧ (t.frames (.heap given.frame)).registers.rsp = .ofNat 64 given.stack := by
  obtain ⟨⟨given', k₁⟩, memory, rest⟩ := bind_ok.mp call
  obtain ⟨s', added, same⟩ := bind_ok.mp rest
  cases same
  obtain ⟨⟨frame, k₂⟩, _, rest⟩ := bind_ok.mp memory
  obtain ⟨⟨cr3, k₃⟩, _, rest⟩ := bind_ok.mp rest
  obtain ⟨⟨stack, k₄⟩, page, same⟩ := bind_ok.mp rest
  cases same
  refine ⟨pageAlloc_lt page, ?_⟩
  rw [intAddTask_registers added]
  rfl

theorem spawn_astray {fuel : Nat} {c : TaskCall} {given : TaskMemory} (call : spawn fuel c k s = .ok (given, k', t)) :
    ¬ Spawned.OwnsStack ⟨given.stack, (t.frames (.heap given.frame)).registers⟩ ∧
      ∀ x, FirstPush (t.frames (.heap given.frame)).registers.rsp x → x < given.stack ∨ given.stack + 4096 ≤ x := by
  obtain ⟨small, pointer⟩ := spawn_stack call
  have outside : ∀ x, FirstPush (t.frames (.heap given.frame)).registers.rsp x →
      x < given.stack ∨ given.stack + 4096 ≤ x := by
    rw [pointer]
    exact fun x => firstPush_outside small
  refine ⟨fun owns => ?_, outside⟩
  have push : FirstPush (t.frames (.heap given.frame)).registers.rsp _ := ⟨0, by decide, rfl⟩
  have inside := owns _ push
  have far := outside _ push
  simp only at inside
  omega

/-- No task ever owns the stack it starts with: every byte of the first word it
pushes lies outside the page that was allocated for it. -/
theorem no_task_owns_stack {state : (Kernel × Scheduler) × List Spawned} (reached : SpawnReach state) :
    ∀ task ∈ state.2, ¬ task.OwnsStack ∧
      ∀ x, FirstPush task.registers.rsp x → x < task.stack ∨ task.stack + 4096 ≤ x := by
  refine Reach.invariant (I := fun state : (Kernel × Scheduler) × List Spawned => ∀ task ∈ state.2, ¬ task.OwnsStack ∧
    ∀ x, FirstPush task.registers.rsp x → x < task.stack ∨ task.stack + 4096 ≤ x) reached ?_ ?_
  · intro state start task member
    rw [start] at member
    cases member
  · intro state c state' before _ taken
    obtain ⟨⟨k, s⟩, tasks⟩ := state
    obtain ⟨⟨k', t⟩, tasks'⟩ := state'
    obtain ⟨given, ⟨bound, call⟩, rfl⟩ := taken
    intro task member
    rcases List.mem_cons.mp member with rfl | old
    · exact spawn_astray (call bound (Nat.le_refl _))
    · exact before task old

/-! ### A task on the machine -/

/-- The page below the one that `PageAlloc` returns has been handed out before, if it is a frame. -/
theorem Granted.firstPush {first i p x : Nat} (granted : Granted k first i p k') (frames : FrameTable k first)
    (push : FirstPush (.ofNat 64 p) x) :
    i = 0 ∧ x < first ∨ ∃ j, i = j + 1 ∧ frameFree k j = false ∧ first + 4096 * j ≤ x ∧ x < first + 4096 * j + 4096 := by
  have page := granted.page
  have lt := granted.lt
  have above := frames.above
  have fits := frames.fits
  obtain ⟨n, aligned⟩ := frames.aligned
  have here : p - 8 ≤ x ∧ x < p := by
    obtain ⟨b, small, rfl⟩ := push
    have eight : (8 : Word).toNat = 8 := rfl
    simp only [BitVec.toNat_add, BitVec.toNat_sub, BitVec.toNat_ofNat, eight]
    omega
  cases i with
  | zero => exact Or.inl ⟨rfl, by omega⟩
  | succ j => exact Or.inr ⟨j, rfl, granted.least j (by omega), by omega, by omega⟩

/-- A kernel task on the machine, right after boot. Frame 0 holds the kernel's PML4. -/
theorem machine_spawn : ∃ k given k' t, k.globalPagingInfo = machineInfo [region] ∧
    Returns (fun fuel => spawn fuel ⟨[0x61], 0, 0, true⟩ k ⟨1, false, .null, fun _ => .zero⟩) (given, k', t) ∧
    ∃ k₁ i, pageAlloc .halts k₁ = .ok (given.stack, k') ∧ Granted k₁ 0x40080000 i given.stack k' ∧
      FrameTable k₁ 0x40080000 ∧ 0 < i := by
  obtain ⟨_, k, _, _, _, kernel, info, enough, _, _, empty⟩ := machine_kernel
  have frames := kernel.tables.frames
  have boot := machine_boot region_low
  have few := kernelTask_few
  obtain ⟨⟨p, k₁⟩, alloc, i, granted⟩ := (pageAlloc_grant frames).returns fun e => Or.inr (by omega)
  change Granted k 0x40080000 i p k₁ at granted
  have count := granted.freeFrames
  obtain ⟨k₂, heap, writes, _⟩ := malloc_page frames empty alloc granted (show 224 + 16 < 4096 by decide)
  have writes := (writes (by decide)).1
  have same := writes.sameTable granted frames
  have count₂ := same.freeFrames
  have info₂ : k₂.globalPagingInfo = machineInfo [region] := by rw [writes.globals, granted.globals, info]
  have older : ∀ j < frameCount k₂, frameFree k₂ j = true → j < frameCount k ∧ frameFree k j = true := by
    intro j lt free
    rw [same.count] at lt
    rw [same.free lt] at free
    rw [granted.count] at lt
    exact ⟨lt, granted.taken_free lt free⟩
  rw [← info₂] at boot few
  have small := boot.kernelSmall
  obtain ⟨⟨root, k₃⟩, create, j, k', first, built⟩ := (createProcessPML4_yields (granted.table.congr same)
    (fun j lt free => kernel.tables.pool j (older j lt free).1 (older j lt free).2) boot
    (kernelTask_clear k₂.globalPagingInfo) (Nat.le_refl _)).returns fun e => Or.inr (by omega)
  change Granted k₂ 0x40080000 j root k' at first
  change Built 0x40080000 root _ k' k₃ at built
  have created := createProcessPML4_returns (by omega) (by omega) create
  have count₃ := first.freeFrames
  have left := built.frames
  obtain ⟨⟨stack, k₄⟩, page, n, last⟩ := (pageAlloc_grant built.tables.frames).returns fun e => Or.inr (by omega)
  change Granted k₃ 0x40080000 n stack k₄ at last
  have kernelPage : n ≠ 0 := by
    intro zero
    subst zero
    have free := built.move.taken 0 (by rw [← built.move.count]; exact last.lt) last.free
    have lt : 0 < frameCount k₂ := by rw [← first.count, ← built.move.count]; exact last.lt
    have free := older 0 lt (first.taken_free lt free)
    exact (kernel.tables.held 0x40080000 ⟨walkPath 0, 3, .root⟩).used 0 free.1 free.2 rfl
  obtain ⟨given, memory⟩ : ∃ given : TaskMemory, given =
      ⟨p + 16, ProcessFrame.read k₂.mem (p + 16), fun _ _ _ => root, stack⟩ := ⟨_, rfl⟩
  have listed : Listed ⟨1, false, .null, fun _ => .zero⟩ [] := ⟨rfl, nofun, rfl⟩
  obtain ⟨t, added, _⟩ := intAddTask_spec given [0x61] 0 0 true listed List.not_mem_nil
  obtain ⟨bound, heap⟩ := heap
  obtain ⟨bound', created⟩ := created
  refine ⟨k, given, k₄, t, info, ⟨max bound bound', fun fuel enough => ?_⟩, k₃, n, ?_, ?_, built.tables.frames,
    by omega⟩
  · have heap := heap fuel (le_trans (Nat.le_max_left _ _) enough)
    have created := created fuel (le_trans (Nat.le_max_right _ _) enough)
    dsimp only at heap created
    unfold spawn taskMemory
    simp only [heap, created, page, ok_bind, pure_eq_ok, ← memory, added]
  · rw [memory]
    exact page
  · rw [memory]
    exact last

theorem no_task_owns_stack_machine : ∃ k given k' t, k.globalPagingInfo = machineInfo [region] ∧
    SpawnReach ((k', t), [⟨given.stack, (t.frames (.heap given.frame)).registers⟩]) ∧
    (∃ s, Returns (fun fuel => spawn fuel ⟨[0x61], 0, 0, true⟩ k s) (given, k', t)) ∧
    ¬ Spawned.OwnsStack ⟨given.stack, (t.frames (.heap given.frame)).registers⟩ := by
  obtain ⟨k, given, k', t, info, returned, _⟩ := machine_spawn
  have start : SpawnReach ((k, ⟨1, false, .null, fun _ => .zero⟩), []) := .init rfl
  have reached : SpawnReach ((k', t), [⟨given.stack, (t.frames (.heap given.frame)).registers⟩]) :=
    start.step (e := ⟨[0x61], 0, 0, true⟩) trivial ⟨given, returned, rfl⟩
  exact ⟨k, given, k', t, info, reached, ⟨_, returned⟩, (no_task_owns_stack reached _ List.mem_cons_self).1⟩

/-- The first push of the first kernel task goes to a frame that was in use
before the stack was allocated. -/
theorem first_push_astray : ∃ k s given k' t, k.globalPagingInfo = machineInfo [region] ∧
    Returns (fun fuel => spawn fuel ⟨[0x61], 0, 0, true⟩ k s) (given, k', t) ∧
    ¬ Spawned.OwnsStack ⟨given.stack, (t.frames (.heap given.frame)).registers⟩ ∧
    ∃ k₁, pageAlloc .halts k₁ = .ok (given.stack, k') ∧
      ∀ x, FirstPush (t.frames (.heap given.frame)).registers.rsp x →
        ∃ j < frameCount k₁, frameFree k₁ j = false ∧ framePtr k₁ j ≤ x ∧ x < framePtr k₁ j + 4096 := by
  obtain ⟨k, given, k', t, info, returned, k₁, i, page, granted, frames, positive⟩ := machine_spawn
  obtain ⟨bound, call⟩ := returned
  have here := call bound (Nat.le_refl _)
  refine ⟨k, _, given, k', t, info, ⟨bound, call⟩, (spawn_astray here).1, k₁, page, fun x push => ?_⟩
  rw [(spawn_stack here).2] at push
  have lt := granted.lt
  rcases granted.firstPush frames push with ⟨zero, _⟩ | ⟨j, _, used, low, high⟩
  · omega
  · refine ⟨j, by omega, used, ?_, ?_⟩
    · rw [frames.ptr j (by omega)]
      exact low
    · rw [frames.ptr j (by omega)]
      exact high

end System14
