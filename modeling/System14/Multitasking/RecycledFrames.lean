import System14.Mm.RecycledBlocks
import System14.Multitasking.SameTasks
import System14.Multitasking.TaskNames

/-!
# Tasks in recycled memory

`IntAddTask` assigns neither the general registers of a frame nor its `invalid`.
They are what the block that `malloc` returns still holds: nothing on a new
page, and whatever the last owner wrote there in a block that was freed.
-/

namespace System14
open ByteMem Run Chain WordStack

variable {first n fuel frame start : Nat} {free₀ : Nat → Bool} {k k' k₁ : Kernel} {s t : Scheduler}
  {nodes pre post : List Nat} {live : List Block} {m m' : Mem} {given given' : TaskMemory} {taskName : List UInt8}
  {c : TaskCall}

/-! ### The registers of a frame in memory -/

/-- The registers that `IntAddTask` does not assign. -/
def Registers.general (r : Registers) : List Word :=
  [r.r15, r.r14, r.r13, r.r12, r.r11, r.r10, r.r9, r.r8, r.rbp, r.rdi, r.rsi, r.rdx, r.rcx, r.rbx, r.rax]

theorem readWord_iff {a : Nat} : readWord m' a = readWord m a ↔ ∀ x, a ≤ x → x < a + 8 → m' x = m x := by
  unfold readWord
  constructor
  · intro same x low high
    refine load_inj (n := 8) ?_ low high
    have small := load_lt 8 m a
    have small' := load_lt 8 m' a
    have value := congrArg BitVec.toNat same
    rw [BitVec.toNat_ofNat, BitVec.toNat_ofNat] at value
    omega
  · intro same
    rw [load_congr same]

theorem general_read (m : Mem) (a : Nat) :
    (Registers.read m a).general = (List.range 15).map fun j => readWord m (a + 8 * j) := rfl

theorem general_iff {a : Nat} : (Registers.read m' a).general = (Registers.read m a).general ↔
    ∀ x, a ≤ x → x < a + 120 → m' x = m x := by
  rw [general_read, general_read, List.map_inj_left]
  constructor
  · intro same x low high
    have word := readWord_iff.mp (same ((x - a) / 8) (List.mem_range.mpr (by omega)))
    exact word x (by omega) (by omega)
  · intro same j member
    have below := List.mem_range.mp member
    exact readWord_iff.mpr fun x low high => same x (by omega) (by omega)

theorem copyName_registers (m : Mem) (frame : Nat) (name : List UInt8) :
    ((ProcessFrame.read m frame).copyName name).registers =
      Registers.read (if name.length = 32 then Function.update m (frame + 33) 0 else m) (frame + 33) := by
  unfold ProcessFrame.copyName
  dsimp only
  split
  · have other : ∀ x, frame + 33 < x → Function.update m (frame + 33) 0 x = m x := fun x above =>
      Function.update_of_ne (by omega) _ _
    rw [Registers.read_r15 (m := m) fun x low _ => other x (by omega),
      readWord_clear (m := m) (Function.update_self ..) fun x low _ => other x low]
    rfl
  · rfl

theorem copied_full : (if taskName.length > 32 then defaultName else taskName).length = 32 ↔ taskName.length = 32 := by
  have short : defaultName.length = 7 := rfl
  split <;> omega

/-- The bytes that a task takes over from the block of its frame. -/
theorem initial_iff (contents : given.contents = .read m frame) (contents' : given'.contents = .read m' frame) :
    (given'.initial taskName start).general = (given.initial taskName start).general ↔
      ∀ i, 33 ≤ i → i < 153 → (i = 33 → taskName.length ≠ 32) → m' (frame + i) = m (frame + i) := by
  show Registers.general (given'.contents.copyName _).registers = Registers.general (given.contents.copyName _).registers ↔ _
  rw [contents, contents', copyName_registers, copyName_registers, general_iff]
  simp only [copied_full]
  by_cases full : taskName.length = 32
  · simp only [if_pos full]
    constructor
    · intro same i low high other
      have first : i ≠ 33 := fun here => other here full
      have byte := same (frame + i) (by omega) (by omega)
      rw [Function.update_of_ne (by omega), Function.update_of_ne (by omega)] at byte
      exact byte
    · intro same x low high
      by_cases here : x = frame + 33
      · rw [here, Function.update_self, Function.update_self]
      · obtain ⟨i, rfl⟩ : ∃ i, x = frame + i := ⟨x - frame, by omega⟩
        rw [Function.update_of_ne here, Function.update_of_ne here]
        exact same i (by omega) (by omega) (by omega)
  · simp only [if_neg full]
    constructor
    · intro same i low high _
      exact same (frame + i) (by omega) (by omega)
    · intro same x low high
      obtain ⟨i, rfl⟩ : ∃ i, x = frame + i := ⟨x - frame, by omega⟩
      exact same i (by omega) (by omega) fun _ => full

theorem initial_eq (stack : given'.stack = given.stack)
    (general : (given'.initial taskName start).general = (given.initial taskName start).general) :
    given'.initial taskName start = given.initial taskName start := by
  unfold TaskMemory.initial at general ⊢
  rw [stack]
  dsimp only
  simp only [Registers.general, List.cons.injEq, and_true] at general
  obtain ⟨r15, r14, r13, r12, r11, r10, r9, r8, rbp, rdi, rsi, rdx, rcx, rbx, rax⟩ := general
  rw [r15, r14, r13, r12, r11, r10, r9, r8, rbp, rdi, rsi, rdx, rcx, rbx, rax]

theorem read_congr (same : ∀ x, frame ≤ x → x < frame + 224 → m' x = m x) :
    ProcessFrame.read m' frame = ProcessFrame.read m frame := by
  have word : ∀ i, i + 8 ≤ 224 → load 8 m' (frame + i) = load 8 m (frame + i) := fun i inside =>
    load_congr fun x low high => same x (by omega) (by omega)
  have registers : Registers.read m' (frame + 33) = Registers.read m (frame + 33) := by
    unfold Registers.read readWord
    simp (disch := decide) only [word, Nat.add_assoc]
  unfold ProcessFrame.read
  rw [ProcessFrame.mk.injEq]
  refine ⟨same frame (by omega) (by omega), congrArg Vector.ofFn (funext fun i => same _ (by omega) (by omega)), registers,
    same _ (by omega) (by omega), word 200 (by decide), ?_, ?_⟩
  · rw [same (frame + 208) (by omega) (by omega)]
  · rw [word 216 (by decide)]

/-! ### The memory of a task from a freed block -/

/-- What the block at `frame` still holds does not show in a task: its flag is
clear, and the bytes that become registers are the same in both memories. A name
of 32 bytes clears the first of them. -/
structure CleanFrame (taskName : List UInt8) (m m' : Mem) (frame : Nat) : Prop where
  registers : ∀ i, 33 ≤ i → i < 153 → (i = 33 → taskName.length ≠ 32) → m' (frame + i) = m (frame + i)
  valid : m (frame + 208) = 0
  valid' : m' (frame + 208) = 0

/-- The first free block that has room for a frame is clean. -/
def CleanFit (taskName : List UInt8) (nodes : List Nat) (k k' : Kernel) : Prop :=
  ∀ n, nodes.find? (fun a => 240 ≤ nodeSize k.mem a) = some n → CleanFrame taskName k.mem k'.mem (n + 16)

/-- The boot loader keeps its promises, the free frames have 40-bit addresses,
and no page of the program lies among the large pages. -/
structure TablesSound (c : TaskCall) (first : Nat) (k : Kernel) : Prop where
  boot : k.globalPagingInfo.Boot
  low : ∀ i < frameCount k, frameFree k i = true → first + 4096 * i < 2 ^ 40
  program : c.kernel = true ∨ ProgramClear k.globalPagingInfo c.start c.stop false

/-- The part of the call that comes after `malloc`. -/
def tablesAndStack (fuel : Nat) (c : TaskCall) (frame : Nat) (contents : ProcessFrame) (k : Kernel) :
    Except Stop (TaskMemory × Kernel) := do
  let (cr3, k) ← createProcessPML4 .halts fuel c.start c.stop c.kernel k
  let (stack, k) ← pageAlloc .halts k
  return (⟨frame, contents, fun _ _ _ => cr3, stack⟩, k)

theorem taskMemory_of_malloc {frame : Nat} (call : malloc .halts fuel 224 k = .ok (frame, k₁)) :
    taskMemory fuel c.start c.stop c.kernel k = tablesAndStack fuel c frame (.read k₁.mem frame) k₁ := by
  unfold taskMemory tablesAndStack
  rw [call]
  rfl

theorem tablesAndStack_given {contents : ProcessFrame} {r : TaskMemory × Kernel}
    (call : tablesAndStack fuel c frame contents k = .ok r) : r.1.frame = frame ∧ r.1.contents = contents := by
  obtain ⟨_, _, rest⟩ := bind_ok.mp call
  obtain ⟨_, _, same⟩ := bind_ok.mp rest
  cases same
  exact ⟨rfl, rfl⟩

/-- The range that matters: a kernel task has no pages of its own. -/
theorem TablesSound.range (sound : TablesSound c first k) : ∃ start stop,
    ProgramClear k.globalPagingInfo start stop c.kernel ∧
      ∀ fuel s, createProcessPML4 .halts fuel c.start c.stop c.kernel s =
        createProcessPML4 .halts fuel start stop c.kernel s := by
  cases kind : c.kernel with
  | true => exact ⟨0, 0, kernelTask_clear _, fun _ _ => rfl⟩
  | false =>
    refine ⟨c.start, c.stop, sound.program.resolve_left ?_, fun _ _ => rfl⟩
    rw [kind]
    exact Bool.false_ne_true

theorem TablesSound.congr (sound : TablesSound c first k) (same : SameTable k k₁)
    (info : k₁.globalPagingInfo = k.globalPagingInfo) : TablesSound c first k₁ := by
  refine ⟨info ▸ sound.boot, fun i lt free => ?_, info ▸ sound.program⟩
  rw [same.count] at lt
  rw [same.free lt] at free
  exact sound.low i lt free

theorem TablesSound.enough {contents : ProcessFrame} (sound : TablesSound c first k) (large : 2 ^ 64 ≤ fuel) :
    tablesAndStack fuel c frame contents k = tablesAndStack (2 ^ 64) c frame contents k := by
  obtain ⟨start, stop, clear, range⟩ := sound.range
  have aligned := clear.stopAligned
  have fits := clear.fits
  have small := sound.boot.kernelSmall
  unfold tablesAndStack
  rw [range, range, createProcessPML4_eq (by omega) (by omega) large,
    createProcessPML4_eq (by omega) (by omega) (Nat.le_refl _)]

/-- The same tables and the same stack. -/
def SameMemory (r r' : TaskMemory × Kernel) : Prop :=
  r'.1.createProcessPML4 = r.1.createProcessPML4 ∧ r'.1.stack = r.1.stack

theorem tablesAndStack_both {D : Nat → Prop} (contents contents' : ProcessFrame) (sound : TablesSound c first k)
    (frames : FrameTable k first) (off : OffFrames D k first) (twin : Twin D k k') :
    Both SameMemory (tablesAndStack (2 ^ 64) c frame contents k) (tablesAndStack (2 ^ 64) c frame contents' k') := by
  obtain ⟨start, stop, clear, range⟩ := sound.range
  unfold tablesAndStack
  rw [range, range]
  apply (createProcessPML4_both frames sound.low sound.boot clear (Nat.le_refl _) off twin).bind
  intro r r' call alike
  obtain ⟨i, u, granted, built⟩ := (createProcessPML4_yields frames sound.low sound.boot clear (Nat.le_refl _)).ok call
  have confined := (built.confined granted (granted.blankRoot frames sound.low)).1
  have after := off.fewer confined.list confined.count confined.taken
  obtain ⟨root, states⟩ := alike
  apply (pageAlloc_both after.table states).bind
  intro stack stack' _ alike
  exact ⟨by dsimp only; rw [root], alike.1⟩

/-! ### The same task from two heaps -/

/-- The call of `AddTask` or `KeAddTask` from the two states, with any scheduler:
whenever it returns from the one, it returns from the other, the same events then
leave the same records, and neither task is removed as invalid unless it has exited. -/
def Independent (c : TaskCall) (k k' : Kernel) : Prop :=
  ∀ s given k₁ t, Returns (fun fuel => spawn fuel c k s) (given, k₁, t) →
    ∃ given' k₁' t', Returns (fun fuel => spawn fuel c k' s) (given', k₁', t') ∧ SameRuns t t' ∧
      StaysValid t (.heap given.frame) ∧ StaysValid t' (.heap given'.frame)

theorem spawn_ok {r : TaskMemory × Kernel × Scheduler} (call : spawn fuel c k s = .ok r) :
    taskMemory fuel c.start c.stop c.kernel k = .ok (r.1, r.2.1) ∧
      intAddTask r.1 c.taskName c.start c.stop c.kernel s = .ok r.2.2 := by
  obtain ⟨⟨given, k₁⟩, memory, rest⟩ := bind_ok.mp call
  obtain ⟨t, added, same⟩ := bind_ok.mp rest
  cases same
  exact ⟨memory, added⟩

theorem spawn_eq {given : TaskMemory} (memory : taskMemory fuel c.start c.stop c.kernel k = .ok (given, k₁))
    (added : intAddTask given c.taskName c.start c.stop c.kernel s = .ok t) : spawn fuel c k s = .ok (given, k₁, t) := by
  unfold spawn
  rw [memory, ok_bind]
  dsimp only
  rw [added]
  rfl

theorem contents_valid (contents : given.contents = .read m frame) :
    given.contents.invalid = false ↔ m (frame + 208) = 0 := by
  rw [contents]
  unfold ProcessFrame.read
  simp

/-- The node `n` of the list is the first one that has room for a frame. -/
structure FrameFit (first : Nat) (free₀ : Nat → Bool) (k : Kernel) (live : List Block) (pre : List Nat) (n : Nat)
    (post : List Nat) : Prop where
  inv : HeapInv first free₀ k (pre ++ n :: post) live
  misses : ∀ a ∈ pre, nodeSize k.mem a < 240
  fits : 240 ≤ nodeSize k.mem n

theorem FrameFit.found (fit : FrameFit first free₀ k live pre n post) :
    (pre ++ n :: post).find? (fun a => 240 ≤ nodeSize k.mem a) = some n := by
  refine List.find?_eq_some_iff_append.mpr ⟨decide_eq_true fit.fits, pre, post, rfl, fun a before => ?_⟩
  simpa using fit.misses a before

theorem FrameFit.twin (fit : FrameFit first free₀ k live pre n post)
    (twin : Twin (FreePayload k.mem (pre ++ n :: post)) k k') : FrameFit first free₀ k' live pre n post := by
  have headers := fit.inv.twin_headers twin
  refine ⟨fit.inv.twin twin, fun a before => ?_, ?_⟩
  · rw [headers.size a (List.mem_append_left _ before)]
    exact fit.misses a before
  · rw [headers.size n (by simp)]
    exact fit.fits

theorem FrameFit.served (fit : FrameFit first free₀ k live pre n post) (enough : pre.length < fuel) :
    taskMemory fuel c.start c.stop c.kernel k =
      tablesAndStack fuel c (n + 16) (.read k.mem (n + 16)) (unlinkCut pre n 224 k) := by
  rw [taskMemory_of_malloc (malloc_listed fit.inv (by decide) fit.misses fit.fits enough)]
  rw [read_congr fun x low high => unlinkCut_payload fit.inv fit.fits low high]

theorem FrameFit.contents (fit : FrameFit first free₀ k live pre n post)
    (returned : Returns (taskMemory · c.start c.stop c.kernel k) (given, k₁)) :
    given.frame = n + 16 ∧ given.contents = .read k.mem (n + 16) := by
  obtain ⟨bound, call⟩ := returned
  have here : taskMemory _ c.start c.stop c.kernel k = _ := call (max bound (pre.length + 1)) (Nat.le_max_left _ _)
  rw [fit.served (by omega)] at here
  exact tablesAndStack_given here

theorem FrameFit.sound (fit : FrameFit first free₀ k live pre n post) (sound : TablesSound c first k) :
    TablesSound c first (unlinkCut pre n 224 k) := by
  refine sound.congr (unlinkCut_sameTable fit.inv) ?_
  unfold unlinkCut
  rw [cutNode_globals, setCursorNext_globals]

/-- The call gets the same block, the same tables and the same stack. -/
theorem FrameFit.both (fit : FrameFit first free₀ k live pre n post)
    (twin : Twin (FreePayload k.mem (pre ++ n :: post)) k k') (sound : TablesSound c first k)
    (returned : Returns (taskMemory · c.start c.stop c.kernel k) (given, k₁)) :
    ∃ given' k₁', Returns (taskMemory · c.start c.stop c.kernel k') (given', k₁') ∧
      SameMemory (given, k₁) (given', k₁') := by
  have fit' := fit.twin twin
  have table : SameTable k (unlinkCut pre n 224 k) := unlinkCut_sameTable fit.inv
  have states := unlinkCut_both 224 fit.inv twin
  have off := fit.inv.offFrames.fewer table.frameList table.count fun i lt free => by
    rw [← table.free lt]
    exact free
  have sound₁ := fit.sound sound
  have sound₁' : TablesSound c first (unlinkCut pre n 224 k') :=
    sound₁.congr (states.sameTable off.table) (by rw [states.globals])
  have frames := fit.inv.table.congr table
  obtain ⟨bound, call⟩ := returned
  have here : taskMemory _ c.start c.stop c.kernel k = _ :=
    call (max bound (max (pre.length + 1) (2 ^ 64))) (Nat.le_max_left _ _)
  rw [fit.served (by omega), sound₁.enough (by omega)] at here
  obtain ⟨r', here', same⟩ := (tablesAndStack_both _ (.read k'.mem (n + 16)) sound₁ frames off states).returned here
  refine ⟨r'.1, r'.2, ⟨max (pre.length + 1) (2 ^ 64), fun fuel enough => ?_⟩, same⟩
  show taskMemory fuel c.start c.stop c.kernel k' = _
  rw [fit'.served (by omega), sound₁'.enough (by omega)]
  exact here'

theorem spawn_returns (memory : Returns (taskMemory · c.start c.stop c.kernel k) (given, k₁))
    (added : intAddTask given c.taskName c.start c.stop c.kernel s = .ok t) :
    Returns (fun fuel => spawn fuel c k s) (given, k₁, t) := by
  obtain ⟨bound, call⟩ := memory
  exact ⟨bound, fun fuel enough => spawn_eq (call fuel enough) added⟩

theorem spawn_returned (returned : Returns (fun fuel => spawn fuel c k s) (given, k₁, t)) :
    Returns (taskMemory · c.start c.stop c.kernel k) (given, k₁) ∧
      intAddTask given c.taskName c.start c.stop c.kernel s = .ok t := by
  obtain ⟨bound, call⟩ := returned
  exact ⟨⟨bound, fun fuel enough => (spawn_ok (call fuel enough)).1⟩, (spawn_ok (call bound (Nat.le_refl _))).2⟩

theorem newTask_staysValid (added : intAddTask given c.taskName c.start c.stop c.kernel s = .ok t)
    (valid : given.contents.invalid = false) : StaysValid t (.heap given.frame) := by
  apply staysValid_of_valid
  rw [(newTask_frames added).2.2]
  exact valid

/-- A clean block, the same in both heaps as far as the task can see. -/
theorem FrameFit.independent (fit : FrameFit first free₀ k live pre n post)
    (twin : Twin (FreePayload k.mem (pre ++ n :: post)) k k') (sound : TablesSound c first k)
    (clean : CleanFrame c.taskName k.mem k'.mem (n + 16)) : Independent c k k' := by
  intro s given k₁ t returned
  obtain ⟨memory, added⟩ := spawn_returned returned
  obtain ⟨given', k₁', memory', tables, stack⟩ := fit.both twin sound memory
  obtain ⟨frame, contents⟩ := fit.contents memory
  obtain ⟨frame', contents'⟩ := (fit.twin twin).contents memory'
  have valid := (contents_valid contents).mpr clean.valid
  have valid' := (contents_valid contents').mpr clean.valid'
  have initial : given'.initial c.taskName c.start = given.initial c.taskName c.start :=
    initial_eq stack ((initial_iff contents contents').mpr clean.registers)
  obtain ⟨names, added'⟩ := intAddTask_renamed (frame'.trans frame.symm) tables initial (valid'.trans valid.symm) added
  exact ⟨given', k₁', _, spawn_returns memory' added', sameRuns_rename names t, newTask_staysValid added valid,
    newTask_staysValid added' valid'⟩

theorem loaded_of_run {events : List RunEvent} {records : List RunRecord} {u : Scheduler} {stack r : Registers}
    {task : FramePtr} {cr3 : Option Nat} (run : RunOf t (.tick stack :: events) (.loaded task r cr3 :: records) u)
    (first : events = []) : ∃ u, Returns (taskSwitch · stack t) (r, u) := by
  cases run with
  | tick before returned =>
    subst first
    cases before
    exact ⟨_, returned⟩

/-- A scheduler without tasks shows what the new task has taken over. -/
theorem FrameFit.clean (fit : FrameFit first free₀ k live pre n post)
    (twin : Twin (FreePayload k.mem (pre ++ n :: post)) k k')
    (memory : Returns (taskMemory · c.start c.stop c.kernel k) (given, k₁)) (independent : Independent c k k') :
    CleanFrame c.taskName k.mem k'.mem (n + 16) := by
  obtain ⟨idle, here⟩ : ∃ s : Scheduler, s = ⟨1, false, .null, fun _ => .zero⟩ := ⟨_, rfl⟩
  have none : idle.current = .null := by rw [here]
  have added := intAddTask_new given c.taskName c.start c.stop c.kernel idle
  obtain ⟨given', k₁', t', returned', same, stays, stays'⟩ := independent _ _ _ _ (spawn_returns memory added)
  obtain ⟨memory', added'⟩ := spawn_returned returned'
  obtain ⟨frame, contents⟩ := fit.contents memory
  obtain ⟨frame', contents'⟩ := (fit.twin twin).contents memory'
  have flag : given.contents.invalid = false := by
    rw [← Bool.not_eq_true, ← newTask_expelled none added]
    exact stays [] [] _ .start List.not_mem_nil
  have flag' : given'.contents.invalid = false := by
    rw [← Bool.not_eq_true, ← newTask_expelled none added']
    exact stays' [] [] _ .start List.not_mem_nil
  obtain ⟨u, loaded⟩ := newTask_loaded .zero none added flag
  obtain ⟨u', loaded'⟩ := newTask_loaded .zero none added' flag'
  obtain ⟨v, run⟩ := (same _ _).mp ⟨u, RunOf.start.tick loaded⟩
  obtain ⟨w, again⟩ := loaded_of_run run rfl
  have initial := congrArg Prod.fst (loaded'.unique again)
  exact ⟨(initial_iff contents contents').mp (congrArg Registers.general initial), (contents_valid contents).mp flag,
    (contents_valid contents').mp flag'⟩

theorem fit_or_empty (inv : HeapInv first free₀ k nodes live)
    (memory : Returns (taskMemory · c.start c.stop c.kernel k) (given, k₁)) :
    nodes = [] ∨ ∃ pre n post, nodes = pre ++ n :: post ∧ FrameFit first free₀ k live pre n post ∧
      nodes.find? (fun a => 240 ≤ nodeSize k.mem a) = some n := by
  obtain ⟨bound, call⟩ := memory
  obtain ⟨⟨p, u⟩, block, _⟩ := bind_ok.mp (call bound (Nat.le_refl _))
  cases search : nodes.find? (fun a => 240 ≤ nodeSize k.mem a) with
  | none =>
    apply Or.inl
    by_contra some
    have misses : ∀ a ∈ nodes, nodeSize k.mem a < 224 + 16 := fun a member => by
      simpa using List.find?_eq_none.mp search a member
    exact malloc_misses inv some (by decide) misses block
  | some n =>
    obtain ⟨fits, pre, post, split, misses⟩ := List.find?_eq_some_iff_append.mp search
    subst split
    exact Or.inr ⟨pre, n, post, rfl, ⟨inv, fun a before => by simpa using misses a before, by simpa using fits⟩, rfl⟩

/-- From a heap without free blocks the frame comes from a new page. -/
theorem independent_fresh (inv : HeapInv first free₀ k [] live) (twin : Twin (FreePayload k.mem []) k k') :
    Independent c k k' := by
  have mem : k'.mem = k.mem := funext fun x => twin.agree x fun payload => by
    obtain ⟨a, member, _⟩ := payload
    cases member
  have same : k' = k := by
    rw [twin.globals, mem]
  subst same
  intro s given k₁ t returned
  obtain ⟨memory, added⟩ := spawn_returned returned
  have valid : given.contents.invalid = false := by
    obtain ⟨bound, call⟩ := memory
    obtain ⟨⟨p, u⟩, block, _⟩ := bind_ok.mp (call bound (Nat.le_refl _))
    have here : taskMemory bound c.start c.stop c.kernel _ = _ := call bound (Nat.le_refl _)
    rw [taskMemory_of_malloc block] at here
    exact (contents_valid (tablesAndStack_given here).2).mpr
      (malloc_fresh inv (by decide) block _ (by omega) (by omega))
  exact ⟨given, k₁, t, returned, fun _ _ => Iff.rfl, newTask_staysValid added valid, newTask_staysValid added valid⟩

/-- A new task does not depend on what freed blocks hold exactly if the block of
its frame is clean, wherever its page tables go where they should; where they do
not, it depends on it if the block is not clean. -/
theorem new_task_independent_iff (inv : HeapInv first free₀ k nodes live) (twin : Twin (FreePayload k.mem nodes) k k')
    (returns : ∃ r, Returns (taskMemory · c.start c.stop c.kernel k) r) :
    (TablesSound c first k → (Independent c k k' ↔ CleanFit c.taskName nodes k k')) ∧
      (Independent c k k' → CleanFit c.taskName nodes k k') := by
  obtain ⟨⟨given, k₁⟩, memory⟩ := returns
  have necessary : Independent c k k' → CleanFit c.taskName nodes k k' := by
    intro independent n found
    rcases fit_or_empty inv memory with none | ⟨pre, n', post, split, fit, search⟩
    · subst none
      cases found
    · cases search.symm.trans found
      subst split
      exact fit.clean twin memory independent
  refine ⟨fun sound => ⟨necessary, fun clean => ?_⟩, necessary⟩
  rcases fit_or_empty inv memory with none | ⟨pre, n, post, split, fit, search⟩
  · subst none
    exact independent_fresh inv twin
  · subst split
    exact fit.independent twin sound (clean n search)

/-! ### A machine with a freed block -/

/-- The owner of the block at `p` writes `v` to its byte `i`, and frees it. -/
def overwriteFree (p i : Nat) (v : UInt8) (k : Kernel) : Kernel :=
  heapFree p { k with mem := Function.update k.mem (p + i) v }

theorem overwriteFree_eq {p i : Nat} (v : UInt8) (inv : HeapInv first free₀ k nodes [⟨p, 224⟩]) :
    overwriteFree p i v k = createNode (p - 16) 240 { k with mem := Function.update k.mem (p + i) v } := by
  obtain ⟨room, header⟩ := inv.headers ⟨p, 224⟩ List.mem_cons_self
  have bound := (inv.block_bounds List.mem_cons_self).2
  simp only at room header bound
  have size : nodeSize (Function.update k.mem (p + i) v) (p - 16) = 240 :=
    (load_congr fun x low high => Function.update_of_ne (by omega) _ _).trans header
  unfold overwriteFree heapFree
  rw [usub_of_le (by omega) room]
  dsimp only
  rw [size]

theorem overwriteFree_fit {p i : Nat} (v : UInt8) (inv : HeapInv first free₀ k nodes [⟨p, 224⟩]) (inside : i < 224) :
    FrameFit first free₀ (overwriteFree p i v k) [] [] (p - 16) nodes ∧ SameTable k (overwriteFree p i v k) ∧
      ∀ j < 224, (overwriteFree p i v k).mem (p + j) = if j = i then v else k.mem (p + j) := by
  have room := (inv.headers ⟨p, 224⟩ List.mem_cons_self).1
  have here := overwriteFree_eq (i := i) v inv
  simp only at room
  obtain ⟨written, _, packed⟩ := inv.payload (m := Function.update k.mem (p + i) v) List.mem_cons_self fun x changed => by
    by_cases this : x = p + i
    · simp only
      omega
    · exact absurd (Function.update_of_ne this _ _) changed
  obtain ⟨freed, _, packed'⟩ := written.free List.mem_cons_self
  rw [List.erase_cons_head] at freed
  refine ⟨⟨freed, nofun, ?_⟩, packed.table.trans packed'.table, fun j below => ?_⟩
  · rw [here, createNode_size (by decide)]
  · rw [here, createNode_mem_apply (by omega)]
    by_cases same : j = i
    · subst same
      rw [if_pos rfl]
      exact Function.update_self ..
    · rw [if_neg same]
      exact Function.update_of_ne (by omega) _ _

theorem overwriteFree_twin {p i : Nat} (v v' : UInt8) (inv : HeapInv first free₀ k nodes [⟨p, 224⟩]) (inside : i < 224) :
    Twin (FreePayload (overwriteFree p i v k).mem ((p - 16) :: nodes)) (overwriteFree p i v k)
      (overwriteFree p i v' k) := by
  have room := (inv.headers ⟨p, 224⟩ List.mem_cons_self).1
  have fits := (overwriteFree_fit v inv inside).1.fits
  simp only at room
  have payload : FreePayload (overwriteFree p i v k).mem ((p - 16) :: nodes) (p + i) :=
    ⟨p - 16, List.mem_cons_self, by omega, by omega⟩
  rw [overwriteFree_eq v' inv]
  nth_rewrite 2 [overwriteFree_eq v inv]
  refine createNode_both _ _ ⟨rfl, fun x off => ?_⟩
  have other : x ≠ p + i := fun here => off (here ▸ payload)
  exact (Function.update_of_ne other _ _).trans (Function.update_of_ne other _ _).symm

/-- The block of 224 bytes that the first `malloc` on the machine returns. -/
theorem machine_block : ∃ k p first free₀ nodes, HeapInv first free₀ k nodes [⟨p, 224⟩] ∧
    TablesSound ⟨[0x61], 0, 0, true⟩ first k ∧ k.globalPagingInfo = machineInfo [region] ∧ 19999 ≤ freeFrames k ∧
    ∀ i < 224, k.mem (p + i) = 0 := by
  obtain ⟨_, k, _, _, _, kernel, info, enough, _, _, empty⟩ := machine_kernel
  have frames := kernel.tables.frames
  have boot := machine_boot region_low
  obtain ⟨⟨p, k₁⟩, alloc, i, granted⟩ := (pageAlloc_grant frames).returns fun e => Or.inr (by omega)
  change Granted k 0x40080000 i p k₁ at granted
  have count := granted.freeFrames
  obtain ⟨k₂, heap, writes, _⟩ := malloc_page frames empty alloc granted (show 224 + 16 < 4096 by decide)
  have writes := (writes (by decide)).1
  have same := writes.sameTable granted frames
  have info₂ : k₂.globalPagingInfo = k.globalPagingInfo := by rw [writes.globals, granted.globals]
  have inv := heapInv_empty frames empty
  have taken : HeapStep (k, []) (.malloc 224) (k₂, [⟨p + 16, 224⟩]) := ⟨p + 16, heap, rfl⟩
  have clean : HeapClean (k, []) (.malloc 224) := mallocClean_empty empty (by decide) (Or.inr (by decide))
  obtain ⟨nodes, used⟩ := (heapStep_inv inv clean taken).1
  obtain ⟨bound, call⟩ := heap
  rw [← info] at boot
  have sound : TablesSound ⟨[0x61], 0, 0, true⟩ 0x40080000 k := ⟨boot, kernel.tables.pool, Or.inl rfl⟩
  have older : TablesSound ⟨[0x61], 0, 0, true⟩ 0x40080000 k₂ := by
    refine ⟨info₂ ▸ sound.boot, fun j lt free => ?_, Or.inl rfl⟩
    rw [same.count] at lt
    rw [same.free lt] at free
    rw [granted.count] at lt
    exact sound.low j lt (granted.taken_free lt free)
  refine ⟨k₂, p + 16, 0x40080000, _, nodes, used, older, info₂.trans info, ?_, fun i below => ?_⟩
  · rw [same.freeFrames]
    omega
  · exact malloc_fresh inv (by decide) (call bound (Nat.le_refl _)) _ (by omega) (by omega)

theorem overwriteFree_globals {p i : Nat} (v : UInt8) (inv : HeapInv first free₀ k nodes [⟨p, 224⟩]) :
    (overwriteFree p i v k).globalPagingInfo = k.globalPagingInfo := by
  rw [overwriteFree_eq v inv]
  rfl

theorem overwriteFree_returns {p i : Nat} (v : UInt8) (inv : HeapInv first free₀ k nodes [⟨p, 224⟩]) (inside : i < 224)
    (sound : TablesSound ⟨[0x61], 0, 0, true⟩ first k) (info : k.globalPagingInfo = machineInfo [region])
    (enough : 19999 ≤ freeFrames k) :
    TablesSound ⟨[0x61], 0, 0, true⟩ first (overwriteFree p i v k) ∧
      ∃ r, Returns (taskMemory · 0 0 true (overwriteFree p i v k)) r := by
  obtain ⟨fit, same, _⟩ := overwriteFree_fit v inv inside
  have info₁ := (overwriteFree_globals (i := i) v inv).trans info
  have freed := sound.congr same (info₁.trans info.symm)
  have table : SameTable (overwriteFree p i v k) (unlinkCut [] (p - 16) 224 (overwriteFree p i v k)) :=
    unlinkCut_sameTable fit.inv
  have count := same.freeFrames
  have count₁ := table.freeFrames
  refine ⟨freed, ?_⟩
  have cut := fit.sound freed
  obtain ⟨k₁, here⟩ : ∃ k₁, k₁ = unlinkCut [] (p - 16) 224 (overwriteFree p i v k) := ⟨_, rfl⟩
  have few := kernelTask_few
  have info₂ : k₁.globalPagingInfo = machineInfo [region] := by
    rw [here]
    unfold unlinkCut
    rw [cutNode_globals, setCursorNext_globals, info₁]
  rw [← here] at cut count₁ table
  rw [← info₂] at few
  have clear := kernelTask_clear k₁.globalPagingInfo
  obtain ⟨⟨root, k₂⟩, create, j, u, granted, built⟩ := (createProcessPML4_yields (fit.inv.table.congr table) cut.low
    cut.boot clear (Nat.le_refl _)).returns fun e => Or.inr (by omega)
  have left := built.frames
  have count₂ := granted.freeFrames
  obtain ⟨⟨stack, k₃⟩, page, _⟩ := (pageAlloc_grant built.tables.frames).returns fun e => Or.inr (by omega)
  have rest : ∀ frame contents, tablesAndStack (2 ^ 64) ⟨[0x61], 0, 0, true⟩ frame contents k₁ =
      .ok (⟨frame, contents, fun _ _ _ => root, stack⟩, k₃) := fun frame contents => by
    unfold tablesAndStack
    dsimp only
    rw [create, ok_bind]
    dsimp only
    rw [page, ok_bind]
    rfl
  have call : ∀ fuel ≥ 2 ^ 64, taskMemory fuel 0 0 true (overwriteFree p i v k) = .ok (_, k₃) := fun fuel large => by
    have positive : ([] : List Nat).length < fuel := by
      simp only [List.length_nil]
      omega
    have served := fit.served (c := ⟨[0x61], 0, 0, true⟩) positive
    rw [← here, cut.enough large] at served
    exact served.trans (rest _ _)
  exact ⟨_, 2 ^ 64, call⟩

/-- Two machines whose heaps differ in byte `i` of the one free block. -/
theorem machine_recycled (v v' : UInt8) {i : Nat} (inside : i < 224) : ∃ first free₀ k k' n nodes,
    FrameFit first free₀ k [] [] n nodes ∧ Twin (FreePayload k.mem (n :: nodes)) k k' ∧
    TablesSound ⟨[0x61], 0, 0, true⟩ first k ∧ (∃ r, Returns (taskMemory · 0 0 true k) r) ∧
    (∀ j < 224, k.mem (n + 16 + j) = if j = i then v else 0) ∧
    ∀ j < 224, k'.mem (n + 16 + j) = if j = i then v' else 0 := by
  obtain ⟨k, p, first, free₀, nodes, inv, sound, info, enough, zero⟩ := machine_block
  have room := (inv.headers ⟨p, 224⟩ List.mem_cons_self).1
  have start : p - 16 + 16 = p := Nat.sub_add_cancel room
  obtain ⟨fit, _, bytes⟩ := overwriteFree_fit v inv inside
  obtain ⟨_, _, bytes'⟩ := overwriteFree_fit v' inv inside
  have twin := overwriteFree_twin v v' inv inside
  obtain ⟨tables, returns⟩ := overwriteFree_returns v inv inside sound info enough
  refine ⟨first, free₀, overwriteFree p i v k, overwriteFree p i v' k, p - 16, nodes, fit, twin, tables, returns, ?_, ?_⟩
  · intro j below
    rw [start, bytes j below, zero j below]
  · intro j below
    rw [start, bytes' j below, zero j below]

/-- The last byte of the flag decides: two owners that wrote 0 and 1 there leave
heaps that differ in nothing else. -/
theorem freedFlag_dependent : ∃ first free₀ k k' nodes, HeapInv first free₀ k nodes [] ∧
    Twin (FreePayload k.mem nodes) k k' ∧ TablesSound ⟨[0x61], 0, 0, true⟩ first k ∧
    (∃ r, Returns (taskMemory · 0 0 true k) r) ∧ ¬ Independent ⟨[0x61], 0, 0, true⟩ k k' := by
  obtain ⟨first, free₀, k, k', n, nodes, fit, twin, tables, ⟨r, memory⟩, _, bytes'⟩ :=
    machine_recycled 0 1 (show 208 < 224 by simp)
  refine ⟨first, free₀, k, k', n :: nodes, fit.inv, twin, tables, ⟨r, memory⟩, fun independent => ?_⟩
  have flag := (fit.clean (c := ⟨[0x61], 0, 0, true⟩) twin memory independent).valid'
  rw [bytes' 208 (by simp), if_pos rfl] at flag
  cases flag

/-- A byte of the name that the last owner wrote does not matter. -/
theorem new_task_independent_iff_name : ∃ first free₀ k k' nodes, HeapInv first free₀ k nodes [] ∧
    Twin (FreePayload k.mem nodes) k k' ∧ (∃ r, Returns (taskMemory · 0 0 true k) r) ∧ k'.mem ≠ k.mem ∧
    CleanFit [0x61] nodes k k' ∧ Independent ⟨[0x61], 0, 0, true⟩ k k' := by
  obtain ⟨first, free₀, k, k', n, nodes, fit, twin, tables, returns, bytes, bytes'⟩ :=
    machine_recycled 0 0x41 (show 5 < 224 by simp)
  have clean : CleanFit [0x61] (n :: nodes) k k' := by
    intro n' found
    obtain rfl : n = n' := Option.some.inj (fit.found.symm.trans found)
    refine ⟨fun i low high _ => ?_, ?_, ?_⟩
    · rw [bytes i (by omega), bytes' i (by omega), if_neg (by omega), if_neg (by omega)]
    · rw [bytes 208 (by simp), if_neg (by simp)]
    · rw [bytes' 208 (by simp), if_neg (by simp)]
  have differ : k'.mem ≠ k.mem := by
    intro same
    have byte := congrFun same (n + 16 + 5)
    rw [bytes 5 (by simp), bytes' 5 (by simp), if_pos rfl, if_pos rfl] at byte
    cases byte
  exact ⟨first, free₀, k, k', n :: nodes, fit.inv, twin, returns, differ, clean,
    ((new_task_independent_iff (c := ⟨[0x61], 0, 0, true⟩) fit.inv twin returns).1 tables).mpr clean⟩

end System14
