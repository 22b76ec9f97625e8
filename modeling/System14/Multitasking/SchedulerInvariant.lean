import System14.Multitasking.ReadyList

/-!
# The scheduler's list

In every run the frames behind `prochead` form a finite list without repetition,
`current` is null, `prochead` or a frame of the list, and no step follows a null
pointer. In particular a tick always finds the pid that it looks for, because
the frame it wants to remove is on the list.
-/

namespace System14
open Run Chain

variable {s t : Scheduler} {l : List FramePtr} {stack : Registers}

/-! ### Runs -/

structure Scheduler.Initial (s : Scheduler) : Prop where
  highestPid : s.highestPid = 1
  schedulingStarted : s.schedulingStarted = false
  current : s.current = .null
  prochead : s.frames .prochead = .zero

theorem Scheduler.Initial.listed (initial : s.Initial) : Listed s [] := by
  refine ⟨rfl, nofun, ?_⟩
  show (s.frames .prochead).next = .null
  rw [initial.prochead]
  rfl

inductive SchedulerEvent where
  | tick (stack : Registers)
  | addTask (given : TaskMemory) (taskName : List UInt8) (start stop : Nat)
  | keAddTask (given : TaskMemory) (taskName : List UInt8) (start stop : Nat)
  | processExit
  | exception (exceptionType : String)
  | markSchedulingActive

def SchedulerStep : Scheduler × List Nat → SchedulerEvent → Scheduler × List Nat → Prop
  | (s, used), .tick stack, (t, used') => (∃ r, Returns (taskSwitch · stack s) (r, t)) ∧ used' = used
  | (s, used), .addTask given taskName start stop, (t, used') =>
    addTask given taskName start stop s = .ok t ∧ used' = given.frame :: used
  | (s, used), .keAddTask given taskName start stop, (t, used') =>
    keAddTask given taskName start stop s = .ok t ∧ used' = given.frame :: used
  | (s, used), .processExit, (t, used') => processExit s = .ok t ∧ used' = used
  | (s, used), .exception exceptionType, (t, used') => commonExceptionHandler exceptionType s = .ok t ∧ used' = used
  | (s, used), .markSchedulingActive, (t, used') => t = markSchedulingActive s ∧ used' = used

/-- Frames are new ones, as those of all separate blocks are, and it takes a task to exit. -/
def SchedulerAllowed : Scheduler × List Nat → SchedulerEvent → Prop
  | (_, used), .addTask given _ _ _ => given.frame ∉ used
  | (_, used), .keAddTask given _ _ _ => given.frame ∉ used
  | (s, _), .processExit => s.current ≠ .null
  | _, _ => True

def SchedulerReach : Scheduler × List Nat → Prop :=
  Reach (fun state => state.1.Initial ∧ state.2 = []) SchedulerStep SchedulerAllowed

/-- The step runs to its end. An exception may panic, when there is no task to blame. -/
def Completes (s : Scheduler) : SchedulerEvent → Prop
  | .tick stack => ∃ r, Returns (taskSwitch · stack s) r
  | .addTask given taskName start stop => ∃ t, addTask given taskName start stop s = .ok t
  | .keAddTask given taskName start stop => ∃ t, keAddTask given taskName start stop s = .ok t
  | .processExit => ∃ t, processExit s = .ok t
  | .exception exceptionType => (∃ t, commonExceptionHandler exceptionType s = .ok t) ∨
    commonExceptionHandler exceptionType s = .error (.panic exceptionType)
  | .markSchedulingActive => True

/-- The invariant of the runs: the list has only frames that `malloc` has handed out. -/
def Linkage (s : Scheduler) (used : List Nat) (l : List FramePtr) : Prop :=
  Listed s l ∧ Placed s l ∧ ∀ p ∈ l, ∃ a ∈ used, p = .heap a

section Steps

variable {used : List Nat}

theorem Linkage.fresh {given : TaskMemory} (linkage : Linkage s used l) (fresh : given.frame ∉ used) :
    .heap given.frame ∉ l := by
  intro member
  obtain ⟨a, handed, same⟩ := linkage.2.2 _ member
  cases same
  exact fresh handed

theorem Linkage.running {a : Nat} (linkage : Linkage s used l) (current : s.current = .heap a) : .heap a ∈ l := by
  rcases linkage.2.1 with none | head | member
  · exact nomatch current.symm.trans none
  · exact nomatch current.symm.trans head
  · exact current ▸ member

theorem Linkage.handed {a : Nat} (linkage : Linkage s used l) (current : s.current = .heap a) : a ∈ used := by
  obtain ⟨b, present, same⟩ := linkage.2.2 _ (linkage.running current)
  cases same
  exact present

theorem Linkage.add {given : TaskMemory} {taskName : List UInt8} {start stop : Nat} {kernel : Bool}
    (linkage : Linkage s used l) (fresh : given.frame ∉ used)
    (added : intAddTask given taskName start stop kernel s = .ok t) :
    Linkage t (given.frame :: used) (.heap given.frame :: l) := by
  obtain ⟨listed, placed, handed⟩ := linkage
  obtain ⟨t', run, listed', current, _⟩ := intAddTask_spec _ _ _ _ _ listed (Linkage.fresh ⟨listed, placed, handed⟩ fresh)
  cases run.symm.trans added
  refine ⟨listed', ?_, ?_⟩
  · unfold Placed at placed ⊢
    rw [current]
    exact placed.imp_right fun more => more.imp_right (List.mem_cons_of_mem _)
  · intro p member
    rcases List.mem_cons.mp member with rfl | old
    · exact ⟨given.frame, List.mem_cons_self, rfl⟩
    · obtain ⟨a, present, same⟩ := handed p old
      exact ⟨a, List.mem_cons_of_mem _ present, same⟩

theorem Linkage.invalidate (linkage : Linkage s used l)
    (marked : s.modify s.current ({ · with invalid := true }) = .ok t) : Linkage t used l := by
  obtain ⟨t', run, current, keeps⟩ := modify_keeps (s := s) (f := ({ · with invalid := true })) (modify_nonnull marked)
    (fun _ => rfl) fun _ => rfl
  cases run.symm.trans marked
  obtain ⟨listed, placed, handed⟩ := linkage
  refine ⟨listed.congr keeps.next, ?_, handed⟩
  unfold Placed at placed ⊢
  rw [current]
  exact placed

theorem commonExceptionHandler_started {exceptionType : String} (started : s.schedulingStarted = true)
    (nonnull : s.current ≠ .null) :
    commonExceptionHandler exceptionType s = s.modify s.current ({ · with invalid := true }) := by
  unfold commonExceptionHandler
  rw [if_pos started, if_neg nonnull]

theorem commonExceptionHandler_panics {exceptionType : String}
    (none : s.schedulingStarted = false ∨ s.current = .null) :
    commonExceptionHandler exceptionType s = .error (.panic exceptionType) := by
  unfold commonExceptionHandler
  cases started : s.schedulingStarted with
  | false => rfl
  | true =>
    rw [if_pos rfl, if_pos (none.resolve_left (by rw [started]; decide))]
    rfl

theorem commonExceptionHandler_ok {exceptionType : String} (handled : commonExceptionHandler exceptionType s = .ok t) :
    s.modify s.current ({ · with invalid := true }) = .ok t := by
  by_cases panics : s.schedulingStarted = false ∨ s.current = .null
  · rw [commonExceptionHandler_panics panics] at handled
    exact nomatch handled
  · rw [not_or, Bool.not_eq_false] at panics
    rw [← commonExceptionHandler_started panics.1 panics.2]
    exact handled

theorem Linkage.tick {r : Registers} {l' : List FramePtr} (linkage : Linkage s used l)
    (ticked : Ticked stack s l r t l') : Linkage t used l' := by
  refine ⟨ticked.listed, ?_, fun p member => linkage.2.2 p (ticked.shorter p member)⟩
  rcases ticked.resumed with ⟨member, _⟩ | ⟨none | head, _⟩
  · exact Or.inr (Or.inr member)
  · exact Or.inl none
  · exact Or.inr (Or.inl head)

/-- What is not a tick leaves the running task and the registers alone, and at most puts a new frame on the list. -/
theorem schedulerStep_quiet {used' : List Nat} {e : SchedulerEvent} (linkage : Linkage s used l)
    (allowed : SchedulerAllowed (s, used) e) (noTick : ∀ stack, e ≠ .tick stack)
    (taken : SchedulerStep (s, used) e (t, used')) :
    t.current = s.current ∧ (∀ a ∈ used, a ∈ used') ∧
      (∀ a ∈ used, (t.frames (.heap a)).registers = (s.frames (.heap a)).registers) ∧
      ∃ new, Linkage t used' (new ++ l) ∧ ∀ p ∈ new, ∀ a ∈ used, p ≠ .heap a := by
  have added : ∀ {given : TaskMemory} {taskName : List UInt8} {start stop : Nat} {kernel : Bool}, given.frame ∉ used →
      intAddTask given taskName start stop kernel s = .ok t →
      t.current = s.current ∧ (∀ a ∈ used, a ∈ given.frame :: used) ∧
        (∀ a ∈ used, (t.frames (.heap a)).registers = (s.frames (.heap a)).registers) ∧
        ∃ new, Linkage t (given.frame :: used) (new ++ l) ∧ ∀ p ∈ new, ∀ a ∈ used, p ≠ .heap a := by
    intro given taskName start stop kernel fresh call
    obtain ⟨t', run, _, current, registers⟩ := intAddTask_spec _ _ _ _ _ linkage.1 (linkage.fresh fresh)
    cases run.symm.trans call
    have other : ∀ a ∈ used, FramePtr.heap a ≠ .heap given.frame := by
      intro a handed same
      cases same
      exact fresh handed
    refine ⟨current, fun a => List.mem_cons_of_mem _, fun a handed => registers _ (other a handed),
      [.heap given.frame], linkage.add fresh call, fun p member a handed => ?_⟩
    rw [List.mem_singleton.mp member]
    exact (other a handed).symm
  have marked : s.modify s.current ({ · with invalid := true }) = .ok t →
      t.current = s.current ∧ (∀ a ∈ used, a ∈ used) ∧
        (∀ a ∈ used, (t.frames (.heap a)).registers = (s.frames (.heap a)).registers) ∧
        ∃ new, Linkage t used (new ++ l) ∧ ∀ p ∈ new, ∀ a ∈ used, p ≠ .heap a := by
    intro call
    obtain ⟨t', run, current, keeps⟩ := modify_keeps (s := s) (f := ({ · with invalid := true }))
      (modify_nonnull call) (fun _ => rfl) fun _ => rfl
    cases run.symm.trans call
    exact ⟨current, fun _ handed => handed, fun a _ => keeps.registers _, [], linkage.invalidate call, nofun⟩
  cases e with
  | tick stack => exact absurd rfl (noTick stack)
  | addTask given taskName start stop =>
    obtain ⟨call, rfl⟩ := taken
    exact added allowed call
  | keAddTask given taskName start stop =>
    obtain ⟨call, rfl⟩ := taken
    exact added allowed call
  | processExit =>
    obtain ⟨call, rfl⟩ := taken
    exact marked call
  | exception exceptionType =>
    obtain ⟨handled, rfl⟩ := taken
    exact marked (commonExceptionHandler_ok handled)
  | markSchedulingActive =>
    obtain ⟨rfl, rfl⟩ := taken
    exact ⟨rfl, fun _ handed => handed, fun _ _ => rfl, [], linkage, nofun⟩

/-- A step keeps the list or shortens it, or puts a new frame on it. -/
theorem schedulerStep_linkage {used' : List Nat} {e : SchedulerEvent} (linkage : Linkage s used l)
    (allowed : SchedulerAllowed (s, used) e) (taken : SchedulerStep (s, used) e (t, used')) :
    ∃ l', Linkage t used' l' ∧ (∀ a ∈ used, a ∈ used') ∧ ∀ a ∈ used, .heap a ∈ l' → .heap a ∈ l := by
  by_cases tick : ∃ stack, e = .tick stack
  · obtain ⟨stack, rfl⟩ := tick
    obtain ⟨⟨r, returned⟩, rfl⟩ := taken
    have ticked := tick_ticked linkage.1 linkage.2.1 returned
    exact ⟨_, linkage.tick ticked, fun _ handed => handed, fun _ _ => ticked.shorter _⟩
  · obtain ⟨_, more, _, new, after, fresh⟩ :=
      schedulerStep_quiet linkage allowed (fun stack same => tick ⟨stack, same⟩) taken
    refine ⟨_, after, more, fun a handed member => ?_⟩
    exact (List.mem_append.mp member).resolve_left fun present => fresh _ present a handed rfl

theorem schedulerStep_keeps {used' : List Nat} {e : SchedulerEvent} {a : Nat} (linkage : Linkage s used l)
    (allowed : SchedulerAllowed (s, used) e) (noTick : ∀ stack, e ≠ .tick stack)
    (taken : SchedulerStep (s, used) e (t, used')) (handed : a ∈ used) :
    (t.frames (.heap a)).registers = (s.frames (.heap a)).registers ∧ t.current = s.current ∧ a ∈ used' := by
  obtain ⟨current, more, registers, _⟩ := schedulerStep_quiet linkage allowed noTick taken
  exact ⟨registers a handed, current, more a handed⟩

theorem Linkage.completes {e : SchedulerEvent} (linkage : Linkage s used l) (allowed : SchedulerAllowed (s, used) e) :
    Completes s e := by
  obtain ⟨listed, placed, handed⟩ := linkage
  cases e with
  | tick stack =>
    obtain ⟨r, t, _, run, _⟩ := taskSwitch_spec stack listed placed
    exact ⟨(r, t), l.length + 1, fun fuel enough => run fuel enough⟩
  | addTask given taskName start stop =>
    obtain ⟨t, run, _⟩ := intAddTask_spec _ _ _ _ _ listed (Linkage.fresh ⟨listed, placed, handed⟩ allowed)
    exact ⟨t, run⟩
  | keAddTask given taskName start stop =>
    obtain ⟨t, run, _⟩ := intAddTask_spec _ _ _ _ _ listed (Linkage.fresh ⟨listed, placed, handed⟩ allowed)
    exact ⟨t, run⟩
  | processExit => exact ⟨_, modify_eq allowed⟩
  | exception exceptionType =>
    by_cases panics : s.schedulingStarted = false ∨ s.current = .null
    · exact Or.inr (commonExceptionHandler_panics panics)
    · rw [not_or, Bool.not_eq_false] at panics
      rw [Completes, commonExceptionHandler_started panics.1 panics.2]
      exact Or.inl ⟨_, modify_eq panics.2⟩
  | markSchedulingActive => trivial

end Steps

theorem schedulerReach_linkage {used : List Nat} (reached : SchedulerReach (s, used)) : ∃ l, Linkage s used l := by
  refine reached.invariant (I := fun state => ∃ l, Linkage state.1 state.2 l) ?_ ?_
  · intro state start
    exact ⟨[], start.1.listed, Or.inl start.1.current, nofun⟩
  · intro state e state' invariant allowed taken
    obtain ⟨l, linkage⟩ := invariant
    obtain ⟨l', after, _⟩ := schedulerStep_linkage linkage allowed taken
    exact ⟨l', after⟩

/-- In every reachable state the list is finite and repeats no frame, `current`
is null, `prochead` or on the list, and every step that can come next completes:
a tick in particular neither follows a null pointer nor walks for ever. -/
theorem scheduler_run_sound {used : List Nat} (reached : SchedulerReach (s, used)) :
    (∃ l, Linked s.next .null (s.next .prochead) l ∧ l.Nodup ∧
      (s.current = .null ∨ s.current = .prochead ∨ s.current ∈ l)) ∧
      ∀ e, SchedulerAllowed (s, used) e → Completes s e := by
  obtain ⟨l, linkage⟩ := schedulerReach_linkage reached
  exact ⟨⟨l, linkage.1.2.2, linkage.1.nodup.2, linkage.2.1⟩, fun e allowed => linkage.completes allowed⟩

structure FirstTaskRuns (t : Scheduler) : Prop where
  current : t.current = .heap 0x101010
  first : t.next .prochead = .heap 0x101010
  last : t.next (.heap 0x101010) = .null
  highestPid : t.highestPid = 2
  pid : (t.frames (.heap 0x101010)).pid = 1
  quanta : (t.frames (.heap 0x101010)).quanta = 9
  cr3 : (t.frames (.heap 0x101010)).cr3 = 0x102000
  invalid : (t.frames (.heap 0x101010)).invalid = false

/-- The first task is added and a tick selects it. -/
theorem first_task : ∃ t, SchedulerReach (t, [0x101010]) ∧ FirstTaskRuns t := by
  obtain ⟨s₀, here⟩ : ∃ s₀ : Scheduler, s₀ = ⟨1, false, .null, fun _ => .zero⟩ := ⟨_, rfl⟩
  have start : SchedulerReach (s₀, []) := by
    rw [here]
    exact .init ⟨⟨rfl, rfl, rfl, rfl⟩, rfl⟩
  have added : ∃ s₁, addTask ⟨0x101010, .zero, fun _ _ _ => 0x102000, 0x103000⟩ [0x61] 0x400000 0x401000 s₀ = .ok s₁ ∧
      ∃ r t, (∀ fuel, taskSwitch fuel .zero s₁ = .ok (r, t)) ∧ FirstTaskRuns t := by
    rw [here]
    exact ⟨_, rfl, _, _, fun _ => rfl, ⟨rfl, rfl, rfl, rfl, rfl, rfl, rfl, rfl⟩⟩
  obtain ⟨s₁, call, r, t, tick, runs⟩ := added
  have first : SchedulerReach (s₁, [0x101010]) :=
    start.step (e := .addTask _ _ _ _) (t := (s₁, [0x101010])) List.not_mem_nil ⟨call, rfl⟩
  exact ⟨t, first.step (e := .tick .zero) (t := (t, [0x101010])) trivial ⟨⟨r, 0, fun fuel _ => tick fuel⟩, rfl⟩, runs⟩

theorem scheduler_run_sound_first_task : ∃ t, SchedulerReach (t, [0x101010]) ∧ t.current = .heap 0x101010 ∧
    ∃ l, Linked t.next .null (t.next .prochead) l ∧ l.Nodup ∧
      (t.current = .null ∨ t.current = .prochead ∨ t.current ∈ l) := by
  obtain ⟨t, reached, runs⟩ := first_task
  exact ⟨t, reached, runs.current, (scheduler_run_sound reached).1⟩

end System14
