import Mathlib.Data.List.TakeWhile
import System14.Multitasking.SchedulerInvariant

/-!
# Termination of tasks

`TerminateTask` looks for a pid, and pids are 8-bit numbers from a counter that
wraps. A task that exits is therefore removed only if no frame in front of it on
the list has its pid; otherwise that frame goes in its place. A task that is
terminated by another one never runs again, but `TerminateTask` leaves `current`
as it is, so a task that terminates itself goes on.
-/

namespace System14
open Run Chain

variable {s t : Scheduler} {l : List FramePtr} {used : List Nat} {stack r : Registers} {task : FramePtr}

/-! ### Removal by pid -/

/-- No frame in front of `task` has its pid. -/
def FirstWithPid (s : Scheduler) (l : List FramePtr) (task : FramePtr) : Prop :=
  ∀ p ∈ l.takeWhile (· ≠ task), (s.frames p).pid ≠ (s.frames task).pid

def DistinctPids (s : Scheduler) (l : List FramePtr) : Prop :=
  ∀ p ∈ l, ∀ q ∈ l, (s.frames p).pid = (s.frames q).pid → p = q

theorem takeWhile_before {pre post : List FramePtr} (distinct : (pre ++ task :: post).Nodup) :
    (pre ++ task :: post).takeWhile (· ≠ task) = pre := by
  have before : ∀ x ∈ pre, x ≠ task := fun x present same =>
    (List.nodup_append.mp distinct).2.2 x present task List.mem_cons_self same
  rw [List.takeWhile_append_of_pos fun x present => by simpa using before x present]
  simp

/-- The first frame with the pid of `task` is `task` itself, or `task` stays on the list. -/
theorem eraseP_pid (distinct : l.Nodup) (member : task ∈ l) :
    (FirstWithPid s l task ∧ (l.eraseP fun p => (s.frames p).pid == (s.frames task).pid) = l.erase task) ∨
      (¬ FirstWithPid s l task ∧ task ∈ l.eraseP fun p => (s.frames p).pid == (s.frames task).pid) := by
  obtain ⟨pre, post, here⟩ := List.append_of_mem member
  subst here
  have before : ∀ x ∈ pre, x ≠ task := fun x present same =>
    (List.nodup_append.mp distinct).2.2 x present task List.mem_cons_self same
  unfold FirstWithPid
  rw [takeWhile_before distinct]
  by_cases first : ∀ p ∈ pre, (s.frames p).pid ≠ (s.frames task).pid
  · refine Or.inl ⟨first, ?_⟩
    rw [List.eraseP_append_right _ fun x present => by simpa using first x present, List.eraseP_cons_of_pos (by simp),
      List.erase_append_right _ fun present => before task present rfl, List.erase_cons_head]
  · refine Or.inr ⟨first, ?_⟩
    push Not at first
    obtain ⟨p, present, same⟩ := first
    rw [List.eraseP_append_left (a := p) (by simpa using same) _ present]
    exact List.mem_append_right _ List.mem_cons_self

theorem DistinctPids.first (distinct : DistinctPids s l) (member : task ∈ l) : FirstWithPid s l task := by
  intro p before same
  have present : p ∈ l := (List.takeWhile_sublist _).subset before
  have other : p ≠ task := by simpa using List.mem_takeWhile_imp before
  exact other (distinct p present task member same)

/-! ### Tasks that are gone -/

def SchedulerFuture (start : Scheduler × List Nat) : Scheduler × List Nat → Prop :=
  Reach (· = start) SchedulerStep SchedulerAllowed

/-- A frame that has left the list comes back in no run. -/
theorem future_gone {a : Nat} {state : Scheduler × List Nat} (linkage : Linkage s used l) (handed : a ∈ used)
    (gone : .heap a ∉ l) (future : SchedulerFuture (s, used) state) : state.1.current ≠ .heap a := by
  have invariant : a ∈ state.2 ∧ ∃ l, Linkage state.1 state.2 l ∧ .heap a ∉ l := by
    refine Reach.invariant (I := fun state => a ∈ state.2 ∧ ∃ l, Linkage state.1 state.2 l ∧ .heap a ∉ l) future ?_ ?_
    · rintro state rfl
      exact ⟨handed, l, linkage, gone⟩
    · rintro ⟨s, used⟩ e ⟨t, used'⟩ ⟨handed, l, linkage, gone⟩ allowed taken
      obtain ⟨l', after, more, shorter⟩ := schedulerStep_linkage linkage allowed taken
      exact ⟨more a handed, l', after, fun member => gone (shorter a handed member)⟩
  obtain ⟨_, l', after, gone⟩ := invariant
  exact fun current => gone (after.running current)

/-! ### Exits -/

/-- The list has lost `task` and nothing else, and `task` never runs again. -/
structure ExitsAlone (l : List FramePtr) (task : FramePtr) (state : Scheduler × List Nat) : Prop where
  removed : Linked state.1.next .null (state.1.next .prochead) (l.erase task)
  never : ∀ state', SchedulerFuture state state' → state'.1.current ≠ task

theorem tick_exitsAlone {a : Nat} (linkage : Linkage s used l) (running : s.current = .heap a)
    (invalid : (s.frames s.current).invalid) (returned : Returns (taskSwitch · stack s) (r, t)) :
    ExitsAlone l s.current (t, used) ↔ FirstWithPid s l s.current := by
  have member : s.current ∈ l := running ▸ linkage.running running
  have distinct := linkage.1.nodup.2
  have after := linkage.tick (tick_ticked linkage.1 linkage.2.1 returned)
  have left : s.survivors l = l.eraseP fun p => (s.frames p).pid == (s.frames s.current).pid := by
    rw [Scheduler.survivors, Scheduler.looksAt_current member, if_pos invalid]
  rw [left] at after
  rcases eraseP_pid (s := s) distinct member with ⟨first, erased⟩ | ⟨later, stays⟩
  · rw [erased] at after
    refine iff_of_true ⟨after.1.2.2, fun state' future => ?_⟩ first
    rw [running] at after ⊢
    refine future_gone after (linkage.handed running) (fun present => ?_) future
    exact (distinct.mem_erase_iff.mp present).1 rfl
  · refine iff_of_false (fun alone => ?_) later
    have same := linked_unique alone.removed after.1.2.2
    rw [← same] at stays
    exact (distinct.mem_erase_iff.mp stays).1 rfl

/-- Memory for a task: a page of the heap, its page tables and its stack. -/
def taskAt (page : Nat) : TaskMemory := ⟨page + 0x10, .zero, fun _ _ _ => page + 0x1000, page + 0x2000⟩

theorem new_task (page : Nat) (reached : SchedulerReach (s, used)) (listed : Listed s l)
    (fresh : page + 0x10 ∉ used) :
    ∃ t, SchedulerReach (t, (page + 0x10) :: used) ∧ Listed t (.heap (page + 0x10) :: l) ∧ t.current = s.current ∧
      t.highestPid = s.highestPid + 1 ∧ (t.frames (.heap (page + 0x10))).pid = s.highestPid ∧
      ∀ a ∈ used, t.frames (.heap a) = { s.frames (.heap a) with next := t.next (.heap a) } := by
  obtain ⟨l', linkage⟩ := schedulerReach_linkage reached
  have same : l' = l := linked_unique linkage.1.2.2 listed.2.2
  rw [same] at linkage
  obtain ⟨t, run, listed', current, _⟩ := intAddTask_spec (taskAt page) [0x61] 0x400000 0x401000 false listed
    (linkage.fresh fresh)
  obtain ⟨pids, pid, frames⟩ := intAddTask_frames run
  have next : SchedulerReach (t, (page + 0x10) :: used) :=
    reached.step (e := .addTask (taskAt page) [0x61] 0x400000 0x401000) fresh ⟨run, rfl⟩
  refine ⟨t, next, listed', current, pids, pid, fun a handed => frames _ fun same => ?_⟩
  cases same
  exact fresh handed

theorem sustained_creation (n : Nat) (reached : SchedulerReach (s, used)) (listed : Listed s l)
    (below : ∀ a ∈ used, a < 0x200000) :
    ∃ t used' new, SchedulerReach (t, used') ∧ Listed t (new ++ l) ∧ t.current = s.current ∧
      t.highestPid = s.highestPid + .ofNat n ∧ (∀ a ∈ used, a ∈ used') ∧ (∀ a ∈ used', a < 0x200000 + 0x3000 * n) ∧
      ∀ a ∈ used, t.frames (.heap a) = { s.frames (.heap a) with next := t.next (.heap a) } := by
  induction n with
  | zero =>
    exact ⟨s, used, [], reached, listed, rfl, (UInt8.add_zero _).symm, fun _ handed => handed, below, fun _ _ => rfl⟩
  | succ n ih =>
    obtain ⟨t, used', new, reached', listed', current, pids, more, below', frames⟩ := ih
    obtain ⟨u, next, listed'', current', pids', _, frames'⟩ := new_task (0x200000 + 0x3000 * n) reached' listed'
      fun member => by have := below' _ member; omega
    refine ⟨u, _, _ :: new, next, listed'', current'.trans current, ?_, fun a handed => List.mem_cons_of_mem _ (more a handed),
      fun a member => ?_, fun a handed => ?_⟩
    · rw [pids', pids, UInt8.add_assoc, UInt8.ofNat_add]
      rfl
    · rcases List.mem_cons.mp member with rfl | old
      · omega
      · have := below' a old
        omega
    · rw [frames' a (more a handed), frames a handed]

theorem exits {a : Nat} (reached : SchedulerReach (s, used)) (listed : Listed s l) (running : s.current = .heap a) :
    ∃ t, SchedulerReach (t, used) ∧ Listed t l ∧ t.current = .heap a ∧ (t.frames t.current).invalid ∧
      ∀ p, (t.frames p).pid = (s.frames p).pid := by
  have nonnull : s.current ≠ .null := by rw [running]; nofun
  have exit := modify_eq (s := s) (f := ({ · with invalid := true })) nonnull
  refine ⟨_, reached.step (e := .processExit) nonnull ⟨exit, rfl⟩, listed.congr ?_, running, ?_, ?_⟩
  · exact update_keeps ProcessFrame.next rfl
  · simp only [Function.update_self]
  · exact update_keeps ProcessFrame.pid rfl

theorem FirstTaskRuns.listed (runs : FirstTaskRuns s) : Listed s [.heap 0x101010] :=
  ⟨rfl, nofun, runs.first, nofun, runs.last⟩

/-- When a task that has exited is ticked, it is removed, alone and for good, if
and only if no frame in front of it has its pid. -/
theorem exit_alone_iff {a : Nat} (reached : SchedulerReach (s, used)) (listed : Listed s l)
    (running : s.current = .heap a) (invalid : (s.frames s.current).invalid)
    (returned : Returns (taskSwitch · stack s) (r, t)) :
    ExitsAlone l s.current (t, used) ↔ FirstWithPid s l s.current := by
  obtain ⟨l', linkage⟩ := schedulerReach_linkage reached
  have same : l' = l := linked_unique linkage.1.2.2 listed.2.2
  rw [same] at linkage
  exact tick_exitsAlone linkage running invalid returned

theorem exit_alone_iff_first_task : ∃ s r t, SchedulerReach (s, [0x101010]) ∧ s.current = .heap 0x101010 ∧
    Returns (taskSwitch · .zero s) (r, t) ∧ ExitsAlone [.heap 0x101010] s.current (t, [0x101010]) := by
  obtain ⟨s₁, reached, runs⟩ := first_task
  obtain ⟨s, reached', listed, running, invalid, _⟩ := exits reached runs.listed runs.current
  obtain ⟨r, t, _, run, _⟩ := taskSwitch_spec .zero listed (Or.inr (Or.inr (by rw [running]; exact List.mem_cons_self)))
  have returned : Returns (taskSwitch · .zero s) (r, t) := ⟨_, run⟩
  refine ⟨s, r, t, reached', running, returned, (exit_alone_iff reached' listed running invalid returned).mpr ?_⟩
  rw [running]
  nofun

/-- The first task exits after 256 more have been created. The newest one, which
also has the pid 1, is removed in its place. -/
theorem wrapped_pid_exit : ∃ s used l r t, SchedulerReach (s, used) ∧ Listed s l ∧ s.current = .heap 0x101010 ∧
    (s.frames s.current).invalid ∧ Returns (taskSwitch · .zero s) (r, t) ∧ ¬ ExitsAlone l s.current (t, used) := by
  obtain ⟨s₁, reached, runs⟩ := first_task
  obtain ⟨s₂, used, new, reached₂, listed₂, current₂, pids₂, more, below, frames₂⟩ :=
    sustained_creation 255 reached runs.listed (by decide)
  obtain ⟨s₃, reached₃, listed₃, current₃, _, newest, frames₃⟩ := new_task 0x4fd000 reached₂ listed₂
    fun member => absurd (below _ member) (by decide)
  obtain ⟨s, reached', listed, running, invalid, pids⟩ := exits reached₃ listed₃
    (current₃.trans (current₂.trans runs.current))
  obtain ⟨l, linkage⟩ := schedulerReach_linkage reached'
  have same := linked_unique linkage.1.2.2 listed.2.2
  obtain ⟨r, t, _, run, _⟩ := taskSwitch_spec .zero linkage.1 linkage.2.1
  have returned : Returns (taskSwitch · .zero s) (r, t) := ⟨_, run⟩
  refine ⟨s, _, l, r, t, reached', linkage.1, running, invalid, returned, fun alone => ?_⟩
  have first := (tick_exitsAlone linkage running invalid returned).mp alone
  rw [running, same] at first
  refine first (.heap (0x4fd000 + 0x10)) (by simp) ?_
  rw [pids, pids, newest, pids₂, runs.highestPid, frames₃ _ (more _ List.mem_cons_self), frames₂ _ List.mem_cons_self,
    runs.pid]
  rfl

/-! ### Terminations -/

inductive TaskEvent where
  | scheduler (e : SchedulerEvent)
  | terminateTask (task : FramePtr)

/-- The state carries the frames that have been terminated so far. -/
def TaskStep : (Scheduler × List Nat) × List FramePtr → TaskEvent → (Scheduler × List Nat) × List FramePtr → Prop
  | (state, gone), .scheduler e, (state', gone') => SchedulerStep state e state' ∧ gone' = gone
  | ((s, used), gone), .terminateTask task, ((t, used'), gone') =>
    Returns (terminateTask · (s.frames task).pid s) t ∧ used' = used ∧ gone' = task :: gone

/-- Tasks are terminated while they are on the list, and then no two tasks there have one pid. -/
def TaskAllowed : (Scheduler × List Nat) × List FramePtr → TaskEvent → Prop
  | (state, _), .scheduler e => SchedulerAllowed state e
  | ((s, _), _), .terminateTask task => ∃ l, Listed s l ∧ task ∈ l ∧ DistinctPids s l

def SparesRunning : (Scheduler × List Nat) × List FramePtr → TaskEvent → Prop
  | ((s, _), _), .terminateTask task => task ≠ s.current
  | _, .scheduler _ => True

def TaskReach (guard : (Scheduler × List Nat) × List FramePtr → TaskEvent → Prop) :
    (Scheduler × List Nat) × List FramePtr → Prop :=
  Reach (fun state => (state.1.1.Initial ∧ state.1.2 = []) ∧ state.2 = []) TaskStep
    fun state e => TaskAllowed state e ∧ guard state e

/-- The terminated frames are off the list, and none of them can be handed out again. -/
def Gone (s : Scheduler) (used : List Nat) (gone : List FramePtr) : Prop :=
  ∃ l, Linkage s used l ∧ ∀ p ∈ gone, p ∉ l ∧ ∃ a ∈ used, p = .heap a

theorem Gone.current {gone : List FramePtr} (invariant : Gone s used gone) : s.current ∉ gone := by
  obtain ⟨l, linkage, off⟩ := invariant
  intro member
  obtain ⟨away, a, _, same⟩ := off _ member
  rw [same] at away
  exact away (linkage.running same)

theorem Gone.schedulerStep {gone : List FramePtr} {used' : List Nat} {e : SchedulerEvent} (invariant : Gone s used gone)
    (allowed : SchedulerAllowed (s, used) e) (taken : SchedulerStep (s, used) e (t, used')) : Gone t used' gone := by
  obtain ⟨l, linkage, off⟩ := invariant
  obtain ⟨l', after, more, shorter⟩ := schedulerStep_linkage linkage allowed taken
  refine ⟨l', after, fun p member => ?_⟩
  obtain ⟨away, a, handed, rfl⟩ := off p member
  exact ⟨fun present => away (shorter a handed present), a, more a handed, rfl⟩

theorem terminateTask_erases (linkage : Linkage s used l) (member : task ∈ l) (distinct : DistinctPids s l)
    (returned : Returns (terminateTask · (s.frames task).pid s) t) :
    Listed t (l.erase task) ∧ t.current = s.current ∧ ∀ q, t.frames q = { s.frames q with next := t.next q } := by
  obtain ⟨t', run, listed, current, _, frames⟩ := terminateTask_exact linkage.1 member rfl
  cases returned.unique ⟨l.length + 1, run⟩
  rcases eraseP_pid (s := s) linkage.1.nodup.2 member with ⟨_, erased⟩ | ⟨later, _⟩
  · rw [erased] at listed
    exact ⟨listed, current, frames⟩
  · exact absurd (distinct.first member) later

theorem Gone.terminate {gone : List FramePtr} (invariant : Gone s used gone) (listed : Listed s l) (member : task ∈ l)
    (distinct : DistinctPids s l) (other : task ≠ s.current)
    (returned : Returns (terminateTask · (s.frames task).pid s) t) : Gone t used (task :: gone) := by
  obtain ⟨l', linkage, off⟩ := invariant
  have same : l' = l := linked_unique linkage.1.2.2 listed.2.2
  subst same
  obtain ⟨listed', current, _⟩ := terminateTask_erases linkage member distinct returned
  have nodup := linkage.1.nodup.2
  refine ⟨_, ⟨listed', ?_, fun p present => linkage.2.2 p (List.mem_of_mem_erase present)⟩, ?_⟩
  · unfold Placed
    rw [current]
    exact linkage.2.1.imp_right fun more => more.imp_right fun present =>
      nodup.mem_erase_iff.mpr ⟨fun here => other here.symm, present⟩
  · intro p present
    rcases List.mem_cons.mp present with rfl | old
    · exact ⟨fun here => (nodup.mem_erase_iff.mp here).1 rfl, linkage.2.2 p member⟩
    · obtain ⟨away, handed⟩ := off p old
      exact ⟨fun here => away (List.mem_of_mem_erase here), handed⟩

theorem taskReach_gone {state : (Scheduler × List Nat) × List FramePtr} (reached : TaskReach SparesRunning state) :
    Gone state.1.1 state.1.2 state.2 := by
  refine Reach.invariant (I := fun state => Gone state.1.1 state.1.2 state.2) reached ?_ ?_
  · rintro ⟨⟨s, used⟩, gone⟩ ⟨⟨initial, _⟩, empty⟩
    change gone = [] at empty
    subst empty
    exact ⟨[], ⟨initial.listed, Or.inl initial.current, nofun⟩, nofun⟩
  · rintro ⟨⟨s, used⟩, gone⟩ e ⟨⟨t, used'⟩, gone'⟩ invariant ⟨allowed, spares⟩ taken
    cases e with
    | scheduler e =>
      obtain ⟨taken, rfl⟩ := taken
      exact invariant.schedulerStep allowed taken
    | terminateTask task =>
      obtain ⟨returned, rfl, rfl⟩ := taken
      obtain ⟨l, listed, member, distinct⟩ := allowed
      exact invariant.terminate listed member distinct spares returned

/-- In every run in which no task terminates itself, each tick completes, selects
a task on the list or none, and never one that has been terminated. -/
theorem terminated_never_selected {gone : List FramePtr} (reached : TaskReach SparesRunning ((s, used), gone))
    (stack : Registers) : ∃ r t, Returns (taskSwitch · stack s) (r, t) ∧ t.current ∉ gone ∧
      ∃ l, Linked t.next .null (t.next .prochead) l ∧
        (t.current = .null ∨ t.current = .prochead ∨ t.current ∈ l) := by
  have invariant := taskReach_gone reached
  obtain ⟨l, linkage, _⟩ := invariant
  obtain ⟨r, t, _, run, _⟩ := taskSwitch_spec stack linkage.1 linkage.2.1
  have returned : Returns (taskSwitch · stack s) (r, t) := ⟨_, run⟩
  have after := linkage.tick (tick_ticked linkage.1 linkage.2.1 returned)
  have gone := (taskReach_gone reached).schedulerStep (e := .tick stack) trivial ⟨⟨r, returned⟩, rfl⟩
  exact ⟨r, t, returned, gone.current, _, after.1.2.2, after.2.1⟩

theorem SchedulerReach.tasks {guard : (Scheduler × List Nat) × List FramePtr → TaskEvent → Prop}
    {state : Scheduler × List Nat} (reached : SchedulerReach state)
    (free : ∀ state e, guard state (.scheduler e)) : TaskReach guard (state, []) := by
  induction reached with
  | init start => exact .init ⟨start, rfl⟩
  | step _ allowed taken ih => exact ih.step (e := .scheduler _) ⟨allowed, free _ _⟩ ⟨taken, rfl⟩

/-- The first task terminates the second one before that has run. -/
theorem terminated_never_selected_second_task : ∃ s, TaskReach SparesRunning ((s, [0x200010, 0x101010]), [.heap 0x200010]) ∧
    ∃ r t, Returns (taskSwitch · .zero s) (r, t) ∧ t.current ∉ [FramePtr.heap 0x200010] := by
  obtain ⟨s₁, reached, runs⟩ := first_task
  obtain ⟨s₂, reached₂, listed₂, current₂, _, pid₂, frames₂⟩ := new_task 0x200000 reached runs.listed (by decide)
  have distinct : DistinctPids s₂ [.heap 0x200010, .heap 0x101010] := by
    have old : (s₂.frames (.heap 0x101010)).pid = 1 := by rw [frames₂ _ List.mem_cons_self, runs.pid]
    rw [runs.highestPid] at pid₂
    have unequal : (2 : UInt8) ≠ 1 := by decide
    simp [DistinctPids, old, pid₂, unequal, unequal.symm]
  obtain ⟨s, run, _⟩ := terminateTask_exact listed₂ List.mem_cons_self rfl
  have other : FramePtr.heap 0x200010 ≠ s₂.current := by
    rw [current₂, runs.current]
    decide
  have last : TaskReach SparesRunning ((s, [0x200010, 0x101010]), [.heap 0x200010]) :=
    (reached₂.tasks fun _ _ => trivial).step (e := .terminateTask (.heap 0x200010))
      ⟨⟨_, listed₂, List.mem_cons_self, distinct⟩, other⟩ ⟨⟨_, run⟩, rfl, rfl⟩
  obtain ⟨r, t, returned, away, _⟩ := terminated_never_selected last .zero
  exact ⟨s, last, r, t, returned, away⟩

/-- Whether the frame is still on the list plays no part while its slice lasts. -/
theorem taskSwitch_stays {a : Nat} (running : s.current = .heap a) (valid : (s.frames s.current).invalid = false)
    (ticks : (s.frames s.current).quanta ≠ 0) (stack : Registers) :
    ∃ r t, Returns (taskSwitch · stack s) (r, t) ∧ t.current = s.current := by
  have nonnull : s.current ≠ .null := by rw [running]; nofun
  have task : ¬ (s.current = .null ∨ s.current = .prochead) := by rw [running]; nofun
  unfold taskSwitch
  simp only [if_neg task, modify_eq nonnull, ok_bind]
  obtain ⟨u, here⟩ : ∃ u : Scheduler, u = { s with
    frames := Function.update s.frames s.current { s.frames s.current with registers := stack } } := ⟨_, rfl⟩
  have current : u.current = s.current := by rw [here]
  have frame : u.frames u.current = { s.frames s.current with registers := stack } := by
    rw [here]
    exact Function.update_self ..
  have nonnull' : u.current ≠ .null := by rw [current]; exact nonnull
  have switch : ∀ fuel, switchFrom fuel stack u = rotate u := fun fuel => switchFrom_valid nonnull' (by
    rw [frame, valid]
    exact Bool.false_ne_true)
  have turn : ∃ r t, rotate u = .ok (r, t) ∧ t.current = u.current := by
    unfold rotate
    rw [deref_eq nonnull', ok_bind, frame, if_neg ticks, ok_bind, modify_eq nonnull', ok_bind, deref_eq nonnull', ok_bind]
    exact ⟨_, _, rfl, rfl⟩
  obtain ⟨r, t, run, same⟩ := turn
  refine ⟨r, t, ⟨0, fun fuel _ => ?_⟩, same.trans current⟩
  show switchFrom fuel stack _ = _
  rw [← here, switch, run]

/-- The first task terminates itself and adds another task. The next tick selects
the frame that is no longer on the list. -/
theorem self_termination_resumes : ∃ s used gone r t, TaskReach anyStep ((s, used), gone) ∧
    Returns (taskSwitch · .zero s) (r, t) ∧ t.current ∈ gone := by
  obtain ⟨s₁, reached, runs⟩ := first_task
  have distinct : DistinctPids s₁ [.heap 0x101010] := by simp [DistinctPids]
  obtain ⟨l, linkage⟩ := schedulerReach_linkage reached
  obtain ⟨s₂, run, _⟩ := terminateTask_exact runs.listed List.mem_cons_self rfl
  have terminated : TaskReach anyStep ((s₂, [0x101010]), [.heap 0x101010]) :=
    (reached.tasks fun _ _ => trivial).step (e := .terminateTask (.heap 0x101010))
      ⟨⟨_, runs.listed, List.mem_cons_self, distinct⟩, trivial⟩ ⟨⟨_, run⟩, rfl, rfl⟩
  have same : l = [.heap 0x101010] := linked_unique linkage.1.2.2 runs.listed.2.2
  subst same
  obtain ⟨listed₂, current₂, frames₂⟩ := terminateTask_erases linkage List.mem_cons_self distinct ⟨_, run⟩
  obtain ⟨s, added, _, current, _⟩ := intAddTask_spec (taskAt 0x200000) [0x62] 0x400000 0x401000 false
    listed₂ (by decide)
  obtain ⟨_, _, frames⟩ := intAddTask_frames added
  have last : TaskReach anyStep ((s, [0x200010, 0x101010]), [.heap 0x101010]) :=
    terminated.step (e := .scheduler (.addTask (taskAt 0x200000) [0x62] 0x400000 0x401000))
      ⟨(by decide : 0x200010 ∉ [0x101010]), trivial⟩ ⟨⟨added, rfl⟩, rfl⟩
  have running : s.current = .heap 0x101010 := current.trans (current₂.trans runs.current)
  obtain ⟨r, t, returned, stays⟩ := taskSwitch_stays running (by
    rw [running, frames _ (by decide), frames₂, runs.invalid]) (by
    rw [running, frames _ (by decide), frames₂, runs.quanta]
    decide) .zero
  refine ⟨s, _, _, r, t, last, returned, ?_⟩
  rw [stays, running]
  exact List.mem_cons_self

/-! ### The specification of `TerminateTask` -/

/-- The scheduler on a processor with its interrupt flag. -/
structure Processor where
  interrupts : Bool
  scheduler : Scheduler

def Processor.cli (cpu : Processor) : Processor := { cpu with interrupts := false }

/-- `TerminateTask` with its `cli`. The `sti` stands behind an endless loop whose
two exits both return from the function, so no path has it. -/
def terminateTaskOn (fuel : Nat) (pid : UInt8) (cpu : Processor) : Except Stop Processor := do
  let cpu := cpu.cli
  let s ← terminateTask fuel pid cpu.scheduler
  return { cpu with scheduler := s }

/-- Called with interrupts enabled, it returns, the list has lost the first frame
with the pid, if there is one, and interrupts are enabled again. -/
def TerminatesProperly (pid : UInt8) (s : Scheduler) (l : List FramePtr) : Prop :=
  ∃ cpu, Returns (terminateTaskOn · pid ⟨true, s⟩) cpu ∧
    Listed cpu.scheduler (l.eraseP fun p => (s.frames p).pid == pid) ∧ cpu.interrupts = true

variable {pid : UInt8}

/-- The pid of the frame behind the last one is read before the test for the end. -/
theorem terminateLoop_misses {a : FramePtr} (fuel : Nat) (chain : Linked s.next .null a (a :: l))
    (others : ∀ p ∈ l, (s.frames p).pid ≠ pid) (enough : l.length < fuel) :
    terminateLoop pid fuel a s = .error .nullDereference := by
  induction l generalizing a fuel with
  | nil =>
    obtain ⟨_, nonnull, last⟩ := chain
    have last : (s.frames a).next = .null := last
    obtain ⟨fuel, rfl⟩ := Nat.exists_eq_add_one.mpr enough
    rw [terminateLoop, deref_eq nonnull, ok_bind, last]
    rfl
  | cons b l ih =>
    obtain ⟨_, nonnull, next, nonnull', rest⟩ := chain
    obtain ⟨fuel, rfl⟩ := Nat.exists_eq_add_one.mpr (Nat.zero_lt_of_lt enough)
    rw [terminateLoop_step nonnull (by rw [next]; exact nonnull'), next, if_neg (others b List.mem_cons_self)]
    exact ih fuel ⟨rfl, nonnull', rest⟩ (fun p member => others p (List.mem_cons_of_mem _ member)) (by simpa using enough)

theorem terminateTaskOn_eq (fuel : Nat) (pid : UInt8) (enabled : Bool) (s : Scheduler) :
    terminateTaskOn fuel pid ⟨enabled, s⟩ = (do let t ← terminateTask fuel pid s; return ⟨false, t⟩) := rfl

theorem terminateTaskOn_found (listed : Listed s l) (member : task ∈ l) (here : (s.frames task).pid = pid) :
    ∃ t, Returns (terminateTaskOn · pid ⟨true, s⟩) ⟨false, t⟩ ∧ Listed t (l.eraseP fun p => (s.frames p).pid == pid) := by
  obtain ⟨t, run, removed, _⟩ := terminateTask_exact listed member here
  refine ⟨t, ⟨l.length + 1, fun fuel enough => ?_⟩, removed⟩
  simp only [terminateTaskOn_eq, run fuel enough, ok_bind, pure_eq_ok]

theorem terminateTaskOn_absent {fuel : Nat} (listed : Listed s l) (others : ∀ p ∈ l, (s.frames p).pid ≠ pid)
    (enough : l.length < fuel) : terminateTaskOn fuel pid ⟨true, s⟩ = .error .nullDereference := by
  rw [terminateTaskOn_eq, terminateTask, terminateLoop_misses fuel listed others enough]
  rfl

theorem not_terminatesProperly : ¬ TerminatesProperly pid s l := by
  rintro ⟨cpu, ⟨bound, returned⟩, _, enabled⟩
  have done := returned bound (le_refl _)
  simp only [terminateTaskOn_eq] at done
  obtain ⟨t, _, result⟩ := bind_ok.mp done
  cases result
  cases enabled

/-- On no list and for no pid does `TerminateTask` do what it is for: a frame
that it finds is removed, and no other, but interrupts stay disabled; and where
there is none, it reads the pid of the null frame. -/
theorem terminateTask_never_proper (listed : Listed s l) (pid : UInt8) :
    ¬ TerminatesProperly pid s l ∧
    ((∃ p ∈ l, (s.frames p).pid = pid) → ∃ t, Returns (terminateTaskOn · pid ⟨true, s⟩) ⟨false, t⟩ ∧
      Listed t (l.eraseP fun p => (s.frames p).pid == pid)) ∧
    ((∀ p ∈ l, (s.frames p).pid ≠ pid) → ∀ fuel > l.length,
      terminateTaskOn fuel pid ⟨true, s⟩ = .error .nullDereference) := by
  refine ⟨not_terminatesProperly, ?_, fun others fuel enough => terminateTaskOn_absent listed others enough⟩
  rintro ⟨p, member, here⟩
  exact terminateTaskOn_found listed member here

/-- One task with pid 1 on the list. -/
def oneTask : Scheduler where
  highestPid := 2
  schedulingStarted := false
  current := .null
  frames p := if p = .prochead then { ProcessFrame.zero with next := .heap 0x101010 } else { ProcessFrame.zero with pid := 1 }

theorem oneTask_listed : Listed oneTask [.heap 0x101010] := ⟨rfl, by decide, rfl, by decide, rfl⟩

theorem terminateTask_never_proper_oneTask : ¬ TerminatesProperly 1 oneTask [.heap 0x101010] ∧
    terminateTaskOn 2 2 ⟨true, oneTask⟩ = .error .nullDereference :=
  ⟨(terminateTask_never_proper oneTask_listed 1).1,
    (terminateTask_never_proper oneTask_listed 2).2.2 (by decide) 2 (by decide)⟩

/-- Terminating the only task returns with interrupts disabled, terminating one that is not there does not return. -/
theorem oneTask_terminates_improperly : Listed oneTask [.heap 0x101010] ∧
    (∃ t, Returns (terminateTaskOn · 1 ⟨true, oneTask⟩) ⟨false, t⟩) ∧
    ¬ TerminatesProperly 1 oneTask [.heap 0x101010] ∧
    (∀ fuel ≥ 2, terminateTaskOn fuel 2 ⟨true, oneTask⟩ = .error .nullDereference) ∧
    ¬ TerminatesProperly 2 oneTask [.heap 0x101010] := by
  obtain ⟨t, returned, _⟩ := terminateTaskOn_found oneTask_listed List.mem_cons_self rfl
  exact ⟨oneTask_listed, ⟨t, returned⟩, not_terminatesProperly,
    fun fuel enough => terminateTaskOn_absent oneTask_listed (by decide) enough, not_terminatesProperly⟩

end System14
