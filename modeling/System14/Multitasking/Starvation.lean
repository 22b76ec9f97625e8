import System14.Lib.Extent
import System14.Multitasking.RoundRobin

/-!
# Waiting times

While no task exits, a task on the list waits for at most ten ticks for each
other task that is there in the end, whatever is added meanwhile: new tasks come
in front of the first one, so those that wait behind the running task do not
see them before the list starts anew. Exits start it anew each time, and a chain
of tasks that each add their successor and exit keeps all others waiting, for as
long as there is memory for further tasks.
-/

namespace System14
open Run Chain Extent

variable {s t : Scheduler} {l x : List FramePtr} {used used' : List Nat} {stack r : Registers} {b p : FramePtr}
  {e : SchedulerEvent}

/-! ### Slices -/

/-- A valid task has its ten ticks before it, or it is running and has had one of them. -/
def FullSlices (s : Scheduler) (l : List FramePtr) : Prop :=
  ∀ p ∈ l, (s.frames p).invalid = false →
    if p = s.current then (s.frames p).quanta.toNat ≤ 9 else (s.frames p).quanta = 10

theorem FullSlices.waiting (full : FullSlices s l) (member : p ∈ l) (valid : (s.frames p).invalid = false)
    (other : p ≠ s.current) : (s.frames p).quanta = 10 := by
  have slice := full p member valid
  rw [if_neg other] at slice
  exact slice

theorem FullSlices.running (full : FullSlices s l) (member : s.current ∈ l)
    (valid : (s.frames s.current).invalid = false) : (s.frames s.current).quanta.toNat ≤ 9 := by
  have slice := full _ member valid
  rw [if_pos rfl] at slice
  exact slice

theorem pred_toNat {q : UInt8} (more : q ≠ 0) : (q - 1).toNat + 1 = q.toNat := by
  have positive : q.toNat ≠ 0 := fun zero => more (UInt8.toNat_inj.mp zero)
  have below : (1 : UInt8).toNat ≤ q.toNat := Nat.pos_of_ne_zero positive
  rw [UInt8.toNat_sub_of_le _ _ (UInt8.le_iff_toNat_le.mpr below)]
  exact Nat.sub_add_cancel below

/-- The task that a tick ends up with has lost one of its ticks; a slice that is over is filled up before. -/
theorem Scheduler.countDown_full (s : Scheduler) (l : List FramePtr) {c : FramePtr}
    (first : p = c → (s.frames p).quanta.toNat ≤ 10) (others : p ≠ c → (s.frames p).quanta = 10) :
    if p = s.choice l c then (s.countDown l c p).toNat ≤ 9 else s.countDown l c p = 10 := by
  by_cases here : p = c
  · subst here
    by_cases ended : (s.frames p).quanta = 0
    · have left : s.ticksLeft p p = 10 := if_pos ⟨rfl, ended⟩
      rw [Scheduler.countDown, left]
      split <;> decide
    · have left : s.ticksLeft p p = (s.frames p).quanta := if_neg fun both => ended both.2
      have stays : s.choice l p = p := if_neg ended
      have pred := pred_toNat ended
      have bound := first rfl
      rw [Scheduler.countDown, left, stays, if_pos rfl, if_pos rfl]
      omega
  · have left : s.ticksLeft c p = (s.frames p).quanta := if_neg fun both => here both.1
    rw [Scheduler.countDown, left, others here]
    split <;> decide

theorem FullSlices.tick (full : FullSlices s l) (listed : Listed s l) (placed : Placed s l)
    (returned : Returns (taskSwitch · stack s) (r, t)) : FullSlices t (s.survivors l) := by
  obtain ⟨_, _, frames, resumed⟩ := tick_turned listed placed returned
  intro p member valid
  rw [frames p] at valid ⊢
  have valid : (s.frames p).invalid = false := valid
  rcases resumed with ⟨some, current, _⟩ | ⟨none, _⟩
  · rw [current, Scheduler.selected]
    show if p = s.choice _ _ then (ite _ _ _ : UInt8).toNat ≤ 9 else (ite _ _ _ : UInt8) = 10
    rw [if_neg some]
    have old : p ∈ l := tick_ticked listed placed returned |>.shorter p member
    refine s.countDown_full _ (fun here => ?_) fun other => ?_
    · have slice := full p old valid
      split at slice
      · omega
      · rw [slice]
        decide
    · refine full.waiting old valid fun running => ?_
      -- An exit leaves only the task that exits out of turn, and that one is not valid.
      have looks : s.looksAt l = p := by
        rw [running] at old ⊢
        exact Scheduler.looksAt_current old
      unfold Scheduler.turn at other
      rw [looks, valid] at other
      exact other rfl
  · rw [none] at member
    cases member

/-- A new task does not run yet and has ten ticks; whether it counts as exited is up to its block. -/
theorem intAddTask_slice {given : TaskMemory} {taskName : List UInt8} {start stop : Nat} {kernel : Bool}
    (added : intAddTask given taskName start stop kernel s = .ok t) :
    t.current = s.current ∧ (t.frames (.heap given.frame)).quanta = 10 ∧
      (t.frames (.heap given.frame)).invalid = given.contents.invalid := by
  have other : FramePtr.heap given.frame ≠ .prochead := nofun
  rw [intAddTask_new] at added
  cases added
  simp only [Function.update_of_ne other, Function.update_self]
  exact ⟨trivial, rfl, rfl⟩

theorem FullSlices.add {given : TaskMemory} {taskName : List UInt8} {start stop : Nat} {kernel : Bool}
    (full : FullSlices s l) (linkage : Linkage s used l) (fresh : given.frame ∉ used)
    (added : intAddTask given taskName start stop kernel s = .ok t) : FullSlices t (.heap given.frame :: l) := by
  obtain ⟨current, quanta, _⟩ := intAddTask_slice added
  obtain ⟨_, _, frames⟩ := intAddTask_frames added
  have outside := linkage.fresh fresh
  intro p member
  rcases List.mem_cons.mp member with rfl | old
  · intro _
    have other : FramePtr.heap given.frame ≠ t.current := by
      rw [current]
      exact fun running => outside (running ▸ linkage.running running.symm)
    rw [if_neg other]
    exact quanta
  · rw [frames p fun same => outside (same ▸ old), current]
    exact full p old

theorem FullSlices.invalidate (full : FullSlices s l) (marked : s.modify s.current ({ · with invalid := true }) = .ok t) :
    FullSlices t l := by
  rw [modify_eq (modify_nonnull marked)] at marked
  cases marked
  intro p member
  by_cases running : p = s.current
  · subst running
    show (Function.update s.frames s.current _ s.current).invalid = false → _
    rw [Function.update_self]
    exact nofun
  · show (Function.update s.frames s.current _ p).invalid = false →
      if p = s.current then (Function.update s.frames s.current _ p).quanta.toNat ≤ 9
      else (Function.update s.frames s.current _ p).quanta = 10
    rw [Function.update_of_ne running]
    exact full p member

/-- A step keeps the slices full. -/
theorem FullSlices.step (full : FullSlices s l) (linkage : Linkage s used l) (allowed : SchedulerAllowed (s, used) e)
    (taken : SchedulerStep (s, used) e (t, used')) : ∃ l', Linkage t used' l' ∧ FullSlices t l' := by
  cases e with
  | tick stack =>
    obtain ⟨⟨r, returned⟩, rfl⟩ := taken
    have ticked := tick_ticked linkage.1 linkage.2.1 returned
    exact ⟨_, linkage.tick ticked, full.tick linkage.1 linkage.2.1 returned⟩
  | addTask given taskName start stop =>
    obtain ⟨call, rfl⟩ := taken
    exact ⟨_, linkage.add allowed call, full.add linkage allowed call⟩
  | keAddTask given taskName start stop =>
    obtain ⟨call, rfl⟩ := taken
    exact ⟨_, linkage.add allowed call, full.add linkage allowed call⟩
  | processExit =>
    obtain ⟨call, rfl⟩ := taken
    exact ⟨_, linkage.invalidate call, full.invalidate call⟩
  | exception exceptionType =>
    obtain ⟨handled, rfl⟩ := taken
    have call := commonExceptionHandler_ok handled
    exact ⟨_, linkage.invalidate call, full.invalidate call⟩
  | markSchedulingActive =>
    obtain ⟨rfl, rfl⟩ := taken
    exact ⟨_, linkage, full⟩

theorem schedulerReach_fullSlices (reached : SchedulerReach (s, used)) : ∃ l, Linkage s used l ∧ FullSlices s l := by
  refine reached.invariant (I := fun state => ∃ l, Linkage state.1 state.2 l ∧ FullSlices state.1 l) ?_ ?_
  · intro state start
    exact ⟨[], ⟨start.1.listed, Or.inl start.1.current, nofun⟩, nofun⟩
  · intro state e state' invariant allowed taken
    obtain ⟨l, linkage, full⟩ := invariant
    exact full.step linkage allowed taken

/-! ### Waiting -/

namespace Scheduler

/-- The other tasks in the order of their turns. -/
def upcoming (s : Scheduler) (l : List FramePtr) : List FramePtr :=
  (l.dropWhile (· ≠ s.current)).tail ++ l.takeWhile (· ≠ s.current)

/-- What is left of the running task's slice. -/
def slice (s : Scheduler) (l : List FramePtr) : Nat :=
  if s.current ∈ l ∧ (s.frames s.current).invalid = false then (s.frames s.current).quanta.toNat else 0

/-- The ticks until the turn of `b`. -/
def waitingTime (s : Scheduler) (l : List FramePtr) (b : FramePtr) : Nat := s.slice l + 10 * (s.upcoming l).idxOf b

end Scheduler

theorem upcoming_idle (outside : s.current ∉ l) : s.upcoming l = l := by
  have all : ∀ p ∈ l, decide (p ≠ s.current) = true := fun p member =>
    decide_eq_true fun here => outside (here ▸ member)
  rw [Scheduler.upcoming, List.dropWhile_eq_nil_iff.mpr all, List.takeWhile_eq_self_iff.mpr all]
  rfl

theorem upcoming_split {pre post : List FramePtr} (distinct : (pre ++ p :: post).Nodup) (running : s.current = p) :
    s.upcoming (pre ++ p :: post) = post ++ pre := by
  have before : ∀ q ∈ pre, decide (q ≠ p) = true := fun q member =>
    decide_eq_true ((List.nodup_append.mp distinct).2.2 q member p List.mem_cons_self)
  have stop : decide (p ≠ p) = false := decide_eq_false (not_not.mpr rfl)
  rw [Scheduler.upcoming, running, List.dropWhile_append_of_pos before, List.takeWhile_append_of_pos before,
    List.dropWhile_cons_of_neg (by rw [stop]; decide), List.takeWhile_cons_of_neg (by rw [stop]; decide),
    List.append_nil, List.tail_cons]

theorem mem_upcoming (distinct : l.Nodup) (member : b ∈ l) (other : b ≠ s.current) : b ∈ s.upcoming l := by
  by_cases running : s.current ∈ l
  · obtain ⟨pre, post, split⟩ := List.append_of_mem running
    rw [split] at distinct member ⊢
    rw [upcoming_split distinct rfl]
    simpa [other, or_comm] using member
  · rw [upcoming_idle running]
    exact member

/-- When the turn passes on, the task that has had it comes last. -/
theorem upcoming_next {d : FramePtr} {rest : List FramePtr} (distinct : l.Nodup) (member : s.current ∈ l)
    (next : s.upcoming l = d :: rest) (passed : t.current = d) : t.upcoming l = rest ++ [s.current] := by
  obtain ⟨pre, post, split⟩ := List.append_of_mem member
  rw [split] at distinct next ⊢
  rw [upcoming_split distinct rfl] at next
  cases post with
  | nil =>
    have same : pre = d :: rest := next
    subst same
    have turned : t.upcoming ([] ++ d :: (rest ++ [s.current])) = (rest ++ [s.current]) ++ [] :=
      upcoming_split (by simpa using distinct) passed
    simpa using turned
  | cons a post =>
    obtain ⟨rfl, rfl⟩ := List.cons.inj next
    have turned : t.upcoming ((pre ++ [s.current]) ++ a :: post) = post ++ (pre ++ [s.current]) :=
      upcoming_split (by simpa using distinct) passed
    simpa using turned

/-- While its slice lasts the running task is the current one; then the first of the upcoming ones is. -/
theorem choice_upcoming (distinct : l.Nodup) (member : s.current ∈ l) {d : FramePtr} {rest : List FramePtr}
    (next : s.upcoming l = d :: rest) : s.choice l s.current = if (s.frames s.current).quanta = 0 then d else s.current := by
  obtain ⟨pre, post, split⟩ := List.append_of_mem member
  rw [split] at distinct next ⊢
  rw [upcoming_split distinct rfl] at next
  rw [Scheduler.choice, nextTurn_split distinct, next]
  rfl

theorem slice_le (full : FullSlices s l) : s.slice l ≤ 9 := by
  unfold Scheduler.slice
  split
  · rename_i running
    exact full.running running.1 running.2
  · omega

/-- A tick that finds a valid task brings the turn of `b` nearer by one tick. -/
theorem waitingTime_tick (full : FullSlices s l) (linkage : Linkage s used l) (member : b ∈ l) (other : b ≠ s.current)
    (valid : (s.frames (s.looksAt l)).invalid = false) (returned : Returns (taskSwitch · stack s) (r, t)) :
    Linkage t used l ∧ (t.current = b ∨ t.waitingTime l b + 1 ≤ s.waitingTime l b) := by
  have listed := linkage.1
  have placed := linkage.2.1
  have distinct := listed.nodup.2
  obtain ⟨kept, flags, current, quanta⟩ := valid_tick listed placed (List.ne_nil_of_mem member) valid returned
  have after := linkage.tick (tick_ticked listed placed returned)
  rw [after.1.unique kept] at after
  have bound : t.slice l ≤ 9 := by
    have full' := full.tick listed placed returned
    rw [(tick_turned listed placed returned).listed.unique kept] at full'
    exact slice_le full'
  refine ⟨after, ?_⟩
  have ahead := mem_upcoming distinct member other
  unfold Scheduler.waitingTime
  by_cases running : s.current ∈ l
  · rw [Scheduler.looksAt_current running] at valid current quanta
    have slice : s.slice l = (s.frames s.current).quanta.toNat := if_pos ⟨running, valid⟩
    obtain ⟨d, rest, next⟩ := List.exists_cons_of_ne_nil (List.ne_nil_of_mem ahead)
    rw [choice_upcoming distinct running next] at current
    by_cases ended : (s.frames s.current).quanta = 0
    · rw [if_pos ended] at current
      by_cases here : d = b
      · exact Or.inl (current.trans here)
      · rw [next] at ahead
        have later : b ∈ rest := List.mem_of_ne_of_mem (Ne.symm here) ahead
        rw [upcoming_next distinct running next current, next, List.idxOf_append_of_mem later, List.idxOf_cons_ne _ here]
        omega
    · rw [if_neg ended] at current
      have count := (choice_running (s := s) l ended).2 s.current
      rw [if_pos rfl] at count
      have pred := pred_toNat ended
      have slice' : t.slice l = (s.frames s.current).quanta.toNat - 1 := by
        rw [Scheduler.slice, current, if_pos ⟨running, (flags _).trans valid⟩, quanta, count]
        omega
      have same : t.upcoming l = s.upcoming l := by rw [Scheduler.upcoming, current, Scheduler.upcoming]
      rw [slice, slice', same]
      omega
  · obtain ⟨d, rest, rfl⟩ := List.exists_cons_of_ne_nil (List.ne_nil_of_mem member)
    have looks : s.looksAt (d :: rest) = d := if_neg running
    rw [looks] at valid current
    have apart : d ≠ s.current := fun here => running (here ▸ List.mem_cons_self)
    have ten := full.waiting List.mem_cons_self valid apart
    rw [(choice_running (s := s) (d :: rest) (by rw [ten]; decide)).1] at current
    by_cases here : d = b
    · exact Or.inl (current.trans here)
    · have later : b ∈ rest := List.mem_of_ne_of_mem (Ne.symm here) member
      have turned : t.upcoming ([] ++ d :: rest) = rest ++ [] := upcoming_split distinct current
      rw [List.nil_append, List.append_nil] at turned
      rw [turned, upcoming_idle running, List.idxOf_cons_ne _ here]
      omega

/-- Only ticks count slices down, and nothing makes an invalid task valid. -/
theorem schedulerStep_slices (linkage : Linkage s used l) (member : p ∈ l) (allowed : SchedulerAllowed (s, used) e)
    (noTick : ∀ stack, e ≠ .tick stack) (taken : SchedulerStep (s, used) e (t, used')) :
    (t.frames p).quanta = (s.frames p).quanta ∧ ((t.frames p).invalid = false → (s.frames p).invalid = false) := by
  have added : ∀ {given : TaskMemory} {taskName : List UInt8} {start stop : Nat} {kernel : Bool}, given.frame ∉ used →
      intAddTask given taskName start stop kernel s = .ok t →
      (t.frames p).quanta = (s.frames p).quanta ∧ ((t.frames p).invalid = false → (s.frames p).invalid = false) := by
    intro given taskName start stop kernel fresh call
    have other : p ≠ .heap given.frame := fun same => linkage.fresh fresh (same ▸ member)
    rw [(intAddTask_frames call).2.2 p other]
    exact ⟨rfl, id⟩
  have marked : s.modify s.current ({ · with invalid := true }) = .ok t →
      (t.frames p).quanta = (s.frames p).quanta ∧ ((t.frames p).invalid = false → (s.frames p).invalid = false) := by
    intro call
    rw [modify_eq (modify_nonnull call)] at call
    cases call
    by_cases running : p = s.current
    · subst running
      simp only [Function.update_self]
      exact ⟨trivial, nofun⟩
    · simp only [Function.update_of_ne running]
      exact ⟨trivial, id⟩
  cases e with
  | tick stack => exact absurd rfl (noTick stack)
  | addTask given taskName start stop => exact added allowed taken.1
  | keAddTask given taskName start stop => exact added allowed taken.1
  | processExit => exact marked taken.1
  | exception exceptionType => exact marked (commonExceptionHandler_ok taken.1)
  | markSchedulingActive =>
    obtain ⟨rfl, _⟩ := taken
    exact ⟨rfl, id⟩

/-- What is not a tick puts at most the tasks it adds before `b`. -/
theorem waitingTime_quiet (linkage : Linkage s used l) (member : b ∈ l) (allowed : SchedulerAllowed (s, used) e)
    (noTick : ∀ stack, e ≠ .tick stack) (taken : SchedulerStep (s, used) e (t, used')) :
    ∃ new, Linkage t used' (new ++ l) ∧ t.waitingTime (new ++ l) b ≤ s.waitingTime l b + 10 * new.length := by
  obtain ⟨current, _, _, new, after, _⟩ := schedulerStep_quiet linkage allowed noTick taken
  have distinct := after.1.nodup.2
  have apart := (List.nodup_append.mp distinct).2.2
  refine ⟨new, after, ?_⟩
  have idle : s.current ∉ l → t.current ∉ new ++ l := by
    intro outside
    refine after.1.idle ?_
    rw [current]
    rcases linkage.2.1 with none | head | inside
    · exact Or.inl none
    · exact Or.inr head
    · exact absurd inside outside
  have slice : t.slice (new ++ l) ≤ s.slice l := by
    by_cases running : s.current ∈ l
    · obtain ⟨quanta, flag⟩ := schedulerStep_slices linkage running allowed noTick taken
      unfold Scheduler.slice
      rw [current, quanta]
      split
      · rename_i going
        rw [if_pos ⟨running, flag going.2⟩]
      · omega
    · rw [Scheduler.slice, if_neg fun both => idle running both.1]
      omega
  have order : (t.upcoming (new ++ l)).idxOf b ≤ (s.upcoming l).idxOf b + new.length := by
    by_cases running : s.current ∈ l
    · obtain ⟨pre, post, rfl⟩ := List.append_of_mem running
      rw [← List.append_assoc] at distinct ⊢
      rw [upcoming_split distinct current, upcoming_split linkage.1.nodup.2 rfl]
      by_cases behind : b ∈ post
      · rw [List.idxOf_append_of_mem behind, List.idxOf_append_of_mem behind]
        omega
      · rw [List.idxOf_append_of_notMem behind, List.idxOf_append_of_notMem behind]
        have outside : b ∉ new := fun present => apart b present b member rfl
        rw [List.idxOf_append_of_notMem outside]
        omega
    · have outside : b ∉ new := fun present => apart b present b member rfl
      rw [upcoming_idle (idle running), upcoming_idle running, List.idxOf_append_of_notMem outside]
      omega
  unfold Scheduler.waitingTime
  omega

theorem waitingTime_le (full : FullSlices s l) (distinct : l.Nodup) (member : b ∈ l) (other : b ≠ s.current) :
    s.waitingTime l b ≤ 10 * (l.length - 1) := by
  have before := List.idxOf_lt_length_of_mem (mem_upcoming distinct member other)
  unfold Scheduler.waitingTime
  by_cases running : s.current ∈ l
  · obtain ⟨pre, post, rfl⟩ := List.append_of_mem running
    have slice := slice_le full
    rw [upcoming_split distinct rfl] at before ⊢
    rw [List.length_append] at before
    rw [List.length_append, List.length_cons]
    omega
  · have slice : s.slice l = 0 := if_neg fun both => running both.1
    rw [upcoming_idle running] at before ⊢
    omega

/-! ### Runs -/

def SchedulerEvent.ticks : SchedulerEvent → Nat
  | .tick _ => 1
  | _ => 0

/-- `b` is on the list of a reachable state and has not run since, in `n` ticks. Every step has met `guard`. -/
inductive Waits (guard : Scheduler × List Nat → SchedulerEvent → Prop) (b : FramePtr) : Nat → Scheduler × List Nat → Prop where
  | start {state : Scheduler × List Nat} {l : List FramePtr} : SchedulerReach state → Listed state.1 l → b ∈ l →
    state.1.current ≠ b → Waits guard b 0 state
  | step {n : Nat} {state state' : Scheduler × List Nat} {e : SchedulerEvent} : Waits guard b n state →
    SchedulerAllowed state e → guard state e → SchedulerStep state e state' → state'.1.current ≠ b →
    Waits guard b (n + e.ticks) state'

/-- The tick does not find a task that has exited. -/
def FindsValid : Scheduler × List Nat → SchedulerEvent → Prop
  | (s, _), .tick _ => ∀ l, Listed s l → l ≠ [] → (s.frames (s.looksAt l)).invalid = false
  | _, _ => True

variable {guard : Scheduler × List Nat → SchedulerEvent → Prop} {n : Nat} {state : Scheduler × List Nat}

theorem Waits.mono {guard' : Scheduler × List Nat → SchedulerEvent → Prop} (waits : Waits guard b n state)
    (weaker : ∀ state e, guard state e → guard' state e) : Waits guard' b n state := by
  induction waits with
  | start reached listed member other => exact .start reached listed member other
  | step _ allowed meets taken other ih => exact ih.step allowed (weaker _ _ meets) taken other

theorem Waits.reached (waits : Waits guard b n state) : SchedulerReach state ∧ b ≠ state.1.current := by
  induction waits with
  | start reached _ _ other => exact ⟨reached, Ne.symm other⟩
  | step _ allowed _ taken other ih => exact ⟨ih.1.step allowed taken, Ne.symm other⟩

/-- The ticks that have passed and those that `b` still waits for are at most ten for each other task. -/
theorem Waits.bounded (waits : Waits FindsValid b n state) :
    ∃ l, Linkage state.1 state.2 l ∧ b ∈ l ∧ n + state.1.waitingTime l b ≤ 10 * (l.length - 1) := by
  induction waits with
  | @start state l reached listed member other =>
    obtain ⟨l', linkage, full⟩ := schedulerReach_fullSlices reached
    rw [← linkage.1.unique listed] at member
    refine ⟨l', linkage, member, ?_⟩
    rw [Nat.zero_add]
    exact waitingTime_le full linkage.1.nodup.2 member (Ne.symm other)
  | @step n state state' e before allowed valid taken other ih =>
    obtain ⟨l, linkage, member, passed⟩ := ih
    obtain ⟨reached, away⟩ := before.reached
    by_cases tick : ∃ stack, e = .tick stack
    · obtain ⟨stack, rfl⟩ := tick
      obtain ⟨l', linkage', full⟩ := schedulerReach_fullSlices reached
      rw [linkage'.1.unique linkage.1] at full
      obtain ⟨⟨r, returned⟩, used⟩ := taken
      obtain ⟨after, turn | nearer⟩ :=
        waitingTime_tick full linkage member away (valid l linkage.1 (List.ne_nil_of_mem member)) returned
      · exact absurd turn other
      · refine ⟨l, used ▸ after, member, ?_⟩
        show n + 1 + _ ≤ _
        omega
    · have noTick : ∀ stack, e ≠ .tick stack := fun stack same => tick ⟨stack, same⟩
      obtain ⟨new, after, further⟩ := waitingTime_quiet linkage member allowed noTick taken
      have none : e.ticks = 0 := by
        cases e with
        | tick stack => exact absurd rfl (noTick stack)
        | _ => rfl
      have more := List.length_pos_of_mem member
      refine ⟨_, after, List.mem_append_right _ member, ?_⟩
      rw [none, List.length_append]
      omega

/-- The task at `a` runs in front of `b` and has the last pid that was given. -/
structure Relay (b : FramePtr) (a : Nat) (s : Scheduler) (used : List Nat) : Prop where
  linkage : Linkage s used [.heap a, b]
  running : s.current = .heap a
  pid : (s.frames (.heap a)).pid + 1 = s.highestPid
  valid : (s.frames b).invalid = false

/-- The first two tasks of a run. -/
theorem two_tasks (old new : TaskMemory) (apart : new.frame ≠ old.frame) (clear : old.contents.invalid = false)
    (clear' : new.contents.invalid = false) : ∃ s, SchedulerReach (s, [new.frame, old.frame]) ∧
      Fresh s [.heap new.frame, .heap old.frame] ∧ (s.frames (.heap new.frame)).pid + 1 = s.highestPid := by
  have start : SchedulerReach ((⟨1, false, .null, fun _ => .zero⟩ : Scheduler), []) := .init ⟨⟨rfl, rfl, rfl, rfl⟩, rfl⟩
  have fresh : new.frame ∉ [old.frame] := fun member => apart (List.mem_singleton.mp member)
  have other : FramePtr.heap old.frame ≠ .heap new.frame := fun same => apart (FramePtr.heap.inj same).symm
  obtain ⟨s₁, add⟩ : ∃ s₁, addTask old [0x61] 0x400000 0x401000 ⟨1, false, .null, fun _ => .zero⟩ = .ok s₁ :=
    ⟨_, intAddTask_new _ _ _ _ _ _⟩
  obtain ⟨s₂, add'⟩ : ∃ s₂, addTask new [0x62] 0x400000 0x401000 s₁ = .ok s₂ := ⟨_, intAddTask_new _ _ _ _ _ _⟩
  have linkage : Linkage ⟨1, false, .null, fun _ => .zero⟩ [] [] := ⟨⟨rfl, nofun, rfl⟩, Or.inl rfl, nofun⟩
  have linkage₂ := (linkage.add List.not_mem_nil add).add fresh add'
  have one : SchedulerReach (s₁, [old.frame]) :=
    start.step (e := .addTask old [0x61] 0x400000 0x401000) (t := (s₁, [old.frame])) List.not_mem_nil ⟨add, rfl⟩
  have two : SchedulerReach (s₂, [new.frame, old.frame]) :=
    one.step (e := .addTask new [0x62] 0x400000 0x401000) (t := (s₂, [new.frame, old.frame])) fresh ⟨add', rfl⟩
  obtain ⟨idle₁, quanta₁, flag₁⟩ := intAddTask_slice add
  obtain ⟨idle₂, quanta₂, flag₂⟩ := intAddTask_slice add'
  obtain ⟨highest, newest, frames⟩ := intAddTask_frames add'
  refine ⟨s₂, two, ⟨linkage₂.1, idle₂.trans idle₁, fun p member => ?_, fun p member => ?_⟩, ?_⟩
  · rcases List.mem_pair.mp member with rfl | rfl
    · exact flag₂.trans clear'
    · rw [frames _ other]
      exact flag₁.trans clear
  · rcases List.mem_pair.mp member with rfl | rfl
    · exact quanta₂
    · rw [frames _ other]
      exact quanta₁
  · rw [newest, highest]

/-- The first tick has selected the newer one of two tasks. -/
theorem relay_starts (old new : TaskMemory) (apart : new.frame ≠ old.frame) (clear : old.contents.invalid = false)
    (clear' : new.contents.invalid = false) : ∃ s, Relay (.heap old.frame) new.frame s [new.frame, old.frame] ∧
      SchedulerReach (s, [new.frame, old.frame]) ∧ Waits FindsValid (.heap old.frame) 1 (s, [new.frame, old.frame]) := by
  obtain ⟨s, reached, begins, pid⟩ := two_tasks old new apart clear clear'
  have placed : Placed s [.heap new.frame, .heap old.frame] := Or.inl begins.idle
  obtain ⟨r, t, run, _⟩ := taskSwitch_turned .zero begins.listed placed
  have returned : Returns (taskSwitch · .zero s) (r, t) := ⟨_, run⟩
  obtain ⟨listed, valid, round⟩ := begins.first_tick (List.cons_ne_nil _ _) returned
  obtain ⟨_, highest, frames, _⟩ := tick_turned begins.listed placed returned
  have current : t.current = .heap new.frame := (Option.some.inj round.current).symm
  have other : FramePtr.heap new.frame ≠ .heap old.frame := fun same => apart (FramePtr.heap.inj same)
  have inside : .heap old.frame ∈ [FramePtr.heap new.frame, .heap old.frame] := List.mem_pair.mpr (Or.inr rfl)
  have waits : Waits FindsValid (.heap old.frame) 0 (s, [new.frame, old.frame]) :=
    .start reached begins.listed inside (by rw [begins.idle]; nofun)
  have valid' : FindsValid (s, [new.frame, old.frame]) (.tick .zero) := fun l listed' some => by
    rw [listed'.unique begins.listed] at some ⊢
    exact begins.valid _ (s.looksAt_mem some)
  have tick : SchedulerStep (s, [new.frame, old.frame]) (.tick .zero) (t, [new.frame, old.frame]) := ⟨⟨r, returned⟩, rfl⟩
  have ticked : SchedulerReach (t, [new.frame, old.frame]) := reached.step (e := .tick .zero) trivial tick
  obtain ⟨l, linkage⟩ := schedulerReach_linkage ticked
  rw [linkage.1.unique listed] at linkage
  refine ⟨t, ⟨linkage, current, ?_, valid _ inside⟩, ticked,
    waits.step (e := .tick .zero) trivial valid' tick (current ▸ other)⟩
  rw [frames, highest]
  exact pid

/-- In every run, as long as no tick finds a task that has exited, a task that
is on the list and does not run stays there, and the ticks it has waited for are
at most ten for each other task on the list, those added meanwhile included. -/
theorem no_starvation (waits : Waits FindsValid b n (s, used)) (listed : Listed s l) :
    b ∈ l ∧ n ≤ 10 * (l.length - 1) := by
  obtain ⟨l', linkage, member, passed⟩ := waits.bounded
  rw [linkage.1.unique listed] at member passed
  exact ⟨member, by omega⟩

theorem no_starvation_twoTasks : ∃ s used, Waits FindsValid (.heap 0x101010) 1 (s, used) ∧
    .heap 0x101010 ∈ [FramePtr.heap 0x201010, .heap 0x101010] ∧ 1 ≤ 10 * (2 - 1) := by
  obtain ⟨s, relay, _, waits⟩ := relay_starts (taskAt 0x101000) (taskAt 0x201000) (by decide) rfl rfl
  exact ⟨s, _, waits, no_starvation waits relay.linkage.1⟩

/-! ### Runs with exits -/

/-- After an exit the first task on the list goes on. -/
theorem exit_restarts {h : FramePtr} {rest : List FramePtr} (listed : Listed s (h :: rest)) (member : s.current ∈ rest)
    (invalid : (s.frames s.current).invalid = true) (first : FirstWithPid s (h :: rest) s.current)
    (more : (s.frames h).quanta ≠ 0) (returned : Returns (taskSwitch · stack s) (r, t)) :
    Listed t (h :: rest.erase s.current) ∧ t.current = h ∧ t.highestPid = s.highestPid ∧
      ∀ p, (t.frames p).pid = (s.frames p).pid ∧ (t.frames p).invalid = (s.frames p).invalid := by
  have inside : s.current ∈ h :: rest := List.mem_cons_of_mem _ member
  have distinct := listed.nodup.2
  have apart : h ≠ s.current := fun same => (List.nodup_cons.mp distinct).1 (same ▸ member)
  have left : s.survivors (h :: rest) = h :: rest.erase s.current := by
    rw [Scheduler.survivors, Scheduler.looksAt_current inside, if_pos invalid]
    rcases eraseP_pid distinct inside with ⟨_, same⟩ | ⟨later, _⟩
    · rw [same, List.erase_cons_tail (by simpa using apart)]
    · exact absurd first later
  have turn : s.turn (h :: rest) = h := by
    rw [Scheduler.turn, Scheduler.looksAt_current inside, if_pos invalid, left]
    rfl
  obtain ⟨after, pids, frames, resumed⟩ := tick_turned listed (Or.inr (Or.inr inside)) returned
  rw [Scheduler.selected, left, turn, (choice_running (s := s) _ more).1] at resumed
  rw [left] at after
  refine ⟨after, ?_, pids, fun p => ?_⟩
  · rcases resumed with ⟨_, current, _⟩ | ⟨none, _⟩
    · exact current
    · cases none
  · rw [frames p]
    exact ⟨rfl, rfl⟩

/-- The running task adds another one. -/
theorem Relay.add {a : Nat} {given : TaskMemory} (relay : Relay b a s used) (waits : Waits anyStep b n (s, used))
    (fresh : given.frame ∉ used) :
    ∃ t, Waits anyStep b n (t, given.frame :: used) ∧ Linkage t (given.frame :: used) [.heap given.frame, .heap a, b] ∧
      t.current = .heap a ∧ (t.frames (.heap given.frame)).quanta = 10 ∧
      (t.frames (.heap given.frame)).pid = (s.frames (.heap a)).pid + 1 ∧ t.highestPid = s.highestPid + 1 ∧
      ∀ p ≠ .heap given.frame, (t.frames p).pid = (s.frames p).pid ∧ (t.frames p).invalid = (s.frames p).invalid := by
  obtain ⟨t, add⟩ : ∃ t, addTask given [0x61] 0x400000 0x401000 s = .ok t := ⟨_, intAddTask_new _ _ _ _ _ _⟩
  obtain ⟨highest, newest, frames⟩ := intAddTask_frames add
  obtain ⟨current, quanta, _⟩ := intAddTask_slice add
  have running : t.current = .heap a := current.trans relay.running
  have other : FramePtr.heap a ≠ b := fun same => by simpa [same] using relay.linkage.1.nodup.2
  have taken : SchedulerStep (s, used) (.addTask given [0x61] 0x400000 0x401000) (t, given.frame :: used) := ⟨add, rfl⟩
  have allowed : SchedulerAllowed (s, used) (.addTask given [0x61] 0x400000 0x401000) := fresh
  refine ⟨t, waits.step allowed trivial taken (running ▸ other), relay.linkage.add fresh add, running, quanta,
    newest.trans relay.pid.symm, highest, fun p away => ?_⟩
  rw [frames p away]
  exact ⟨rfl, rfl⟩

/-- The running task adds another one and exits; the next tick goes on with the one it has added. -/
theorem Relay.round {a : Nat} {given : TaskMemory} (relay : Relay b a s used) (waits : Waits anyStep b n (s, used))
    (fresh : given.frame ∉ used) :
    ∃ s', Relay b given.frame s' (given.frame :: used) ∧ Waits anyStep b (n + 1) (s', given.frame :: used) := by
  obtain ⟨t, waits, linkage, running, quanta, pid, highest, frames⟩ := relay.add waits fresh
  have distinct := linkage.1.nodup.2
  have other : FramePtr.heap a ≠ b := fun same => by simp [same] at distinct
  have newest : FramePtr.heap given.frame ≠ .heap a := fun same => by simp [same] at distinct
  have behind : b ≠ .heap given.frame := fun same => by simp [same] at distinct
  have nonnull : t.current ≠ .null := by rw [running]; nofun
  obtain ⟨u, exit⟩ : ∃ u, processExit t = .ok u := ⟨_, modify_eq nonnull⟩
  have marked : u = { t with frames := Function.update t.frames (.heap a) { t.frames (.heap a) with invalid := true } } := by
    rw [processExit, modify_eq nonnull] at exit
    rw [← running]
    exact (Except.ok.inj exit).symm
  have running' : u.current = .heap a := by rw [marked]; exact running
  have taken : SchedulerStep (t, given.frame :: used) .processExit (u, given.frame :: used) := ⟨exit, rfl⟩
  have waits' : Waits anyStep b (n + 0) (u, given.frame :: used) :=
    waits.step (e := .processExit) nonnull trivial taken (running' ▸ other)
  have linkage' : Linkage u (given.frame :: used) [.heap given.frame, .heap a, b] := linkage.invalidate exit
  have kept : ∀ p ≠ .heap a, u.frames p = t.frames p := fun p away => by
    rw [marked]
    exact Function.update_of_ne away _ _
  have gone : (u.frames (.heap a)).invalid = true ∧ (u.frames (.heap a)).pid = (t.frames (.heap a)).pid := by
    rw [marked]
    simp only [Function.update_self]
    exact ⟨trivial, trivial⟩
  obtain ⟨r, v, run, _⟩ := taskSwitch_turned .zero linkage'.1 linkage'.2.1
  have returned : Returns (taskSwitch · .zero u) (r, v) := ⟨_, run⟩
  have first : FirstWithPid u [.heap given.frame, .heap a, b] u.current := by
    rw [running']
    intro p before
    have only : p = .heap given.frame := by simpa [List.takeWhile, newest] using before
    rw [only, gone.2, (frames _ newest.symm).1, kept _ newest, pid]
    simp
  obtain ⟨listed, current, highest', flags⟩ := exit_restarts linkage'.1 (by simp [running']) (running' ▸ gone.1) first
    (by rw [kept _ newest, quanta]; decide) returned
  have tick : SchedulerStep (u, given.frame :: used) (.tick .zero) (v, given.frame :: used) := ⟨⟨r, returned⟩, rfl⟩
  have after := linkage'.tick (tick_ticked linkage'.1 linkage'.2.1 returned)
  rw [after.1.unique listed, running', List.erase_cons_head] at after
  refine ⟨v, ⟨after, current, ?_, ?_⟩, waits'.step (e := .tick .zero) trivial trivial tick (current ▸ behind.symm)⟩
  · rw [(flags _).1, kept _ newest, pid, highest', marked, relay.pid]
    exact highest.symm
  · rw [(flags _).2, kept _ other.symm, (frames _ behind).2]
    exact relay.valid

/-- There is a round for each task that memory is given for. -/
theorem Relay.rounds {given : List TaskMemory} {a : Nat} (relay : Relay b a s used) (waits : Waits anyStep b n (s, used))
    (distinct : (given.map TaskMemory.frame).Nodup) (fresh : ∀ g ∈ given, g.frame ∉ used) :
    ∃ a' s', Relay b a' s' ((given.map TaskMemory.frame).reverse ++ used) ∧
      Waits anyStep b (n + given.length) (s', (given.map TaskMemory.frame).reverse ++ used) := by
  induction given generalizing a n s used with
  | nil => exact ⟨a, s, relay, waits⟩
  | cons g given ih =>
    rw [List.map_cons, List.nodup_cons] at distinct
    obtain ⟨s', relay', waits'⟩ := relay.round waits (fresh g List.mem_cons_self)
    have others : ∀ g' ∈ given, g'.frame ∉ g.frame :: used := fun g' member => by
      rw [List.mem_cons, not_or]
      exact ⟨fun same => distinct.1 (same ▸ List.mem_map_of_mem member), fresh g' (List.mem_cons_of_mem _ member)⟩
    obtain ⟨a', s'', relay'', waits''⟩ := ih relay' waits' distinct.2 others
    rw [List.map_cons, List.reverse_cons, List.append_assoc, List.singleton_append, List.length_cons,
      Nat.add_comm given.length 1, ← Nat.add_assoc]
    exact ⟨a', s'', relay'', waits''⟩

/-- The blocks of the frames do not overlap. -/
def BlocksApart (given : List TaskMemory) : Prop := Separate (given.map fun g => ⟨g.frame, 224⟩)

theorem BlocksApart.distinct {given : List TaskMemory} (apart : BlocksApart given) :
    (given.map TaskMemory.frame).Nodup := by
  unfold BlocksApart Separate at apart
  rw [List.pairwise_map] at apart
  refine List.pairwise_map.mpr (apart.imp fun {g h} far same => ?_)
  have far : g.frame + 224 ≤ h.frame ∨ h.frame + 224 ≤ g.frame := far
  omega

/-- Exits keep a valid task waiting as long as there is memory for further
tasks: for a tick for each of them, with only one other task on the list. -/
theorem exits_starve {first : TaskMemory} {given : List TaskMemory} (apart : BlocksApart (first :: given))
    (clear : ∀ g ∈ first :: given, g.contents.invalid = false) (some : given ≠ []) :
    ∃ s l, Waits anyStep (.heap first.frame) given.length (s, (given.map TaskMemory.frame).reverse ++ [first.frame]) ∧
      Listed s l ∧ .heap first.frame ∈ l ∧ l.length = 2 ∧ (s.frames (.heap first.frame)).invalid = false := by
  obtain ⟨g, rest, rfl⟩ := List.exists_cons_of_ne_nil some
  have distinct := apart.distinct
  rw [List.map_cons, List.map_cons, List.nodup_cons, List.nodup_cons] at distinct
  obtain ⟨outside, outside', distinct⟩ := distinct
  have other : g.frame ≠ first.frame := fun same => outside (same ▸ List.mem_cons_self)
  obtain ⟨s, relay, _, waits⟩ :=
    relay_starts first g other (clear first List.mem_cons_self) (clear g (List.mem_cons_of_mem _ List.mem_cons_self))
  have fresh : ∀ h ∈ rest, h.frame ∉ [g.frame, first.frame] := by
    intro h member
    have member := List.mem_map_of_mem (f := TaskMemory.frame) member
    rw [List.mem_pair, not_or]
    exact ⟨fun same => outside' (same ▸ member), fun same => outside (List.mem_cons_of_mem _ (same ▸ member))⟩
  obtain ⟨a, s', relay', waits'⟩ := relay.rounds (waits.mono fun _ _ _ => trivial) distinct fresh
  rw [Nat.add_comm 1] at waits'
  rw [List.map_cons, List.reverse_cons, List.append_assoc, List.singleton_append]
  exact ⟨s', _, waits', relay'.linkage.1, List.mem_pair.mpr (Or.inr rfl), rfl, relay'.valid⟩

/-- Seventeen frames, as many as the heap has room for in a page. -/
def pageOfFrames : List TaskMemory :=
  (List.range 16).map fun i => ⟨0x101100 + 240 * i, .zero, fun _ _ _ => 0x200000 + 0x2000 * i, 0x201000 + 0x2000 * i⟩

/-- More than the ten ticks that `no_starvation` gives a list of two tasks. -/
theorem exits_starve_pageOfFrames : ∃ s l, Listed s l ∧ l.length = 2 ∧
    Waits anyStep (.heap 0x101010) 16 (s, (pageOfFrames.map TaskMemory.frame).reverse ++ [0x101010]) ∧ 10 * (2 - 1) < 16 := by
  have apart : BlocksApart (⟨0x101010, .zero, fun _ _ _ => 0x102000, 0x103000⟩ :: pageOfFrames) := by
    unfold BlocksApart Separate Apart pageOfFrames
    decide
  obtain ⟨s, l, waits, listed, _, two, _⟩ := exits_starve apart (by
    intro g member
    rcases List.mem_cons.mp member with rfl | member
    · rfl
    · obtain ⟨i, _, rfl⟩ := List.mem_map.mp member
      rfl) (by decide)
  exact ⟨s, l, listed, two, waits, by decide⟩

end System14
