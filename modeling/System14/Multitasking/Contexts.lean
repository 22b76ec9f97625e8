import System14.Multitasking.SchedulerInvariant

/-!
# The contexts of tasks

A tick saves the registers that come in with it in the frame of the task that
ran, and goes on with those of the task it selects. The history of a run records
the ticks and the new tasks, the latest first; a task always resumes with the
registers that its latest tick brought in.
-/

namespace System14
open Run

variable {s t : Scheduler} {l : List FramePtr} {used : List Nat} {stack r : Registers}

/-! ### Histories -/

inductive Record where
  | tick (entry : FramePtr) (stack : Registers)
  | added (task : FramePtr) (initial : Registers)

def Record.cameIn (task : FramePtr) : Record → Option Registers
  | .tick entry stack => if entry = task then some stack else none
  | .added _ _ => none

def Record.stored (task : FramePtr) : Record → Option Registers
  | .tick _ _ => none
  | .added new initial => if new = task then some initial else none

/-- The registers that came in with the latest tick at whose entry `task` was
current, or those it was created with. -/
def latestImage (history : List Record) (task : FramePtr) : Option Registers :=
  history.findSome? (·.cameIn task) <|> history.findSome? (·.stored task)

def recordOf (s : Scheduler) : SchedulerEvent → List Record
  | .tick stack => [.tick s.current stack]
  | .addTask given taskName start _ => [.added (.heap given.frame) (given.initial taskName start)]
  | .keAddTask given taskName start _ => [.added (.heap given.frame) (given.initial taskName start)]
  | _ => []

def HistoryStep : (Scheduler × List Nat) × List Record → SchedulerEvent → (Scheduler × List Nat) × List Record → Prop
  | (state, history), e, (state', history') => SchedulerStep state e state' ∧ history' = recordOf state.1 e ++ history

def HistoryReach : (Scheduler × List Nat) × List Record → Prop :=
  Reach (fun state => (state.1.1.Initial ∧ state.1.2 = []) ∧ state.2 = []) HistoryStep
    fun state e => SchedulerAllowed state.1 e

/-! ### What a history says of the frames -/

/-- Every frame holds what the history says, and ticks only know tasks that were added. -/
structure Recorded (s : Scheduler) (used : List Nat) (history : List Record) : Prop where
  linkage : ∃ l, Linkage s used l
  image : ∀ a ∈ used, latestImage history (.heap a) = some (s.frames (.heap a)).registers
  known : ∀ a stack, Record.tick (.heap a) stack ∈ history → a ∈ used

theorem latestImage_tick_self (history : List Record) (task : FramePtr) (stack : Registers) :
    latestImage (.tick task stack :: history) task = some stack := by
  unfold latestImage
  rw [List.findSome?_cons, Record.cameIn, if_pos rfl]
  rfl

theorem latestImage_tick_other {history : List Record} {entry task : FramePtr} (stack : Registers)
    (other : entry ≠ task) : latestImage (.tick entry stack :: history) task = latestImage history task := by
  unfold latestImage
  rw [List.findSome?_cons, List.findSome?_cons, Record.cameIn, if_neg other]
  rfl

theorem latestImage_added_self {history : List Record} {task : FramePtr} (initial : Registers)
    (fresh : ∀ stack, Record.tick task stack ∉ history) :
    latestImage (.added task initial :: history) task = some initial := by
  have none : history.findSome? (·.cameIn task) = none := by
    rw [List.findSome?_eq_none_iff]
    intro entry member
    cases entry with
    | added => rfl
    | tick entry stack =>
      by_cases same : entry = task
      · subst same
        exact absurd member (fresh stack)
      · exact if_neg same
  unfold latestImage
  rw [List.findSome?_cons, List.findSome?_cons, Record.cameIn, Record.stored, if_pos rfl]
  simp only [none]
  rfl

theorem latestImage_added_other {history : List Record} {new task : FramePtr} (initial : Registers)
    (other : new ≠ task) : latestImage (.added new initial :: history) task = latestImage history task := by
  unfold latestImage
  rw [List.findSome?_cons, List.findSome?_cons, Record.cameIn, Record.stored, if_neg other]

/-! ### Steps -/

theorem Recorded.tick {history : List Record} (recorded : Recorded s used history)
    (returned : Returns (taskSwitch · stack s) (r, t)) :
    Recorded t used (.tick s.current stack :: history) ∧
      (∀ a, t.current = .heap a → latestImage (.tick s.current stack :: history) (.heap a) = some r) ∧
      ∀ p, p ≠ s.current → (t.frames p).registers = (s.frames p).registers := by
  obtain ⟨l, linkage⟩ := recorded.linkage
  have ticked := tick_ticked linkage.1 linkage.2.1 returned
  have after := linkage.tick ticked
  have image : ∀ a ∈ used, latestImage (.tick s.current stack :: history) (.heap a) =
      some (t.frames (.heap a)).registers := by
    intro a handed
    rw [ticked.saved]
    by_cases running : s.current = .heap a
    · rw [running, latestImage_tick_self, if_pos ⟨rfl, linkage.running running⟩]
    · rw [latestImage_tick_other _ running, recorded.image a handed, if_neg fun both => running both.1.symm]
  refine ⟨⟨⟨_, after⟩, image, ?_⟩, ?_, ?_⟩
  · intro a stack' member
    rcases List.mem_cons.mp member with new | old
    · obtain ⟨current, _⟩ := Record.tick.inj new
      exact linkage.handed current.symm
    · exact recorded.known a stack' old
  · intro a current
    rw [image a (after.handed current)]
    rcases ticked.resumed with ⟨_, next⟩ | ⟨none | head, _⟩
    · rw [next, current]
    · cases current.symm.trans none
    · cases current.symm.trans head
  · intro p other
    rw [ticked.saved, if_neg fun both => other both.1]

theorem Recorded.add {history : List Record} {given : TaskMemory} {taskName : List UInt8} {start stop : Nat}
    {kernel : Bool} (recorded : Recorded s used history) (fresh : given.frame ∉ used)
    (added : intAddTask given taskName start stop kernel s = .ok t) :
    Recorded t (given.frame :: used) (.added (.heap given.frame) (given.initial taskName start) :: history) := by
  obtain ⟨l, linkage⟩ := recorded.linkage
  obtain ⟨t', run, _, _, registers⟩ := intAddTask_spec _ _ _ _ _ linkage.1 (linkage.fresh fresh)
  cases run.symm.trans added
  refine ⟨⟨_, linkage.add fresh added⟩, ?_, ?_⟩
  · intro a handed
    by_cases new : a = given.frame
    · rw [new, latestImage_added_self _ fun stack member => fresh (recorded.known _ stack member),
        intAddTask_registers added]
    · have other : FramePtr.heap a ≠ .heap given.frame := fun same => new (FramePtr.heap.inj same)
      have old : a ∈ used := (List.mem_cons.mp handed).resolve_left new
      rw [latestImage_added_other _ other.symm, recorded.image a old, registers _ other]
  · intro a stack member
    have old : Record.tick (.heap a) stack ∈ history := (List.mem_cons.mp member).resolve_left nofun
    exact List.mem_cons_of_mem _ (recorded.known a stack old)

theorem Recorded.mark {history : List Record} (recorded : Recorded s used history)
    (marked : s.modify s.current ({ · with invalid := true }) = .ok t) : Recorded t used history := by
  obtain ⟨l, linkage⟩ := recorded.linkage
  obtain ⟨t', run, _, keeps⟩ := modify_keeps (s := s) (f := ({ · with invalid := true })) (modify_nonnull marked)
    (fun _ => rfl) fun _ => rfl
  cases run.symm.trans marked
  refine ⟨⟨l, linkage.invalidate marked⟩, ?_, recorded.known⟩
  intro a handed
  rw [keeps.registers]
  exact recorded.image a handed

theorem Recorded.step {used' : List Nat} {history history' : List Record} {e : SchedulerEvent}
    (recorded : Recorded s used history) (allowed : SchedulerAllowed (s, used) e)
    (taken : HistoryStep ((s, used), history) e ((t, used'), history')) : Recorded t used' history' := by
  obtain ⟨taken, rfl⟩ := taken
  cases e with
  | tick stack =>
    obtain ⟨⟨r, returned⟩, rfl⟩ := taken
    exact (recorded.tick returned).1
  | addTask given taskName start stop =>
    obtain ⟨added, rfl⟩ := taken
    exact recorded.add allowed added
  | keAddTask given taskName start stop =>
    obtain ⟨added, rfl⟩ := taken
    exact recorded.add allowed added
  | processExit =>
    obtain ⟨marked, rfl⟩ := taken
    exact recorded.mark marked
  | exception exceptionType =>
    obtain ⟨handled, rfl⟩ := taken
    exact recorded.mark (commonExceptionHandler_ok handled)
  | markSchedulingActive =>
    obtain ⟨rfl, rfl⟩ := taken
    obtain ⟨l, linkage⟩ := recorded.linkage
    exact ⟨⟨l, linkage⟩, recorded.image, recorded.known⟩

theorem historyReach_recorded {history : List Record} (reached : HistoryReach ((s, used), history)) :
    Recorded s used history := by
  refine Reach.invariant (I := fun state => Recorded state.1.1 state.1.2 state.2) reached ?_ ?_
  · rintro ⟨⟨s, used⟩, history⟩ ⟨⟨initial, none⟩, empty⟩
    change used = [] at none
    change history = [] at empty
    subst none empty
    exact ⟨⟨[], initial.listed, Or.inl initial.current, nofun⟩, nofun, nofun⟩
  · rintro ⟨⟨s, used⟩, history⟩ e ⟨⟨t, used'⟩, history'⟩ recorded allowed taken
    exact recorded.step allowed taken

/-- In every run a tick goes on with the registers of the latest tick that
interrupted the task it selects, or with those the task was created with, and
saves registers in no frame but that of the task that ran. -/
theorem task_contexts_kept {history : List Record} (reached : HistoryReach ((s, used), history))
    (returned : Returns (taskSwitch · stack s) (r, t)) :
    (∀ a, t.current = .heap a → latestImage (.tick s.current stack :: history) (.heap a) = some r) ∧
      ∀ p, p ≠ s.current → (t.frames p).registers = (s.frames p).registers :=
  ((historyReach_recorded reached).tick returned).2

/-- The first task is interrupted twice, the second time with 5 in `rax`. -/
theorem task_contexts_kept_first_task : ∃ s history r t, HistoryReach ((s, [0x101010]), history) ∧
    Returns (taskSwitch · { Registers.zero with rax := 5 } s) (r, t) ∧ t.current = .heap 0x101010 ∧
    some r = some { Registers.zero with rax := 5 } := by
  obtain ⟨s₀, here⟩ : ∃ s₀ : Scheduler, s₀ = ⟨1, false, .null, fun _ => .zero⟩ := ⟨_, rfl⟩
  have start : HistoryReach ((s₀, []), []) := by
    rw [here]
    exact .init ⟨⟨⟨rfl, rfl, rfl, rfl⟩, rfl⟩, rfl⟩
  have added : ∃ s₁, addTask ⟨0x101010, .zero, fun _ _ _ => 0x102000, 0x103000⟩ [0x61] 0x400000 0x401000 s₀ = .ok s₁ ∧
      ∃ r s₂, (∀ fuel, taskSwitch fuel .zero s₁ = .ok (r, s₂)) ∧ s₂.current = .heap 0x101010 ∧
      ∃ r t, (∀ fuel, taskSwitch fuel { Registers.zero with rax := 5 } s₂ = .ok (r, t)) ∧ t.current = .heap 0x101010 := by
    rw [here]
    exact ⟨_, rfl, _, _, fun _ => rfl, rfl, _, _, fun _ => rfl, rfl⟩
  obtain ⟨s₁, call, r₁, s₂, first, running, r, t, second, current⟩ := added
  have one : HistoryReach ((s₁, [0x101010]), [_]) :=
    start.step (e := .addTask _ _ _ _) List.not_mem_nil ⟨⟨call, rfl⟩, rfl⟩
  have two : HistoryReach ((s₂, [0x101010]), [_, _]) :=
    one.step (e := .tick .zero) trivial ⟨⟨⟨r₁, 0, fun fuel _ => first fuel⟩, rfl⟩, rfl⟩
  have returned : Returns (taskSwitch · { Registers.zero with rax := 5 } s₂) (r, t) := ⟨0, fun fuel _ => second fuel⟩
  have kept := (task_contexts_kept two returned).1 _ current
  rw [running, latestImage_tick_self] at kept
  exact ⟨s₂, _, r, t, two, returned, current, kept.symm⟩

end System14
