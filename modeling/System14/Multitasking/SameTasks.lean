import System14.Lib.TwoRuns
import System14.Multitasking.SchedulerInvariant

/-!
# What the scheduler does not read

The scheduler looks at everything in a frame but the name. Two schedulers whose
frames differ in the names alone go through the same run: they select the same
tasks and load the same registers at every tick.
-/

namespace System14
open Run

variable {names : FramePtr → Vector UInt8 32} {s t u : Scheduler} {fuel : Nat} {p : FramePtr} {stack r : Registers}

/-- The same tasks under other names. -/
def Scheduler.rename (names : FramePtr → Vector UInt8 32) (s : Scheduler) : Scheduler :=
  { s with frames := fun p => { s.frames p with processName := names p } }

@[simp] theorem rename_next (names : FramePtr → Vector UInt8 32) (s : Scheduler) (p : FramePtr) :
    (s.rename names).next p = s.next p := rfl

@[simp] theorem rename_current (names : FramePtr → Vector UInt8 32) (s : Scheduler) :
    (s.rename names).current = s.current := rfl

/-! ### One tick -/

def Renamed (names : FramePtr → Vector UInt8 32) (s s' : Scheduler) : Prop := s' = s.rename names

/-- The same registers are loaded. -/
def RenamedSwitch (names : FramePtr → Vector UInt8 32) (x x' : Registers × Scheduler) : Prop :=
  x' = (x.1, x.2.rename names)

theorem deref_both (names : FramePtr → Vector UInt8 32) (s : Scheduler) (p : FramePtr) :
    Both (fun f f' => f' = { f with processName := names p }) (s.deref p) ((s.rename names).deref p) := by
  unfold Scheduler.deref
  split
  · exact rfl
  · exact rfl

theorem modify_both {f : ProcessFrame → ProcessFrame} (names : FramePtr → Vector UInt8 32) (s : Scheduler) (p : FramePtr)
    (blind : ∀ x name, f { x with processName := name } = { f x with processName := name }) :
    Both (Renamed names) (s.modify p f) ((s.rename names).modify p f) := by
  unfold Scheduler.modify
  split
  · exact rfl
  · unfold Both Renamed Scheduler.rename
    congr 1
    funext q
    by_cases here : q = p
    · subst here
      simp only [Function.update_self]
      exact blind _ _
    · simp only [Function.update_of_ne here]

theorem terminateLoop_both {pid : UInt8} (names : FramePtr → Vector UInt8 32) (s : Scheduler) :
    Both (Renamed names) (terminateLoop pid fuel p s) (terminateLoop pid fuel p (s.rename names)) := by
  induction fuel generalizing p with
  | zero => exact rfl
  | succ fuel ih =>
    unfold terminateLoop
    apply (deref_both names s p).bind
    intro prev _ _ other
    subst other
    apply (deref_both names s prev.next).bind
    intro frame _ _ other
    subst other
    dsimp only
    split
    · exact modify_both names s p fun _ _ => rfl
    · split
      · exact rfl
      · exact ih

theorem expire_both (names : FramePtr → Vector UInt8 32) (s : Scheduler) :
    Both (Renamed names) (expire s) (expire (s.rename names)) := by
  unfold expire
  apply (modify_both names s s.current fun _ _ => rfl).bind
  intro u _ _ other
  subst other
  apply (deref_both names u u.current).bind
  intro frame _ _ other
  subst other
  exact rfl

theorem rotate_both (names : FramePtr → Vector UInt8 32) (s : Scheduler) :
    Both (RenamedSwitch names) (rotate s) (rotate (s.rename names)) := by
  unfold rotate
  apply (deref_both names s s.current).bind
  intro frame _ _ other
  subst other
  dsimp only
  have expired : Both (Renamed names) (if frame.quanta = 0 then expire s else .ok s)
      (if frame.quanta = 0 then expire (s.rename names) else .ok (s.rename names)) := by
    split
    · exact expire_both names s
    · exact rfl
  apply expired.bind
  intro u _ _ other
  subst other
  apply (modify_both names u u.current fun _ _ => rfl).bind
  intro v _ _ other
  subst other
  apply (deref_both names v v.current).bind
  intro frame _ _ other
  subst other
  exact rfl

theorem switchFrom_both (names : FramePtr → Vector UInt8 32) (s : Scheduler) :
    Both (RenamedSwitch names) (switchFrom fuel stack s) (switchFrom fuel stack (s.rename names)) := by
  unfold switchFrom
  apply (deref_both names s s.current).bind
  intro frame _ _ other
  subst other
  dsimp only
  split
  · apply (terminateLoop_both names s).bind
    intro u _ _ other
    subst other
    apply (deref_both names u u.current).bind
    intro next _ _ other
    subst other
    dsimp only
    obtain ⟨v, here⟩ : ∃ v, v = if next.next ≠ .null then { u with current := next.next } else u := ⟨_, rfl⟩
    have moved : (if next.next ≠ .null then { u.rename names with current := next.next } else u.rename names) =
        v.rename names := by
      rw [here]
      split <;> rfl
    rw [moved, ← here, rename_next]
    split
    · exact rotate_both names { v with current := v.next .prochead }
    · exact rfl
  · exact rotate_both names s

theorem taskSwitch_both (names : FramePtr → Vector UInt8 32) (s : Scheduler) :
    Both (RenamedSwitch names) (taskSwitch fuel stack s) (taskSwitch fuel stack (s.rename names)) := by
  unfold taskSwitch
  rw [rename_current, rename_next]
  split
  · split
    · exact switchFrom_both names { s with current := s.next .prochead }
    · exact rfl
  · apply (modify_both names s s.current fun _ _ => rfl).bind
    intro u _ _ other
    subst other
    exact switchFrom_both names u

theorem commonExceptionHandler_both {exceptionType : String} (names : FramePtr → Vector UInt8 32) (s : Scheduler) :
    Both (Renamed names) (commonExceptionHandler exceptionType s)
      (commonExceptionHandler exceptionType (s.rename names)) := by
  by_cases panics : s.schedulingStarted = false ∨ s.current = .null
  · rw [commonExceptionHandler_panics panics, commonExceptionHandler_panics (s := s.rename names) panics]
    exact rfl
  · rw [not_or, Bool.not_eq_false] at panics
    rw [commonExceptionHandler_started panics.1 panics.2,
      commonExceptionHandler_started (s := s.rename names) panics.1 panics.2]
    exact modify_both names s s.current fun _ _ => rfl

/-! ### Flags -/

def KeepsFlags (s t : Scheduler) : Prop := ∀ p, (t.frames p).invalid = (s.frames p).invalid

theorem KeepsFlags.trans (one : KeepsFlags s t) (two : KeepsFlags t u) : KeepsFlags s u :=
  fun p => (two p).trans (one p)

theorem modify_flags {f : ProcessFrame → ProcessFrame} (done : s.modify p f = .ok t)
    (keeps : ∀ x, (f x).invalid = x.invalid) : KeepsFlags s t := by
  rw [modify_eq (modify_nonnull done)] at done
  cases done
  exact update_keeps ProcessFrame.invalid (keeps _)

theorem terminateLoop_flags {pid : UInt8} (done : terminateLoop pid fuel p s = .ok t) : KeepsFlags s t := by
  induction fuel generalizing p with
  | zero => cases done
  | succ fuel ih =>
    obtain ⟨prev, _, rest⟩ := bind_ok.mp done
    obtain ⟨frame, _, rest⟩ := bind_ok.mp rest
    split at rest
    · exact modify_flags rest fun _ => rfl
    · split at rest
      · cases rest
        exact fun _ => rfl
      · exact ih rest

theorem rotate_flags (done : rotate s = .ok (r, t)) : KeepsFlags s t := by
  obtain ⟨frame, _, rest⟩ := bind_ok.mp done
  obtain ⟨u, expired, rest⟩ := bind_ok.mp rest
  obtain ⟨v, counted, rest⟩ := bind_ok.mp rest
  obtain ⟨last, _, same⟩ := bind_ok.mp rest
  cases same
  have start : KeepsFlags s u := by
    split at expired
    · obtain ⟨w, refilled, rest⟩ := bind_ok.mp expired
      obtain ⟨next, _, same⟩ := bind_ok.mp rest
      cases same
      exact modify_flags (t := w) refilled fun _ => rfl
    · cases expired
      exact fun _ => rfl
  exact start.trans (modify_flags counted fun _ => rfl)

theorem switchFrom_flags (done : switchFrom fuel stack s = .ok (r, t)) : KeepsFlags s t := by
  obtain ⟨frame, _, rest⟩ := bind_ok.mp done
  split at rest
  · obtain ⟨u, left, rest⟩ := bind_ok.mp rest
    obtain ⟨next, _, rest⟩ := bind_ok.mp rest
    have left : KeepsFlags s u := terminateLoop_flags left
    have moved : KeepsFlags s (if next.next ≠ .null then { u with current := next.next } else u) := by
      split <;> exact left
    dsimp only at rest
    generalize (if next.next ≠ .null then { u with current := next.next } else u) = v at rest moved
    split at rest
    · have turned := rotate_flags rest
      exact fun p => (turned p).trans (moved p)
    · cases rest
      exact moved
  · exact rotate_flags rest

/-- Only a task that exits is marked invalid: a tick changes no flag. -/
theorem taskSwitch_flags (done : taskSwitch fuel stack s = .ok (r, t)) : KeepsFlags s t := by
  unfold taskSwitch at done
  split at done
  · split at done
    · have switched := switchFrom_flags done
      exact fun p => switched p
    · cases done
      exact fun _ => rfl
  · obtain ⟨u, saved, rest⟩ := bind_ok.mp done
    exact (modify_flags saved fun _ => rfl).trans (switchFrom_flags rest)

theorem mark_flag (marked : s.modify s.current ({ · with invalid := true }) = .ok t) (other : s.current ≠ p) :
    (t.frames p).invalid = (s.frames p).invalid := by
  rw [modify_eq (modify_nonnull marked)] at marked
  cases marked
  exact congrArg ProcessFrame.invalid (Function.update_of_ne (Ne.symm other) _ _)

/-! ### Runs -/

inductive RunEvent where
  | tick (stack : Registers)
  | processExit
  | exception (exceptionType : String)

/-- What a tick selects and loads, the page tables included, or the task that exits. -/
inductive RunRecord where
  | loaded (task : FramePtr) (registers : Registers) (cr3 : Option Nat)
  | exited (task : FramePtr)

/-- The events lead from `s` to the state, and leave the records. Both lists have the latest first. -/
inductive RunOf (s : Scheduler) : List RunEvent → List RunRecord → Scheduler → Prop where
  | start : RunOf s [] [] s
  | tick {events : List RunEvent} {records : List RunRecord} {t u : Scheduler} {stack r : Registers} :
    RunOf s events records t → Returns (taskSwitch · stack t) (r, u) →
      RunOf s (.tick stack :: events) (.loaded u.current r (taskSwitchStage2 u) :: records) u
  | processExit {events : List RunEvent} {records : List RunRecord} {t u : Scheduler} :
    RunOf s events records t → processExit t = .ok u → RunOf s (.processExit :: events) (.exited t.current :: records) u
  | exception {events : List RunEvent} {records : List RunRecord} {t u : Scheduler} {exceptionType : String} :
    RunOf s events records t → commonExceptionHandler exceptionType t = .ok u →
      RunOf s (.exception exceptionType :: events) (.exited t.current :: records) u

/-- The tick that comes next finds the task at `p` invalid, and removes it. -/
def Scheduler.Expels (s : Scheduler) (p : FramePtr) : Prop :=
  (if s.current = .null ∨ s.current = .prochead then s.next .prochead else s.current) = p ∧ (s.frames p).invalid = true

/-- In no run from `s` is the task removed as invalid unless it has exited. -/
def StaysValid (s : Scheduler) (p : FramePtr) : Prop :=
  ∀ events records t, RunOf s events records t → .exited p ∉ records → ¬ t.Expels p

/-- The same events leave the same records. -/
def SameRuns (s t : Scheduler) : Prop :=
  ∀ events records, (∃ u, RunOf s events records u) ↔ ∃ u, RunOf t events records u

theorem RunOf.rename {events : List RunEvent} {records : List RunRecord} (names : FramePtr → Vector UInt8 32)
    (run : RunOf s events records t) : RunOf (s.rename names) events records (t.rename names) := by
  induction run with
  | start => exact .start
  | @tick events records t u stack r _ returned ih =>
    obtain ⟨bound, call⟩ := returned
    refine ih.tick (u := u.rename names) ⟨bound, fun fuel enough => ?_⟩
    obtain ⟨_, call', other⟩ := (taskSwitch_both names t).returned (call fuel enough)
    rw [← show _ = (r, u.rename names) from other]
    exact call'
  | processExit _ exited ih =>
    obtain ⟨_, call, rfl⟩ := (modify_both names _ _ fun _ _ => rfl).returned exited
    exact ih.processExit call
  | @exception events records t u exceptionType _ handled ih =>
    obtain ⟨_, call, rfl⟩ := (commonExceptionHandler_both names t).returned handled
    exact ih.exception call

theorem sameRuns_rename (names : FramePtr → Vector UInt8 32) (s : Scheduler) : SameRuns s (s.rename names) := by
  intro events records
  constructor
  · intro run
    obtain ⟨u, run⟩ := run
    exact ⟨_, run.rename names⟩
  · intro run
    obtain ⟨u, run⟩ := run
    exact ⟨_, run.rename fun p => (s.frames p).processName⟩

theorem RunOf.flag {events : List RunEvent} {records : List RunRecord} (valid : (s.frames p).invalid = false)
    (run : RunOf s events records t) (runs : .exited p ∉ records) : (t.frames p).invalid = false := by
  induction run with
  | start => exact valid
  | tick _ returned ih =>
    obtain ⟨bound, call⟩ := returned
    rw [taskSwitch_flags (call bound (Nat.le_refl _)) p]
    exact ih fun member => runs (List.mem_cons_of_mem _ member)
  | processExit _ exited ih =>
    rw [List.mem_cons, not_or] at runs
    rw [← ih runs.2]
    exact mark_flag exited fun here => runs.1 (by rw [here])
  | exception _ handled ih =>
    rw [List.mem_cons, not_or] at runs
    rw [← ih runs.2]
    exact mark_flag (commonExceptionHandler_ok handled) fun here => runs.1 (by rw [here])

/-- A task that starts with a clear flag is never removed before it exits. -/
theorem staysValid_of_valid (valid : (s.frames p).invalid = false) : StaysValid s p := by
  intro events records t run runs expels
  have clear := run.flag valid runs
  rw [expels.2] at clear
  exact nomatch clear

/-! ### A new task -/

section NewTask

variable {given given' : TaskMemory} {taskName : List UInt8} {start stop : Nat} {kernel : Bool}

theorem newTask_frames (added : intAddTask given taskName start stop kernel s = .ok t) :
    t.current = s.current ∧ t.next .prochead = .heap given.frame ∧
      t.frames (.heap given.frame) = given.newFrame taskName start stop kernel s := by
  have other : FramePtr.heap given.frame ≠ .prochead := nofun
  cases (intAddTask_new given taskName start stop kernel s).symm.trans added
  refine ⟨rfl, ?_, ?_⟩
  · simp only [Scheduler.next, Function.update_self]
  · simp only [Function.update_of_ne other, Function.update_self]

/-- What `malloc` left in the frame shows in the registers and in the flag alone. -/
theorem intAddTask_renamed (frame : given'.frame = given.frame)
    (tables : given'.createProcessPML4 = given.createProcessPML4)
    (initial : given'.initial taskName start = given.initial taskName start)
    (flag : given'.contents.invalid = given.contents.invalid)
    (added : intAddTask given taskName start stop kernel s = .ok t) :
    ∃ names, intAddTask given' taskName start stop kernel s = .ok (t.rename names) := by
  have new : given'.newFrame taskName start stop kernel s =
      { given.newFrame taskName start stop kernel s with
        processName := (given'.newFrame taskName start stop kernel s).processName } := by
    unfold TaskMemory.newFrame
    rw [tables, initial, flag]
  have other : FramePtr.heap given.frame ≠ .prochead := nofun
  obtain ⟨frames, old⟩ : ∃ frames, frames = Function.update (Function.update s.frames (.heap given.frame)
      (given.newFrame taskName start stop kernel s)) .prochead { s.frames .prochead with next := .heap given.frame } :=
    ⟨_, rfl⟩
  have run := intAddTask_new given taskName start stop kernel s
  rw [← old] at run
  cases run.symm.trans added
  refine ⟨Function.update (fun q => (frames q).processName) (.heap given.frame)
    (given'.newFrame taskName start stop kernel s).processName, ?_⟩
  rw [intAddTask_new, frame]
  refine congrArg (fun frames => Except.ok (⟨s.highestPid + 1, s.schedulingStarted, s.current, frames⟩ : Scheduler)) ?_
  funext q
  dsimp only
  by_cases here : q = .heap given.frame
  · subst here
    rw [Function.update_of_ne other, Function.update_self, Function.update_self, old, Function.update_of_ne other,
      Function.update_self]
    exact new
  · rw [Function.update_of_ne here, old]
    by_cases atHead : q = .prochead
    · rw [atHead, Function.update_self, Function.update_self]
    · rw [Function.update_of_ne atHead, Function.update_of_ne atHead, Function.update_of_ne here,
        Function.update_of_ne here]

/-- An idle scheduler goes on to the task that was just added. -/
theorem newTask_expelled (idle : s.current = .null) (added : intAddTask given taskName start stop kernel s = .ok t) :
    t.Expels (.heap given.frame) ↔ given.contents.invalid = true := by
  obtain ⟨current, first, frame⟩ := newTask_frames added
  unfold Scheduler.Expels
  rw [current, idle, if_pos (Or.inl rfl), first, frame]
  exact and_iff_right rfl

theorem newTask_loaded (stack : Registers) (idle : s.current = .null)
    (added : intAddTask given taskName start stop kernel s = .ok t) (valid : given.contents.invalid = false) :
    ∃ u, Returns (taskSwitch · stack t) (given.initial taskName start, u) := by
  obtain ⟨current, first, frame⟩ := newTask_frames added
  have heap : FramePtr.heap given.frame ≠ .null := nofun
  obtain ⟨v, here⟩ : ∃ v : Scheduler, v = { t with current := .heap given.frame } := ⟨_, rfl⟩
  have frames : v.frames (.heap given.frame) = given.newFrame taskName start stop kernel s := by
    rw [here]
    exact frame
  have at_ : v.current = .heap given.frame := by rw [here]
  have invalid : (given.newFrame taskName start stop kernel s).invalid = false := valid
  have quanta : (given.newFrame taskName start stop kernel s).quanta ≠ 0 := by
    show (10 : UInt8) ≠ 0
    decide
  have switched : ∀ fuel, taskSwitch fuel stack t = rotate v := by
    intro fuel
    unfold taskSwitch
    rw [current, idle, if_pos (Or.inl rfl), first, if_pos heap, ← here]
    unfold switchFrom
    rw [at_, deref_eq heap, frames, ok_bind, if_neg (by rw [invalid]; decide)]
  have turned : ∃ u, rotate v = .ok (given.initial taskName start, u) := by
    unfold rotate
    rw [at_, deref_eq heap, frames]
    simp only [ok_bind, if_neg quanta, at_, modify_eq heap, deref_eq heap, frames, Function.update_self, pure_eq_ok]
    exact ⟨_, rfl⟩
  obtain ⟨u, turned⟩ := turned
  exact ⟨u, 0, fun fuel _ => (switched fuel).trans turned⟩

end NewTask

end System14
