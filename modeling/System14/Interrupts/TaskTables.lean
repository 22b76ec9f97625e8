import System14.Interrupts.Transparency

/-!
# The tables a task runs under

Every entry into the kernel loads the kernel's tables. Only `TimerStub` calls
`_TaskSwitch_Stage2` on the way out, and that loads the tables of the task only
if its time slice is not used up. So a task runs under the kernel's tables after
the last tick of its slice and after every other interrupt.
-/

namespace System14
open Run Chain

variable {fuel : Nat} {clobbers : Clobbers} {m m' : Machine} {i : Instr} {is js : List Instr} {l : List FramePtr}
  {used : List Nat}

/-! ### Instructions and `cr3` -/

/-- Instructions that touch neither `cr3` nor the scheduler. -/
def Instr.quiet : Instr → Bool
  | .call .loadKernelPML4 | .call .taskSwitch | .call .taskSwitchStage2 => false
  | _ => true

structure SameTables (m m' : Machine) : Prop where
  cr3 : m'.cpu.cr3 = m.cpu.cr3
  scheduler : m'.scheduler = m.scheduler
  pml4 : m'.pml4 = m.pml4

theorem SameTables.trans {m'' : Machine} (one : SameTables m m') (two : SameTables m' m'') : SameTables m m'' :=
  ⟨two.cr3.trans one.cr3, two.scheduler.trans one.scheduler, two.pml4.trans one.pml4⟩

theorem exec_quiet (quiet : i.quiet = true) (run : exec fuel clobbers m i = .ok m') : SameTables m m' := by
  cases i with
  | push r | pop r | mov dst src | iretq =>
    cases run
    exact ⟨rfl, rfl, rfl⟩
  | call f =>
    cases f with
    | loadKernelPML4 | taskSwitch | taskSwitchStage2 => cases quiet
    | lapicEOI | syscallHandler | keyboardDriver =>
      cases run
      exact ⟨rfl, rfl, rfl⟩

theorem runStub_cons (run : runStub fuel clobbers (i :: is) m = .ok m') :
    ∃ m₁, exec fuel clobbers m i = .ok m₁ ∧ runStub fuel clobbers is m₁ = .ok m' := bind_ok.mp run

theorem runStub_split (is : List Instr) (run : runStub fuel clobbers (is ++ js) m = .ok m') :
    ∃ m₁, runStub fuel clobbers is m = .ok m₁ ∧ runStub fuel clobbers js m₁ = .ok m' := by
  rw [runStub_append] at run
  exact bind_ok.mp run

theorem runStub_quiet (quiet : ∀ i ∈ is, i.quiet = true) (run : runStub fuel clobbers is m = .ok m') :
    SameTables m m' := by
  induction is generalizing m with
  | nil =>
    cases run
    exact ⟨rfl, rfl, rfl⟩
  | cons i is ih =>
    obtain ⟨m₁, first, rest⟩ := runStub_cons run
    exact (exec_quiet (quiet i List.mem_cons_self) first).trans
      (ih (fun j member => quiet j (List.mem_cons_of_mem _ member)) rest)

theorem load_tables (run : exec fuel clobbers m (.call .loadKernelPML4) = .ok m') :
    m'.cpu.cr3 = m.pml4 ∧ m'.scheduler = m.scheduler ∧ m'.pml4 = m.pml4 := by
  cases run
  exact ⟨rfl, rfl, rfl⟩

theorem switch_tables (run : exec fuel clobbers m (.call .taskSwitch) = .ok m') :
    m'.cpu.cr3 = m.cpu.cr3 ∧ m'.pml4 = m.pml4 ∧ ∃ stack r, taskSwitch fuel stack m.scheduler = .ok (r, m'.scheduler) := by
  obtain ⟨⟨r, s⟩, tick, rest⟩ := bind_ok.mp run
  cases rest
  exact ⟨rfl, rfl, _, r, tick⟩

theorem stage2_tables (run : exec fuel clobbers m (.call .taskSwitchStage2) = .ok m') :
    m'.cpu.cr3 = ((taskSwitchStage2 m.scheduler).map (.ofNat 64)).getD m.cpu.cr3 ∧ m'.scheduler = m.scheduler ∧
      m'.pml4 = m.pml4 := by
  cases run
  exact ⟨rfl, rfl, rfl⟩

/-! ### Interrupts -/

inductive Interrupt where
  | timer | keyboard | syscall
  deriving DecidableEq, Repr

def interrupt (kind : Interrupt) (fuel : Nat) (clobbers : Clobbers) (m : Machine) : Except Stop Machine :=
  match kind with
  | .timer => timerInterrupt fuel clobbers m
  | .keyboard => keyboardInterrupt fuel clobbers m
  | .syscall => syscallInterrupt fuel clobbers m

theorem timerInterrupt_tables (run : timerInterrupt fuel clobbers m = .ok m') :
    m'.cpu.cr3 = ((taskSwitchStage2 m'.scheduler).map (.ofNat 64)).getD m.pml4 ∧ m'.pml4 = m.pml4 ∧
      ∃ stack r, taskSwitch fuel stack m.scheduler = .ok (r, m'.scheduler) := by
  obtain ⟨m₁, load, run⟩ := runStub_cons run
  obtain ⟨m₂, save, run⟩ := runStub_split (timerPushes.map .push ++ [.mov .rdi .rsp]) run
  obtain ⟨m₃, switch, run⟩ := runStub_cons run
  obtain ⟨m₄, eoi, run⟩ := runStub_cons run
  obtain ⟨m₅, stage2, run⟩ := runStub_cons run
  obtain ⟨cr3, scheduler, pml4⟩ := load_tables load
  have saved := runStub_quiet (by decide) save
  obtain ⟨cr3', pml4', stack, r, tick⟩ := switch_tables switch
  have acknowledged := exec_quiet rfl eoi
  obtain ⟨cr3'', scheduler'', pml4''⟩ := stage2_tables stage2
  have restored := runStub_quiet (by decide) run
  have last : m'.scheduler = m₃.scheduler := by rw [restored.scheduler, scheduler'', acknowledged.scheduler]
  refine ⟨?_, ?_, stack, r, ?_⟩
  · rw [last, restored.cr3, cr3'', acknowledged.scheduler, acknowledged.cr3, cr3', saved.cr3, cr3]
  · rw [restored.pml4, pml4'', acknowledged.pml4, pml4', saved.pml4, pml4]
  · rw [last, ← tick, saved.scheduler, scheduler]

theorem syscallInterrupt_tables (run : syscallInterrupt fuel clobbers m = .ok m') :
    m'.cpu.cr3 = m.pml4 ∧ m'.scheduler = m.scheduler := by
  obtain ⟨m₁, load, run⟩ := runStub_cons run
  obtain ⟨cr3, scheduler, _⟩ := load_tables load
  have rest := runStub_quiet (by decide) run
  exact ⟨rest.cr3.trans cr3, rest.scheduler.trans scheduler⟩

theorem keyboardInterrupt_tables (run : keyboardInterrupt fuel clobbers m = .ok m') :
    m'.cpu.cr3 = m.pml4 ∧ m'.scheduler = m.scheduler := by
  obtain ⟨m₁, save, run⟩ := runStub_split (keyboardPushes.map .push) run
  obtain ⟨m₂, load, run⟩ := runStub_cons run
  have saved := runStub_quiet (by decide) save
  obtain ⟨cr3, scheduler, _⟩ := load_tables load
  have rest := runStub_quiet (by decide) run
  exact ⟨by rw [rest.cr3, cr3, saved.pml4], by rw [rest.scheduler, scheduler, saved.scheduler]⟩

theorem timer_turned (linkage : Linkage m.scheduler used l) (returned : Returns (timerInterrupt · clobbers m) m') :
    m'.cpu.cr3 = ((taskSwitchStage2 m'.scheduler).map (.ofNat 64)).getD m.pml4 ∧ m'.pml4 = m.pml4 ∧
      Linkage m'.scheduler used (m.scheduler.survivors l) ∧ ∃ registers r stack, Turned registers m.scheduler l r stack m'.scheduler := by
  obtain ⟨bound, call⟩ := returned
  obtain ⟨cr3, pml4, stack, r, tick⟩ := timerInterrupt_tables (call (max bound (l.length + 1)) (Nat.le_max_left _ _))
  obtain ⟨r', t, run, turned⟩ := taskSwitch_turned stack linkage.1 linkage.2.1
  cases tick.symm.trans (run _ (Nat.le_max_right bound (l.length + 1)))
  exact ⟨cr3, pml4, linkage.tick (turned.ticked m.scheduler.turn_mem), _, r, stack, turned⟩

/-! ### Runs -/

inductive KernelEvent where
  | execute (cpu : Cpu)
  | interrupt (kind : Interrupt) (clobbers : Clobbers)
  | scheduler (e : SchedulerEvent)

def KernelStep : Machine × List Nat → KernelEvent → Machine × List Nat → Prop
  | (m, used), .execute cpu, (m', used') => m' = { m with cpu := cpu } ∧ used' = used
  | (m, used), .interrupt kind clobbers, (m', used') => Returns (interrupt kind · clobbers m) m' ∧ used' = used
  | (m, used), .scheduler e, (m', used') =>
    ∃ s, SchedulerStep (m.scheduler, used) e (s, used') ∧ m' = { m with scheduler := s }

/-- Ticks come with timer interrupts only. -/
def KernelAllowed : Machine × List Nat → KernelEvent → Prop
  | (m, used), .scheduler e => SchedulerAllowed (m.scheduler, used) e ∧ ∀ stack, e ≠ .tick stack
  | _, _ => True

def KernelReach : Machine × List Nat → Prop :=
  Reach (fun state => state.1.scheduler.Initial ∧ state.2 = []) KernelStep KernelAllowed

theorem interrupt_linkage {kind : Interrupt} (linkage : Linkage m.scheduler used l)
    (returned : Returns (interrupt kind · clobbers m) m') : ∃ l', Linkage m'.scheduler used l' := by
  cases kind with
  | timer => exact ⟨_, (timer_turned linkage returned).2.2.1⟩
  | keyboard =>
    obtain ⟨bound, call⟩ := returned
    rw [(keyboardInterrupt_tables (call bound (Nat.le_refl _))).2]
    exact ⟨l, linkage⟩
  | syscall =>
    obtain ⟨bound, call⟩ := returned
    rw [(syscallInterrupt_tables (call bound (Nat.le_refl _))).2]
    exact ⟨l, linkage⟩

theorem kernelReach_linkage (reached : KernelReach (m, used)) : ∃ l, Linkage m.scheduler used l := by
  refine Reach.invariant (I := fun state => ∃ l, Linkage state.1.scheduler state.2 l) reached ?_ ?_
  · rintro state ⟨initial, _⟩
    exact ⟨[], initial.listed, Or.inl initial.current, nofun⟩
  · rintro ⟨m, used⟩ e ⟨m', used'⟩ ⟨l, linkage⟩ allowed taken
    cases e with
    | execute cpu =>
      obtain ⟨rfl, rfl⟩ := taken
      exact ⟨l, linkage⟩
    | interrupt kind clobbers =>
      obtain ⟨returned, rfl⟩ := taken
      exact interrupt_linkage linkage returned
    | scheduler e =>
      obtain ⟨s, taken, rfl⟩ := taken
      obtain ⟨l', after, _⟩ := schedulerStep_linkage linkage allowed.1 taken
      exact ⟨l', after⟩

/-! ### Whose tables are loaded -/

/-- If a task is current and has tables, they are loaded. -/
def OwnTables (m : Machine) : Prop :=
  ∀ l, Listed m.scheduler l → m.scheduler.current ∈ l → (m.scheduler.frames m.scheduler.current).cr3 ≠ null →
    m.cpu.cr3 = .ofNat 64 (m.scheduler.frames m.scheduler.current).cr3

/-- The kernel's tables do for `p`. -/
def Machine.Shares (m : Machine) (p : FramePtr) : Prop :=
  (m.scheduler.frames p).cr3 = null ∨ m.pml4 = .ofNat 64 (m.scheduler.frames p).cr3

/-- The interrupt is a tick, and not the last one in the slice of the task that it selects. -/
def Reloads (m : Machine) (l : List FramePtr) : Interrupt → Prop
  | .timer => m.scheduler.survivors l = [] ∨
    m.scheduler.ticksLeft (m.scheduler.turn l) (m.scheduler.selected l) ≠ 1 ∨ m.Shares (m.scheduler.selected l)
  | .keyboard | .syscall => m.scheduler.current ∉ l ∨ m.Shares m.scheduler.current

theorem ownTables_iff (listed : Listed m.scheduler l) (member : m.scheduler.current ∈ l) :
    OwnTables m ↔ ((m.scheduler.frames m.scheduler.current).cr3 = null ∨
      m.cpu.cr3 = .ofNat 64 (m.scheduler.frames m.scheduler.current).cr3) := by
  constructor
  · intro own
    by_cases none : (m.scheduler.frames m.scheduler.current).cr3 = null
    · exact Or.inl none
    · exact Or.inr (own l listed member none)
  · rintro (none | loaded) l' _ _ some
    · exact absurd none some
    · exact loaded

theorem ownTables_idle (listed : Listed m.scheduler l) (idle : m.scheduler.current ∉ l) : OwnTables m := by
  intro l' listed' member
  have same : l' = l := linked_unique listed'.2.2 listed.2.2
  exact absurd (same ▸ member) idle

theorem kernel_ownTables (linkage : Linkage m.scheduler used l) (cr3 : m'.cpu.cr3 = m.pml4)
    (scheduler : m'.scheduler = m.scheduler) :
    OwnTables m' ↔ (m.scheduler.current ∉ l ∨ m.Shares m.scheduler.current) := by
  by_cases member : m.scheduler.current ∈ l
  · rw [ownTables_iff (l := l) (by rw [scheduler]; exact linkage.1) (by rw [scheduler]; exact member), cr3, scheduler]
    exact ⟨Or.inr, fun shares => shares.resolve_left (not_not.mpr member)⟩
  · exact iff_of_true (ownTables_idle (l := l) (by rw [scheduler]; exact linkage.1) (by rw [scheduler]; exact member))
      (Or.inl member)

theorem timer_ownTables (linkage : Linkage m.scheduler used l) (returned : Returns (timerInterrupt · clobbers m) m') :
    OwnTables m' ↔ Reloads m l .timer := by
  obtain ⟨cr3, _, after, registers, r, stack, turned⟩ := timer_turned linkage returned
  rcases turned.resumed with ⟨some, current, _⟩ | ⟨none, idle, _⟩
  · have member : m'.scheduler.current ∈ m.scheduler.survivors l := by
      rw [current]
      exact choice_mem _ (m.scheduler.turn_mem some)
    have tables : (m'.scheduler.frames (m.scheduler.selected l)).cr3 =
        (m.scheduler.frames (m.scheduler.selected l)).cr3 := by rw [turned.frames]
    have quanta : (m'.scheduler.frames (m.scheduler.selected l)).quanta =
        m.scheduler.ticksLeft (m.scheduler.turn l) (m.scheduler.selected l) - 1 := by
      rw [turned.frames]
      simp only [if_neg some, Scheduler.countDown]
      exact if_pos rfl
    have nonnull := after.1.ne_null member
    have task : m'.scheduler.current ≠ .prochead := fun head => after.1.nodup.1 (head ▸ member)
    rw [ownTables_iff after.1 member, cr3, taskSwitchStage2, current, tables, quanta]
    rw [current] at nonnull task
    unfold Reloads Machine.Shares
    by_cases last : m.scheduler.ticksLeft (m.scheduler.turn l) (m.scheduler.selected l) = 1
    · have expired : ¬ ((m.scheduler.ticksLeft (m.scheduler.turn l) (m.scheduler.selected l) - 1) ≠ 0) := by
        rw [last]
        decide
      rw [if_neg fun all => expired all.2.2.2]
      exact ⟨fun own => Or.inr (Or.inr own), fun reloads =>
        (reloads.resolve_left some).resolve_left (not_not.mpr last)⟩
    · have more : m.scheduler.ticksLeft (m.scheduler.turn l) (m.scheduler.selected l) - 1 ≠ 0 := by
        rw [ne_eq, UInt8.sub_eq_iff_eq_add]
        exact last
      refine iff_of_true ?_ (Or.inr (Or.inl last))
      by_cases none : (m.scheduler.frames (m.scheduler.selected l)).cr3 = null
      · exact Or.inl none
      · rw [if_pos ⟨nonnull, task, none, more⟩]
        exact Or.inr rfl
  · exact iff_of_true (ownTables_idle after.1 (after.1.idle idle)) (Or.inl none)

/-- The first task is alone on the list and has `ticks` ticks left. -/
structure Alone (m : Machine) (ticks : UInt8) : Prop where
  reached : KernelReach (m, [0x101010])
  listed : Listed m.scheduler [.heap 0x101010]
  quanta : (m.scheduler.frames (.heap 0x101010)).quanta = ticks
  cr3 : (m.scheduler.frames (.heap 0x101010)).cr3 = 0x102000
  valid : (m.scheduler.frames (.heap 0x101010)).invalid = false
  pml4 : m.pml4 = 0x40080000

theorem Alone.linkage {ticks : UInt8} (alone : Alone m ticks) :
    Linkage m.scheduler [0x101010] [.heap 0x101010] := by
  obtain ⟨l, linkage⟩ := kernelReach_linkage alone.reached
  have same : l = [.heap 0x101010] := linked_unique linkage.1.2.2 alone.listed.2.2
  exact same ▸ linkage

theorem Alone.selects {ticks : UInt8} (alone : Alone m ticks) (more : ticks ≠ 0) :
    m.scheduler.survivors [.heap 0x101010] = [.heap 0x101010] ∧ m.scheduler.turn [.heap 0x101010] = .heap 0x101010 ∧
      m.scheduler.selected [.heap 0x101010] = .heap 0x101010 := by
  have looks : m.scheduler.looksAt [.heap 0x101010] = .heap 0x101010 := by
    unfold Scheduler.looksAt
    split
    · exact List.mem_singleton.mp ‹_›
    · rfl
  have valid : ¬ (m.scheduler.frames (.heap 0x101010)).invalid := by
    rw [alone.valid]
    exact Bool.false_ne_true
  have left : m.scheduler.survivors [.heap 0x101010] = [.heap 0x101010] := by
    rw [Scheduler.survivors, looks, if_neg valid]
  have turn : m.scheduler.turn [.heap 0x101010] = .heap 0x101010 := by
    rw [Scheduler.turn, looks, if_neg valid]
  refine ⟨left, turn, ?_⟩
  rw [Scheduler.selected, left, turn, Scheduler.choice, alone.quanta, if_neg more]

theorem Alone.tick {ticks : UInt8} (alone : Alone m ticks) (more : ticks ≠ 0) (clobbers : Clobbers) :
    ∃ m', Returns (timerInterrupt · clobbers m) m' ∧ Alone m' (ticks - 1) ∧
      m'.scheduler.current = .heap 0x101010 := by
  have linkage := alone.linkage
  obtain ⟨left, turn, selected⟩ := alone.selects more
  obtain ⟨_, _, m', run, _⟩ := timerInterrupt_spec clobbers linkage.1 linkage.2.1
  have returned : Returns (timerInterrupt · clobbers m) m' := ⟨_, run⟩
  obtain ⟨_, pml4, after, registers, r, stack, turned⟩ := timer_turned linkage returned
  have frame := turned.frames (.heap 0x101010)
  rw [left, turn, if_neg (by simp), Scheduler.countDown, Scheduler.ticksLeft, Scheduler.choice, alone.quanta, if_neg more,
    if_pos rfl, if_neg fun both => more both.2] at frame
  have reached : KernelReach (m', [0x101010]) :=
    alone.reached.step (e := .interrupt .timer clobbers) trivial ⟨returned, rfl⟩
  refine ⟨m', returned, ⟨reached, by rw [← left]; exact after.1, ?_, ?_, ?_, pml4.trans alone.pml4⟩, ?_⟩
  · rw [frame]
  · rw [frame]
    exact alone.cr3
  · rw [frame]
    exact alone.valid
  · rcases turned.resumed with ⟨_, current, _⟩ | ⟨none, _⟩
    · rw [current, selected]
    · rw [left] at none
      cases none

theorem alone_at_first : ∃ m, Alone m 10 := by
  obtain ⟨s, added, listed, quanta, cr3, valid⟩ : ∃ s,
      addTask ⟨0x101010, .zero, fun _ _ _ => 0x102000, 0x103000⟩ [0x61] 0x400000 0x401000
        ⟨1, false, .null, fun _ => .zero⟩ = .ok s ∧ Listed s [.heap 0x101010] ∧
      (s.frames (.heap 0x101010)).quanta = 10 ∧ (s.frames (.heap 0x101010)).cr3 = 0x102000 ∧
      (s.frames (.heap 0x101010)).invalid = false :=
    ⟨_, rfl, ⟨rfl, nofun, rfl, nofun, rfl⟩, rfl, rfl, rfl⟩
  have start : KernelReach (⟨idleCpu 0, ⟨1, false, .null, fun _ => .zero⟩, 0x40080000⟩, []) :=
    .init ⟨⟨rfl, rfl, rfl, rfl⟩, rfl⟩
  have next : KernelReach (⟨idleCpu 0, s, 0x40080000⟩, [0x101010]) :=
    start.step (e := .scheduler (.addTask _ _ _ _)) ⟨List.not_mem_nil, nofun⟩ ⟨s, ⟨added, rfl⟩, rfl⟩
  exact ⟨_, next, listed, quanta, cr3, valid, rfl⟩

theorem alone_later (n : Nat) (few : n ≤ 9) : ∃ m, Alone m (10 - .ofNat n) := by
  induction n with
  | zero => exact alone_at_first
  | succ n ih =>
    obtain ⟨m, alone⟩ := ih (by omega)
    have more : ∀ n ≤ 8, (10 : UInt8) - .ofNat n ≠ 0 := by decide
    obtain ⟨m', _, alone', _⟩ := alone.tick (more n (by omega)) zeroing
    have less : ∀ n ≤ 8, (10 : UInt8) - .ofNat n - 1 = 10 - .ofNat (n + 1) := by decide
    rw [less n (by omega)] at alone'
    exact ⟨m', alone'⟩

/-- An interrupt returns to a task under its own tables if and only if it is a
tick that is not the last one in the slice of that task, whenever the tables of
the task are not those of the kernel. -/
theorem own_tables_iff_reloads {kind : Interrupt} (reached : KernelReach (m, used)) (listed : Listed m.scheduler l)
    (returned : Returns (interrupt kind · clobbers m) m') : OwnTables m' ↔ Reloads m l kind := by
  obtain ⟨l', linkage⟩ := kernelReach_linkage reached
  have same : l' = l := linked_unique linkage.1.2.2 listed.2.2
  subst same
  cases kind with
  | timer => exact timer_ownTables linkage returned
  | keyboard =>
    obtain ⟨bound, call⟩ := returned
    obtain ⟨cr3, scheduler⟩ := keyboardInterrupt_tables (call bound (Nat.le_refl _))
    exact kernel_ownTables linkage cr3 scheduler
  | syscall =>
    obtain ⟨bound, call⟩ := returned
    obtain ⟨cr3, scheduler⟩ := syscallInterrupt_tables (call bound (Nat.le_refl _))
    exact kernel_ownTables linkage cr3 scheduler

theorem own_tables_iff_reloads_first_tick : ∃ m m', KernelReach (m, [0x101010]) ∧
    Returns (interrupt .timer · zeroing m) m' ∧ m'.scheduler.current = .heap 0x101010 ∧ OwnTables m' := by
  obtain ⟨m, alone⟩ := alone_at_first
  obtain ⟨m', returned, _, current⟩ := alone.tick (by decide) zeroing
  have returned : Returns (interrupt .timer · zeroing m) m' := returned
  refine ⟨m, m', alone.reached, returned, current, (own_tables_iff_reloads alone.reached alone.listed
    returned).mpr (Or.inr (Or.inl ?_))⟩
  obtain ⟨_, turn, selected⟩ := alone.selects (by decide)
  rw [turn, selected, Scheduler.ticksLeft, alone.quanta]
  decide

/-- The tenth tick of the slice of a task leaves it under the tables of the kernel. -/
theorem last_tick_kernel_tables : ∃ m m', KernelReach (m, [0x101010]) ∧ Returns (interrupt .timer · zeroing m) m' ∧
    m'.scheduler.current = .heap 0x101010 ∧ ¬ OwnTables m' := by
  obtain ⟨m, alone⟩ := alone_later 9 (Nat.le_refl _)
  obtain ⟨m', returned, _, current⟩ := alone.tick (by decide) zeroing
  refine ⟨m, m', alone.reached, returned, current, fun own => ?_⟩
  obtain ⟨left, turn, selected⟩ := alone.selects (by decide)
  have reloads := (timer_ownTables alone.linkage returned).mp own
  unfold Reloads Machine.Shares at reloads
  dsimp only at reloads
  rw [left, turn, selected, Scheduler.ticksLeft, alone.quanta, alone.cr3, alone.pml4] at reloads
  revert reloads
  decide

end System14
