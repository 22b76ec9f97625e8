import System14.Interrupts.Stubs

/-!
# What the stubs do to the registers

`TimerStub` hands `TaskSwitch` the registers as they are after its call of
`LoadKernelPML4`, and a task is resumed with exactly the registers that were
saved for it. So a task notices an interrupt if and only if that first call has
changed one of its registers, which it does to `rdi` unless `rdi` holds the
kernel's tables already.
-/

namespace System14
open WordStack Run

variable {fuel : Nat} {clobbers : Clobbers} {m : Machine} {c : Cpu} {w : Word} {ws vs : List Word} {rs : List Reg}

/-! ### The stack -/

def Stacked (c : Cpu) (ws : List Word) : Prop := Holds c.mem (c.regs .rsp) ws

@[simp] theorem Cpu.set_same (c : Cpu) (r : Reg) (w : Word) : (c.set r w).regs r = w := Function.update_self _ _ _

theorem Cpu.set_other (c : Cpu) {r r' : Reg} (w : Word) (other : r' ≠ r) : (c.set r w).regs r' = c.regs r' :=
  Function.update_of_ne other _ _

theorem Cpu.push_other (c : Cpu) {r : Reg} (w : Word) (other : r ≠ .rsp) : (c.push w).regs r = c.regs r :=
  c.set_other _ other

@[simp] theorem Cpu.push_pointer (c : Cpu) (w : Word) : (c.push w).regs .rsp = c.regs .rsp - 8 := by
  simp [Cpu.push, Cpu.set]

theorem Stacked.push (stacked : Stacked c ws) (small : ws.length < 2 ^ 60) : Stacked (c.push w) (w :: ws) := by
  unfold Stacked
  rw [Cpu.push_pointer]
  apply Holds.push _ small
  rw [BitVec.sub_add_cancel]
  exact stacked

theorem Stacked.called (clobbers : Clobbers) (f : CFunction) (stacked : Stacked c ws) (few : ws.length ≤ 20) :
    Stacked (c.called clobbers f) ws := by
  unfold Stacked
  apply Holds.congr stacked (by omega)
  intro x inside
  apply if_pos
  unfold Among at inside ⊢
  omega

theorem Cpu.called_other {f : CFunction} {r : Reg} (kept : r.callerSaved = false) :
    (c.called clobbers f).regs r = c.regs r := by
  unfold Cpu.called
  simp only [kept, Bool.false_eq_true, if_false]

theorem interrupt_stacked (c : Cpu) :
    Stacked c.interrupt [c.rip, c.cs, c.flags, c.regs .rsp, c.ss] ∧ ∀ r ≠ .rsp, c.interrupt.regs r = c.regs r := by
  obtain ⟨a, aligned⟩ : ∃ a, a = c.set .rsp (c.regs .rsp &&& ~~~0xf) := ⟨_, rfl⟩
  obtain ⟨p, pushed⟩ : ∃ p, p = ((((a.push c.ss).push (c.regs .rsp)).push c.flags).push c.cs).push c.rip := ⟨_, rfl⟩
  have entry : c.interrupt = { p with flags := c.flags &&& ~~~0x34300 } := by
    rw [pushed, aligned]
    rfl
  rw [entry]
  constructor
  · have empty : Stacked a [] := trivial
    have one := empty.push (w := c.ss) (by simp)
    have two := one.push (w := c.regs .rsp) (by simp)
    have three := two.push (w := c.flags) (by simp)
    have four := three.push (w := c.cs) (by simp)
    have five := four.push (w := c.rip) (by simp)
    rw [← pushed] at five
    exact five
  · intro r other
    show p.regs r = c.regs r
    simp only [pushed, Cpu.push_other _ _ other, aligned, Cpu.set_other _ _ other]

theorem image_of_holds {mem : Words} {a : Word} {r : Registers} (holds : Holds mem a r.words) :
    Registers.image mem a = r := by
  unfold Registers.words at holds
  simp only [Holds, BitVec.add_assoc, BitVec.reduceAdd, BitVec.ofNat_eq_ofNat] at holds
  obtain ⟨h0, h1, h2, h3, h4, h5, h6, h7, h8, h9, h10, h11, h12, h13, h14, h15, h16, h17, h18, h19, _⟩ := holds
  simp only [Registers.image, BitVec.ofNat_eq_ofNat, h0, h1, h2, h3, h4, h5, h6, h7, h8, h9, h10, h11, h12, h13, h14,
    h15, h16, h17, h18, h19]

/-! ### Runs of instructions -/

theorem runStub_append (one two : List Instr) :
    runStub fuel clobbers (one ++ two) m = runStub fuel clobbers one m >>= runStub fuel clobbers two := by
  induction one generalizing m with
  | nil => rfl
  | cons i one ih =>
    rw [List.cons_append, runStub, runStub, bind_assoc]
    congr 1
    funext m
    exact ih

theorem map_regs {f g : Reg → Word} (noPointer : .rsp ∉ rs) (same : ∀ r ≠ .rsp, f r = g r) : rs.map f = rs.map g := by
  apply List.map_congr_left
  intro r member
  exact same r fun pointer => noPointer (pointer ▸ member)

theorem runStub_pushes (clobbers : Clobbers) (m : Machine) (rs : List Reg) (noPointer : .rsp ∉ rs)
    (stacked : Stacked m.cpu ws) (small : rs.length + ws.length < 2 ^ 60) :
    ∃ c, (∀ fuel, runStub fuel clobbers (rs.map .push) m = .ok { m with cpu := c }) ∧
      Stacked c ((rs.map m.cpu.regs).reverse ++ ws) ∧ ∀ r ≠ .rsp, c.regs r = m.cpu.regs r := by
  induction rs generalizing m ws with
  | nil => exact ⟨m.cpu, fun _ => rfl, stacked, fun _ _ => rfl⟩
  | cons r rs ih =>
    have other : r ≠ .rsp := fun same => noPointer (same ▸ List.mem_cons_self)
    obtain ⟨c, run, after, kept⟩ := ih { m with cpu := m.cpu.push (m.cpu.regs r) }
      (fun member => noPointer (List.mem_cons_of_mem _ member))
      (stacked.push (w := m.cpu.regs r) (by simp at small; omega)) (by simp at small ⊢; omega)
    have same : rs.map (m.cpu.push (m.cpu.regs r)).regs = rs.map m.cpu.regs :=
      map_regs (fun member => noPointer (List.mem_cons_of_mem _ member)) fun r' pointer => m.cpu.push_other _ pointer
    refine ⟨c, fun fuel => run fuel, ?_, ?_⟩
    · rw [List.map_cons, List.reverse_cons, List.append_assoc, List.singleton_append, ← same]
      exact after
    · intro r' pointer
      rw [kept r' pointer]
      exact m.cpu.push_other _ pointer

theorem runStub_pops (clobbers : Clobbers) (m : Machine) (rs : List Reg) (vs ws : List Word)
    (noPointer : .rsp ∉ rs) (distinct : rs.Nodup) (stacked : Stacked m.cpu (vs ++ ws))
    (many : vs.length = rs.length) :
    ∃ c, (∀ fuel, runStub fuel clobbers (rs.map .pop) m = .ok { m with cpu := c }) ∧ Stacked c ws ∧ rs.map c.regs = vs ∧
      ∀ r ∉ rs, r ≠ .rsp → c.regs r = m.cpu.regs r := by
  induction rs generalizing m vs with
  | nil =>
    rw [List.length_nil, List.length_eq_zero_iff] at many
    subst many
    exact ⟨m.cpu, fun _ => rfl, stacked, rfl, fun _ _ _ => rfl⟩
  | cons r rs ih =>
    have other : r ≠ .rsp := fun same => noPointer (same ▸ List.mem_cons_self)
    obtain ⟨fresh, distinct⟩ := List.nodup_cons.mp distinct
    cases vs with
    | nil => exact nomatch many
    | cons v vs =>
      obtain ⟨top, rest⟩ := stacked
      obtain ⟨c', here⟩ : ∃ c', c' = (m.cpu.set .rsp (m.cpu.regs .rsp + 8)).set r (m.cpu.mem (m.cpu.regs .rsp)) := ⟨_, rfl⟩
      have pointer : c'.regs .rsp = m.cpu.regs .rsp + 8 := by
        rw [here, Cpu.set_other _ _ other.symm, Cpu.set_same]
      have memory : c'.mem = m.cpu.mem := by rw [here]; rfl
      have value : c'.regs r = v := by rw [here, Cpu.set_same, top]
      have still : Stacked c' (vs ++ ws) := by
        unfold Stacked
        rw [memory, pointer]
        exact rest
      obtain ⟨c, run, after, values, kept⟩ := ih { m with cpu := c' } vs
        (fun member => noPointer (List.mem_cons_of_mem _ member)) distinct still (by simpa using many)
      refine ⟨c, ?_, after, ?_, ?_⟩
      · intro fuel
        rw [List.map_cons, runStub]
        show runStub fuel clobbers (rs.map .pop) { m with
          cpu := (m.cpu.set .rsp (m.cpu.regs .rsp + 8)).set r (m.cpu.mem (m.cpu.regs .rsp)) } = _
        rw [← here, run]
      · rw [List.map_cons, values, kept r fresh other]
        exact congrArg (· :: vs) value
      · intro r' away pointer'
        rw [List.mem_cons, not_or] at away
        rw [kept r' away.2 pointer', here, Cpu.set_other _ _ away.1, Cpu.set_other _ _ pointer']

theorem runStub_one (i : Instr) : runStub fuel clobbers [i] m = exec fuel clobbers m i := by
  rw [runStub]
  cases exec fuel clobbers m i with
  | error e => rfl
  | ok m => rfl

/-! ### Into the kernel -/

def Machine.loadedReg (clobbers : Clobbers) (m : Machine) (r : Reg) : Word :=
  if r = .rdi then m.pml4 else if r.callerSaved then clobbers.left .loadKernelPML4 r else m.cpu.regs r

/-- What `TimerStub` takes for the registers of the interrupted code. -/
def Machine.loaded (clobbers : Clobbers) (m : Machine) : Registers where
  r15 := m.cpu.regs .r15
  r14 := m.cpu.regs .r14
  r13 := m.cpu.regs .r13
  r12 := m.cpu.regs .r12
  r11 := clobbers.left .loadKernelPML4 .r11
  r10 := clobbers.left .loadKernelPML4 .r10
  r9 := clobbers.left .loadKernelPML4 .r9
  r8 := clobbers.left .loadKernelPML4 .r8
  rbp := m.cpu.regs .rbp
  rdi := m.pml4
  rsi := clobbers.left .loadKernelPML4 .rsi
  rdx := clobbers.left .loadKernelPML4 .rdx
  rcx := clobbers.left .loadKernelPML4 .rcx
  rbx := m.cpu.regs .rbx
  rax := clobbers.left .loadKernelPML4 .rax
  rip := m.cpu.rip
  cs := m.cpu.cs
  flags := m.cpu.flags
  rsp := m.cpu.regs .rsp
  ss := m.cpu.ss

theorem load_spec (clobbers : Clobbers) (m : Machine) :
    ∃ c, (∀ fuel, runStub fuel clobbers [.call .loadKernelPML4] { m with cpu := m.cpu.interrupt } =
        .ok { m with cpu := c }) ∧
      Stacked c [m.cpu.rip, m.cpu.cs, m.cpu.flags, m.cpu.regs .rsp, m.cpu.ss] ∧
      ∀ r ≠ .rsp, c.regs r = m.loadedReg clobbers r := by
  obtain ⟨stacked, kept⟩ := interrupt_stacked m.cpu
  obtain ⟨b, called⟩ : ∃ b, b = m.cpu.interrupt.called clobbers .loadKernelPML4 := ⟨_, rfl⟩
  have after : Stacked b _ := called ▸ stacked.called _ _ (by simp)
  refine ⟨{ b.set .rdi m.pml4 with cr3 := m.pml4 }, ?_, ?_, ?_⟩
  · intro fuel
    rw [runStub_one, called]
    rfl
  · show Holds b.mem ((b.set .rdi m.pml4).regs .rsp) _
    rw [b.set_other _ (by decide)]
    exact after
  · intro r other
    show (b.set .rdi m.pml4).regs r = _
    unfold Machine.loadedReg
    by_cases argument : r = .rdi
    · rw [if_pos argument, argument, Cpu.set_same]
    · rw [if_neg argument, b.set_other _ argument, called]
      show (if r.callerSaved then clobbers.left .loadKernelPML4 r else m.cpu.interrupt.regs r) = _
      rw [kept r other]

theorem timerSave_spec (clobbers : Clobbers) (m : Machine) :
    ∃ c, (∀ fuel, runStub fuel clobbers timerSave { m with cpu := m.cpu.interrupt } = .ok { m with cpu := c }) ∧
      Stacked c (m.loaded clobbers).words ∧ c.regs .rdi = c.regs .rsp := by
  obtain ⟨b, load, stacked, regs⟩ := load_spec clobbers m
  obtain ⟨c, run, after, _⟩ := runStub_pushes clobbers { m with cpu := b } timerPushes (by decide) stacked
    (by simp [timerPushes])
  refine ⟨c.set .rdi (c.regs .rsp), ?_, ?_, ?_⟩
  · intro fuel
    unfold timerSave
    rw [runStub_append, runStub_append, load, ok_bind, run, ok_bind, runStub_one]
    rfl
  · have values : timerPushes.map b.regs = timerPushes.map (m.loadedReg clobbers) := map_regs (by decide) regs
    simp only [values] at after
    unfold Stacked
    rw [c.set_other _ (by decide)]
    exact after
  · rw [Cpu.set_same, c.set_other _ (by decide)]

/-! ### Out of the kernel -/

theorem iretq_spec {rip cs flags sp ss : Word} (clobbers : Clobbers) (m : Machine)
    (stacked : Stacked c [rip, cs, flags, sp, ss]) :
    ∃ c', (∀ fuel, runStub fuel clobbers [.iretq] { m with cpu := c } = .ok { m with cpu := c' }) ∧ c'.rip = rip ∧
      c'.cs = cs ∧ c'.flags = flags ∧ c'.ss = ss ∧ c'.regs .rsp = sp ∧ ∀ r ≠ .rsp, c'.regs r = c.regs r := by
  unfold Stacked at stacked
  simp only [Holds, BitVec.add_assoc, BitVec.reduceAdd, BitVec.ofNat_eq_ofNat] at stacked
  obtain ⟨one, two, three, four, five, _⟩ := stacked
  refine ⟨_, fun fuel => runStub_one _, one, two, three, five, ?_, ?_⟩
  · show (c.set .rsp (c.mem (c.regs .rsp + 24))).regs .rsp = sp
    rw [Cpu.set_same]
    exact four
  · intro r other
    exact c.set_other _ other

theorem timerRestore_spec {r : Registers} (clobbers : Clobbers) (m : Machine) (stacked : Stacked c r.words) :
    ∃ c', (∀ fuel, runStub fuel clobbers (timerPops.map .pop ++ [.iretq]) { m with cpu := c } =
      .ok { m with cpu := c' }) ∧ c'.registers = r := by
  obtain ⟨b, run, frame, values, _⟩ := runStub_pops clobbers { m with cpu := c } timerPops (r.words.take 15)
    (r.words.drop 15) (by decide) (by decide)
    (by rw [List.take_append_drop]; exact stacked) rfl
  obtain ⟨c', last, rip, cs, flags, ss, sp, kept⟩ := iretq_spec clobbers m frame
  refine ⟨c', fun fuel => by rw [runStub_append, run, ok_bind]; exact last fuel, ?_⟩
  have regs : timerPops.map c'.regs = r.words.take 15 := by
    rw [← values]
    exact map_regs (by decide) kept
  simp only [timerPops, Registers.words, List.map_cons, List.map_nil, List.take_succ_cons, List.take_zero,
    List.cons.injEq, and_true] at regs
  obtain ⟨h0, h1, h2, h3, h4, h5, h6, h7, h8, h9, h10, h11, h12, h13, h14⟩ := regs
  unfold Cpu.registers
  rw [h0, h1, h2, h3, h4, h5, h6, h7, h8, h9, h10, h11, h12, h13, h14, rip, cs, flags, ss, sp]

/-! ### A timer interrupt -/

theorem taskSwitch_call {l : List FramePtr} {r : Registers} {t : Scheduler} {saved : Registers} (clobbers : Clobbers)
    (stacked : Stacked c saved.words) (pointer : c.regs .rdi = c.regs .rsp)
    (tick : ∀ fuel > l.length, taskSwitch fuel saved m.scheduler = .ok (r, t)) :
    ∃ c', (∀ fuel > l.length, exec fuel clobbers { m with cpu := c } (.call .taskSwitch) =
      .ok { m with cpu := c', scheduler := t }) ∧ Stacked c' r.words := by
  obtain ⟨b, called⟩ : ∃ b, b = c.called clobbers .taskSwitch := ⟨_, rfl⟩
  refine ⟨{ b with mem := write b.mem (c.regs .rsp) r.words }, fun fuel enough => ?_, ?_⟩
  · show (taskSwitch fuel (.image c.mem (c.regs .rdi)) m.scheduler >>= fun q => .ok { m with
      cpu := { c.called clobbers .taskSwitch with
        mem := write (c.called clobbers .taskSwitch).mem (c.regs .rdi) q.1.words }, scheduler := q.2 }) = _
    rw [pointer, image_of_holds stacked, tick fuel enough, ← called]
    rfl
  · show Holds (write b.mem (c.regs .rsp) r.words) (b.regs .rsp) r.words
    rw [called, Cpu.called_other rfl, ← called]
    exact holds_write _ _ (by simp [Registers.words])

/-- A timer interrupt is a tick on the registers after `LoadKernelPML4`, and the
processor goes on with the registers that the tick returns. -/
theorem timerInterrupt_spec {l : List FramePtr} (clobbers : Clobbers) (listed : Listed m.scheduler l)
    (placed : Placed m.scheduler l) :
    ∃ r l' m', (∀ fuel > l.length, timerInterrupt fuel clobbers m = .ok m') ∧
      Ticked (m.loaded clobbers) m.scheduler l r m'.scheduler l' ∧ m'.cpu.registers = r := by
  obtain ⟨c, save, stacked, pointer⟩ := timerSave_spec clobbers m
  obtain ⟨r, t, l', tick, ticked⟩ := taskSwitch_spec (m.loaded clobbers) listed placed
  obtain ⟨c₁, one, stacked₁⟩ := taskSwitch_call clobbers stacked pointer tick
  have size : r.words.length ≤ 20 := Nat.le_refl 20
  have stacked₂ : Stacked (c₁.called clobbers .lapicEOI) r.words := stacked₁.called _ _ size
  have stacked₃ : Stacked ((c₁.called clobbers .lapicEOI).called clobbers .taskSwitchStage2) r.words :=
    stacked₂.called _ _ size
  obtain ⟨c₃, here⟩ : ∃ c₃ : Cpu, c₃ = { (c₁.called clobbers .lapicEOI).called clobbers .taskSwitchStage2 with
      cr3 := ((taskSwitchStage2 t).map (.ofNat 64)).getD
        ((c₁.called clobbers .lapicEOI).called clobbers .taskSwitchStage2).cr3 } := ⟨_, rfl⟩
  have stacked₃ : Stacked c₃ r.words := by
    rw [here]
    exact stacked₃
  obtain ⟨c', restore, registers⟩ := timerRestore_spec clobbers { m with scheduler := t } stacked₃
  refine ⟨r, l', { m with cpu := c', scheduler := t }, fun fuel enough => ?_, ticked, registers⟩
  have calls : runStub fuel clobbers [.call .taskSwitch, .call .lapicEOI, .call .taskSwitchStage2] { m with cpu := c } =
      .ok { m with cpu := c₃, scheduler := t } := by
    rw [runStub, one fuel enough, ok_bind, here]
    rfl
  unfold timerInterrupt timerStub
  rw [List.append_assoc, runStub_append, runStub_append, save, ok_bind, calls, ok_bind, restore]

/-! ### A system call -/

/-- The registers after a system call: those that the stub saves, as they were
after `LoadKernelPML4`, and those that it leaves to the last function it calls. -/
def Machine.returnedReg (clobbers : Clobbers) (m : Machine) : Reg → Word
  | .r8 => clobbers.left .lapicEOI .r8
  | .r9 => clobbers.left .lapicEOI .r9
  | .r10 => clobbers.left .lapicEOI .r10
  | .r11 => clobbers.left .lapicEOI .r11
  | r => m.loadedReg clobbers r

theorem syscallCalls_spec (clobbers : Clobbers) (m : Machine) (stacked : Stacked c ws) (few : ws.length ≤ 20) :
    ∃ c', (∀ fuel, runStub fuel clobbers [.mov .rdi .rsp, .call .syscallHandler, .call .lapicEOI] { m with cpu := c } =
        .ok { m with cpu := c' }) ∧ Stacked c' ws ∧
      (∀ r, r.callerSaved = true → c'.regs r = clobbers.left .lapicEOI r) ∧
      ∀ r, r.callerSaved = false → c'.regs r = c.regs r := by
  obtain ⟨d, moved⟩ : ∃ d, d = c.set .rdi (c.regs .rsp) := ⟨_, rfl⟩
  have after : Stacked d ws := by
    unfold Stacked
    rw [moved, c.set_other _ (by decide)]
    exact stacked
  refine ⟨(d.called clobbers .syscallHandler).called clobbers .lapicEOI, ?_,
    (after.called clobbers .syscallHandler few).called clobbers .lapicEOI few, ?_, ?_⟩
  · intro fuel
    rw [moved]
    rfl
  · intro r caller
    exact if_pos caller
  · intro r callee
    have argument : r ≠ .rdi := by
      intro same
      rw [same] at callee
      cases callee
    rw [Cpu.called_other callee, Cpu.called_other callee, moved, c.set_other _ argument]

theorem returned_of_parts {regs : Reg → Word}
    (popped : syscallPops.map regs = (syscallPushes.map (m.loadedReg clobbers)).reverse)
    (pointer : regs .rsp = m.cpu.regs .rsp)
    (scratch : ∀ r, r.callerSaved = true → r ∉ syscallPops → regs r = clobbers.left .lapicEOI r)
    (unsaved : ∀ r, r.callerSaved = false → r ≠ .rsp → r ∉ syscallPops → regs r = m.loadedReg clobbers r) (r : Reg) :
    regs r = m.returnedReg clobbers r := by
  simp only [syscallPops, syscallPushes, List.map_cons, List.map_nil, List.reverse_cons, List.reverse_nil,
    List.nil_append, List.cons_append, List.cons.injEq, and_true] at popped
  obtain ⟨rbp, rdi, rsi, rdx, rcx, rbx, rax⟩ := popped
  cases r with
  | rax => exact rax
  | rbx => exact rbx
  | rcx => exact rcx
  | rdx => exact rdx
  | rsi => exact rsi
  | rdi => exact rdi
  | rbp => exact rbp
  | rsp => exact pointer
  | r8 => exact scratch .r8 rfl (by decide)
  | r9 => exact scratch .r9 rfl (by decide)
  | r10 => exact scratch .r10 rfl (by decide)
  | r11 => exact scratch .r11 rfl (by decide)
  | r12 => exact unsaved .r12 rfl (by decide) (by decide)
  | r13 => exact unsaved .r13 rfl (by decide) (by decide)
  | r14 => exact unsaved .r14 rfl (by decide) (by decide)
  | r15 => exact unsaved .r15 rfl (by decide) (by decide)

theorem syscallInterrupt_spec (clobbers : Clobbers) (m : Machine) :
    ∃ c, (∀ fuel, syscallInterrupt fuel clobbers m = .ok { m with cpu := c }) ∧
      (∀ r, c.regs r = m.returnedReg clobbers r) ∧ c.rip = m.cpu.rip ∧ c.cs = m.cpu.cs ∧ c.flags = m.cpu.flags ∧
      c.ss = m.cpu.ss := by
  obtain ⟨b, load, stacked, regs⟩ := load_spec clobbers m
  obtain ⟨c, push, after, same⟩ := runStub_pushes clobbers { m with cpu := b } syscallPushes (by decide) stacked
    (by simp [syscallPushes])
  have values : syscallPushes.map b.regs = syscallPushes.map (m.loadedReg clobbers) := map_regs (by decide) regs
  simp only [values] at after
  obtain ⟨e, calls, after, scratched, preserved⟩ := syscallCalls_spec clobbers m after (by simp [syscallPushes])
  obtain ⟨g, pop, frame, saved, kept⟩ := runStub_pops clobbers { m with cpu := e } syscallPops _ _ (by decide)
    (by decide) after rfl
  obtain ⟨h, last, rip, cs, flags, ss, sp, final⟩ := iretq_spec clobbers m frame
  have popped : syscallPops.map h.regs = (syscallPushes.map (m.loadedReg clobbers)).reverse := by
    rw [← saved]
    exact map_regs (by decide) final
  have scratch : ∀ r, r.callerSaved = true → r ∉ syscallPops → h.regs r = clobbers.left .lapicEOI r := by
    intro r caller away
    have other : r ≠ .rsp := by
      intro same
      rw [same] at caller
      cases caller
    rw [final r other, kept r away other]
    exact scratched r caller
  have unsaved : ∀ r, r.callerSaved = false → r ≠ .rsp → r ∉ syscallPops → h.regs r = m.loadedReg clobbers r := by
    intro r callee other away
    rw [final r other, kept r away other, ← regs r other]
    exact (preserved r callee).trans (same r other)
  refine ⟨h, ?_, returned_of_parts popped sp scratch unsaved, rip, cs, flags, ss⟩
  intro fuel
  unfold syscallInterrupt syscallStub
  rw [runStub_append, runStub_append, runStub_append, runStub_append, load, ok_bind, push, ok_bind, calls, ok_bind,
    pop, ok_bind, last]

/-! ### Until a task is resumed -/

/-- Running code changes the processor as it likes. The scheduler is called from
it, and ticks come with timer interrupts only. -/
inductive MachineEvent where
  | execute (cpu : Cpu)
  | timer (clobbers : Clobbers)
  | syscall (clobbers : Clobbers)
  | scheduler (e : SchedulerEvent)

def MachineStep : Machine × List Nat → MachineEvent → Machine × List Nat → Prop
  | (m, used), .execute cpu, (m', used') => m' = { m with cpu := cpu } ∧ used' = used
  | (m, used), .timer clobbers, (m', used') => Returns (timerInterrupt · clobbers m) m' ∧ used' = used
  | (m, used), .syscall clobbers, (m', used') => Returns (syscallInterrupt · clobbers m) m' ∧ used' = used
  | (m, used), .scheduler e, (m', used') =>
    ∃ s, SchedulerStep (m.scheduler, used) e (s, used') ∧ m' = { m with scheduler := s }

def MachineAllowed : Machine × List Nat → MachineEvent → Prop
  | (m, used), .scheduler e => SchedulerAllowed (m.scheduler, used) e ∧ ∀ stack, e ≠ .tick stack
  | _, _ => True

/-- The states from `start` on while `task` does not run, and the first in which it runs again. -/
def Away (task : FramePtr) (start : Machine × List Nat) : Machine × List Nat → Prop :=
  Reach (· = start) MachineStep fun state e => MachineAllowed state e ∧ state.1.scheduler.current ≠ task

structure Kept (task : Nat) (saved : Registers) (state : Machine × List Nat) : Prop where
  linkage : ∃ l, Linkage state.1.scheduler state.2 l
  handed : task ∈ state.2
  frame : (state.1.scheduler.frames (.heap task)).registers = saved
  resumed : state.1.scheduler.current = .heap task → state.1.cpu.registers = saved

theorem timer_kept {used : List Nat} {a : Nat} {m' : Machine} {saved : Registers}
    (linkage : ∃ l, Linkage m.scheduler used l) (handed : a ∈ used)
    (frame : m.scheduler.current = .heap a ∧ m.loaded clobbers = saved ∨
      m.scheduler.current ≠ .heap a ∧ (m.scheduler.frames (.heap a)).registers = saved)
    (returned : Returns (timerInterrupt · clobbers m) m') : Kept a saved (m', used) := by
  obtain ⟨l, linkage⟩ := linkage
  obtain ⟨r, l', m'', run, ticked, registers⟩ := timerInterrupt_spec clobbers linkage.1 linkage.2.1
  cases returned.unique ⟨l.length + 1, run⟩
  have kept : (m'.scheduler.frames (.heap a)).registers = saved := by
    rw [ticked.saved]
    rcases frame with ⟨current, here⟩ | ⟨other, here⟩
    · rw [if_pos ⟨current.symm, linkage.running current⟩, here]
    · rw [if_neg fun both => other both.1.symm, here]
  refine ⟨⟨l', linkage.tick ticked⟩, handed, kept, fun current => ?_⟩
  rcases ticked.resumed with ⟨_, next⟩ | ⟨none | head, _⟩
  · rw [registers, next, current, kept]
  · exact nomatch current.symm.trans none
  · exact nomatch current.symm.trans head

theorem Kept.step {a : Nat} {saved : Registers} {state state' : Machine × List Nat} {e : MachineEvent}
    (kept : Kept a saved state) (allowed : MachineAllowed state e) (away : state.1.scheduler.current ≠ .heap a)
    (taken : MachineStep state e state') : Kept a saved state' := by
  obtain ⟨m, used⟩ := state
  obtain ⟨m', used'⟩ := state'
  obtain ⟨linkage, handed, frame, _⟩ := kept
  cases e with
  | execute cpu =>
    obtain ⟨rfl, rfl⟩ := taken
    exact ⟨linkage, handed, frame, fun current => absurd current away⟩
  | timer clobbers =>
    obtain ⟨returned, rfl⟩ := taken
    exact timer_kept linkage handed (Or.inr ⟨away, frame⟩) returned
  | syscall clobbers =>
    obtain ⟨⟨bound, call⟩, rfl⟩ := taken
    obtain ⟨c, run, _⟩ := syscallInterrupt_spec clobbers m
    cases (run bound).symm.trans (call bound (Nat.le_refl _))
    exact ⟨linkage, handed, frame, fun current => absurd current away⟩
  | scheduler e =>
    obtain ⟨s, step, rfl⟩ := taken
    obtain ⟨l, linkage⟩ := linkage
    obtain ⟨registers, current, handed'⟩ := schedulerStep_keeps linkage allowed.1 allowed.2 step handed
    obtain ⟨l', after, _⟩ := schedulerStep_linkage linkage allowed.1 step
    exact ⟨⟨l', after⟩, handed', registers.trans frame,
      fun here => absurd (current.symm.trans here) away⟩

theorem Kept.away {a : Nat} {saved : Registers} {start state : Machine × List Nat} (kept : Kept a saved start)
    (reached : Away (.heap a) start state) : Kept a saved state := by
  refine reached.invariant (I := Kept a saved) ?_ ?_
  · intro state first
    rw [first]
    exact kept
  · intro state e state' kept allowed taken
    exact kept.step allowed.1 allowed.2 taken

/-! ### Transparency -/

/-- The task that runs does not notice a timer interrupt: `TaskSwitch` is handed
its registers, and it has them again when it is resumed. -/
def TimerTransparent (clobbers : Clobbers) (used : List Nat) (m : Machine) : Prop :=
  (∃ c, (∀ fuel, runStub fuel clobbers timerSave { m with cpu := m.cpu.interrupt } = .ok { m with cpu := c }) ∧
    Registers.image c.mem (c.regs .rdi) = m.cpu.registers) ∧
  ∃ m₁, Returns (timerInterrupt · clobbers m) m₁ ∧ ∀ state, Away m.scheduler.current (m₁, used) state →
    state.1.scheduler.current = m.scheduler.current → state.1.cpu.registers = m.cpu.registers

def SyscallTransparent (clobbers : Clobbers) (m : Machine) : Prop :=
  ∃ m', Returns (syscallInterrupt · clobbers m) m' ∧ ∀ r, m'.cpu.regs r = m.cpu.regs r

/-- `LoadKernelPML4` happens to leave the registers of the task as they are. -/
def TimerHarmless (clobbers : Clobbers) (m : Machine) : Prop :=
  m.cpu.regs .rdi = m.pml4 ∧ ∀ r ∈ [Reg.rax, .rcx, .rdx, .rsi, .r8, .r9, .r10, .r11],
    m.cpu.regs r = clobbers.left .loadKernelPML4 r

/-- So it does for the registers that `SyscallStub` saves, and `LAPIC_EOI` for the others. -/
def SyscallHarmless (clobbers : Clobbers) (m : Machine) : Prop :=
  m.cpu.regs .rdi = m.pml4 ∧
    (∀ r ∈ [Reg.rax, .rcx, .rdx, .rsi], m.cpu.regs r = clobbers.left .loadKernelPML4 r) ∧
    ∀ r ∈ [Reg.r8, .r9, .r10, .r11], m.cpu.regs r = clobbers.left .lapicEOI r

theorem loaded_iff : m.loaded clobbers = m.cpu.registers ↔ TimerHarmless clobbers m := by
  unfold Machine.loaded Cpu.registers TimerHarmless
  simp only [Registers.mk.injEq, true_and, and_true, List.forall_mem_cons, List.not_mem_nil, false_imp_iff,
    implies_true]
  constructor
  · intro ⟨r11, r10, r9, r8, rdi, rsi, rdx, rcx, rax⟩
    exact ⟨rdi.symm, rax.symm, rcx.symm, rdx.symm, rsi.symm, r8.symm, r9.symm, r10.symm, r11.symm⟩
  · intro ⟨rdi, rax, rcx, rdx, rsi, r8, r9, r10, r11⟩
    exact ⟨r11.symm, r10.symm, r9.symm, r8.symm, rdi.symm, rsi.symm, rdx.symm, rcx.symm, rax.symm⟩

theorem returned_iff : (∀ r, m.returnedReg clobbers r = m.cpu.regs r) ↔ SyscallHarmless clobbers m := by
  unfold SyscallHarmless
  simp only [List.forall_mem_cons, List.not_mem_nil, false_imp_iff, implies_true, and_true]
  constructor
  · intro same
    exact ⟨(same .rdi).symm, ⟨(same .rax).symm, (same .rcx).symm, (same .rdx).symm, (same .rsi).symm⟩,
      (same .r8).symm, (same .r9).symm, (same .r10).symm, (same .r11).symm⟩
  · intro ⟨rdi, ⟨rax, rcx, rdx, rsi⟩, r8, r9, r10, r11⟩ r
    cases r with
    | rax => exact rax.symm
    | rcx => exact rcx.symm
    | rdx => exact rdx.symm
    | rsi => exact rsi.symm
    | rdi => exact rdi.symm
    | r8 => exact r8.symm
    | r9 => exact r9.symm
    | r10 => exact r10.symm
    | r11 => exact r11.symm
    | _ => rfl

theorem timerTransparent_iff {used : List Nat} {a : Nat} (reached : SchedulerReach (m.scheduler, used))
    (running : m.scheduler.current = .heap a) : TimerTransparent clobbers used m ↔ TimerHarmless clobbers m := by
  obtain ⟨l, linkage⟩ := schedulerReach_linkage reached
  have handed := linkage.handed running
  obtain ⟨c, save, stacked, pointer⟩ := timerSave_spec clobbers m
  have passed : Registers.image c.mem (c.regs .rdi) = m.loaded clobbers := by
    rw [pointer]
    exact image_of_holds stacked
  rw [← loaded_iff]
  constructor
  · intro ⟨⟨c', save', image⟩, _⟩
    cases (save 0).symm.trans (save' 0)
    exact passed.symm.trans image
  · intro same
    obtain ⟨_, _, m₁, run, _⟩ := timerInterrupt_spec clobbers linkage.1 linkage.2.1
    have returned : Returns (timerInterrupt · clobbers m) m₁ := ⟨l.length + 1, fun fuel enough => run fuel enough⟩
    have kept := timer_kept ⟨l, linkage⟩ handed (Or.inl ⟨running, same⟩) returned
    refine ⟨⟨c, save, passed.trans same⟩, m₁, returned, fun state away current => ?_⟩
    rw [running] at away current
    exact (kept.away away).resumed current

theorem syscallTransparent_iff : SyscallTransparent clobbers m ↔ SyscallHarmless clobbers m := by
  obtain ⟨d, run, regs, _⟩ := syscallInterrupt_spec clobbers m
  rw [← returned_iff]
  constructor
  · intro ⟨m', ⟨bound, call⟩, same⟩ r
    cases (run bound).symm.trans (call bound (Nat.le_refl _))
    exact (regs r).symm.trans (same r)
  · intro same
    exact ⟨{ m with cpu := d }, ⟨0, fun fuel _ => run fuel⟩, fun r => (regs r).trans (same r)⟩

/-- The stubs are transparent exactly when the C functions they call before saving
a register, or without saving it, leave that register alone. -/
theorem stubs_transparent_iff {used : List Nat} {a : Nat} (clobbers : Clobbers)
    (reached : SchedulerReach (m.scheduler, used)) (running : m.scheduler.current = .heap a) :
    (TimerTransparent clobbers used m ↔ TimerHarmless clobbers m) ∧
      (SyscallTransparent clobbers m ↔ SyscallHarmless clobbers m) :=
  ⟨timerTransparent_iff reached running, syscallTransparent_iff⟩

def idleCpu (rdi : Word) : Cpu where
  regs r := if r = .rdi then rdi else 0
  rip := 0
  cs := 0x08
  flags := 0x202
  ss := 0x10
  cr3 := 0
  mem _ := 0

def zeroing : Clobbers := ⟨fun _ _ => 0, fun _ _ => 0⟩

theorem stubs_transparent_iff_idle : ∃ t, SchedulerReach (t, [0x101010]) ∧ t.current = .heap 0x101010 ∧
    TimerTransparent zeroing [0x101010] ⟨idleCpu 0x40080000, t, 0x40080000⟩ ∧
    SyscallTransparent zeroing ⟨idleCpu 0x40080000, t, 0x40080000⟩ := by
  obtain ⟨t, reached, runs⟩ := first_task
  have current := runs.current
  obtain ⟨timer, syscall⟩ := stubs_transparent_iff (m := ⟨idleCpu 0x40080000, t, 0x40080000⟩) zeroing reached current
  refine ⟨t, reached, current, timer.mpr ⟨rfl, ?_⟩, syscall.mpr ⟨rfl, ?_, ?_⟩⟩
  · show ∀ r ∈ _, (idleCpu 0x40080000).regs r = 0
    decide
  · show ∀ r ∈ _, (idleCpu 0x40080000).regs r = 0
    decide
  · show ∀ r ∈ _, (idleCpu 0x40080000).regs r = 0
    decide

/-- A task that is interrupted with another value in `rdi` loses it, although the
compiled functions change nothing else. -/
theorem rdi_lost : ∃ t, SchedulerReach (t, [0x101010]) ∧ t.current = .heap 0x101010 ∧
    ¬ TimerTransparent zeroing [0x101010] ⟨idleCpu 0x1234, t, 0x40080000⟩ ∧
    ¬ SyscallTransparent zeroing ⟨idleCpu 0x1234, t, 0x40080000⟩ := by
  obtain ⟨t, reached, runs⟩ := first_task
  have current := runs.current
  have different : (idleCpu 0x1234).regs .rdi ≠ 0x40080000 := by decide
  refine ⟨t, reached, current, ?_, ?_⟩
  · intro transparent
    exact different ((timerTransparent_iff (m := ⟨idleCpu 0x1234, t, 0x40080000⟩) reached current).mp transparent).1
  · intro transparent
    exact different (syscallTransparent_iff.mp transparent).1

end System14
