import System14.Multitasking.SchedulerInvariant

/-!
# The interrupt stubs

`interrupt.asm` enters the kernel on a timer interrupt and on a system call, and
`KeyboardHandler` is compiled as an interrupt handler. The stubs are run instruction by instruction; a call of a C function may change every
register that the System V convention does not preserve, and memory outside the
part of the stack that its caller has filled.

The stack is at the same place under the tables of a task and of the kernel, so
the words of memory are those of the virtual addresses.
-/

namespace System14
open WordStack Run

/-! ### The machine -/

inductive Reg where
  | rax | rbx | rcx | rdx | rsi | rdi | rbp | rsp | r8 | r9 | r10 | r11 | r12 | r13 | r14 | r15
  deriving DecidableEq, Repr

def Reg.callerSaved : Reg → Bool
  | .rax | .rcx | .rdx | .rsi | .rdi | .r8 | .r9 | .r10 | .r11 => true
  | _ => false

inductive CFunction where
  | loadKernelPML4 | taskSwitch | lapicEOI | taskSwitchStage2 | syscallHandler | keyboardDriver
  deriving DecidableEq, Repr

structure Cpu where
  regs : Reg → Word
  rip : Word
  cs : Word
  flags : Word
  ss : Word
  cr3 : Word
  mem : Words

structure Machine where
  cpu : Cpu
  scheduler : Scheduler
  pml4 : Word

/-- What the compiled functions leave in registers and memory that are theirs to change. -/
structure Clobbers where
  left : CFunction → Reg → Word
  scratch : CFunction → Words

def Cpu.registers (c : Cpu) : Registers where
  r15 := c.regs .r15
  r14 := c.regs .r14
  r13 := c.regs .r13
  r12 := c.regs .r12
  r11 := c.regs .r11
  r10 := c.regs .r10
  r9 := c.regs .r9
  r8 := c.regs .r8
  rbp := c.regs .rbp
  rdi := c.regs .rdi
  rsi := c.regs .rsi
  rdx := c.regs .rdx
  rcx := c.regs .rcx
  rbx := c.regs .rbx
  rax := c.regs .rax
  rip := c.rip
  cs := c.cs
  flags := c.flags
  rsp := c.regs .rsp
  ss := c.ss

def Registers.words (r : Registers) : List Word :=
  [r.r15, r.r14, r.r13, r.r12, r.r11, r.r10, r.r9, r.r8, r.rbp, r.rdi, r.rsi, r.rdx, r.rcx, r.rbx, r.rax,
    r.rip, r.cs, r.flags, r.rsp, r.ss]

def Registers.image (m : Words) (a : Word) : Registers :=
  ⟨m a, m (a + 8), m (a + 16), m (a + 24), m (a + 32), m (a + 40), m (a + 48), m (a + 56), m (a + 64), m (a + 72),
    m (a + 80), m (a + 88), m (a + 96), m (a + 104), m (a + 112), m (a + 120), m (a + 128), m (a + 136), m (a + 144),
    m (a + 152)⟩

def Cpu.set (c : Cpu) (r : Reg) (w : Word) : Cpu := { c with regs := Function.update c.regs r w }

def Cpu.push (c : Cpu) (w : Word) : Cpu :=
  { c.set .rsp (c.regs .rsp - 8) with mem := Function.update c.mem (c.regs .rsp - 8) w }

/-- The entry through an interrupt gate: the stack is aligned, the interrupted
state is pushed, and interrupts are off. -/
def Cpu.interrupt (c : Cpu) : Cpu :=
  let aligned := c.set .rsp (c.regs .rsp &&& ~~~0xf)
  let pushed := ((((aligned.push c.ss).push (c.regs .rsp)).push c.flags).push c.cs).push c.rip
  { pushed with flags := c.flags &&& ~~~0x34300 }

/-! ### Instructions -/

inductive Instr where
  | push (r : Reg)
  | pop (r : Reg)
  | mov (dst src : Reg)
  | call (f : CFunction)
  | iretq
  deriving DecidableEq, Repr

/-- What every C function may do, from the call to the instruction after it.
The 20 words from the stack pointer up are its caller's. -/
def Cpu.called (clobbers : Clobbers) (f : CFunction) (c : Cpu) : Cpu :=
  { c with
    regs := fun r => if r.callerSaved then clobbers.left f r else c.regs r
    mem := fun a => if Among a (c.regs .rsp) 20 then c.mem a else clobbers.scratch f a }

def call (fuel : Nat) (clobbers : Clobbers) (f : CFunction) (m : Machine) : Except Stop Machine :=
  let cpu := m.cpu.called clobbers f
  match f with
  | .loadKernelPML4 => .ok { m with cpu := { cpu.set .rdi m.pml4 with cr3 := m.pml4 } }
  | .taskSwitch => do
    let stack := m.cpu.regs .rdi
    let (r, s) ← taskSwitch fuel (.image m.cpu.mem stack) m.scheduler
    return { m with cpu := { cpu with mem := write cpu.mem stack r.words }, scheduler := s }
  | .taskSwitchStage2 =>
    .ok { m with cpu := { cpu with cr3 := ((taskSwitchStage2 m.scheduler).map (.ofNat 64)).getD cpu.cr3 } }
  | .lapicEOI | .syscallHandler | .keyboardDriver => .ok { m with cpu := cpu }

def exec (fuel : Nat) (clobbers : Clobbers) (m : Machine) : Instr → Except Stop Machine
  | .push r => .ok { m with cpu := m.cpu.push (m.cpu.regs r) }
  | .pop r => .ok { m with cpu := (m.cpu.set .rsp (m.cpu.regs .rsp + 8)).set r (m.cpu.mem (m.cpu.regs .rsp)) }
  | .mov dst src => .ok { m with cpu := m.cpu.set dst (m.cpu.regs src) }
  | .call f => call fuel clobbers f m
  | .iretq =>
    let sp := m.cpu.regs .rsp
    .ok { m with cpu := { m.cpu.set .rsp (m.cpu.mem (sp + 24)) with
      rip := m.cpu.mem sp
      cs := m.cpu.mem (sp + 8)
      flags := m.cpu.mem (sp + 16)
      ss := m.cpu.mem (sp + 32) } }

def runStub (fuel : Nat) (clobbers : Clobbers) : List Instr → Machine → Except Stop Machine
  | [], m => .ok m
  | i :: rest, m => do runStub fuel clobbers rest (← exec fuel clobbers m i)

/-! ### The stubs -/

def timerPushes : List Reg :=
  [.rax, .rbx, .rcx, .rdx, .rsi, .rdi, .rbp, .r8, .r9, .r10, .r11, .r12, .r13, .r14, .r15]

def timerPops : List Reg :=
  [.r15, .r14, .r13, .r12, .r11, .r10, .r9, .r8, .rbp, .rdi, .rsi, .rdx, .rcx, .rbx, .rax]

def timerSave : List Instr := [.call .loadKernelPML4] ++ timerPushes.map .push ++ [.mov .rdi .rsp]

def timerStub : List Instr :=
  timerSave ++ [.call .taskSwitch, .call .lapicEOI, .call .taskSwitchStage2] ++ timerPops.map .pop ++ [.iretq]

def syscallPushes : List Reg := [.rax, .rbx, .rcx, .rdx, .rsi, .rdi, .rbp]

def syscallPops : List Reg := [.rbp, .rdi, .rsi, .rdx, .rcx, .rbx, .rax]

def syscallStub : List Instr :=
  [.call .loadKernelPML4] ++ syscallPushes.map .push ++ [.mov .rdi .rsp, .call .syscallHandler, .call .lapicEOI] ++
    syscallPops.map .pop ++ [.iretq]

/-- The compiler saves the registers that the functions called may change. -/
def keyboardPushes : List Reg := [.rax, .rcx, .rdx, .rsi, .rdi, .r8, .r9, .r10, .r11]

/-- `KeyboardHandler`. The scan code is read inline, as the argument of `KeyboardDriver`. -/
def keyboardHandler : List Instr :=
  keyboardPushes.map .push ++ [.call .loadKernelPML4, .call .keyboardDriver, .call .lapicEOI] ++
    keyboardPushes.reverse.map .pop ++ [.iretq]

def timerInterrupt (fuel : Nat) (clobbers : Clobbers) (m : Machine) : Except Stop Machine :=
  runStub fuel clobbers timerStub { m with cpu := m.cpu.interrupt }

def syscallInterrupt (fuel : Nat) (clobbers : Clobbers) (m : Machine) : Except Stop Machine :=
  runStub fuel clobbers syscallStub { m with cpu := m.cpu.interrupt }

def keyboardInterrupt (fuel : Nat) (clobbers : Clobbers) (m : Machine) : Except Stop Machine :=
  runStub fuel clobbers keyboardHandler { m with cpu := m.cpu.interrupt }

end System14
