import System14.Kernel.State
import System14.Lib.WordStack

/-!
# The scheduler

`scheduler.c` keeps the tasks in a singly linked list behind `prochead`. The
timer interrupt switches between them round-robin; a task that exits or faults
is marked invalid and unlinked at its next tick, by its 8-bit pid.

Frames are modelled as structures behind pointers. What the memory manager hands
over when a task is added (the frame with whatever it contains, the page tables
and the stack) is given with the call.
-/

namespace System14
open WordStack

structure Registers where
  r15 : Word
  r14 : Word
  r13 : Word
  r12 : Word
  r11 : Word
  r10 : Word
  r9 : Word
  r8 : Word
  rbp : Word
  rdi : Word
  rsi : Word
  rdx : Word
  rcx : Word
  rbx : Word
  rax : Word
  rip : Word
  cs : Word
  flags : Word
  rsp : Word
  ss : Word
  deriving DecidableEq, Repr

/-- A `struct ProcessFrame*`: null, the global `prochead`, or memory of the heap. -/
inductive FramePtr where
  | null | prochead | heap (address : Nat)
  deriving DecidableEq, Repr

structure ProcessFrame where
  pid : UInt8
  processName : Vector UInt8 32
  registers : Registers
  quanta : UInt8
  cr3 : Nat
  invalid : Bool
  next : FramePtr

def Registers.zero : Registers := ⟨0, 0, 0, 0, 0, 0, 0, 0, 0, 0, 0, 0, 0, 0, 0, 0, 0, 0, 0, 0⟩

def ProcessFrame.zero : ProcessFrame := ⟨0, Vector.replicate 32 0, .zero, 0, null, false, .null⟩

structure Scheduler where
  highestPid : UInt8
  schedulingStarted : Bool
  current : FramePtr
  frames : FramePtr → ProcessFrame

namespace Scheduler

def next (s : Scheduler) (p : FramePtr) : FramePtr := (s.frames p).next

def deref (s : Scheduler) (p : FramePtr) : Except Stop ProcessFrame :=
  if p = .null then .error .nullDereference else .ok (s.frames p)

def modify (s : Scheduler) (p : FramePtr) (f : ProcessFrame → ProcessFrame) : Except Stop Scheduler :=
  if p = .null then .error .nullDereference
  else .ok { s with frames := Function.update s.frames p (f (s.frames p)) }

end Scheduler

/-! ### Adding tasks -/

/-- What `malloc`, `CreateProcessPML4` and `PageAlloc` return to `IntAddTask`. -/
structure TaskMemory where
  frame : Nat
  contents : ProcessFrame
  createProcessPML4 : Nat → Nat → Bool → Nat
  stack : Nat

/-- `strcpy(frame->processName, name)`. A name of 32 bytes has its terminator in
the byte after the array, the first one of the registers. -/
def ProcessFrame.copyName (frame : ProcessFrame) (name : List UInt8) : ProcessFrame where
  pid := frame.pid
  processName := Vector.ofFn fun i => (name ++ [0]).getD i (frame.processName.get i)
  registers :=
    if name.length = 32 then { frame.registers with r15 := frame.registers.r15 &&& ~~~0xff } else frame.registers
  quanta := frame.quanta
  cr3 := frame.cr3
  invalid := frame.invalid
  next := frame.next

def defaultName : List UInt8 := [0x50, 0x72, 0x6f, 0x63, 0x65, 0x73, 0x73]

def intAddTask (given : TaskMemory) (taskName : List UInt8) (start stop : Nat) (kernel : Bool) (s : Scheduler) :
    Except Stop Scheduler := do
  let frame := FramePtr.heap given.frame
  let s := { s with frames := Function.update s.frames frame given.contents }
  let pid := s.highestPid
  let s := { s with highestPid := s.highestPid + 1 }
  let s ← s.modify frame ({ · with pid := pid })
  let s ← s.modify frame (·.copyName (if taskName.length > 32 then defaultName else taskName))
  let s ← s.modify frame fun f =>
    { f with quanta := 10, registers := { f.registers with cs := 0x08, rip := .ofNat 64 start, ss := 0x10 } }
  let s ← s.modify frame ({ · with cr3 := given.createProcessPML4 start stop kernel })
  let s ← s.modify frame fun f => { f with registers := { f.registers with rsp := .ofNat 64 given.stack, flags := 0x202 } }
  let s ← s.modify frame ({ · with next := s.next .prochead })
  s.modify .prochead ({ · with next := frame })

def addTask (given : TaskMemory) (taskName : List UInt8) (start stop : Nat) (s : Scheduler) : Except Stop Scheduler :=
  intAddTask given taskName start stop false s

def keAddTask (given : TaskMemory) (taskName : List UInt8) (start stop : Nat) (s : Scheduler) : Except Stop Scheduler :=
  intAddTask given taskName start stop true s

/-! ### Removing tasks -/

/-- The loop of `TerminateTask`, from the frame it has come to. The pid is read
before the test for the end of the list. -/
def terminateLoop (pid : UInt8) : Nat → FramePtr → Scheduler → Except Stop Scheduler
  | 0, _, _ => .error .outOfFuel
  | fuel + 1, prevFrame, s => do
    let currentFrame := (← s.deref prevFrame).next
    let frame ← s.deref currentFrame
    if frame.pid = pid then s.modify prevFrame ({ · with next := frame.next })
    else if currentFrame = .null then return s
    else terminateLoop pid fuel currentFrame s

def terminateTask (fuel : Nat) (pid : UInt8) (s : Scheduler) : Except Stop Scheduler := terminateLoop pid fuel .prochead s

/-- `ProcessExit`, up to its endless loop. -/
def processExit (s : Scheduler) : Except Stop Scheduler := s.modify s.current ({ · with invalid := true })

def commonExceptionHandler (exceptionType : String) (s : Scheduler) : Except Stop Scheduler := do
  if s.schedulingStarted then
    if s.current = .null then panic .halts exceptionType
    s.modify s.current ({ · with invalid := true })
  else
    panic .halts exceptionType
    return s

def markSchedulingActive (s : Scheduler) : Scheduler := { s with schedulingStarted := true }

/-! ### Switching tasks -/

def expire (s : Scheduler) : Except Stop Scheduler := do
  let s ← s.modify s.current ({ · with quanta := 10 })
  let next := (← s.deref s.current).next
  return { s with current := if next ≠ .null then next else s.next .prochead }

def rotate (s : Scheduler) : Except Stop (Registers × Scheduler) := do
  let frame ← s.deref s.current
  let s ← (if frame.quanta = 0 then expire s else .ok s)
  let s ← s.modify s.current fun f => { f with quanta := f.quanta - 1 }
  return ((← s.deref s.current).registers, s)

def switchFrom (fuel : Nat) (stack : Registers) (s : Scheduler) : Except Stop (Registers × Scheduler) := do
  let frame ← s.deref s.current
  if frame.invalid then
    let s ← terminateTask fuel frame.pid s
    let next := (← s.deref s.current).next
    let s := if next ≠ .null then { s with current := next } else s
    if s.next .prochead ≠ .null then rotate { s with current := s.next .prochead }
    else return (stack, { s with current := .prochead })
  else rotate s

/-- `TaskSwitch`, on the registers that the stub has pushed. It returns those to pop. -/
def taskSwitch (fuel : Nat) (stack : Registers) (s : Scheduler) : Except Stop (Registers × Scheduler) := do
  if s.current = .null ∨ s.current = .prochead then
    if s.next .prochead ≠ .null then switchFrom fuel stack { s with current := s.next .prochead }
    else return (stack, s)
  else switchFrom fuel stack (← s.modify s.current ({ · with registers := stack }))

def taskSwitchStage2 (s : Scheduler) : Option Nat :=
  if s.current ≠ .null ∧ s.current ≠ .prochead ∧ (s.frames s.current).cr3 ≠ null ∧ (s.frames s.current).quanta ≠ 0 then
    some (s.frames s.current).cr3
  else none

end System14
