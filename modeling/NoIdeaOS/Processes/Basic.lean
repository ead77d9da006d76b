import NoIdeaOS.Lib.Fallible

/-!
# Processes: basic types

`processes/mod.rs` (the type aliases and `SchedulingLevel`) and
`processes/process.rs` (`ProcessStatus`, `Process`).

Pids and names are `u64` and times `usize`; they are `Nat`.  A pid or a
time would wrap only after `2 ^ 64` creations or ticks, and a name is
whatever the caller passes.  The bounds of a stack are the addresses
`alloc_stack` returned; `Memory.Stacks` models the wrapping `u64` counter
behind them and what `VirtAddr::new` does with it.  A `VirtAddr` is the
address it wraps: the stack pointers handed to the scheduler are the ones
the CPU pushed, which are canonical, so `VirtAddr::new` is the identity on
them.

`Process::new` allocates the stack with `alloc_stack` and builds a fake
interrupt frame with `asm_fake_register` (`setup_process_stack.s`).  The
stack allocator belongs to the memory subsystem, so its result is an input
here (`none` when it failed and `unwrap` panics); the assembly routine pushes
21 quadwords below the end of the stack and returns the new stack pointer,
and only that return value is modelled.

Every panic the process subsystem can raise is a constructor of `Panic`;
`Panic.message` is the text the source gives it.  For `assert_eq!` and
`assert_ne!` the text is the custom message (or, where there is none, the
standard one), not the printed operands.
-/

namespace NoIdeaOS
namespace Processes

open Fallible

/-- `pub type Pid = u64`. -/
abbrev Pid := Nat

/-- `pub type Name = u64`. -/
abbrev Name := Nat

/-- A virtual address (`x86_64::VirtAddr`). -/
abbrev VirtAddr := Nat

/-- `SchedulingLevel`. -/
inductive SchedulingLevel
  | device
  | periodic
  | sporadic
  | idle
deriving DecidableEq, Repr

/-- `ProcessStatus`. -/
inductive ProcessStatus
  | yielded
  | running
  | scheduled
deriving DecidableEq, Repr

/-- `memory::StackBounds`: the mapped stack is `[start, end)`. -/
structure StackBounds where
  start : VirtAddr
  «end» : VirtAddr
deriving DecidableEq, Repr

/-- `StackBounds::zero`. -/
def StackBounds.zero : StackBounds :=
  { start := 0, «end» := 0 }

/-- The panics of `processes/`, one per `panic!`, `assert!`, `expect`,
`unwrap`, index and arithmetic check that the modelled code can reach. -/
inductive Panic
  | createIdle
  | nameNotInOrder
  | pidNotEmpty
  | newIdle
  | allocStackFailed
  | deviceNotAtFront
  | sporadicNotAtFront
  | idleYield
  | idleEnd
  | notRunning (arg : Int)
  | deviceQueueEntryMissing
  | switchToSelf (left right : Pid)
  | oldProcessMissing
  | yieldedProcessNotFound
  | previouslyYieldedNotYielded
  | processNotFound
  | newProcessAlreadyRunning (name : Name)
  | sporadicQueueEntryMissing
  | currentProcessMissing
  | currentProcessMissingOf (pid : Pid)
  | unyieldNotYielded
  | rotateLeftTooFar
  | subtractOverflow
  | remainderByZero
  | indexOutOfBounds (len index : Nat)
deriving DecidableEq, Repr

/-- The text each panic prints. -/
def Panic.message : Panic → String
  | .createIdle => "You can't just go create a Idle process"
  | .nameNotInOrder => "Name not inside Periodic order"
  | .pidNotEmpty => "PID of new process is not empty"
  | .newIdle => "Please use idle() to create idle process"
  | .allocStackFailed => "called Result::unwrap() on an Err value"
  | .deviceNotAtFront => "Currently executing device not in the front of device queue?"
  | .sporadicNotAtFront => "Currently executing sporadic not in the front of sporadic queue?"
  | .idleYield => "Why is the idle process yielding?!?!"
  | .idleEnd => "The idle processes can't just end!?"
  | .notRunning arg => s!"Currently running process {arg} is not running??"
  | .deviceQueueEntryMissing =>
      "No entry with pid in process list, PID from device queue, possibly caused by duplicate entries"
  | .switchToSelf left right => s!"assertion failed: (left != right) left: {left} right: {right}"
  | .oldProcessMissing => "Old process doesn't exist"
  | .yieldedProcessNotFound => "Yielded process not found"
  | .previouslyYieldedNotYielded =>
      "Previously yielded but not yielded process status, this might be correct (but rare) behaviour though"
  | .processNotFound => "Process not found"
  | .newProcessAlreadyRunning name => s!"New process was already running: {name}"
  | .sporadicQueueEntryMissing =>
      "No entry with pid in process list, PID from sporadic queue, possibly caused by duplicate entries"
  | .currentProcessMissing =>
      "Current process is None, someone forgot to change process number when terminating"
  | .currentProcessMissingOf pid =>
      s!"Current process is None, someone forgot to change process number when terminating {pid}"
  | .unyieldNotYielded =>
      "I'm not actually sure this assert should be true, so just remove it if it's giving trouble"
  | .rotateLeftTooFar => "assertion failed: n <= self.len()"
  | .subtractOverflow => "attempt to subtract with overflow"
  | .remainderByZero => "attempt to calculate the remainder with a divisor of zero"
  | .indexOutOfBounds len index => s!"index out of bounds: the len is {len} but the index is {index}"

/-- `Process`: the process control block. -/
structure Process where
  pid : Pid
  level : SchedulingLevel
  status : ProcessStatus
  name : Name
  stackBounds : StackBounds
  stackPointer : VirtAddr
  arg : Int
deriving DecidableEq, Repr

namespace Process

/-- `asm_fake_register(new_stack_addr, …)`: the stack pointer after the
terminate address, the five words of the fake interrupt frame and fifteen
register slots have been pushed below `new_stack_addr`. -/
def asmFakeRegister (newStackAddr : VirtAddr) : VirtAddr :=
  newStackAddr - 21 * 8

/-- `Process::new`, given the result of its `alloc_stack` call. -/
def new (pid : Pid) (level : SchedulingLevel) (name : Name) (arg : Int)
    (stack : Option StackBounds) : Except Panic Process := do
  check (level ≠ .idle) Panic.newIdle
  let stackBounds ← expect stack Panic.allocStackFailed
  pure { pid, level, status := .scheduled, stackBounds,
         stackPointer := asmFakeRegister stackBounds.«end», name, arg }

/-- `Process::idle`. -/
def idle : Process :=
  { pid := 0, level := .idle, status := .running, stackBounds := StackBounds.zero,
    stackPointer := 0, name := 0, arg := 0 }

/-- `Process::get_idx`: `pid as usize - 1`. -/
def getIdx (p : Process) : Except Panic Nat := do
  check (p.pid ≠ 0) Panic.subtractOverflow
  pure (p.pid - 1)

/-- `Process::set_stack_pos`. -/
def setStackPos (p : Process) (newStackPtr : VirtAddr) : Process :=
  { p with stackPointer := newStackPtr }

/-- `Process::set_process_status`. -/
def setProcessStatus (p : Process) (newStatus : ProcessStatus) : Process :=
  { p with status := newStatus }

/-- What `Process::new` builds: a scheduled process whose stack pointer is
the fake interrupt frame below the end of its stack. -/
theorem new_eq_ok {pid : Pid} {level : SchedulingLevel} {name : Name} {arg : Int}
    {stack : Option StackBounds} {p : Process} (h : new pid level name arg stack = .ok p) :
    level ≠ .idle ∧ ∃ bounds, stack = some bounds ∧
      p = { pid, level, status := .scheduled, stackBounds := bounds,
            stackPointer := asmFakeRegister bounds.«end», name, arg } := by
  simp only [new, bind_eq_ok, check_eq_ok, expect_eq_ok, pure_eq_ok, Except.ok.injEq] at h
  obtain ⟨_, hlevel, bounds, hstack, rfl⟩ := h
  exact ⟨hlevel, bounds, hstack, rfl⟩

theorem getIdx_eq_ok {p : Process} {i : Nat} (h : p.getIdx = .ok i) : p.pid ≠ 0 ∧ i = p.pid - 1 := by
  simp only [getIdx, bind_eq_ok, check_eq_ok, pure_eq_ok, Except.ok.injEq] at h
  obtain ⟨_, hpid, rfl⟩ := h
  exact ⟨hpid, rfl⟩

@[simp] theorem setStackPos_pid (p : Process) (sp : VirtAddr) : (p.setStackPos sp).pid = p.pid := rfl
@[simp] theorem setStackPos_level (p : Process) (sp : VirtAddr) :
    (p.setStackPos sp).level = p.level := rfl
@[simp] theorem setStackPos_name (p : Process) (sp : VirtAddr) : (p.setStackPos sp).name = p.name := rfl
@[simp] theorem setStackPos_status (p : Process) (sp : VirtAddr) :
    (p.setStackPos sp).status = p.status := rfl
@[simp] theorem setStackPos_stackPointer (p : Process) (sp : VirtAddr) :
    (p.setStackPos sp).stackPointer = sp := rfl
@[simp] theorem setProcessStatus_pid (p : Process) (st : ProcessStatus) :
    (p.setProcessStatus st).pid = p.pid := rfl
@[simp] theorem setProcessStatus_level (p : Process) (st : ProcessStatus) :
    (p.setProcessStatus st).level = p.level := rfl
@[simp] theorem setProcessStatus_name (p : Process) (st : ProcessStatus) :
    (p.setProcessStatus st).name = p.name := rfl
@[simp] theorem setProcessStatus_status (p : Process) (st : ProcessStatus) :
    (p.setProcessStatus st).status = st := rfl
@[simp] theorem setProcessStatus_stackPointer (p : Process) (st : ProcessStatus) :
    (p.setProcessStatus st).stackPointer = p.stackPointer := rfl

end Process

end Processes
end NoIdeaOS
