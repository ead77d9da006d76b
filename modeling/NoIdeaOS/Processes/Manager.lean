import Mathlib.Data.List.Rotate
import NoIdeaOS.Collections.IncrementingPool
import NoIdeaOS.Collections.DynamicBitmap
import NoIdeaOS.Processes.Scheduler

/-!
# The process manager

`processes/mod.rs`: `ProcessesManager` and every operation on it.  Each
method is a function from the manager to `Except Panic` of its result and
the new manager; the kernel is halted by a panic, so a state is only ever
continued from when the method returned `.ok`.

A `&mut Process` borrowed from the manager is a `Place` (the idle process
or a slot of `processes_list`) together with the process read there;
writing the modified process back is `setAt`.  The `VecDeque` methods used
here are the list operations `head?` (`front`), `tail` after a checked
`head?` (`assert_eq!(pop_front(), Some(..))`), `++` (`push_back`, `extend`),
`filter` (`retain`) and `rotate` (`rotate_left`, whose bound check is
`rotateLeft`).

`end_process_with_pid` also unmaps the ended process's stack through
`memory::dealloc_stack`; that effect belongs to the memory subsystem and is
not part of the manager's state.

The reachable states are those produced from `new` (or `newWithOrder`, for
another periodic table) by `Operation`s that do not panic.
-/

namespace NoIdeaOS
namespace Processes

open Fallible Collections

/-- Where a `&mut Process` points. -/
inductive Place
  | idle
  | slot (idx : Nat)
deriving DecidableEq, Repr

/-- `ProcessesManager`. -/
structure ProcessesManager where
  processesList : List (Option Process)
  idleProcess : Process
  scheduler : Scheduler
  currentlyExecutingProcess : Pid
  pidPool : IncrementingPool
  nameRegistry : DynamicBitmap
deriving DecidableEq, Repr

/-- `VecDeque::rotate_left(n)`: panics unless `n ≤ len`. -/
def rotateLeft (q : List Pid) (n : Nat) : Except Panic (List Pid) := do
  check (n ≤ q.length) Panic.rotateLeftTooFar
  pure (q.rotate n)

/-- `Vec::resize(n, v)`. -/
def resize {α : Type} (l : List α) (n : Nat) (v : α) : List α :=
  l.take n ++ List.replicate (n - l.length) v

/-- `iter_mut().find(..)` over the slots: the first slot holding a process
that satisfies `pred`, with its index. -/
def findSlot (pred : Process → Bool) : List (Option Process) → Option (Nat × Process)
  | [] => none
  | none :: rest => (findSlot pred rest).map fun r => (r.1 + 1, r.2)
  | some p :: rest =>
      if pred p then some (0, p) else (findSlot pred rest).map fun r => (r.1 + 1, r.2)

/-- The pids `next_tick_preempt_process` appends to the device queue: the
Device processes, in list order, whose name divides `currentTime`.  The
remainder is taken for every Device, and panics on a zero name. -/
def devicesDue (currentTime : Nat) : List (Option Process) → Except Panic (List Pid)
  | [] => pure []
  | none :: rest => devicesDue currentTime rest
  | some p :: rest =>
      if p.level = .device then do
        check (p.name ≠ 0) Panic.remainderByZero
        let pids ← devicesDue currentTime rest
        pure (if currentTime % p.name = 0 then p.pid :: pids else pids)
      else devicesDue currentTime rest

/-- The periodic table `ProcessesManager::new` gives its scheduler. -/
def periodicOrder : List (Name × Nat) :=
  [(1, 10), (2, 5), (3, 5), (1, 5), (2, 10), (4, 2)]

namespace ProcessesManager

/-- `ProcessesManager::new` with its scheduler built from `order`. -/
def newWithOrder (order : List (Name × Nat)) : Except Panic ProcessesManager := do
  let scheduler ← Scheduler.new order
  pure { processesList := [none, none], currentlyExecutingProcess := 0,
         idleProcess := Process.idle, scheduler, pidPool := IncrementingPool.new 1,
         nameRegistry := DynamicBitmap.new }

/-- `ProcessesManager::new`. -/
def new : Except Panic ProcessesManager :=
  newWithOrder periodicOrder

/-- The manager `ProcessesManager::new` builds. -/
def bootState : ProcessesManager :=
  { processesList := [none, none], currentlyExecutingProcess := 0, idleProcess := Process.idle,
    scheduler := { time := 0, periodicOrder, periodicTime := 10, periodicIndex := 0,
                   periodicYielded := false, deviceQueue := [], sporadicQueue := [] },
    pidPool := IncrementingPool.new 1, nameRegistry := DynamicBitmap.new }

theorem new_eq_ok : new = .ok bootState := rfl

/-- Write a borrowed process back to its place. -/
def setAt (s : ProcessesManager) : Place → Process → ProcessesManager
  | .idle, p => { s with idleProcess := p }
  | .slot i, p => { s with processesList := s.processesList.set i (some p) }

/-- `get_process_mut_with_pid`. -/
def getProcessMutWithPid (s : ProcessesManager) (pid : Pid) : Option (Place × Process) :=
  if pid = 0 then some (.idle, s.idleProcess)
  else (s.processesList[pid - 1]?).join.map fun p => (.slot (pid - 1), p)

/-- `get_process_with_pid`: `pid as usize - 1` underflows on pid 0. -/
def getProcessWithPid (s : ProcessesManager) (pid : Pid) : Except Panic (Option Process) := do
  check (pid ≠ 0) Panic.subtractOverflow
  pure (s.processesList[pid - 1]?).join

/-- `get_current_process_mut`. -/
def getCurrentProcessMut (s : ProcessesManager) : Except Panic (Place × Process) :=
  if s.currentlyExecutingProcess = 0 then .ok (.idle, s.idleProcess)
  else expect (s.getProcessMutWithPid s.currentlyExecutingProcess) Panic.currentProcessMissing

/-- `get_current_process`. -/
def getCurrentProcess (s : ProcessesManager) : Except Panic Process :=
  if s.currentlyExecutingProcess = 0 then .ok s.idleProcess
  else do
    let found ← s.getProcessWithPid s.currentlyExecutingProcess
    expect found (Panic.currentProcessMissingOf s.currentlyExecutingProcess)

/-- `get_process_with_name`. -/
def getProcessWithName (s : ProcessesManager) (name : Name) (periodicOnly : Bool) :
    Option (Place × Process) :=
  (findSlot (fun p => (!periodicOnly || p.level == .periodic) && p.name == name)
      s.processesList).map fun r => (.slot r.1, r.2)

/-- `switch_to_idle`. -/
def switchToIdle (s : ProcessesManager) (setScheduled : Bool) : Except Panic ProcessesManager := do
  let s ← (if setScheduled then do
      let (place, current) ← s.getCurrentProcessMut
      pure (if current.status = .running then
        s.setAt place (current.setProcessStatus .scheduled) else s)
    else pure s)
  let s := { s with currentlyExecutingProcess := 0 }
  pure { s with idleProcess := s.idleProcess.setProcessStatus .running }

/-- `switch_to_device`: run the front of the device queue, if any. -/
def switchToDevice (s : ProcessesManager) : Except Panic (Bool × ProcessesManager) :=
  let oldProcess := s.currentlyExecutingProcess
  match s.scheduler.deviceQueue.head? with
  | none => pure (false, s)
  | some newPid => do
      let (place, newProcess) ←
        expect (s.getProcessMutWithPid newPid) Panic.deviceQueueEntryMissing
      let s := s.setAt place (newProcess.setProcessStatus .running)
      let s := { s with currentlyExecutingProcess := newProcess.pid }
      check (oldProcess ≠ s.currentlyExecutingProcess)
        (Panic.switchToSelf oldProcess s.currentlyExecutingProcess)
      let (oldPlace, old) ← expect (s.getProcessMutWithPid oldProcess) Panic.oldProcessMissing
      pure (true, s.setAt oldPlace (old.setProcessStatus .scheduled))

/-- `switch_to_periodic`: move to the next slot when the current one is
used up, release the previously yielded process, and run the slot's
process unless it has yielded. -/
def switchToPeriodic (s : ProcessesManager) : Except Panic (Bool × ProcessesManager) := do
  let previouslyYielded := s.scheduler.periodicYielded
  let (oldName, _) ← s.scheduler.getCurrentPeriodicEntry
  let ((name, _), scheduler) ← s.scheduler.checkAndChangePeriodic
  let s := { s with scheduler }
  if s.scheduler.periodicYielded then pure (false, s)
  else do
    let s ← (if previouslyYielded then do
        let (place, yielded) ←
          expect (s.getProcessWithName oldName true) Panic.yieldedProcessNotFound
        check (yielded.status = .yielded) Panic.previouslyYieldedNotYielded
        pure (s.setAt place (yielded.setProcessStatus .scheduled))
      else pure s)
    let (_, current) ← s.getCurrentProcessMut
    if current.level = .periodic ∧ current.name = name then
      -- the slot's process is already current: it keeps running unless it yielded
      pure (decide (current.status ≠ .yielded), s)
    else if s.nameRegistry.checkBit name then do
      let (place, current) ← s.getCurrentProcessMut
      let s := s.setAt place (current.setProcessStatus .scheduled)
      let (newPlace, newProcess) ← expect (s.getProcessWithName name true) Panic.processNotFound
      check (newProcess.status = .scheduled) (Panic.newProcessAlreadyRunning newProcess.name)
      let s := s.setAt newPlace (newProcess.setProcessStatus .running)
      pure (true, { s with currentlyExecutingProcess := newProcess.pid })
    else pure (false, s)

/-- `switch_to_sporadic`: run the front of the sporadic queue, if any. -/
def switchToSporadic (s : ProcessesManager) : Except Panic (Bool × ProcessesManager) :=
  match s.scheduler.sporadicQueue.head? with
  | none => pure (false, s)
  | some newPid => do
      let (place, newProcess) ←
        expect (s.getProcessMutWithPid newPid) Panic.sporadicQueueEntryMissing
      let s := s.setAt place (newProcess.setProcessStatus .running)
      if s.currentlyExecutingProcess ≠ newProcess.pid then do
        let (place, current) ← s.getCurrentProcessMut
        let s := if current.status = .running then
          s.setAt place (current.setProcessStatus .scheduled) else s
        pure (true, { s with currentlyExecutingProcess := newProcess.pid })
      else pure (true, s)

/-- `schedule_all_the_stuff`: devices first, then the periodic slot (after
spending one tick of it when `tick`), then sporadic processes, then idle. -/
def scheduleAllTheStuff (s : ProcessesManager) (tick : Bool) : Except Panic ProcessesManager := do
  let (toDevice, s) ← s.switchToDevice
  if toDevice then pure s
  else do
    let s ← (if tick then do
        check (s.scheduler.periodicTime ≠ 0) Panic.subtractOverflow
        pure { s with scheduler.periodicTime := s.scheduler.periodicTime - 1 }
      else pure s)
    let (toPeriodic, s) ← s.switchToPeriodic
    if toPeriodic then pure s
    else do
      let (toSporadic, s) ← s.switchToSporadic
      if toSporadic then pure s else s.switchToIdle true

/-- The part of `create_new_process` after the level check: take a pid,
build the process and store it in its slot, growing the slot vector when
the pid is past its end. -/
def insertNewProcess (s : ProcessesManager) (level : SchedulingLevel) (name : Name) (arg : Int)
    (stack : Option StackBounds) : Except Panic (Except Unit Unit × ProcessesManager) := do
  let (pid, pidPool) := s.pidPool.getFreeElem
  let process ← Process.new pid level name arg stack
  let idx ← process.getIdx
  let processesList := if idx ≥ s.processesList.length then
      resize s.processesList (idx + 1) none
    else s.processesList
  let sporadicQueue := if level = .sporadic then
      s.scheduler.sporadicQueue ++ [process.pid]
    else s.scheduler.sporadicQueue
  let slot ← expect processesList[idx]? (Panic.indexOutOfBounds processesList.length idx)
  check (slot = none) Panic.pidNotEmpty
  pure (.ok (), { s with pidPool, processesList := processesList.set idx (some process),
                         scheduler.sporadicQueue := sporadicQueue })

/-- `create_new_process`, given the result of `Process::new`'s `alloc_stack`. -/
def createNewProcess (s : ProcessesManager) (level : SchedulingLevel) (name : Name) (arg : Int)
    (stack : Option StackBounds) : Except Panic (Except Unit Unit × ProcessesManager) :=
  match level with
  | .device => s.insertNewProcess level name arg stack
  | .periodic =>
      let (changed, nameRegistry) := s.nameRegistry.setBit name
      -- a name that is already taken is refused, leaving the registry as it was
      if !changed then pure (.error (), { s with nameRegistry })
      else do
        check (s.scheduler.periodicOrder.any (fun e => e.1 == name) = true) Panic.nameNotInOrder
        { s with nameRegistry }.insertNewProcess level name arg stack
  | .sporadic => s.insertNewProcess level name arg stack
  | .idle => throw Panic.createIdle

/-- `yield_current_process`: save the stack pointer and give up the CPU
according to the current process's level. -/
def yieldCurrentProcess (s : ProcessesManager) (stackP : VirtAddr) :
    Except Panic (VirtAddr × ProcessesManager) := do
  let (place, current) ← s.getCurrentProcessMut
  let current := current.setStackPos stackP
  let s := s.setAt place current
  let s ← (match current.level with
    | .device => do
        check (s.scheduler.deviceQueue.head? = some current.pid) Panic.deviceNotAtFront
        { s with scheduler.deviceQueue := s.scheduler.deviceQueue.tail }.scheduleAllTheStuff false
    | .periodic => do
        let s := s.setAt place (current.setProcessStatus .yielded)
        let s := { s with scheduler.periodicYielded := true }
        let (toSporadic, s) ← s.switchToSporadic
        if toSporadic then pure s else s.switchToIdle false
    | .sporadic => do
        let s := s.setAt place (current.setProcessStatus .scheduled)
        let sporadicQueue ← rotateLeft s.scheduler.sporadicQueue 1
        let (_, s) ← { s with scheduler.sporadicQueue := sporadicQueue }.switchToSporadic
        pure s
    | .idle => throw Panic.idleYield)
  let p ← s.getCurrentProcess
  pure (p.stackPointer, s)

/-- `end_process_with_pid`: `Err(())` when the slot is already empty. -/
def endProcessWithPid (s : ProcessesManager) (pid : Pid) :
    Except Panic (Except Unit Unit × ProcessesManager) := do
  check (pid ≠ 0) Panic.subtractOverflow
  let slot ← expect s.processesList[pid - 1]?
    (Panic.indexOutOfBounds s.processesList.length (pid - 1))
  match slot with
  | none => pure (.error (), s)
  | some target => do
      let s := { s with processesList := s.processesList.set (pid - 1) none }
      let s ← (match target.level with
        | .device => do
            let s ← (if pid = s.currentlyExecutingProcess then do
                check (s.scheduler.deviceQueue.head? = some target.pid) Panic.deviceNotAtFront
                pure { s with scheduler.deviceQueue := s.scheduler.deviceQueue.tail }
              else pure s)
            -- every copy of the device leaves the queue
            pure { s with scheduler.deviceQueue :=
              s.scheduler.deviceQueue.filter fun c => c != target.pid }
        | .periodic => pure { s with nameRegistry := (s.nameRegistry.clearBit target.name).2 }
        | .sporadic =>
            if pid = s.currentlyExecutingProcess then do
              check (s.scheduler.sporadicQueue.head? = some target.pid) Panic.sporadicNotAtFront
              pure { s with scheduler.sporadicQueue := s.scheduler.sporadicQueue.tail }
            else pure { s with scheduler.sporadicQueue :=
              s.scheduler.sporadicQueue.filter fun c => c != pid }
        | .idle => throw Panic.idleEnd)
      pure (.ok (), { s with pidPool := s.pidPool.returnElem target.pid })

/-- `end_current_process`. -/
def endCurrentProcess (s : ProcessesManager) : Except Panic (VirtAddr × ProcessesManager) := do
  let (_, s) ← s.endProcessWithPid s.currentlyExecutingProcess
  let s ← s.switchToIdle false
  let s ← s.scheduleAllTheStuff true
  let p ← s.getCurrentProcess
  pure (p.stackPointer, s)

/-- `end_all_other_processes`: the pids are collected first, then ended one
by one. -/
def endAllOtherProcesses (s : ProcessesManager) : Except Panic ProcessesManager :=
  let pids := ((s.processesList.filterMap id).map Process.pid).filter
    fun c => c != s.currentlyExecutingProcess
  pids.foldlM (fun s pid => do
    let (_, s) ← s.endProcessWithPid pid
    pure s) s

/-- `next_tick_preempt_process`: the timer tick. -/
def nextTickPreemptProcess (s : ProcessesManager) (stackP : Nat) :
    Except Panic (Option VirtAddr × ProcessesManager) := do
  let s := { s with scheduler.time := s.scheduler.time + 1 }
  let due ← devicesDue s.scheduler.time s.processesList
  let s := { s with scheduler.deviceQueue := s.scheduler.deviceQueue ++ due }
  let (place, current) ← s.getCurrentProcessMut
  check (current.status = .running) (Panic.notRunning current.arg)
  let current := current.setStackPos stackP
  let s := s.setAt place current
  let s ← (match current.level with
    | .device => pure s
    | .periodic | .sporadic | .idle => s.scheduleAllTheStuff true)
  let p ← s.getCurrentProcess
  pure (some p.stackPointer, s)

/-- `unyield_current_periodic`. -/
def unyieldCurrentPeriodic (s : ProcessesManager) : Except Panic ProcessesManager := do
  check (s.scheduler.periodicYielded = true) Panic.unyieldNotYielded
  pure { s with scheduler.periodicYielded := false }

/-- `get_current_scheduling_level`. -/
def getCurrentSchedulingLevel (s : ProcessesManager) : Except Panic SchedulingLevel := do
  let p ← s.getCurrentProcess
  pure p.level

/-- `get_current_process_name`. -/
def getCurrentProcessName (s : ProcessesManager) : Except Panic Name := do
  let p ← s.getCurrentProcess
  pure p.name

/-- `get_scheduled_name`. -/
def getScheduledName (s : ProcessesManager) : Except Panic Name := do
  let entry ← s.scheduler.getCurrentPeriodicEntry
  pure entry.1

end ProcessesManager

/-- The methods of `ProcessesManager` that change it. -/
inductive Operation
  | createNewProcess (level : SchedulingLevel) (name : Name) (arg : Int)
      (stack : Option StackBounds)
  | yieldCurrentProcess (stackP : VirtAddr)
  | endCurrentProcess
  | endAllOtherProcesses
  | nextTickPreemptProcess (stackP : Nat)
  | unyieldCurrentPeriodic
deriving DecidableEq, Repr

namespace ProcessesManager

/-- One operation, its return value dropped. -/
def step (s : ProcessesManager) : Operation → Except Panic ProcessesManager
  | .createNewProcess level name arg stack => do
      let r ← s.createNewProcess level name arg stack
      pure r.2
  | .yieldCurrentProcess stackP => do
      let r ← s.yieldCurrentProcess stackP
      pure r.2
  | .endCurrentProcess => do
      let r ← s.endCurrentProcess
      pure r.2
  | .endAllOtherProcesses => s.endAllOtherProcesses
  | .nextTickPreemptProcess stackP => do
      let r ← s.nextTickPreemptProcess stackP
      pure r.2
  | .unyieldCurrentPeriodic => s.unyieldCurrentPeriodic

/-- A sequence of operations; the first panic ends the run. -/
def run (s : ProcessesManager) : List Operation → Except Panic ProcessesManager
  | [] => pure s
  | op :: ops => do
      let s ← s.step op
      run s ops

/-- The states reached from `init` by operations that do not panic. -/
inductive Reachable (init : ProcessesManager) : ProcessesManager → Prop
  | init : Reachable init init
  | step {s s' : ProcessesManager} {op : Operation} :
      Reachable init s → s.step op = .ok s' → Reachable init s'

/-- A run that does not panic stays among the reachable states. -/
theorem Reachable.run {init s₀ s : ProcessesManager} {ops : List Operation}
    (h₀ : Reachable init s₀) (h : s₀.run ops = .ok s) : Reachable init s := by
  induction ops generalizing s₀ with
  | nil =>
      simp only [ProcessesManager.run, pure_eq_ok, Except.ok.injEq] at h
      exact h ▸ h₀
  | cons op ops ih =>
      obtain ⟨s₁, hstep, hrest⟩ := bind_eq_ok.mp h
      exact ih (.step h₀ hstep) hrest

end ProcessesManager

end Processes
end NoIdeaOS
