import NoIdeaOS.Processes.Operations
import NoIdeaOS.Processes.Invariants

/-!
# Runs that panic

Four of the manager's checks can fail on runs built from its public
operations alone.

* A tick appends every device whose name divides the tick count, also one
  that is running or already queued.  A device that yields while a second
  copy of itself is next in the queue is picked again by
  `switch_to_device`, whose `assert_ne!` fails.
* `end_process_with_pid` (through `end_all_other_processes`) removes a
  periodic process that has yielded, but leaves `periodic_yielded` set.  When
  its slot ends, `switch_to_periodic` looks for it by name and its `expect`
  fails.
* `unyield_current_periodic` clears `periodic_yielded` but leaves the process
  that yielded in status `Yielded`.  When the slot's process is next
  scheduled, `switch_to_periodic` finds it not `Scheduled`.
* `create_new_process` checks names for Periodic processes only, and a
  Device's name is its period: the next tick takes `current_time % name` for
  every Device, which for a Device named 0 is a remainder by zero.

Each general statement is followed by a run from `ProcessesManager::new`
that reaches it.
-/

namespace NoIdeaOS
namespace Processes

open Fallible

namespace ProcessesManager

/-- `switch_to_device` panics when the front of the device queue is the
running process. -/
theorem switchToDevice_eq_error_self {s : ProcessesManager} {d : Pid} {p : Process}
    (hq : s.scheduler.deviceQueue.head? = some d) (hat : s.processAt (placeOf d) = some p)
    (hself : p.pid = s.currentlyExecutingProcess) :
    s.switchToDevice = .error (.switchToSelf p.pid p.pid) := by
  have hmut : s.getProcessMutWithPid d = some (placeOf d, p) := by
    rw [getProcessMutWithPid_eq, hat]
    rfl
  unfold switchToDevice
  rw [hq]
  simp only [hmut, expect_some, ok_bind]
  simp [check, hself]

theorem scheduleAllTheStuff_of_switchToDevice {s : ProcessesManager} {e : Panic} (tick : Bool)
    (h : s.switchToDevice = .error e) : s.scheduleAllTheStuff tick = .error e := by
  simp [scheduleAllTheStuff, h]

/-- A device that yields while the next entry of the device queue is itself
again is rescheduled, and `switch_to_device`'s `assert_ne!` fails. -/
theorem yieldCurrentProcess_device_requeued {s : ProcessesManager} {pl : Place} {p : Process}
    {rest : List Pid} (sp : VirtAddr) (hcur : s.getCurrentProcessMut = .ok (pl, p))
    (hdev : p.level = .device) (hpid : p.pid = s.currentlyExecutingProcess)
    (hq : s.scheduler.deviceQueue = p.pid :: p.pid :: rest) :
    s.yieldCurrentProcess sp = .error (.switchToSelf p.pid p.pid) := by
  obtain ⟨rfl, hat⟩ := getCurrentProcessMut_eq_ok hcur
  have hat₁ := processAt_setAt_self hat (p.setStackPos sp)
  set s₁ := s.setAt (placeOf s.currentlyExecutingProcess) (p.setStackPos sp)
  -- after the front copy is popped, the queue still starts with the device
  have hsw : ({ s₁ with scheduler.deviceQueue := s₁.scheduler.deviceQueue.tail }).switchToDevice =
      .error (.switchToSelf p.pid p.pid) := by
    have h := switchToDevice_eq_error_self
      (s := { s₁ with scheduler.deviceQueue := s₁.scheduler.deviceQueue.tail })
      (d := p.pid) (p := p.setStackPos sp) (by simp [s₁, hq]) (by rw [hpid]; exact hat₁)
      (by simp [s₁, hpid])
    simpa using h
  simp only [s₁, setAt_scheduler, hq] at hsw
  unfold yieldCurrentProcess
  rw [hcur]
  simp only [ok_bind, Process.setStackPos_level, hdev, Process.setStackPos_pid, setAt_scheduler, hq,
    List.head?_cons, check_of, scheduleAllTheStuff_of_switchToDevice false hsw, error_bind]

/-- Device 1 is due at every tick and runs after the first; after the second
it is queued twice.  The state satisfies both invariants, and its yield
panics. -/
theorem yieldCurrentProcess_device_requeued_after_two_ticks :
    ∃ s pl p, bootState.run [.createNewProcess .device 1 0 (some { start := 4096, «end» := 8192 }),
        .nextTickPreemptProcess 100, .nextTickPreemptProcess 200] = .ok s ∧
      StatusInv s ∧ BookkeepingInv s ∧
      s.getCurrentProcessMut = .ok (pl, p) ∧ p.level = .device ∧
      p.pid = s.currentlyExecutingProcess ∧ s.scheduler.deviceQueue = [p.pid, p.pid] ∧
      s.yieldCurrentProcess 300 = .error (.switchToSelf p.pid p.pid) := by
  refine ⟨_, _, _, rfl, by decide, by decide, rfl, rfl, rfl, rfl,
    yieldCurrentProcess_device_requeued 300 rfl rfl rfl rfl⟩

/-- A device of name 1 is due at every tick: the second tick queues it
behind itself, and its yield then panics. -/
theorem device_yield_reschedules_itself :
    bootState.run
      [.createNewProcess .device 1 0 (some { start := 4096, «end» := 8192 }),
       .nextTickPreemptProcess 100, .nextTickPreemptProcess 200, .yieldCurrentProcess 300] =
      .error (.switchToSelf 1 1) := by
  decide

/-- When the slot of a process that yielded ends and no periodic process
has the slot's name any more, `switch_to_periodic` panics. -/
theorem switchToPeriodic_yielded_missing {s : ProcessesManager} {oldName : Name} {t : Nat}
    {e : Name × Nat} (hy : s.scheduler.periodicYielded = true)
    (htime : s.scheduler.periodicTime = 0)
    (hentry : s.scheduler.periodicOrder[s.scheduler.periodicIndex]? = some (oldName, t))
    (hnext : s.scheduler.periodicOrder[(s.scheduler.periodicIndex + 1) %
      s.scheduler.periodicOrder.length]? = some e)
    (hgone : s.getProcessWithName oldName true = none) :
    s.switchToPeriodic = .error .yieldedProcessNotFound := by
  have hlen : s.scheduler.periodicOrder.length ≠ 0 := by
    intro h0
    simp [List.length_eq_zero_iff.mp h0] at hentry
  simp only [getProcessWithName, Bool.not_true, Bool.false_or, Option.map_eq_none_iff] at hgone
  unfold switchToPeriodic
  simp [hy, getProcessWithName, hgone, Scheduler.getCurrentPeriodicEntry, hentry,
    Scheduler.checkAndChangePeriodic, htime, Scheduler.incrementPeriodicIndex, hlen, hnext, check]

/-- With no Device queued, a tick spent at the last unit of a slot whose
process yielded and has since ended panics in `switch_to_periodic`. -/
theorem scheduleAllTheStuff_yielded_missing {s : ProcessesManager} {oldName : Name} {t : Nat}
    {e : Name × Nat} (hq : s.scheduler.deviceQueue = []) (hy : s.scheduler.periodicYielded = true)
    (htime : s.scheduler.periodicTime = 1)
    (hentry : s.scheduler.periodicOrder[s.scheduler.periodicIndex]? = some (oldName, t))
    (hnext : s.scheduler.periodicOrder[(s.scheduler.periodicIndex + 1) %
      s.scheduler.periodicOrder.length]? = some e)
    (hgone : s.getProcessWithName oldName true = none) :
    s.scheduleAllTheStuff true = .error .yieldedProcessNotFound := by
  have hdev : s.switchToDevice = .ok (false, s) := by simp [switchToDevice, hq]
  have hper := switchToPeriodic_yielded_missing
    (s := { s with scheduler.periodicTime := s.scheduler.periodicTime - 1 }) hy (by simp [htime])
    hentry hnext hgone
  dsimp only at hper
  unfold scheduleAllTheStuff
  rw [hdev]
  simp only [ok_bind, Bool.false_eq_true, if_false, if_true,
    check_of _ (show s.scheduler.periodicTime ≠ 0 by omega), pure_bind, hper, error_bind]

/-- At the last tick of a slot whose process yielded and has since ended,
the tick panics in `switch_to_periodic`.  Nothing stops the tick before: the
current process runs and is not a Device, and no Device is due or queued. -/
theorem nextTickPreemptProcess_yielded_missing {s : ProcessesManager} {pl : Place} {cur : Process}
    {oldName : Name} {t : Nat} {e : Name × Nat}
    (hcur : s.getCurrentProcessMut = .ok (pl, cur)) (hrun : cur.status = .running)
    (hlevel : cur.level ≠ .device)
    (hdue : devicesDue (s.scheduler.time + 1) s.processesList = .ok [])
    (hq : s.scheduler.deviceQueue = []) (hy : s.scheduler.periodicYielded = true)
    (htime : s.scheduler.periodicTime = 1)
    (hentry : s.scheduler.periodicOrder[s.scheduler.periodicIndex]? = some (oldName, t))
    (hnext : s.scheduler.periodicOrder[(s.scheduler.periodicIndex + 1) %
      s.scheduler.periodicOrder.length]? = some e)
    (hgone : s.getProcessWithName oldName true = none) (sp : Nat) :
    s.nextTickPreemptProcess sp = .error .yieldedProcessNotFound := by
  have hat := (getCurrentProcessMut_eq_ok hcur).2
  unfold nextTickPreemptProcess
  simp only [hdue, ok_bind]
  -- the tick's writes to the scheduler leave the current process where it was
  rw [show ∀ sch : Scheduler, ({ s with scheduler := sch } : ProcessesManager).getCurrentProcessMut =
    s.getCurrentProcessMut from fun _ => rfl, hcur]
  simp only [ok_bind, hrun, check_of, Process.setStackPos_level]
  cases hl : cur.level with
  | device => exact absurd hl hlevel
  | periodic | sporadic | idle =>
      simp only
      rw [@scheduleAllTheStuff_yielded_missing _ oldName t e ?_ ?_ ?_ ?_ ?_ ?_, error_bind]
      · simpa using hq
      · simpa using hy
      · simpa using htime
      · simpa using hentry
      · simpa using hnext
      · -- the lookup by name reads the slots only, where the current process is as it was
        refine getProcessWithName_setAt ?_ (Process.setStackPos_level cur sp)
          (Process.setStackPos_name cur sp) ?_
        · exact hat
        · exact hgone

/-- The run of `ended_yielded_process_not_found` one tick before its end:
both invariants hold, and the tick panics. -/
theorem nextTickPreemptProcess_yielded_missing_after_endAll :
    ∃ s pl cur, bootState.run
        ([.createNewProcess .periodic 1 0 (some { start := 4096, «end» := 8192 }),
          .createNewProcess .sporadic 7 0 (some { start := 4096, «end» := 8192 }),
          .nextTickPreemptProcess 100, .yieldCurrentProcess 200, .endAllOtherProcesses] ++
          List.replicate 8 (.nextTickPreemptProcess 500)) = .ok s ∧
      StatusInv s ∧ BookkeepingInv s ∧
      s.getCurrentProcessMut = .ok (pl, cur) ∧ cur.status = .running ∧ cur.level ≠ .device ∧
      devicesDue (s.scheduler.time + 1) s.processesList = .ok [] ∧
      s.scheduler.deviceQueue = [] ∧ s.scheduler.periodicYielded = true ∧
      s.scheduler.periodicTime = 1 ∧
      s.scheduler.periodicOrder[s.scheduler.periodicIndex]? = some (1, 10) ∧
      s.scheduler.periodicOrder[(s.scheduler.periodicIndex + 1) %
        s.scheduler.periodicOrder.length]? = some (2, 5) ∧
      s.getProcessWithName 1 true = none ∧
      s.nextTickPreemptProcess 500 = .error .yieldedProcessNotFound := by
  refine ⟨_, _, _, rfl, by decide, by decide, rfl, rfl, by decide, rfl, rfl, rfl, rfl, rfl, rfl, rfl,
    nextTickPreemptProcess_yielded_missing rfl rfl (by decide) rfl rfl rfl rfl rfl rfl rfl 500⟩

/-- Periodic process 1 yields to sporadic process 7, which then ends every
other process; when slot 1 runs out, its yielded process is missing. -/
theorem ended_yielded_process_not_found :
    bootState.run
      ([.createNewProcess .periodic 1 0 (some { start := 4096, «end» := 8192 }),
        .createNewProcess .sporadic 7 0 (some { start := 4096, «end» := 8192 }),
        .nextTickPreemptProcess 100, .yieldCurrentProcess 200, .endAllOtherProcesses] ++
        List.replicate 9 (.nextTickPreemptProcess 500)) =
      .error .yieldedProcessNotFound := by
  decide

/-- `unyield_current_periodic` breaks clause (b) whenever a process has
yielded: the flag is cleared and the status is not. -/
theorem unyieldCurrentPeriodic_breaks_yielded {s s' : ProcessesManager} {pl : Place}
    {p : Process} (hs : s.unyieldCurrentPeriodic = .ok s') (hp : s.processAt pl = some p)
    (hy : p.status = .yielded) : ¬ YieldedIffSlotYielded s' := by
  simp only [unyieldCurrentPeriodic, bind_eq_ok, check_eq_ok, pure_eq_ok, Except.ok.injEq] at hs
  obtain ⟨_, -, rfl⟩ := hs
  intro hinv
  have hflag := ((hinv pl p hp).mp hy).2.1
  exact Bool.false_ne_true hflag

/-- Periodic process 1 yields to sporadic process 7 and the flag is cleared
by `unyield_current_periodic`; at the next tick slot 1's process is found
`Yielded` instead of `Scheduled`. -/
theorem unyielded_process_already_running :
    bootState.run
      [.createNewProcess .periodic 1 0 (some { start := 4096, «end» := 8192 }),
       .createNewProcess .sporadic 7 0 (some { start := 4096, «end» := 8192 }),
       .nextTickPreemptProcess 100, .yieldCurrentProcess 200, .unyieldCurrentPeriodic,
       .yieldCurrentProcess 300, .nextTickPreemptProcess 400] =
      .error (.newProcessAlreadyRunning 1) := by
  decide

/-- The due devices are computed over every live Device, so one named 0
makes the remainder panic, wherever it stands. -/
theorem devicesDue_eq_error {t : Nat} {l : List (Option Process)} {p : Process}
    (hp : some p ∈ l) (hdev : p.level = .device) (hname : p.name = 0) :
    devicesDue t l = .error .remainderByZero := by
  induction l with
  | nil => simp at hp
  | cons x rest ih =>
      rcases List.mem_cons.mp hp with rfl | hmem
      · simp [devicesDue, hdev, hname, check]
      · have hrest := ih hmem
        cases x with
        | none => exact hrest
        | some q =>
            simp only [devicesDue]
            split
            · -- a Device before it: its own check, then the rest of the list
              by_cases hq : q.name = 0
              · simp [hq, check]
              · simp [hq, check, hrest]
            · exact hrest

/-- While a Device named 0 is live, every tick panics. -/
theorem nextTickPreemptProcess_zero_named_device {s : ProcessesManager} {p : Process}
    (hp : some p ∈ s.processesList) (hdev : p.level = .device) (hname : p.name = 0) (sp : Nat) :
    s.nextTickPreemptProcess sp = .error .remainderByZero := by
  simp [nextTickPreemptProcess, devicesDue_eq_error hp hdev hname]

/-- `create_new_process` accepts a Device named 0 in every state, and the
tick after it panics. -/
theorem device_named_zero_breaks_tick {s s' : ProcessesManager} {arg : Int}
    {stack : Option StackBounds} {res : Except Unit Unit}
    (h : s.createNewProcess .device 0 arg stack = .ok (res, s')) (sp : Nat) :
    s'.nextTickPreemptProcess sp = .error .remainderByZero := by
  rcases createNewProcess_eq_ok h with ⟨hlevel, -⟩ | ⟨-, reg, -, hreg, hins⟩
  · cases hlevel
  · obtain ⟨p, hnew, hpid, -, hat, -⟩ := insertNewProcess_eq_ok hins
    -- the new Device sits in the slot of its pid
    have hslot : s'.processAt (placeOf p.pid) = some p := by rw [hat, if_pos rfl]
    simp only [placeOf, hpid, if_false, processAt, Option.join_eq_some_iff] at hslot
    obtain ⟨-, bounds, -, rfl⟩ := Process.new_eq_ok hnew
    exact nextTickPreemptProcess_zero_named_device (List.mem_of_getElem? hslot) rfl rfl sp

theorem device_named_zero_breaks_tick_at_boot :
    ∃ s', bootState.createNewProcess .device 0 0 (some { start := 4096, «end» := 8192 }) =
        .ok (.ok (), s') ∧ s'.nextTickPreemptProcess 100 = .error .remainderByZero := by
  obtain ⟨s', h⟩ : ∃ s', bootState.createNewProcess .device 0 0
      (some { start := 4096, «end» := 8192 }) = .ok (.ok (), s') := ⟨_, rfl⟩
  exact ⟨s', h, device_named_zero_breaks_tick h 100⟩

end ProcessesManager

end Processes
end NoIdeaOS
