import NoIdeaOS.Processes.Operations
import NoIdeaOS.Processes.Invariants

/-!
# The process table over whole runs

`ProcessesManager` keeps its bookkeeping in six places: the slots of
`processes_list`, the pid pool, the current pid, the device and sporadic
queues and the name registry.  This module states how they agree and shows
that every operation that returns keeps the agreement, so that it holds in
every state a run of the manager reaches.

The bookkeeping reads three things of a process: its pid, its level and its
name, together its `key`; statuses and stack pointers play no part in it.
`Holds s pid level name` says that a slot holds a process with that key.
The invariant comes in three layers:

* `Books`: slot `i` holds the process of pid `i + 1`, never an Idle one; the
  pids the pool has in use are exactly the live ones; the sporadic queue
  holds each live Sporadic pid once and nothing else; the device queue holds
  live Devices only; the registry marks exactly the names of the live
  Periodic processes, and no two of them share a name.
* `Booked`: the books, and a current pid that is 0 (the idle process) or live.
* `TableInv`: in addition, the device queue is non-empty exactly while a
  Device is current, and the current Device is at its front; a current
  Sporadic process is at the front of the sporadic queue.

The scheduling helpers only touch statuses, the current pid and the slot
fields, so they keep `Books` (`Books.of_frame`); `schedule_all_the_stuff`
turns `Books` into `TableInv`, whichever of its four outcomes it reaches
(`Books.scheduleAllTheStuff`).  Every operation is then its own
bookkeeping followed, where the source does so, by one rescheduling.

Last, the table invariant implies `BookkeepingInv`, the bookkeeping as
`Invariants` states it clause by clause over the manager's lists
(`TableInv.bookkeepingInv`), which therefore holds on every run.
-/

namespace NoIdeaOS
namespace Processes

open Fallible Collections

/-- The pid, level and name of a process: all that the bookkeeping reads of it. -/
def Process.key (p : Process) : Pid × SchedulingLevel × Name :=
  (p.pid, p.level, p.name)

@[simp] theorem Process.key_setProcessStatus (p : Process) (st : ProcessStatus) :
    (p.setProcessStatus st).key = p.key := rfl

@[simp] theorem Process.key_setStackPos (p : Process) (sp : VirtAddr) :
    (p.setStackPos sp).key = p.key := rfl

@[simp] theorem Process.key_eraseStatus (p : Process) : p.eraseStatus.key = p.key := rfl

namespace Scheduler

@[simp] theorem spendTick_deviceQueue (sch : Scheduler) (tick : Bool) :
    (sch.spendTick tick).deviceQueue = sch.deviceQueue := by
  cases tick <;> rfl

@[simp] theorem spendTick_sporadicQueue (sch : Scheduler) (tick : Bool) :
    (sch.spendTick tick).sporadicQueue = sch.sporadicQueue := by
  cases tick <;> rfl

/-- `check_and_change_periodic` leaves both queues alone. -/
theorem queues_checkAndChangePeriodic {sch sch' : Scheduler} {name : Name} {changed : Bool}
    (h : sch.checkAndChangePeriodic = .ok ((name, changed), sch')) :
    sch'.deviceQueue = sch.deviceQueue ∧ sch'.sporadicQueue = sch.sporadicQueue := by
  rcases checkAndChangePeriodic_eq_ok h with ⟨-, -, rfl, -⟩ | ⟨-, -, -, hsch, -⟩
  · exact ⟨rfl, rfl⟩
  · rw [hsch]
    exact ⟨rfl, rfl⟩

end Scheduler

namespace ProcessesManager

/-- The key of the process in slot `i`, if there is one. -/
def keyAt (s : ProcessesManager) (i : Nat) : Option (Pid × SchedulingLevel × Name) :=
  (s.processAt (.slot i)).map Process.key

/-- Some slot holds a process with this pid, level and name. -/
def Holds (s : ProcessesManager) (pid : Pid) (level : SchedulingLevel) (name : Name) : Prop :=
  ∃ i, s.keyAt i = some (pid, level, name)

/-- The slots, the pid pool, the queues and the registry agree. -/
structure Books (s : ProcessesManager) : Prop where
  /-- slot `i` holds the process of pid `i + 1`, which is not Idle -/
  keyAt_eq : ∀ i pid level name, s.keyAt i = some (pid, level, name) →
    pid = i + 1 ∧ level ≠ .idle
  idle_level : s.idleProcess.level = .idle
  /-- the pool hands out pids from 1 on -/
  pool_valid : s.pidPool.Valid 1
  pool_start : 1 ≤ s.pidPool.currentMax
  /-- the pids the pool has in use are those of the live processes -/
  inUse_iff : ∀ pid, s.pidPool.inUse 1 pid ↔ ∃ level name, s.Holds pid level name
  sporadic_nodup : s.scheduler.sporadicQueue.Nodup
  mem_sporadic : ∀ pid, pid ∈ s.scheduler.sporadicQueue ↔ ∃ name, s.Holds pid .sporadic name
  device_live : ∀ pid ∈ s.scheduler.deviceQueue, ∃ name, s.Holds pid .device name
  registry : ∀ name, s.nameRegistry.checkBit name = true ↔ ∃ pid, s.Holds pid .periodic name
  names_apart : ∀ pid pid' name, s.Holds pid .periodic name → s.Holds pid' .periodic name →
    pid = pid'

/-- The books, and a current pid that is the idle process's or a live one. -/
structure Booked (s : ProcessesManager) : Prop extends Books s where
  current_live : s.currentlyExecutingProcess = 0 ∨
    ∃ level name, s.Holds s.currentlyExecutingProcess level name

/-- The invariant of every run: the books, the current pid, and the fronts
of both queues. -/
structure TableInv (s : ProcessesManager) : Prop extends Booked s where
  device_front : ∀ d, s.scheduler.deviceQueue.head? = some d → d = s.currentlyExecutingProcess
  device_current : ∀ name, s.Holds s.currentlyExecutingProcess .device name →
    s.scheduler.deviceQueue ≠ []
  sporadic_front : ∀ name, s.Holds s.currentlyExecutingProcess .sporadic name →
    s.scheduler.sporadicQueue.head? = some s.currentlyExecutingProcess

/-! ## Keys and live pids -/

section Keys

variable {s s' : ProcessesManager}

theorem keyAt_eq_some {i : Nat} {k : Pid × SchedulingLevel × Name} :
    s.keyAt i = some k ↔ ∃ p, s.processAt (.slot i) = some p ∧ p.key = k :=
  Option.map_eq_some_iff

/-- Two states with the same keys have the same live processes. -/
theorem holds_eq_of_keyAt (hk : ∀ i, s'.keyAt i = s.keyAt i) : s'.Holds = s.Holds := by
  funext pid level name
  simp only [Holds, hk]

/-- A rescheduling keeps every key. -/
theorem Reschedules.keyAt (h : Reschedules s s') (i : Nat) : s'.keyAt i = s.keyAt i := by
  have hmap := congrArg (Option.map Process.key) (h.processAt_map (.slot i))
  simpa only [ProcessesManager.keyAt, Option.map_map, Function.comp_def,
    Process.key_eraseStatus] using hmap

theorem Reschedules.idle_level (h : Reschedules s s') :
    s'.idleProcess.level = s.idleProcess.level := by
  simpa using congrArg Process.level h.idle

/-- Writing back a process under the same key keeps every key. -/
theorem keyAt_setAt {pl : Place} {p q : Process} (hat : s.processAt pl = some p)
    (hq : q.key = p.key) (i : Nat) : (s.setAt pl q).keyAt i = s.keyAt i := by
  simp only [ProcessesManager.keyAt, processAt_setAt hat]
  split
  · next heq => rw [← heq] at hat; rw [hat, Option.map_some, Option.map_some, hq]
  · rfl

theorem idleProcess_setAt_level {pl : Place} {p q : Process} (hat : s.processAt pl = some p)
    (hq : q.key = p.key) : (s.setAt pl q).idleProcess.level = s.idleProcess.level := by
  cases pl with
  | idle =>
      simp only [processAt, Option.some.injEq] at hat
      subst hat
      exact congrArg (fun k => k.2.1) hq
  | slot i => rfl

end Keys

section Books

variable {s s' : ProcessesManager} {pid : Pid} {level : SchedulingLevel} {name : Name}

/-- A live pid sits in the slot below it. -/
theorem Books.holds_iff (h : Books s) :
    s.Holds pid level name ↔ pid ≠ 0 ∧ s.keyAt (pid - 1) = some (pid, level, name) := by
  constructor
  · rintro ⟨i, hi⟩
    obtain ⟨rfl, -⟩ := h.keyAt_eq i _ _ _ hi
    exact ⟨Nat.succ_ne_zero i, by simpa using hi⟩
  · rintro ⟨-, hk⟩
    exact ⟨_, hk⟩

theorem Books.pid_ne_zero (h : Books s) (hh : s.Holds pid level name) : pid ≠ 0 :=
  (h.holds_iff.mp hh).1

/-- A pid is live at one level and under one name. -/
theorem Books.holds_unique (h : Books s) {level' : SchedulingLevel} {name' : Name}
    (h₁ : s.Holds pid level name) (h₂ : s.Holds pid level' name') :
    level = level' ∧ name = name' := by
  have hk := (h.holds_iff.mp h₁).2.symm.trans (h.holds_iff.mp h₂).2
  simpa using hk

/-- The process of a live pid is where `get_process_mut_with_pid` looks. -/
theorem Books.processAt_placeOf (h : Books s) (hh : s.Holds pid level name) :
    ∃ p, s.processAt (placeOf pid) = some p ∧ p.key = (pid, level, name) := by
  obtain ⟨hpid, hk⟩ := h.holds_iff.mp hh
  simpa [placeOf, hpid] using keyAt_eq_some.mp hk

/-- A process that is not Idle, wherever it is found, is live under its own key. -/
theorem Books.holds_of_processAt (h : Books s) {pl : Place} {p : Process}
    (hat : s.processAt pl = some p) (hl : p.level ≠ .idle) : s.Holds p.pid p.level p.name := by
  cases pl with
  | idle =>
      simp only [processAt, Option.some.injEq] at hat
      exact absurd (hat ▸ h.idle_level) hl
  | slot i => exact ⟨i, by simp [ProcessesManager.keyAt, hat, Process.key]⟩

/-- The process at the place of a non-zero pid carries that pid. -/
theorem Books.pid_of_processAt (h : Books s) {p : Process} (hpid : pid ≠ 0)
    (hat : s.processAt (placeOf pid) = some p) : p.pid = pid := by
  have hk : s.keyAt (pid - 1) = some (p.pid, p.level, p.name) := by
    simp only [placeOf, hpid, if_false] at hat
    simp [ProcessesManager.keyAt, hat, Process.key]
  rw [(h.keyAt_eq _ _ _ _ hk).1]
  exact Nat.sub_add_cancel (Nat.one_le_iff_ne_zero.mpr hpid)

/-- The books only read keys, the pool, the registry and the queues: with
the same keys, pool and registry, a reordered sporadic queue and a device
queue of live Devices keep them. -/
theorem Books.of_frame (h : Books s) (hk : ∀ i, s'.keyAt i = s.keyAt i)
    (hidle : s'.idleProcess.level = s.idleProcess.level) (hpool : s'.pidPool = s.pidPool)
    (hreg : s'.nameRegistry = s.nameRegistry)
    (hsp : s'.scheduler.sporadicQueue.Perm s.scheduler.sporadicQueue)
    (hdev : ∀ d ∈ s'.scheduler.deviceQueue, ∃ name, s.Holds d .device name) : Books s' := by
  have hh := holds_eq_of_keyAt hk
  constructor
  · intro i pid level name hi
    exact h.keyAt_eq i pid level name (hk i ▸ hi)
  · rw [hidle]; exact h.idle_level
  · rw [hpool]; exact h.pool_valid
  · rw [hpool]; exact h.pool_start
  · intro pid; rw [hpool, hh]; exact h.inUse_iff pid
  · exact hsp.nodup_iff.mpr h.sporadic_nodup
  · intro pid; rw [hsp.mem_iff, hh]; exact h.mem_sporadic pid
  · intro pid hd; rw [hh]; exact hdev pid hd
  · intro name; rw [hreg, hh]; exact h.registry name
  · rw [hh]; exact h.names_apart

/-- A change that keeps the keys, the pool, the registry and both queues
keeps the books. -/
theorem Books.of_same (h : Books s) (hk : ∀ i, s'.keyAt i = s.keyAt i)
    (hidle : s'.idleProcess.level = s.idleProcess.level) (hpool : s'.pidPool = s.pidPool)
    (hreg : s'.nameRegistry = s.nameRegistry)
    (hdq : s'.scheduler.deviceQueue = s.scheduler.deviceQueue)
    (hsq : s'.scheduler.sporadicQueue = s.scheduler.sporadicQueue) : Books s' :=
  h.of_frame hk hidle hpool hreg (hsq ▸ .refl _) fun d hd => h.device_live d (hdq ▸ hd)

/-- The invariant reads the keys, the idle process's level, the pool, the
registry, the current pid and the queues, and nothing else. -/
theorem TableInv.of_same (h : TableInv s) (hk : ∀ i, s'.keyAt i = s.keyAt i)
    (hidle : s'.idleProcess.level = s.idleProcess.level) (hpool : s'.pidPool = s.pidPool)
    (hreg : s'.nameRegistry = s.nameRegistry)
    (hcur : s'.currentlyExecutingProcess = s.currentlyExecutingProcess)
    (hdq : s'.scheduler.deviceQueue = s.scheduler.deviceQueue)
    (hsq : s'.scheduler.sporadicQueue = s.scheduler.sporadicQueue) : TableInv s' := by
  have hh := holds_eq_of_keyAt hk
  refine ⟨⟨h.toBooks.of_same hk hidle hpool hreg hdq hsq, ?_⟩, ?_, ?_, ?_⟩
  · rw [hcur, hh]
    exact h.current_live
  · rw [hcur, hdq]
    exact h.device_front
  · rw [hcur, hdq, hh]
    exact h.device_current
  · rw [hcur, hsq, hh]
    exact h.sporadic_front

/-- A rescheduling that leaves both queues alone keeps the books. -/
theorem Books.of_reschedules (h : Books s) (hr : Reschedules s s')
    (hdq : s'.scheduler.deviceQueue = s.scheduler.deviceQueue)
    (hsq : s'.scheduler.sporadicQueue = s.scheduler.sporadicQueue) : Books s' :=
  h.of_same hr.keyAt hr.idle_level hr.pidPool hr.nameRegistry hdq hsq

/-- Writing a process back under its key keeps the books. -/
theorem Books.setAt (h : Books s) {pl : Place} {p q : Process} (hat : s.processAt pl = some p)
    (hq : q.key = p.key) : Books (s.setAt pl q) :=
  h.of_same (keyAt_setAt hat hq) (idleProcess_setAt_level hat hq) (setAt_pidPool _ _ _)
    (setAt_nameRegistry _ _ _) (by simp) (by simp)

/-- A process that is not Idle at the current pid's place is live under the current pid. -/
theorem Books.holds_current (h : Books s) {p : Process}
    (hat : s.processAt (placeOf s.currentlyExecutingProcess) = some p) (hl : p.level ≠ .idle) :
    p.pid = s.currentlyExecutingProcess ∧ s.Holds s.currentlyExecutingProcess p.level p.name := by
  have hne : s.currentlyExecutingProcess ≠ 0 := by
    intro h0
    rw [h0, placeOf, if_pos rfl, processAt, Option.some.injEq] at hat
    exact hl (hat ▸ h.idle_level)
  have hpid := h.pid_of_processAt hne hat
  exact ⟨hpid, hpid ▸ h.holds_of_processAt hat hl⟩

/-! ### Who runs decides the fronts -/

/-- With the idle process current and no device queued, the fronts hold. -/
theorem TableInv.of_idle (h : Books s) (hc : s.currentlyExecutingProcess = 0)
    (hq : s.scheduler.deviceQueue = []) : TableInv s where
  toBooks := h
  current_live := .inl hc
  device_front := by simp [hq]
  device_current := fun _ hh => absurd hc (h.pid_ne_zero hh)
  sporadic_front := fun _ hh => absurd hc (h.pid_ne_zero hh)

/-- A Device current at the front of the device queue. -/
theorem TableInv.of_device (h : Books s)
    (hq : s.scheduler.deviceQueue.head? = some s.currentlyExecutingProcess)
    (hh : s.Holds s.currentlyExecutingProcess .device name) : TableInv s where
  toBooks := h
  current_live := .inr ⟨_, _, hh⟩
  device_front := fun _ hd => by rw [hq] at hd; exact (Option.some.inj hd).symm
  device_current := fun _ _ hnil => by simp [hnil] at hq
  sporadic_front := fun _ hs => absurd (h.holds_unique hh hs).1 (by decide)

/-- A Periodic process current, with no device queued. -/
theorem TableInv.of_periodic (h : Books s) (hq : s.scheduler.deviceQueue = [])
    (hh : s.Holds s.currentlyExecutingProcess .periodic name) : TableInv s where
  toBooks := h
  current_live := .inr ⟨_, _, hh⟩
  device_front := by simp [hq]
  device_current := fun _ hd => absurd (h.holds_unique hh hd).1 (by decide)
  sporadic_front := fun _ hs => absurd (h.holds_unique hh hs).1 (by decide)

/-- A Sporadic process current at the front of its queue, with no device queued. -/
theorem TableInv.of_sporadic (h : Books s) (hq : s.scheduler.deviceQueue = [])
    (hfront : s.scheduler.sporadicQueue.head? = some s.currentlyExecutingProcess)
    (hh : s.Holds s.currentlyExecutingProcess .sporadic name) : TableInv s where
  toBooks := h
  current_live := .inr ⟨_, _, hh⟩
  device_front := by simp [hq]
  device_current := fun _ hd => absurd (h.holds_unique hh hd).1 (by decide)
  sporadic_front := fun _ _ => hfront

/-! ### The scheduling helpers -/

theorem Books.spendTick (h : Books s) (tick : Bool) :
    Books { s with scheduler := s.scheduler.spendTick tick } :=
  h.of_same (fun _ => rfl) rfl rfl rfl (Scheduler.spendTick_deviceQueue _ _)
    (Scheduler.spendTick_sporadicQueue _ _)

theorem Books.switchToIdle (h : Books s) {b : Bool} (hs : s.switchToIdle b = .ok s') :
    Books s' ∧ s'.currentlyExecutingProcess = 0 ∧ s'.scheduler = s.scheduler := by
  obtain ⟨hr, hsch, hcur⟩ := switchToIdle_eq_ok hs
  exact ⟨h.of_reschedules hr (by rw [hsch]) (by rw [hsch]), hcur, hsch⟩

/-- The device switch either finds the device queue empty or runs its front. -/
theorem Books.switchToDevice (h : Books s) {b : Bool} (hs : s.switchToDevice = .ok (b, s')) :
    (b = false → s' = s ∧ s.scheduler.deviceQueue = []) ∧ (b = true → TableInv s') := by
  obtain ⟨hr, hsch, hfalse, htrue⟩ := switchToDevice_eq_ok hs
  refine ⟨fun hb => ⟨(hfalse hb).2, (hfalse hb).1⟩, fun hb => ?_⟩
  obtain ⟨d, p, hq, hat, hcur, -⟩ := htrue hb
  obtain ⟨name, hd⟩ := h.device_live d (List.mem_of_mem_head? hq)
  have hpid : p.pid = d := h.pid_of_processAt (h.pid_ne_zero hd) hat
  have hh : s'.Holds s'.currentlyExecutingProcess .device name := by
    rw [holds_eq_of_keyAt hr.keyAt, hcur, hpid]
    exact hd
  refine TableInv.of_device (h.of_reschedules hr (by rw [hsch]) (by rw [hsch])) ?_ hh
  rw [hsch, hcur, hpid]
  exact hq

/-- The sporadic switch either finds its queue empty or runs its front. -/
theorem Books.switchToSporadic (h : Books s) {b : Bool} (hs : s.switchToSporadic = .ok (b, s')) :
    Books s' ∧ s'.scheduler = s.scheduler ∧
      (b = false → s.scheduler.sporadicQueue = [] ∧ s' = s) ∧
      (b = true → s.scheduler.deviceQueue = [] → TableInv s') := by
  obtain ⟨hr, hsch, hfalse, htrue⟩ := switchToSporadic_eq_ok hs
  have hb' : Books s' := h.of_reschedules hr (by rw [hsch]) (by rw [hsch])
  refine ⟨hb', hsch, hfalse, fun hb hq => ?_⟩
  obtain ⟨q, p, hfront, hat, hcur⟩ := htrue hb
  obtain ⟨name, hsq⟩ := (h.mem_sporadic q).mp (List.mem_of_mem_head? hfront)
  have hpid : p.pid = q := h.pid_of_processAt (h.pid_ne_zero hsq) hat
  have hh : s'.Holds s'.currentlyExecutingProcess .sporadic name := by
    rw [holds_eq_of_keyAt hr.keyAt, hcur, hpid]
    exact hsq
  refine TableInv.of_sporadic hb' (by rw [hsch]; exact hq) ?_ hh
  rw [hsch, hcur, hpid]
  exact hfront

/-- The periodic switch keeps the books and both queues; the current pid
stays or becomes a live Periodic one, and it is a live Periodic one whenever
the switch reports success. -/
theorem Books.switchToPeriodic (h : Books s) {b : Bool} (hs : s.switchToPeriodic = .ok (b, s')) :
    Books s' ∧ s'.scheduler.deviceQueue = s.scheduler.deviceQueue ∧
      s'.scheduler.sporadicQueue = s.scheduler.sporadicQueue ∧
      (s'.currentlyExecutingProcess = s.currentlyExecutingProcess ∨
        ∃ name, s'.Holds s'.currentlyExecutingProcess .periodic name) ∧
      (b = true → ∃ name, s'.Holds s'.currentlyExecutingProcess .periodic name) := by
  obtain ⟨name, changed, hcc, hr, hcur⟩ := switchToPeriodic_eq_ok hs
  obtain ⟨hdq, hsq⟩ := Scheduler.queues_checkAndChangePeriodic hcc
  have hb' : Books s' := h.of_reschedules hr hdq hsq
  -- a Periodic process, wherever it is found, is live under its own pid
  have hper : ∀ pl p, s'.processAt pl = some p → p.level = .periodic →
      s'.Holds p.pid .periodic p.name := by
    intro pl p hat hl
    have hh := hb'.holds_of_processAt hat (by rw [hl]; decide)
    rwa [hl] at hh
  refine ⟨hb', hdq, hsq, ?_, fun hb => ?_⟩
  · rcases hcur with ⟨hc, -⟩ | ⟨pl, p, hat, hl, -, hc⟩
    · exact .inl hc
    · exact .inr ⟨p.name, hc ▸ hper pl p hat hl⟩
  · rcases hcur with ⟨-, hfast⟩ | ⟨pl, p, hat, hl, -, hc⟩
    · -- the fast path: the current process is Periodic, so it is not the idle one
      obtain ⟨p, hat, hl⟩ := hfast hb
      exact ⟨p.name, hl ▸ (hb'.holds_current hat (by rw [hl]; decide)).2⟩
    · exact ⟨p.name, hc ▸ hper pl p hat hl⟩

/-- Whichever way `schedule_all_the_stuff` ends, the books hold after it
together with the fronts of both queues. -/
theorem Books.scheduleAllTheStuff (h : Books s) {tick : Bool}
    (hs : s.scheduleAllTheStuff tick = .ok s') : TableInv s' := by
  rcases scheduleAllTheStuff_cases hs with
    hdev | ⟨hq, -, hper | ⟨s₃, hper, hspo | ⟨s₄, hspo, hidle⟩⟩⟩
  · exact (h.switchToDevice hdev).2 rfl
  all_goals
    have hq₂ : (s.scheduler.spendTick tick).deviceQueue = [] := by
      rw [Scheduler.spendTick_deviceQueue, hq]
  · -- a Periodic process runs
    obtain ⟨hb, hdq, -, -, htrue⟩ := (h.spendTick tick).switchToPeriodic hper
    obtain ⟨name, hh⟩ := htrue rfl
    exact TableInv.of_periodic hb (hdq.trans hq₂) hh
  · -- the front of the sporadic queue runs
    obtain ⟨hb₃, hdq₃, -, -, -⟩ := (h.spendTick tick).switchToPeriodic hper
    exact (hb₃.switchToSporadic hspo).2.2.2 rfl (hdq₃.trans hq₂)
  · -- the idle process runs
    obtain ⟨hb₃, hdq₃, -, -, -⟩ := (h.spendTick tick).switchToPeriodic hper
    obtain ⟨hb₄, hsch₄, -, -⟩ := hb₃.switchToSporadic hspo
    obtain ⟨hb', hcur, hsch'⟩ := hb₄.switchToIdle hidle
    refine TableInv.of_idle hb' hcur ?_
    rw [hsch', hsch₄, hdq₃, hq₂]

end Books

/-! ## Creating a process -/

section Create

variable {s s' : ProcessesManager}

/-- The keys after a process is stored in the slot of its pid. -/
theorem keyAt_of_insert {p : Process} (hpid : p.pid ≠ 0)
    (hat : ∀ pl, s'.processAt pl = if pl = placeOf p.pid then some p else s.processAt pl)
    (i : Nat) : s'.keyAt i = if i = p.pid - 1 then some p.key else s.keyAt i := by
  simp only [ProcessesManager.keyAt, hat, placeOf, if_neg hpid, Place.slot.injEq]
  split <;> rfl

/-- Storing a process in the empty slot of its pid adds its key to the live ones. -/
theorem holds_of_insert {p : Process} (hpid : p.pid ≠ 0)
    (hfree : s.processAt (placeOf p.pid) = none)
    (hat : ∀ pl, s'.processAt pl = if pl = placeOf p.pid then some p else s.processAt pl)
    {pid : Pid} {level : SchedulingLevel} {name : Name} :
    s'.Holds pid level name ↔ (pid, level, name) = p.key ∨ s.Holds pid level name := by
  have hk := keyAt_of_insert hpid hat
  constructor
  · rintro ⟨i, hi⟩
    rw [hk] at hi
    split at hi
    · exact .inl (Option.some.inj hi).symm
    · exact .inr ⟨i, hi⟩
  · rintro (hp | ⟨i, hi⟩)
    · exact ⟨p.pid - 1, by rw [hk, if_pos rfl, hp]⟩
    · refine ⟨i, ?_⟩
      rw [hk, if_neg]
      · exact hi
      · -- the slot of the new pid was empty
        rintro rfl
        simp only [placeOf, hpid, if_false] at hfree
        simp [ProcessesManager.keyAt, hfree] at hi

/-- `create_new_process` keeps the invariant: the new process takes the
pool's next pid, whose slot is empty, and the registry and the sporadic
queue learn of it as its level asks. -/
theorem TableInv.createNewProcess (h : TableInv s) {level : SchedulingLevel} {name : Name}
    {arg : Int} {stack : Option StackBounds} {res : Except Unit Unit}
    (hs : s.createNewProcess level name arg stack = .ok (res, s')) : TableInv s' := by
  rcases createNewProcess_eq_ok hs with ⟨-, -, -, rfl⟩ | ⟨-, reg, hper, hnper, hins⟩
  · exact h
  obtain ⟨p, hnew, hpid, hfree, hat, hidle, hcur, hpool, hreg, hsch⟩ := insertNewProcess_eq_ok hins
  obtain ⟨hlevel, bounds, -, rfl⟩ := Process.new_eq_ok hnew
  set x := s.pidPool.getFreeElem.1
  -- the pool hands out a pid that is not in use, so no process has it
  have hfresh : ∀ l n, ¬ s.Holds x l n := fun l n hx =>
    IncrementingPool.getFreeElem_not_inUse 1 s.pidPool ((h.inUse_iff x).mpr ⟨l, n, hx⟩)
  have hcurx : s.currentlyExecutingProcess ≠ x := by
    rcases h.current_live with h0 | ⟨l, n, hl⟩
    · rw [h0]
      exact Ne.symm hpid
    · exact fun he => hfresh l n (he ▸ hl)
  have hh : ∀ {y l n}, s'.Holds y l n ↔ (y = x ∧ l = level ∧ n = name) ∨ s.Holds y l n := by
    intro y l n
    rw [holds_of_insert (s := s) hpid hfree hat]
    simp [Process.key]
  have hdq : s'.scheduler.deviceQueue = s.scheduler.deviceQueue := by rw [hsch]
  have hsq : s'.scheduler.sporadicQueue = if level = .sporadic then
      s.scheduler.sporadicQueue ++ [x] else s.scheduler.sporadicQueue := by rw [hsch]
  have hbooks : Books s' := by
    have hv := IncrementingPool.getFreeElem_valid h.pool_valid h.pool_start
    constructor
    · intro i y l n hi
      rw [keyAt_of_insert hpid hat] at hi
      split at hi
      · next hix =>
          simp only [Process.key, Option.some.injEq, Prod.mk.injEq] at hi
          obtain ⟨rfl, rfl, rfl⟩ := hi
          exact ⟨by rw [hix]; exact (Nat.sub_add_cancel (Nat.one_le_iff_ne_zero.mpr hpid)).symm,
            hlevel⟩
      · exact h.keyAt_eq i y l n hi
    · rw [hidle]
      exact h.idle_level
    · rw [hpool]
      exact hv.1
    · rw [hpool]
      exact hv.2
    · intro y
      rw [hpool, IncrementingPool.inUse_getFreeElem h.pool_valid h.pool_start, h.inUse_iff]
      simp only [hh]
      constructor
      · rintro (rfl | ⟨l, n, hy⟩)
        · exact ⟨level, name, .inl ⟨rfl, rfl, rfl⟩⟩
        · exact ⟨l, n, .inr hy⟩
      · rintro ⟨l, n, ⟨rfl, -, -⟩ | hy⟩
        · exact .inl rfl
        · exact .inr ⟨l, n, hy⟩
    · rw [hsq]
      split
      · -- the new pid joins the back of the queue, where it was not
        refine List.nodup_append.mpr ⟨h.sporadic_nodup, List.nodup_singleton x, ?_⟩
        intro a ha b hb
        rw [List.mem_singleton] at hb
        subst hb
        obtain ⟨n, hn⟩ := (h.mem_sporadic a).mp ha
        exact fun he => hfresh _ _ (he ▸ hn)
      · exact h.sporadic_nodup
    · intro y
      rw [hsq]
      split
      · next hsp =>
          subst hsp
          simp only [List.mem_append, List.mem_singleton, h.mem_sporadic, hh]
          constructor
          · rintro (⟨n, hn⟩ | rfl)
            · exact ⟨n, .inr hn⟩
            · exact ⟨name, .inl ⟨rfl, trivial, rfl⟩⟩
          · rintro ⟨n, ⟨rfl, -, -⟩ | hn⟩
            · exact .inr rfl
            · exact .inl ⟨n, hn⟩
      · next hsp =>
          rw [h.mem_sporadic]
          simp only [hh]
          constructor
          · rintro ⟨n, hn⟩
            exact ⟨n, .inr hn⟩
          · rintro ⟨n, ⟨-, hl, -⟩ | hn⟩
            · exact absurd hl.symm hsp
            · exact ⟨n, hn⟩
    · intro y hy
      rw [hdq] at hy
      obtain ⟨n, hn⟩ := h.device_live y hy
      exact ⟨n, hh.mpr (.inr hn)⟩
    · intro n
      simp only [hh]
      by_cases hlp : level = .periodic
      · obtain ⟨-, hreg', -⟩ := hper hlp
        rw [hreg, show ({ s with nameRegistry := reg } : ProcessesManager).nameRegistry = reg from rfl,
          hreg', DynamicBitmap.checkBit_setBit, Bool.or_eq_true, decide_eq_true_eq, h.registry]
        constructor
        · rintro (rfl | ⟨pid, hp⟩)
          · exact ⟨x, .inl ⟨rfl, hlp.symm, rfl⟩⟩
          · exact ⟨pid, .inr hp⟩
        · rintro ⟨pid, ⟨-, -, rfl⟩ | hp⟩
          · exact .inl rfl
          · exact .inr ⟨pid, hp⟩
      · rw [hreg, show ({ s with nameRegistry := reg } : ProcessesManager).nameRegistry = reg from rfl,
          hnper hlp, h.registry]
        constructor
        · rintro ⟨pid, hp⟩
          exact ⟨pid, .inr hp⟩
        · rintro ⟨pid, ⟨-, hl, -⟩ | hp⟩
          · exact absurd hl.symm hlp
          · exact ⟨pid, hp⟩
    · -- a new Periodic name was free, so it is no other live process's
      have hnew : ∀ pid, level = .periodic → ¬ s.Holds pid .periodic name := fun pid hlp hp =>
        absurd ((h.registry name).mpr ⟨pid, hp⟩) (by simp [(hper hlp).1])
      intro pid pid' n hp hp'
      rcases hh.mp hp with ⟨rfl, hl, hn⟩ | hp <;> rcases hh.mp hp' with ⟨rfl, hl', hn'⟩ | hp'
      · rfl
      · exact absurd (hn ▸ hp') (hnew pid' hl.symm)
      · exact absurd (hn' ▸ hp) (hnew pid hl'.symm)
      · exact h.names_apart pid pid' n hp hp'
  -- the current process and the fronts are as they were
  have hcurold : ∀ {l n}, s'.Holds s'.currentlyExecutingProcess l n →
      s.Holds s.currentlyExecutingProcess l n := by
    intro l n hl
    rw [hcur] at hl
    rcases hh.mp hl with ⟨he, -, -⟩ | hl
    · exact absurd he hcurx
    · exact hl
  refine ⟨⟨hbooks, ?_⟩, ?_, ?_, ?_⟩
  · rcases h.current_live with h0 | ⟨l, n, hl⟩
    · exact .inl (hcur.trans h0)
    · exact .inr ⟨l, n, by rw [hcur]; exact hh.mpr (.inr hl)⟩
  · rw [hdq, hcur]
    exact h.device_front
  · intro n hn
    rw [hdq]
    exact h.device_current n (hcurold hn)
  · intro n hn
    have hfront := h.sporadic_front n (hcurold hn)
    rw [hsq, hcur]
    split
    · rw [List.head?_append, hfront]
      rfl
    · exact hfront

end Create

/-! ## Ending a process -/

section End

variable {s s' : ProcessesManager}

/-- The front of a list survives a filter that keeps it. -/
theorem head?_filter_of_head? {α : Type} {p : α → Bool} {l : List α} {a : α}
    (h : l.head? = some a) (hp : p a = true) : (l.filter p).head? = some a := by
  cases l with
  | nil => cases h
  | cons b t =>
      simp only [List.head?_cons, Option.some.injEq] at h
      subst h
      simp [hp]

/-- Removing the live process of `pid` from its slot, the pool and both
queues keeps the books, when the registry then marks exactly the names of
the other live Periodic processes. -/
theorem Books.remove (h : Books s) {pid : Pid} {level : SchedulingLevel} {name : Name}
    (hlive : s.Holds pid level name)
    (hk : ∀ i, s'.keyAt i = if i = pid - 1 then none else s.keyAt i)
    (hidle : s'.idleProcess.level = s.idleProcess.level)
    (hpool : s'.pidPool = s.pidPool.returnElem pid)
    (hdq : s'.scheduler.deviceQueue = s.scheduler.deviceQueue.filter (fun c => c != pid))
    (hsq : s'.scheduler.sporadicQueue = s.scheduler.sporadicQueue.filter (fun c => c != pid))
    (hreg : ∀ n, s'.nameRegistry.checkBit n = true ↔
      ∃ pid', pid' ≠ pid ∧ s.Holds pid' .periodic n) :
    Books s' ∧ ∀ {y l n}, s'.Holds y l n ↔ y ≠ pid ∧ s.Holds y l n := by
  have hpid := h.pid_ne_zero hlive
  -- a key that is left was a key before, in another slot than `pid`'s
  have hh : ∀ {y l n}, s'.Holds y l n ↔ y ≠ pid ∧ s.Holds y l n := by
    intro y l n
    constructor
    · rintro ⟨i, hi⟩
      rw [hk] at hi
      split at hi
      · cases hi
      · next hne =>
          refine ⟨fun hy => hne ?_, i, hi⟩
          rw [← hy, (h.keyAt_eq i y l n hi).1, Nat.add_sub_cancel]
    · rintro ⟨hne, i, hi⟩
      refine ⟨i, ?_⟩
      rw [hk, if_neg]
      · exact hi
      · intro hi'
        apply hne
        rw [(h.keyAt_eq i y l n hi).1, hi', Nat.sub_add_cancel (Nat.one_le_iff_ne_zero.mpr hpid)]
  refine ⟨?_, hh⟩
  constructor
  · intro i y l n hi
    rw [hk] at hi
    split at hi
    · cases hi
    · exact h.keyAt_eq i y l n hi
  · rw [hidle]
    exact h.idle_level
  · rw [hpool]
    exact IncrementingPool.returnElem_valid h.pool_valid ((h.inUse_iff pid).mpr ⟨_, _, hlive⟩)
  · rw [hpool, IncrementingPool.returnElem_currentMax]
    exact h.pool_start
  · intro y
    rw [hpool, IncrementingPool.inUse_returnElem, h.inUse_iff]
    simp only [hh]
    constructor
    · rintro ⟨hne, l, n, hy⟩
      exact ⟨l, n, hne, hy⟩
    · rintro ⟨l, n, hne, hy⟩
      exact ⟨hne, l, n, hy⟩
  · rw [hsq]
    exact h.sporadic_nodup.filter _
  · intro y
    rw [hsq, List.mem_filter, h.mem_sporadic]
    simp only [hh, bne_iff_ne, ne_eq]
    constructor
    · rintro ⟨⟨n, hy⟩, hne⟩
      exact ⟨n, hne, hy⟩
    · rintro ⟨n, hne, hy⟩
      exact ⟨⟨n, hy⟩, hne⟩
  · intro y hy
    rw [hdq, List.mem_filter, bne_iff_ne] at hy
    obtain ⟨n, hn⟩ := h.device_live y hy.1
    exact ⟨n, hh.mpr ⟨hy.2, hn⟩⟩
  · intro n
    rw [hreg]
    simp only [hh]
  · intro y y' n hy hy'
    exact h.names_apart y y' n (hh.mp hy).2 (hh.mp hy').2

/-- A pid that is in no entry of a queue is filtered out of it for nothing. -/
theorem filter_bne_of_not_mem {l : List Pid} {pid : Pid} (h : pid ∉ l) :
    l.filter (fun c => c != pid) = l :=
  List.filter_eq_self.mpr fun _ hc => bne_iff_ne.mpr fun he => h (he ▸ hc)

/-- Popping the front of a queue and then filtering it out is filtering it out. -/
theorem filter_tail_of_head? {l : List Pid} {pid : Pid} (h : l.head? = some pid) :
    l.tail.filter (fun c => c != pid) = l.filter (fun c => c != pid) := by
  cases l with
  | nil => cases h
  | cons c t =>
      simp only [List.head?_cons, Option.some.injEq] at h
      subst h
      simp

/-- In a queue without duplicates, popping the front is filtering it out. -/
theorem tail_eq_filter_of_head? {l : List Pid} {pid : Pid} (hnd : l.Nodup)
    (h : l.head? = some pid) : l.tail = l.filter (fun c => c != pid) := by
  cases l with
  | nil => cases h
  | cons c t =>
      simp only [List.head?_cons, Option.some.injEq] at h
      subst h
      rw [List.tail_cons, List.filter_cons_of_neg (by simp),
        filter_bne_of_not_mem (List.nodup_cons.mp hnd).1]

theorem Books.not_mem_deviceQueue (h : Books s) {pid : Pid} {level : SchedulingLevel}
    {name : Name} (hl : s.Holds pid level name) (hne : level ≠ .device) :
    pid ∉ s.scheduler.deviceQueue := fun hd =>
  (h.device_live pid hd).elim fun _ hd => hne (h.holds_unique hl hd).1

theorem Books.not_mem_sporadicQueue (h : Books s) {pid : Pid} {level : SchedulingLevel}
    {name : Name} (hl : s.Holds pid level name) (hne : level ≠ .sporadic) :
    pid ∉ s.scheduler.sporadicQueue := fun hq =>
  ((h.mem_sporadic pid).mp hq).elim fun _ hq => hne (h.holds_unique hl hq).1

/-- `end_process_with_pid` keeps the books.  It takes the pid out of the
slots, the pool's in-use pids and both queues: a Device or a Sporadic
process leaves every copy of itself in its own queue (the front pop of the
current one is part of that), and a queue without the pid is left alone. -/
theorem Books.endProcessWithPid (h : Books s) {pid : Pid} {res : Except Unit Unit}
    (hs : s.endProcessWithPid pid = .ok (res, s')) :
    Books s' ∧ (∀ {y l n}, s'.Holds y l n ↔ y ≠ pid ∧ s.Holds y l n) ∧
      s'.currentlyExecutingProcess = s.currentlyExecutingProcess ∧
      s'.scheduler.deviceQueue = s.scheduler.deviceQueue.filter (fun c => c != pid) ∧
      s'.scheduler.sporadicQueue = s.scheduler.sporadicQueue.filter (fun c => c != pid) := by
  obtain ⟨hpid, hlt, hcases⟩ := endProcessWithPid_cases hs
  rcases hcases with ⟨hnone, hs'⟩ | ⟨target, hslot, hnidle, dq, sq, reg, hs', hdev, hper, hspo⟩
  · -- an empty slot: nothing changes, and no process has the pid
    subst s'
    have hdead : ∀ l n, ¬ s.Holds pid l n := by
      intro l n hl
      have hk := (h.holds_iff.mp hl).2
      simp [ProcessesManager.keyAt, processAt, hnone] at hk
    have hdq : pid ∉ s.scheduler.deviceQueue := fun hd =>
      (h.device_live pid hd).elim fun n hn => hdead _ n hn
    have hsq : pid ∉ s.scheduler.sporadicQueue := fun hq =>
      ((h.mem_sporadic pid).mp hq).elim fun n hn => hdead _ n hn
    refine ⟨h, fun {y l n} => ⟨fun hy => ⟨fun he => hdead l n (he ▸ hy), hy⟩, And.right⟩, rfl,
      (filter_bne_of_not_mem hdq).symm, (filter_bne_of_not_mem hsq).symm⟩
  · -- the slot held `target`, the process of `pid`
    have hkey : s.keyAt (pid - 1) = some target.key := by
      simp [ProcessesManager.keyAt, processAt, hslot]
    have htpid : target.pid = pid := by
      rw [(h.keyAt_eq _ _ _ _ hkey).1, Nat.sub_add_cancel (Nat.one_le_iff_ne_zero.mpr hpid)]
    have hlive : s.Holds pid target.level target.name := ⟨pid - 1, by rw [hkey, Process.key, htpid]⟩
    have hl : s'.processesList = s.processesList.set (pid - 1) none := by rw [hs']
    have hi : s'.idleProcess = s.idleProcess := by rw [hs']
    have hk : ∀ i, s'.keyAt i = if i = pid - 1 then none else s.keyAt i := by
      intro i
      simp only [ProcessesManager.keyAt, processAt_of_set_none hl hlt hi, Place.slot.injEq]
      split <;> rfl
    -- the device queue loses the pid: its own copies, or none it had
    have hdq : dq = s.scheduler.deviceQueue.filter (fun c => c != pid) := by
      by_cases hl : target.level = .device
      · obtain ⟨hfront, hdq, -, -⟩ := hdev hl
        rw [hdq, htpid]
        split
        · next hcur => exact filter_tail_of_head? (htpid ▸ hfront hcur)
        · rfl
      · have hother : dq = s.scheduler.deviceQueue := by
          cases hlv : target.level with
          | device => exact absurd hlv hl
          | periodic => exact (hper hlv).1
          | sporadic => exact (hspo hlv).1
          | idle => exact absurd hlv hnidle
        rw [hother, filter_bne_of_not_mem (h.not_mem_deviceQueue hlive hl)]
    have hsq : sq = s.scheduler.sporadicQueue.filter (fun c => c != pid) := by
      by_cases hl : target.level = .sporadic
      · obtain ⟨-, -, hcur, hother⟩ := hspo hl
        by_cases hc : pid = s.currentlyExecutingProcess
        · obtain ⟨hfront, hsq⟩ := hcur hc
          rw [hsq, tail_eq_filter_of_head? h.sporadic_nodup (htpid ▸ hfront)]
        · exact hother hc
      · have hother : sq = s.scheduler.sporadicQueue := by
          cases hlv : target.level with
          | device => exact (hdev hlv).2.2.1
          | periodic => exact (hper hlv).2.1
          | sporadic => exact absurd hlv hl
          | idle => exact absurd hlv hnidle
        rw [hother, filter_bne_of_not_mem (h.not_mem_sporadicQueue hlive hl)]
    -- the registry drops the name of a Periodic process, and only that one
    have hreg : ∀ n, reg.checkBit n = true ↔ ∃ pid', pid' ≠ pid ∧ s.Holds pid' .periodic n := by
      intro n
      by_cases hl : target.level = .periodic
      · rw [(hper hl).2.2, DynamicBitmap.checkBit_clearBit, Bool.and_eq_true, Bool.not_eq_true',
          decide_eq_false_iff_not, h.registry]
        rw [hl] at hlive
        constructor
        · rintro ⟨hne, pid', hp⟩
          exact ⟨pid', fun he => hne (h.holds_unique (he ▸ hp) hlive).2, hp⟩
        · rintro ⟨pid', hne, hp⟩
          exact ⟨fun he => hne (h.names_apart pid' pid n hp (he ▸ hlive)), pid', hp⟩
      · have hother : reg = s.nameRegistry := by
          cases hlv : target.level with
          | device => exact (hdev hlv).2.2.2
          | periodic => exact absurd hlv hl
          | sporadic => exact (hspo hlv).2.1
          | idle => exact absurd hlv hnidle
        rw [hother, h.registry]
        constructor
        · rintro ⟨pid', hp⟩
          exact ⟨pid', fun he => hl (h.holds_unique hlive (he ▸ hp)).1, hp⟩
        · rintro ⟨pid', -, hp⟩
          exact ⟨pid', hp⟩
    obtain ⟨hb, hh⟩ := h.remove hlive hk (by rw [hs']) (by rw [hs', htpid]) (by rw [hs', hdq])
      (by rw [hs', hsq]) (by rw [hs']; exact hreg)
    exact ⟨hb, hh, by rw [hs'], by rw [hs', hdq], by rw [hs', hsq]⟩

/-- Ending a process other than the current one keeps the invariant: the
fronts of both queues are the current process's and are not filtered out. -/
theorem TableInv.endProcessWithPid_of_ne (h : TableInv s) {pid : Pid} {res : Except Unit Unit}
    (hne : pid ≠ s.currentlyExecutingProcess) (hs : s.endProcessWithPid pid = .ok (res, s')) :
    TableInv s' := by
  obtain ⟨hb, hh, hcur, hdq, hsq⟩ := h.toBooks.endProcessWithPid hs
  have hkeep : ∀ {l n}, s'.Holds s'.currentlyExecutingProcess l n ↔
      s.Holds s.currentlyExecutingProcess l n := by
    intro l n
    rw [hh, hcur]
    exact ⟨And.right, fun hl => ⟨Ne.symm hne, hl⟩⟩
  have hbne : (s.currentlyExecutingProcess != pid) = true := bne_iff_ne.mpr (Ne.symm hne)
  -- a non-empty device queue starts with the current process, which stays
  have hfront : ∀ c, s.scheduler.deviceQueue.head? = some c →
      s'.scheduler.deviceQueue.head? = some s.currentlyExecutingProcess := by
    intro c hc
    rw [h.device_front c hc] at hc
    rw [hdq]
    exact head?_filter_of_head? hc hbne
  refine ⟨⟨hb, ?_⟩, ?_, ?_, ?_⟩
  · rcases h.current_live with h0 | ⟨l, n, hl⟩
    · exact .inl (hcur.trans h0)
    · exact .inr ⟨l, n, hkeep.mpr hl⟩
  · intro d hd
    rw [hcur]
    cases hc : s.scheduler.deviceQueue.head? with
    | none =>
        rw [hdq, List.head?_eq_none_iff.mp hc] at hd
        cases hd
    | some c =>
        rw [hfront c hc] at hd
        exact (Option.some.inj hd).symm
  · intro n hn hnil
    obtain ⟨c, hc⟩ := Option.ne_none_iff_exists'.mp
      (mt List.head?_eq_none_iff.mp (h.device_current n (hkeep.mp hn)))
    rw [← List.head?_eq_none_iff, hfront c hc] at hnil
    cases hnil
  · intro n hn
    rw [hsq, hcur]
    exact head?_filter_of_head? (h.sporadic_front n (hkeep.mp hn)) hbne

/-- `end_all_other_processes` keeps the invariant: each pid it ends is not
the current one, which stays current. -/
theorem TableInv.endAllOtherProcesses (h : TableInv s) (hs : s.endAllOtherProcesses = .ok s') :
    TableInv s' := by
  rw [endAllOtherProcesses_eq_foldlM] at hs
  refine (foldlM_inv (P := fun t => TableInv t ∧
    t.currentlyExecutingProcess = s.currentlyExecutingProcess) ⟨h, rfl⟩ ?_ hs).1
  rintro pid hpid t t' ⟨ht, hcur⟩ hstep
  obtain ⟨⟨res, t₁⟩, h₁, hstep⟩ := bind_eq_ok.mp hstep
  simp only [pure_eq_ok, Except.ok.injEq] at hstep
  subst hstep
  have hne : pid ≠ t.currentlyExecutingProcess := by
    rw [hcur]
    exact bne_iff_ne.mp (List.mem_filter.mp hpid).2
  exact ⟨ht.endProcessWithPid_of_ne hne h₁, (ht.toBooks.endProcessWithPid h₁).2.2.1.trans hcur⟩

/-- `end_current_process` keeps the invariant: the books survive the end of
the current process, the idle process is then current, and the rescheduling
restores the fronts. -/
theorem TableInv.endCurrentProcess (h : TableInv s) {r : VirtAddr}
    (hs : s.endCurrentProcess = .ok (r, s')) : TableInv s' := by
  unfold ProcessesManager.endCurrentProcess at hs
  obtain ⟨⟨res, s₁⟩, h₁, hs⟩ := bind_eq_ok.mp hs
  obtain ⟨s₂, h₂, hs⟩ := bind_eq_ok.mp hs
  obtain ⟨s₃, h₃, hs⟩ := bind_eq_ok.mp hs
  obtain ⟨p, -, hs⟩ := bind_eq_ok.mp hs
  simp only [pure_eq_ok, Except.ok.injEq, Prod.mk.injEq] at hs
  obtain ⟨-, rfl⟩ := hs
  exact ((h.toBooks.endProcessWithPid h₁).1.switchToIdle h₂).1.scheduleAllTheStuff h₃

end End

/-! ## Yielding, ticking and unyielding -/

section Run

variable {s s' : ProcessesManager}

/-- While a process that is not a Device is current, no device is queued. -/
theorem TableInv.deviceQueue_eq_nil (h : TableInv s) {level : SchedulingLevel} {name : Name}
    (hl : s.Holds s.currentlyExecutingProcess level name) (hne : level ≠ .device) :
    s.scheduler.deviceQueue = [] := by
  cases hc : s.scheduler.deviceQueue.head? with
  | none => exact List.head?_eq_none_iff.mp hc
  | some c =>
      obtain ⟨n, hn⟩ := h.device_live c (List.mem_of_mem_head? hc)
      rw [h.device_front c hc] at hn
      exact absurd (h.holds_unique hl hn).1 hne

/-- A current Device is at the front of the device queue. -/
theorem TableInv.deviceQueue_head (h : TableInv s) {name : Name}
    (hl : s.Holds s.currentlyExecutingProcess .device name) :
    s.scheduler.deviceQueue.head? = some s.currentlyExecutingProcess := by
  obtain ⟨c, hc⟩ := Option.ne_none_iff_exists'.mp
    (mt List.head?_eq_none_iff.mp (h.device_current _ hl))
  rw [hc, h.device_front c hc]

/-- `yield_current_process` keeps the invariant.  A Device leaves the front
of its queue and reschedules; a Periodic process yields its slot to the
sporadic queue or to idle; a Sporadic process goes to the back of its queue,
whose new front runs. -/
theorem TableInv.yieldCurrentProcess (h : TableInv s) {sp r : VirtAddr}
    (hs : s.yieldCurrentProcess sp = .ok (r, s')) : TableInv s' := by
  unfold ProcessesManager.yieldCurrentProcess at hs
  obtain ⟨⟨pl, cur⟩, hcur, hs⟩ := bind_eq_ok.mp hs
  obtain ⟨s₂, h₂, hs⟩ := bind_eq_ok.mp hs
  obtain ⟨p, -, hs⟩ := bind_eq_ok.mp hs
  simp only [pure_eq_ok, Except.ok.injEq, Prod.mk.injEq] at hs
  obtain ⟨-, rfl⟩ := hs
  obtain ⟨hpl, hat⟩ := getCurrentProcessMut_eq_ok hcur
  have hb₁ := h.toBooks.setAt hat (Process.key_setStackPos cur sp)
  have hat₁ := processAt_setAt_self hat (cur.setStackPos sp)
  split at h₂
  · -- a Device pops its own entry and reschedules without a tick
    obtain ⟨_, -, h₂⟩ := bind_eq_ok.mp h₂
    refine Books.scheduleAllTheStuff ?_ h₂
    exact hb₁.of_frame (fun _ => rfl) rfl rfl rfl (.refl _)
      fun d hd => hb₁.device_live d (List.mem_of_mem_tail hd)
  · -- a Periodic process: nothing is queued while it runs
    rename_i hl
    have hl' : cur.level = .periodic := by simpa using hl
    have hlive := (h.toBooks.holds_current (hpl ▸ hat) (by rw [hl']; decide)).2
    have hq : s.scheduler.deviceQueue = [] := h.deviceQueue_eq_nil hlive (by rw [hl']; decide)
    have hb₃ := hb₁.setAt hat₁ (Process.key_setProcessStatus _ .yielded)
    obtain ⟨⟨b, s₃⟩, h₃, h₂⟩ := bind_eq_ok.mp h₂
    obtain ⟨hb₄, hsch₄, hfalse, htrue⟩ :=
      (hb₃.of_same (fun _ => rfl) rfl rfl rfl rfl rfl :
        Books { s.setAt pl (cur.setStackPos sp) |>.setAt pl
          ((cur.setStackPos sp).setProcessStatus .yielded) with scheduler.periodicYielded := true }
        ).switchToSporadic h₃
    cases b with
    | true =>
        simp only [if_true, pure_eq_ok, Except.ok.injEq] at h₂
        subst h₂
        exact htrue rfl (by simpa using hq)
    | false =>
        simp only [Bool.false_eq_true, if_false] at h₂
        obtain ⟨hb', hcur', hsch'⟩ := hb₄.switchToIdle h₂
        refine TableInv.of_idle hb' hcur' ?_
        rw [hsch', hsch₄]
        simpa using hq
  · -- a Sporadic process goes to the back of its queue, which is not empty
    rename_i hl
    have hl' : cur.level = .sporadic := by simpa using hl
    have hlive := (h.toBooks.holds_current (hpl ▸ hat) (by rw [hl']; decide)).2
    have hq : s.scheduler.deviceQueue = [] := h.deviceQueue_eq_nil hlive (by rw [hl']; decide)
    have hmem : s.currentlyExecutingProcess ∈ s.scheduler.sporadicQueue :=
      (h.mem_sporadic _).mpr ⟨_, hl' ▸ hlive⟩
    obtain ⟨q, hrot, h₂⟩ := bind_eq_ok.mp h₂
    obtain ⟨-, rfl⟩ : 1 ≤ (s.scheduler.sporadicQueue).length ∧
        s.scheduler.sporadicQueue.rotate 1 = q := by
      simpa [rotateLeft, bind_eq_ok, check_eq_ok] using hrot
    obtain ⟨⟨b, s₃⟩, h₃, h₂⟩ := bind_eq_ok.mp h₂
    simp only [pure_eq_ok, Except.ok.injEq] at h₂
    subst h₂
    set s₂ := (s.setAt pl (cur.setStackPos sp)).setAt pl
      ((cur.setStackPos sp).setProcessStatus .scheduled)
    have hb₃ : Books s₂ := hb₁.setAt hat₁ (Process.key_setProcessStatus _ .scheduled)
    -- the rotation only reorders the sporadic queue
    have hb₄ : Books { s₂ with scheduler.sporadicQueue := s.scheduler.sporadicQueue.rotate 1 } :=
      hb₃.of_frame (fun _ => rfl) rfl rfl rfl (by simpa [s₂] using List.rotate_perm _ 1)
        fun d hd => hb₃.device_live d hd
    obtain ⟨-, -, hfalse, htrue⟩ := hb₄.switchToSporadic h₃
    cases b with
    | true => exact htrue rfl (by simpa [s₂] using hq)
    | false =>
        have hnil := (hfalse rfl).1
        simp only at hnil
        rw [List.rotate_eq_nil_iff] at hnil
        simp [hnil] at hmem
  · simp at h₂

/-- The devices a tick queues are live Devices of the slots. -/
theorem devicesDue_eq_ok {t : Nat} {l : List (Option Process)} {due : List Pid}
    (h : devicesDue t l = .ok due) :
    ∀ d ∈ due, ∃ p, some p ∈ l ∧ p.level = .device ∧ p.pid = d := by
  induction l generalizing due with
  | nil =>
      simp only [devicesDue, pure_eq_ok, Except.ok.injEq] at h
      simp [← h]
  | cons x rest ih =>
      -- what the rest of the list queues is found in the rest
      have hrest : ∀ {due'}, devicesDue t rest = .ok due' →
          ∀ d ∈ due', ∃ p, some p ∈ x :: rest ∧ p.level = .device ∧ p.pid = d := by
        intro due' h' d hd
        obtain ⟨p, hp, hl, hpid⟩ := ih h' d hd
        exact ⟨p, List.mem_cons_of_mem _ hp, hl, hpid⟩
      cases x with
      | none => exact hrest h
      | some q =>
          simp only [devicesDue] at h
          split at h
          · rename_i hq
            obtain ⟨_, -, h⟩ := bind_eq_ok.mp h
            obtain ⟨pids, hpids, h⟩ := bind_eq_ok.mp h
            simp only [pure_eq_ok, Except.ok.injEq] at h
            subst h
            intro d hd
            split at hd
            · rcases List.mem_cons.mp hd with rfl | hd
              · exact ⟨q, List.mem_cons_self, hq, rfl⟩
              · exact hrest hpids d hd
            · exact hrest hpids d hd
          · exact hrest h

/-- A process in a slot is live under its own key. -/
theorem holds_of_mem {p : Process} (hp : some p ∈ s.processesList) :
    s.Holds p.pid p.level p.name := by
  obtain ⟨i, hi⟩ := List.mem_iff_getElem?.mp hp
  exact ⟨i, by simp [ProcessesManager.keyAt, processAt, hi, Process.key]⟩

/-- Queuing the devices a tick finds due keeps the books. -/
theorem Books.queueDue (h : Books s) {t : Nat} {due : List Pid}
    (hdue : devicesDue t s.processesList = .ok due) (time : Nat) :
    Books { s with scheduler.time := time,
                   scheduler.deviceQueue := s.scheduler.deviceQueue ++ due } := by
  refine h.of_frame (fun _ => rfl) rfl rfl rfl (.refl _) fun d hd => ?_
  rcases List.mem_append.mp hd with hd | hd
  · exact h.device_live d hd
  · obtain ⟨q, hq, hl, rfl⟩ := devicesDue_eq_ok hdue d hd
    exact ⟨q.name, hl ▸ holds_of_mem hq⟩

/-- The timer tick keeps the invariant: the devices it queues are live, a
running Device keeps the front of the queue, and anything else reschedules. -/
theorem TableInv.nextTickPreemptProcess (h : TableInv s) {sp : Nat} {r : Option VirtAddr}
    (hs : s.nextTickPreemptProcess sp = .ok (r, s')) : TableInv s' := by
  unfold ProcessesManager.nextTickPreemptProcess at hs
  obtain ⟨due, hdue, hs⟩ := bind_eq_ok.mp hs
  obtain ⟨⟨pl, cur⟩, hcur, hs⟩ := bind_eq_ok.mp hs
  obtain ⟨_, -, hs⟩ := bind_eq_ok.mp hs
  obtain ⟨s₂, h₂, hs⟩ := bind_eq_ok.mp hs
  obtain ⟨p, -, hs⟩ := bind_eq_ok.mp hs
  simp only [pure_eq_ok, Except.ok.injEq, Prod.mk.injEq] at hs
  obtain ⟨-, rfl⟩ := hs
  set s₁ : ProcessesManager :=
    { s with scheduler.time := s.scheduler.time + 1,
             scheduler.deviceQueue := s.scheduler.deviceQueue ++ due }
  have hb₁ : Books s₁ := h.toBooks.queueDue hdue _
  obtain ⟨hpl, hat⟩ := getCurrentProcessMut_eq_ok hcur
  have hb₂ := hb₁.setAt hat (Process.key_setStackPos cur sp)
  split at h₂
  · -- a running Device keeps the CPU and the front of the queue
    rename_i hl
    simp only [pure_eq_ok, Except.ok.injEq] at h₂
    subst h₂
    have hl' : cur.level = .device := by simpa using hl
    have hlive : s.Holds s.currentlyExecutingProcess .device cur.name :=
      hl' ▸ (h.toBooks.holds_current (s := s) (hpl ▸ hat) (by rw [hl']; decide)).2
    have hfront := h.deviceQueue_head hlive
    have hh : (s₁.setAt pl (cur.setStackPos sp)).Holds
        (s₁.setAt pl (cur.setStackPos sp)).currentlyExecutingProcess .device cur.name := by
      rw [holds_eq_of_keyAt (keyAt_setAt hat (Process.key_setStackPos cur sp)),
        show s₁.Holds = s.Holds from holds_eq_of_keyAt fun _ => rfl, setAt_currentlyExecutingProcess]
      exact hlive
    refine TableInv.of_device hb₂ ?_ hh
    simp [s₁, List.head?_append, hfront]
  all_goals exact hb₂.scheduleAllTheStuff h₂

/-- `unyield_current_periodic` only clears the yielded flag. -/
theorem TableInv.unyieldCurrentPeriodic (h : TableInv s) (hs : s.unyieldCurrentPeriodic = .ok s') :
    TableInv s' := by
  obtain ⟨-, rfl⟩ := unyieldCurrentPeriodic_eq_ok hs
  exact h.of_same (fun _ => rfl) rfl rfl rfl rfl rfl rfl

/-- The step lemma: every operation that returns keeps the invariant. -/
theorem TableInv.step (h : TableInv s) {op : Operation} (hs : s.step op = .ok s') : TableInv s' := by
  cases op with
  | createNewProcess level name arg stack =>
      obtain ⟨res, hc⟩ := map_snd_eq_ok hs
      exact h.createNewProcess hc
  | yieldCurrentProcess sp =>
      obtain ⟨r, hy⟩ := map_snd_eq_ok hs
      exact h.yieldCurrentProcess hy
  | endCurrentProcess =>
      obtain ⟨r, he⟩ := map_snd_eq_ok hs
      exact h.endCurrentProcess he
  | endAllOtherProcesses => exact h.endAllOtherProcesses hs
  | nextTickPreemptProcess sp =>
      obtain ⟨r, ht⟩ := map_snd_eq_ok hs
      exact h.nextTickPreemptProcess ht
  | unyieldCurrentPeriodic => exact h.unyieldCurrentPeriodic hs

/-- `ProcessesManager::new` starts with no process, an empty pool, empty
queues and an empty registry. -/
theorem tableInv_newWithOrder {order : List (Name × Nat)} {init : ProcessesManager}
    (hinit : newWithOrder order = .ok init) : TableInv init := by
  simp only [newWithOrder, Scheduler.new, bind_eq_ok, expect_eq_ok, pure_eq_ok,
    Except.ok.injEq] at hinit
  obtain ⟨sch, ⟨first, -, rfl⟩, rfl⟩ := hinit
  -- no slot holds a process
  have hnone : ∀ pid level name, ¬ ProcessesManager.Holds
      { processesList := [none, none], idleProcess := Process.idle,
        scheduler := { time := 0, periodicOrder := order, periodicTime := first.2,
                       periodicIndex := 0, periodicYielded := false, deviceQueue := [],
                       sporadicQueue := [] },
        currentlyExecutingProcess := 0, pidPool := IncrementingPool.new 1,
        nameRegistry := DynamicBitmap.new } pid level name := by
    rintro pid level name ⟨i, hi⟩
    rcases i with _ | _ | i <;> simp [ProcessesManager.keyAt, processAt] at hi
  refine TableInv.of_idle ⟨?_, rfl, IncrementingPool.valid_new 1, le_refl 1, ?_, List.nodup_nil,
    ?_, ?_, ?_, ?_⟩ rfl rfl
  · intro i pid level name hi
    exact absurd ⟨i, hi⟩ (hnone pid level name)
  · intro pid
    constructor
    · rintro ⟨h1, h2, -⟩
      exact absurd h2 (Nat.not_lt.mpr h1)
    · rintro ⟨l, n, hl⟩
      exact absurd hl (hnone _ _ _)
  · intro pid
    simp [hnone]
  · simp
  · intro name
    simp [hnone]
  · intro pid pid' name hp
    exact absurd hp (hnone _ _ _)

/-- The run lemma. -/
theorem tableInv_of_reachable {init s : ProcessesManager} (hinit : TableInv init)
    (h : Reachable init s) : TableInv s := by
  induction h with
  | init => exact hinit
  | step _ hs ih => exact ih.step hs

/-- On every run of the process manager from `ProcessesManager::new`,
whatever its periodic table, the bookkeeping agrees with itself in every
state the run reaches: each slot holds the process of its own pid and no
slot an Idle one; the pid pool's in-use pids are exactly the live pids (a
pid is never handed out twice, and none is lost); the sporadic queue holds
each live Sporadic pid exactly once and nothing else; the device queue holds
only live Devices, is non-empty exactly while a Device is current, and then
starts with it; a current Sporadic process is at the front of its queue; the
name registry marks exactly the names of the live Periodic processes, and no
two of them share a name; the current pid is 0 or live. -/
theorem process_table_stays_consistent {order : List (Name × Nat)} {init s : ProcessesManager}
    (hinit : newWithOrder order = .ok init) (h : Reachable init s) : TableInv s :=
  tableInv_of_reachable (tableInv_newWithOrder hinit) h

theorem process_table_stays_consistent_after_yield :
    ∃ s, bootState.run
        [.createNewProcess .periodic 1 0 (some { start := 4096, «end» := 8192 }),
         .createNewProcess .sporadic 7 0 (some { start := 8192, «end» := 12288 }),
         .createNewProcess .device 3 0 (some { start := 12288, «end» := 16384 }),
         .nextTickPreemptProcess 100, .yieldCurrentProcess 200, .nextTickPreemptProcess 300] =
        .ok s ∧ TableInv s := by
  obtain ⟨s, hs⟩ : ∃ s, bootState.run
      [.createNewProcess .periodic 1 0 (some { start := 4096, «end» := 8192 }),
       .createNewProcess .sporadic 7 0 (some { start := 8192, «end» := 12288 }),
       .createNewProcess .device 3 0 (some { start := 12288, «end» := 16384 }),
       .nextTickPreemptProcess 100, .yieldCurrentProcess 200, .nextTickPreemptProcess 300] =
      .ok s := ⟨_, rfl⟩
  exact ⟨s, hs, process_table_stays_consistent new_eq_ok (Reachable.run .init hs)⟩

end Run

/-! ## The clause-by-clause invariant

`Invariants` states the bookkeeping as the manager's comments describe it,
clause by clause over the lists the manager holds (`BookkeepingInv`).
`TableInv`, the invariant the step lemmas carry, says the same things over
the live processes as `Holds` sees them, together with the facts about the
fronts of the queues that the steps need; `TableInv.bookkeepingInv` derives
each clause from it.  So the two results on every run state one invariant
in two forms: the form the proofs carry, and the form of the source's
comments. -/

section Clauses

variable {s : ProcessesManager}

/-- In a vector whose slot `i` holds an element of key `i + k`, the keys of
the elements present increase strictly. -/
theorem pairwise_lt_filterMap {α : Type} {f : α → Nat} {l : List (Option α)} {k : Nat}
    (h : ∀ i a, l[i]? = some (some a) → f a = i + k) :
    ((l.filterMap id).map f).Pairwise (· < ·) := by
  induction l generalizing k with
  | nil => simp
  | cons o t ih =>
      -- slot `i` of the tail is slot `i + 1` of the vector
      have ht : ∀ i a, t[i]? = some (some a) → f a = i + (k + 1) := fun i a hi => by
        rw [h (i + 1) a (by simpa using hi)]
        omega
      cases o with
      | none => simpa using ih ht
      | some a =>
          have ha : f a = k := by simpa using h 0 a rfl
          show (f a :: (t.filterMap id).map f).Pairwise (· < ·)
          refine List.pairwise_cons.mpr ⟨fun b hb => ?_, ih ht⟩
          obtain ⟨c, hc, rfl⟩ := List.mem_map.mp hb
          obtain ⟨i, hi⟩ := List.mem_iff_getElem?.mp (by simpa using hc)
          rw [ha, ht i c hi]
          omega

/-- The live processes are those in the slots. -/
theorem holds_iff_mem_liveProcesses {pid : Pid} {level : SchedulingLevel} {name : Name} :
    s.Holds pid level name ↔ ∃ p ∈ s.liveProcesses, p.key = (pid, level, name) := by
  simp only [Holds, keyAt_eq_some, liveProcesses, processAt, Option.join_eq_some_iff]
  constructor
  · rintro ⟨i, p, hi, hk⟩
    exact ⟨p, by simpa using List.mem_of_getElem? hi, hk⟩
  · rintro ⟨p, hp, hk⟩
    obtain ⟨i, hi⟩ := List.mem_iff_getElem?.mp (by simpa using hp)
    exact ⟨i, p, hi, hk⟩

theorem isLive_iff {pid : Pid} {level : SchedulingLevel} :
    s.IsLive pid level ↔ ∃ name, s.Holds pid level name := by
  simp only [IsLive, holds_iff_mem_liveProcesses, Process.key, Prod.mk.injEq]
  constructor
  · rintro ⟨p, hp, hpid, hl⟩
    exact ⟨p.name, p, hp, hpid, hl, rfl⟩
  · rintro ⟨name, p, hp, hpid, hl, -⟩
    exact ⟨p, hp, hpid, hl⟩

theorem mem_livePids_iff {pid : Pid} :
    pid ∈ s.livePids ↔ ∃ level name, s.Holds pid level name := by
  simp only [livePids, List.mem_map, holds_iff_mem_liveProcesses, Process.key, Prod.mk.injEq]
  constructor
  · rintro ⟨p, hp, rfl⟩
    exact ⟨p.level, p.name, p, hp, rfl, rfl, rfl⟩
  · rintro ⟨level, name, p, hp, hpid, -, -⟩
    exact ⟨p, hp, hpid⟩

/-- With every slot holding the process of its pid, the live pids increase
strictly in slot order. -/
theorem Books.livePids_pairwise (h : Books s) : s.livePids.Pairwise (· < ·) :=
  pairwise_lt_filterMap fun i p hi =>
    (h.keyAt_eq i p.pid p.level p.name (by simp [keyAt, processAt, hi, Process.key])).1

/-- The table invariant implies the bookkeeping invariant clause by clause. -/
theorem TableInv.bookkeepingInv (h : TableInv s) : BookkeepingInv s := by
  have hnd : s.livePids.Nodup := h.livePids_pairwise.imp ne_of_lt
  refine ⟨?_, h.pool_valid.1, ?_, ?_, ?_, ?_, ?_, ?_, ?_, ?_, ?_, ?_⟩
  · -- (1) slots
    intro i _ p hp
    have hk : s.keyAt i = some (p.pid, p.level, p.name) := by
      simp only [keyAt, processAt, Option.mem_def.mp hp]
      rfl
    exact (h.keyAt_eq i p.pid p.level p.name hk).1
  · -- (2) a pid in the free list is not in use, so not live
    intro x hx hlx
    obtain ⟨l, n, hh⟩ := mem_livePids_iff.mp hlx
    exact ((h.inUse_iff x).mpr ⟨l, n, hh⟩).2.2 hx
  · intro x hx
    rcases List.mem_append.mp hx with hx | hx
    · exact h.pool_valid.2 x hx
    · obtain ⟨l, n, hh⟩ := mem_livePids_iff.mp hx
      have hin := (h.inUse_iff x).mpr ⟨l, n, hh⟩
      exact ⟨hin.1, hin.2.1⟩
  · intro x hx
    rw [List.mem_range'_1] at hx
    by_cases hp : x ∈ s.pidPool.pool
    · exact .inl hp
    · obtain ⟨l, n, hh⟩ := (h.inUse_iff x).mp ⟨hx.1, by omega, hp⟩
      exact .inr (mem_livePids_iff.mpr ⟨l, n, hh⟩)
  · -- (3) the sporadic queue has no duplicates
    intro pid _
    rw [h.sporadic_nodup.count]
    by_cases hm : pid ∈ s.scheduler.sporadicQueue
    · rw [if_pos hm, if_pos (isLive_iff.mpr ((h.mem_sporadic pid).mp hm))]
    · rw [if_neg hm, if_neg fun hl => hm ((h.mem_sporadic pid).mpr (isLive_iff.mp hl))]
  · -- (4) the device queue
    intro d hd
    exact isLive_iff.mpr (h.device_live d hd)
  · intro hne
    obtain ⟨d, hd⟩ := Option.ne_none_iff_exists'.mp (mt List.head?_eq_none_iff.mp hne)
    have hdc := h.device_front d hd
    obtain ⟨n, hn⟩ := h.device_live d (List.mem_of_mem_head? hd)
    exact ⟨hdc ▸ hd, isLive_iff.mpr ⟨n, hdc ▸ hn⟩⟩
  · -- (5) a running Sporadic process
    intro p hp hl
    have hh := (h.toBooks.holds_current hp (by rw [hl]; decide)).2
    rw [hl] at hh
    exact h.sporadic_front _ hh
  · -- (6) the registry
    intro n _
    rw [h.registry]
    simp only [holds_iff_mem_liveProcesses, Process.key, Prod.mk.injEq]
    constructor
    · rintro ⟨pid, p, hp, -, hl, hn⟩
      exact ⟨p, hp, hl, hn⟩
    · rintro ⟨p, hp, hl, hn⟩
      exact ⟨p.pid, p, hp, rfl, hl, hn⟩
  · intro p hp hl
    exact (h.registry p.name).mpr ⟨p.pid, holds_iff_mem_liveProcesses.mpr ⟨p, hp, by rw [Process.key, hl]⟩⟩
  · -- two live Periodic processes with one name have one pid, so they are one
    have hndl : s.liveProcesses.Nodup := List.Nodup.of_map Process.pid hnd
    refine List.Nodup.map_on (fun p hp q hq hpq => ?_) (hndl.filter _)
    obtain ⟨hp, hlp⟩ := List.mem_filter.mp hp
    obtain ⟨hq, hlq⟩ := List.mem_filter.mp hq
    have hperiodic : ∀ r ∈ s.liveProcesses, (r.level == .periodic) = true →
        s.Holds r.pid .periodic r.name := fun r hr hl =>
      holds_iff_mem_liveProcesses.mpr ⟨r, hr, by rw [Process.key, beq_iff_eq.mp hl]⟩
    have hpid : p.pid = q.pid :=
      h.names_apart p.pid q.pid p.name (hperiodic p hp hlp) (hpq ▸ hperiodic q hq hlq)
    exact List.inj_on_of_nodup_map hnd hp hq hpid

/-- The bookkeeping invariant, as the manager's comments state it, holds in
every state reached from `new`, whatever the periodic table. -/
theorem bookkeeping_invariant_holds_on_every_run {order : List (Name × Nat)}
    {init s : ProcessesManager} (hinit : newWithOrder order = .ok init) (h : Reachable init s) :
    BookkeepingInv s :=
  (tableInv_of_reachable (tableInv_newWithOrder hinit) h).bookkeepingInv

theorem bookkeeping_invariant_holds_after_tick :
    ∃ s, bootState.run
        [.createNewProcess .sporadic 7 0 (some { start := 8192, «end» := 12288 }),
         .createNewProcess .device 3 0 (some { start := 12288, «end» := 16384 }),
         .nextTickPreemptProcess 100, .nextTickPreemptProcess 200, .nextTickPreemptProcess 300] =
        .ok s ∧ BookkeepingInv s := by
  obtain ⟨s, hs⟩ : ∃ s, bootState.run
      [.createNewProcess .sporadic 7 0 (some { start := 8192, «end» := 12288 }),
       .createNewProcess .device 3 0 (some { start := 12288, «end» := 16384 }),
       .nextTickPreemptProcess 100, .nextTickPreemptProcess 200, .nextTickPreemptProcess 300] =
      .ok s := ⟨_, rfl⟩
  exact ⟨s, hs, bookkeeping_invariant_holds_on_every_run new_eq_ok (Reachable.run .init hs)⟩

end Clauses

end ProcessesManager

end Processes
end NoIdeaOS
