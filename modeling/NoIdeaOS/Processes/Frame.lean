import NoIdeaOS.Processes.Manager

/-!
# What each scheduling helper may change

The `switch_*` helpers and `schedule_all_the_stuff` only rewrite process
statuses, the current pid and (for the periodic switch) the slot fields of
the scheduler.  `Reschedules s s'` says that `s'` keeps everything else of
`s`: every process up to its status, the pid pool and the name registry.
Each helper gets one spec lemma, `*_eq_ok`, stating this frame together
with what it does to the current pid and the scheduler; the invariant
modules use these lemmas and never unfold a helper again.
-/

namespace NoIdeaOS
namespace Processes

open Fallible

/-- A process with its status forgotten. -/
def Process.eraseStatus (p : Process) : Process :=
  { p with status := .scheduled }

@[simp] theorem Process.eraseStatus_setProcessStatus (p : Process) (st : ProcessStatus) :
    (p.setProcessStatus st).eraseStatus = p.eraseStatus := rfl

@[simp] theorem Process.eraseStatus_stackPointer (p : Process) :
    p.eraseStatus.stackPointer = p.stackPointer := rfl

@[simp] theorem Process.eraseStatus_pid (p : Process) : p.eraseStatus.pid = p.pid := rfl

@[simp] theorem Process.eraseStatus_level (p : Process) : p.eraseStatus.level = p.level := rfl

@[simp] theorem Process.eraseStatus_name (p : Process) : p.eraseStatus.name = p.name := rfl

/-- The scheduler after the optional tick of `schedule_all_the_stuff`. -/
def Scheduler.spendTick (sch : Scheduler) (tick : Bool) : Scheduler :=
  if tick then { sch with periodicTime := sch.periodicTime - 1 } else sch

namespace ProcessesManager

/-- The process a place points to. -/
def processAt (s : ProcessesManager) : Place → Option Process
  | .idle => some s.idleProcess
  | .slot i => (s.processesList[i]?).join

/-- The slots with statuses forgotten. -/
def table (s : ProcessesManager) : List (Option Process) :=
  s.processesList.map (Option.map Process.eraseStatus)

/-- `s'` differs from `s` at most in statuses, the current pid and the scheduler. -/
structure Reschedules (s s' : ProcessesManager) : Prop where
  table : s'.table = s.table
  idle : s'.idleProcess.eraseStatus = s.idleProcess.eraseStatus
  pidPool : s'.pidPool = s.pidPool
  nameRegistry : s'.nameRegistry = s.nameRegistry

theorem Reschedules.refl (s : ProcessesManager) : Reschedules s s :=
  ⟨rfl, rfl, rfl, rfl⟩

theorem Reschedules.trans {s₁ s₂ s₃ : ProcessesManager} (h₁ : Reschedules s₁ s₂)
    (h₂ : Reschedules s₂ s₃) : Reschedules s₁ s₃ :=
  ⟨h₂.table.trans h₁.table, h₂.idle.trans h₁.idle, h₂.pidPool.trans h₁.pidPool,
    h₂.nameRegistry.trans h₁.nameRegistry⟩

/-- Changing the current pid or the scheduler is a rescheduling. -/
theorem Reschedules.of_fields {s s' : ProcessesManager} (hl : s'.processesList = s.processesList)
    (hi : s'.idleProcess = s.idleProcess) (hp : s'.pidPool = s.pidPool)
    (hn : s'.nameRegistry = s.nameRegistry) : Reschedules s s' :=
  ⟨by unfold ProcessesManager.table; rw [hl], by rw [hi], hp, hn⟩

@[simp] theorem setAt_scheduler (s : ProcessesManager) (pl : Place) (p : Process) :
    (s.setAt pl p).scheduler = s.scheduler := by
  cases pl <;> rfl

@[simp] theorem setAt_currentlyExecutingProcess (s : ProcessesManager) (pl : Place) (p : Process) :
    (s.setAt pl p).currentlyExecutingProcess = s.currentlyExecutingProcess := by
  cases pl <;> rfl

@[simp] theorem setAt_pidPool (s : ProcessesManager) (pl : Place) (p : Process) :
    (s.setAt pl p).pidPool = s.pidPool := by
  cases pl <;> rfl

@[simp] theorem setAt_nameRegistry (s : ProcessesManager) (pl : Place) (p : Process) :
    (s.setAt pl p).nameRegistry = s.nameRegistry := by
  cases pl <;> rfl

/-- Writing back a borrowed process with a new status is a rescheduling. -/
theorem reschedules_setAt {s : ProcessesManager} {pl : Place} {p : Process}
    (h : s.processAt pl = some p) (st : ProcessStatus) :
    Reschedules s (s.setAt pl (p.setProcessStatus st)) := by
  cases pl with
  | idle =>
      simp only [processAt, Option.some.injEq] at h
      subst h
      exact ⟨rfl, rfl, rfl, rfl⟩
  | slot i =>
      refine ⟨?_, rfl, rfl, rfl⟩
      simp only [processAt, Option.join_eq_some_iff] at h
      simp only [table, setAt, List.map_set, Option.map_some,
        Process.eraseStatus_setProcessStatus]
      apply List.ext_getElem?
      intro j
      rw [List.getElem?_set]
      by_cases hij : i = j
      · subst hij
        obtain ⟨hi, hget⟩ := List.getElem?_eq_some_iff.mp h
        simp [hi, hget]
      · simp [hij]

/-- The place `get_process_mut_with_pid` looks at for a pid. -/
def placeOf (pid : Pid) : Place :=
  if pid = 0 then .idle else .slot (pid - 1)

theorem getProcessMutWithPid_eq (s : ProcessesManager) (pid : Pid) :
    s.getProcessMutWithPid pid = (s.processAt (placeOf pid)).map fun p => (placeOf pid, p) := by
  unfold getProcessMutWithPid placeOf
  by_cases h : pid = 0
  · simp [h, processAt]
  · simp [h, processAt, Option.map]

theorem getProcessMutWithPid_eq_some {s : ProcessesManager} {pid : Pid} {pl : Place}
    {p : Process} (h : s.getProcessMutWithPid pid = some (pl, p)) :
    pl = placeOf pid ∧ s.processAt pl = some p := by
  rw [getProcessMutWithPid_eq] at h
  obtain ⟨q, hq, hqp⟩ := Option.map_eq_some_iff.mp h
  simp only [Prod.mk.injEq] at hqp
  obtain ⟨rfl, rfl⟩ := hqp
  exact ⟨rfl, hq⟩

theorem getCurrentProcessMut_eq_ok {s : ProcessesManager} {pl : Place} {p : Process}
    (h : s.getCurrentProcessMut = .ok (pl, p)) :
    pl = placeOf s.currentlyExecutingProcess ∧ s.processAt pl = some p := by
  unfold getCurrentProcessMut at h
  split at h
  · rename_i h0
    simp only [Except.ok.injEq, Prod.mk.injEq] at h
    obtain ⟨rfl, rfl⟩ := h
    simp [placeOf, h0, processAt]
  · exact getProcessMutWithPid_eq_some (expect_eq_ok.mp h)

theorem getCurrentProcess_eq_ok {s : ProcessesManager} {p : Process}
    (h : s.getCurrentProcess = .ok p) : s.processAt (placeOf s.currentlyExecutingProcess) = some p := by
  unfold getCurrentProcess at h
  split at h
  · rename_i h0
    simp only [Except.ok.injEq] at h
    simp [placeOf, h0, processAt, h]
  · rename_i h0
    obtain ⟨found, hfound, h⟩ := bind_eq_ok.mp h
    simp only [getProcessWithPid, bind_eq_ok, check_eq_ok, pure_eq_ok, Except.ok.injEq] at hfound
    obtain ⟨_, _, rfl⟩ := hfound
    simpa [placeOf, h0, processAt] using expect_eq_ok.mp h

/-- `findSlot` returns a slot holding a process that satisfies the predicate. -/
theorem findSlot_eq_some {pred : Process → Bool} {l : List (Option Process)} {i : Nat}
    {p : Process} (h : findSlot pred l = some (i, p)) : l[i]? = some (some p) ∧ pred p = true := by
  induction l generalizing i with
  | nil => simp [findSlot] at h
  | cons x rest ih =>
      cases x with
      | none =>
          obtain ⟨⟨j, q⟩, hj, hji⟩ := Option.map_eq_some_iff.mp h
          simp only [Prod.mk.injEq] at hji
          obtain ⟨rfl, rfl⟩ := hji
          simpa using ih hj
      | some q =>
          simp only [findSlot] at h
          split at h
          · rename_i hq
            simp only [Option.some.injEq, Prod.mk.injEq] at h
            obtain ⟨rfl, rfl⟩ := h
            simp [hq]
          · obtain ⟨⟨j, r⟩, hj, hji⟩ := Option.map_eq_some_iff.mp h
            simp only [Prod.mk.injEq] at hji
            obtain ⟨rfl, rfl⟩ := hji
            simpa using ih hj

theorem getProcessWithName_eq_some {s : ProcessesManager} {name : Name} {periodicOnly : Bool}
    {pl : Place} {p : Process} (h : s.getProcessWithName name periodicOnly = some (pl, p)) :
    s.processAt pl = some p ∧ (periodicOnly = true → p.level = .periodic) ∧ p.name = name := by
  unfold getProcessWithName at h
  obtain ⟨⟨i, q⟩, hfind, hpl⟩ := Option.map_eq_some_iff.mp h
  simp only [Prod.mk.injEq] at hpl
  obtain ⟨rfl, rfl⟩ := hpl
  obtain ⟨hslot, hpred⟩ := findSlot_eq_some hfind
  simp only [Bool.and_eq_true, Bool.or_eq_true, Bool.not_eq_true', beq_iff_eq] at hpred
  refine ⟨by simp [processAt, hslot], ?_, hpred.2⟩
  intro hp
  simpa [hp] using hpred.1

/-- `findSlot` finds nothing exactly when no process satisfies the predicate. -/
theorem findSlot_eq_none_iff {pred : Process → Bool} {l : List (Option Process)} :
    findSlot pred l = none ↔ ∀ p, some p ∈ l → pred p = false := by
  induction l with
  | nil => simp [findSlot]
  | cons x rest ih =>
      cases x with
      | none => simp [findSlot, ih]
      | some q =>
          by_cases hq : pred q = true
          · simp [findSlot, hq]
          · simp [findSlot, hq, ih]

/-- Writing back a process with its level and name leaves the lookup by
name as it was. -/
theorem getProcessWithName_setAt {s : ProcessesManager} {pl : Place} {cur q : Process}
    (hat : s.processAt pl = some cur) (hlevel : q.level = cur.level) (hname : q.name = cur.name)
    {name : Name} {periodicOnly : Bool} (h : s.getProcessWithName name periodicOnly = none) :
    (s.setAt pl q).getProcessWithName name periodicOnly = none := by
  simp only [getProcessWithName, Option.map_eq_none_iff, findSlot_eq_none_iff] at h ⊢
  cases pl with
  | idle => exact h
  | slot i =>
      simp only [processAt, Option.join_eq_some_iff] at hat
      intro p hp
      rcases List.mem_or_eq_of_mem_set hp with hp | heq
      · exact h p hp
      · cases heq
        rw [hlevel, hname]
        exact h cur (List.mem_of_getElem? hat)

/-- Writing a process back changes only its own place. -/
theorem processAt_setAt {s : ProcessesManager} {pl : Place} {q : Process}
    (h : s.processAt pl = some q) (p : Process) (pl' : Place) :
    (s.setAt pl p).processAt pl' = if pl' = pl then some p else s.processAt pl' := by
  cases pl with
  | idle => cases pl' <;> simp [processAt, setAt]
  | slot i =>
      simp only [processAt, Option.join_eq_some_iff] at h
      have hi : i < s.processesList.length := (List.getElem?_eq_some_iff.mp h).1
      cases pl' with
      | idle => simp [processAt, setAt]
      | slot j =>
          by_cases hij : j = i
          · subst hij
            simp [processAt, setAt, hi]
          · simp [processAt, setAt, hij, Ne.symm hij]

/-- A place that holds a process holds what is written back to it. -/
theorem processAt_setAt_self {s : ProcessesManager} {pl : Place} {q : Process}
    (h : s.processAt pl = some q) (p : Process) : (s.setAt pl p).processAt pl = some p := by
  rw [processAt_setAt h, if_pos rfl]

/-- A rescheduling keeps every process up to its status. -/
theorem Reschedules.processAt_map {s s' : ProcessesManager} (h : Reschedules s s') (pl : Place) :
    (s'.processAt pl).map Process.eraseStatus = (s.processAt pl).map Process.eraseStatus := by
  cases pl with
  | idle => simp [processAt, h.idle]
  | slot i =>
      -- the slot vectors agree after `eraseStatus`, slot by slot
      have ht := congrArg (·[i]?) h.table
      simp only [ProcessesManager.table, List.getElem?_map] at ht
      show ((s'.processesList[i]?).join).map Process.eraseStatus =
        ((s.processesList[i]?).join).map Process.eraseStatus
      generalize s'.processesList[i]? = o' at ht ⊢
      generalize s.processesList[i]? = o at ht ⊢
      rcases o' with _ | _ | p' <;> rcases o with _ | _ | p <;> simp_all

/-! ## The helpers -/

theorem switchToIdle_eq_ok {s s' : ProcessesManager} {setScheduled : Bool}
    (h : s.switchToIdle setScheduled = .ok s') :
    Reschedules s s' ∧ s'.scheduler = s.scheduler ∧ s'.currentlyExecutingProcess = 0 := by
  unfold switchToIdle at h
  obtain ⟨s₁, h₁, h₂⟩ := bind_eq_ok.mp h
  simp only [pure_eq_ok, Except.ok.injEq] at h₂
  subst h₂
  -- the optional demotion of the current process
  have hs₁ : Reschedules s s₁ ∧ s₁.scheduler = s.scheduler := by
    cases setScheduled with
    | false =>
        simp only [Bool.false_eq_true, if_false, pure_eq_ok, Except.ok.injEq] at h₁
        exact h₁ ▸ ⟨.refl s, rfl⟩
    | true =>
        obtain ⟨⟨pl, p⟩, hcur, h₁⟩ := bind_eq_ok.mp (by simpa using h₁)
        simp only [Except.ok.injEq] at h₁
        subst h₁
        have hat := (getCurrentProcessMut_eq_ok hcur).2
        split
        · exact ⟨reschedules_setAt hat _, by simp⟩
        · exact ⟨.refl s, rfl⟩
  exact ⟨hs₁.1.trans ⟨rfl, rfl, rfl, rfl⟩, hs₁.2, rfl⟩

theorem reschedules_setCurrent (s : ProcessesManager) (pid : Pid) :
    Reschedules s { s with currentlyExecutingProcess := pid } :=
  ⟨rfl, rfl, rfl, rfl⟩

theorem switchToDevice_eq_ok {s s' : ProcessesManager} {b : Bool}
    (h : s.switchToDevice = .ok (b, s')) :
    Reschedules s s' ∧ s'.scheduler = s.scheduler ∧
      (b = false → s.scheduler.deviceQueue = [] ∧ s' = s) ∧
      (b = true → ∃ d p, s.scheduler.deviceQueue.head? = some d ∧
        s.processAt (placeOf d) = some p ∧ s'.currentlyExecutingProcess = p.pid ∧
        p.pid ≠ s.currentlyExecutingProcess) := by
  unfold switchToDevice at h
  split at h
  · rename_i hq
    simp only [pure_eq_ok, Except.ok.injEq, Prod.mk.injEq] at h
    obtain ⟨rfl, rfl⟩ := h
    exact ⟨.refl s, rfl, fun _ => ⟨List.head?_eq_none_iff.mp hq, rfl⟩, by simp⟩
  · rename_i d hq
    obtain ⟨⟨pl, p⟩, hnew, h⟩ := bind_eq_ok.mp h
    obtain ⟨hpl, hat⟩ := getProcessMutWithPid_eq_some (expect_eq_ok.mp hnew)
    obtain ⟨_, hne, h⟩ := bind_eq_ok.mp h
    obtain ⟨⟨opl, op⟩, hold, h⟩ := bind_eq_ok.mp h
    simp only [pure_eq_ok, Except.ok.injEq, Prod.mk.injEq] at h
    obtain ⟨rfl, rfl⟩ := h
    have hoat := (getProcessMutWithPid_eq_some (expect_eq_ok.mp hold)).2
    have hr := ((reschedules_setAt hat .running).trans
      (reschedules_setCurrent _ p.pid)).trans (reschedules_setAt hoat .scheduled)
    refine ⟨hr, by simp, by simp, fun _ => ⟨d, p, hq, hpl ▸ hat, by simp, ?_⟩⟩
    exact fun heq => (check_eq_ok.mp hne) (by simpa using heq.symm)

theorem switchToSporadic_eq_ok {s s' : ProcessesManager} {b : Bool}
    (h : s.switchToSporadic = .ok (b, s')) :
    Reschedules s s' ∧ s'.scheduler = s.scheduler ∧
      (b = false → s.scheduler.sporadicQueue = [] ∧ s' = s) ∧
      (b = true → ∃ q p, s.scheduler.sporadicQueue.head? = some q ∧
        s.processAt (placeOf q) = some p ∧ s'.currentlyExecutingProcess = p.pid) := by
  unfold switchToSporadic at h
  split at h
  · rename_i hq
    simp only [pure_eq_ok, Except.ok.injEq, Prod.mk.injEq] at h
    obtain ⟨rfl, rfl⟩ := h
    exact ⟨.refl s, rfl, fun _ => ⟨List.head?_eq_none_iff.mp hq, rfl⟩, by simp⟩
  · rename_i q hq
    obtain ⟨⟨pl, p⟩, hnew, h⟩ := bind_eq_ok.mp h
    obtain ⟨hpl, hat⟩ := getProcessMutWithPid_eq_some (expect_eq_ok.mp hnew)
    have hr₁ := reschedules_setAt hat .running
    dsimp only at h
    split at h
    · -- another process was running: demote it if it is still marked running
      rename_i hcur
      obtain ⟨⟨cpl, c⟩, hc, h⟩ := bind_eq_ok.mp h
      have hcat := (getCurrentProcessMut_eq_ok hc).2
      simp only [pure_eq_ok, Except.ok.injEq, Prod.mk.injEq] at h
      obtain ⟨rfl, rfl⟩ := h
      have hr₂ : Reschedules (s.setAt pl (p.setProcessStatus .running))
          (if c.status = .running then
            (s.setAt pl (p.setProcessStatus .running)).setAt cpl (c.setProcessStatus .scheduled)
          else s.setAt pl (p.setProcessStatus .running)) := by
        split
        · exact reschedules_setAt hcat _
        · exact .refl _
      refine ⟨(hr₁.trans hr₂).trans (reschedules_setCurrent _ _), ?_, by simp,
        fun _ => ⟨q, p, hq, hpl ▸ hat, rfl⟩⟩
      dsimp only
      split <;> simp
    · rename_i hcur
      simp only [pure_eq_ok, Except.ok.injEq, Prod.mk.injEq] at h
      obtain ⟨rfl, rfl⟩ := h
      refine ⟨hr₁, by simp, by simp, fun _ => ⟨q, p, hq, hpl ▸ hat, ?_⟩⟩
      simpa using hcur

theorem reschedules_setScheduler (s : ProcessesManager) (sch : Scheduler) :
    Reschedules s { s with scheduler := sch } :=
  ⟨rfl, rfl, rfl, rfl⟩

/-- The periodic switch: the scheduler is what `check_and_change_periodic`
made of it, and the current pid either stays or becomes the pid of a
Periodic process named after the (new) slot.  When it stays and the switch
reports success, the current process is Periodic (the fast path). -/
theorem switchToPeriodic_eq_ok {s s' : ProcessesManager} {b : Bool}
    (h : s.switchToPeriodic = .ok (b, s')) :
    ∃ name changed, s.scheduler.checkAndChangePeriodic = .ok ((name, changed), s'.scheduler) ∧
      Reschedules s s' ∧
      ((s'.currentlyExecutingProcess = s.currentlyExecutingProcess ∧
          (b = true → ∃ p, s'.processAt (placeOf s'.currentlyExecutingProcess) = some p ∧
            p.level = .periodic)) ∨
        ∃ pl p, s'.processAt pl = some p ∧ p.level = .periodic ∧ p.name = name ∧
          s'.currentlyExecutingProcess = p.pid) := by
  unfold switchToPeriodic at h
  obtain ⟨_, _, h⟩ := bind_eq_ok.mp h
  obtain ⟨⟨⟨name, changed⟩, sch⟩, hcc, h⟩ := bind_eq_ok.mp h
  dsimp only at h
  split at h
  · -- the slot's process has yielded and the slot goes on
    simp only [pure_eq_ok, Except.ok.injEq, Prod.mk.injEq] at h
    obtain ⟨rfl, rfl⟩ := h
    exact ⟨name, changed, hcc, reschedules_setScheduler s sch, .inl ⟨rfl, by simp⟩⟩
  · obtain ⟨s₂, h₂, h⟩ := bind_eq_ok.mp h
    -- releasing the previously yielded process only changes its status
    have hs₂ : Reschedules s s₂ ∧ s₂.scheduler = sch ∧
        s₂.currentlyExecutingProcess = s.currentlyExecutingProcess := by
      split at h₂
      · obtain ⟨⟨pl, y⟩, hy, h₂⟩ := bind_eq_ok.mp h₂
        obtain ⟨_, _, h₂⟩ := bind_eq_ok.mp h₂
        simp only [pure_eq_ok, Except.ok.injEq] at h₂
        subst h₂
        have hat := (getProcessWithName_eq_some (expect_eq_ok.mp hy)).1
        exact ⟨(reschedules_setScheduler s sch).trans (reschedules_setAt hat _), by simp, by simp⟩
      · simp only [pure_eq_ok, Except.ok.injEq] at h₂
        subst h₂
        exact ⟨reschedules_setScheduler s sch, rfl, rfl⟩
    obtain ⟨hr₂, hsch₂, hcur₂⟩ := hs₂
    obtain ⟨⟨cpl, c⟩, hc, h⟩ := bind_eq_ok.mp h
    split at h
    · -- fast path: the slot's process is already current
      rename_i hfast
      simp only [pure_eq_ok, Except.ok.injEq, Prod.mk.injEq] at h
      obtain ⟨rfl, rfl⟩ := h
      obtain ⟨hpl, hcat⟩ := getCurrentProcessMut_eq_ok hc
      exact ⟨name, changed, hsch₂ ▸ hcc, hr₂, .inl ⟨hcur₂, fun _ => ⟨c, hpl ▸ hcat, hfast.1⟩⟩⟩
    · split at h
      · obtain ⟨⟨cpl', c'⟩, hc', h⟩ := bind_eq_ok.mp h
        obtain ⟨⟨npl, np⟩, hn, h⟩ := bind_eq_ok.mp h
        obtain ⟨_, _, h⟩ := bind_eq_ok.mp h
        simp only [pure_eq_ok, Except.ok.injEq, Prod.mk.injEq] at h
        obtain ⟨rfl, rfl⟩ := h
        have hcat := (getCurrentProcessMut_eq_ok hc').2
        obtain ⟨hnat, hlevel, hname⟩ := getProcessWithName_eq_some (expect_eq_ok.mp hn)
        have hr₃ := reschedules_setAt hcat .scheduled
        have hr₄ := reschedules_setAt hnat .running
        refine ⟨name, changed, by simpa [hsch₂] using hcc,
          ((hr₂.trans hr₃).trans hr₄).trans (reschedules_setCurrent _ _), .inr ?_⟩
        exact ⟨npl, np.setProcessStatus .running, processAt_setAt_self hnat _, hlevel rfl, hname, rfl⟩
      · simp only [pure_eq_ok, Except.ok.injEq, Prod.mk.injEq] at h
        obtain ⟨rfl, rfl⟩ := h
        exact ⟨name, changed, hsch₂ ▸ hcc, hr₂, .inl ⟨hcur₂, by simp⟩⟩

/-- `schedule_all_the_stuff` reschedules; either a device was queued, took
the CPU and the scheduler is unchanged, or the device queue was empty, one tick of the
slot was spent (when `tick`, and only if one was left) and the periodic
switch then ran on the scheduler. -/
theorem scheduleAllTheStuff_eq_ok {s s' : ProcessesManager} {tick : Bool}
    (h : s.scheduleAllTheStuff tick = .ok s') :
    Reschedules s s' ∧
      (s.scheduler.deviceQueue ≠ [] ∧ s'.scheduler = s.scheduler ∨
        s.scheduler.deviceQueue = [] ∧ (tick = true → s.scheduler.periodicTime ≠ 0) ∧
        ∃ name changed, (s.scheduler.spendTick tick).checkAndChangePeriodic =
          .ok ((name, changed), s'.scheduler)) := by
  unfold scheduleAllTheStuff at h
  obtain ⟨⟨toDevice, s₁⟩, hdev, h⟩ := bind_eq_ok.mp h
  obtain ⟨hr₁, hsch₁, hfalse, htrue⟩ := switchToDevice_eq_ok hdev
  cases toDevice with
  | true =>
      simp only [if_true, pure_eq_ok, Except.ok.injEq] at h
      subst h
      obtain ⟨d, -, hd, -⟩ := htrue rfl
      exact ⟨hr₁, .inl ⟨fun hq => by simp [hq] at hd, hsch₁⟩⟩
  | false =>
      obtain ⟨hq, hs₁⟩ := hfalse rfl
      subst s₁
      dsimp only at h
      obtain ⟨s₂, h₂, h⟩ := bind_eq_ok.mp h
      -- spending the tick touches the scheduler only
      have hs₂ : s₂ = { s with scheduler := s.scheduler.spendTick tick } ∧
          (tick = true → s.scheduler.periodicTime ≠ 0) := by
        cases tick with
        | false =>
            simp only [Bool.false_eq_true, if_false, pure_eq_ok, Except.ok.injEq] at h₂
            exact ⟨h₂.symm, by simp⟩
        | true =>
            obtain ⟨_, hchk, h₂⟩ := bind_eq_ok.mp (by simpa using h₂)
            simp only [Except.ok.injEq] at h₂
            exact ⟨h₂.symm, fun _ => check_eq_ok.mp hchk⟩
      obtain ⟨rfl, hpos⟩ := hs₂
      have hr₂ := reschedules_setScheduler s (s.scheduler.spendTick tick)
      obtain ⟨⟨toPeriodic, s₃⟩, hper, h⟩ := bind_eq_ok.mp h
      obtain ⟨name, changed, hcc, hr₃, -⟩ := switchToPeriodic_eq_ok hper
      cases toPeriodic with
      | true =>
          simp only [if_true, pure_eq_ok, Except.ok.injEq] at h
          subst h
          exact ⟨hr₂.trans hr₃, .inr ⟨hq, hpos, name, changed, hcc⟩⟩
      | false =>
          simp only [Bool.false_eq_true, if_false] at h
          obtain ⟨⟨toSporadic, s₄⟩, hspo, h⟩ := bind_eq_ok.mp h
          obtain ⟨hr₄, hsch₄, -, -⟩ := switchToSporadic_eq_ok hspo
          cases toSporadic with
          | true =>
              simp only [if_true, pure_eq_ok, Except.ok.injEq] at h
              subst h
              exact ⟨(hr₂.trans hr₃).trans hr₄, .inr ⟨hq, hpos, name, changed, hsch₄ ▸ hcc⟩⟩
          | false =>
              simp only [Bool.false_eq_true, if_false] at h
              obtain ⟨hr₅, hsch₅, -⟩ := switchToIdle_eq_ok h
              exact ⟨((hr₂.trans hr₃).trans hr₄).trans hr₅,
                .inr ⟨hq, hpos, name, changed, hsch₅ ▸ hsch₄ ▸ hcc⟩⟩

/-- The four ways `schedule_all_the_stuff` can end: a device takes the CPU;
or, with no device queued and after the optional tick, the periodic switch
succeeds, or it fails and the sporadic switch succeeds, or both fail and the
idle process runs. -/
theorem scheduleAllTheStuff_cases {s s' : ProcessesManager} {tick : Bool}
    (h : s.scheduleAllTheStuff tick = .ok s') :
    s.switchToDevice = .ok (true, s') ∨
      s.scheduler.deviceQueue = [] ∧ (tick = true → s.scheduler.periodicTime ≠ 0) ∧
        ({ s with scheduler := s.scheduler.spendTick tick }.switchToPeriodic = .ok (true, s') ∨
          ∃ s₃, { s with scheduler := s.scheduler.spendTick tick }.switchToPeriodic =
              .ok (false, s₃) ∧
            (s₃.switchToSporadic = .ok (true, s') ∨
              ∃ s₄, s₃.switchToSporadic = .ok (false, s₄) ∧ s₄.switchToIdle true = .ok s')) := by
  unfold scheduleAllTheStuff at h
  obtain ⟨⟨toDevice, s₁⟩, hdev, h⟩ := bind_eq_ok.mp h
  cases toDevice with
  | true =>
      simp only [if_true, pure_eq_ok, Except.ok.injEq] at h
      exact .inl (h ▸ hdev)
  | false =>
      obtain ⟨hq, hs₁⟩ := (switchToDevice_eq_ok hdev).2.2.1 rfl
      subst s₁
      dsimp only at h
      obtain ⟨s₂, h₂, h⟩ := bind_eq_ok.mp h
      -- the optional tick touches `periodic_time` only
      have hs₂ : s₂ = { s with scheduler := s.scheduler.spendTick tick } ∧
          (tick = true → s.scheduler.periodicTime ≠ 0) := by
        cases tick with
        | false =>
            simp only [Bool.false_eq_true, if_false, pure_eq_ok, Except.ok.injEq] at h₂
            exact ⟨h₂.symm, by simp⟩
        | true =>
            obtain ⟨_, hchk, h₂⟩ := bind_eq_ok.mp (by simpa using h₂)
            simp only [Except.ok.injEq] at h₂
            exact ⟨h₂.symm, fun _ => check_eq_ok.mp hchk⟩
      obtain ⟨rfl, hpos⟩ := hs₂
      refine .inr ⟨hq, hpos, ?_⟩
      obtain ⟨⟨toPeriodic, s₃⟩, hper, h⟩ := bind_eq_ok.mp h
      cases toPeriodic with
      | true =>
          simp only [if_true, pure_eq_ok, Except.ok.injEq] at h
          exact .inl (h ▸ hper)
      | false =>
          simp only [Bool.false_eq_true, if_false] at h
          obtain ⟨⟨toSporadic, s₄⟩, hspo, h⟩ := bind_eq_ok.mp h
          cases toSporadic with
          | true =>
              simp only [if_true, pure_eq_ok, Except.ok.injEq] at h
              exact .inr ⟨s₃, hper, .inl (h ▸ hspo)⟩
          | false =>
              simp only [Bool.false_eq_true, if_false] at h
              exact .inr ⟨s₃, hper, .inr ⟨s₄, hspo, h⟩⟩

end ProcessesManager

end Processes
end NoIdeaOS
