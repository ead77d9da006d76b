import NoIdeaOS.Processes.Frame

/-!
# What each operation does

One spec lemma per public method of `ProcessesManager`.  Each says how the
method changes the process table and the current pid, how its result is read
off the final state, and how it moves the slot fields of the scheduler
(`SlotStep`: not at all, or as one pass of `schedule_all_the_stuff` does).
The invariant modules are proved from these lemmas alone.
-/

namespace NoIdeaOS
namespace Processes

open Fallible Collections

namespace Scheduler

/-- `sch'` has the periodic table, slot position and slot ticks of `sch`. -/
def SameSlots (sch sch' : Scheduler) : Prop :=
  sch'.periodicOrder = sch.periodicOrder ∧ sch'.periodicIndex = sch.periodicIndex ∧
    sch'.periodicTime = sch.periodicTime

theorem SameSlots.refl (sch : Scheduler) : SameSlots sch sch :=
  ⟨rfl, rfl, rfl⟩

theorem SameSlots.trans {sch₁ sch₂ sch₃ : Scheduler} (h₁ : SameSlots sch₁ sch₂)
    (h₂ : SameSlots sch₂ sch₃) : SameSlots sch₁ sch₃ :=
  ⟨h₂.1.trans h₁.1, h₂.2.1.trans h₁.2.1, h₂.2.2.trans h₁.2.2⟩

/-- How one operation moves the slot fields: not at all, or by the optional
tick and `check_and_change_periodic` of one `schedule_all_the_stuff`, run on
a scheduler whose slot fields are those the operation started from. -/
def SlotStep (sch sch' : Scheduler) : Prop :=
  SameSlots sch sch' ∨
    ∃ sch₀ sch₁ tick name changed, SameSlots sch sch₀ ∧ (tick = true → sch₀.periodicTime ≠ 0) ∧
      (sch₀.spendTick tick).checkAndChangePeriodic = .ok ((name, changed), sch₁) ∧
      SameSlots sch₁ sch'

theorem SlotStep.of_sameSlots {sch sch' : Scheduler} (h : SameSlots sch sch') : SlotStep sch sch' :=
  .inl h

end Scheduler

namespace ProcessesManager

open Scheduler

/-- The slot fields after `schedule_all_the_stuff` are one `SlotStep` from
any scheduler with the slot fields of its input. -/
theorem slotStep_scheduleAllTheStuff {sch : Scheduler} {s s' : ProcessesManager} {tick : Bool}
    (hs : SameSlots sch s.scheduler) (h : s.scheduleAllTheStuff tick = .ok s') :
    SlotStep sch s'.scheduler := by
  rcases (scheduleAllTheStuff_eq_ok h).2 with ⟨-, hsame⟩ | ⟨_, htime, name, changed, hchk⟩
  · exact .of_sameSlots (hsame ▸ hs)
  · exact .inr ⟨s.scheduler, s'.scheduler, tick, name, changed, hs, htime, hchk, .refl _⟩

theorem endProcessWithPid_eq_ok {s s' : ProcessesManager} {pid : Pid} {res : Except Unit Unit}
    (h : s.endProcessWithPid pid = .ok (res, s')) :
    pid ≠ 0 ∧ pid - 1 < s.processesList.length ∧
      s'.processesList = s.processesList.set (pid - 1) none ∧
      s'.idleProcess = s.idleProcess ∧
      s'.currentlyExecutingProcess = s.currentlyExecutingProcess ∧
      SameSlots s.scheduler s'.scheduler ∧
      s'.scheduler.deviceQueue.Sublist s.scheduler.deviceQueue := by
  unfold endProcessWithPid at h
  obtain ⟨_, hpid, h⟩ := bind_eq_ok.mp h
  obtain ⟨slot, hslot, h⟩ := bind_eq_ok.mp h
  have hslot := List.getElem?_eq_some_iff.mp (expect_eq_ok.mp hslot)
  refine ⟨check_eq_ok.mp hpid, hslot.1, ?_⟩
  cases slot with
  | none =>
      -- the slot is already empty: `Err(())`, nothing changes
      simp only [pure_eq_ok, Except.ok.injEq, Prod.mk.injEq] at h
      obtain ⟨rfl, rfl⟩ := h
      refine ⟨?_, rfl, rfl, .refl _, .refl _⟩
      rw [← hslot.2, List.set_getElem_self]
  | some target =>
      obtain ⟨s₂, h₂, h⟩ := bind_eq_ok.mp h
      simp only [pure_eq_ok, Except.ok.injEq, Prod.mk.injEq] at h
      obtain ⟨rfl, rfl⟩ := h
      -- every level branch only touches the queues and the registry, and a
      -- Device's branch only drops entries of the device queue
      split at h₂
      · obtain ⟨s₃, h₃, h₂⟩ := bind_eq_ok.mp h₂
        simp only [pure_eq_ok, Except.ok.injEq] at h₂
        subst h₂
        split at h₃
        · obtain ⟨_, _, h₃⟩ := bind_eq_ok.mp h₃
          simp only [pure_eq_ok, Except.ok.injEq] at h₃
          subst h₃
          exact ⟨rfl, rfl, rfl, .refl _, List.filter_sublist.trans (List.tail_sublist _)⟩
        · simp only [pure_eq_ok, Except.ok.injEq] at h₃
          subst h₃
          exact ⟨rfl, rfl, rfl, .refl _, List.filter_sublist⟩
      · simp only [pure_eq_ok, Except.ok.injEq] at h₂
        subst h₂
        exact ⟨rfl, rfl, rfl, .refl _, .refl _⟩
      · split at h₂
        · obtain ⟨_, _, h₂⟩ := bind_eq_ok.mp h₂
          simp only [pure_eq_ok, Except.ok.injEq] at h₂
          subst h₂
          exact ⟨rfl, rfl, rfl, .refl _, .refl _⟩
        · simp only [pure_eq_ok, Except.ok.injEq] at h₂
          subst h₂
          exact ⟨rfl, rfl, rfl, .refl _, .refl _⟩
      · simp at h₂

/-- What `end_process_with_pid` does, branch by branch: an empty slot is
`Err(())` and changes nothing; otherwise the slot is emptied, the pid goes
back to the pool and, by the level of the process, a Device leaves the device
queue (after the front check when it is current), a Periodic process frees
its name, and a Sporadic process leaves the sporadic queue (popped from the
front, after the front check, when it is current). -/
theorem endProcessWithPid_cases {s s' : ProcessesManager} {pid : Pid} {res : Except Unit Unit}
    (h : s.endProcessWithPid pid = .ok (res, s')) :
    pid ≠ 0 ∧ pid - 1 < s.processesList.length ∧
      (s.processesList[pid - 1]? = some none ∧ s' = s ∨
        ∃ target, s.processesList[pid - 1]? = some (some target) ∧ target.level ≠ .idle ∧
          ∃ dq sq nameRegistry,
            s' = { s with processesList := s.processesList.set (pid - 1) none,
                          pidPool := s.pidPool.returnElem target.pid, nameRegistry,
                          scheduler.deviceQueue := dq, scheduler.sporadicQueue := sq } ∧
            (target.level = .device →
              (pid = s.currentlyExecutingProcess →
                s.scheduler.deviceQueue.head? = some target.pid) ∧
              dq = (if pid = s.currentlyExecutingProcess then s.scheduler.deviceQueue.tail
                else s.scheduler.deviceQueue).filter (fun c => c != target.pid) ∧
              sq = s.scheduler.sporadicQueue ∧ nameRegistry = s.nameRegistry) ∧
            (target.level = .periodic → dq = s.scheduler.deviceQueue ∧
              sq = s.scheduler.sporadicQueue ∧
              nameRegistry = (s.nameRegistry.clearBit target.name).2) ∧
            (target.level = .sporadic → dq = s.scheduler.deviceQueue ∧
              nameRegistry = s.nameRegistry ∧
              (pid = s.currentlyExecutingProcess →
                s.scheduler.sporadicQueue.head? = some target.pid ∧
                  sq = s.scheduler.sporadicQueue.tail) ∧
              (pid ≠ s.currentlyExecutingProcess →
                sq = s.scheduler.sporadicQueue.filter (fun c => c != pid)))) := by
  unfold endProcessWithPid at h
  obtain ⟨_, hpid, h⟩ := bind_eq_ok.mp h
  obtain ⟨slot, hslot, h⟩ := bind_eq_ok.mp h
  have hslot := expect_eq_ok.mp hslot
  refine ⟨check_eq_ok.mp hpid, (List.getElem?_eq_some_iff.mp hslot).1, ?_⟩
  cases slot with
  | none =>
      simp only [pure_eq_ok, Except.ok.injEq, Prod.mk.injEq] at h
      exact .inl ⟨hslot, h.2.symm⟩
  | some target =>
      obtain ⟨s₂, h₂, h⟩ := bind_eq_ok.mp h
      simp only [pure_eq_ok, Except.ok.injEq, Prod.mk.injEq] at h
      obtain ⟨rfl, rfl⟩ := h
      refine .inr ⟨target, hslot, ?_⟩
      split at h₂
      · -- a Device: the front check when it is current, then every copy leaves
        rename_i hl
        obtain ⟨s₃, h₃, h₂⟩ := bind_eq_ok.mp h₂
        simp only [pure_eq_ok, Except.ok.injEq] at h₂
        subst h₂
        refine ⟨by simp [hl], ?_⟩
        split at h₃
        · rename_i hcur
          obtain ⟨_, hfront, h₃⟩ := bind_eq_ok.mp h₃
          simp only [pure_eq_ok, Except.ok.injEq] at h₃
          subst h₃
          exact ⟨_, _, _, rfl, fun _ => ⟨fun _ => check_eq_ok.mp hfront, by simp [hcur], rfl, rfl⟩,
            by simp [hl], by simp [hl]⟩
        · rename_i hcur
          simp only [pure_eq_ok, Except.ok.injEq] at h₃
          subst h₃
          exact ⟨_, _, _, rfl, fun _ => ⟨fun h => absurd h hcur, by simp [hcur], rfl, rfl⟩,
            by simp [hl], by simp [hl]⟩
      · rename_i hl
        simp only [pure_eq_ok, Except.ok.injEq] at h₂
        subst h₂
        exact ⟨by simp [hl], _, _, _, rfl, by simp [hl], fun _ => ⟨rfl, rfl, rfl⟩, by simp [hl]⟩
      · -- a Sporadic process: popped when current, filtered out otherwise
        rename_i hl
        refine ⟨by simp [hl], ?_⟩
        split at h₂
        · rename_i hcur
          obtain ⟨_, hfront, h₂⟩ := bind_eq_ok.mp h₂
          simp only [pure_eq_ok, Except.ok.injEq] at h₂
          subst h₂
          exact ⟨_, _, _, rfl, by simp [hl], by simp [hl],
            fun _ => ⟨rfl, rfl, fun _ => ⟨check_eq_ok.mp hfront, rfl⟩, fun h => absurd hcur h⟩⟩
        · rename_i hcur
          simp only [pure_eq_ok, Except.ok.injEq] at h₂
          subst h₂
          exact ⟨_, _, _, rfl, by simp [hl], by simp [hl],
            fun _ => ⟨rfl, rfl, fun h => absurd h hcur, fun _ => rfl⟩⟩
      · simp at h₂

/-- `yield_current_process` saves the stack pointer into the current
process, reschedules, and returns the stack pointer of the process it
switched to. -/
theorem yieldCurrentProcess_eq_ok {s s' : ProcessesManager} {sp r : VirtAddr}
    (h : s.yieldCurrentProcess sp = .ok (r, s')) :
    (∃ pl cur, s.getCurrentProcessMut = .ok (pl, cur) ∧
      Reschedules (s.setAt pl (cur.setStackPos sp)) s') ∧
    (∃ p, s'.getCurrentProcess = .ok p ∧ r = p.stackPointer) ∧
    SlotStep s.scheduler s'.scheduler := by
  unfold yieldCurrentProcess at h
  obtain ⟨⟨pl, cur⟩, hcur, h⟩ := bind_eq_ok.mp h
  obtain ⟨s₂, h₂, h⟩ := bind_eq_ok.mp h
  obtain ⟨p, hp, h⟩ := bind_eq_ok.mp h
  simp only [pure_eq_ok, Except.ok.injEq, Prod.mk.injEq] at h
  obtain ⟨rfl, rfl⟩ := h
  have hat := processAt_setAt_self (getCurrentProcessMut_eq_ok hcur).2 (cur.setStackPos sp)
  set s₁ := s.setAt pl (cur.setStackPos sp)
  have key : Reschedules s₁ s₂ ∧ SlotStep s.scheduler s₂.scheduler := by
    split at h₂
    · -- device: leave the front of the device queue and reschedule without a tick
      obtain ⟨_, _, h₂⟩ := bind_eq_ok.mp h₂
      exact ⟨(reschedules_setScheduler _ _).trans (scheduleAllTheStuff_eq_ok h₂).1,
        slotStep_scheduleAllTheStuff (by simp [SameSlots, s₁]) h₂⟩
    · -- periodic: mark the slot yielded and fall through to sporadic or idle
      obtain ⟨⟨b, s₃⟩, h₃, h₂⟩ := bind_eq_ok.mp h₂
      have ⟨hr₃, hsch₃, _⟩ := switchToSporadic_eq_ok h₃
      have hr : Reschedules s₁ s₃ :=
        ((reschedules_setAt hat .yielded).trans (reschedules_setScheduler _ _)).trans hr₃
      have hslot : SameSlots s.scheduler s₃.scheduler := by
        simp [hsch₃, SameSlots, s₁]
      dsimp only at h₂
      split at h₂
      · simp only [pure_eq_ok, Except.ok.injEq] at h₂
        exact h₂ ▸ ⟨hr, .of_sameSlots hslot⟩
      · have ⟨hr₂, hsch₂, _⟩ := switchToIdle_eq_ok h₂
        exact ⟨hr.trans hr₂, .of_sameSlots (hsch₂ ▸ hslot)⟩
    · -- sporadic: go to the back of the sporadic queue
      obtain ⟨q, _, h₂⟩ := bind_eq_ok.mp h₂
      obtain ⟨⟨b, s₃⟩, h₃, h₂⟩ := bind_eq_ok.mp h₂
      simp only [pure_eq_ok, Except.ok.injEq] at h₂
      subst h₂
      have ⟨hr₃, hsch₃, _⟩ := switchToSporadic_eq_ok h₃
      refine ⟨((reschedules_setAt hat .scheduled).trans (reschedules_setScheduler _ _)).trans hr₃,
        .of_sameSlots (by simp [hsch₃, SameSlots, s₁])⟩
    · simp at h₂
  exact ⟨⟨pl, cur, hcur, key.1⟩, ⟨p, hp, rfl⟩, key.2⟩

/-- The timer tick saves the stack pointer into the current process (which
it requires to be running), queues the devices that are due, reschedules
unless a device is running, and returns the stack pointer of the process
now running. -/
theorem nextTickPreemptProcess_eq_ok {s s' : ProcessesManager} {sp : VirtAddr}
    {r : Option VirtAddr} (h : s.nextTickPreemptProcess sp = .ok (r, s')) :
    (∃ pl cur, s.getCurrentProcessMut = .ok (pl, cur) ∧ cur.status = .running ∧
      Reschedules (s.setAt pl (cur.setStackPos sp)) s') ∧
    (∃ p, s'.getCurrentProcess = .ok p ∧ r = some p.stackPointer) ∧
    SlotStep s.scheduler s'.scheduler := by
  unfold nextTickPreemptProcess at h
  obtain ⟨due, _, h⟩ := bind_eq_ok.mp h
  obtain ⟨⟨pl, cur⟩, hcur, h⟩ := bind_eq_ok.mp h
  obtain ⟨_, hrun, h⟩ := bind_eq_ok.mp h
  obtain ⟨s₂, h₂, h⟩ := bind_eq_ok.mp h
  obtain ⟨p, hp, h⟩ := bind_eq_ok.mp h
  simp only [pure_eq_ok, Except.ok.injEq, Prod.mk.injEq] at h
  obtain ⟨rfl, rfl⟩ := h
  -- the tick only touched the scheduler before the current process was borrowed
  have hr₁ : Reschedules (s.setAt pl (cur.setStackPos sp))
      ({ s with scheduler.time := s.scheduler.time + 1,
                scheduler.deviceQueue := s.scheduler.deviceQueue ++ due }.setAt pl
        (cur.setStackPos sp)) := by
    cases pl <;> exact ⟨rfl, rfl, rfl, rfl⟩
  have key : Reschedules (s.setAt pl (cur.setStackPos sp)) s₂ ∧
      SlotStep s.scheduler s₂.scheduler := by
    split at h₂
    · -- a running device keeps the CPU
      simp only [pure_eq_ok, Except.ok.injEq] at h₂
      subst h₂
      exact ⟨hr₁, .of_sameSlots (by simp [SameSlots])⟩
    all_goals exact ⟨hr₁.trans (scheduleAllTheStuff_eq_ok h₂).1,
      slotStep_scheduleAllTheStuff (by simp [SameSlots]) h₂⟩
  exact ⟨⟨pl, cur, hcur, check_eq_ok.mp hrun, key.1⟩, ⟨p, hp, rfl⟩, key.2⟩

/-- `end_current_process` removes the current process, reschedules with a
tick, and returns the stack pointer of the process now running. -/
theorem endCurrentProcess_eq_ok {s s' : ProcessesManager} {r : VirtAddr}
    (h : s.endCurrentProcess = .ok (r, s')) :
    (∃ res s₁, s.endProcessWithPid s.currentlyExecutingProcess = .ok (res, s₁) ∧
      Reschedules s₁ s') ∧
    (∃ p, s'.getCurrentProcess = .ok p ∧ r = p.stackPointer) ∧
    SlotStep s.scheduler s'.scheduler := by
  unfold endCurrentProcess at h
  obtain ⟨⟨res, s₁⟩, h₁, h⟩ := bind_eq_ok.mp h
  obtain ⟨s₂, h₂, h⟩ := bind_eq_ok.mp h
  obtain ⟨s₃, h₃, h⟩ := bind_eq_ok.mp h
  obtain ⟨p, hp, h⟩ := bind_eq_ok.mp h
  simp only [pure_eq_ok, Except.ok.injEq, Prod.mk.injEq] at h
  obtain ⟨rfl, rfl⟩ := h
  have ⟨hr₂, hsch₂, _⟩ := switchToIdle_eq_ok h₂
  have hslot : SameSlots s.scheduler s₂.scheduler :=
    hsch₂ ▸ (endProcessWithPid_eq_ok h₁).2.2.2.2.2.1
  exact ⟨⟨res, s₁, h₁, hr₂.trans (scheduleAllTheStuff_eq_ok h₃).1⟩, ⟨p, hp, rfl⟩,
    slotStep_scheduleAllTheStuff hslot h₃⟩

/-- The slots after writing `v` into slot `i` of a vector that holds the
processes of `s`. -/
theorem processAt_of_set {s s' : ProcessesManager} {l : List (Option Process)} {i : Nat}
    {v : Option Process} (hl : s'.processesList = l.set i v) (hlt : i < l.length)
    (hjoin : ∀ j : Nat, (l[j]?).join = (s.processesList[j]?).join)
    (hi : s'.idleProcess = s.idleProcess) (pl : Place) :
    s'.processAt pl = if pl = .slot i then v else s.processAt pl := by
  cases pl with
  | idle => simp [processAt, hi]
  | slot j =>
      simp only [processAt, hl, List.getElem?_set, Place.slot.injEq, hlt, if_true]
      by_cases hij : i = j
      · subst hij
        simp
      · simp [hij, Ne.symm hij, hjoin]

/-- `Vec::resize` past the end only adds empty slots. -/
theorem join_getElem?_resize {l : List (Option Process)} {n : Nat} (hn : l.length ≤ n) (j : Nat) :
    ((resize l n none)[j]?).join = (l[j]?).join := by
  rw [resize, List.take_of_length_le hn]
  by_cases hj : j < l.length
  · rw [List.getElem?_append_left hj]
  · rw [List.getElem?_append_right (Nat.le_of_not_lt hj), List.getElem?_replicate,
      List.getElem?_eq_none (Nat.le_of_not_lt hj)]
    split <;> rfl

theorem length_resize {α : Type} (l : List α) (n : Nat) (v : α) : (resize l n v).length = n := by
  simp only [resize, List.length_append, List.length_take, List.length_replicate]
  omega

/-- What `create_new_process` does once the level is accepted: the pid is
the pool's next free one, its slot was empty and now holds the new process,
and a sporadic process joins the back of the sporadic queue. -/
theorem insertNewProcess_eq_ok {s s' : ProcessesManager} {level : SchedulingLevel} {name : Name}
    {arg : Int} {stack : Option StackBounds} {res : Except Unit Unit}
    (h : s.insertNewProcess level name arg stack = .ok (res, s')) :
    ∃ p, Process.new s.pidPool.getFreeElem.1 level name arg stack = .ok p ∧ p.pid ≠ 0 ∧
      s.processAt (placeOf p.pid) = none ∧
      (∀ pl, s'.processAt pl = if pl = placeOf p.pid then some p else s.processAt pl) ∧
      s'.idleProcess = s.idleProcess ∧
      s'.currentlyExecutingProcess = s.currentlyExecutingProcess ∧
      s'.pidPool = s.pidPool.getFreeElem.2 ∧ s'.nameRegistry = s.nameRegistry ∧
      s'.scheduler = { s.scheduler with sporadicQueue := if level = .sporadic then
          s.scheduler.sporadicQueue ++ [p.pid] else s.scheduler.sporadicQueue } := by
  unfold insertNewProcess at h
  rcases hfree : s.pidPool.getFreeElem with ⟨pid, pool⟩
  rw [hfree] at h
  dsimp only at h
  obtain ⟨p, hp, h⟩ := bind_eq_ok.mp h
  obtain ⟨idx, hidx, h⟩ := bind_eq_ok.mp h
  obtain ⟨slot, hslot, h⟩ := bind_eq_ok.mp h
  obtain ⟨_, hnone, h⟩ := bind_eq_ok.mp h
  simp only [pure_eq_ok, Except.ok.injEq, Prod.mk.injEq] at h
  obtain ⟨rfl, rfl⟩ := h
  obtain ⟨hpid, rfl⟩ := Process.getIdx_eq_ok hidx
  have hpl : placeOf p.pid = .slot (p.pid - 1) := by simp [placeOf, hpid]
  -- the vector after the optional `resize` still holds the processes of `s`
  have hjoin : ∀ j : Nat, ((if p.pid - 1 ≥ s.processesList.length then
      resize s.processesList (p.pid - 1 + 1) none else s.processesList)[j]?).join =
      (s.processesList[j]?).join := by
    intro j
    split
    next hge => exact join_getElem?_resize (Nat.le_succ_of_le hge) j
    next => rfl
  obtain ⟨hlt, hget⟩ := List.getElem?_eq_some_iff.mp (expect_eq_ok.mp hslot)
  have hempty : slot = none := check_eq_ok.mp hnone
  refine ⟨p, hp, hpid, ?_, fun pl => ?_, rfl, rfl, rfl, rfl, rfl⟩
  · rw [hpl, processAt, ← hjoin, List.getElem?_eq_getElem hlt, hget, hempty]
    rfl
  · rw [hpl]
    exact processAt_of_set (by rfl) hlt hjoin (by rfl) pl

/-- `create_new_process` either refuses a periodic name that is already
taken, changing nothing, or inserts the process, after registering the name
of a periodic one (which must be in the periodic table). -/
theorem createNewProcess_eq_ok {s s' : ProcessesManager} {level : SchedulingLevel} {name : Name}
    {arg : Int} {stack : Option StackBounds} {res : Except Unit Unit}
    (h : s.createNewProcess level name arg stack = .ok (res, s')) :
    (level = .periodic ∧ s.nameRegistry.checkBit name = true ∧ res = .error () ∧ s' = s) ∨
      (level ≠ .idle ∧ ∃ nameRegistry,
        (level = .periodic → s.nameRegistry.checkBit name = false ∧
          nameRegistry = (s.nameRegistry.setBit name).2 ∧
          s.scheduler.periodicOrder.any (fun e => e.1 == name) = true) ∧
        (level ≠ .periodic → nameRegistry = s.nameRegistry) ∧
        { s with nameRegistry }.insertNewProcess level name arg stack = .ok (res, s')) := by
  unfold createNewProcess at h
  cases level with
  | device => exact .inr ⟨by simp, s.nameRegistry, by simp, fun _ => rfl, h⟩
  | sporadic => exact .inr ⟨by simp, s.nameRegistry, by simp, fun _ => rfl, h⟩
  | idle => simp [throw, throwThe, MonadExceptOf.throw] at h
  | periodic =>
      have hfst := DynamicBitmap.setBit_fst s.nameRegistry name
      rcases hset : s.nameRegistry.setBit name with ⟨changed, reg⟩
      rw [hset] at h hfst
      dsimp only at h hfst
      cases changed with
      | false =>
          -- the name is taken: `Err(())` and the registry is left as it was
          simp only [Bool.not_false, if_true, pure_eq_ok, Except.ok.injEq, Prod.mk.injEq] at h
          obtain ⟨rfl, rfl⟩ := h
          have hreg : reg = s.nameRegistry := by
            have hsnd := DynamicBitmap.setBit_snd_of_fst_false
              (show (s.nameRegistry.setBit name).1 = false by rw [hset])
            rwa [hset] at hsnd
          subst hreg
          exact .inl ⟨rfl, by simpa using hfst.symm, rfl, rfl⟩
      | true =>
          simp only [Bool.not_true, Bool.false_eq_true, if_false] at h
          obtain ⟨_, horder, h⟩ := bind_eq_ok.mp h
          refine .inr ⟨by simp, reg, fun _ => ⟨by simpa using hfst.symm, rfl,
            check_eq_ok.mp horder⟩, fun hne => absurd rfl hne, h⟩

/-- What a creation does to the process table: at most one place, empty
before, now holds a new process whose stack pointer is the fake frame below
the end of its stack; the current pid stays. -/
theorem createNewProcess_processAt {s s' : ProcessesManager} {level : SchedulingLevel}
    {name : Name} {arg : Int} {stack : Option StackBounds} {res : Except Unit Unit}
    (h : s.createNewProcess level name arg stack = .ok (res, s')) :
    s'.currentlyExecutingProcess = s.currentlyExecutingProcess ∧
      ∀ pl, s'.processAt pl = s.processAt pl ∨
        (s.processAt pl = none ∧ ∃ p bounds, stack = some bounds ∧ s'.processAt pl = some p ∧
          p.stackPointer = Process.asmFakeRegister bounds.«end») := by
  rcases createNewProcess_eq_ok h with ⟨-, -, -, rfl⟩ | ⟨-, reg, -, -, hins⟩
  · exact ⟨rfl, fun _ => .inl rfl⟩
  · obtain ⟨p, hnew, -, hfree, hat, -, hcurr, -⟩ := insertNewProcess_eq_ok hins
    obtain ⟨-, bounds, hstack, hp⟩ := Process.new_eq_ok hnew
    refine ⟨hcurr, fun pl => ?_⟩
    rw [hat pl]
    split
    next hpl => exact .inr ⟨hpl ▸ hfree, p, bounds, hstack, rfl, by rw [hp]⟩
    next => exact .inl rfl

/-- `unyield_current_periodic` clears the yielded flag, which must be set. -/
theorem unyieldCurrentPeriodic_eq_ok {s s' : ProcessesManager}
    (h : s.unyieldCurrentPeriodic = .ok s') :
    s.scheduler.periodicYielded = true ∧ s' = { s with scheduler.periodicYielded := false } := by
  simp only [unyieldCurrentPeriodic, bind_eq_ok, check_eq_ok, pure_eq_ok, Except.ok.injEq] at h
  obtain ⟨_, hy, rfl⟩ := h
  exact ⟨hy, rfl⟩

/-- The slots after removing the process of slot `i`. -/
theorem processAt_of_set_none {s s' : ProcessesManager} {i : Nat}
    (hl : s'.processesList = s.processesList.set i none) (hlt : i < s.processesList.length)
    (hi : s'.idleProcess = s.idleProcess) (pl : Place) :
    s'.processAt pl = if pl = .slot i then none else s.processAt pl :=
  processAt_of_set hl hlt (fun _ => rfl) hi pl

/-- One `end_process_with_pid` of the loop of `end_all_other_processes`. -/
def endOne (s : ProcessesManager) (pid : Pid) : Except Panic ProcessesManager := do
  let (_, s) ← s.endProcessWithPid pid
  pure s

theorem endAllOtherProcesses_eq_foldlM (s : ProcessesManager) :
    s.endAllOtherProcesses =
      (((s.processesList.filterMap id).map Process.pid).filter
        fun c => c != s.currentlyExecutingProcess).foldlM endOne s :=
  rfl

/-- Ending processes one by one only empties slots. -/
theorem foldlM_endOne_eq_ok {pids : List Pid} {s s' : ProcessesManager}
    (h : pids.foldlM endOne s = .ok s') :
    s'.idleProcess = s.idleProcess ∧
      s'.currentlyExecutingProcess = s.currentlyExecutingProcess ∧
      SameSlots s.scheduler s'.scheduler ∧
      ∀ pl, s'.processAt pl = s.processAt pl ∨ s'.processAt pl = none := by
  induction pids generalizing s with
  | nil =>
      simp only [List.foldlM_nil, pure_eq_ok, Except.ok.injEq] at h
      subst h
      exact ⟨rfl, rfl, .refl _, fun _ => .inl rfl⟩
  | cons pid pids ih =>
      simp only [List.foldlM_cons] at h
      obtain ⟨s₁, h₁, h⟩ := bind_eq_ok.mp h
      obtain ⟨⟨res, s₂⟩, h₂, h₁⟩ := bind_eq_ok.mp h₁
      simp only [pure_eq_ok, Except.ok.injEq] at h₁
      subst h₁
      obtain ⟨_, hlt, hl, hi, hc, hslot, -⟩ := endProcessWithPid_eq_ok h₂
      obtain ⟨hi', hc', hslot', hat⟩ := ih h
      refine ⟨hi'.trans hi, hc'.trans hc, hslot.trans hslot', fun pl => ?_⟩
      rcases hat pl with heq | hnone
      · rw [heq, processAt_of_set_none hl hlt hi]
        split
        · exact .inr rfl
        · exact .inl rfl
      · exact .inr hnone

theorem endAllOtherProcesses_eq_ok {s s' : ProcessesManager}
    (h : s.endAllOtherProcesses = .ok s') :
    s'.idleProcess = s.idleProcess ∧
      s'.currentlyExecutingProcess = s.currentlyExecutingProcess ∧
      SameSlots s.scheduler s'.scheduler ∧
      ∀ pl, s'.processAt pl = s.processAt pl ∨ s'.processAt pl = none :=
  foldlM_endOne_eq_ok (endAllOtherProcesses_eq_foldlM s ▸ h)

/-- Every operation moves the slot fields by at most one scheduling pass. -/
theorem slotStep_step {s s' : ProcessesManager} {op : Operation} (h : s.step op = .ok s') :
    SlotStep s.scheduler s'.scheduler := by
  cases op with
  | createNewProcess level name arg stack =>
      obtain ⟨res, hc⟩ := map_snd_eq_ok h
      rcases createNewProcess_eq_ok hc with ⟨_, _, _, rfl⟩ | ⟨_, reg, _, _, hins⟩
      · exact .of_sameSlots (.refl _)
      · obtain ⟨p, -, -, -, -, -, -, -, -, hsch⟩ := insertNewProcess_eq_ok hins
        exact .of_sameSlots (by rw [hsch]; exact ⟨rfl, rfl, rfl⟩)
  | yieldCurrentProcess sp =>
      obtain ⟨r, hy⟩ := map_snd_eq_ok h
      exact (yieldCurrentProcess_eq_ok hy).2.2
  | endCurrentProcess =>
      obtain ⟨r, he⟩ := map_snd_eq_ok h
      exact (endCurrentProcess_eq_ok he).2.2
  | endAllOtherProcesses => exact .of_sameSlots (endAllOtherProcesses_eq_ok h).2.2.1
  | nextTickPreemptProcess sp =>
      obtain ⟨r, ht⟩ := map_snd_eq_ok h
      exact (nextTickPreemptProcess_eq_ok ht).2.2
  | unyieldCurrentPeriodic =>
      obtain ⟨_, rfl⟩ := unyieldCurrentPeriodic_eq_ok h
      exact .of_sameSlots ⟨rfl, rfl, rfl⟩

end ProcessesManager

end Processes
end NoIdeaOS
