import NoIdeaOS.Processes.Operations
import NoIdeaOS.Processes.Invariants

/-!
# Where the code departs from the scheduling rules

Two rules the design states for the process manager, and the operations
that do not follow them.

* Only timer ticks consume periodic time.  `end_current_process` ends with
  `schedule_all_the_stuff(true)`, so ending a process spends a unit of the
  current slot exactly as a tick does (`endCurrentProcess_spends_periodic_time`).
* A signal hands the CPU to the periodic process waiting on it.  `os_signal`
  runs `unyield_current_periodic` and lets its Sporadic caller yield; the
  Sporadic branch of `yield_current_process` only rotates the sporadic queue
  and calls `switch_to_sporadic`, which never touches the slot's process:
  it stays where it was, `Yielded`
  (`sporadic_yield_leaves_periodic_yielded`).

The second result rests on a frame lemma for `switch_to_sporadic` and a spec
lemma for the Sporadic branch of `yield_current_process`; each result is
followed by a run from `ProcessesManager::new` that reaches it.
-/

namespace NoIdeaOS
namespace Processes

open Fallible Collections

namespace ProcessesManager

/-- `end_current_process` ends with `schedule_all_the_stuff(true)`: when no
Device is queued, it spends one unit of the current slot as a tick does. -/
theorem endCurrentProcess_spends_periodic_time {s s' : ProcessesManager} {r : VirtAddr}
    (hq : s.scheduler.deviceQueue = []) (htime : 1 < s.scheduler.periodicTime)
    (h : s.endCurrentProcess = .ok (r, s')) :
    s'.scheduler.periodicTime = s.scheduler.periodicTime - 1 ∧
      s'.scheduler.periodicIndex = s.scheduler.periodicIndex := by
  unfold endCurrentProcess at h
  obtain ⟨⟨res, s₁⟩, h₁, h⟩ := bind_eq_ok.mp h
  obtain ⟨s₂, h₂, h⟩ := bind_eq_ok.mp h
  obtain ⟨s₃, h₃, h⟩ := bind_eq_ok.mp h
  obtain ⟨p, -, h⟩ := bind_eq_ok.mp h
  simp only [pure_eq_ok, Except.ok.injEq, Prod.mk.injEq] at h
  obtain ⟨-, rfl⟩ := h
  obtain ⟨-, -, -, -, -, ⟨-, hidx₁, htime₁⟩, hsub⟩ := endProcessWithPid_eq_ok h₁
  obtain ⟨-, hsch₂, -⟩ := switchToIdle_eq_ok h₂
  have hq₂ : s₂.scheduler.deviceQueue = [] := by
    rw [hsch₂]
    exact List.sublist_nil.mp (hq ▸ hsub)
  rcases (scheduleAllTheStuff_eq_ok h₃).2 with ⟨hne, -⟩ | ⟨-, -, name, changed, hchk⟩
  · exact absurd hq₂ hne
  · rcases Scheduler.checkAndChangePeriodic_eq_ok hchk with ⟨-, -, hsch, -⟩ | ⟨hzero, -⟩
    · simp [hsch, Scheduler.spendTick, hsch₂, htime₁, hidx₁]
    · -- a slot with more than one unit left cannot end here
      have hend : s.scheduler.periodicTime - 1 = 0 := by
        simpa [Scheduler.spendTick, hsch₂, htime₁] using hzero
      omega

/-- Periodic process 1 runs after one tick, at the start of its slot; ending
it spends a unit of the slot. -/
theorem endCurrentProcess_spends_periodic_time_after_tick :
    ∃ s s' r, bootState.run [.createNewProcess .periodic 1 0 (some { start := 4096, «end» := 8192 }),
        .nextTickPreemptProcess 100] = .ok s ∧
      s.scheduler.deviceQueue = [] ∧ 1 < s.scheduler.periodicTime ∧
      s.endCurrentProcess = .ok (r, s') ∧
      s'.scheduler.periodicTime = s.scheduler.periodicTime - 1 ∧
      s'.scheduler.periodicIndex = s.scheduler.periodicIndex := by
  refine ⟨_, _, _, rfl, rfl, by decide, rfl, endCurrentProcess_spends_periodic_time rfl (by decide) rfl⟩

/-- `switch_to_sporadic` writes only the place of the queue's front and the
place of the process that was current. -/
theorem switchToSporadic_processAt_of_ne {s s' : ProcessesManager} {b : Bool} {pl : Place}
    (h : s.switchToSporadic = .ok (b, s')) (hcur : pl ≠ placeOf s.currentlyExecutingProcess)
    (hfront : ∀ q ∈ s.scheduler.sporadicQueue.head?, pl ≠ placeOf q) :
    s'.processAt pl = s.processAt pl := by
  unfold switchToSporadic at h
  split at h
  · simp only [pure_eq_ok, Except.ok.injEq, Prod.mk.injEq] at h
    rw [← h.2]
  · rename_i q hq
    obtain ⟨⟨npl, p⟩, hnew, h⟩ := bind_eq_ok.mp h
    obtain ⟨rfl, hat⟩ := getProcessMutWithPid_eq_some (expect_eq_ok.mp hnew)
    set s₁ := s.setAt (placeOf q) (p.setProcessStatus .running) with hs₁
    have h₁ : s₁.processAt pl = s.processAt pl := by
      rw [hs₁, processAt_setAt hat, if_neg (hfront q hq)]
    dsimp only at h
    split at h
    · obtain ⟨⟨cpl, c⟩, hc, h⟩ := bind_eq_ok.mp h
      obtain ⟨rfl, hcat⟩ := getCurrentProcessMut_eq_ok hc
      simp only [pure_eq_ok, Except.ok.injEq, Prod.mk.injEq] at h
      obtain ⟨-, rfl⟩ := h
      have h₂ : (if c.status = .running then s₁.setAt (placeOf s₁.currentlyExecutingProcess)
          (c.setProcessStatus .scheduled) else s₁).processAt pl = s₁.processAt pl := by
        split
        · rw [processAt_setAt hcat, if_neg (by simpa [hs₁] using hcur)]
        · rfl
      exact h₂.trans h₁
    · simp only [pure_eq_ok, Except.ok.injEq, Prod.mk.injEq] at h
      rw [← h.2, h₁]

/-- The Sporadic branch of `yield_current_process`: the caller, with the
saved stack pointer, is marked `Scheduled`, the sporadic queue rotates by
one and `switch_to_sporadic` runs on the result. -/
theorem yieldCurrentProcess_sporadic_eq_ok {s s' : ProcessesManager} {sp r : VirtAddr}
    {pl : Place} {cur : Process} (hcur : s.getCurrentProcessMut = .ok (pl, cur))
    (hlevel : cur.level = .sporadic) (h : s.yieldCurrentProcess sp = .ok (r, s')) :
    ∃ q b, rotateLeft s.scheduler.sporadicQueue 1 = .ok q ∧
      ({ (s.setAt pl (cur.setStackPos sp)).setAt pl
          ((cur.setStackPos sp).setProcessStatus .scheduled) with
        scheduler.sporadicQueue := q }).switchToSporadic = .ok (b, s') := by
  unfold yieldCurrentProcess at h
  rw [hcur] at h
  simp only [ok_bind, Process.setStackPos_level, hlevel] at h
  obtain ⟨s₂, h₂, h⟩ := bind_eq_ok.mp h
  obtain ⟨p, -, h⟩ := bind_eq_ok.mp h
  simp only [pure_eq_ok, Except.ok.injEq, Prod.mk.injEq] at h
  obtain ⟨-, rfl⟩ := h
  obtain ⟨q, hq, h₂⟩ := bind_eq_ok.mp h₂
  obtain ⟨⟨b, s₃⟩, h₃, h₂⟩ := bind_eq_ok.mp h₂
  simp only [pure_eq_ok, Except.ok.injEq] at h₂
  subst h₂
  exact ⟨q, b, by simpa using hq, h₃⟩

/-- Replacing the scheduler leaves every place as it was. -/
@[simp] theorem processAt_setScheduler (s : ProcessesManager) (sch : Scheduler) (pl : Place) :
    ({ s with scheduler := sch } : ProcessesManager).processAt pl = s.processAt pl := rfl

/-- When a Sporadic process signals the periodic process of the slot and
yields, `switch_to_sporadic` runs the front of the rotated sporadic queue,
and the place of the periodic process is left exactly as it was: the
process there is still `Yielded` and does not run. -/
theorem sporadic_yield_leaves_periodic_yielded {s s₁ s₂ : ProcessesManager} {pl : Place}
    {P S : Process} {r : VirtAddr} (sp : VirtAddr) (hbook : BookkeepingInv s)
    (hP : s.processAt pl = some P) (hperiodic : P.level = .periodic)
    (hcur : s.getCurrentProcess = .ok S) (hsporadic : S.level = .sporadic)
    (h₁ : s.unyieldCurrentPeriodic = .ok s₁) (h₂ : s₁.yieldCurrentProcess sp = .ok (r, s₂)) :
    s₂.processAt pl = s.processAt pl := by
  obtain ⟨-, rfl⟩ := unyieldCurrentPeriodic_eq_ok h₁
  have hSat := getCurrentProcess_eq_ok hcur
  obtain ⟨⟨cpl, cur, hmut, -⟩, -, -⟩ := yieldCurrentProcess_eq_ok h₂
  obtain ⟨rfl, hcat⟩ := getCurrentProcessMut_eq_ok hmut
  -- the borrowed process is the Sporadic caller
  obtain rfl : cur = S := Option.some.inj (hcat.symm.trans hSat)
  obtain ⟨q, b, hrot, hsw⟩ := yieldCurrentProcess_sporadic_eq_ok hmut hsporadic h₂
  -- the slot's process is neither the caller nor the front of the rotated queue
  have hne : pl ≠ placeOf s.currentlyExecutingProcess := by
    rintro rfl
    rw [hSat, Option.some.injEq] at hP
    rw [← hP, hsporadic] at hperiodic
    cases hperiodic
  have hfront : ∀ x ∈ q.head?, pl ≠ placeOf x := by
    rintro x hx rfl
    have hxq : x ∈ s.scheduler.sporadicQueue := by
      simp only [rotateLeft, bind_eq_ok, check_eq_ok, pure_eq_ok, Except.ok.injEq] at hrot
      obtain ⟨-, -, rfl⟩ := hrot
      exact List.mem_rotate.mp (List.mem_of_mem_head? hx)
    rw [level_of_mem_sporadicQueue hbook hxq hP] at hperiodic
    cases hperiodic
  rw [switchToSporadic_processAt_of_ne hsw (by simpa using hne) hfront, processAt_setScheduler,
    processAt_setAt (processAt_setAt_self hcat _), if_neg hne, processAt_setAt hcat, if_neg hne]
  rfl

/-- Periodic process 1 yields to Sporadic process 7, which then signals it
and yields.  The state before the signal satisfies both invariants; after
it process 1 is still `Yielded`, and the next tick panics. -/
theorem sporadic_yield_leaves_periodic_yielded_after_signal :
    ∃ s s₁ s₂ P S r, bootState.run
        [.createNewProcess .periodic 1 0 (some { start := 4096, «end» := 8192 }),
         .createNewProcess .sporadic 7 0 (some { start := 4096, «end» := 8192 }),
         .nextTickPreemptProcess 100, .yieldCurrentProcess 200] = .ok s ∧
      StatusInv s ∧ BookkeepingInv s ∧
      s.processAt (.slot 0) = some P ∧ P.level = .periodic ∧ P.status = .yielded ∧
      s.scheduler.periodicYielded = true ∧
      s.getCurrentProcess = .ok S ∧ S.level = .sporadic ∧
      s.unyieldCurrentPeriodic = .ok s₁ ∧ s₁.yieldCurrentProcess 300 = .ok (r, s₂) ∧
      s₂.processAt (.slot 0) = s.processAt (.slot 0) ∧
      s₂.nextTickPreemptProcess 400 = .error (.newProcessAlreadyRunning 1) := by
  refine ⟨_, _, _, _, _, _, rfl, by decide, by decide, rfl, rfl, rfl, rfl, rfl, rfl, rfl, rfl,
    ?_, by decide⟩
  exact sporadic_yield_leaves_periodic_yielded 300 (by decide) rfl rfl rfl rfl rfl rfl

end ProcessesManager

end Processes
end NoIdeaOS
