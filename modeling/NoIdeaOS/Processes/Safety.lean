import NoIdeaOS.Processes.Table
import NoIdeaOS.Processes.Slots

/-!
# The bookkeeping checks never fail

`processes/mod.rs` guards its bookkeeping with `expect`s, `assert!`s and
indexing: a new pid's slot must be in range and free, a pid in either queue
and the current pid must name a process, a name in the registry must name a
Periodic process, a current Device or Sporadic process must be at the front
of its queue (which `rotate_left` then finds non-empty), and no slot may
hold an Idle process.  `Panic.isBookkeeping` flags the panics of these
checks.

None of them fires on any run from `new` (`bookkeeping_checks_never_fail`).
Between operations the table invariant of `Table` holds and the slot
position is inside the periodic table (`Slots`); from such a state every
operation can stop only at a check on the caller's request or on process
statuses, at an arithmetic check, or at one of the checks that `Panics`
shows reachable.

The proofs use the program logic `Avoids` of `Fallible`.  Each helper and
each operation has one lemma: `*_ok` where it cannot fail at all, and
`avoids_*` where it can only fail harmlessly, with what it returns where
the caller needs it (mostly that the current pid stays live, `Booked`).
-/

namespace NoIdeaOS
namespace Processes

open Fallible Collections

/-- The panics of the checks that guard the manager's own bookkeeping.  The
others check the caller's request (`createIdle`, `nameNotInOrder`,
`allocStackFailed`, `idleYield`, `unyieldNotYielded`), process statuses
(`notRunning`, `previouslyYieldedNotYielded`, `newProcessAlreadyRunning`)
or arithmetic (`subtractOverflow`, `remainderByZero`), or are the ones
`Panics` shows reachable (`switchToSelf`, `yieldedProcessNotFound`). -/
def Panic.isBookkeeping : Panic → Bool
  | .pidNotEmpty | .newIdle | .deviceNotAtFront | .sporadicNotAtFront | .idleEnd
  | .deviceQueueEntryMissing | .oldProcessMissing | .processNotFound
  | .sporadicQueueEntryMissing | .currentProcessMissing | .currentProcessMissingOf _
  | .rotateLeftTooFar | .indexOutOfBounds _ _ => true
  | _ => false

namespace Scheduler

variable {sch : Scheduler}

theorem getCurrentPeriodicEntry_ok (hi : sch.periodicIndex < sch.periodicOrder.length) :
    ∃ e, sch.getCurrentPeriodicEntry = .ok e :=
  ⟨sch.periodicOrder[sch.periodicIndex], by simp [getCurrentPeriodicEntry, hi]⟩

/-- With the slot position inside the table, `check_and_change_periodic`
finds the entry it moves to. -/
theorem checkAndChangePeriodic_ok (hi : sch.periodicIndex < sch.periodicOrder.length) :
    ∃ r, sch.checkAndChangePeriodic = .ok r := by
  obtain ⟨e, he⟩ := getCurrentPeriodicEntry_ok hi
  unfold checkAndChangePeriodic
  split
  · rw [he]
    exact ⟨_, rfl⟩
  · have hlen : sch.periodicOrder.length ≠ 0 := Nat.ne_zero_of_lt hi
    obtain ⟨e', he'⟩ : ∃ e', ({ sch with periodicIndex := (sch.periodicIndex + 1) %
        sch.periodicOrder.length } : Scheduler).getCurrentPeriodicEntry = .ok e' :=
      getCurrentPeriodicEntry_ok (Nat.mod_lt _ (Nat.pos_of_ne_zero hlen))
    simp only [incrementPeriodicIndex, check_of _ hlen, ok_bind, pure_eq_ok, he']
    exact ⟨_, rfl⟩

end Scheduler

namespace ProcessesManager

section Lookups

variable {s : ProcessesManager}

theorem getCurrentProcessMut_of_processAt {p : Process}
    (hat : s.processAt (placeOf s.currentlyExecutingProcess) = some p) :
    s.getCurrentProcessMut = .ok (placeOf s.currentlyExecutingProcess, p) := by
  unfold getCurrentProcessMut
  split
  · rename_i h0
    simp only [h0, placeOf, if_true, processAt, Option.some.injEq] at hat ⊢
    rw [hat]
  · rw [getProcessMutWithPid_eq, hat]
    rfl

theorem getCurrentProcess_of_processAt {p : Process}
    (hat : s.processAt (placeOf s.currentlyExecutingProcess) = some p) :
    s.getCurrentProcess = .ok p := by
  unfold getCurrentProcess
  split
  · rename_i h0
    simp only [h0, placeOf, if_true, processAt, Option.some.injEq] at hat ⊢
    rw [hat]
  · rename_i h0
    simp only [placeOf, h0, if_false, processAt] at hat
    simp [getProcessWithPid, check_of _ h0, hat]

/-- The current pid's place holds a process. -/
theorem Booked.processAt_current (h : Booked s) :
    ∃ p, s.processAt (placeOf s.currentlyExecutingProcess) = some p := by
  rcases h.current_live with h0 | ⟨level, name, hl⟩
  · exact ⟨s.idleProcess, by rw [h0]; rfl⟩
  · obtain ⟨p, hp, -⟩ := h.toBooks.processAt_placeOf hl
    exact ⟨p, hp⟩

theorem Booked.getCurrentProcessMut_ok (h : Booked s) :
    ∃ p, s.getCurrentProcessMut = .ok (placeOf s.currentlyExecutingProcess, p) :=
  h.processAt_current.imp fun _ => getCurrentProcessMut_of_processAt

theorem Booked.getCurrentProcess_ok (h : Booked s) : ∃ p, s.getCurrentProcess = .ok p :=
  h.processAt_current.imp fun _ => getCurrentProcess_of_processAt

theorem Booked.avoids_getCurrentProcess (h : Booked s) :
    Avoids Panic.isBookkeeping (fun _ => True) s.getCurrentProcess :=
  h.getCurrentProcess_ok.elim fun _ hp => .of_eq_ok hp trivial

/-- `get_process_with_name` finds the name of every live Periodic process. -/
theorem getProcessWithName_of_holds {pid : Pid} {name : Name} (hh : s.Holds pid .periodic name) :
    s.getProcessWithName name true ≠ none := by
  obtain ⟨i, hi⟩ := hh
  obtain ⟨p, hat, hkey⟩ := keyAt_eq_some.mp hi
  simp only [Process.key, Prod.mk.injEq] at hkey
  simp only [processAt, Option.join_eq_some_iff] at hat
  simp only [getProcessWithName, ne_eq, Option.map_eq_none_iff, findSlot_eq_none_iff, not_forall]
  exact ⟨p, List.mem_of_getElem? hat, by simp [hkey.2.1, hkey.2.2]⟩

end Lookups

/-! ## The current pid stays live through the helpers -/

section Booked

variable {s s' : ProcessesManager}

/-- Writing a process back under its key keeps the current pid live. -/
theorem Booked.setAt (h : Booked s) {pl : Place} {p q : Process} (hat : s.processAt pl = some p)
    (hq : q.key = p.key) : Booked (s.setAt pl q) := by
  refine ⟨h.toBooks.setAt hat hq, ?_⟩
  rw [setAt_currentlyExecutingProcess, holds_eq_of_keyAt (keyAt_setAt hat hq)]
  exact h.current_live

/-- A rescheduling that keeps both queues and the current pid keeps the current pid live. -/
theorem Booked.of_reschedules (h : Booked s) (hr : Reschedules s s')
    (hdq : s'.scheduler.deviceQueue = s.scheduler.deviceQueue)
    (hsq : s'.scheduler.sporadicQueue = s.scheduler.sporadicQueue)
    (hcur : s'.currentlyExecutingProcess = s.currentlyExecutingProcess) : Booked s' := by
  refine ⟨h.toBooks.of_reschedules hr hdq hsq, ?_⟩
  rw [hcur, holds_eq_of_keyAt hr.keyAt]
  exact h.current_live

theorem Booked.spendTick (h : Booked s) (tick : Bool) :
    Booked { s with scheduler := s.scheduler.spendTick tick } :=
  h.of_reschedules (reschedules_setScheduler _ _) (Scheduler.spendTick_deviceQueue _ _)
    (Scheduler.spendTick_sporadicQueue _ _) rfl

theorem Booked.of_switchToIdle (h : Books s) {b : Bool} (hs : s.switchToIdle b = .ok s') :
    Booked s' :=
  ⟨(h.switchToIdle hs).1, .inl (h.switchToIdle hs).2.1⟩

/-- The sporadic switch runs a live Sporadic process or changes nothing. -/
theorem Booked.switchToSporadic (h : Booked s) {b : Bool} (hs : s.switchToSporadic = .ok (b, s')) :
    Booked s' := by
  obtain ⟨hb', -, hfalse, -⟩ := h.toBooks.switchToSporadic hs
  obtain ⟨hr, -, -, htrue⟩ := switchToSporadic_eq_ok hs
  cases b with
  | false =>
      rw [(hfalse rfl).2]
      exact h
  | true =>
      obtain ⟨q, p, hq, hat, hcur⟩ := htrue rfl
      obtain ⟨name, hsq⟩ := (h.mem_sporadic q).mp (List.mem_of_mem_head? hq)
      have hpid : p.pid = q := h.toBooks.pid_of_processAt (h.pid_ne_zero hsq) hat
      refine ⟨hb', .inr ⟨.sporadic, name, ?_⟩⟩
      rw [holds_eq_of_keyAt hr.keyAt, hcur, hpid]
      exact hsq

/-- The periodic switch keeps the current pid or runs a live Periodic process. -/
theorem Booked.switchToPeriodic (h : Booked s) {b : Bool} (hs : s.switchToPeriodic = .ok (b, s')) :
    Booked s' := by
  obtain ⟨hb', -, -, hcur, -⟩ := h.toBooks.switchToPeriodic hs
  obtain ⟨-, -, -, hr, -⟩ := switchToPeriodic_eq_ok hs
  refine ⟨hb', ?_⟩
  rcases hcur with hc | ⟨name, hn⟩
  · rw [hc, holds_eq_of_keyAt hr.keyAt]
    exact h.current_live
  · exact .inr ⟨_, name, hn⟩

end Booked

/-! ## The helpers never fail a bookkeeping check -/

section Helpers

variable {s : ProcessesManager}

theorem Booked.switchToIdle_ok (h : Booked s) (b : Bool) : ∃ s', s.switchToIdle b = .ok s' := by
  cases b with
  | false => exact ⟨_, rfl⟩
  | true =>
      obtain ⟨p, hp⟩ := h.getCurrentProcessMut_ok
      simp only [ProcessesManager.switchToIdle, if_true, hp, ok_bind, pure_eq_ok]
      exact ⟨_, rfl⟩

/-- The sporadic switch never fails: the front of the queue is live, and so
is the process it replaces. -/
theorem Booked.switchToSporadic_ok (h : Booked s) : ∃ r, s.switchToSporadic = .ok r := by
  unfold ProcessesManager.switchToSporadic
  split
  · exact ⟨_, rfl⟩
  · rename_i q hq
    obtain ⟨name, hsq⟩ := (h.mem_sporadic q).mp (List.mem_of_mem_head? hq)
    obtain ⟨p, hat, -⟩ := h.toBooks.processAt_placeOf hsq
    rw [getProcessMutWithPid_eq, hat]
    simp only [Option.map_some, expect_some, ok_bind]
    split
    · obtain ⟨c, hc⟩ := (h.setAt hat (Process.key_setProcessStatus p .running)).getCurrentProcessMut_ok
      rw [hc, ok_bind]
      exact ⟨_, rfl⟩
    · exact ⟨_, rfl⟩

theorem Booked.avoids_switchToIdle (h : Booked s) (b : Bool) :
    Avoids Panic.isBookkeeping Booked (s.switchToIdle b) :=
  (h.switchToIdle_ok b).elim fun _ hs => .of_eq_ok hs (Booked.of_switchToIdle h.toBooks hs)

theorem Booked.avoids_switchToSporadic (h : Booked s) :
    Avoids Panic.isBookkeeping (fun r => Booked r.2) s.switchToSporadic :=
  h.switchToSporadic_ok.elim fun _ hs => .of_eq_ok hs (h.switchToSporadic hs)

/-- The device switch can only fail its `assert_ne!`: the front of the
device queue is live, and so is the process it replaces. -/
theorem Booked.avoids_switchToDevice (h : Booked s) :
    Avoids Panic.isBookkeeping (fun _ => True) s.switchToDevice := by
  unfold switchToDevice
  split
  · exact avoids_ok.mpr trivial
  · rename_i d hd
    obtain ⟨name, hdl⟩ := h.device_live d (List.mem_of_mem_head? hd)
    obtain ⟨p, hat, -⟩ := h.toBooks.processAt_placeOf hdl
    obtain ⟨c, hc⟩ := h.processAt_current
    rw [getProcessMutWithPid_eq, hat]
    simp only [Option.map_some, expect_some, ok_bind]
    refine (avoids_check fun _ => rfl).bind fun _ _ _ => ?_
    refine (avoids_expect fun hnone => ?_).bind fun _ _ _ => avoids_ok.mpr trivial
    -- the replaced process is still in its place
    rw [getProcessMutWithPid_eq, Option.map_eq_none_iff] at hnone
    change (s.setAt (placeOf d) (p.setProcessStatus .running)).processAt
      (placeOf s.currentlyExecutingProcess) = none at hnone
    rw [processAt_setAt hat] at hnone
    split at hnone
    · cases hnone
    · rw [hc] at hnone
      cases hnone

/-- The periodic switch can only fail the checks on the process that
yielded and on the new process's status: the slot position is inside the
table, the current pid is live, and the registry names only live Periodic
processes. -/
theorem Booked.avoids_switchToPeriodic (h : Booked s)
    (hi : s.scheduler.periodicIndex < s.scheduler.periodicOrder.length) :
    Avoids Panic.isBookkeeping (fun _ => True) s.switchToPeriodic := by
  obtain ⟨⟨oldName, t⟩, he⟩ := Scheduler.getCurrentPeriodicEntry_ok hi
  obtain ⟨⟨⟨name, changed⟩, sch⟩, hc⟩ := Scheduler.checkAndChangePeriodic_ok hi
  -- the new scheduler keeps both queues, so the books and the current pid stay
  have hb₁ : Booked { s with scheduler := sch } :=
    h.of_reschedules (reschedules_setScheduler _ _) (Scheduler.queues_checkAndChangePeriodic hc).1
      (Scheduler.queues_checkAndChangePeriodic hc).2 rfl
  unfold ProcessesManager.switchToPeriodic
  simp only [he, hc, ok_bind]
  split
  · exact avoids_ok.mpr trivial
  · refine Avoids.bind (P := Booked) ?_ fun s₂ _ hb₂ => ?_
    · -- releasing the yielded process can only fail its own two checks
      split
      · refine (avoids_expect fun _ => rfl).bind ?_
        rintro ⟨pl, y⟩ - hy
        refine (avoids_check fun _ => rfl).bind fun _ _ _ => ?_
        exact hb₁.setAt (getProcessWithName_eq_some hy).1 (Process.key_setProcessStatus y _)
      · exact hb₁
    · obtain ⟨c, hc₂⟩ := hb₂.getCurrentProcessMut_ok
      have hat := (getCurrentProcessMut_eq_ok hc₂).2
      simp only [hc₂, ok_bind]
      split
      · exact avoids_ok.mpr trivial
      · split
        · rename_i hbit
          -- the registry names a live Periodic process, found after the demotion
          obtain ⟨pid, hp⟩ := (hb₂.registry name).mp hbit
          have hfound : (s₂.setAt (placeOf s₂.currentlyExecutingProcess)
              (c.setProcessStatus .scheduled)).getProcessWithName name true ≠ none := by
            have hp₂ : (s₂.setAt (placeOf s₂.currentlyExecutingProcess)
                (c.setProcessStatus .scheduled)).Holds pid .periodic name := by
              rw [holds_eq_of_keyAt (keyAt_setAt hat (Process.key_setProcessStatus c _))]
              exact hp
            exact getProcessWithName_of_holds hp₂
          exact (avoids_expect fun hnone => absurd hnone hfound).bind fun _ _ _ =>
            (avoids_check fun _ => rfl).bind fun _ _ _ => avoids_ok.mpr trivial
        · exact avoids_ok.mpr trivial

/-- `schedule_all_the_stuff` can only fail the device switch's
`assert_ne!`, the tick's subtraction and the periodic switch's own checks;
whatever it returns keeps the invariant. -/
theorem Booked.avoids_scheduleAllTheStuff (h : Booked s)
    (hi : s.scheduler.periodicIndex < s.scheduler.periodicOrder.length) (tick : Bool) :
    Avoids Panic.isBookkeeping TableInv (s.scheduleAllTheStuff tick) := by
  refine Avoids.post (P := fun _ => True) ?_ fun s' hs' => h.toBooks.scheduleAllTheStuff hs'
  unfold ProcessesManager.scheduleAllTheStuff
  refine h.avoids_switchToDevice.bind ?_
  rintro ⟨toDevice, s₁⟩ h₁ -
  cases toDevice with
  | true => exact avoids_ok.mpr trivial
  | false =>
      obtain ⟨hs₁, -⟩ := (h.toBooks.switchToDevice h₁).1 rfl
      subst s₁
      simp only [Bool.false_eq_true, if_false]
      refine Avoids.bind (P := fun s₂ => s₂ = { s with scheduler := s.scheduler.spendTick tick })
        ?_ ?_
      · -- the tick's subtraction is its only check
        split
        · rename_i ht
          refine (avoids_check fun _ => rfl).bind fun _ _ _ => ?_
          simp [Scheduler.spendTick, ht]
        · rename_i ht
          simp [Scheduler.spendTick, ht]
      rintro s₂ - rfl
      have hb₂ := h.spendTick tick
      have hi₂ : (s.scheduler.spendTick tick).periodicIndex <
          (s.scheduler.spendTick tick).periodicOrder.length := by
        rw [Scheduler.periodicIndex_spendTick, Scheduler.periodicOrder_spendTick]
        exact hi
      refine (hb₂.avoids_switchToPeriodic hi₂).bind ?_
      rintro ⟨toPeriodic, s₃⟩ h₃ -
      cases toPeriodic with
      | true => exact avoids_ok.mpr trivial
      | false =>
          simp only [Bool.false_eq_true, if_false]
          refine (hb₂.switchToPeriodic h₃).avoids_switchToSporadic.bind ?_
          rintro ⟨toSporadic, s₄⟩ - hb₄
          cases toSporadic with
          | true => exact avoids_ok.mpr trivial
          | false => exact (hb₄.avoids_switchToIdle true).mono fun _ _ => trivial

end Helpers

/-! ## The operations -/

section Operations

variable {s : ProcessesManager}

/-- The slot of a key is inside the slot vector. -/
theorem lt_length_of_keyAt {i : Nat} {k : Pid × SchedulingLevel × Name} (h : s.keyAt i = some k) :
    i < s.processesList.length := by
  obtain ⟨p, hat, -⟩ := keyAt_eq_some.mp h
  simp only [processAt, Option.join_eq_some_iff] at hat
  exact (List.getElem?_eq_some_iff.mp hat).1

/-- A live pid has a slot. -/
theorem Books.lt_length (h : Books s) {pid : Pid} {level : SchedulingLevel} {name : Name}
    (hh : s.Holds pid level name) : pid - 1 < s.processesList.length :=
  lt_length_of_keyAt (h.holds_iff.mp hh).2

/-- The pid the pool hands out next has an empty slot, if any. -/
theorem Books.keyAt_getFreeElem (h : Books s) : s.keyAt (s.pidPool.getFreeElem.1 - 1) = none := by
  have hx : 1 ≤ s.pidPool.getFreeElem.1 :=
    ((IncrementingPool.inUse_getFreeElem h.pool_valid h.pool_start _).mpr (.inl rfl)).1
  have hfresh := IncrementingPool.getFreeElem_not_inUse 1 s.pidPool
  generalize s.pidPool.getFreeElem.1 = x at hx hfresh ⊢
  cases hk : s.keyAt (x - 1) with
  | none => rfl
  | some k =>
      -- a process in that slot would have the pid, which the pool does not use
      obtain ⟨y, l, n⟩ := k
      have hy : y = x := by
        rw [(h.keyAt_eq _ _ _ _ hk).1]
        exact Nat.sub_add_cancel hx
      have hlive : s.Holds x l n := ⟨x - 1, by rw [hk, hy]⟩
      exact absurd ((h.inUse_iff x).mpr ⟨l, n, hlive⟩) hfresh

/-- `Vec::resize` fills the new slots with its value. -/
theorem getElem?_resize_of_le {α : Type} {l : List α} {n j : Nat} {v : α} (h₁ : l.length ≤ j)
    (h₂ : j < n) : (resize l n v)[j]? = some v := by
  rw [resize, List.take_of_length_le (by omega), List.getElem?_append_right h₁,
    List.getElem?_replicate, if_pos (by omega)]

/-- Storing a new process fails only to allocate its stack or on pid 0:
its slot is in range, growing the vector if needed, and empty. -/
theorem avoids_insertNewProcess {level : SchedulingLevel} {name : Name} {arg : Int}
    {stack : Option StackBounds} (hl : level ≠ .idle)
    (hfree : s.keyAt (s.pidPool.getFreeElem.1 - 1) = none) :
    Avoids Panic.isBookkeeping (fun _ => True) (s.insertNewProcess level name arg stack) := by
  unfold insertNewProcess
  rcases hx : s.pidPool.getFreeElem with ⟨pid, pool⟩
  rw [hx] at hfree
  dsimp only
  refine Avoids.bind (P := fun p => p.pid = pid) ?_ fun p _ hp => ?_
  · -- `Process::new` refuses only the Idle level, which is not asked for
    unfold Process.new
    exact (avoids_check fun hc => absurd hl hc).bind fun _ _ _ =>
      (avoids_expect fun _ => rfl).bind fun _ _ _ => avoids_ok.mpr rfl
  refine Avoids.bind (P := fun idx => idx = p.pid - 1) ?_ fun idx _ hidx => ?_
  · unfold Process.getIdx
    exact (avoids_check fun _ => rfl).bind fun _ _ _ => avoids_ok.mpr rfl
  subst hidx
  rw [hp]
  have hslot : (if pid - 1 ≥ s.processesList.length then
      resize s.processesList (pid - 1 + 1) none else s.processesList)[pid - 1]? = some none := by
    split
    · exact getElem?_resize_of_le ‹_› (Nat.lt_succ_self _)
    · rename_i hlt
      have hget := List.getElem?_eq_getElem (Nat.lt_of_not_le hlt)
      simp only [keyAt, processAt, hget, Option.join_some, Option.map_eq_none_iff] at hfree
      rw [hget, hfree]
  rw [hslot, expect_some, ok_bind]
  exact (avoids_check fun hne => absurd rfl hne).bind fun _ _ _ => avoids_ok.mpr trivial

/-- `create_new_process` fails a bookkeeping check on no input: a refused
level, name or allocation is all that can stop it. -/
theorem Books.avoids_createNewProcess (h : Books s) (level : SchedulingLevel) (name : Name)
    (arg : Int) (stack : Option StackBounds) :
    Avoids Panic.isBookkeeping (fun _ => True) (s.createNewProcess level name arg stack) := by
  have hfree := h.keyAt_getFreeElem
  unfold ProcessesManager.createNewProcess
  cases level with
  | device => exact avoids_insertNewProcess (by decide) hfree
  | sporadic => exact avoids_insertNewProcess (by decide) hfree
  | idle => exact avoids_error.mpr rfl
  | periodic =>
      dsimp only
      split
      · exact avoids_ok.mpr trivial
      · exact (avoids_check fun _ => rfl).bind fun _ _ _ => avoids_insertNewProcess (by decide) hfree

/-- `end_process_with_pid` on a pid with a slot can only fail on pid 0: the
slot holds the process of its pid, never an Idle one, and a current Device
or Sporadic process is at the front of its queue. -/
theorem TableInv.avoids_endProcessWithPid (h : TableInv s) {pid : Pid}
    (hlt : pid ≠ 0 → pid - 1 < s.processesList.length) :
    Avoids Panic.isBookkeeping (fun _ => True) (s.endProcessWithPid pid) := by
  unfold ProcessesManager.endProcessWithPid
  refine (avoids_check fun _ => rfl).bind fun _ _ hpid => ?_
  rw [List.getElem?_eq_getElem (hlt hpid), expect_some, ok_bind]
  split
  · exact avoids_ok.mpr trivial
  · rename_i target hslot
    have hkey : s.keyAt (pid - 1) = some (target.pid, target.level, target.name) := by
      simp [keyAt, processAt, List.getElem?_eq_getElem (hlt hpid), hslot, Process.key]
    obtain ⟨htpid, hnidle⟩ := h.keyAt_eq _ _ _ _ hkey
    have htpid' : target.pid = pid := by
      rw [htpid]
      exact Nat.sub_add_cancel (Nat.one_le_iff_ne_zero.mpr hpid)
    have hlive : s.Holds pid target.level target.name := ⟨pid - 1, by rw [hkey, htpid']⟩
    refine Avoids.bind (P := fun _ => True) ?_ fun _ _ _ => avoids_ok.mpr trivial
    split
    · -- a current Device is at the front of the device queue
      rename_i hl
      refine Avoids.bind (P := fun _ => True) ?_ fun _ _ _ => avoids_ok.mpr trivial
      split
      · rename_i hcur
        refine (avoids_check fun hne => absurd ?_ hne).bind fun _ _ _ => avoids_ok.mpr trivial
        rw [htpid', hcur]
        have hdev : s.Holds s.currentlyExecutingProcess .device target.name := hcur ▸ hl ▸ hlive
        exact h.deviceQueue_head hdev
      · exact avoids_ok.mpr trivial
    · exact avoids_ok.mpr trivial
    · -- a current Sporadic process is at the front of the sporadic queue
      rename_i hl
      split
      · rename_i hcur
        refine (avoids_check fun hne => absurd ?_ hne).bind fun _ _ _ => avoids_ok.mpr trivial
        rw [htpid', hcur]
        exact h.sporadic_front target.name (hcur ▸ hl ▸ hlive)
      · exact avoids_ok.mpr trivial
    · rename_i hl
      exact absurd hl hnidle

/-- `end_current_process` can only fail when the idle process ends itself
(`pid - 1` underflows) or in the rescheduling's own checks. -/
theorem TableInv.avoids_endCurrentProcess (h : TableInv s)
    (hi : s.scheduler.periodicIndex < s.scheduler.periodicOrder.length) :
    Avoids Panic.isBookkeeping (fun _ => True) s.endCurrentProcess := by
  unfold ProcessesManager.endCurrentProcess
  refine (h.avoids_endProcessWithPid fun hne => ?_).bind ?_
  · rcases h.current_live with h0 | ⟨l, n, hl⟩
    · exact absurd h0 hne
    · exact h.toBooks.lt_length hl
  rintro ⟨res, s₁⟩ h₁ -
  obtain ⟨-, -, -, -, -, hsame, -⟩ := endProcessWithPid_eq_ok h₁
  obtain ⟨s₂, h₂⟩ : ∃ s₂, s₁.switchToIdle false = .ok s₂ := ⟨_, rfl⟩
  obtain ⟨-, hsch₂, -⟩ := switchToIdle_eq_ok h₂
  have hb₂ := Booked.of_switchToIdle (h.toBooks.endProcessWithPid h₁).1 h₂
  have hi₂ : s₂.scheduler.periodicIndex < s₂.scheduler.periodicOrder.length := by
    rw [hsch₂, hsame.2.1, hsame.1]
    exact hi
  simp only [h₂, ok_bind]
  exact (hb₂.avoids_scheduleAllTheStuff hi₂ true).bind fun _ _ h₃ =>
    h₃.toBooked.avoids_getCurrentProcess.bind fun _ _ _ => avoids_ok.mpr trivial

/-- `end_all_other_processes` fails no bookkeeping check: each pid it ends
was live when the pids were collected, keeps its slot, and is not current. -/
theorem TableInv.avoids_endAllOtherProcesses (h : TableInv s) :
    Avoids Panic.isBookkeeping (fun _ => True) s.endAllOtherProcesses := by
  rw [endAllOtherProcesses_eq_foldlM]
  refine (avoids_foldlM (P := fun t => TableInv t ∧
      t.currentlyExecutingProcess = s.currentlyExecutingProcess ∧
      t.processesList.length = s.processesList.length) ⟨h, rfl, rfl⟩ ?_).mono fun _ _ => trivial
  rintro pid hpid t ⟨ht, hcur, hlen⟩
  obtain ⟨hmem, hne⟩ := List.mem_filter.mp hpid
  obtain ⟨p, hp, rfl⟩ := List.mem_map.mp hmem
  obtain ⟨o, ho, hop⟩ := List.mem_filterMap.mp hp
  simp only [id] at hop
  subst hop
  -- the pid was live when it was collected, so it has a slot
  have hlive := holds_of_mem ho
  have hlt : p.pid - 1 < t.processesList.length := hlen ▸ h.toBooks.lt_length hlive
  have hne' : p.pid ≠ t.currentlyExecutingProcess := hcur ▸ bne_iff_ne.mp hne
  unfold endOne
  refine (ht.avoids_endProcessWithPid fun _ => hlt).bind ?_
  rintro ⟨res, t'⟩ heq -
  obtain ⟨-, -, hset, -, hcur', -⟩ := endProcessWithPid_eq_ok heq
  exact ⟨ht.endProcessWithPid_of_ne hne' heq, hcur'.trans hcur,
    by rw [hset, List.length_set, hlen]⟩

/-- `yield_current_process` fails a bookkeeping check on no state of the
invariant: only the idle process yielding, the device switch's `assert_ne!`
and the periodic switch's own checks can stop it. -/
theorem TableInv.avoids_yieldCurrentProcess (h : TableInv s)
    (hi : s.scheduler.periodicIndex < s.scheduler.periodicOrder.length) (sp : VirtAddr) :
    Avoids Panic.isBookkeeping (fun _ => True) (s.yieldCurrentProcess sp) := by
  obtain ⟨cur, hcur⟩ := h.toBooked.getCurrentProcessMut_ok
  have hat := (getCurrentProcessMut_eq_ok hcur).2
  unfold ProcessesManager.yieldCurrentProcess
  simp only [hcur, ok_bind]
  have hb₁ := h.toBooked.setAt hat (Process.key_setStackPos cur sp)
  have hat₁ := processAt_setAt_self hat (cur.setStackPos sp)
  refine Avoids.bind (P := Booked) ?_ fun s₂ _ hb₂ => ?_
  · split
    · -- a Device is at the front of its queue, leaves it and reschedules
      rename_i hl
      have hl' : cur.level = .device := by simpa using hl
      obtain ⟨hpid, hlive⟩ := h.toBooks.holds_current hat (by rw [hl']; decide)
      refine (avoids_check fun hne => absurd ?_ hne).bind fun _ _ _ => ?_
      · rw [setAt_scheduler, Process.setStackPos_pid, hpid]
        exact h.deviceQueue_head (hl' ▸ hlive)
      refine (Booked.avoids_scheduleAllTheStuff ?_ (by simpa using hi) false).mono fun _ h' =>
        h'.toBooked
      exact ⟨hb₁.toBooks.of_frame (fun _ => rfl) rfl rfl rfl (.refl _)
        fun d hd => hb₁.device_live d (List.mem_of_mem_tail hd), hb₁.current_live⟩
    · -- a Periodic process marks its slot yielded and gives way
      refine (Booked.avoids_switchToSporadic ?_).bind ?_
      · exact (hb₁.setAt hat₁ (Process.key_setProcessStatus _ .yielded)).of_reschedules
          (reschedules_setScheduler _ _) rfl rfl rfl
      rintro ⟨toSporadic, s₄⟩ - hb₄
      cases toSporadic with
      | true => exact hb₄
      | false => exact hb₄.avoids_switchToIdle false
    · -- a Sporadic process is in its queue, goes to the back and gives way
      rename_i hl
      have hl' : cur.level = .sporadic := by simpa using hl
      obtain ⟨-, hlive⟩ := h.toBooks.holds_current hat (by rw [hl']; decide)
      have hne : s.scheduler.sporadicQueue ≠ [] := by
        intro hnil
        have hfront := h.sporadic_front _ (hl' ▸ hlive)
        rw [hnil] at hfront
        cases hfront
      have hb₃ := hb₁.setAt hat₁ (Process.key_setProcessStatus _ .scheduled)
      refine Avoids.bind (P := fun q => q = s.scheduler.sporadicQueue.rotate 1) ?_ ?_
      · unfold rotateLeft
        refine (avoids_check fun hc => (hc ?_).elim).bind fun _ _ _ => avoids_ok.mpr (by simp)
        rw [setAt_scheduler, setAt_scheduler]
        exact List.length_pos_iff.mpr hne
      rintro q - rfl
      refine (Booked.avoids_switchToSporadic ?_).bind fun _ _ hb₄ => hb₄
      exact ⟨hb₃.toBooks.of_frame (fun _ => rfl) rfl rfl rfl (by simpa using List.rotate_perm _ 1)
        fun d hd => hb₃.device_live d hd, hb₃.current_live⟩
    · exact avoids_error.mpr rfl
  exact hb₂.avoids_getCurrentProcess.bind fun _ _ _ => avoids_ok.mpr trivial

/-- A tick's scan of the devices can only fail on a device named 0. -/
theorem avoids_devicesDue (t : Nat) (l : List (Option Process)) :
    Avoids Panic.isBookkeeping (fun _ => True) (devicesDue t l) := by
  induction l with
  | nil => exact avoids_ok.mpr trivial
  | cons x rest ih =>
      cases x with
      | none => exact ih
      | some p =>
          simp only [devicesDue]
          split
          · exact (avoids_check fun _ => rfl).bind fun _ _ _ =>
              ih.bind fun _ _ _ => avoids_ok.mpr trivial
          · exact ih

/-- The timer tick fails a bookkeeping check on no state of the invariant:
the devices it queues are live, the current process is found, and the
rescheduling fails only its own checks. -/
theorem TableInv.avoids_nextTickPreemptProcess (h : TableInv s)
    (hi : s.scheduler.periodicIndex < s.scheduler.periodicOrder.length) (sp : Nat) :
    Avoids Panic.isBookkeeping (fun _ => True) (s.nextTickPreemptProcess sp) := by
  unfold ProcessesManager.nextTickPreemptProcess
  refine (avoids_devicesDue _ _).bind fun due hdue _ => ?_
  have hb₁ : Booked { s with scheduler.time := s.scheduler.time + 1,
                             scheduler.deviceQueue := s.scheduler.deviceQueue ++ due } :=
    ⟨h.toBooks.queueDue hdue _, h.current_live⟩
  obtain ⟨cur, hcur⟩ := hb₁.getCurrentProcessMut_ok
  have hat := (getCurrentProcessMut_eq_ok hcur).2
  simp only [hcur, ok_bind]
  refine (avoids_check fun _ => rfl).bind fun _ _ _ => ?_
  have hb₂ := hb₁.setAt hat (Process.key_setStackPos cur sp)
  refine Avoids.bind (P := Booked) ?_ fun s₃ _ hb₃ => ?_
  · split
    · exact avoids_ok.mpr hb₂
    all_goals exact (hb₂.avoids_scheduleAllTheStuff (by simpa using hi) true).mono fun _ h' =>
      h'.toBooked
  exact hb₃.avoids_getCurrentProcess.bind fun _ _ _ => avoids_ok.mpr trivial

theorem avoids_unyieldCurrentPeriodic (s : ProcessesManager) :
    Avoids Panic.isBookkeeping (fun _ => True) s.unyieldCurrentPeriodic := by
  unfold unyieldCurrentPeriodic
  exact (avoids_check fun _ => rfl).bind fun _ _ _ => avoids_ok.mpr trivial

/-- The step lemma: from a state of the invariant whose slot position is in
the table, no operation fails a bookkeeping check. -/
theorem TableInv.avoids_step (h : TableInv s)
    (hi : s.scheduler.periodicIndex < s.scheduler.periodicOrder.length) (op : Operation) :
    Avoids Panic.isBookkeeping (fun _ => True) (s.step op) := by
  cases op with
  | createNewProcess level name arg stack =>
      exact (h.toBooks.avoids_createNewProcess level name arg stack).bind fun _ _ _ =>
        avoids_ok.mpr trivial
  | yieldCurrentProcess sp =>
      exact (h.avoids_yieldCurrentProcess hi sp).bind fun _ _ _ => avoids_ok.mpr trivial
  | endCurrentProcess =>
      exact (h.avoids_endCurrentProcess hi).bind fun _ _ _ => avoids_ok.mpr trivial
  | endAllOtherProcesses => exact h.avoids_endAllOtherProcesses
  | nextTickPreemptProcess sp =>
      exact (h.avoids_nextTickPreemptProcess hi sp).bind fun _ _ _ => avoids_ok.mpr trivial
  | unyieldCurrentPeriodic => exact avoids_unyieldCurrentPeriodic s

end Operations

/-! ## Whole runs -/

section Runs

/-- A run is a loop over its operations. -/
theorem run_eq_foldlM (s : ProcessesManager) (ops : List Operation) :
    s.run ops = ops.foldlM (fun s op => s.step op) s := by
  induction ops generalizing s with
  | nil => rfl
  | cons op ops ih => simp only [ProcessesManager.run, List.foldlM_cons, ih]

/-- No run of the manager from `new`, with a periodic table whose slots all
last a tick, fails one of its bookkeeping checks: a run that panics stops at
a refused request or at one of the checks that `Panics` shows reachable. -/
theorem bookkeeping_checks_never_fail {order : List (Name × Nat)} {init : ProcessesManager}
    {ops : List Operation} {e : Panic} (hpos : ∀ e ∈ order, 1 ≤ e.2)
    (hinit : newWithOrder order = .ok init) (h : init.run ops = .error e) :
    e.isBookkeeping = false := by
  -- the run is a loop whose invariant is reachability, which carries the table
  -- invariant and the slot counter's range
  have hrun : Avoids Panic.isBookkeeping (Reachable init) (init.run ops) := by
    rw [run_eq_foldlM]
    refine avoids_foldlM .init fun op _ s hs => ?_
    have hinv := tableInv_of_reachable (tableInv_newWithOrder hinit) hs
    obtain ⟨-, -, _, he, -⟩ := slotsOk_of_reachable (slotsOk_newWithOrder hpos hinit) hs
    exact (hinv.avoids_step (List.getElem?_eq_some_iff.mp he).1 op).post fun _ hs' => .step hs hs'
  exact hrun.not_bad h

theorem bookkeeping_checks_never_fail_when_idle_yields :
    (∀ e ∈ periodicOrder, 1 ≤ e.2) ∧ newWithOrder periodicOrder = .ok bootState ∧
      bootState.run [.createNewProcess .periodic 1 0 (some { start := 4096, «end» := 8192 }),
        .yieldCurrentProcess 0] = .error .idleYield ∧
      Panic.idleYield.isBookkeeping = false := by
  have hpos : ∀ e ∈ periodicOrder, 1 ≤ e.2 := by decide
  have hinit : newWithOrder periodicOrder = .ok bootState := rfl
  have hrun : bootState.run [.createNewProcess .periodic 1 0 (some { start := 4096, «end» := 8192 }),
      .yieldCurrentProcess 0] = .error .idleYield := rfl
  exact ⟨hpos, hinit, hrun, bookkeeping_checks_never_fail hpos hinit hrun⟩

end Runs


end ProcessesManager

end Processes
end NoIdeaOS
