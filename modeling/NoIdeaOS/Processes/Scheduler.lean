import NoIdeaOS.Processes.Basic

/-!
# The scheduler record

`processes/scheduling.rs`.  The scheduler holds the tick counter, the
periodic table `periodic_order` (pairs of a name and a slot length in
ticks), the position in that table, the ticks left in the current slot, the
flag set when the slot's process has yielded, and the two queues of pids.
Both `VecDeque`s are lists with the front first.

`check_and_change_periodic` moves to the next slot when the current one has
no ticks left.  Its spec, `checkAndChangePeriodic_eq_ok`, is the only fact
about it that later modules use.
-/

namespace NoIdeaOS
namespace Processes

open Fallible

/-- `Scheduler`. -/
structure Scheduler where
  time : Nat
  periodicOrder : List (Name × Nat)
  periodicTime : Nat
  periodicIndex : Nat
  periodicYielded : Bool
  deviceQueue : List Pid
  sporadicQueue : List Pid
deriving DecidableEq, Repr

namespace Scheduler

/-- `Scheduler::new`: the first slot starts with its full length. -/
def new (periodicOrder : List (Name × Nat)) : Except Panic Scheduler := do
  let first ← expect periodicOrder[0]? (Panic.indexOutOfBounds periodicOrder.length 0)
  pure { time := 0, periodicOrder, periodicTime := first.2, periodicIndex := 0,
         periodicYielded := false, deviceQueue := [], sporadicQueue := [] }

/-- `Scheduler::get_current_periodic_entry`: `periodic_order[periodic_index]`. -/
def getCurrentPeriodicEntry (sch : Scheduler) : Except Panic (Name × Nat) :=
  expect sch.periodicOrder[sch.periodicIndex]?
    (Panic.indexOutOfBounds sch.periodicOrder.length sch.periodicIndex)

/-- `Scheduler::increment_periodic_index`. -/
def incrementPeriodicIndex (sch : Scheduler) : Except Panic Scheduler := do
  check (sch.periodicOrder.length ≠ 0) Panic.remainderByZero
  pure { sch with periodicIndex := (sch.periodicIndex + 1) % sch.periodicOrder.length }

/-- `Scheduler::check_and_change_periodic`: the current slot's name, and
whether the slot changed. -/
def checkAndChangePeriodic (sch : Scheduler) : Except Panic ((Name × Bool) × Scheduler) :=
  if sch.periodicTime ≠ 0 then do
    let entry ← sch.getCurrentPeriodicEntry
    pure ((entry.1, false), sch)
  else do
    let sch ← sch.incrementPeriodicIndex
    let entry ← sch.getCurrentPeriodicEntry
    pure ((entry.1, true), { sch with periodicTime := entry.2, periodicYielded := false })

theorem getCurrentPeriodicEntry_eq_ok {sch : Scheduler} {e : Name × Nat}
    (h : sch.getCurrentPeriodicEntry = .ok e) : sch.periodicOrder[sch.periodicIndex]? = some e :=
  expect_eq_ok.mp h

/-- Inside a slot nothing changes; at its end the next slot starts in full
and the yielded flag is cleared.  Either way the name returned is the
(new) slot's name. -/
theorem checkAndChangePeriodic_eq_ok {sch sch' : Scheduler} {name : Name} {changed : Bool}
    (h : sch.checkAndChangePeriodic = .ok ((name, changed), sch')) :
    (sch.periodicTime ≠ 0 ∧ changed = false ∧ sch' = sch ∧
        ∃ t, sch.periodicOrder[sch.periodicIndex]? = some (name, t)) ∨
      (sch.periodicTime = 0 ∧ changed = true ∧ sch.periodicOrder.length ≠ 0 ∧
        sch' = { sch with periodicIndex := (sch.periodicIndex + 1) % sch.periodicOrder.length,
                          periodicTime := sch'.periodicTime, periodicYielded := false } ∧
        sch.periodicOrder[(sch.periodicIndex + 1) % sch.periodicOrder.length]? =
          some (name, sch'.periodicTime)) := by
  unfold checkAndChangePeriodic at h
  split at h
  · rename_i htime
    obtain ⟨entry, hentry, hrest⟩ := bind_eq_ok.mp h
    simp only [pure_eq_ok, Except.ok.injEq, Prod.mk.injEq] at hrest
    obtain ⟨⟨rfl, rfl⟩, rfl⟩ := hrest
    exact .inl ⟨htime, rfl, rfl, entry.2, getCurrentPeriodicEntry_eq_ok hentry⟩
  · rename_i htime
    obtain ⟨sch₁, hinc, hrest⟩ := bind_eq_ok.mp h
    obtain ⟨entry, hentry, hrest⟩ := bind_eq_ok.mp hrest
    simp only [pure_eq_ok, Except.ok.injEq, Prod.mk.injEq] at hrest
    obtain ⟨⟨rfl, rfl⟩, rfl⟩ := hrest
    simp only [incrementPeriodicIndex, bind_eq_ok, check_eq_ok, pure_eq_ok,
      Except.ok.injEq] at hinc
    obtain ⟨_, hlen, rfl⟩ := hinc
    have hget := getCurrentPeriodicEntry_eq_ok hentry
    refine .inr ⟨not_not.mp htime, rfl, hlen, rfl, ?_⟩
    simpa using hget

end Scheduler

end Processes
end NoIdeaOS
