import NoIdeaOS.Processes.Frame

/-!
# The status and bookkeeping invariants

The invariants the process manager's assertions rely on, as its comments
and assertions describe them.

* `StatusInv`: the process the current pid designates (the idle process for
  pid 0) exists and is `Running`, no other process is, and a process is
  `Yielded` exactly when it is the Periodic process of the current slot and
  the slot has yielded (`YieldedIffSlotYielded`).
* `BookkeepingInv`: each slot holds the process of its pid; the pid pool's
  free list and the live pids are apart and together the pids the pool has
  handed out; the sporadic queue holds each live Sporadic pid once and nothing
  else; the device queue holds live Devices and is non-empty only while the
  Device at its front runs; a running Sporadic process is at the front of its
  queue; the name registry marks exactly the names of the live Periodic
  processes, which are distinct.

`BookkeepingInv` holds in every state a run reaches (`Table` derives it
from the table invariant); `StatusInv` does not (`Panics` shows runs that
break it).  The results about the scheduling rule take the facts they need
as hypotheses, and the states where the code departs from the rule are
shown to satisfy both invariants.  Every quantifier ranges over the places,
slots and pids the manager holds, so both are decidable.
-/

namespace NoIdeaOS
namespace Processes

open Fallible Collections

namespace ProcessesManager

/-- The places that can hold a process: the idle process and every slot. -/
def places (s : ProcessesManager) : List Place :=
  .idle :: (List.range s.processesList.length).map .slot

/-- The live processes, in slot order. -/
def liveProcesses (s : ProcessesManager) : List Process :=
  s.processesList.filterMap id

/-- The pids of the live processes. -/
def livePids (s : ProcessesManager) : List Pid :=
  s.liveProcesses.map Process.pid

/-- A live process of the level has the pid. -/
@[reducible] def IsLive (s : ProcessesManager) (pid : Pid) (level : SchedulingLevel) : Prop :=
  ∃ p ∈ s.liveProcesses, p.pid = pid ∧ p.level = level

theorem mem_places {s : ProcessesManager} {pl : Place} {p : Process}
    (h : s.processAt pl = some p) : pl ∈ s.places := by
  cases pl with
  | idle => exact List.mem_cons_self
  | slot i =>
      simp only [processAt, Option.join_eq_some_iff] at h
      have hi := (List.getElem?_eq_some_iff.mp h).1
      exact List.mem_cons_of_mem _ (List.mem_map_of_mem (List.mem_range.mpr hi))

/-- Clause (b) of the status invariant: a process is `Yielded` exactly when
it is the periodic process of the current slot and the slot has yielded. -/
def YieldedIffSlotYielded (s : ProcessesManager) : Prop :=
  ∀ pl p, s.processAt pl = some p →
    (p.status = .yielded ↔ p.level = .periodic ∧ s.scheduler.periodicYielded = true ∧
      ∃ t, s.scheduler.periodicOrder[s.scheduler.periodicIndex]? = some (p.name, t))

/-- Clause (a) of the status invariant: the process the current pid
designates exists and is `Running`, and no other process is. -/
@[reducible] def CurrentRunning (s : ProcessesManager) : Prop :=
  (∃ p ∈ s.processAt (placeOf s.currentlyExecutingProcess), p.status = .running) ∧
    ∀ pl ∈ s.places, pl ≠ placeOf s.currentlyExecutingProcess →
      ∀ p ∈ s.processAt pl, p.status ≠ .running

/-- Clause (b), read over the places the manager holds. -/
@[reducible] def SlotYieldedAt (s : ProcessesManager) : Prop :=
  ∀ pl ∈ s.places, ∀ p ∈ s.processAt pl,
    (p.status = .yielded ↔ p.level = .periodic ∧ s.scheduler.periodicYielded = true ∧
      (s.scheduler.periodicOrder[s.scheduler.periodicIndex]?).map Prod.fst = some p.name)

theorem yieldedIffSlotYielded_iff (s : ProcessesManager) :
    YieldedIffSlotYielded s ↔ SlotYieldedAt s := by
  -- the slot entry carries the name exactly when its first component is it
  have hentry : ∀ name : Name, (∃ t, s.scheduler.periodicOrder[s.scheduler.periodicIndex]? =
      some (name, t)) ↔ (s.scheduler.periodicOrder[s.scheduler.periodicIndex]?).map Prod.fst =
        some name := by
    intro name
    cases s.scheduler.periodicOrder[s.scheduler.periodicIndex]? with
    | none => simp
    | some e => simp [Prod.ext_iff, eq_comm]
  constructor
  · intro h pl _ p hp
    rw [← hentry]
    exact h pl p hp
  · intro h pl p hp
    rw [hentry]
    exact h pl (mem_places hp) p hp

instance : DecidablePred YieldedIffSlotYielded := fun s =>
  decidable_of_iff _ (yieldedIffSlotYielded_iff s).symm

/-- The process-status invariant. -/
@[reducible] def StatusInv (s : ProcessesManager) : Prop :=
  CurrentRunning s ∧ YieldedIffSlotYielded s

/-- The bookkeeping invariant, clause by clause. -/
@[reducible] def BookkeepingInv (s : ProcessesManager) : Prop :=
  -- (1) the slot of index `i` holds the process of pid `i + 1`
  (∀ i ∈ List.range s.processesList.length, ∀ p ∈ (s.processesList[i]?).join, p.pid = i + 1) ∧
  -- (2) the free list is duplicate-free and apart from the live pids, and both
  -- together are the pids `1 … current_max - 1`
  s.pidPool.pool.Nodup ∧ (∀ x ∈ s.pidPool.pool, x ∉ s.livePids) ∧
  (∀ x ∈ s.pidPool.pool ++ s.livePids, 1 ≤ x ∧ x < s.pidPool.currentMax) ∧
  (∀ x ∈ List.range' 1 (s.pidPool.currentMax - 1), x ∈ s.pidPool.pool ∨ x ∈ s.livePids) ∧
  -- (3) the sporadic queue holds every live Sporadic pid once, and nothing else
  (∀ pid ∈ s.scheduler.sporadicQueue ++ s.livePids,
    s.scheduler.sporadicQueue.count pid = if s.IsLive pid .sporadic then 1 else 0) ∧
  -- (4) the device queue holds live Devices, and only while the one at its front runs
  (∀ d ∈ s.scheduler.deviceQueue, s.IsLive d .device) ∧
  (s.scheduler.deviceQueue ≠ [] → s.scheduler.deviceQueue.head? = some s.currentlyExecutingProcess ∧
    s.IsLive s.currentlyExecutingProcess .device) ∧
  -- (5) a running Sporadic process is at the front of the sporadic queue
  (∀ p ∈ s.processAt (placeOf s.currentlyExecutingProcess), p.level = .sporadic →
    s.scheduler.sporadicQueue.head? = some s.currentlyExecutingProcess) ∧
  -- (6) the registry marks exactly the names of the live Periodic processes,
  -- which are distinct
  (∀ n ∈ List.range (8 * s.nameRegistry.data.length),
    s.nameRegistry.checkBit n = true ↔ ∃ p ∈ s.liveProcesses, p.level = .periodic ∧ p.name = n) ∧
  (∀ p ∈ s.liveProcesses, p.level = .periodic → s.nameRegistry.checkBit p.name = true) ∧
  ((s.liveProcesses.filter (·.level == .periodic)).map Process.name).Nodup

/-- Under clause (3), every pid of the sporadic queue is a live Sporadic
process. -/
theorem isLive_of_mem_sporadicQueue {s : ProcessesManager} (h : BookkeepingInv s) {q : Pid}
    (hq : q ∈ s.scheduler.sporadicQueue) : s.IsLive q .sporadic := by
  have hcount := h.2.2.2.2.2.1 q (List.mem_append_left _ hq)
  by_contra hlive
  rw [if_neg hlive] at hcount
  exact List.count_eq_zero.mp hcount hq

/-- Under clause (1), a live process sits at the place of its pid. -/
theorem processAt_placeOf_of_live {s : ProcessesManager} (h : BookkeepingInv s) {p : Process}
    (hp : p ∈ s.liveProcesses) : s.processAt (placeOf p.pid) = some p := by
  obtain ⟨i, hi⟩ : ∃ i, s.processesList[i]? = some (some p) := by
    have hmem : some p ∈ s.processesList := by simpa [liveProcesses] using hp
    exact List.mem_iff_getElem?.mp hmem
  have hlt : i < s.processesList.length := (List.getElem?_eq_some_iff.mp hi).1
  have hpid : p.pid = i + 1 := h.1 i (List.mem_range.mpr hlt) p (by simp [hi])
  simp [hpid, placeOf, processAt, hi]

/-- Under clauses (1) and (3), every entry of the sporadic queue points at a
Sporadic process. -/
theorem level_of_mem_sporadicQueue {s : ProcessesManager} (h : BookkeepingInv s) {q : Pid}
    (hq : q ∈ s.scheduler.sporadicQueue) {p : Process} (hp : s.processAt (placeOf q) = some p) :
    p.level = .sporadic := by
  obtain ⟨p', hlive, rfl, hlevel⟩ := isLive_of_mem_sporadicQueue h hq
  rw [processAt_placeOf_of_live h hlive, Option.some.injEq] at hp
  exact hp ▸ hlevel

example : StatusInv bootState ∧ BookkeepingInv bootState := by decide

end ProcessesManager

end Processes
end NoIdeaOS
