import NoIdeaOS.Processes.Operations

/-!
# The periodic slot counter

`periodic_index` points into `periodic_order` and `periodic_time` counts the
ticks left in that slot.  `schedule_all_the_stuff` takes a tick off the
counter (`periodic_time -= 1`) and `check_and_change_periodic` moves to the
next slot, in full, when the counter reaches zero; no other code writes these
fields.  So, when every slot lasts at least one tick, the counter is between
one and the slot's length after every operation, and both the decrement and
the table lookup are safe.

The proof has one step lemma, `slotsInRange_slotStep`, on the `SlotStep`
that `Operations` shows every operation makes.
-/

namespace NoIdeaOS
namespace Processes

open Fallible

namespace Scheduler

/-- The slot fields are in range: the position is inside the table, and the
ticks left are at least one and at most the slot's length. -/
def SlotsInRange (sch : Scheduler) : Prop :=
  ∃ e, sch.periodicOrder[sch.periodicIndex]? = some e ∧ 1 ≤ sch.periodicTime ∧
    sch.periodicTime ≤ e.2

/-- Every slot of a periodic table lasts at least one tick. -/
def SlotsNonEmpty (order : List (Name × Nat)) : Prop :=
  ∀ e ∈ order, 1 ≤ e.2

theorem SlotsInRange.of_sameSlots {sch sch' : Scheduler} (h : SlotsInRange sch)
    (hs : SameSlots sch sch') : SlotsInRange sch' := by
  obtain ⟨ho, hi, ht⟩ := hs
  rw [SlotsInRange, ho, hi, ht]
  exact h

theorem periodicOrder_spendTick (sch : Scheduler) (tick : Bool) :
    (sch.spendTick tick).periodicOrder = sch.periodicOrder := by
  cases tick <;> rfl

theorem periodicIndex_spendTick (sch : Scheduler) (tick : Bool) :
    (sch.spendTick tick).periodicIndex = sch.periodicIndex := by
  cases tick <;> rfl

theorem periodicOrder_checkAndChangePeriodic {sch sch' : Scheduler} {name : Name}
    {changed : Bool} (h : sch.checkAndChangePeriodic = .ok ((name, changed), sch')) :
    sch'.periodicOrder = sch.periodicOrder := by
  rcases checkAndChangePeriodic_eq_ok h with ⟨-, -, rfl, -⟩ | ⟨-, -, -, hsch, -⟩
  · rfl
  · rw [hsch]

/-- The table is never written. -/
theorem SlotStep.periodicOrder {sch sch' : Scheduler} (h : SlotStep sch sch') :
    sch'.periodicOrder = sch.periodicOrder := by
  rcases h with hs | ⟨sch₀, sch₁, tick, name, changed, hs₀, -, hchk, hs₁⟩
  · exact hs.1
  · calc sch'.periodicOrder = sch₁.periodicOrder := hs₁.1
      _ = (sch₀.spendTick tick).periodicOrder := periodicOrder_checkAndChangePeriodic hchk
      _ = sch.periodicOrder := by rw [periodicOrder_spendTick, hs₀.1]

/-- `check_and_change_periodic` brings a counter that may have reached zero
back into range: a zero counter starts the next slot in full. -/
theorem slotsInRange_checkAndChangePeriodic {sch sch' : Scheduler} {name : Name}
    {changed : Bool} (hpos : SlotsNonEmpty sch.periodicOrder)
    (hle : ∃ e, sch.periodicOrder[sch.periodicIndex]? = some e ∧ sch.periodicTime ≤ e.2)
    (h : sch.checkAndChangePeriodic = .ok ((name, changed), sch')) : SlotsInRange sch' := by
  rcases checkAndChangePeriodic_eq_ok h with ⟨htime, -, rfl, -⟩ | ⟨-, -, -, hsch, hnext⟩
  · -- inside the slot: nothing moves, and the counter is not zero
    obtain ⟨e, he, hte⟩ := hle
    exact ⟨e, he, Nat.one_le_iff_ne_zero.mpr htime, hte⟩
  · -- the next slot starts with its own length, which is at least one
    have hmem : (name, sch'.periodicTime) ∈ sch.periodicOrder := List.mem_of_getElem? hnext
    refine ⟨(name, sch'.periodicTime), ?_, hpos _ hmem, le_refl _⟩
    rw [hsch]
    exact hnext

/-- The step lemma: one operation keeps the slot fields in range. -/
theorem slotsInRange_slotStep {sch sch' : Scheduler} (hpos : SlotsNonEmpty sch.periodicOrder)
    (h : SlotsInRange sch) (hstep : SlotStep sch sch') : SlotsInRange sch' := by
  rcases hstep with hs | ⟨sch₀, sch₁, tick, name, changed, hs₀, -, hchk, hs₁⟩
  · exact h.of_sameSlots hs
  · obtain ⟨e, he, hlo, hhi⟩ := h.of_sameSlots hs₀
    -- the tick takes at most one off a counter that is not zero
    have hle : (sch₀.spendTick tick).periodicTime ≤ e.2 := by
      cases tick with
      | false => exact hhi
      | true => exact le_trans (Nat.sub_le _ _) hhi
    have hpos₀ : SlotsNonEmpty (sch₀.spendTick tick).periodicOrder := by
      rw [periodicOrder_spendTick, hs₀.1]
      exact hpos
    have hin := slotsInRange_checkAndChangePeriodic hpos₀
      ⟨e, by rw [periodicOrder_spendTick, periodicIndex_spendTick]; exact he, hle⟩ hchk
    exact hin.of_sameSlots hs₁

end Scheduler

namespace ProcessesManager

open Scheduler

/-- The slot invariant: the table is the one the manager was built with,
every slot of it lasts a tick, and the slot fields are in range. -/
def SlotsOk (order : List (Name × Nat)) (s : ProcessesManager) : Prop :=
  s.scheduler.periodicOrder = order ∧ SlotsNonEmpty order ∧ SlotsInRange s.scheduler

theorem slotsOk_newWithOrder {order : List (Name × Nat)} {init : ProcessesManager}
    (hpos : SlotsNonEmpty order) (hinit : newWithOrder order = .ok init) :
    SlotsOk order init := by
  simp only [newWithOrder, Scheduler.new, bind_eq_ok, expect_eq_ok, pure_eq_ok,
    Except.ok.injEq] at hinit
  obtain ⟨sch, ⟨first, hfirst, rfl⟩, rfl⟩ := hinit
  exact ⟨rfl, hpos, first, hfirst, hpos _ (List.mem_of_getElem? hfirst), le_refl _⟩

theorem slotsOk_step {order : List (Name × Nat)} {s s' : ProcessesManager} {op : Operation}
    (h : SlotsOk order s) (hs : s.step op = .ok s') : SlotsOk order s' := by
  obtain ⟨horder, hpos, hin⟩ := h
  have hslot := slotStep_step hs
  refine ⟨hslot.periodicOrder.trans horder, hpos, ?_⟩
  exact slotsInRange_slotStep (horder ▸ hpos) hin hslot

/-- The run lemma. -/
theorem slotsOk_of_reachable {order : List (Name × Nat)} {init s : ProcessesManager}
    (hinit : SlotsOk order init) (h : Reachable init s) : SlotsOk order s := by
  induction h with
  | init => exact hinit
  | step _ hs ih => exact slotsOk_step ih hs

/-- Between operations, in every state reachable from a manager built with
a table whose slots all last at least one tick (`newWithOrder` succeeding
means the table is not empty), the slot position is inside the table and
the ticks left are between one and the slot's length; so the current entry
is found, and `periodic_time -= 1` starts from at least one. -/
theorem periodic_slot_counter_in_range {order : List (Name × Nat)} {init s : ProcessesManager}
    (hpos : ∀ e ∈ order, 1 ≤ e.2) (hinit : newWithOrder order = .ok init)
    (h : Reachable init s) :
    s.scheduler.periodicIndex < s.scheduler.periodicOrder.length ∧
      ∃ e, s.scheduler.getCurrentPeriodicEntry = .ok e ∧
        1 ≤ s.scheduler.periodicTime ∧ s.scheduler.periodicTime ≤ e.2 := by
  obtain ⟨-, -, e, he, hlo, hhi⟩ := slotsOk_of_reachable (slotsOk_newWithOrder hpos hinit) h
  refine ⟨(List.getElem?_eq_some_iff.mp he).1, e, ?_, hlo, hhi⟩
  simp [getCurrentPeriodicEntry, he]

/-- Twelve ticks from boot: the first slot's ten ticks run out, the counter
is reset to the five of the second slot, and two more ticks count it down. -/
theorem periodic_slot_counter_in_range_after_slot_change :
    (∀ e ∈ periodicOrder, 1 ≤ e.2) ∧ newWithOrder periodicOrder = .ok bootState ∧
    ∃ s, bootState.run (List.replicate 12 (.nextTickPreemptProcess 0)) = .ok s ∧
      s.scheduler.periodicIndex = 1 ∧ s.scheduler.periodicTime = 3 ∧
      s.scheduler.periodicIndex < s.scheduler.periodicOrder.length ∧
      ∃ e, s.scheduler.getCurrentPeriodicEntry = .ok e ∧
        1 ≤ s.scheduler.periodicTime ∧ s.scheduler.periodicTime ≤ e.2 := by
  have hpos : ∀ e ∈ periodicOrder, 1 ≤ e.2 := by decide
  have hinit : newWithOrder periodicOrder = .ok bootState := rfl
  obtain ⟨s, hs, hidx, htime⟩ : ∃ s, bootState.run (List.replicate 12 (.nextTickPreemptProcess 0)) =
      .ok s ∧ s.scheduler.periodicIndex = 1 ∧ s.scheduler.periodicTime = 3 := ⟨_, rfl, rfl, rfl⟩
  exact ⟨hpos, hinit, s, hs, hidx, htime,
    periodic_slot_counter_in_range hpos hinit (Reachable.run .init hs)⟩

end ProcessesManager

end Processes
end NoIdeaOS
