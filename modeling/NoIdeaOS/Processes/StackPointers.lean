import NoIdeaOS.Processes.Operations

/-!
# Context switches resume the right stack

The interrupt handlers hand the manager the stack pointer of the process
they interrupted and switch to the stack pointer it returns.  That pointer
must be the one saved when the new process last stopped running.

`SavedRun` runs the manager alongside a ghost map `g` from pids to the stack
pointer last saved for them, updated by the rule that states what the
handlers expect: a process that stops running at a tick or a yield gets the
pointer passed in, and a process that is created gets the fake interrupt
frame of `Process::new`.  The invariant `GhostAgrees` says that the manager
stores exactly the ghost value for every live process except the running
one; the returned pointer is then read from a process that was not running.
-/

namespace NoIdeaOS
namespace Processes

open Fallible

namespace ProcessesManager

/-- The stack pointer the manager stores for `pid`, if the pid is live. -/
def savedStackPointer (s : ProcessesManager) (pid : Pid) : Option VirtAddr :=
  (s.processAt (placeOf pid)).map Process.stackPointer

/-- The ghost after a tick or a yield: the process that stopped running
saved `sp`. -/
def stopped (s s' : ProcessesManager) (sp : VirtAddr) (g : Pid → Option VirtAddr) :
    Pid → Option VirtAddr :=
  if s'.currentlyExecutingProcess = s.currentlyExecutingProcess then g
  else Function.update g s.currentlyExecutingProcess (some sp)

/-- The ghost after a creation: the pid that became live has the fake frame
built below the end of its stack. -/
def created (s s' : ProcessesManager) (stack : Option StackBounds) (g : Pid → Option VirtAddr) :
    Pid → Option VirtAddr :=
  fun q => if (s.processAt (placeOf q)).isNone && (s'.processAt (placeOf q)).isSome then
      stack.map fun b => Process.asmFakeRegister b.«end»
    else g q

/-- Runs of the manager from `init` with the ghost map of last saved stack
pointers. -/
inductive SavedRun (init : ProcessesManager) :
    ProcessesManager → (Pid → Option VirtAddr) → Prop
  | init : SavedRun init init fun _ => none
  | create {s s' : ProcessesManager} {g : Pid → Option VirtAddr} {level : SchedulingLevel}
      {name : Name} {arg : Int} {stack : Option StackBounds} {res : Except Unit Unit} :
      SavedRun init s g → s.createNewProcess level name arg stack = .ok (res, s') →
      SavedRun init s' (created s s' stack g)
  | yield {s s' : ProcessesManager} {g : Pid → Option VirtAddr} {sp r : VirtAddr} :
      SavedRun init s g → s.yieldCurrentProcess sp = .ok (r, s') →
      SavedRun init s' (stopped s s' sp g)
  | tick {s s' : ProcessesManager} {g : Pid → Option VirtAddr} {sp : VirtAddr}
      {r : Option VirtAddr} :
      SavedRun init s g → s.nextTickPreemptProcess sp = .ok (r, s') →
      SavedRun init s' (stopped s s' sp g)
  | endCurrent {s s' : ProcessesManager} {g : Pid → Option VirtAddr} {r : VirtAddr} :
      SavedRun init s g → s.endCurrentProcess = .ok (r, s') → SavedRun init s' g
  | endAll {s s' : ProcessesManager} {g : Pid → Option VirtAddr} :
      SavedRun init s g → s.endAllOtherProcesses = .ok s' → SavedRun init s' g
  | unyield {s s' : ProcessesManager} {g : Pid → Option VirtAddr} :
      SavedRun init s g → s.unyieldCurrentPeriodic = .ok s' → SavedRun init s' g

/-- The manager stores the ghost value for every live process but the
running one. -/
def GhostAgrees (s : ProcessesManager) (g : Pid → Option VirtAddr) : Prop :=
  ∀ q, q ≠ s.currentlyExecutingProcess → (s.processAt (placeOf q)).isSome →
    s.savedStackPointer q = g q

/-! ## Lemmas on places and saved pointers -/

theorem placeOf_inj {p q : Pid} : placeOf p = placeOf q ↔ p = q := by
  constructor
  · intro h
    unfold placeOf at h
    by_cases hp : p = 0 <;> by_cases hq : q = 0
    · rw [hp, hq]
    · simp [hp, hq] at h
    · simp [hp, hq] at h
    · simp only [hp, hq, if_false, Place.slot.injEq] at h
      exact Nat.sub_one_cancel (Nat.pos_of_ne_zero hp) (Nat.pos_of_ne_zero hq) h
  · rintro rfl
    rfl

theorem Reschedules.savedStackPointer {s s' : ProcessesManager} (h : Reschedules s s')
    (q : Pid) : s'.savedStackPointer q = s.savedStackPointer q := by
  have hq := congrArg (Option.map Process.stackPointer) (h.processAt_map (placeOf q))
  simpa [ProcessesManager.savedStackPointer, Option.map_map, Function.comp_def] using hq

theorem Reschedules.isSome_processAt {s s' : ProcessesManager} (h : Reschedules s s')
    (pl : Place) : (s'.processAt pl).isSome = (s.processAt pl).isSome := by
  have hq := congrArg Option.isSome (h.processAt_map pl)
  simpa using hq

theorem savedStackPointer_of_getCurrentProcess {s : ProcessesManager} {p : Process}
    (h : s.getCurrentProcess = .ok p) :
    s.savedStackPointer s.currentlyExecutingProcess = some p.stackPointer ∧
      (s.processAt (placeOf s.currentlyExecutingProcess)).isSome := by
  have hat := getCurrentProcess_eq_ok h
  simp [savedStackPointer, hat]

/-- Saving `sp` into the current process: its entry becomes `sp`, every
other entry stays. -/
theorem savedStackPointer_setAt {s : ProcessesManager} {pl : Place} {cur : Process}
    (hcur : s.getCurrentProcessMut = .ok (pl, cur)) (sp : VirtAddr) (q : Pid) :
    (s.setAt pl (cur.setStackPos sp)).savedStackPointer q =
        (if q = s.currentlyExecutingProcess then some sp else s.savedStackPointer q) ∧
      ((s.setAt pl (cur.setStackPos sp)).processAt (placeOf q)).isSome =
        (s.processAt (placeOf q)).isSome := by
  obtain ⟨rfl, hat⟩ := getCurrentProcessMut_eq_ok hcur
  simp only [savedStackPointer, processAt_setAt hat, placeOf_inj]
  by_cases hq : q = s.currentlyExecutingProcess
  · subst hq
    simp [hat]
  · simp [hq]

/-! ## One step keeps the ghost in agreement -/

section Step

variable {s s' : ProcessesManager} {g : Pid → Option VirtAddr}

/-- A switch after saving `sp` into the current process: the returned
pointer is `sp` when the process stays, and otherwise the ghost value of
the new one, which then agrees with the ghost updated by `stopped`. -/
theorem ghostAgrees_switch {pl : Place} {cur p : Process} {sp : VirtAddr} (h : GhostAgrees s g)
    (hcur : s.getCurrentProcessMut = .ok (pl, cur))
    (hr : Reschedules (s.setAt pl (cur.setStackPos sp)) s') (hp : s'.getCurrentProcess = .ok p) :
    some p.stackPointer = (if s'.currentlyExecutingProcess = s.currentlyExecutingProcess then
        some sp else g s'.currentlyExecutingProcess) ∧
      GhostAgrees s' (stopped s s' sp g) := by
  have hsave := savedStackPointer_setAt hcur sp
  -- every entry of `s'` is the entry of `s` after the save
  have hsp : ∀ q, s'.savedStackPointer q =
      if q = s.currentlyExecutingProcess then some sp else s.savedStackPointer q := fun q =>
    (hr.savedStackPointer q).trans (hsave q).1
  have hlive : ∀ q, (s'.processAt (placeOf q)).isSome = (s.processAt (placeOf q)).isSome :=
    fun q => (hr.isSome_processAt _).trans (hsave q).2
  obtain ⟨hnew, hnewLive⟩ := savedStackPointer_of_getCurrentProcess hp
  constructor
  · rw [← hnew, hsp]
    by_cases hc : s'.currentlyExecutingProcess = s.currentlyExecutingProcess
    · rw [if_pos hc, if_pos hc]
    · rw [if_neg hc, if_neg hc]
      exact h _ hc (hlive _ ▸ hnewLive)
  · intro q hq hqlive
    rw [hsp, stopped]
    by_cases hc : s'.currentlyExecutingProcess = s.currentlyExecutingProcess
    · have hq' : q ≠ s.currentlyExecutingProcess := hc ▸ hq
      rw [if_neg hq', if_pos hc]
      exact h q hq' (hlive q ▸ hqlive)
    · rw [if_neg hc]
      by_cases hqc : q = s.currentlyExecutingProcess
      · subst hqc
        simp
      · rw [if_neg hqc, Function.update_of_ne hqc]
        exact h q hqc (hlive q ▸ hqlive)

theorem ghostAgrees_create {level : SchedulingLevel} {name : Name} {arg : Int}
    {stack : Option StackBounds} {res : Except Unit Unit} (h : GhostAgrees s g)
    (hs : s.createNewProcess level name arg stack = .ok (res, s')) :
    GhostAgrees s' (created s s' stack g) := by
  obtain ⟨hcurr, hat⟩ := createNewProcess_processAt hs
  intro q hq hqlive
  simp only [savedStackPointer, created]
  rcases hat (placeOf q) with heq | ⟨hnone, p, bounds, hstack, hp, hsp⟩
  · -- an old process: the ghost entry is kept
    have hlive : (s.processAt (placeOf q)).isSome := heq ▸ hqlive
    have hold : (s.processAt (placeOf q)).isNone = false := by simpa using hlive
    simp only [hold, Bool.false_and, Bool.false_eq_true, if_false, heq]
    exact h q (hcurr ▸ hq) hlive
  · -- the new process: its entry is the fake frame
    simp [hnone, hp, hsp, hstack]

/-- Ending the running process: the new current pid is another live one,
whose pointer is its ghost value, and every remaining entry is kept. -/
theorem ghostAgrees_endCurrent {r : VirtAddr} (h : GhostAgrees s g)
    (hs : s.endCurrentProcess = .ok (r, s')) :
    s'.currentlyExecutingProcess ≠ s.currentlyExecutingProcess ∧
      some r = g s'.currentlyExecutingProcess ∧ GhostAgrees s' g := by
  obtain ⟨⟨res, s₁, hend, hr⟩, ⟨p, hp, rfl⟩, -⟩ := endCurrentProcess_eq_ok hs
  obtain ⟨hc0, hlt, hl, hi, -, -⟩ := endProcessWithPid_eq_ok hend
  have hat := processAt_of_set_none hl hlt hi
  have hplc : placeOf s.currentlyExecutingProcess = .slot (s.currentlyExecutingProcess - 1) := by
    simp [placeOf, hc0]
  -- a pid live after the end is not the ended one, and keeps its entry
  have hkeep : ∀ q, (s'.processAt (placeOf q)).isSome → q ≠ s.currentlyExecutingProcess ∧
      s'.savedStackPointer q = s.savedStackPointer q ∧ (s.processAt (placeOf q)).isSome := by
    intro q hq
    rw [hr.isSome_processAt, hat] at hq
    have hne : placeOf q ≠ .slot (s.currentlyExecutingProcess - 1) := by
      intro heq
      simp [heq] at hq
    rw [if_neg hne] at hq
    refine ⟨fun hqc => hne (hqc ▸ hplc), ?_, hq⟩
    rw [hr.savedStackPointer, savedStackPointer, savedStackPointer, hat, if_neg hne]
  obtain ⟨hnew, hnewLive⟩ := savedStackPointer_of_getCurrentProcess hp
  obtain ⟨hne, hsp, hlive⟩ := hkeep _ hnewLive
  refine ⟨hne, ?_, fun q hq hqlive => ?_⟩
  · rw [← h _ hne hlive, ← hsp, hnew]
  · obtain ⟨hqc, hsp', hlive'⟩ := hkeep q hqlive
    rw [hsp']
    exact h q hqc hlive'

theorem ghostAgrees_endAll (h : GhostAgrees s g) (hs : s.endAllOtherProcesses = .ok s') :
    GhostAgrees s' g := by
  obtain ⟨-, hcurr, -, hat⟩ := endAllOtherProcesses_eq_ok hs
  intro q hq hqlive
  rcases hat (placeOf q) with heq | hnone
  · have hlive : (s.processAt (placeOf q)).isSome := heq ▸ hqlive
    rw [savedStackPointer, heq]
    exact h q (hcurr ▸ hq) hlive
  · simp [hnone] at hqlive

theorem ghostAgrees_unyield (h : GhostAgrees s g) (hs : s.unyieldCurrentPeriodic = .ok s') :
    GhostAgrees s' g := by
  obtain ⟨-, rfl⟩ := unyieldCurrentPeriodic_eq_ok hs
  exact h

end Step

/-- At boot only the idle process is live, and it is running. -/
theorem ghostAgrees_newWithOrder {order : List (Name × Nat)} {init : ProcessesManager}
    (hinit : newWithOrder order = .ok init) : GhostAgrees init fun _ => none := by
  simp only [newWithOrder, bind_eq_ok, pure_eq_ok, Except.ok.injEq] at hinit
  obtain ⟨sch, -, rfl⟩ := hinit
  intro q hq hqlive
  rcases q with _ | _ | _ | q
  · exact absurd rfl hq
  all_goals simp [placeOf, processAt] at hqlive

/-- The run lemma. -/
theorem ghostAgrees_of_savedRun {order : List (Name × Nat)} {init s : ProcessesManager}
    {g : Pid → Option VirtAddr} (hinit : newWithOrder order = .ok init) (h : SavedRun init s g) :
    GhostAgrees s g := by
  induction h with
  | init => exact ghostAgrees_newWithOrder hinit
  | create _ hs ih => exact ghostAgrees_create ih hs
  | yield _ hs ih =>
      obtain ⟨⟨pl, cur, hcur, hr⟩, ⟨p, hp, -⟩, -⟩ := yieldCurrentProcess_eq_ok hs
      exact (ghostAgrees_switch ih hcur hr hp).2
  | tick _ hs ih =>
      obtain ⟨⟨pl, cur, hcur, -, hr⟩, ⟨p, hp, -⟩, -⟩ := nextTickPreemptProcess_eq_ok hs
      exact (ghostAgrees_switch ih hcur hr hp).2
  | endCurrent _ hs ih => exact (ghostAgrees_endCurrent ih hs).2.2
  | endAll _ hs ih => exact ghostAgrees_endAll ih hs
  | unyield _ hs ih => exact ghostAgrees_unyield ih hs

/-- Over every run, the stack pointer a tick, a yield or the end of a
process hands back is the one last saved for the process now running: the
pointer passed in when the running process stays, and otherwise the ghost
value of the new one (the pointer passed in when it last stopped, or the
fake frame of `Process::new` if it never ran). -/
theorem resumed_stack_pointer_is_last_saved {order : List (Name × Nat)}
    {init s : ProcessesManager} {g : Pid → Option VirtAddr}
    (hinit : newWithOrder order = .ok init) (hrun : SavedRun init s g) :
    (∀ sp r s', s.yieldCurrentProcess sp = .ok (r, s') →
      some r = if s'.currentlyExecutingProcess = s.currentlyExecutingProcess then some sp
        else g s'.currentlyExecutingProcess) ∧
    (∀ sp r s', s.nextTickPreemptProcess sp = .ok (r, s') →
      r = if s'.currentlyExecutingProcess = s.currentlyExecutingProcess then some sp
        else g s'.currentlyExecutingProcess) ∧
    (∀ r s', s.endCurrentProcess = .ok (r, s') →
      s'.currentlyExecutingProcess ≠ s.currentlyExecutingProcess ∧
        some r = g s'.currentlyExecutingProcess) := by
  have h := ghostAgrees_of_savedRun hinit hrun
  refine ⟨fun sp r s' hs => ?_, fun sp r s' hs => ?_, fun r s' hs => ?_⟩
  · obtain ⟨⟨pl, cur, hcur, hr⟩, ⟨p, hp, rfl⟩, -⟩ := yieldCurrentProcess_eq_ok hs
    exact (ghostAgrees_switch h hcur hr hp).1
  · obtain ⟨⟨pl, cur, hcur, -, hr⟩, ⟨p, hp, rfl⟩, -⟩ := nextTickPreemptProcess_eq_ok hs
    exact (ghostAgrees_switch h hcur hr hp).1
  · exact ⟨(ghostAgrees_endCurrent h hs).1, (ghostAgrees_endCurrent h hs).2.1⟩

/-- A run with a context switch: a periodic process named 1 is created on
the stack `4096..8192`, and the next tick, in the first slot of
`periodicOrder` (name 1), stops idle with the stack pointer 100 and starts
the new process from its fake frame; ending that process resumes idle at
100. -/
theorem savedRun_create_then_tick :
    ∃ s₁ s₂ s₃, bootState.createNewProcess .periodic 1 0 (some { start := 4096, «end» := 8192 }) =
        .ok (.ok (), s₁) ∧
      s₁.nextTickPreemptProcess 100 = .ok (some (Process.asmFakeRegister 8192), s₂) ∧
      s₂.currentlyExecutingProcess = 1 ∧ s₂.endCurrentProcess = .ok (100, s₃) ∧
      stopped s₁ s₂ 100
        (created bootState s₁ (some { start := 4096, «end» := 8192 }) fun _ => none) 0 = some 100 ∧
      SavedRun bootState s₂ (stopped s₁ s₂ 100
        (created bootState s₁ (some { start := 4096, «end» := 8192 }) fun _ => none)) := by
  obtain ⟨s₁, s₂, s₃, h₁, h₂, hcur, hend, hidle⟩ : ∃ s₁ s₂ s₃,
      bootState.createNewProcess .periodic 1 0 (some { start := 4096, «end» := 8192 }) =
        .ok (.ok (), s₁) ∧
      s₁.nextTickPreemptProcess 100 = .ok (some (Process.asmFakeRegister 8192), s₂) ∧
      s₂.currentlyExecutingProcess = 1 ∧ s₂.endCurrentProcess = .ok (100, s₃) ∧
      stopped s₁ s₂ 100
        (created bootState s₁ (some { start := 4096, «end» := 8192 }) fun _ => none) 0 = some 100 :=
    ⟨_, _, _, rfl, rfl, rfl, rfl, rfl⟩
  exact ⟨s₁, s₂, s₃, h₁, h₂, hcur, hend, hidle, (SavedRun.init.create h₁).tick h₂⟩

/-- After the switch of `savedRun_create_then_tick`, idle's saved pointer is
the one the tick was given. -/
theorem resumed_stack_pointer_is_last_saved_after_switch :
    ∃ s₁ s₂, bootState.createNewProcess .periodic 1 0 (some { start := 4096, «end» := 8192 }) =
        .ok (.ok (), s₁) ∧
      s₁.nextTickPreemptProcess 100 = .ok (some (Process.asmFakeRegister 8192), s₂) ∧
      s₂.currentlyExecutingProcess = 1 ∧
      let g := stopped s₁ s₂ 100
        (created bootState s₁ (some { start := 4096, «end» := 8192 }) fun _ => none)
      g 0 = some 100 ∧ newWithOrder periodicOrder = .ok bootState ∧ SavedRun bootState s₂ g ∧
      (∀ sp r s', s₂.yieldCurrentProcess sp = .ok (r, s') →
        some r = if s'.currentlyExecutingProcess = s₂.currentlyExecutingProcess then some sp
          else g s'.currentlyExecutingProcess) ∧
      (∀ sp r s', s₂.nextTickPreemptProcess sp = .ok (r, s') →
        r = if s'.currentlyExecutingProcess = s₂.currentlyExecutingProcess then some sp
          else g s'.currentlyExecutingProcess) ∧
      (∀ r s', s₂.endCurrentProcess = .ok (r, s') →
        s'.currentlyExecutingProcess ≠ s₂.currentlyExecutingProcess ∧
          some r = g s'.currentlyExecutingProcess) := by
  obtain ⟨s₁, s₂, -, h₁, h₂, hcur, -, hidle, hrun⟩ := savedRun_create_then_tick
  have hinit : newWithOrder periodicOrder = .ok bootState := rfl
  exact ⟨s₁, s₂, h₁, h₂, hcur, hidle, hinit, hrun, resumed_stack_pointer_is_last_saved hinit hrun⟩

end ProcessesManager

end Processes
end NoIdeaOS
