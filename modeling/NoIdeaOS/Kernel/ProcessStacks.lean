import NoIdeaOS.Lib.OptionSlots
import NoIdeaOS.Memory.StackRuns
import NoIdeaOS.Processes.Table

/-!
# Processes and their stacks

`create_new_process` gives each new process a stack of 32 pages: its
`Process::new` calls `alloc_stack` and `unwrap`s the result.
`end_process_with_pid` takes the process out of its slot and gives the stack
back with `dealloc_stack`.  The manager's model takes the stack as an input
and leaves the freeing to the memory code; here the two are run together as
the kernel runs them.  `KernelState` is the manager with the memory the
stack code works on, and `Call` lists the kernel entries that change them:
`os_create`, the three system calls, the timer tick and the unyield of
`os_signal`.

**Results.**

* `kernel_manager_follows_manager_model`: the manager inside the kernel
  moves only by operations of the manager's model, so every state it
  reaches is reachable there and every result about those runs applies.
* `process_stacks_mapped_apart_and_reclaimed`: every process in the table
  runs on a stack that `alloc_stack` handed out and that is still mapped to
  its frames; the stacks of two processes are apart; and ending a process
  unmaps exactly its stack's pages and gives back their frames.
* `stack_panics_only_on_create`: on a kernel run the stack code panics only
  inside `os_create`, when the frame allocator does or, once the counter has
  passed `2 ^ 48`, in `VirtAddr::new`; ending processes never panics in
  `dealloc_stack`.
-/

namespace NoIdeaOS
namespace Kernel

open Fallible Memory Processes ProcessesManager
open scoped List

variable {σ ε : Type}

/-- What the process calls change: the process manager, and the page table,
frame allocator and `STACK_ALLOC_NEXT` behind `alloc_stack` and
`dealloc_stack`. -/
structure KernelState (σ : Type) where
  pm : ProcessesManager
  mem : StackMemory σ

/-- A panic of the manager's code or of the stack code. -/
inductive KernelPanic (ε : Type)
  | process (p : Panic)
  | stack (p : StackPanic ε)

/-- A panic of the stack code. -/
def KernelPanic.isStack : KernelPanic ε → Bool
  | .stack _ => true
  | .process _ => false

/-- Whether `create_new_process` reaches `Process::new`, and with it
`alloc_stack`: the level is not Idle and, for a Periodic process, the name
is free and in the periodic table. -/
def reachesAllocStack (s : ProcessesManager) (level : SchedulingLevel) (name : Name) : Bool :=
  match level with
  | .device | .sporadic => true
  | .periodic => !s.nameRegistry.checkBit name && s.scheduler.periodicOrder.any (fun e => e.1 == name)
  | .idle => false

/-- The slot `end_process_with_pid` takes: `processes_list[pid as usize - 1]`. -/
def slotOfPid (s : ProcessesManager) (pid : Pid) : Except Panic (Option Process) := do
  check (pid ≠ 0) Panic.subtractOverflow
  expect s.processesList[pid - 1]? (Panic.indexOutOfBounds s.processesList.length (pid - 1))

/-- The `dealloc_stack` of the stack of the process taken from a slot, if
the slot held one. -/
def freeSlot [FrameDeallocator σ] (m : StackMemory σ) :
    Option Process → Except (StackPanic ε) (StackMemory σ)
  | none => pure m
  | some target => deallocStack target.stackBounds m

namespace KernelState

/-- `os_create`: `create_new_process` under the manager's lock, whose
`Process::new` maps a stack of 32 pages with `alloc_stack`. -/
def osCreate [FrameAllocator σ ε] (k : KernelState σ) (level : SchedulingLevel) (name : Name)
    (arg : Int) : Except (KernelPanic ε) (Except Unit Unit × KernelState σ) := do
  if reachesAllocStack k.pm level name then
    let (stack, mem) ← (allocStack k.mem 32).mapError KernelPanic.stack
    let (r, pm) ← (k.pm.createNewProcess level name arg stack.toOption).mapError KernelPanic.process
    pure (r, ⟨pm, mem⟩)
  else
    -- refused or panicking before `Process::new`: no stack is allocated
    let (r, pm) ← (k.pm.createNewProcess level name arg none).mapError KernelPanic.process
    pure (r, { k with pm })

/-- `end_process_with_pid`: the stack of the process taken from its slot is
freed after the take and before the bookkeeping of its level. -/
def endProcessWithPid [FrameDeallocator σ] (k : KernelState σ) (pid : Pid) :
    Except (KernelPanic ε) (Except Unit Unit × KernelState σ) := do
  let slot ← (slotOfPid k.pm pid).mapError KernelPanic.process
  let mem ← (freeSlot k.mem slot).mapError KernelPanic.stack
  let (r, pm) ← (k.pm.endProcessWithPid pid).mapError KernelPanic.process
  pure (r, ⟨pm, mem⟩)

/-- `end_current_process`. -/
def endCurrentProcess [FrameDeallocator σ] (k : KernelState σ) :
    Except (KernelPanic ε) (VirtAddr × KernelState σ) := do
  let (_, k) ← k.endProcessWithPid k.pm.currentlyExecutingProcess
  let pm ← (k.pm.switchToIdle false).mapError KernelPanic.process
  let pm ← (pm.scheduleAllTheStuff true).mapError KernelPanic.process
  let p ← pm.getCurrentProcess.mapError KernelPanic.process
  pure (p.stackPointer, { k with pm })

/-- One `end_process_with_pid` of the loop of `end_all_other_processes`. -/
def endOne [FrameDeallocator σ] (k : KernelState σ) (pid : Pid) :
    Except (KernelPanic ε) (KernelState σ) := do
  let (_, k) ← k.endProcessWithPid pid
  pure k

/-- `end_all_other_processes`: the pids are collected first, then ended one
by one. -/
def endAllOtherProcesses [FrameDeallocator σ] (k : KernelState σ) :
    Except (KernelPanic ε) (KernelState σ) :=
  let pids := ((k.pm.processesList.filterMap id).map Process.pid).filter
    fun c => c != k.pm.currentlyExecutingProcess
  pids.foldlM endOne k

end KernelState

/-- The kernel entries that change the manager or the stacks. -/
inductive Call
  /-- `os_create` -/
  | create (level : SchedulingLevel) (name : Name) (arg : Int)
  /-- `internal_syscall` with `Yield`, given the saved stack pointer -/
  | yield (stackP : VirtAddr)
  /-- `internal_syscall` with `Terminate` -/
  | terminate
  /-- `internal_syscall` with `TerminateEverythingElse` -/
  | terminateEverythingElse
  /-- `timer_internal` with the manager unlocked -/
  | tick (stackP : Nat)
  /-- the `unyield_current_periodic` of `os_signal` -/
  | unyield
deriving DecidableEq, Repr

namespace KernelState

/-- One kernel entry, its return value dropped. -/
def step [FrameAllocator σ ε] [FrameDeallocator σ] (k : KernelState σ) :
    Call → Except (KernelPanic ε) (KernelState σ)
  | .create level name arg => do
      let (_, k) ← k.osCreate level name arg
      pure k
  | .yield stackP => do
      let (_, pm) ← (k.pm.yieldCurrentProcess stackP).mapError KernelPanic.process
      pure { k with pm }
  | .terminate => do
      let (_, k) ← k.endCurrentProcess
      pure k
  | .terminateEverythingElse => k.endAllOtherProcesses
  | .tick stackP => do
      let (_, pm) ← (k.pm.nextTickPreemptProcess stackP).mapError KernelPanic.process
      pure { k with pm }
  | .unyield => do
      let pm ← k.pm.unyieldCurrentPeriodic.mapError KernelPanic.process
      pure { k with pm }

end KernelState

/-- The states a kernel reaches from `init` by entries that do not panic. -/
inductive KernelRun [FrameAllocator σ ε] [FrameDeallocator σ] (init : KernelState σ) :
    KernelState σ → Prop
  | init : KernelRun init init
  | step {k k' : KernelState σ} {c : Call} :
      KernelRun init k → k.step c = .ok k' → KernelRun init k'

/-! ## The manager inside the kernel -/

theorem slotOfPid_eq_ok {s : ProcessesManager} {pid : Pid} {slot : Option Process}
    (h : slotOfPid s pid = .ok slot) : pid ≠ 0 ∧ s.processesList[pid - 1]? = some slot := by
  simp only [slotOfPid, bind_eq_ok, check_eq_ok, expect_eq_ok] at h
  obtain ⟨_, hpid, hslot⟩ := h
  exact ⟨hpid, hslot⟩

namespace KernelState

section Ends

variable [FrameDeallocator σ] {k k' : KernelState σ}

/-- A successful `end_process_with_pid` is the manager's, with the memory
after freeing the stack of the slot it took. -/
theorem endProcessWithPid_eq_ok {pid : Pid} {r : Except Unit Unit}
    (h : (k.endProcessWithPid pid : Except (KernelPanic ε) _) = .ok (r, k')) :
    ∃ slot, slotOfPid k.pm pid = .ok slot ∧
      (freeSlot k.mem slot : Except (StackPanic ε) _) = .ok k'.mem ∧
      k.pm.endProcessWithPid pid = .ok (r, k'.pm) := by
  simp only [endProcessWithPid, bind_eq_ok, mapError_eq_ok] at h
  obtain ⟨slot, hslot, mem, hmem, ⟨r', pm⟩, hend, h⟩ := h
  simp only [pure_eq_ok, Except.ok.injEq, Prod.mk.injEq] at h
  obtain ⟨rfl, rfl⟩ := h
  exact ⟨slot, hslot, hmem, hend⟩

theorem endCurrentProcess_eq_ok {r : VirtAddr}
    (h : (k.endCurrentProcess : Except (KernelPanic ε) _) = .ok (r, k')) :
    (∃ r₁ k₁, (k.endProcessWithPid k.pm.currentlyExecutingProcess : Except (KernelPanic ε) _) =
        .ok (r₁, k₁) ∧ k'.mem = k₁.mem) ∧
      k.pm.endCurrentProcess = .ok (r, k'.pm) := by
  simp only [endCurrentProcess, bind_eq_ok, mapError_eq_ok] at h
  obtain ⟨⟨r₁, k₁⟩, hend, s₂, h₂, s₃, h₃, p, hp, h⟩ := h
  simp only [pure_eq_ok, Except.ok.injEq, Prod.mk.injEq] at h
  obtain ⟨rfl, rfl⟩ := h
  obtain ⟨-, -, -, hpm⟩ := endProcessWithPid_eq_ok hend
  refine ⟨⟨r₁, k₁, hend, rfl⟩, ?_⟩
  simp only [ProcessesManager.endCurrentProcess, hpm, ok_bind, h₂, h₃, hp, pure_eq_ok]

end Ends

variable [FrameAllocator σ ε] [FrameDeallocator σ] {k k' : KernelState σ}

end KernelState

/-- A kernel run from boot, with 32 usable frames: `os_create` of the
periodic process named 1 maps it a stack of 32 pages right above the guard
page at `STACK_ALLOC_NEXT`, and the next tick, in the slot of name 1,
switches to it. -/
theorem kernelRun_create_then_tick :
    let k₀ : KernelState (BootInfoFrameAllocator × Ram) :=
      ⟨bootState, ⟨stackAllocNextInit, fun _ => none,
        (BootInfoFrameAllocator.new.init [⟨⟨16, 48⟩, .usable⟩] 0, fun _ => 0)⟩⟩
    ∃ k₁ k₂, k₀.step (.create .periodic 1 0) = .ok k₁ ∧ k₁.step (.tick 100) = .ok k₂ ∧
      k₂.pm.currentlyExecutingProcess = 1 ∧
      k₂.pm.processesList.map (Option.map Process.stackBounds) =
        [some ⟨stackAllocNextInit + 1 * 4096, stackAllocNextInit + 1 * 4096 + 32 * 4096⟩, none] ∧
      KernelRun k₀ k₂ := by
  intro k₀
  have halloc := @allocStack_of_allocates _ _ _ k₀.mem 32 ⟨stackAllocNextInit, by decide⟩ _ _ rfl
    (by decide) (by decide) (allocates_usableFrames _ 0 _) (length_usableFrames_region 16 48)
    fun _ _ => rfl
  simp only [Page.add_startAddress] at halloc
  obtain ⟨mem₁, halloc⟩ : ∃ mem₁, allocStack k₀.mem 32 = .ok (.ok
      ⟨stackAllocNextInit + 1 * 4096, stackAllocNextInit + 1 * 4096 + 32 * 4096⟩, mem₁) :=
    ⟨_, halloc⟩
  -- the tick runs the new process, in the first slot of the periodic table
  obtain ⟨pm₁, pm₂, r, hcreate, htick, hcur, hslots⟩ : ∃ pm₁ pm₂ r,
      bootState.createNewProcess .periodic 1 0
        (some ⟨stackAllocNextInit + 1 * 4096, stackAllocNextInit + 1 * 4096 + 32 * 4096⟩) =
        .ok (.ok (), pm₁) ∧ pm₁.nextTickPreemptProcess 100 = .ok (r, pm₂) ∧
      pm₂.currentlyExecutingProcess = 1 ∧
      pm₂.processesList.map (Option.map Process.stackBounds) =
        [some ⟨stackAllocNextInit + 1 * 4096, stackAllocNextInit + 1 * 4096 + 32 * 4096⟩, none] :=
    ⟨_, _, _, rfl, rfl, rfl, rfl⟩
  have hstep₁ : k₀.step (.create .periodic 1 0) = .ok ⟨pm₁, mem₁⟩ := by
    have hreach : reachesAllocStack k₀.pm .periodic 1 = true := by decide
    simp only [KernelState.step, KernelState.osCreate, hreach, if_true, halloc, Except.mapError,
      ok_bind, Except.toOption]
    rw [show k₀.pm = bootState from rfl, hcreate]
    rfl
  have hstep₂ : (⟨pm₁, mem₁⟩ : KernelState _).step (.tick 100) = .ok ⟨pm₂, mem₁⟩ := by
    simp only [KernelState.step, htick, Except.mapError, ok_bind]
    rfl
  exact ⟨_, _, hstep₁, hstep₂, hcur, hslots, .step (.step .init hstep₁) hstep₂⟩

/-- The stacks of the processes in the slots. -/
def stackSlots (s : ProcessesManager) : List (Option StackBounds) :=
  s.processesList.map (Option.map Process.stackBounds)

/-- A rescheduling keeps every process with its stack. -/
theorem stackSlots_of_reschedules {s s' : ProcessesManager} (h : Reschedules s s') :
    stackSlots s' = stackSlots s := by
  have htable : ∀ t : ProcessesManager,
      stackSlots t = t.table.map (Option.map Process.stackBounds) := by
    intro t
    simp only [stackSlots, table, List.map_map, Option.map_comp_map]
    rfl
  rw [htable, htable, h.table]

/-- Saving a stack pointer into a process and rescheduling keeps the stacks. -/
theorem stackSlots_of_switch {s s' : ProcessesManager} {pl : Place} {cur : Process} {sp : VirtAddr}
    (hcur : s.getCurrentProcessMut = .ok (pl, cur))
    (hr : Reschedules (s.setAt pl (cur.setStackPos sp)) s') : stackSlots s' = stackSlots s := by
  rw [stackSlots_of_reschedules hr]
  obtain ⟨-, hat⟩ := getCurrentProcessMut_eq_ok hcur
  cases pl with
  | idle => rfl
  | slot i =>
      simp only [processAt, Option.join_eq_some_iff] at hat
      obtain ⟨hlt, hget⟩ := List.getElem?_eq_some_iff.mp hat
      simp only [stackSlots, setAt, List.map_set, Option.map_some]
      apply List.ext_getElem?
      intro j
      rw [List.getElem?_set]
      split
      · next hij =>
          subst hij
          simp [hget, hlt, Process.setStackPos]
      · rfl

theorem stackSlots_endProcessWithPid {s s' : ProcessesManager} {pid : Pid} {r : Except Unit Unit}
    (h : s.endProcessWithPid pid = .ok (r, s')) :
    stackSlots s' = (stackSlots s).set (pid - 1) none := by
  obtain ⟨-, -, hl, -⟩ := ProcessesManager.endProcessWithPid_eq_ok h
  simp [stackSlots, hl, List.map_set]

/-- An insertion fills an empty slot, of a table with the same stacks, with
the stack it was given. -/
theorem insertNewProcess_stackSlots {s s' : ProcessesManager} {level : SchedulingLevel}
    {name : Name} {arg : Int} {stack : Option StackBounds} {res : Except Unit Unit}
    (h : s.insertNewProcess level name arg stack = .ok (res, s')) :
    ∃ b, stack = some b ∧ ∃ (l : List (Option StackBounds)) (i : Nat),
      l.filterMap id = (stackSlots s).filterMap id ∧ l[i]? = some none ∧
        stackSlots s' = l.set i (some b) := by
  unfold insertNewProcess at h
  rcases hfree : s.pidPool.getFreeElem with ⟨pid, pool⟩
  rw [hfree] at h
  dsimp only at h
  obtain ⟨p, hp, h⟩ := bind_eq_ok.mp h
  obtain ⟨idx, -, h⟩ := bind_eq_ok.mp h
  obtain ⟨slot, hslot, h⟩ := bind_eq_ok.mp h
  obtain ⟨_, hnone, h⟩ := bind_eq_ok.mp h
  simp only [pure_eq_ok, Except.ok.injEq, Prod.mk.injEq] at h
  obtain ⟨rfl, rfl⟩ := h
  obtain ⟨-, b, rfl, rfl⟩ := Process.new_eq_ok hp
  have hempty : slot = none := check_eq_ok.mp hnone
  subst hempty
  refine ⟨b, rfl, (if idx ≥ s.processesList.length then resize s.processesList (idx + 1) none
    else s.processesList).map (Option.map Process.stackBounds), idx, ?_,
    by simp [expect_eq_ok.mp hslot], by simp [stackSlots, List.map_set]⟩
  -- the optional `resize` pads the slots with empty ones
  split
  next hge =>
    simp only [resize, List.take_of_length_le (Nat.le_succ_of_le hge), List.map_append,
      List.map_replicate, Option.map_none]
    exact OptionSlots.filterMap_append_replicate_none _ _
  next => rfl

/-- Without a stack, a creation that returns has refused the name and
changed nothing: an insertion needs the stack. -/
theorem createNewProcess_none {s s' : ProcessesManager} {level : SchedulingLevel} {name : Name}
    {arg : Int} {res : Except Unit Unit} (h : s.createNewProcess level name arg none = .ok (res, s')) :
    s' = s := by
  rcases createNewProcess_eq_ok h with ⟨-, -, -, rfl⟩ | ⟨-, reg, -, -, hins⟩
  · rfl
  · obtain ⟨b, hb, -⟩ := insertNewProcess_stackSlots hins
    cases hb

/-- A creation given the stack `b` adds at most `b` to the stacks of the table. -/
theorem owned_createNewProcess {s s' : ProcessesManager} {level : SchedulingLevel} {name : Name}
    {arg : Int} {res : Except Unit Unit} {b : StackBounds} {m : List StackBounds}
    (h : s.createNewProcess level name arg (some b) = .ok (res, s'))
    (hown : (stackSlots s).filterMap id <+~ m) : (stackSlots s').filterMap id <+~ b :: m := by
  rcases createNewProcess_eq_ok h with ⟨-, -, -, rfl⟩ | ⟨-, reg, -, -, hins⟩
  · exact hown.trans (List.sublist_cons_self b m).subperm
  · obtain ⟨b', hb, l, i, hl, hi, hs'⟩ := insertNewProcess_stackSlots hins
    cases hb
    rw [hs']
    exact OptionSlots.subperm_set_some (by rw [hl]; exact hown) hi

/-- On a page-aligned counter, `alloc_stack` panics only in the frame
allocator, or in `VirtAddr::new` on a counter it refuses. -/
theorem allocStack_error_of_aligned [FrameAllocator σ ε] {m : StackMemory σ} {n : Nat}
    {e : StackPanic ε} (haligned : m.stackAllocNext % 4096 = 0) (h : allocStack m n = .error e) :
    (∃ fe, e = .frameAllocator fe) ∨
      ∃ bits, VirtAddr.tryNew m.stackAllocNext = .error bits ∧ e = .virtAddrNotValid bits := by
  rcases allocStack_eq_error h with hres | ⟨guard, m₁, -, hmap⟩
  · rcases reserveStackMemory_eq_error hres with ⟨hnew, rfl⟩ | ⟨addr, hnew, hal, -⟩
    · exact .inr ⟨_, hnew, rfl⟩
    · exact absurd ((VirtAddr.le_of_tryNew hnew).2 haligned) hal
  · exact .inl (mapPages_eq_error hmap)

/-! ## The invariant: the processes own live stacks -/

/-- The invariant of the kernel's runs: a run of the stack code whose live
stacks include, with multiplicity, the stack of every process in the table. -/
structure StacksOwned [FrameAllocator σ ε] [FrameDeallocator σ] (pt₀ : PageTable) (fa₀ : σ)
    (k : KernelState σ) (log : List StackCall) (live : List (StackBounds × List PhysFrame)) :
    Prop where
  life : StackLife pt₀ fa₀ k.mem log live
  owned : (stackSlots k.pm).filterMap id <+~ live.map Prod.fst

section Owned

variable [FrameAllocator σ ε] [FrameDeallocator σ] {pt₀ : PageTable} {fa₀ : σ}
  {k k' : KernelState σ} {log : List StackCall} {live : List (StackBounds × List PhysFrame)}

theorem StacksOwned.congr (h : StacksOwned pt₀ fa₀ k log live) (hm : k'.mem = k.mem)
    (hs : stackSlots k'.pm = stackSlots k.pm) : StacksOwned pt₀ fa₀ k' log live :=
  ⟨hm ▸ h.life, hs ▸ h.owned⟩

/-- A live stack of the invariant, with the frames of its pages. -/
theorem StacksOwned.live_of_mem (h : StacksOwned pt₀ fa₀ k log live) {b : StackBounds}
    (hb : b ∈ (stackSlots k.pm).filterMap id) : ∃ frames, (b, frames) ∈ live := by
  obtain ⟨⟨b', frames⟩, hx, rfl⟩ := List.mem_map.mp (h.owned.subset hb)
  exact ⟨frames, hx⟩

/-- `os_create`: a stack that `alloc_stack` hands out becomes live, and it
is the only stack the table can gain. -/
theorem StacksOwned.osCreate (h : StacksOwned pt₀ fa₀ k log live) {level : SchedulingLevel}
    {name : Name} {arg : Int} {r : Except Unit Unit} (hc : k.osCreate level name arg = .ok (r, k')) :
    ∃ log' live', StacksOwned pt₀ fa₀ k' log' live' := by
  unfold KernelState.osCreate at hc
  split at hc
  · obtain ⟨⟨stack, mem⟩, halloc, ⟨r', pm⟩, hcreate, hc⟩ := by
      simpa only [bind_eq_ok, mapError_eq_ok] using hc
    simp only [pure_eq_ok, Except.ok.injEq, Prod.mk.injEq] at hc
    obtain ⟨rfl, rfl⟩ := hc
    cases stack with
    | ok b =>
        obtain ⟨-, -, -, -, -, -, -, frames, hall, hlen, -⟩ := allocStack_eq_ok halloc
        exact ⟨_, _, .allocOk h.life (by decide) halloc hall hlen,
          owned_createNewProcess hcreate h.owned⟩
    | error e =>
        obtain rfl := createNewProcess_none hcreate
        exact ⟨_, _, .allocError h.life (by decide) halloc, h.owned⟩
  · obtain ⟨⟨r', pm⟩, hcreate, hc⟩ := by simpa only [bind_eq_ok, mapError_eq_ok] using hc
    simp only [pure_eq_ok, Except.ok.injEq, Prod.mk.injEq] at hc
    obtain ⟨rfl, rfl⟩ := hc
    obtain rfl := createNewProcess_none hcreate
    exact ⟨log, live, h⟩

/-- `end_process_with_pid`: the stack of the taken process is live; freeing
it there keeps the invariant. -/
theorem StacksOwned.endProcessWithPid (h : StacksOwned pt₀ fa₀ k log live) {pid : Pid}
    {r : Except Unit Unit} (he : (k.endProcessWithPid pid : Except (KernelPanic ε) _) = .ok (r, k')) :
    ∃ live', StacksOwned pt₀ fa₀ k' log live' := by
  obtain ⟨slot, hslot, hfree, hend⟩ := KernelState.endProcessWithPid_eq_ok he
  have hslots := stackSlots_endProcessWithPid hend
  have hat : (stackSlots k.pm)[pid - 1]? = some (slot.map Process.stackBounds) := by
    simp [stackSlots, (slotOfPid_eq_ok hslot).2]
  cases slot with
  | none =>
      -- an empty slot: nothing is freed
      simp only [freeSlot, pure_eq_ok, Except.ok.injEq] at hfree
      have hp := OptionSlots.filterMap_set_perm hat none
      simp only [Option.map_none, Option.toList_none, List.append_nil] at hp
      exact ⟨live, hfree ▸ h.life, hslots ▸ hp.subperm.trans h.owned⟩
  | some target =>
      obtain ⟨frames, hx⟩ := h.live_of_mem (List.mem_filterMap.mpr ⟨_, List.mem_of_getElem? hat, rfl⟩)
      obtain ⟨l₁, l₂, hsplit⟩ := List.append_of_mem hx
      have hown := h.owned
      rw [hsplit, List.map_append, List.map_cons] at hown
      refine ⟨l₁ ++ l₂, .deallocStack (hsplit ▸ h.life) hfree, ?_⟩
      rw [hslots, List.map_append]
      exact OptionSlots.subperm_set_none hown hat

theorem StacksOwned.endCurrentProcess (h : StacksOwned pt₀ fa₀ k log live) {r : VirtAddr}
    (he : (k.endCurrentProcess : Except (KernelPanic ε) _) = .ok (r, k')) :
    ∃ live', StacksOwned pt₀ fa₀ k' log live' := by
  obtain ⟨⟨r₁, k₁, hend, hmem⟩, hpm⟩ := KernelState.endCurrentProcess_eq_ok he
  obtain ⟨live', h₁⟩ := h.endProcessWithPid hend
  obtain ⟨⟨res, s₁, hend', hr⟩, -, -⟩ := ProcessesManager.endCurrentProcess_eq_ok hpm
  -- the manager's end is the one the kernel ran; the rest only reschedules
  obtain ⟨-, -, -, hpm₁⟩ := KernelState.endProcessWithPid_eq_ok hend
  rw [hpm₁, Except.ok.injEq, Prod.mk.injEq] at hend'
  obtain ⟨-, rfl⟩ := hend'
  exact ⟨live', h₁.congr hmem (stackSlots_of_reschedules hr)⟩

theorem StacksOwned.endAllOtherProcesses (h : StacksOwned pt₀ fa₀ k log live)
    (he : (k.endAllOtherProcesses : Except (KernelPanic ε) _) = .ok k') :
    ∃ live', StacksOwned pt₀ fa₀ k' log live' := by
  unfold KernelState.endAllOtherProcesses at he
  refine foldlM_inv (P := fun k => ∃ live', StacksOwned pt₀ fa₀ k log live') ⟨live, h⟩
    (fun pid _ k₁ k₂ ⟨live₁, h₁⟩ hk => ?_) he
  obtain ⟨⟨r, k₃⟩, hend, hk⟩ := bind_eq_ok.mp hk
  simp only [pure_eq_ok, Except.ok.injEq] at hk
  exact hk ▸ h₁.endProcessWithPid hend

/-- The step lemma. -/
theorem StacksOwned.step (h : StacksOwned pt₀ fa₀ k log live) {c : Call}
    (hs : k.step c = .ok k') : ∃ log' live', StacksOwned pt₀ fa₀ k' log' live' := by
  cases c with
  | create level name arg =>
      obtain ⟨r, hc⟩ := map_snd_eq_ok hs
      exact h.osCreate hc
  | yield sp =>
      obtain ⟨⟨r, pm⟩, hy, hs⟩ := by simpa only [KernelState.step, bind_eq_ok, mapError_eq_ok] using hs
      simp only [pure_eq_ok, Except.ok.injEq] at hs
      subst hs
      obtain ⟨⟨pl, cur, hcur, hr⟩, -, -⟩ := yieldCurrentProcess_eq_ok hy
      exact ⟨log, live, h.congr rfl (stackSlots_of_switch hcur hr)⟩
  | terminate =>
      obtain ⟨r, hc⟩ := map_snd_eq_ok hs
      obtain ⟨live', h'⟩ := h.endCurrentProcess hc
      exact ⟨log, live', h'⟩
  | terminateEverythingElse =>
      obtain ⟨live', h'⟩ := h.endAllOtherProcesses hs
      exact ⟨log, live', h'⟩
  | tick sp =>
      obtain ⟨⟨r, pm⟩, ht, hs⟩ := by simpa only [KernelState.step, bind_eq_ok, mapError_eq_ok] using hs
      simp only [pure_eq_ok, Except.ok.injEq] at hs
      subst hs
      obtain ⟨⟨pl, cur, hcur, -, hr⟩, -, -⟩ := nextTickPreemptProcess_eq_ok ht
      exact ⟨log, live, h.congr rfl (stackSlots_of_switch hcur hr)⟩
  | unyield =>
      obtain ⟨pm, hu, hs⟩ := by simpa only [KernelState.step, bind_eq_ok, mapError_eq_ok] using hs
      simp only [pure_eq_ok, Except.ok.injEq] at hs
      subst hs
      obtain ⟨-, rfl⟩ := unyieldCurrentPeriodic_eq_ok hu
      exact ⟨log, live, h.congr rfl rfl⟩

/-- The run lemma: from a fresh manager, whose table is empty, and any run
of the stack code. -/
theorem stacksOwned_of_kernelRun {order : List (Name × Nat)} {init : KernelState σ}
    {log₀ : List StackCall} {live₀ : List (StackBounds × List PhysFrame)}
    (hpm : newWithOrder order = .ok init.pm) (hmem : StackLife pt₀ fa₀ init.mem log₀ live₀)
    (hrun : KernelRun init k) : ∃ log live, StacksOwned pt₀ fa₀ k log live := by
  induction hrun with
  | init =>
      refine ⟨log₀, live₀, hmem, ?_⟩
      simp only [newWithOrder, bind_eq_ok, pure_eq_ok, Except.ok.injEq] at hpm
      obtain ⟨sch, -, hpm⟩ := hpm
      simp [stackSlots, ← hpm]
  | step _ hs ih =>
      obtain ⟨log, live, h⟩ := ih
      exact h.step hs

/-! ## What the stacks of the processes guarantee -/

/-- The stack of every process in the table is live: `dealloc_stack` of it
cannot fail. -/
theorem StacksOwned.freeSlot_ok (h : StacksOwned pt₀ fa₀ k log live) {pid : Pid}
    {slot : Option Process} (hslot : slotOfPid k.pm pid = .ok slot) :
    ∃ m', (freeSlot k.mem slot : Except (StackPanic ε) _) = .ok m' := by
  cases slot with
  | none => exact ⟨k.mem, rfl⟩
  | some target =>
      have hat : (stackSlots k.pm)[pid - 1]? = some (some target.stackBounds) := by
        simp [stackSlots, (slotOfPid_eq_ok hslot).2]
      obtain ⟨frames, hx⟩ := h.live_of_mem (List.mem_filterMap.mpr ⟨_, List.mem_of_getElem? hat, rfl⟩)
      obtain ⟨c, -, pages, -, -, -, hd⟩ := (lifeInv_of_stackLife h.life).guarantees (ε := ε) |>.reclaim _ frames hx
      exact ⟨_, hd⟩

/-- The manager's own panics are not the stack code's. -/
theorem avoids_process {α : Type} (x : Except Panic α) :
    Avoids KernelPanic.isStack (fun a => x = .ok a) (x.mapError (KernelPanic.process (ε := ε))) := by
  cases x <;> rfl

theorem StacksOwned.avoids_endProcessWithPid (h : StacksOwned pt₀ fa₀ k log live) (pid : Pid) :
    Avoids KernelPanic.isStack (fun a => ∃ live', StacksOwned pt₀ fa₀ a.2 log live')
      (k.endProcessWithPid pid : Except (KernelPanic ε) _) := by
  refine Avoids.post (P := fun _ => True) ?_ fun a ha => h.endProcessWithPid ha
  unfold KernelState.endProcessWithPid
  refine (avoids_process _).bind fun slot _ hslot => ?_
  obtain ⟨m', hm'⟩ := h.freeSlot_ok hslot
  refine Avoids.bind (P := fun _ => True) (.of_eq_ok (by rw [hm']; rfl) trivial) fun _ _ _ => ?_
  exact (avoids_process _).bind fun _ _ _ => trivial

/-- Only `os_create` can panic in the stack code. -/
theorem StacksOwned.avoids_step (h : StacksOwned pt₀ fa₀ k log live) {c : Call}
    (hc : ¬∃ level name arg, c = .create level name arg) :
    Avoids KernelPanic.isStack (fun _ => True) (k.step c) := by
  cases c with
  | create level name arg => exact absurd ⟨level, name, arg, rfl⟩ hc
  | yield sp => exact (avoids_process _).bind fun _ _ _ => trivial
  | terminate =>
      unfold KernelState.step KernelState.endCurrentProcess
      refine Avoids.bind (P := fun _ => True) ?_ fun ⟨_, _⟩ _ _ => trivial
      refine (h.avoids_endProcessWithPid _).bind fun ⟨_, _⟩ _ _ => ?_
      exact (avoids_process _).bind fun _ _ _ => (avoids_process _).bind fun _ _ _ =>
        (avoids_process _).bind fun _ _ _ => trivial
  | terminateEverythingElse =>
      unfold KernelState.step KernelState.endAllOtherProcesses
      refine (avoids_foldlM (P := fun k => ∃ live', StacksOwned pt₀ fa₀ k log live') ⟨live, h⟩
        fun pid _ k₁ ⟨_, h₁⟩ => ?_).mono fun _ _ => trivial
      exact (h₁.avoids_endProcessWithPid pid).bind fun _ _ h₂ => h₂
  | tick sp => exact (avoids_process _).bind fun _ _ _ => trivial
  | unyield => exact (avoids_process _).bind fun _ _ _ => trivial

theorem StacksOwned.osCreate_error (h : StacksOwned pt₀ fa₀ k log live) {level : SchedulingLevel}
    {name : Name} {arg : Int} {e : StackPanic ε}
    (he : k.osCreate level name arg = .error (.stack e)) :
    (∃ fe, e = .frameAllocator fe) ∨ (e = .virtAddrNotValid 2 ∧ 2 ^ 48 ≤ k.mem.stackAllocNext) := by
  have hinv := lifeInv_of_stackLife h.life
  unfold KernelState.osCreate at he
  split at he
  · rcases bind_eq_error.mp he with he | ⟨_, -, he⟩
    · -- the panic of `alloc_stack` itself
      obtain ⟨e', halloc, he'⟩ := mapError_eq_error.mp he
      cases he'
      rcases allocStack_error_of_aligned hinv.aligned halloc with hfa | ⟨bits, hnew, rfl⟩
      · exact .inl hfa
      · -- within one reservation past `2 ^ 48`, bits 47 to 63 read 2
        have hbelow := hinv.below
        obtain ⟨rfl, hge, -⟩ := VirtAddr.tryNew_eq_error (by omega) hnew
        exact .inr ⟨by rw [show k.mem.stackAllocNext / 2 ^ 47 = 2 by omega], hge⟩
    · rcases bind_eq_error.mp he with he | ⟨_, -, he⟩
      · obtain ⟨_, -, he'⟩ := mapError_eq_error.mp he
        cases he'
      · cases he
  · rcases bind_eq_error.mp he with he | ⟨_, -, he⟩
    · obtain ⟨_, -, he'⟩ := mapError_eq_error.mp he
      cases he'
    · cases he

end Owned

/-- On every run of the kernel from a fresh manager, whatever the stack
code did before: the stacks of the processes in the table are pairwise
apart, and each is mapped page by page to frames that `dealloc_stack`, when
the process ends, unmaps and hands back exactly. -/
theorem process_stacks_mapped_apart_and_reclaimed [FrameAllocator σ ε] [FrameDeallocator σ]
    {pt₀ : PageTable} {fa₀ : σ} {order : List (Name × Nat)} {init k : KernelState σ}
    {log₀ : List StackCall} {live₀ : List (StackBounds × List PhysFrame)}
    (hpm : newWithOrder order = .ok init.pm) (hmem : StackLife pt₀ fa₀ init.mem log₀ live₀)
    (hrun : KernelRun init k) :
    ((stackSlots k.pm).filterMap id).Pairwise StacksApart ∧
      ∀ b ∈ (stackSlots k.pm).filterMap id, ∃ pages frames,
        (b.pageRange : Except (StackPanic ε) _) = .ok pages ∧
        List.Forall₂ (fun p f => k.mem.pageTable p = some f) pages frames ∧
        (deallocStack b k.mem : Except (StackPanic ε) _) =
          .ok { k.mem with pageTable := fun p => if p ∈ pages then none else k.mem.pageTable p,
                           frameAllocator := frames.foldl FrameDeallocator.deallocateFrame
                             k.mem.frameAllocator } := by
  obtain ⟨log, live, h⟩ := stacksOwned_of_kernelRun hpm hmem hrun
  have hinv := lifeInv_of_stackLife h.life
  constructor
  · -- the live stacks are apart, and the table's are among them
    have hlive : (live.map Prod.fst).Pairwise StacksApart := List.pairwise_map.mpr hinv.liveApart
    obtain ⟨l, hperm, hsub⟩ := h.owned
    exact (List.Perm.pairwise_iff StacksApart.symm hperm).mp (hlive.sublist hsub)
  · intro b hb
    obtain ⟨frames, hx⟩ := h.live_of_mem hb
    obtain ⟨c, -, pages, -, hpages, -, hd⟩ := hinv.guarantees (ε := ε).reclaim b frames hx
    obtain ⟨c', -, start, -, -, hstart, hmap⟩ := hinv.mapped (b, frames) hx
    dsimp only at hstart hmap
    -- the pages of the bounds are the pages the call mapped
    have hrange : pages = Page.range start (start + c'.size) := by
      rw [hstart, pageRange_add] at hpages
      exact (Except.ok.inj hpages).symm
    subst hrange
    exact ⟨_, frames, hpages, hmap.imp fun _ _ hf => hf.2.2, hd⟩

/-- The stack `os_create` gave the new process is mapped and reclaimable. -/
theorem process_stacks_mapped_apart_and_reclaimed_after_create :
    let k₀ : KernelState (BootInfoFrameAllocator × Ram) :=
      ⟨bootState, ⟨stackAllocNextInit, fun _ => none,
        (BootInfoFrameAllocator.new.init [⟨⟨16, 48⟩, .usable⟩] 0, fun _ => 0)⟩⟩
    ∃ k₁ k₂, k₀.step (.create .periodic 1 0) = .ok k₁ ∧ k₁.step (.tick 100) = .ok k₂ ∧
      stackSlots k₂.pm =
        [some ⟨stackAllocNextInit + 1 * 4096, stackAllocNextInit + 1 * 4096 + 32 * 4096⟩, none] ∧
      newWithOrder periodicOrder = .ok k₀.pm ∧ StackLife (fun _ => none) k₀.mem.frameAllocator k₀.mem [] [] ∧
      KernelRun k₀ k₂ ∧
      ((stackSlots k₂.pm).filterMap id).Pairwise StacksApart ∧
      ∀ b ∈ (stackSlots k₂.pm).filterMap id, ∃ pages frames,
        (b.pageRange : Except (StackPanic BootInfoFrameAllocator.FramePanic) _) = .ok pages ∧
        List.Forall₂ (fun p f => k₂.mem.pageTable p = some f) pages frames ∧
        (deallocStack b k₂.mem : Except (StackPanic BootInfoFrameAllocator.FramePanic) _) =
          .ok { k₂.mem with pageTable := fun p => if p ∈ pages then none else k₂.mem.pageTable p,
                            frameAllocator := frames.foldl FrameDeallocator.deallocateFrame
                              k₂.mem.frameAllocator } := by
  intro k₀
  obtain ⟨k₁, k₂, h₁, h₂, -, hslots, hrun⟩ := kernelRun_create_then_tick
  have hpm : newWithOrder periodicOrder = .ok k₀.pm := rfl
  have hmem : StackLife (fun _ => none) k₀.mem.frameAllocator k₀.mem [] [] := .boot
  exact ⟨k₁, k₂, h₁, h₂, hslots, hpm, hmem, hrun, process_stacks_mapped_apart_and_reclaimed hpm hmem hrun⟩

/-- On every run of the kernel from a fresh manager, the stack code panics
only in `os_create`: when the frame allocator does, or in `VirtAddr::new`
once `STACK_ALLOC_NEXT` has passed `2 ^ 48`.  In particular ending processes
never panics in `dealloc_stack`. -/
theorem stack_panics_only_on_create [FrameAllocator σ ε] [FrameDeallocator σ]
    {pt₀ : PageTable} {fa₀ : σ} {order : List (Name × Nat)} {init k : KernelState σ}
    {log₀ : List StackCall} {live₀ : List (StackBounds × List PhysFrame)}
    (hpm : newWithOrder order = .ok init.pm) (hmem : StackLife pt₀ fa₀ init.mem log₀ live₀)
    (hrun : KernelRun init k) {c : Call} {e : StackPanic ε} (he : k.step c = .error (.stack e)) :
    ((∃ fe, e = .frameAllocator fe) ∨ (e = .virtAddrNotValid 2 ∧ 2 ^ 48 ≤ k.mem.stackAllocNext)) ∧
      ∃ level name arg, c = .create level name arg := by
  obtain ⟨log, live, h⟩ := stacksOwned_of_kernelRun hpm hmem hrun
  by_cases hc : ∃ level name arg, c = .create level name arg
  · obtain ⟨level, name, arg, rfl⟩ := hc
    refine ⟨?_, level, name, arg, rfl⟩
    rcases bind_eq_error.mp he with he | ⟨_, -, he⟩
    · exact h.osCreate_error he
    · cases he
  · have hbad := (h.avoids_step hc).not_bad he
    simp [KernelPanic.isStack] at hbad

/-- `os_create` before the frame allocator is set up: the first
`allocate_frame` of `alloc_stack` unwraps the missing iterator. -/
theorem stack_panics_only_on_create_before_frame_allocator_init :
    let k₀ : KernelState (BootInfoFrameAllocator × Ram) :=
      ⟨bootState, ⟨stackAllocNextInit, fun _ => none, (BootInfoFrameAllocator.new, fun _ => 0)⟩⟩
    k₀.step (.create .periodic 1 0) = .error (.stack (.frameAllocator .unwrapNone)) ∧
      newWithOrder periodicOrder = .ok k₀.pm ∧
      StackLife (fun _ => none) k₀.mem.frameAllocator k₀.mem [] [] ∧ KernelRun k₀ k₀ ∧
      ((∃ fe, (.frameAllocator .unwrapNone : StackPanic BootInfoFrameAllocator.FramePanic) = .frameAllocator fe) ∨
        ((.frameAllocator .unwrapNone : StackPanic BootInfoFrameAllocator.FramePanic) = .virtAddrNotValid 2 ∧
          2 ^ 48 ≤ k₀.mem.stackAllocNext)) ∧
      ∃ level name arg, (.create .periodic 1 0 : Call) = .create level name arg := by
  intro k₀
  have hreach : reachesAllocStack k₀.pm .periodic 1 = true := by decide
  -- `alloc_stack` reserves its pages, and the first `allocate_frame` finds no iterator
  have halloc : (allocStack k₀.mem 32 : Except (StackPanic BootInfoFrameAllocator.FramePanic) _) =
      .error (.frameAllocator .unwrapNone) := by
    unfold allocStack
    rw [reserveStackMemory_of_lt _ _ (by decide) (by decide) (by decide), ok_bind]
    dsimp only
    rw [Page.range_add, List.range_succ_eq_map, List.map_cons, mapPages]
    rfl
  have he : k₀.step (.create .periodic 1 0) = .error (.stack (.frameAllocator .unwrapNone)) := by
    simp only [KernelState.step, KernelState.osCreate, hreach, if_true, halloc, Except.mapError,
      error_bind]
  have hpm : newWithOrder periodicOrder = .ok k₀.pm := rfl
  have hmem : StackLife (fun _ => none) k₀.mem.frameAllocator k₀.mem [] [] := .boot
  exact ⟨he, hpm, hmem, .init, stack_panics_only_on_create hpm hmem .init he⟩

end Kernel
end NoIdeaOS
