import NoIdeaOS.Processes.StackPointers

/-!
# Entering the kernel

Process code enters the kernel in two ways, and both save the process's
registers on its own stack, hand that stack pointer to a Rust function and
switch to the stack pointer it returns.

* A timer interrupt: `timer_interrupt_handler` calls `timer_internal`
  (`interrupts/hardware.rs`), which takes the process manager with
  `try_lock`, calls `next_tick_preempt_process`, and resumes the interrupted
  process when the lock is taken or the manager returns no pointer.
* A system call: `syscall1` (`os_yield`, `os_terminate` in `kernel.rs`) runs
  the `syscall` instruction with the call number in `rax`, and
  `syscall_handler` calls `internal_syscall` (`interrupts/mod.rs`).  The
  number is decoded by the `TryFromPrimitive` derived for the
  `#[repr(u64)]` enum, whose discriminants start at 10, and each command
  takes the manager with `try_lock().expect(..)`.

`locked` says whether someone else holds the manager's lock.
`internalSyscall_eq_ok` says what a system call that returns did: one
manager operation, the one its number names.  Over every run of the manager,
the pointer either entry resumes is the one last saved for the process the
manager runs next (`timerInternal_resumes`, `internalSyscall_resumes`), and
the state after the entry is again one of the run.
-/

namespace NoIdeaOS
namespace Interrupts

open Fallible Processes ProcessesManager

/-- `timer_internal`: the stack pointer to resume after a tick.  With the
manager locked the tick is skipped; `unwrap_or(stack_p)` resumes the
interrupted process when the manager returns no pointer. -/
def timerInternal (pm : ProcessesManager) (locked : Bool) (stackP : Nat) :
    Except Panic (Nat × ProcessesManager) :=
  if locked then pure (stackP, pm)
  else do
    let (r, pm) ← pm.nextTickPreemptProcess stackP
    pure (r.getD stackP, pm)

/-- `SyscallCommand`. -/
inductive SyscallCommand
  | yield
  | terminate
  /-- "Temporary solution to stop the testers." -/
  | terminateEverythingElse
deriving DecidableEq, Repr

namespace SyscallCommand

/-- The `#[repr(u64)]` discriminants: `Yield = 10` and the next two. -/
def toU64 : SyscallCommand → Nat
  | .yield => 10
  | .terminate => 11
  | .terminateEverythingElse => 12

/-- `SyscallCommand::try_from`, derived by `TryFromPrimitive`. -/
def tryFrom : Nat → Option SyscallCommand
  | 10 => some .yield
  | 11 => some .terminate
  | 12 => some .terminateEverythingElse
  | _ => none

@[simp] theorem tryFrom_toU64 (c : SyscallCommand) : tryFrom c.toU64 = some c := by
  cases c <;> rfl

/-- The decoding accepts exactly the discriminants. -/
theorem tryFrom_eq_some {n : Nat} {c : SyscallCommand} : tryFrom n = some c ↔ c.toU64 = n := by
  constructor
  · intro h
    unfold tryFrom at h
    split at h <;> cases h <;> rfl
  · rintro rfl
    exact tryFrom_toU64 c

end SyscallCommand

/-- The panics of `internal_syscall`. -/
inductive SyscallPanic
  | invalidSyscallNumber
  | processManagerLocked
  | processes (p : Panic)
deriving DecidableEq, Repr

/-- The text each panic prints. -/
def SyscallPanic.message : SyscallPanic → String
  | .invalidSyscallNumber => "Invalid Syscall Number"
  | .processManagerLocked => "Disabled interrupts here, need to deal with locked PM"
  | .processes p => p.message

/-- `PROCESS_MANAGER.try_lock().expect(..)`. -/
def tryLockManager (locked : Bool) : Except SyscallPanic PUnit :=
  check (locked = false) SyscallPanic.processManagerLocked

/-- `internal_syscall`: the stack pointer to resume, and the manager after
the call. -/
def internalSyscall (pm : ProcessesManager) (locked : Bool) (stackP callNum : Nat) :
    Except SyscallPanic (Nat × ProcessesManager) := do
  let callNum ← expect (SyscallCommand.tryFrom callNum) SyscallPanic.invalidSyscallNumber
  match callNum with
  | .yield => do
      tryLockManager locked
      (pm.yieldCurrentProcess stackP).mapError .processes
  | .terminate => do
      tryLockManager locked
      pm.endCurrentProcess.mapError .processes
  | .terminateEverythingElse => do
      tryLockManager locked
      let pm ← pm.endAllOtherProcesses.mapError .processes
      pure (stackP, pm)

/-- `syscall1(call_num)`, handled on the caller's stack pointer `stackP`. -/
def syscall1 (pm : ProcessesManager) (locked : Bool) (stackP : Nat) (callNum : SyscallCommand) :
    Except SyscallPanic (Nat × ProcessesManager) :=
  internalSyscall pm locked stackP callNum.toU64

/-- `os_yield`. -/
def osYield (pm : ProcessesManager) (locked : Bool) (stackP : Nat) :
    Except SyscallPanic (Nat × ProcessesManager) :=
  syscall1 pm locked stackP .yield

/-- `os_terminate`. -/
def osTerminate (pm : ProcessesManager) (locked : Bool) (stackP : Nat) :
    Except SyscallPanic (Nat × ProcessesManager) :=
  syscall1 pm locked stackP .terminate

/-! ## What a call does -/

section Calls

variable {pm pm' : ProcessesManager} {stackP callNum r : Nat}

/-- A call that returns made one manager operation, the one its number
names; `TerminateEverythingElse` resumes the caller. -/
theorem internalSyscall_eq_ok {locked : Bool}
    (h : internalSyscall pm locked stackP callNum = .ok (r, pm')) :
    (callNum = SyscallCommand.yield.toU64 ∧ pm.yieldCurrentProcess stackP = .ok (r, pm')) ∨
      (callNum = SyscallCommand.terminate.toU64 ∧ pm.endCurrentProcess = .ok (r, pm')) ∨
      (callNum = SyscallCommand.terminateEverythingElse.toU64 ∧ r = stackP ∧
        pm.endAllOtherProcesses = .ok pm') := by
  obtain ⟨c, hc, h⟩ := bind_eq_ok.mp h
  have hnum := SyscallCommand.tryFrom_eq_some.mp (expect_eq_ok.mp hc)
  cases c with
  | yield =>
      obtain ⟨-, -, h⟩ := bind_eq_ok.mp h
      exact .inl ⟨hnum.symm, mapError_eq_ok.mp h⟩
  | terminate =>
      obtain ⟨-, -, h⟩ := bind_eq_ok.mp h
      exact .inr (.inl ⟨hnum.symm, mapError_eq_ok.mp h⟩)
  | terminateEverythingElse =>
      obtain ⟨-, -, h⟩ := bind_eq_ok.mp h
      obtain ⟨pm₁, hend, h⟩ := bind_eq_ok.mp h
      simp only [pure_eq_ok, Except.ok.injEq, Prod.mk.injEq] at h
      obtain ⟨rfl, rfl⟩ := h
      exact .inr (.inr ⟨hnum.symm, rfl, mapError_eq_ok.mp hend⟩)

/-- With the manager free, `os_yield` is `yield_current_process` on the
caller's stack pointer. -/
theorem osYield_eq : osYield pm false stackP = (pm.yieldCurrentProcess stackP).mapError .processes := by
  simp [osYield, syscall1, internalSyscall, tryLockManager, check]

/-- With the manager free, `os_terminate` is `end_current_process`. -/
theorem osTerminate_eq : osTerminate pm false stackP = pm.endCurrentProcess.mapError .processes := by
  simp [osTerminate, syscall1, internalSyscall, tryLockManager, check]

end Calls

/-! ## Both entries resume the right stack -/

/-- The pointer `r` an entry resumes is the one last saved for the process
that runs after it: `stackP` when the interrupted process keeps running,
and otherwise the ghost value of the new one. -/
def ResumesLastSaved (s s' : ProcessesManager) (g : Pid → Option VirtAddr) (stackP r : Nat) :
    Prop :=
  some r = if s'.currentlyExecutingProcess = s.currentlyExecutingProcess then some stackP
    else g s'.currentlyExecutingProcess

section Resume

variable {order : List (Name × Nat)} {init s s' : ProcessesManager} {g : Pid → Option VirtAddr}
  {stackP r : Nat}

theorem timerInternal_resumes {locked : Bool} (hinit : newWithOrder order = .ok init)
    (hrun : SavedRun init s g) (h : timerInternal s locked stackP = .ok (r, s')) :
    ResumesLastSaved s s' g stackP r ∧ ∃ g', SavedRun init s' g' := by
  unfold timerInternal at h
  split at h
  · -- the lock is taken: nothing changes and the interrupted process resumes
    simp only [pure_eq_ok, Except.ok.injEq, Prod.mk.injEq] at h
    obtain ⟨rfl, rfl⟩ := h
    exact ⟨by simp [ResumesLastSaved], g, hrun⟩
  · obtain ⟨⟨r₀, s₁⟩, hs, h⟩ := bind_eq_ok.mp h
    simp only [pure_eq_ok, Except.ok.injEq, Prod.mk.injEq] at h
    obtain ⟨rfl, rfl⟩ := h
    obtain ⟨⟨pl, cur, hcur, -, hr⟩, ⟨p, hp, rfl⟩, -⟩ := nextTickPreemptProcess_eq_ok hs
    exact ⟨(ghostAgrees_switch (ghostAgrees_of_savedRun hinit hrun) hcur hr hp).1, _,
      hrun.tick hs⟩

theorem internalSyscall_resumes {callNum : Nat} (hinit : newWithOrder order = .ok init)
    (hrun : SavedRun init s g) (h : internalSyscall s false stackP callNum = .ok (r, s')) :
    ResumesLastSaved s s' g stackP r ∧ ∃ g', SavedRun init s' g' := by
  have hg := ghostAgrees_of_savedRun hinit hrun
  rcases internalSyscall_eq_ok h with ⟨-, hs⟩ | ⟨-, hs⟩ | ⟨-, rfl, hs⟩
  · -- `Yield`: the manager saves `stackP` and switches
    obtain ⟨⟨pl, cur, hcur, hr⟩, ⟨p, hp, rfl⟩, -⟩ := yieldCurrentProcess_eq_ok hs
    exact ⟨(ghostAgrees_switch hg hcur hr hp).1, _, hrun.yield hs⟩
  · -- `Terminate`: another process runs, from its ghost value
    obtain ⟨hne, hr, -⟩ := ghostAgrees_endCurrent hg hs
    exact ⟨by rw [ResumesLastSaved, if_neg hne]; exact hr, _, hrun.endCurrent hs⟩
  · -- `TerminateEverythingElse`: the caller stays and gets its own pointer back
    obtain ⟨-, hcurr, -, -⟩ := endAllOtherProcesses_eq_ok hs
    exact ⟨by rw [ResumesLastSaved, if_pos hcurr], _, hrun.endAll hs⟩

end Resume

/-- Over every run of the manager from `ProcessesManager::new`, each entry
into the kernel that returns (a timer interrupt, locked out or not, and a
system call of any number) resumes the stack pointer last saved for the
process the manager runs next, and leaves a state of the run. -/
theorem kernel_entries_resume_last_saved_stack {order : List (Name × Nat)}
    {init s : ProcessesManager} {g : Pid → Option VirtAddr} {stackP : Nat}
    (hinit : newWithOrder order = .ok init) (hrun : SavedRun init s g) :
    (∀ locked r s', timerInternal s locked stackP = .ok (r, s') →
      ResumesLastSaved s s' g stackP r ∧ ∃ g', SavedRun init s' g') ∧
    (∀ callNum r s', internalSyscall s false stackP callNum = .ok (r, s') →
      ResumesLastSaved s s' g stackP r ∧ ∃ g', SavedRun init s' g') :=
  ⟨fun _ _ _ h => timerInternal_resumes hinit hrun h,
    fun _ _ _ h => internalSyscall_resumes hinit hrun h⟩

/-- After the switch of `savedRun_create_then_tick`, `os_terminate` from the
new process resumes idle at the stack pointer the tick saved. -/
theorem kernel_entries_resume_last_saved_stack_after_switch :
    ∃ s₁ s₂, bootState.createNewProcess .periodic 1 0 (some { start := 4096, «end» := 8192 }) =
        .ok (.ok (), s₁) ∧
      s₁.nextTickPreemptProcess 100 = .ok (some (Process.asmFakeRegister 8192), s₂) ∧
      (∃ s₃, internalSyscall s₂ false 200 (SyscallCommand.terminate.toU64) = .ok (100, s₃)) ∧
      let g := stopped s₁ s₂ 100
        (created bootState s₁ (some { start := 4096, «end» := 8192 }) fun _ => none)
      newWithOrder periodicOrder = .ok bootState ∧ SavedRun bootState s₂ g ∧
      (∀ locked r s', timerInternal s₂ locked 200 = .ok (r, s') →
        ResumesLastSaved s₂ s' g 200 r ∧ ∃ g', SavedRun bootState s' g') ∧
      (∀ callNum r s', internalSyscall s₂ false 200 callNum = .ok (r, s') →
        ResumesLastSaved s₂ s' g 200 r ∧ ∃ g', SavedRun bootState s' g') := by
  obtain ⟨s₁, s₂, s₃, h₁, h₂, -, hend, -, hrun⟩ := savedRun_create_then_tick
  have hterm : internalSyscall s₂ false 200 (SyscallCommand.terminate.toU64) = .ok (100, s₃) := by
    show osTerminate s₂ false 200 = .ok (100, s₃)
    rw [osTerminate_eq, hend]
    rfl
  have hinit : newWithOrder periodicOrder = .ok bootState := rfl
  exact ⟨s₁, s₂, h₁, h₂, ⟨s₃, hterm⟩, hinit, hrun, kernel_entries_resume_last_saved_stack hinit hrun⟩

end Interrupts
end NoIdeaOS
