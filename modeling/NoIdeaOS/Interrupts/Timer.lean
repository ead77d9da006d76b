import NoIdeaOS.Processes.Manager

/-!
# The timer handler and the heap lock

`interrupts/hardware.rs` (`timer_internal`), on one CPU.

`timer_internal` runs with interrupts disabled, takes the process manager
with `try_lock` and calls `next_tick_preempt_process`.  That ends with
`get_current_process`, whose `expect(&format!(..))` formats its message,
and so allocates a `String` on the heap, before `expect` looks at the
result: every tick after which a process other than idle runs asks the
global allocator for memory.  The allocator is a `spin::Mutex`, which does
not disable interrupts, so a process can be interrupted while it holds it;
the handler then spins on a lock whose holder cannot run again.

The system state is the process manager, the holder of the heap lock and
what the CPU runs: process code, or the timer handler with the heap
requests it still has to make.  (`device_queue.extend` may also allocate
when the queue grows; one request is enough here, so that one is not
counted.  The process manager's lock is free in every state considered:
`try_lock` failing would only skip the tick.)
-/

namespace NoIdeaOS
namespace Interrupts

open Processes ProcessesManager

/-- A request to the global allocator; each takes its spin lock. -/
inductive HeapRequest
  | alloc
deriving DecidableEq, Repr

/-- The heap requests of `get_current_process`: the `format!` of its
`expect` message whenever the current pid is not 0. -/
def getCurrentProcessRequests (s : ProcessesManager) : List HeapRequest :=
  if s.currentlyExecutingProcess = 0 then [] else [.alloc]

/-- What the CPU runs. -/
inductive Cpu
  | process
  | timerHandler (pending : List HeapRequest) (interrupted : Pid)
deriving DecidableEq, Repr

/-- The state of the single-CPU system. -/
structure System where
  pm : ProcessesManager
  heapLock : Option Pid
  cpu : Cpu
deriving DecidableEq

/-- What can happen next. -/
inductive Event
  /-- The running process makes a call into the process manager. -/
  | operation (op : Operation)
  /-- The running process enters `Locked::alloc` or `dealloc` and takes the lock. -/
  | lockHeap
  /-- The running process leaves the allocator. -/
  | unlockHeap
  /-- A timer interrupt; process code runs with interrupts enabled. -/
  | timer (sp : VirtAddr)
  /-- The timer handler takes its next step. -/
  | handler
deriving DecidableEq

/-- The effect of an event, `none` when it cannot happen.  A handler request
on a held lock is one more turn of `spin::Mutex::lock`'s loop. -/
def System.exec (s : System) : Event → Option System
  | .operation op =>
      if s.cpu = .process then (s.pm.step op).toOption.map fun pm => { s with pm } else none
  | .lockHeap =>
      if s.cpu = .process ∧ s.heapLock = none then
        some { s with heapLock := some s.pm.currentlyExecutingProcess }
      else none
  | .unlockHeap =>
      if s.cpu = .process ∧ s.heapLock = some s.pm.currentlyExecutingProcess then
        some { s with heapLock := none }
      else none
  | .timer sp =>
      if s.cpu = .process then
        match s.pm.nextTickPreemptProcess sp with
        | .ok (_, pm') =>
            some { pm := pm', heapLock := s.heapLock,
                   cpu := .timerHandler (getCurrentProcessRequests pm')
                     s.pm.currentlyExecutingProcess }
        | .error _ => none
      else none
  | .handler =>
      match s.cpu with
      | .process => none
      | .timerHandler [] _ => some { s with cpu := .process }
      | .timerHandler (.alloc :: rest) i =>
          match s.heapLock with
          | none => some { s with cpu := .timerHandler rest i }
          | some _ => some s

/-- A sequence of events, `none` as soon as one cannot happen. -/
def System.execAll (s : System) : List Event → Option System
  | [] => some s
  | e :: es => (s.exec e).bind fun s' => s'.execAll es

/-- The states reached from `init`. -/
inductive Reachable (init : System) : System → Prop
  | init : Reachable init init
  | step {s s' : System} {e : Event} : Reachable init s → s.exec e = some s' → Reachable init s'

theorem Reachable.execAll {init s s' : System} {es : List Event} (h : Reachable init s)
    (hs : s.execAll es = some s') : Reachable init s' := by
  induction es generalizing s with
  | nil =>
      simp only [System.execAll, Option.some.injEq] at hs
      exact hs ▸ h
  | cons e es ih =>
      obtain ⟨s₁, h₁, hs⟩ := Option.bind_eq_some_iff.mp hs
      exact ih (.step h h₁) hs

/-- The system is stuck spinning: every event that can happen leaves the
state as it is. -/
def Spinning (s : System) : Prop :=
  ∀ e s', s.exec e = some s' → s' = s

/-- A handler that has to allocate while the lock is held spins. -/
theorem spinning_of_held {pm : ProcessesManager} {holder : Pid} {rest : List HeapRequest}
    {i : Pid} : Spinning ⟨pm, some holder, .timerHandler (.alloc :: rest) i⟩ := by
  intro e s' h
  cases e <;> simp [System.exec] at h
  exact h.symm

/-- Once spinning, the system stays in that state for ever. -/
theorem Spinning.reachable {s s' : System} (hs : Spinning s) (h : Reachable s s') : s' = s := by
  induction h with
  | init => rfl
  | step _ hstep ih =>
      subst ih
      exact hs _ _ hstep

/-- A tick that interrupts the holder of the heap lock and leaves a process
other than idle running makes the handler spin for ever. -/
theorem timer_spins_of_held {pm pm' : ProcessesManager} {sp : VirtAddr} {r : Option VirtAddr}
    (htick : pm.nextTickPreemptProcess sp = .ok (r, pm'))
    (hnext : pm'.currentlyExecutingProcess ≠ 0) :
    ∃ s, System.exec ⟨pm, some pm.currentlyExecutingProcess, .process⟩ (.timer sp) = some s ∧
      Spinning s := by
  have hreq : getCurrentProcessRequests pm' = [.alloc] := by
    simp [getCurrentProcessRequests, hnext]
  refine ⟨⟨pm', some pm.currentlyExecutingProcess,
    .timerHandler [.alloc] pm.currentlyExecutingProcess⟩, ?_, spinning_of_held⟩
  simp [System.exec, htick, hreq]

/-- The system at boot: the manager `ProcessesManager::new` builds, the heap
lock free, process code (idle) running. -/
def System.boot : System :=
  ⟨bootState, none, .process⟩

/-- Periodic process 1 is created and scheduled, enters the allocator, and
is interrupted there by the next tick: the handler spins for ever. -/
theorem timer_spins_on_heap_lock :
    ∃ s, Reachable System.boot s ∧ s.heapLock = some 1 ∧ Spinning s := by
  obtain ⟨pm, hrun⟩ : ∃ pm, System.boot.execAll
      [.operation (.createNewProcess .periodic 1 0 (some { start := 4096, «end» := 8192 })),
       .timer 100, .handler, .handler, .lockHeap, .timer 200] =
      some ⟨pm, some 1, .timerHandler [.alloc] 1⟩ := ⟨_, rfl⟩
  exact ⟨_, Reachable.init.execAll hrun, rfl, spinning_of_held⟩

end Interrupts
end NoIdeaOS
