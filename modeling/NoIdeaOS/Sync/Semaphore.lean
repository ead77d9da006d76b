import Mathlib.Data.Finset.Card
import NoIdeaOS.Processes.Manager

/-!
# Semaphores

`sync.rs` (`Semaphore`) and the semaphore system calls of `kernel.rs`
(`os_init_sem`, `os_drop_sem`, `os_wait`, `os_signal`).

A semaphore's `BTreeSet<Name>` wait queue is the finite set of the names it
holds, and its `AtomicI32` counter is an `Int32`: the kernel runs on one CPU
with interrupts disabled around every access, so the atomics are plain reads
and writes, and `fetch_add`, `fetch_sub` and `old + 1` wrap as `i32`
arithmetic does in the release build.  `os_init_sem` takes any `i32` and
`os_signal` has no bound, so a count of `i32::MAX` signalled once becomes
`i32::MIN`, and `wait` then refuses.  The store
`BTreeMap<SemaphoreId, Semaphore>` is a partial map.  The store's `RwLock`,
the queue's `Mutex` and the process manager's lock are taken with
`try_read`/`try_lock` and `expect`; nothing holds them while a system call
runs, so those `expect`s are not modelled.

`os_wait` blocks in a loop that yields and retries `wait`; the two parts are
`osWaitEntry` and `osWaitRetry`, and the yield between them is the process
manager's.  `os_signal`'s trailing `os_yield` is left to the caller; its
result says whether it yields.

`add_to_wait_queue` asserts that `BTreeSet::insert` returned `false`, that
is, that the name was already queued; since nothing else ever puts a name
into the queue, every periodic process that blocks panics.  A caller of any
other level blocks without being recorded in the semaphore at all, so
`is_neutral` cannot see it: `os_drop_sem` removes the semaphore while it
waits, and the `unwrap` of its next retry fails.
-/

namespace NoIdeaOS
namespace Sync

open Fallible Processes

/-- `pub type SemaphoreId = i64`. -/
abbrev SemaphoreId := Int

/-- The panics of the semaphore code. -/
inductive KernelPanic
  | processes (p : Processes.Panic)
  | waitQueueHasElement
  | semaphoreMissing
deriving DecidableEq, Repr

/-- `Semaphore`. -/
structure Semaphore where
  initialCount : Int32
  count : Int32
  queue : Finset Name
deriving DecidableEq

namespace Semaphore

/-- `Semaphore::new`. -/
def new (count : Int32) : Semaphore :=
  { initialCount := count, count, queue := ∅ }

/-- `Semaphore::is_neutral`. -/
def isNeutral (s : Semaphore) : Bool :=
  ((decide (s.initialCount < 0) && decide (s.count > 0)) || decide (s.initialCount = s.count)) &&
    s.queue.card == 0

/-- `Semaphore::wait`: take one unit if there is one. -/
def wait (s : Semaphore) : Bool × Semaphore :=
  if s.count ≤ 0 then (false, s) else (true, { s with count := s.count - 1 })

/-- `Semaphore::add_to_wait_queue`: `assert_eq!(queue.insert(name), false, ..)`,
where `insert` returns whether the name was new. -/
def addToWaitQueue (s : Semaphore) (name : Name) : Except KernelPanic Semaphore := do
  let inserted := decide (name ∉ s.queue)
  check (inserted = false) KernelPanic.waitQueueHasElement
  pure { s with queue := insert name s.queue }

/-- `Semaphore::check_and_pop_if_exists`. -/
def checkAndPopIfExists (s : Semaphore) (name : Name) : Bool × Semaphore :=
  (decide (name ∈ s.queue), { s with queue := s.queue.erase name })

/-- `Semaphore::signal`: whether the count is not negative afterwards, with
`fetch_add` and `old + 1` wrapping. -/
def signal (s : Semaphore) : Bool × Semaphore :=
  (decide (s.count + 1 ≥ 0), { s with count := s.count + 1 })

/-- The assertion of `add_to_wait_queue` fails for every name that is not
queued yet. -/
theorem addToWaitQueue_eq_error {s : Semaphore} {name : Name} (h : name ∉ s.queue) :
    s.addToWaitQueue name = .error .waitQueueHasElement := by
  simp [addToWaitQueue, h, check]

/-- The only names `add_to_wait_queue` accepts are those already queued, and
then the queue does not change. -/
theorem addToWaitQueue_eq_ok {s s' : Semaphore} {name : Name}
    (h : s.addToWaitQueue name = .ok s') : name ∈ s.queue ∧ s' = s := by
  simp only [addToWaitQueue, bind_eq_ok, check_eq_ok, pure_eq_ok, Except.ok.injEq,
    decide_eq_false_iff_not, not_not] at h
  obtain ⟨_, hmem, rfl⟩ := h
  exact ⟨hmem, by simp [Finset.insert_eq_of_mem hmem]⟩

end Semaphore

/-- `SEMAPHORE_STORE`. -/
abbrev SemaphoreStore := SemaphoreId → Option Semaphore

/-- `os_init_sem`: `Err(())` if the id is taken. -/
def osInitSem (store : SemaphoreStore) (id : SemaphoreId) (initialCount : Int32) :
    Except Unit Unit × SemaphoreStore :=
  match store id with
  | some _ => (.error (), store)
  | none => (.ok (), Function.update store id (some (Semaphore.new initialCount)))

/-- `os_drop_sem`: the semaphore is removed even when it is not neutral. -/
def osDropSem (store : SemaphoreStore) (id : SemaphoreId) : Except String Unit × SemaphoreStore :=
  match store id with
  | none => (.error "Semaphore Doesn't exist", store)
  | some out =>
      (if out.isNeutral then .ok () else .error "Semaphore is not neutral",
        Function.update store id none)

/-- How `os_wait` leaves its first part. -/
inductive WaitEntry
  | acquired
  | blocked
deriving DecidableEq, Repr

/-- `os_wait` up to its retry loop: take the semaphore, or block, queueing
the name of a periodic caller. -/
def osWaitEntry (store : SemaphoreStore) (pm : ProcessesManager) (id : SemaphoreId) :
    Except KernelPanic (Except Unit WaitEntry × SemaphoreStore) :=
  match store id with
  | none => pure (.error (), store)
  | some entry =>
      let (acquired, entry) := entry.wait
      let store := Function.update store id (some entry)
      if acquired then pure (.ok .acquired, store)
      else do
        let level ← pm.getCurrentSchedulingLevel.mapError .processes
        if level = .periodic then do
          let name ← pm.getCurrentProcessName.mapError .processes
          let entry ← entry.addToWaitQueue name
          pure (.ok .blocked, Function.update store id (some entry))
        else pure (.ok .blocked, store)

/-- One retry of `os_wait`'s loop after the yield: `true` when the semaphore
was taken. -/
def osWaitRetry (store : SemaphoreStore) (id : SemaphoreId) :
    Except KernelPanic (Bool × SemaphoreStore) := do
  let entry ← expect (store id) KernelPanic.semaphoreMissing
  let (acquired, entry) := entry.wait
  pure (acquired, Function.update store id (some entry))

/-- `os_signal` up to its optional yield: `Ok(true)` when it unyields the
current periodic slot and then yields. -/
def osSignal (store : SemaphoreStore) (pm : ProcessesManager) (id : SemaphoreId) :
    Except KernelPanic (Except Unit Bool × SemaphoreStore × ProcessesManager) :=
  match store id with
  | none => pure (.error (), store, pm)
  | some sem => do
      let (_, sem) := sem.signal
      let name ← pm.getScheduledName.mapError .processes
      let (popped, sem) := sem.checkAndPopIfExists name
      let store := Function.update store id (some sem)
      if popped then do
        let pm ← pm.unyieldCurrentPeriodic.mapError .processes
        pure (.ok true, store, pm)
      else pure (.ok false, store, pm)

/-- The stores reached from the empty store by the semaphore system calls,
made by any process in any state of the process manager. -/
inductive SemRun : SemaphoreStore → Prop
  | empty : SemRun fun _ => none
  | initSem {store : SemaphoreStore} {id : SemaphoreId} {count : Int32} :
      SemRun store → SemRun (osInitSem store id count).2
  | dropSem {store : SemaphoreStore} {id : SemaphoreId} :
      SemRun store → SemRun (osDropSem store id).2
  | waitEntry {store store' : SemaphoreStore} {pm : ProcessesManager} {id : SemaphoreId}
      {r : Except Unit WaitEntry} :
      SemRun store → osWaitEntry store pm id = .ok (r, store') → SemRun store'
  | waitRetry {store store' : SemaphoreStore} {id : SemaphoreId} {b : Bool} :
      SemRun store → osWaitRetry store id = .ok (b, store') → SemRun store'
  | signal {store store' : SemaphoreStore} {pm pm' : ProcessesManager} {id : SemaphoreId}
      {r : Except Unit Bool} :
      SemRun store → osSignal store pm id = .ok (r, store', pm') → SemRun store'

/-- Every wait queue of the store is empty. -/
def QueuesEmpty (store : SemaphoreStore) : Prop :=
  ∀ id sem, store id = some sem → sem.queue = ∅

theorem QueuesEmpty.update {store : SemaphoreStore} (h : QueuesEmpty store) {id : SemaphoreId}
    {sem : Semaphore} (hsem : sem.queue = ∅) : QueuesEmpty (Function.update store id (some sem)) := by
  intro id' sem' h'
  by_cases hid : id' = id
  · subst hid
    simp only [Function.update_self, Option.some.injEq] at h'
    exact h' ▸ hsem
  · rw [Function.update_of_ne hid] at h'
    exact h id' sem' h'

theorem wait_queue (s : Semaphore) : s.wait.2.queue = s.queue := by
  unfold Semaphore.wait
  split <;> rfl

/-- The step lemma: no system call leaves a name in a wait queue. -/
theorem queuesEmpty_osWaitEntry {store store' : SemaphoreStore} {pm : ProcessesManager}
    {id : SemaphoreId} {r : Except Unit WaitEntry} (h : QueuesEmpty store)
    (hs : osWaitEntry store pm id = .ok (r, store')) : QueuesEmpty store' := by
  unfold osWaitEntry at hs
  split at hs
  · simp only [pure_eq_ok, Except.ok.injEq, Prod.mk.injEq] at hs
    exact hs.2 ▸ h
  · rename_i sem hsem
    have hq : sem.wait.2.queue = ∅ := (wait_queue sem).trans (h id sem hsem)
    dsimp only at hs
    split at hs
    · simp only [pure_eq_ok, Except.ok.injEq, Prod.mk.injEq] at hs
      exact hs.2 ▸ h.update hq
    · obtain ⟨level, -, hs⟩ := bind_eq_ok.mp hs
      split at hs
      · obtain ⟨name, -, hs⟩ := bind_eq_ok.mp hs
        obtain ⟨entry, hadd, hs⟩ := bind_eq_ok.mp hs
        simp only [pure_eq_ok, Except.ok.injEq, Prod.mk.injEq] at hs
        obtain ⟨-, rfl⟩ := Semaphore.addToWaitQueue_eq_ok hadd
        exact hs.2 ▸ (h.update hq).update hq
      · simp only [pure_eq_ok, Except.ok.injEq, Prod.mk.injEq] at hs
        exact hs.2 ▸ h.update hq

theorem queuesEmpty_osSignal {store store' : SemaphoreStore} {pm pm' : ProcessesManager}
    {id : SemaphoreId} {r : Except Unit Bool} (h : QueuesEmpty store)
    (hs : osSignal store pm id = .ok (r, store', pm')) : QueuesEmpty store' := by
  unfold osSignal at hs
  split at hs
  · simp only [pure_eq_ok, Except.ok.injEq, Prod.mk.injEq] at hs
    exact hs.2.1 ▸ h
  · rename_i sem hsem
    obtain ⟨name, -, hs⟩ := bind_eq_ok.mp hs
    -- the signalled semaphore keeps an empty queue: `erase` of an empty set
    have hq : ((sem.signal.2).checkAndPopIfExists name).2.queue = ∅ := by
      simp [Semaphore.checkAndPopIfExists, Semaphore.signal, h id sem hsem]
    dsimp only at hs
    split at hs
    · obtain ⟨pm₁, -, hs⟩ := bind_eq_ok.mp hs
      simp only [pure_eq_ok, Except.ok.injEq, Prod.mk.injEq] at hs
      exact hs.2.1 ▸ h.update hq
    · simp only [pure_eq_ok, Except.ok.injEq, Prod.mk.injEq] at hs
      exact hs.2.1 ▸ h.update hq

/-- The run lemma. -/
theorem queuesEmpty_of_semRun {store : SemaphoreStore} (h : SemRun store) : QueuesEmpty store := by
  induction h with
  | empty => intro _ _ h; simp at h
  | @initSem store id count _ ih =>
      unfold osInitSem
      split
      · exact ih
      · exact ih.update rfl
  | @dropSem store id _ ih =>
      unfold osDropSem
      split
      · exact ih
      · intro id' sem' h'
        dsimp only at h'
        by_cases hid : id' = id
        · subst hid
          simp at h'
        · rw [Function.update_of_ne hid] at h'
          exact ih id' sem' h'
  | waitEntry _ hs ih => exact queuesEmpty_osWaitEntry ih hs
  | @waitRetry store store' id b _ hs ih =>
      obtain ⟨sem, hsem, hs⟩ := bind_eq_ok.mp hs
      simp only [pure_eq_ok, Except.ok.injEq, Prod.mk.injEq] at hs
      exact hs.2 ▸ ih.update ((wait_queue sem).trans (ih id sem (expect_eq_ok.mp hsem)))
  | signal _ hs ih => exact queuesEmpty_osSignal ih hs

/-- A periodic process that finds the semaphore taken panics in `os_wait`:
its name is not queued yet, so `add_to_wait_queue`'s assertion fails. -/
theorem osWaitEntry_periodic_blocked {store : SemaphoreStore} {pm : ProcessesManager}
    {id : SemaphoreId} {sem : Semaphore} {p : Process} (hsem : store id = some sem)
    (hcount : sem.count ≤ 0) (hcur : pm.getCurrentProcess = .ok p) (hlevel : p.level = .periodic)
    (hfresh : p.name ∉ sem.queue) :
    osWaitEntry store pm id = .error .waitQueueHasElement := by
  have hwait : sem.wait = (false, sem) := by simp [Semaphore.wait, hcount]
  simp [osWaitEntry, hsem, hwait, ProcessesManager.getCurrentSchedulingLevel,
    ProcessesManager.getCurrentProcessName, hcur, hlevel, Except.mapError,
    Semaphore.addToWaitQueue_eq_error hfresh]

/-- In every store the system calls reach, every periodic process that has
to block in `os_wait` panics. -/
theorem osWaitEntry_periodic_panics {store : SemaphoreStore} {pm : ProcessesManager}
    {id : SemaphoreId} {sem : Semaphore} {p : Process} (hrun : SemRun store)
    (hsem : store id = some sem) (hcount : sem.count ≤ 0) (hcur : pm.getCurrentProcess = .ok p)
    (hlevel : p.level = .periodic) :
    osWaitEntry store pm id = .error .waitQueueHasElement := by
  have hempty := queuesEmpty_of_semRun hrun id sem hsem
  exact osWaitEntry_periodic_blocked hsem hcount hcur hlevel (by simp [hempty])

/-- Periodic process 1 runs and waits on a semaphore created with count 0. -/
theorem periodic_wait_panics :
    (ProcessesManager.bootState.run
        [.createNewProcess .periodic 1 0 (some { start := 4096, «end» := 8192 }),
         .nextTickPreemptProcess 100]).mapError KernelPanic.processes >>=
      (fun pm => osWaitEntry (osInitSem (fun _ => none) 1 0).2 pm 1) =
      .error .waitQueueHasElement := by
  rfl

/-- A caller that is not Periodic blocks in `os_wait` without leaving a trace
in the semaphore.  While the semaphore is neutral, `os_drop_sem` succeeds,
and the blocked caller's next retry finds the semaphore missing. -/
theorem drop_while_waiting_panics {store : SemaphoreStore} {pm : ProcessesManager}
    {id : SemaphoreId} {sem : Semaphore} {p : Process} (hsem : store id = some sem)
    (hcount : sem.count ≤ 0) (hneutral : sem.isNeutral = true)
    (hcur : pm.getCurrentProcess = .ok p) (hlevel : p.level ≠ .periodic) :
    osWaitEntry store pm id = .ok (.ok .blocked, store) ∧
      (osDropSem store id).1 = .ok () ∧
      osWaitRetry (osDropSem store id).2 id = .error .semaphoreMissing := by
  have hwait : sem.wait = (false, sem) := by simp [Semaphore.wait, hcount]
  -- the failed `wait` writes the semaphore back unchanged
  have hsame : Function.update store id (some sem) = store := by
    rw [← hsem, Function.update_eq_self]
  refine ⟨?_, by simp [osDropSem, hsem, hneutral], by simp [osDropSem, hsem, osWaitRetry]⟩
  simp [osWaitEntry, hsem, hwait, hsame, ProcessesManager.getCurrentSchedulingLevel, hcur, hlevel,
    Except.mapError]

/-- Sporadic process 7 runs and waits on a semaphore created with count 0,
which is then dropped. -/
theorem drop_while_waiting_panics_for_sporadic :
    ∃ pm p, ProcessesManager.bootState.run
        [.createNewProcess .sporadic 7 0 (some { start := 4096, «end» := 8192 }),
         .nextTickPreemptProcess 100] = .ok pm ∧
      pm.getCurrentProcess = .ok p ∧ p.level ≠ .periodic ∧
      osWaitEntry (osInitSem (fun _ => none) 1 0).2 pm 1 =
        .ok (.ok .blocked, (osInitSem (fun _ => none) 1 0).2) ∧
      (osDropSem (osInitSem (fun _ => none) 1 0).2 1).1 = .ok () ∧
      osWaitRetry (osDropSem (osInitSem (fun _ => none) 1 0).2 1).2 1 = .error .semaphoreMissing := by
  refine ⟨_, _, rfl, rfl, by decide,
    drop_while_waiting_panics rfl (by decide) (by decide) rfl (by decide)⟩

end Sync
end NoIdeaOS
