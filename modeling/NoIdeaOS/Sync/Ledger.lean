import NoIdeaOS.Sync.Semaphore

/-!
# What a semaphore lets through

A counting semaphore created with count `c` lets a wait through only while
units are left.  `SemLog` runs the semaphore system calls of `kernel.rs`
alongside a ledger that counts, per id, the waits that took a unit
(`os_wait` returning after a successful `wait`, at its first attempt or at
a retry) and the signals, since the semaphore now under the id was created.

`Balanced` is the accounting of one semaphore: its `i32` count is the
balance `c + signalled - acquired` wrapped to `i32`, and the balance keeps
the floor `min c 0` that the test of `wait` guards.  The floor is what the
wrap cannot break: a `wait` takes a unit only when the wrapped count is
positive, and above the floor (at least `i32::MIN`) that happens only when
the balance itself is positive.  Every run keeps the accounting for every
semaphore of the store (`accounts_of_semLog`), so the waits that took a unit
are at most `max c 0` plus the signals.  For a semaphore created with a
count of at least 0, the `is_neutral` test of `os_drop_sem` holds exactly
when the waits that took a unit and the signals agree modulo `2 ^ 32`: a
multiple of `2 ^ 32` unmatched signals wraps the count back to `c`.
-/

namespace NoIdeaOS
namespace Sync

open Fallible Processes

/-- Per id, the waits that took a unit and the signals since the semaphore
under the id was created. -/
structure Ledger where
  acquired : SemaphoreId → Nat
  signalled : SemaphoreId → Nat

namespace Ledger

/-- The ledger of the empty store. -/
def zero : Ledger := ⟨fun _ => 0, fun _ => 0⟩

/-- A semaphore is created under `id`. -/
def reset (l : Ledger) (id : SemaphoreId) : Ledger :=
  ⟨Function.update l.acquired id 0, Function.update l.signalled id 0⟩

/-- A wait on `id` took a unit. -/
def acquire (l : Ledger) (id : SemaphoreId) : Ledger :=
  { l with acquired := Function.update l.acquired id (l.acquired id + 1) }

/-- `id` was signalled. -/
def signal (l : Ledger) (id : SemaphoreId) : Ledger :=
  { l with signalled := Function.update l.signalled id (l.signalled id + 1) }

variable (l : Ledger) (id : SemaphoreId)

@[simp] theorem reset_acquired : (l.reset id).acquired = Function.update l.acquired id 0 := rfl
@[simp] theorem reset_signalled : (l.reset id).signalled = Function.update l.signalled id 0 := rfl
@[simp] theorem acquire_acquired :
    (l.acquire id).acquired = Function.update l.acquired id (l.acquired id + 1) := rfl
@[simp] theorem acquire_signalled : (l.acquire id).signalled = l.signalled := rfl
@[simp] theorem signal_acquired : (l.signal id).acquired = l.acquired := rfl
@[simp] theorem signal_signalled :
    (l.signal id).signalled = Function.update l.signalled id (l.signalled id + 1) := rfl

end Ledger

/-- Runs of the semaphore system calls from the empty store, made by any
process in any state of the process manager, with their ledger. -/
inductive SemLog : SemaphoreStore → Ledger → Prop
  | empty : SemLog (fun _ => none) Ledger.zero
  | initSem {store : SemaphoreStore} {l : Ledger} {id : SemaphoreId} {count : Int32} :
      SemLog store l →
      SemLog (osInitSem store id count).2 (if (store id).isNone then l.reset id else l)
  | dropSem {store : SemaphoreStore} {l : Ledger} {id : SemaphoreId} :
      SemLog store l → SemLog (osDropSem store id).2 l
  | waitEntry {store store' : SemaphoreStore} {l : Ledger} {pm : ProcessesManager}
      {id : SemaphoreId} {r : Except Unit WaitEntry} :
      SemLog store l → osWaitEntry store pm id = .ok (r, store') →
      SemLog store' (if r = .ok .acquired then l.acquire id else l)
  | waitRetry {store store' : SemaphoreStore} {l : Ledger} {id : SemaphoreId} {b : Bool} :
      SemLog store l → osWaitRetry store id = .ok (b, store') →
      SemLog store' (if b then l.acquire id else l)
  | signal {store store' : SemaphoreStore} {l : Ledger} {pm pm' : ProcessesManager}
      {id : SemaphoreId} {r : Except Unit Bool} :
      SemLog store l → osSignal store pm id = .ok (r, store', pm') →
      SemLog store' (if (store id).isSome then l.signal id else l)

/-- Forgetting the ledger gives a run of `Semaphore`'s `SemRun`. -/
theorem SemLog.semRun {store : SemaphoreStore} {l : Ledger} (h : SemLog store l) :
    SemRun store := by
  induction h with
  | empty => exact .empty
  | initSem _ ih => exact ih.initSem
  | dropSem _ ih => exact ih.dropSem
  | waitEntry _ hs ih => exact ih.waitEntry hs
  | waitRetry _ hs ih => exact ih.waitRetry hs
  | signal _ hs ih => exact ih.signal hs

/-! ## One semaphore -/

/-- A balance at or above `i32::MIN` whose wrap to `i32` is positive is
positive. -/
theorem pos_of_toInt_ofInt_pos {t : Int} (hlo : -2 ^ 31 ≤ t) (h : 0 < (Int32.ofInt t).toInt) :
    0 < t := by
  rw [Int32.toInt_ofInt, Int.bmod_def] at h
  simp only [Int32.size] at h
  split at h <;> omega

/-- The accounting of one semaphore after `a` waits took a unit and `g`
signals. -/
structure Balanced (sem : Semaphore) (a g : Nat) : Prop where
  count_eq : sem.count = Int32.ofInt (sem.initialCount.toInt + g - a)
  floor : min sem.initialCount.toInt 0 ≤ sem.initialCount.toInt + g - a

namespace Balanced

variable {sem : Semaphore} {a g : Nat}

theorem new (c : Int32) : Balanced (Semaphore.new c) 0 0 :=
  ⟨by simp [Semaphore.new, Int32.ofInt_toInt], by simp [Semaphore.new]⟩

/-- `wait` takes a unit only while the wrapped count is positive, and then
the balance is positive too, so the floor stays. -/
theorem wait (h : Balanced sem a g) :
    Balanced sem.wait.2 (if sem.wait.1 then a + 1 else a) g := by
  unfold Semaphore.wait
  split
  · exact h
  · rename_i hpos
    simp only [ite_true]
    have hfloor := h.floor
    have hlo : -2 ^ 31 ≤ sem.initialCount.toInt + g - a := by
      have := Int32.le_toInt sem.initialCount
      omega
    have hbal : 0 < sem.initialCount.toInt + g - a := by
      refine pos_of_toInt_ofInt_pos hlo ?_
      rw [← h.count_eq]
      simpa [Int32.le_iff_toInt_le] using hpos
    refine ⟨?_, by simp only; push_cast; omega⟩
    simp only [h.count_eq]
    rw [show sem.initialCount.toInt + g - ((a + 1 : Nat) : Int) =
      (sem.initialCount.toInt + g - a) - 1 by push_cast; omega,
      Int32.ofInt_sub (sem.initialCount.toInt + g - a) 1]
    rfl

theorem signal (h : Balanced sem a g) : Balanced sem.signal.2 a (g + 1) := by
  refine ⟨?_, by simp only [Semaphore.signal]; have := h.floor; push_cast; omega⟩
  simp only [Semaphore.signal, h.count_eq]
  rw [show sem.initialCount.toInt + ((g + 1 : Nat) : Int) - a =
    (sem.initialCount.toInt + g - a) + 1 by push_cast; omega,
    Int32.ofInt_add (sem.initialCount.toInt + g - a) 1]
  rfl

theorem checkAndPopIfExists (h : Balanced sem a g) (name : Name) :
    Balanced (sem.checkAndPopIfExists name).2 a g :=
  ⟨h.count_eq, h.floor⟩

theorem acquired_le (h : Balanced sem a g) : (a : Int) ≤ max sem.initialCount.toInt 0 + g := by
  have hf := h.floor
  omega

end Balanced

/-! ## The store -/

/-- Every semaphore of the store balances against the ledger. -/
def Accounts (store : SemaphoreStore) (l : Ledger) : Prop :=
  ∀ id sem, store id = some sem → Balanced sem (l.acquired id) (l.signalled id)

section Accounts

variable {store : SemaphoreStore} {l l' : Ledger} {id : SemaphoreId}

/-- The ledger moved at `id` only. -/
def Ledger.AgreesOff (l l' : Ledger) (id : SemaphoreId) : Prop :=
  ∀ id', id' ≠ id → l'.acquired id' = l.acquired id' ∧ l'.signalled id' = l.signalled id'

theorem Ledger.agreesOff_reset : l.AgreesOff (l.reset id) id := fun _ h => by simp [h]
theorem Ledger.agreesOff_acquire : l.AgreesOff (l.acquire id) id := fun _ h => by simp [h]
theorem Ledger.agreesOff_signal : l.AgreesOff (l.signal id) id := fun _ h => by simp [h]

theorem Accounts.update {sem : Semaphore} (h : Accounts store l)
    (hsem : Balanced sem (l'.acquired id) (l'.signalled id)) (hoff : l.AgreesOff l' id) :
    Accounts (Function.update store id (some sem)) l' := by
  intro id' sem' h'
  by_cases hid : id' = id
  · subst hid
    simp only [Function.update_self, Option.some.injEq] at h'
    exact h' ▸ hsem
  · rw [Function.update_of_ne hid] at h'
    rw [(hoff id' hid).1, (hoff id' hid).2]
    exact h id' sem' h'

theorem Accounts.erase (h : Accounts store l) : Accounts (Function.update store id none) l := by
  intro id' sem' h'
  by_cases hid : id' = id
  · subst hid
    simp at h'
  · rw [Function.update_of_ne hid] at h'
    exact h id' sem' h'

/-- A semaphore written back after a `wait`, with the ledger counting it. -/
theorem Accounts.wait {sem : Semaphore} (h : Accounts store l) (hsem : store id = some sem) :
    Accounts (Function.update store id (some sem.wait.2))
      (if sem.wait.1 then l.acquire id else l) := by
  cases hw : sem.wait.1
  · have hb := (h id sem hsem).wait
    rw [hw] at hb
    exact h.update hb fun _ _ => ⟨rfl, rfl⟩
  · have hb := (h id sem hsem).wait
    rw [hw] at hb
    exact h.update (by simpa using hb) Ledger.agreesOff_acquire

end Accounts

/-! ## What each system call does to the store -/

section Calls

variable {store store' : SemaphoreStore} {pm pm' : ProcessesManager} {id : SemaphoreId}

/-- `os_wait`'s first part writes back the semaphore its `wait` left, and
reports `acquired` exactly when that `wait` took a unit; queueing a name
changes nothing (`add_to_wait_queue` accepts only names already queued). -/
theorem osWaitEntry_eq_ok {r : Except Unit WaitEntry}
    (hs : osWaitEntry store pm id = .ok (r, store')) :
    (store id = none ∧ store' = store ∧ r = .error ()) ∨
      ∃ sem, store id = some sem ∧ store' = Function.update store id (some sem.wait.2) ∧
        (r = .ok .acquired ↔ sem.wait.1 = true) := by
  unfold osWaitEntry at hs
  split at hs
  · rename_i hnone
    simp only [pure_eq_ok, Except.ok.injEq, Prod.mk.injEq] at hs
    exact .inl ⟨hnone, hs.2.symm, hs.1.symm⟩
  · rename_i sem hsem
    refine .inr ⟨sem, hsem, ?_⟩
    dsimp only at hs
    split at hs
    · rename_i hw
      simp only [pure_eq_ok, Except.ok.injEq, Prod.mk.injEq] at hs
      exact ⟨hs.2.symm, by simp [← hs.1, hw]⟩
    · rename_i hw
      obtain ⟨level, -, hs⟩ := bind_eq_ok.mp hs
      split at hs
      · obtain ⟨name, -, hs⟩ := bind_eq_ok.mp hs
        obtain ⟨entry, hadd, hs⟩ := bind_eq_ok.mp hs
        obtain ⟨-, rfl⟩ := Semaphore.addToWaitQueue_eq_ok hadd
        simp only [pure_eq_ok, Except.ok.injEq, Prod.mk.injEq] at hs
        exact ⟨by rw [← hs.2, Function.update_idem], by simp [← hs.1, hw]⟩
      · simp only [pure_eq_ok, Except.ok.injEq, Prod.mk.injEq] at hs
        exact ⟨hs.2.symm, by simp [← hs.1, hw]⟩

theorem osWaitRetry_eq_ok {b : Bool} (hs : osWaitRetry store id = .ok (b, store')) :
    ∃ sem, store id = some sem ∧ b = sem.wait.1 ∧
      store' = Function.update store id (some sem.wait.2) := by
  obtain ⟨sem, hsem, hs⟩ := bind_eq_ok.mp hs
  simp only [pure_eq_ok, Except.ok.injEq, Prod.mk.injEq] at hs
  exact ⟨sem, expect_eq_ok.mp hsem, hs.1.symm, hs.2.symm⟩

/-- `os_signal` writes back the signalled semaphore, less the scheduled
name if it was queued. -/
theorem osSignal_eq_ok {r : Except Unit Bool} (hs : osSignal store pm id = .ok (r, store', pm')) :
    (store id = none ∧ store' = store) ∨
      ∃ sem name, store id = some sem ∧
        store' = Function.update store id (some (sem.signal.2.checkAndPopIfExists name).2) := by
  unfold osSignal at hs
  split at hs
  · rename_i hnone
    simp only [pure_eq_ok, Except.ok.injEq, Prod.mk.injEq] at hs
    exact .inl ⟨hnone, hs.2.1.symm⟩
  · rename_i sem hsem
    obtain ⟨name, -, hs⟩ := bind_eq_ok.mp hs
    refine .inr ⟨sem, name, hsem, ?_⟩
    dsimp only at hs
    split at hs
    · obtain ⟨pm₁, -, hs⟩ := bind_eq_ok.mp hs
      simp only [pure_eq_ok, Except.ok.injEq, Prod.mk.injEq] at hs
      exact hs.2.1.symm
    · simp only [pure_eq_ok, Except.ok.injEq, Prod.mk.injEq] at hs
      exact hs.2.1.symm

end Calls

/-! ## Runs -/

section Steps

variable {store store' : SemaphoreStore} {l : Ledger} {pm pm' : ProcessesManager}
  {id : SemaphoreId}

theorem accounts_initSem {count : Int32} (h : Accounts store l) :
    Accounts (osInitSem store id count).2 (if (store id).isNone then l.reset id else l) := by
  unfold osInitSem
  split
  · rename_i hsome
    simpa [hsome] using h
  · rename_i hnone
    simp only [hnone, Option.isNone_none, ite_true]
    exact h.update (by simpa using Balanced.new count) Ledger.agreesOff_reset

theorem accounts_dropSem (h : Accounts store l) : Accounts (osDropSem store id).2 l := by
  unfold osDropSem
  split
  · exact h
  · exact h.erase

theorem accounts_waitEntry {r : Except Unit WaitEntry} (h : Accounts store l)
    (hs : osWaitEntry store pm id = .ok (r, store')) :
    Accounts store' (if r = .ok .acquired then l.acquire id else l) := by
  obtain ⟨-, rfl, rfl⟩ | ⟨sem, hsem, rfl, hr⟩ := osWaitEntry_eq_ok hs
  · simpa using h
  · simpa only [hr] using h.wait hsem

theorem accounts_waitRetry {b : Bool} (h : Accounts store l)
    (hs : osWaitRetry store id = .ok (b, store')) :
    Accounts store' (if b then l.acquire id else l) := by
  obtain ⟨sem, hsem, rfl, rfl⟩ := osWaitRetry_eq_ok hs
  exact h.wait hsem

theorem accounts_signal {r : Except Unit Bool} (h : Accounts store l)
    (hs : osSignal store pm id = .ok (r, store', pm')) :
    Accounts store' (if (store id).isSome then l.signal id else l) := by
  obtain ⟨hnone, rfl⟩ | ⟨sem, name, hsem, rfl⟩ := osSignal_eq_ok hs
  · simpa [hnone] using h
  · simp only [hsem, Option.isSome_some, ite_true]
    have hb := ((h id sem hsem).signal).checkAndPopIfExists name
    exact h.update (by simpa using hb) Ledger.agreesOff_signal

/-- The run lemma. -/
theorem accounts_of_semLog (h : SemLog store l) : Accounts store l := by
  induction h with
  | empty => intro _ _ h; simp at h
  | initSem _ ih => exact accounts_initSem ih
  | dropSem _ ih => exact accounts_dropSem ih
  | waitEntry _ hs ih => exact accounts_waitEntry ih hs
  | waitRetry _ hs ih => exact accounts_waitRetry ih hs
  | signal _ hs ih => exact accounts_signal ih hs

end Steps

/-- Over every run of the semaphore system calls, a semaphore's count is its
initial count plus the signals minus the waits that took a unit, wrapped to
`i32`, and those waits number at most the initial count (when positive)
plus the signals. -/
theorem semaphore_admits_at_most_count_plus_signals {store : SemaphoreStore} {l : Ledger}
    {id : SemaphoreId} {sem : Semaphore} (h : SemLog store l) (hsem : store id = some sem) :
    sem.count = Int32.ofInt (sem.initialCount.toInt + l.signalled id - l.acquired id) ∧
      (l.acquired id : Int) ≤ max sem.initialCount.toInt 0 + l.signalled id := by
  have hb := accounts_of_semLog h id sem hsem
  exact ⟨hb.count_eq, hb.acquired_le⟩

/-- Semaphore 1 created with count `i32::MAX`, then signalled once. -/
theorem semLog_max_signalled :
    SemLog (Function.update (osInitSem (fun _ => none) 1 2147483647).2 1
        (some (((Semaphore.new 2147483647).signal.2).checkAndPopIfExists 1).2))
      ((Ledger.zero.reset 1).signal 1) := by
  have hinit : SemLog (osInitSem (fun _ => none) 1 2147483647).2 (Ledger.zero.reset 1) := by
    simpa using @SemLog.initSem (fun _ => none) Ledger.zero 1 2147483647 .empty
  have hs : osSignal (osInitSem (fun _ => none) 1 2147483647).2 ProcessesManager.bootState 1 =
      .ok (.ok false, Function.update (osInitSem (fun _ => none) 1 2147483647).2 1
        (some (((Semaphore.new 2147483647).signal.2).checkAndPopIfExists 1).2),
        ProcessesManager.bootState) := rfl
  simpa [osInitSem] using hinit.signal hs

/-- The one signal wraps the count to `i32::MIN`, where `wait` refuses. -/
theorem semaphore_count_wraps_after_max_signalled :
    ∃ store sem, SemLog store ((Ledger.zero.reset 1).signal 1) ∧ store 1 = some sem ∧
      sem.count = -2147483648 ∧ sem.wait.1 = false ∧
      sem.count = Int32.ofInt (sem.initialCount.toInt + ((Ledger.zero.reset 1).signal 1).signalled 1 -
        ((Ledger.zero.reset 1).signal 1).acquired 1) ∧
      (((Ledger.zero.reset 1).signal 1).acquired 1 : Int) ≤
        max sem.initialCount.toInt 0 + ((Ledger.zero.reset 1).signal 1).signalled 1 := by
  have hsem : Function.update (osInitSem (fun _ => none) 1 2147483647).2 1
      (some (((Semaphore.new 2147483647).signal.2).checkAndPopIfExists 1).2) 1 =
        some (((Semaphore.new 2147483647).signal.2).checkAndPopIfExists 1).2 := by simp
  exact ⟨_, _, semLog_max_signalled, hsem, by decide, by decide,
    semaphore_admits_at_most_count_plus_signals semLog_max_signalled hsem⟩

/-- For a semaphore created with a count of at least 0, `os_drop_sem`
succeeds exactly when the waits that took a unit and the signals agree
modulo `2 ^ 32`. -/
theorem dropSem_succeeds_iff_waits_signalled {store : SemaphoreStore} {l : Ledger}
    {id : SemaphoreId} {sem : Semaphore} (h : SemLog store l) (hsem : store id = some sem)
    (hc : 0 ≤ sem.initialCount) :
    (osDropSem store id).1 = .ok () ↔ l.acquired id % 2 ^ 32 = l.signalled id % 2 ^ 32 := by
  have hq := queuesEmpty_of_semRun h.semRun id sem hsem
  have hb := (accounts_of_semLog h id sem hsem).count_eq
  have hc' : 0 ≤ sem.initialCount.toInt := by simpa [Int32.le_iff_toInt_le] using hc
  have hhi := Int32.toInt_le sem.initialCount
  -- with a count of at least 0, `is_neutral` is `initial_count == count`
  have hneutral : sem.isNeutral = decide (sem.initialCount = sem.count) := by
    simp [Semaphore.isNeutral, hq, Int32.lt_iff_toInt_lt, not_lt.mpr hc']
  have hwrap : sem.initialCount = sem.count ↔ l.acquired id % 2 ^ 32 = l.signalled id % 2 ^ 32 := by
    rw [hb, ← Int32.toInt_inj, Int32.toInt_ofInt, Int.bmod_def]
    simp only [Int32.size, Int32.toInt_maxValue] at hhi ⊢
    split <;> omega
  simp only [osDropSem, hsem, hneutral]
  split <;> simp_all

/-- `os_signal` on a semaphore with an empty queue, made at boot, adds one to
its count. -/
theorem osSignal_of_queue_empty {store : SemaphoreStore} {id : SemaphoreId} {sem : Semaphore}
    (hsem : store id = some sem) (hq : sem.queue = ∅) :
    osSignal store ProcessesManager.bootState id =
      .ok (.ok false, Function.update store id (some { sem with count := sem.count + 1 }),
        ProcessesManager.bootState) := by
  have hname : ProcessesManager.bootState.getScheduledName.mapError KernelPanic.processes =
      .ok 1 := rfl
  simp [osSignal, hsem, hname, Semaphore.signal, Semaphore.checkAndPopIfExists, hq]

/-- Semaphore 1 created with count 0 and signalled `n` times, with no wait. -/
theorem semLog_signalled (n : Nat) :
    SemLog (Function.update (fun _ => none) 1 (some { Semaphore.new 0 with count := Int32.ofNat n }))
      ⟨fun _ => 0, Function.update (fun _ => 0) 1 n⟩ := by
  induction n with
  | zero =>
      have h := @SemLog.initSem (fun _ => none) Ledger.zero 1 0 .empty
      simpa [osInitSem, Ledger.reset, Ledger.zero, Semaphore.new] using h
  | succ n ih =>
      have hs := @osSignal_of_queue_empty (Function.update (fun _ => none) 1
        (some { Semaphore.new 0 with count := Int32.ofNat n })) 1
        { Semaphore.new 0 with count := Int32.ofNat n } (by simp) rfl
      simpa [Ledger.signal, Int32.ofNat_add] using ih.signal hs

/-- After `2 ^ 32` signals and no wait the count has wrapped back to 0: the
semaphore is neutral again and `os_drop_sem` succeeds, although no signal
was matched by a wait. -/
theorem dropSem_succeeds_after_wrapping_signals :
    ∃ store sem, SemLog store ⟨fun _ => 0, Function.update (fun _ => 0) 1 (2 ^ 32)⟩ ∧
      store 1 = some sem ∧ 0 ≤ sem.initialCount ∧ (osDropSem store 1).1 = .ok () ∧
      (fun _ => 0 : SemaphoreId → Nat) 1 ≠ Function.update (fun _ => 0) 1 (2 ^ 32) 1 ∧
      ((osDropSem store 1).1 = .ok () ↔ (fun _ => 0 : SemaphoreId → Nat) 1 % 2 ^ 32 =
        Function.update (fun _ => 0 : SemaphoreId → Nat) 1 (2 ^ 32) 1 % 2 ^ 32) := by
  have hsem : Function.update (fun _ => none) 1
      (some { Semaphore.new 0 with count := Int32.ofNat (2 ^ 32) }) 1 =
        some { Semaphore.new 0 with count := Int32.ofNat (2 ^ 32) } := by simp
  have hc : 0 ≤ ({ Semaphore.new 0 with count := Int32.ofNat (2 ^ 32) } : Semaphore).initialCount := by
    decide
  exact ⟨_, _, semLog_signalled (2 ^ 32), hsem, hc, by decide, by simp,
    dropSem_succeeds_iff_waits_signalled (semLog_signalled (2 ^ 32)) hsem hc⟩

end Sync
end NoIdeaOS
