import Mathlib.Logic.Function.Basic
import Mathlib.Data.List.Basic

/-!
# FIFO IPC

`ipc.rs` (`FIFO_POOL`, `get_available_fifo_key`) and the FIFO system calls
of `kernel.rs` (`os_init_fifo`, `os_write`, `os_read`).

The pool maps keys to byte queues; a `BTreeMap<FifoKey, Mutex<VecDeque<u8>>>`
is a partial map from keys to lists, front first.  Keys come from the `u32`
counter `FIFO_KEY_COUNTER`, which starts at 1000; `fetch_add` wraps, so the
counter is a `UInt32`.  `os_write` appends its bytes, and `os_read` pops bytes
into its buffer until the buffer is full or the queue is empty, and returns
how many it stored.  `os_read`'s loop is `readLoop`, a recursion over the
buffer.

**Runs.**  A run is a list of calls (`FifoCall`), executed by
`FifoSystem.step` on the pool together with what the callers have seen: the
keys `os_init_fifo` returned, and for each key the bytes that successful
writes handed over and successful reads handed back.

**Results.**
* `fifoInv_run`: the `i`-th `os_init_fifo` returns `1000 + i` modulo `2^32`,
  and the pool holds a FIFO exactly under the keys handed out.
* `initFifo_key_fresh`: for the first `2^32` calls, `os_init_fifo` returns a
  key it never returned before, under which the pool holds no FIFO.
* `fifo_delivers_written_bytes`: while no key has been reused, on every key
  the bytes read, followed by the bytes still queued, are the bytes written,
  in order: no byte is lost, duplicated or reordered.
-/

namespace NoIdeaOS
namespace Ipc

/-- `pub type FifoKey = u32`. -/
abbrev FifoKey := UInt32

/-- `FIFO_POOL` with `FIFO_KEY_COUNTER`. -/
structure FifoPool where
  fifos : FifoKey → Option (List UInt8)
  fifoKeyCounter : UInt32

/-- The pool at boot: no FIFO, and the counter at 1000. -/
def FifoPool.boot : FifoPool :=
  { fifos := fun _ => none, fifoKeyCounter := 1000 }

/-- `get_available_fifo_key`: `fetch_add(1)` on the counter. -/
def getAvailableFifoKey (p : FifoPool) : FifoKey × FifoPool :=
  (p.fifoKeyCounter, { p with fifoKeyCounter := p.fifoKeyCounter + 1 })

def osInitFifo (p : FifoPool) : FifoKey × FifoPool :=
  let (key, p) := getAvailableFifoKey p
  (key, { p with fifos := Function.update p.fifos key (some []) })

/-- `os_write`; `Err(())` when there is no FIFO with the key. -/
def osWrite (p : FifoPool) (key : FifoKey) (data : List UInt8) : Except Unit Unit × FifoPool :=
  match p.fifos key with
  | none => (.error (), p)
  | some q => (.ok (), { p with fifos := Function.update p.fifos key (some (q ++ data)) })

/-- The loop of `os_read` from index `idx`: each cell of the buffer takes the
front of the queue; when the queue runs dry at `idx`, the loop returns
`Ok(idx)` (here `some idx`) and leaves the rest of the buffer alone.  The
result is that, the new buffer and the queue left. -/
def readLoop : List UInt8 → List UInt8 → Nat → Option Nat × List UInt8 × List UInt8
  | [], q, _ => (none, [], q)
  | b :: bs, [], idx => (some idx, b :: bs, [])
  | _ :: bs, c :: q, idx =>
      let (r, bs', q') := readLoop bs q (idx + 1)
      (r, c :: bs', q')

/-- `os_read`: the number of bytes stored, the buffer, and the pool. -/
def osRead (p : FifoPool) (key : FifoKey) (buf : List UInt8) :
    Except Unit Nat × List UInt8 × FifoPool :=
  match p.fifos key with
  | none => (.error (), buf, p)
  | some q =>
      let (r, buf', q') := readLoop buf q 0
      (.ok (r.getD buf.length), buf', { p with fifos := Function.update p.fifos key (some q') })

/-! ## What each call does -/

@[simp] theorem osInitFifo_key (p : FifoPool) : (osInitFifo p).1 = p.fifoKeyCounter := rfl

@[simp] theorem osInitFifo_counter (p : FifoPool) :
    (osInitFifo p).2.fifoKeyCounter = p.fifoKeyCounter + 1 := rfl

@[simp] theorem osInitFifo_fifos (p : FifoPool) :
    (osInitFifo p).2.fifos = Function.update p.fifos p.fifoKeyCounter (some []) := rfl

/-- `os_read`'s loop stores the first bytes of the queue, as many as fit. -/
theorem readLoop_eq (buf q : List UInt8) (idx : Nat) :
    readLoop buf q idx =
      (if q.length < buf.length then some (idx + q.length) else none,
        q.take buf.length ++ buf.drop q.length, q.drop buf.length) := by
  induction buf generalizing q idx with
  | nil => simp [readLoop]
  | cons b bs ih =>
      cases q with
      | nil => simp [readLoop]
      | cons c q =>
          simp only [readLoop, ih, List.length_cons, Nat.add_lt_add_iff_right, List.take_succ_cons,
            List.drop_succ_cons, List.cons_append]
          split
          · simp only [Prod.mk.injEq, Option.some.injEq, and_true]
            omega
          · rfl

/-- A read from an existing FIFO stores `min(buf.len(), queue length)` bytes
from its front and returns that count. -/
theorem osRead_of_some {p : FifoPool} {key : FifoKey} {q : List UInt8} (h : p.fifos key = some q)
    (buf : List UInt8) :
    osRead p key buf =
      (.ok (min buf.length q.length), q.take buf.length ++ buf.drop q.length,
        { p with fifos := Function.update p.fifos key (some (q.drop buf.length)) }) := by
  simp only [osRead, h, readLoop_eq]
  split
  · rename_i hlt
    simp only [Option.getD_some, Nat.zero_add, Prod.mk.injEq, Except.ok.injEq, and_true]
    omega
  · rename_i hge
    simp only [Option.getD_none, Prod.mk.injEq, Except.ok.injEq, and_true]
    omega

theorem osWrite_of_some {p : FifoPool} {key : FifoKey} {q : List UInt8} (h : p.fifos key = some q)
    (data : List UInt8) :
    osWrite p key data = (.ok (), { p with fifos := Function.update p.fifos key (some (q ++ data)) }) := by
  simp [osWrite, h]

theorem osWrite_of_none {p : FifoPool} {key : FifoKey} (h : p.fifos key = none)
    (data : List UInt8) : osWrite p key data = (.error (), p) := by
  simp [osWrite, h]

theorem osRead_of_none {p : FifoPool} {key : FifoKey} (h : p.fifos key = none)
    (buf : List UInt8) : osRead p key buf = (.error (), buf, p) := by
  simp [osRead, h]

/-- Replacing a FIFO's queue keeps the keys that have one. -/
theorem isSome_update_some {f : FifoKey → Option (List UInt8)} {key : FifoKey}
    (hkey : (f key).isSome) (v : List UInt8) (k : FifoKey) :
    (Function.update f key (some v) k).isSome = (f k).isSome := by
  by_cases hk : k = key
  · subst hk
    rw [Function.update_self, hkey]
    rfl
  · rw [Function.update_of_ne hk]

/-- Writes and reads keep the set of FIFOs and the counter. -/
theorem osWrite_isSome (p : FifoPool) (key : FifoKey) (data : List UInt8) (k : FifoKey) :
    ((osWrite p key data).2.fifos k).isSome = (p.fifos k).isSome ∧
      (osWrite p key data).2.fifoKeyCounter = p.fifoKeyCounter := by
  cases hq : p.fifos key with
  | none => simp [osWrite, hq]
  | some q =>
      rw [osWrite_of_some hq]
      exact ⟨isSome_update_some (Option.isSome_iff_exists.mpr ⟨q, hq⟩) _ k, rfl⟩

theorem osRead_isSome (p : FifoPool) (key : FifoKey) (buf : List UInt8) (k : FifoKey) :
    ((osRead p key buf).2.2.fifos k).isSome = (p.fifos k).isSome ∧
      (osRead p key buf).2.2.fifoKeyCounter = p.fifoKeyCounter := by
  cases hq : p.fifos key with
  | none => simp [osRead, hq]
  | some q =>
      rw [osRead_of_some hq]
      exact ⟨isSome_update_some (Option.isSome_iff_exists.mpr ⟨q, hq⟩) _ k, rfl⟩

/-! ## Keys -/

/-- The key the `i`-th `os_init_fifo` of a run returns: `1000 + i`, modulo `2^32`. -/
def issuedKey (i : Nat) : FifoKey := UInt32.ofNat (1000 + i)

theorem toNat_issuedKey (i : Nat) : (issuedKey i).toNat = (1000 + i) % UInt32.size :=
  UInt32.toNat_ofNat'

theorem issuedKey_succ (i : Nat) : issuedKey i + 1 = issuedKey (i + 1) := by
  apply UInt32.toNat_inj.mp
  rw [UInt32.toNat_add, toNat_issuedKey, toNat_issuedKey, UInt32.toNat_one]
  unfold UInt32.size
  omega

/-- Keys of calls less than `2^32` apart differ. -/
theorem issuedKey_inj {i j : Nat} (hi : i < UInt32.size) (hj : j < UInt32.size)
    (h : issuedKey i = issuedKey j) : i = j := by
  have h' := congrArg UInt32.toNat h
  rw [toNat_issuedKey, toNat_issuedKey] at h'
  unfold UInt32.size at hi hj h'
  omega

theorem issuedKey_not_mem_range {n : Nat} (hn : n < UInt32.size) :
    issuedKey n ∉ (List.range n).map issuedKey := by
  rw [List.mem_map]
  rintro ⟨i, hi, heq⟩
  have hi' := List.mem_range.mp hi
  exact Nat.ne_of_lt hi' (issuedKey_inj (by omega) hn heq)

/-! ## Runs -/

/-- The FIFO system calls, with their arguments. -/
inductive FifoCall
  | initFifo
  | write (key : FifoKey) (data : List UInt8)
  | read (key : FifoKey) (buf : List UInt8)

def FifoCall.isInitFifo : FifoCall → Bool
  | .initFifo => true
  | _ => false

/-- The pool with what the callers have seen: the keys `os_init_fifo`
returned, oldest first; for each key, the bytes of the writes that returned
`Ok`, and the bytes that the reads returning `Ok(n)` stored in the first `n`
cells of their buffers. -/
structure FifoSystem where
  pool : FifoPool
  keys : List FifoKey
  written : FifoKey → List UInt8
  delivered : FifoKey → List UInt8

def FifoSystem.boot : FifoSystem := ⟨.boot, [], fun _ => [], fun _ => []⟩

def FifoSystem.step (s : FifoSystem) : FifoCall → FifoSystem
  | .initFifo =>
      let (key, pool) := osInitFifo s.pool
      { s with pool := pool, keys := s.keys ++ [key] }
  | .write key data =>
      let (r, pool) := osWrite s.pool key data
      { s with
        pool := pool
        written := match r with
          | .ok () => Function.update s.written key (s.written key ++ data)
          | .error () => s.written }
  | .read key buf =>
      let (r, buf', pool) := osRead s.pool key buf
      { s with
        pool := pool
        delivered := match r with
          | .ok n => Function.update s.delivered key (s.delivered key ++ buf'.take n)
          | .error () => s.delivered }

/-- The state after the calls, oldest first, from boot. -/
def FifoSystem.run (calls : List FifoCall) : FifoSystem := calls.foldl step boot

namespace FifoSystem

@[simp] theorem step_initFifo (s : FifoSystem) :
    s.step .initFifo = { s with pool := (osInitFifo s.pool).2, keys := s.keys ++ [s.pool.fifoKeyCounter] } :=
  rfl

@[simp] theorem step_write_pool (s : FifoSystem) (key : FifoKey) (data : List UInt8) :
    (s.step (.write key data)).pool = (osWrite s.pool key data).2 := rfl

@[simp] theorem step_read_pool (s : FifoSystem) (key : FifoKey) (buf : List UInt8) :
    (s.step (.read key buf)).pool = (osRead s.pool key buf).2.2 := rfl

@[simp] theorem step_write_keys (s : FifoSystem) (key : FifoKey) (data : List UInt8) :
    (s.step (.write key data)).keys = s.keys := rfl

@[simp] theorem step_read_keys (s : FifoSystem) (key : FifoKey) (buf : List UInt8) :
    (s.step (.read key buf)).keys = s.keys := rfl

/-- Only `os_init_fifo` hands out a key. -/
theorem keys_length_step (s : FifoSystem) (c : FifoCall) :
    (s.step c).keys.length = s.keys.length + if c.isInitFifo then 1 else 0 := by
  cases c <;> simp [FifoCall.isInitFifo]

theorem keys_length_foldl (calls : List FifoCall) (s : FifoSystem) :
    (calls.foldl step s).keys.length = s.keys.length + calls.countP FifoCall.isInitFifo := by
  induction calls generalizing s with
  | nil => rfl
  | cons c cs ih =>
      rw [List.foldl_cons, ih, keys_length_step, List.countP_cons]
      omega

/-- The invariant of every run: the counter and the keys handed out are those
of `issuedKey`, and the pool holds a FIFO exactly under those keys. -/
structure Inv (s : FifoSystem) : Prop where
  counter : s.pool.fifoKeyCounter = issuedKey s.keys.length
  keys : s.keys = (List.range s.keys.length).map issuedKey
  present : ∀ k, (s.pool.fifos k).isSome ↔ k ∈ s.keys

theorem inv_boot : Inv boot :=
  ⟨rfl, rfl, fun k => by simp [boot, FifoPool.boot]⟩

theorem inv_step {s : FifoSystem} (h : Inv s) (c : FifoCall) : Inv (s.step c) := by
  cases c with
  | initFifo =>
      refine ⟨?_, ?_, fun k => ?_⟩
      · simp [h.counter, issuedKey_succ]
      · simp only [step_initFifo, List.length_append, List.length_singleton, List.range_succ,
          List.map_append, List.map_singleton, h.counter]
        rw [← h.keys]
      · by_cases hk : k = s.pool.fifoKeyCounter
        · subst hk
          simp
        · simp [h.present k, hk]
  | write key data =>
      refine ⟨?_, h.keys, fun k => ?_⟩
      · rw [step_write_pool, (osWrite_isSome _ key data 0).2]
        exact h.counter
      · rw [step_write_pool, (osWrite_isSome _ key data k).1]
        exact h.present k
  | read key buf =>
      refine ⟨?_, h.keys, fun k => ?_⟩
      · rw [step_read_pool, (osRead_isSome _ key buf 0).2]
        exact h.counter
      · rw [step_read_pool, (osRead_isSome _ key buf k).1]
        exact h.present k

theorem inv_foldl (calls : List FifoCall) {s : FifoSystem} (h : Inv s) :
    Inv (calls.foldl step s) := by
  induction calls generalizing s with
  | nil => exact h
  | cons c cs ih => exact ih (inv_step h c)

theorem fifoInv_run (calls : List FifoCall) : Inv (run calls) :=
  inv_foldl calls inv_boot

/-- Before the `2^32`-th key, the counter is a key not handed out yet. -/
theorem Inv.counter_fresh {s : FifoSystem} (h : Inv s) (hlen : s.keys.length < UInt32.size) :
    s.pool.fifoKeyCounter ∉ s.keys ∧ s.pool.fifos s.pool.fifoKeyCounter = none := by
  have hnot : s.pool.fifoKeyCounter ∉ s.keys := by
    rw [h.counter, h.keys, List.length_map, List.length_range]
    exact issuedKey_not_mem_range hlen
  refine ⟨hnot, ?_⟩
  have hnone := (h.present s.pool.fifoKeyCounter).not.mpr hnot
  simpa using hnone

/-! ## No byte lost, duplicated or reordered -/

/-- On every key, the bytes read and then those still queued are the bytes
written. -/
def Conserved (s : FifoSystem) : Prop :=
  ∀ k, s.delivered k ++ (s.pool.fifos k).getD [] = s.written k

theorem conserved_boot : Conserved boot := fun _ => rfl

theorem conserved_update {s : FifoSystem} (hc : Conserved s) {f : FifoKey → Option (List UInt8)}
    {w d : FifoKey → List UInt8} {key : FifoKey}
    (hkey : d key ++ (f key).getD [] = w key)
    (hf : ∀ k, k ≠ key → f k = s.pool.fifos k) (hw : ∀ k, k ≠ key → w k = s.written k)
    (hd : ∀ k, k ≠ key → d k = s.delivered k) :
    ∀ k, d k ++ (f k).getD [] = w k := by
  intro k
  by_cases hk : k = key
  · subst hk
    exact hkey
  · rw [hf k hk, hw k hk, hd k hk]
    exact hc k

/-- A write that returns `Ok` appends to the queue what it appends to the
bytes written. -/
theorem conserved_write {s : FifoSystem} (hc : Conserved s) (key : FifoKey) (data : List UInt8) :
    Conserved (s.step (.write key data)) := by
  cases hq : s.pool.fifos key with
  | none =>
      have hstep : s.step (.write key data) = s := by
        simp only [step, osWrite_of_none hq]
      rw [hstep]
      exact hc
  | some q =>
      have hstep : s.step (.write key data) =
          { s with
            pool := { s.pool with fifos := Function.update s.pool.fifos key (some (q ++ data)) }
            written := Function.update s.written key (s.written key ++ data) } := by
        simp only [step, osWrite_of_some hq]
      rw [hstep]
      refine conserved_update hc ?_ (fun k hk => Function.update_of_ne hk _ _)
        (fun k hk => Function.update_of_ne hk _ _) (fun _ _ => rfl)
      have hkey := hc key
      rw [hq, Option.getD_some] at hkey
      simp [← hkey]

/-- A read that returns `Ok(n)` moves the front of the queue to the bytes
read: the first `n` cells of its buffer are the first `n` bytes of the
queue. -/
theorem conserved_read {s : FifoSystem} (hc : Conserved s) (key : FifoKey) (buf : List UInt8) :
    Conserved (s.step (.read key buf)) := by
  cases hq : s.pool.fifos key with
  | none =>
      have hstep : s.step (.read key buf) = s := by
        simp only [step, osRead_of_none hq]
      rw [hstep]
      exact hc
  | some q =>
      have htake : (q.take buf.length ++ buf.drop q.length).take (min buf.length q.length) =
          q.take buf.length := by
        rw [List.take_append_of_le_length (by simp), List.take_of_length_le (by simp)]
      have hstep : s.step (.read key buf) =
          { s with
            pool := { s.pool with fifos := Function.update s.pool.fifos key (some (q.drop buf.length)) }
            delivered := Function.update s.delivered key (s.delivered key ++ q.take buf.length) } := by
        simp only [step, osRead_of_some hq, htake]
      rw [hstep]
      refine conserved_update hc ?_ (fun k hk => Function.update_of_ne hk _ _) (fun _ _ => rfl)
        (fun k hk => Function.update_of_ne hk _ _)
      have hkey := hc key
      rw [hq, Option.getD_some] at hkey
      simp [← hkey]

/-- A fresh `os_init_fifo` adds an empty queue where there was none. -/
theorem conserved_initFifo {s : FifoSystem} (hc : Conserved s) (h : Inv s)
    (hlen : s.keys.length < UInt32.size) : Conserved (s.step .initFifo) := by
  have hnone := (h.counter_fresh hlen).2
  rw [step_initFifo]
  refine conserved_update hc ?_ (fun k hk => Function.update_of_ne hk _ _) (fun _ _ => rfl)
    (fun _ _ => rfl)
  have hkey := hc s.pool.fifoKeyCounter
  rw [hnone] at hkey
  simpa using hkey

theorem conserved_step {s : FifoSystem} (hc : Conserved s) (h : Inv s) (c : FifoCall)
    (hlen : (s.step c).keys.length ≤ UInt32.size) : Conserved (s.step c) := by
  cases c with
  | initFifo =>
      simp only [keys_length_step, FifoCall.isInitFifo, if_true] at hlen
      exact conserved_initFifo hc h (by omega)
  | write key data => exact conserved_write hc key data
  | read key buf => exact conserved_read hc key buf

theorem conserved_foldl (calls : List FifoCall) {s : FifoSystem} (hc : Conserved s) (h : Inv s)
    (hlen : (calls.foldl step s).keys.length ≤ UInt32.size) : Conserved (calls.foldl step s) := by
  induction calls generalizing s with
  | nil => exact hc
  | cons c cs ih =>
      rw [List.foldl_cons] at hlen ⊢
      -- the keys only grow, so the bound holds after the first call too
      have hlen₁ : (s.step c).keys.length ≤ UInt32.size := by
        rw [keys_length_foldl] at hlen
        omega
      exact ih (conserved_step hc h c hlen₁) (inv_step h c) hlen

/-! ## The FIFO calls on every run -/

/-- `os_init_fifo` never replaces a FIFO while fewer than `2^32` keys have
been handed out: the key it returns is new, and the pool holds no FIFO under
it. -/
theorem initFifo_key_fresh (calls : List FifoCall) (hlen : (run calls).keys.length < UInt32.size) :
    (osInitFifo (run calls).pool).1 ∉ (run calls).keys ∧
      (run calls).pool.fifos (osInitFifo (run calls).pool).1 = none :=
  (fifoInv_run calls).counter_fresh hlen

theorem initFifo_key_fresh_after_two_inits :
    (run [.initFifo, .initFifo]).keys.length < UInt32.size ∧
      (osInitFifo (run [.initFifo, .initFifo]).pool).1 ∉ (run [.initFifo, .initFifo]).keys ∧
      (run [.initFifo, .initFifo]).pool.fifos (osInitFifo (run [.initFifo, .initFifo]).pool).1 =
        none := by
  have hlen : (run [.initFifo, .initFifo]).keys.length < UInt32.size := by decide
  exact ⟨hlen, initFifo_key_fresh _ hlen⟩

/-- While no key has been handed out twice, the FIFOs lose, duplicate and
reorder no byte: on every key, the bytes the reads returned, followed by the
bytes still queued, are exactly the bytes the writes were accepted with. -/
theorem fifo_delivers_written_bytes (calls : List FifoCall)
    (hlen : (run calls).keys.length ≤ UInt32.size) (k : FifoKey) :
    (run calls).delivered k ++ ((run calls).pool.fifos k).getD [] = (run calls).written k :=
  conserved_foldl calls conserved_boot inv_boot hlen k

theorem fifo_delivers_written_bytes_after_two_reads :
    let calls : List FifoCall := [.initFifo, .write 1000 [1, 2, 3], .read 1000 [0, 0], .read 1000 [0, 0]]
    (run calls).keys.length ≤ UInt32.size ∧
      (run calls).delivered 1000 ++ ((run calls).pool.fifos 1000).getD [] =
        (run calls).written 1000 := by
  intro calls
  have hlen : (run calls).keys.length ≤ UInt32.size := by decide
  exact ⟨hlen, fifo_delivers_written_bytes calls hlen 1000⟩

end FifoSystem

end Ipc
end NoIdeaOS
