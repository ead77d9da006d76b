import Mathlib.Data.List.Nodup
import NoIdeaOS.Ipc.Fifo

/-!
# The FIFO calls, lock by lock

`os_write` extends a FIFO's queue under one acquisition of its lock, but
`os_read` takes the lock anew for each byte it pops, and the process can be
preempted between two bytes.  This module models the FIFO calls at that
granularity.  A run interleaves three kinds of step (`FifoEvent`): a whole
`os_write`; the start of an `os_read`, which looks the key up in the pool;
and one iteration of the loop of the `os_read` a process is in.
`os_init_fifo` takes the pool's write lock, which waits until no `os_read`
holds the read lock, so it is not a step of these runs; they start from any
pool.

Beside the pool, a state carries the history of the run: for each key the
stream of bytes its FIFO has queued (what it held at the start, then the
bytes of each accepted write), for each position of the stream popped so far
the number of the read that popped it, the accepted writes, and the reads
that returned, oldest first.

**Runs.**  `SharedFifos.Inv` holds from the start and after every step
(`inv_runEvents`): each queue is its stream past the bytes popped; each read
in its loop holds, in the cells before its index, the bytes it popped; each
read that returned `Ok(n)` holds them in its first `n` cells.

**Results.**
* `interleaved_reads_deliver_stream`: on every interleaving, each write's
  bytes lie together in the stream, each byte is popped by at most one read,
  and a read that returned `Ok(n)` stored in its first `n` cells the `n`
  bytes it popped, in stream order.  A read that no other reader interrupts
  returns at least `min(buf.len(), bytes queued at its start)` and at most
  that plus the bytes written meanwhile (`alone_read_bounds`);
  `alone_read_returns_more_than_queued` shows that a write in the middle of
  the read does raise the count.
* `read_uninterrupted_eq_osRead`: an `os_read` whose iterations run back to
  back does what `osRead` of `Fifo` does.
-/

namespace NoIdeaOS
namespace Ipc

/-! ## The bytes a read popped -/

section TakenBy

variable {α : Type}

/-- The elements of `stream` at the positions that `taker` labels `j`, in
order. -/
def takenBy : List α → List Nat → Nat → List α
  | x :: xs, t :: ts, j => if t = j then x :: takenBy xs ts j else takenBy xs ts j
  | _, _, _ => []

@[simp] theorem takenBy_nil_right (stream : List α) (j : Nat) : takenBy stream [] j = [] := by
  cases stream <;> rfl

theorem takenBy_sublist (stream : List α) (taker : List Nat) (j : Nat) :
    (takenBy stream taker j).Sublist stream := by
  induction taker generalizing stream with
  | nil => simp
  | cons t ts ih =>
      cases stream with
      | nil => exact .slnil
      | cons x xs =>
          simp only [takenBy]
          split
          · exact (ih xs).cons_cons x
          · exact (ih xs).cons x

theorem takenBy_of_forall_ne (stream : List α) {taker : List Nat} {j : Nat}
    (h : ∀ t ∈ taker, t ≠ j) : takenBy stream taker j = [] := by
  induction taker generalizing stream with
  | nil => simp
  | cons t ts ih =>
      cases stream with
      | nil => rfl
      | cons x xs =>
          simp only [takenBy, if_neg (h t List.mem_cons_self)]
          exact ih xs fun t' ht' => h t' (List.mem_cons_of_mem t ht')

/-- Bytes appended past the positions labelled so far change no label's bytes. -/
theorem takenBy_append_stream {stream : List α} {taker : List Nat} (data : List α) (j : Nat)
    (h : taker.length ≤ stream.length) :
    takenBy (stream ++ data) taker j = takenBy stream taker j := by
  induction taker generalizing stream with
  | nil => simp
  | cons t ts ih =>
      cases stream with
      | nil => simp at h
      | cons x xs =>
          simp only [List.cons_append, takenBy]
          rw [ih (by simpa using h)]

/-- Labelling the next position `i` adds its element to the bytes of `i` only. -/
theorem takenBy_push {stream : List α} {taker : List Nat} {c : α}
    (hc : stream[taker.length]? = some c) (i j : Nat) :
    takenBy stream (taker ++ [i]) j = takenBy stream taker j ++ if i = j then [c] else [] := by
  induction taker generalizing stream with
  | nil =>
      cases stream with
      | nil => simp at hc
      | cons x xs =>
          simp only [List.length_nil, List.getElem?_cons_zero, Option.some.injEq] at hc
          subst hc
          simp only [List.nil_append, takenBy, takenBy_nil_right]
  | cons t ts ih =>
      cases stream with
      | nil => simp at hc
      | cons x xs =>
          simp only [List.cons_append, takenBy]
          rw [ih (by simpa using hc)]
          split <;> rfl

/-- Setting the cell right after a prefix of length `i`. -/
theorem set_append_drop {pre l : List α} {i : Nat} (hpre : pre.length = i) (hi : i < l.length)
    (c : α) : (pre ++ l.drop i).set i c = (pre ++ [c]) ++ l.drop (i + 1) := by
  rw [List.set_append_right _ _ (Nat.le_of_eq hpre), hpre, Nat.sub_self,
    List.drop_eq_getElem_cons hi, List.set_cons_zero, List.append_assoc, List.singleton_append]

theorem take_set_add_one {l : List α} {i : Nat} (hi : i < l.length) (c : α) :
    (l.set i c).take (i + 1) = l.take i ++ [c] := by
  rw [List.take_add_one, List.take_set_of_le (Nat.le_refl _), List.getElem?_set_self hi]
  rfl

theorem drop_set_add_one (l : List α) (i : Nat) (c : α) :
    (l.set i c).drop (i + 1) = l.drop (i + 1) := by
  simp [List.drop_set]

end TakenBy

/-! ## The model -/

theorem FifoPool.eq_of_fifos {p p' : FifoPool} (hf : p.fifos = p'.fifos)
    (hc : p.fifoKeyCounter = p'.fifoKeyCounter) : p = p' := by
  cases p
  cases p'
  simp only [FifoPool.mk.injEq]
  exact ⟨hf, hc⟩

/-- `first.lock().pop_front()`: the byte at the front of the key's queue,
taken off it. -/
def popFront (p : FifoPool) (key : FifoKey) : Option UInt8 × FifoPool :=
  match p.fifos key with
  | some (c :: q) => (some c, { p with fifos := Function.update p.fifos key (some q) })
  | _ => (none, p)

/-- An `os_read` inside its loop: the key, the buffer and the index of the
next cell.  The buffer the call was given and the number of the call are
history. -/
structure ReadState where
  key : FifoKey
  buf : List UInt8
  idx : Nat
  bufIn : List UInt8
  readId : Nat
deriving DecidableEq

/-- Where an iteration of `os_read`'s loop leads: to the next one, or out of
the call with its value and buffer. -/
inductive ReadOutcome
  | next (r : ReadState)
  | returned (n : Nat) (buf : List UInt8)

/-- One iteration of `os_read`'s loop: past the last cell the loop ends with
`Ok(buf.len())`; otherwise the byte popped goes into cell `idx`, and an empty
queue ends the call with `Ok(idx)`. -/
def readIteration (p : FifoPool) (r : ReadState) : ReadOutcome × FifoPool :=
  if r.idx < r.buf.length then
    match popFront p r.key with
    | (some c, p') => (.next { r with buf := r.buf.set r.idx c, idx := r.idx + 1 }, p')
    | (none, p') => (.returned r.idx r.buf, p')
  else (.returned r.buf.length r.buf, p)

/-- The steps of the FIFO calls, each under one acquisition of a lock: a
whole `os_write`; the start of an `os_read` by a process; and one iteration
of the loop of the `os_read` a process is in. -/
inductive FifoEvent (ι : Type)
  | write (key : FifoKey) (data : List UInt8)
  | readStart (reader : ι) (key : FifoKey) (buf : List UInt8)
  | readNext (reader : ι)
deriving DecidableEq

/-- The event is a write, or an iteration of `r`'s loop: no other reader
moves. -/
def FifoEvent.writeOrNext {ι : Type} [DecidableEq ι] (r : ι) : FifoEvent ι → Bool
  | .write _ _ => true
  | .readStart _ _ _ => false
  | .readNext r' => decide (r' = r)

/-- The number of bytes the event writes to the key. -/
def FifoEvent.written {ι : Type} (key : FifoKey) : FifoEvent ι → Nat
  | .write k data => if k = key then data.length else 0
  | _ => 0

/-- The number of bytes the events write to the key. -/
def FifoEvent.writtenTo {ι : Type} (key : FifoKey) : List (FifoEvent ι) → Nat
  | [] => 0
  | e :: evs => e.written key + writtenTo key evs

/-- An `os_read` that returned: its caller and number, the key and buffer it
was given, its value and the buffer it left. -/
structure ReadRecord (ι : Type) where
  reader : ι
  readId : Nat
  key : FifoKey
  bufIn : List UInt8
  result : Except Unit Nat
  bufOut : List UInt8
deriving DecidableEq

/-- The pool, the `os_read` each process is in, and the history of the run. -/
structure SharedFifos (ι : Type) where
  pool : FifoPool
  reading : ι → Option ReadState
  stream : FifoKey → List UInt8
  taker : FifoKey → List Nat
  nextId : Nat
  writes : List (FifoKey × List UInt8)
  reads : List (ReadRecord ι)

namespace SharedFifos

variable {ι : Type}

/-- A run starts from any pool, with no process in `os_read`; each stream
starts as the queue's contents. -/
def start (p : FifoPool) : SharedFifos ι :=
  ⟨p, fun _ => none, fun k => (p.fifos k).getD [], fun _ => [], 0, [], []⟩

/-- The bytes of the key's stream that read `j` popped. -/
def taken (s : SharedFifos ι) (key : FifoKey) (j : Nat) : List UInt8 :=
  takenBy (s.stream key) (s.taker key) j

section Step

variable [DecidableEq ι]

def step (s : SharedFifos ι) : FifoEvent ι → SharedFifos ι
  | .write key data =>
      match osWrite s.pool key data with
      | (.ok (), pool) =>
          { s with
            pool := pool
            stream := Function.update s.stream key (s.stream key ++ data)
            writes := s.writes ++ [(key, data)] }
      | (.error (), pool) => { s with pool := pool }
  | .readStart r key buf =>
      match s.reading r with
      -- the process is inside another call
      | some _ => s
      | none =>
          match s.pool.fifos key with
          | none =>
              { s with
                nextId := s.nextId + 1
                reads := s.reads ++ [⟨r, s.nextId, key, buf, .error (), buf⟩] }
          | some _ =>
              { s with
                reading := Function.update s.reading r (some ⟨key, buf, 0, buf, s.nextId⟩)
                nextId := s.nextId + 1 }
  | .readNext r =>
      match s.reading r with
      | none => s
      | some a =>
          match readIteration s.pool a with
          | (.next a', pool) =>
              { s with
                pool := pool
                reading := Function.update s.reading r (some a')
                taker := Function.update s.taker a.key (s.taker a.key ++ [a.readId]) }
          | (.returned n buf, pool) =>
              { s with
                pool := pool
                reading := Function.update s.reading r none
                reads := s.reads ++ [⟨r, a.readId, a.key, a.bufIn, .ok n, buf⟩] }

def runEvents (s : SharedFifos ι) (evs : List (FifoEvent ι)) : SharedFifos ι :=
  evs.foldl step s

@[simp] theorem runEvents_nil (s : SharedFifos ι) : s.runEvents [] = s := rfl

@[simp] theorem runEvents_cons (s : SharedFifos ι) (e : FifoEvent ι) (evs : List (FifoEvent ι)) :
    s.runEvents (e :: evs) = (s.step e).runEvents evs := rfl

/-! ## What each step does -/

section Steps

variable {s : SharedFifos ι} {r : ι} {key : FifoKey} {a : ReadState} {q : List UInt8}

theorem step_write_of_some (hq : s.pool.fifos key = some q) (data : List UInt8) :
    s.step (.write key data) =
      { s with
        pool := { s.pool with fifos := Function.update s.pool.fifos key (some (q ++ data)) }
        stream := Function.update s.stream key (s.stream key ++ data)
        writes := s.writes ++ [(key, data)] } := by
  simp only [step, osWrite_of_some hq]

theorem step_write_of_none (hq : s.pool.fifos key = none) (data : List UInt8) :
    s.step (.write key data) = s := by
  simp only [step, osWrite_of_none hq]

/-- A process already inside a call starts no read. -/
theorem step_readStart_of_reading (h : s.reading r = some a) (key : FifoKey) (buf : List UInt8) :
    s.step (.readStart r key buf) = s := by
  simp only [step, h]

theorem step_readStart_of_none (h : s.reading r = none) (hq : s.pool.fifos key = none)
    (buf : List UInt8) :
    s.step (.readStart r key buf) =
      { s with
        nextId := s.nextId + 1
        reads := s.reads ++ [⟨r, s.nextId, key, buf, .error (), buf⟩] } := by
  simp only [step, h, hq]

theorem step_readStart_of_some (h : s.reading r = none) (hq : s.pool.fifos key = some q)
    (buf : List UInt8) :
    s.step (.readStart r key buf) =
      { s with
        reading := Function.update s.reading r (some ⟨key, buf, 0, buf, s.nextId⟩)
        nextId := s.nextId + 1 } := by
  simp only [step, h, hq]

theorem step_readNext_of_none (h : s.reading r = none) : s.step (.readNext r) = s := by
  simp only [step, h]

theorem step_readNext_pop (h : s.reading r = some a) (hidx : a.idx < a.buf.length) {c : UInt8}
    (hq : s.pool.fifos a.key = some (c :: q)) :
    s.step (.readNext r) =
      { s with
        pool := { s.pool with fifos := Function.update s.pool.fifos a.key (some q) }
        reading := Function.update s.reading r (some { a with buf := a.buf.set a.idx c, idx := a.idx + 1 })
        taker := Function.update s.taker a.key (s.taker a.key ++ [a.readId]) } := by
  simp only [step, h, readIteration, if_pos hidx, popFront, hq]

/-- An iteration that finds the queue empty returns `Ok(idx)`. -/
theorem step_readNext_empty (h : s.reading r = some a) (hidx : a.idx < a.buf.length)
    (hq : s.pool.fifos a.key = some []) :
    s.step (.readNext r) =
      { s with
        reading := Function.update s.reading r none
        reads := s.reads ++ [⟨r, a.readId, a.key, a.bufIn, .ok a.idx, a.buf⟩] } := by
  simp only [step, h, readIteration, if_pos hidx, popFront, hq]

/-- An iteration past the last cell returns `Ok(buf.len())`. -/
theorem step_readNext_full (h : s.reading r = some a) (hidx : a.buf.length ≤ a.idx) :
    s.step (.readNext r) =
      { s with
        reading := Function.update s.reading r none
        reads := s.reads ++ [⟨r, a.readId, a.key, a.bufIn, .ok a.buf.length, a.buf⟩] } := by
  simp only [step, h, readIteration, if_neg (Nat.not_lt.mpr hidx)]

end Steps

end Step

/-! ## The invariant -/

/-- A read inside its loop: its FIFO exists, the cells before `idx` hold, in
order, the bytes it popped, and the rest of the buffer is as passed. -/
structure ReadingOk (s : SharedFifos ι) (a : ReadState) : Prop where
  present : (s.pool.fifos a.key).isSome
  idx_le : a.idx ≤ a.bufIn.length
  length_taken : (s.taken a.key a.readId).length = a.idx
  buf_eq : a.buf = s.taken a.key a.readId ++ a.bufIn.drop a.idx
  lt_nextId : a.readId < s.nextId
  not_returned : ∀ ρ ∈ s.reads, ρ.readId ≠ a.readId

/-- A read that returned `Ok(n)` holds in its first `n` cells the `n` bytes
it popped, and the rest of its buffer as passed. -/
structure ReturnedOk (s : SharedFifos ι) (ρ : ReadRecord ι) (n : Nat) : Prop where
  length_taken : (s.taken ρ.key ρ.readId).length = n
  le_length : n ≤ ρ.bufIn.length
  bufOut_eq : ρ.bufOut = s.taken ρ.key ρ.readId ++ ρ.bufIn.drop n

/-- The invariant of every run: each queue is its stream past the positions
popped, every read has its own number, and the reads in their loops and
those that returned hold what `ReadingOk` and `ReturnedOk` say. -/
structure Inv (s : SharedFifos ι) : Prop where
  queue : ∀ k q, s.pool.fifos k = some q →
    (s.taker k).length ≤ (s.stream k).length ∧ q = (s.stream k).drop (s.taker k).length
  taker_lt : ∀ k, ∀ j ∈ s.taker k, j < s.nextId
  reading : ∀ r a, s.reading r = some a → ReadingOk s a
  reading_inj : ∀ r r' a a', s.reading r = some a → s.reading r' = some a' →
    a.readId = a'.readId → r = r'
  reads_lt : ∀ ρ ∈ s.reads, ρ.readId < s.nextId
  reads_nodup : (s.reads.map (·.readId)).Nodup
  returned : ∀ ρ ∈ s.reads, ∀ n, ρ.result = .ok n → ReturnedOk s ρ n

section Invariant

variable {s s' : SharedFifos ι}

theorem ReadingOk.length_buf {a : ReadState} (h : ReadingOk s a) : a.buf.length = a.bufIn.length := by
  rw [h.buf_eq, List.length_append, h.length_taken, List.length_drop]
  have := h.idx_le
  omega

/-- A step that keeps a read's FIFO and bytes, and adds only reads of other
numbers, keeps `ReadingOk`. -/
theorem ReadingOk.mono {a : ReadState} (h : ReadingOk s a) (hpresent : (s'.pool.fifos a.key).isSome)
    (htaken : s'.taken a.key a.readId = s.taken a.key a.readId) (hnext : s.nextId ≤ s'.nextId)
    (hreads : ∀ ρ ∈ s'.reads, ρ ∈ s.reads ∨ ρ.readId ≠ a.readId) : ReadingOk s' a where
  present := hpresent
  idx_le := h.idx_le
  length_taken := htaken ▸ h.length_taken
  buf_eq := htaken ▸ h.buf_eq
  lt_nextId := Nat.lt_of_lt_of_le h.lt_nextId hnext
  not_returned ρ hρ := (hreads ρ hρ).elim (h.not_returned ρ) id

theorem ReturnedOk.mono {ρ : ReadRecord ι} {n : Nat} (h : ReturnedOk s ρ n)
    (htaken : s'.taken ρ.key ρ.readId = s.taken ρ.key ρ.readId) : ReturnedOk s' ρ n where
  length_taken := htaken ▸ h.length_taken
  le_length := h.le_length
  bufOut_eq := htaken ▸ h.bufOut_eq

theorem inv_start (p : FifoPool) : Inv (start (ι := ι) p) where
  queue k q hq := by
    simp only [start] at hq
    simp [start, hq]
  taker_lt := by simp [start]
  reading := by simp [start]
  reading_inj := by simp [start]
  reads_lt := by simp [start]
  reads_nodup := by simp [start]
  returned := by simp [start]

end Invariant

/-! ## Every step keeps the invariant -/

section Preservation

variable {s : SharedFifos ι}

/-- Replacing the read of `r` keeps the reads in their loops apart by
number, when the new read's number is no other process's. -/
theorem readIds_apart_update [DecidableEq ι] {reading : ι → Option ReadState}
    (h : ∀ r r' a a', reading r = some a → reading r' = some a' → a.readId = a'.readId → r = r')
    (r : ι) {o : Option ReadState}
    (ho : ∀ b ∈ o, ∀ r' a', r' ≠ r → reading r' = some a' → b.readId ≠ a'.readId) :
    ∀ r₁ r₂ a₁ a₂, Function.update reading r o r₁ = some a₁ →
      Function.update reading r o r₂ = some a₂ → a₁.readId = a₂.readId → r₁ = r₂ := by
  intro r₁ r₂ a₁ a₂ h₁ h₂ hid
  by_cases hr₁ : r₁ = r <;> by_cases hr₂ : r₂ = r
  · exact hr₁.trans hr₂.symm
  · subst hr₁
    rw [Function.update_self] at h₁
    rw [Function.update_of_ne hr₂] at h₂
    exact absurd hid (ho a₁ h₁ r₂ a₂ hr₂ h₂)
  · subst hr₂
    rw [Function.update_self] at h₂
    rw [Function.update_of_ne hr₁] at h₁
    exact absurd hid.symm (ho a₂ h₂ r₁ a₁ hr₁ h₁)
  · rw [Function.update_of_ne hr₁] at h₁
    rw [Function.update_of_ne hr₂] at h₂
    exact h r₁ r₂ a₁ a₂ h₁ h₂ hid

/-- A returned read whose number no returned read has keeps the numbers of
the returned reads apart. -/
theorem readIds_nodup_append {reads : List (ReadRecord ι)} (hnodup : (reads.map (·.readId)).Nodup)
    {ρ₀ : ReadRecord ι} (hfresh : ∀ ρ ∈ reads, ρ.readId ≠ ρ₀.readId) :
    ((reads ++ [ρ₀]).map (·.readId)).Nodup := by
  rw [List.map_append, List.map_singleton, ← List.concat_eq_append]
  refine hnodup.concat ?_
  simp only [List.mem_map, not_exists, not_and]
  exact hfresh

/-- An accepted write appends to the queue and the stream alike, past every
position popped, so no read's bytes change. -/
theorem Inv.write [DecidableEq ι] (h : Inv s) (key : FifoKey) (data : List UInt8) : Inv (s.step (.write key data)) := by
  cases hq : s.pool.fifos key with
  | none => rwa [step_write_of_none hq]
  | some q =>
      rw [step_write_of_some hq]
      have hle := (h.queue key q hq).1
      have htaken : ∀ k j, takenBy (Function.update s.stream key (s.stream key ++ data) k)
          (s.taker k) j = s.taken k j := by
        intro k j
        by_cases hk : k = key
        · subst hk
          rw [Function.update_self]
          exact takenBy_append_stream data j hle
        · rw [Function.update_of_ne hk]
          rfl
      have hpresent := isSome_update_some (Option.isSome_iff_exists.mpr ⟨_, hq⟩) (q ++ data)
      refine ⟨fun k q' hq' => ?_, h.taker_lt, fun r a hr => ?_, h.reading_inj, h.reads_lt,
        h.reads_nodup, fun ρ hρ n hn => (h.returned ρ hρ n hn).mono (htaken _ _)⟩
      · by_cases hk : k = key
        · subst hk
          obtain ⟨hle, hdrop⟩ := h.queue k q hq
          simp only [Function.update_self, Option.some.injEq] at hq' ⊢
          refine ⟨by simp only [List.length_append]; omega, ?_⟩
          rw [← hq', hdrop, List.drop_append_of_le_length hle]
        · simp only [Function.update_of_ne hk] at hq' ⊢
          exact h.queue k q' hq'
      · exact (h.reading r a hr).mono ((hpresent a.key).trans (h.reading r a hr).present)
          (htaken _ _) (Nat.le_refl _) fun ρ hρ => .inl hρ

/-- A read of a missing key returns `Err(())` under a fresh number. -/
theorem Inv.readStart_missing (h : Inv s) {r : ι} {key : FifoKey} (buf : List UInt8) :
    Inv { s with
      nextId := s.nextId + 1
      reads := s.reads ++ [⟨r, s.nextId, key, buf, .error (), buf⟩] } := by
  refine ⟨h.queue, fun k j hj => Nat.lt_succ_of_lt (h.taker_lt k j hj), fun r' a hr => ?_,
    h.reading_inj, fun ρ hρ => ?_, ?_, fun ρ hρ n hn => ?_⟩
  · have ha := h.reading r' a hr
    refine ha.mono ha.present rfl (Nat.le_succ _) fun ρ hρ => ?_
    rcases List.mem_append.mp hρ with hρ | hρ
    · exact .inl hρ
    · rw [List.mem_singleton.mp hρ]
      exact .inr (Nat.ne_of_gt ha.lt_nextId)
  · rcases List.mem_append.mp hρ with hρ | hρ
    · exact Nat.lt_succ_of_lt (h.reads_lt ρ hρ)
    · rw [List.mem_singleton.mp hρ]
      exact Nat.lt_succ_self _
  · exact readIds_nodup_append h.reads_nodup fun ρ hρ => Nat.ne_of_lt (h.reads_lt ρ hρ)
  · rcases List.mem_append.mp hρ with hρ | hρ
    · exact (h.returned ρ hρ n hn).mono rfl
    · rw [List.mem_singleton.mp hρ] at hn
      cases hn

/-- A read of an existing key enters its loop under a fresh number, with no
byte popped yet. -/
theorem Inv.readStart_present [DecidableEq ι] (h : Inv s) {r : ι} (hr : s.reading r = none) {key : FifoKey}
    (hpresent : (s.pool.fifos key).isSome) (buf : List UInt8) :
    Inv { s with
      reading := Function.update s.reading r (some ⟨key, buf, 0, buf, s.nextId⟩)
      nextId := s.nextId + 1 } := by
  -- every number in use is below `nextId`, so the new read's number is fresh
  have hnone : takenBy (s.stream key) (s.taker key) s.nextId = [] :=
    takenBy_of_forall_ne _ fun j hj => Nat.ne_of_lt (h.taker_lt key j hj)
  have hnew : ReadingOk { s with
      reading := Function.update s.reading r (some ⟨key, buf, 0, buf, s.nextId⟩)
      nextId := s.nextId + 1 } ⟨key, buf, 0, buf, s.nextId⟩ :=
    ⟨hpresent, Nat.zero_le _, by simp only [taken, hnone, List.length_nil],
      by simp only [taken, hnone, List.nil_append, List.drop_zero], Nat.lt_succ_self _,
      fun ρ hρ => Nat.ne_of_lt (h.reads_lt ρ hρ)⟩
  have happart : ∀ b ∈ some (⟨key, buf, 0, buf, s.nextId⟩ : ReadState), ∀ r' a', r' ≠ r →
      s.reading r' = some a' → b.readId ≠ a'.readId := by
    intro b hb r' a' _ hr'
    rw [Option.mem_some_iff] at hb
    subst hb
    exact Nat.ne_of_gt (h.reading r' a' hr').lt_nextId
  refine ⟨h.queue, fun k j hj => Nat.lt_succ_of_lt (h.taker_lt k j hj), fun r' a hr' => ?_,
    readIds_apart_update h.reading_inj r happart, fun ρ hρ => Nat.lt_succ_of_lt (h.reads_lt ρ hρ),
    h.reads_nodup, fun ρ hρ n hn => (h.returned ρ hρ n hn).mono rfl⟩
  by_cases hrr : r' = r
  · subst hrr
    simp only [Function.update_self, Option.some.injEq] at hr'
    exact hr' ▸ hnew
  · simp only [Function.update_of_ne hrr] at hr'
    have ha := h.reading r' a hr'
    exact ha.mono ha.present rfl (Nat.le_succ _) fun ρ hρ => .inl hρ

/-- A read that pops a byte stores it in its next cell, and the byte's
position is labelled with the read's number. -/
theorem Inv.pop [DecidableEq ι] (h : Inv s) {r : ι} {a : ReadState} (hr : s.reading r = some a)
    (hidx : a.idx < a.buf.length) {c : UInt8} {q : List UInt8}
    (hq : s.pool.fifos a.key = some (c :: q)) :
    Inv { s with
      pool := { s.pool with fifos := Function.update s.pool.fifos a.key (some q) }
      reading := Function.update s.reading r
        (some { a with buf := a.buf.set a.idx c, idx := a.idx + 1 })
      taker := Function.update s.taker a.key (s.taker a.key ++ [a.readId]) } := by
  have ha := h.reading r a hr
  obtain ⟨-, hdrop⟩ := h.queue a.key (c :: q) hq
  have hc : (s.stream a.key)[(s.taker a.key).length]? = some c := by
    rw [← Nat.add_zero (s.taker a.key).length, ← List.getElem?_drop, ← hdrop]
    rfl
  have hlt := (List.getElem?_eq_some_iff.mp hc).1
  have htaken : ∀ k j, takenBy (s.stream k)
      (Function.update s.taker a.key (s.taker a.key ++ [a.readId]) k) j =
        s.taken k j ++ if k = a.key ∧ a.readId = j then [c] else [] := by
    intro k j
    by_cases hk : k = a.key
    · subst hk
      rw [Function.update_self, takenBy_push hc]
      simp [taken]
    · rw [Function.update_of_ne hk, if_neg fun h => hk h.1, List.append_nil]
      rfl
  have hother : ∀ k j, j ≠ a.readId → takenBy (s.stream k)
      (Function.update s.taker a.key (s.taker a.key ++ [a.readId]) k) j = s.taken k j := by
    intro k j hj
    rw [htaken, if_neg fun h => hj h.2.symm, List.append_nil]
  have hpresent := isSome_update_some (Option.isSome_iff_exists.mpr ⟨_, hq⟩) q
  have happart : ∀ b ∈ some ({ a with buf := a.buf.set a.idx c, idx := a.idx + 1 } : ReadState),
      ∀ r' a', r' ≠ r → s.reading r' = some a' → b.readId ≠ a'.readId := by
    intro b hb r' a' hne hr' hid
    rw [Option.mem_some_iff] at hb
    subst hb
    exact hne (h.reading_inj r' r a' a hr' hr hid.symm)
  refine ⟨fun k q' hq' => ?_, fun k j hj => ?_, fun r' a' hr' => ?_,
    readIds_apart_update h.reading_inj r happart, h.reads_lt, h.reads_nodup, fun ρ hρ n hn =>
      (h.returned ρ hρ n hn).mono (hother _ _ (ha.not_returned ρ hρ))⟩
  · by_cases hk : k = a.key
    · subst hk
      simp only [Function.update_self, Option.some.injEq, List.length_append,
        List.length_singleton] at hq' ⊢
      refine ⟨hlt, ?_⟩
      rw [← hq', ← List.drop_drop, ← hdrop]
      rfl
    · simp only [Function.update_of_ne hk] at hq' ⊢
      exact h.queue k q' hq'
  · by_cases hk : k = a.key
    · subst hk
      simp only [Function.update_self, List.mem_append, List.mem_singleton] at hj
      rcases hj with hj | rfl
      · exact h.taker_lt _ j hj
      · exact ha.lt_nextId
    · simp only [Function.update_of_ne hk] at hj
      exact h.taker_lt k j hj
  · by_cases hrr : r' = r
    · -- the popping read: one more byte, in cell `idx`
      subst hrr
      simp only [Function.update_self, Option.some.injEq] at hr'
      subst hr'
      have hself : takenBy (s.stream a.key)
          (Function.update s.taker a.key (s.taker a.key ++ [a.readId]) a.key) a.readId =
            s.taken a.key a.readId ++ [c] := by
        rw [htaken a.key a.readId, if_pos ⟨rfl, rfl⟩]
      refine ⟨by simp, by rw [← ha.length_buf]; exact hidx, ?_, ?_, ha.lt_nextId, ha.not_returned⟩
      · change (takenBy _ _ _).length = _
        rw [hself, List.length_append, ha.length_taken, List.length_singleton]
      · change _ = takenBy _ _ _ ++ _
        rw [hself, ha.buf_eq]
        exact set_append_drop ha.length_taken (ha.length_buf ▸ hidx) c
    · simp only [Function.update_of_ne hrr] at hr'
      have ha' := h.reading r' a' hr'
      have hne : a'.readId ≠ a.readId := fun hid => hrr (h.reading_inj r' r a' a hr' hr hid)
      exact ha'.mono ((hpresent a'.key).trans ha'.present) (hother _ _ hne) (Nat.le_refl _)
        fun ρ hρ => .inl hρ

/-- A read that returns `Ok(idx)` leaves its loop, with the bytes it popped
in its first `idx` cells. -/
theorem Inv.finish [DecidableEq ι] (h : Inv s) {r : ι} {a : ReadState} (hr : s.reading r = some a) :
    Inv { s with
      reading := Function.update s.reading r none
      reads := s.reads ++ [⟨r, a.readId, a.key, a.bufIn, .ok a.idx, a.buf⟩] } := by
  have ha := h.reading r a hr
  refine ⟨h.queue, h.taker_lt, fun r' a' hr' => ?_,
    readIds_apart_update h.reading_inj r fun b hb => absurd hb (Option.not_mem_none b),
    fun ρ hρ => ?_, ?_, fun ρ hρ n hn => ?_⟩
  · by_cases hrr : r' = r
    · subst hrr
      simp at hr'
    · simp only [Function.update_of_ne hrr] at hr'
      have ha' := h.reading r' a' hr'
      refine ha'.mono ha'.present rfl (Nat.le_refl _) fun ρ hρ => ?_
      rcases List.mem_append.mp hρ with hρ | hρ
      · exact .inl hρ
      · rw [List.mem_singleton.mp hρ]
        exact .inr fun hid => hrr (h.reading_inj r' r a' a hr' hr hid.symm)
  · rcases List.mem_append.mp hρ with hρ | hρ
    · exact h.reads_lt ρ hρ
    · rw [List.mem_singleton.mp hρ]
      exact ha.lt_nextId
  · exact readIds_nodup_append h.reads_nodup ha.not_returned
  · rcases List.mem_append.mp hρ with hρ | hρ
    · exact (h.returned ρ hρ n hn).mono rfl
    · rw [List.mem_singleton] at hρ
      subst hρ
      simp only [Except.ok.injEq] at hn
      subst hn
      exact ⟨ha.length_taken, ha.idx_le, ha.buf_eq⟩

theorem inv_step [DecidableEq ι] (h : Inv s) (e : FifoEvent ι) : Inv (s.step e) := by
  cases e with
  | write key data => exact h.write key data
  | readStart r key buf =>
      cases hr : s.reading r with
      | some a => rwa [step_readStart_of_reading hr]
      | none =>
          cases hq : s.pool.fifos key with
          | none =>
              rw [step_readStart_of_none hr hq]
              exact h.readStart_missing buf
          | some q =>
              rw [step_readStart_of_some hr hq]
              exact h.readStart_present hr (by simp [hq]) buf
  | readNext r =>
      cases hr : s.reading r with
      | none => rwa [step_readNext_of_none hr]
      | some a =>
          have ha := h.reading r a hr
          by_cases hidx : a.idx < a.buf.length
          · obtain ⟨q₀, hq₀⟩ := Option.isSome_iff_exists.mp ha.present
            cases q₀ with
            | nil =>
                rw [step_readNext_empty hr hidx hq₀]
                exact h.finish hr
            | cons c q =>
                rw [step_readNext_pop hr hidx hq₀]
                exact h.pop hr hidx hq₀
          · -- past the last cell the index is the buffer's length
            have hfull : a.buf.length = a.idx := by
              have := ha.length_buf
              have := ha.idx_le
              omega
            rw [step_readNext_full hr (Nat.not_lt.mp hidx), hfull]
            exact h.finish hr

theorem inv_runEvents [DecidableEq ι] (h : Inv s) (evs : List (FifoEvent ι)) :
    Inv (s.runEvents evs) := by
  induction evs generalizing s with
  | nil => exact h
  | cons e evs ih => exact ih (inv_step h e)

end Preservation

/-! ## The streams -/

/-- Each stream is what its FIFO held at the start, then the bytes of each
accepted write to it, whole and in order. -/
def StreamOf (p₀ : FifoPool) (s : SharedFifos ι) : Prop :=
  ∀ k, s.stream k = (p₀.fifos k).getD [] ++ ((s.writes.filter (·.1 == k)).map (·.2)).flatten

theorem streamOf_start (p₀ : FifoPool) : StreamOf p₀ (start (ι := ι) p₀) := by
  intro k
  simp [start]

section Streams

variable [DecidableEq ι] {s : SharedFifos ι} {p₀ : FifoPool}

theorem stream_writes_readStart (r : ι) (key : FifoKey) (buf : List UInt8) :
    (s.step (.readStart r key buf)).stream = s.stream ∧
      (s.step (.readStart r key buf)).writes = s.writes := by
  simp only [step]
  split
  · exact ⟨rfl, rfl⟩
  · split <;> exact ⟨rfl, rfl⟩

theorem stream_writes_readNext (r : ι) :
    (s.step (.readNext r)).stream = s.stream ∧ (s.step (.readNext r)).writes = s.writes := by
  simp only [step]
  split
  · exact ⟨rfl, rfl⟩
  · split <;> exact ⟨rfl, rfl⟩

theorem streamOf_step (h : StreamOf p₀ s) (e : FifoEvent ι) : StreamOf p₀ (s.step e) := by
  cases e with
  | write key data =>
      cases hq : s.pool.fifos key with
      | none => rwa [step_write_of_none hq]
      | some q =>
          rw [step_write_of_some hq]
          intro k
          by_cases hk : k = key
          · subst hk
            simp [h k]
          · simp [Function.update_of_ne hk, h k, Ne.symm hk]
  | readStart r key buf =>
      obtain ⟨hs, hw⟩ := stream_writes_readStart (s := s) r key buf
      intro k
      rw [hs, hw]
      exact h k
  | readNext r =>
      obtain ⟨hs, hw⟩ := stream_writes_readNext (s := s) r
      intro k
      rw [hs, hw]
      exact h k

theorem streamOf_runEvents (h : StreamOf p₀ s) (evs : List (FifoEvent ι)) :
    StreamOf p₀ (s.runEvents evs) := by
  induction evs generalizing s with
  | nil => exact h
  | cons e evs ih => exact ih (streamOf_step h e)

end Streams

/-! ## A read that no other reader interrupts -/

/-- Along a read of `key` by `r` that started in `s₀` with `avail` bytes
queued, `w` bytes having been written since: either the read is in its
loop, its index and the bytes queued adding up to `avail + w`, or it has
returned, its count between `min(buf.len(), avail)` and
`min(buf.len(), avail + w)`. -/
def AloneRead (s₀ : SharedFifos ι) (r : ι) (key : FifoKey) (buf : List UInt8) (avail w : Nat)
    (s : SharedFifos ι) : Prop :=
  (∃ a q, s.reading r = some a ∧ a.key = key ∧ a.buf.length = buf.length ∧
      s.pool.fifos key = some q ∧ a.idx + q.length = avail + w ∧ s.reads = s₀.reads) ∨
    (∃ ρ n, s.reads = s₀.reads ++ [ρ] ∧ ρ.result = .ok n ∧ min buf.length avail ≤ n ∧
      n ≤ min buf.length (avail + w) ∧ s.reading r = none)

/-- Once the read has returned, later writes only loosen its upper bound. -/
theorem AloneRead.returned_mono {s₀ s : SharedFifos ι} {r : ι} {key : FifoKey}
    {buf : List UInt8} {avail w w' : Nat} (hw : w ≤ w')
    (h : ∃ ρ n, s.reads = s₀.reads ++ [ρ] ∧ ρ.result = .ok n ∧ min buf.length avail ≤ n ∧
      n ≤ min buf.length (avail + w) ∧ s.reading r = none) :
    AloneRead s₀ r key buf avail w' s := by
  obtain ⟨ρ, n, hreads, hn, hlo, hhi, hr⟩ := h
  exact .inr ⟨ρ, n, hreads, hn, hlo, by omega, hr⟩

section Alone

variable [DecidableEq ι] {s₀ s : SharedFifos ι} {r : ι} {key : FifoKey} {buf : List UInt8}
  {avail w : Nat}

theorem write_reads_reading (key' : FifoKey) (data : List UInt8) :
    (s.step (.write key' data)).reads = s.reads ∧ (s.step (.write key' data)).reading = s.reading := by
  simp only [step]
  split <;> exact ⟨rfl, rfl⟩

theorem aloneRead_write (h : AloneRead s₀ r key buf avail w s) (key' : FifoKey)
    (data : List UInt8) :
    AloneRead s₀ r key buf avail (w + (FifoEvent.write key' data : FifoEvent ι).written key)
      (s.step (.write key' data)) := by
  obtain ⟨hreads, hreading⟩ := write_reads_reading (s := s) key' data
  rcases h with ⟨a, q, hr, hkey, hlen, hq, hsum, hreads₀⟩ | hret
  · cases hq' : s.pool.fifos key' with
    | none =>
        have hne : key' ≠ key := fun hk => by simp [hk, hq] at hq'
        rw [step_write_of_none hq']
        exact .inl ⟨a, q, hr, hkey, hlen, hq, by simp [FifoEvent.written, hne, hsum], hreads₀⟩
    | some q' =>
        rw [step_write_of_some hq']
        by_cases hk : key' = key
        · subst hk
          rw [hq] at hq'
          cases hq'
          refine .inl ⟨a, q ++ data, hr, hkey, hlen, by simp, ?_, hreads₀⟩
          simp only [FifoEvent.written, if_pos, List.length_append]
          omega
        · refine .inl ⟨a, q, hr, hkey, hlen, ?_, by simp [FifoEvent.written, hk, hsum], hreads₀⟩
          simp only [Function.update_of_ne (Ne.symm hk), hq]
  · rw [← hreads, ← hreading] at hret
    exact AloneRead.returned_mono (Nat.le_add_right _ _) hret

theorem aloneRead_readNext (h : AloneRead s₀ r key buf avail w s) :
    AloneRead s₀ r key buf avail w (s.step (.readNext r)) := by
  rcases h with ⟨a, q, hr, rfl, hlen, hq, hsum, hreads₀⟩ | hret
  · by_cases hidx : a.idx < a.buf.length
    · cases q with
      | nil =>
          -- the queue is empty: the read returns all the bytes it could have seen
          rw [step_readNext_empty hr hidx hq]
          refine .inr ⟨_, a.idx, by rw [hreads₀], rfl, ?_, ?_, by simp⟩
          · simp only [List.length_nil, Nat.add_zero] at hsum
            omega
          · simp only [List.length_nil, Nat.add_zero] at hsum
            omega
      | cons c q =>
          rw [step_readNext_pop hr hidx hq]
          refine .inl ⟨{ a with buf := a.buf.set a.idx c, idx := a.idx + 1 }, q, by simp, rfl,
            by simp [hlen], by simp, ?_, hreads₀⟩
          simp only [List.length_cons] at hsum
          show a.idx + 1 + q.length = avail + w
          omega
    · rw [step_readNext_full hr (Nat.not_lt.mp hidx)]
      refine .inr ⟨_, a.buf.length, by rw [hreads₀], rfl, ?_, ?_, by simp⟩
      · omega
      · omega
  · obtain ⟨ρ, n, hreads, hn, hlo, hhi, hr⟩ := hret
    rw [step_readNext_of_none hr]
    exact .inr ⟨ρ, n, hreads, hn, hlo, hhi, hr⟩

theorem aloneRead_runEvents (h : AloneRead s₀ r key buf avail w s) (evs : List (FifoEvent ι))
    (hevs : ∀ e ∈ evs, e.writeOrNext r) :
    AloneRead s₀ r key buf avail (w + FifoEvent.writtenTo key evs) (s.runEvents evs) := by
  induction evs generalizing s w with
  | nil => simpa [FifoEvent.writtenTo] using h
  | cons e evs ih =>
      have he := hevs e List.mem_cons_self
      have hstep : AloneRead s₀ r key buf avail (w + e.written key) (s.step e) := by
        cases e with
        | write key' data => exact aloneRead_write h key' data
        | readStart r' key' buf' => simp [FifoEvent.writeOrNext] at he
        | readNext r' =>
            simp only [FifoEvent.writeOrNext, decide_eq_true_eq] at he
            subst he
            simpa [FifoEvent.written] using aloneRead_readNext h
      have := ih hstep fun e' he' => hevs e' (List.mem_cons_of_mem e he')
      simpa [FifoEvent.writtenTo, Nat.add_assoc] using this

/-- A read that no other reader interrupts returns at least
`min(buf.len(), bytes queued at its start)` and at most that count plus the
bytes written to its FIFO meanwhile. -/
theorem alone_read_bounds (hr : s.reading r = none) {q : List UInt8}
    (hq : s.pool.fifos key = some q) (evs : List (FifoEvent ι)) (hevs : ∀ e ∈ evs, e.writeOrNext r)
    {ρ : ReadRecord ι} (hρ : ((s.step (.readStart r key buf)).runEvents evs).reads = s.reads ++ [ρ])
    {n : Nat} (hn : ρ.result = .ok n) :
    min buf.length q.length ≤ n ∧
      n ≤ min buf.length (q.length + FifoEvent.writtenTo key evs) := by
  have hstart : AloneRead s r key buf q.length 0 (s.step (.readStart r key buf)) := by
    rw [step_readStart_of_some hr hq]
    exact .inl ⟨⟨key, buf, 0, buf, s.nextId⟩, q, by simp, rfl, rfl, hq, by simp, rfl⟩
  rcases aloneRead_runEvents hstart evs hevs with ⟨-, -, -, -, -, -, -, hreads⟩ |
    ⟨ρ', n', hreads, hn', hlo, hhi, -⟩
  · rw [hreads] at hρ
    simpa using congrArg List.length hρ
  · rw [hρ, List.append_cancel_left_eq, List.singleton_inj] at hreads
    subst hreads
    rw [hn, Except.ok.injEq] at hn'
    subst hn'
    exact ⟨hlo, by simpa using hhi⟩

end Alone

/-! ## The FIFO calls on every interleaving -/

/-- On every interleaving of `os_write` calls and iterations of `os_read`
loops, from any pool: each stream is what its FIFO held, then the bytes of
each accepted write, whole and in order; each queue is its stream past the
positions popped; no position is popped by two reads; and a read that
returned `Ok(n)` stored in its first `n` cells the `n` bytes it popped, in
stream order, leaving the rest of its buffer as passed.  A read that starts
at any point of the run and that no other reader interrupts returns at
least `min(buf.len(), bytes queued)` and at most `min(buf.len(), bytes
queued + bytes written meanwhile)`. -/
theorem interleaved_reads_deliver_stream [DecidableEq ι] (p₀ : FifoPool)
    (evs : List (FifoEvent ι)) :
    let s := (start p₀).runEvents evs
    (∀ k, s.stream k = (p₀.fifos k).getD [] ++ ((s.writes.filter (·.1 == k)).map (·.2)).flatten) ∧
    (∀ k q, s.pool.fifos k = some q → q = (s.stream k).drop (s.taker k).length) ∧
    (∀ ρ ∈ s.reads, ∀ ρ' ∈ s.reads, ∀ k (i : Nat), (s.taker k)[i]? = some ρ.readId →
      (s.taker k)[i]? = some ρ'.readId → ρ = ρ') ∧
    (∀ ρ ∈ s.reads, ∀ n, ρ.result = .ok n →
      (s.taken ρ.key ρ.readId).Sublist (s.stream ρ.key) ∧ (s.taken ρ.key ρ.readId).length = n ∧
        n ≤ ρ.bufIn.length ∧ ρ.bufOut = s.taken ρ.key ρ.readId ++ ρ.bufIn.drop n) ∧
    (∀ r key buf q evs', s.reading r = none → s.pool.fifos key = some q →
      (∀ e ∈ evs', e.writeOrNext r) → ∀ ρ,
        ((s.step (.readStart r key buf)).runEvents evs').reads = s.reads ++ [ρ] →
          ∀ n, ρ.result = .ok n → min buf.length q.length ≤ n ∧
            n ≤ min buf.length (q.length + FifoEvent.writtenTo key evs')) := by
  intro s
  have hinv : Inv s := inv_runEvents (inv_start p₀) evs
  refine ⟨streamOf_runEvents (streamOf_start p₀) evs, fun k q hq => (hinv.queue k q hq).2,
    fun ρ hρ ρ' hρ' k i h₁ h₂ => ?_, fun ρ hρ n hn => ?_,
    fun r key buf q evs' hr hq hevs ρ hρ n hn => alone_read_bounds hr hq evs' hevs hρ hn⟩
  · -- a position has one label, and no two reads share a number
    rw [h₁, Option.some.injEq] at h₂
    exact List.inj_on_of_nodup_map hinv.reads_nodup hρ hρ' h₂
  · have hret := hinv.returned ρ hρ n hn
    exact ⟨takenBy_sublist _ _ _, hret.length_taken, hret.le_length, hret.bufOut_eq⟩

/-- One byte queued, a read into two cells, and a write between its two
iterations: the read returns `Ok(2)`, between `min(2, 1)` and `min(2, 1 + 1)`. -/
theorem interleaved_reads_deliver_stream_with_late_write :
    let p₀ := (osWrite (osInitFifo FifoPool.boot).2 1000 [7]).2
    let s : SharedFifos Nat := (start p₀).runEvents []
    let evs' : List (FifoEvent Nat) := [.readNext 0, .write 1000 [8], .readNext 0, .readNext 0]
    let ρ : ReadRecord Nat := ⟨0, 0, 1000, [0, 0], .ok 2, [7, 8]⟩
    s.reading 0 = none ∧ s.pool.fifos 1000 = some [7] ∧ (∀ e ∈ evs', e.writeOrNext 0) ∧
      ((s.step (.readStart 0 1000 [0, 0])).runEvents evs').reads = s.reads ++ [ρ] ∧
      min [0, 0].length [7].length ≤ 2 ∧
        2 ≤ min [0, 0].length ([7].length + FifoEvent.writtenTo 1000 evs') := by
  intro p₀ s evs' ρ
  have hr : s.reading 0 = none := rfl
  have hq : s.pool.fifos 1000 = some [7] := by decide
  have hevs : ∀ e ∈ evs', e.writeOrNext 0 := by decide
  have hρ : ((s.step (.readStart 0 1000 [0, 0])).runEvents evs').reads = s.reads ++ [ρ] := by
    decide
  exact ⟨hr, hq, hevs, hρ, (interleaved_reads_deliver_stream p₀ []).2.2.2.2 0 1000 [0, 0] [7] evs'
    hr hq hevs ρ hρ 2 rfl⟩

/-- The count is not `min(buf.len(), bytes available)` at the call: with one
byte queued and no other reader, a write between the read's two iterations
makes a read into two cells return `Ok(2)`, not `min(2, 1)`. -/
theorem alone_read_returns_more_than_queued :
    let p₀ := (osWrite (osInitFifo FifoPool.boot).2 1000 [7]).2
    let s : SharedFifos Nat := start p₀
    let evs' : List (FifoEvent Nat) := [.readNext 0, .write 1000 [8], .readNext 0, .readNext 0]
    s.reading 0 = none ∧ s.pool.fifos 1000 = some [7] ∧ (∀ e ∈ evs', e.writeOrNext 0) ∧
      ((s.step (.readStart 0 1000 [0, 0])).runEvents evs').reads =
        [⟨0, 0, 1000, [0, 0], .ok 2, [7, 8]⟩] ∧
      2 ≠ min [0, 0].length [7].length := by
  decide

/-! ## A read that runs uninterrupted -/

section Uninterrupted

variable [DecidableEq ι]

theorem runEvents_readNext_of_none {s : SharedFifos ι} {r : ι} (hr : s.reading r = none) (k : Nat) :
    s.runEvents (List.replicate k (.readNext r)) = s := by
  induction k with
  | zero => rfl
  | succ k ih => rw [List.replicate_succ, runEvents_cons, step_readNext_of_none hr, ih]

/-- The rest of a read's loop, run back to back from cell `idx` with the
queue `q`: it pops `min m q.length` bytes into the next cells and returns. -/
theorem runEvents_readNext_loop (m : Nat) {s : SharedFifos ι} {r : ι} {a : ReadState}
    {q : List UInt8} (hr : s.reading r = some a) (hq : s.pool.fifos a.key = some q)
    (hm : a.buf.length = a.idx + m) :
    let s' := s.runEvents (List.replicate (m + 1) (.readNext r))
    s'.reads = s.reads ++ [⟨r, a.readId, a.key, a.bufIn, .ok (a.idx + min m q.length),
        a.buf.take a.idx ++ q.take m ++ (a.buf.drop a.idx).drop q.length⟩] ∧
      s'.pool.fifos = Function.update s.pool.fifos a.key (some (q.drop m)) ∧
      s'.pool.fifoKeyCounter = s.pool.fifoKeyCounter ∧ s'.reading r = none := by
  induction m generalizing s a q with
  | zero =>
      -- past the last cell: the loop returns `Ok(buf.len())`
      have hdrop : a.buf.drop a.idx = [] := List.drop_eq_nil_of_le (by omega)
      rw [List.replicate_one, runEvents_cons, step_readNext_full hr (by omega), runEvents_nil]
      have htake : a.buf.take a.idx = a.buf := List.take_of_length_le (by omega)
      refine ⟨?_, ?_, rfl, by simp⟩
      · simp [hm, hdrop, htake]
      · simp [hq]
  | succ m ih =>
      have hidx : a.idx < a.buf.length := by omega
      cases q with
      | nil =>
          rw [List.replicate_succ, runEvents_cons, step_readNext_empty hr hidx hq,
            runEvents_readNext_of_none (by simp)]
          refine ⟨?_, ?_, rfl, by simp⟩
          · simp
          · simp [hq]
      | cons c q =>
          rw [List.replicate_succ, runEvents_cons, step_readNext_pop hr hidx hq]
          obtain ⟨hreads, hfifos, hcounter, hreading⟩ :=
            ih (s := { s with
              pool := { s.pool with fifos := Function.update s.pool.fifos a.key (some q) }
              reading := Function.update s.reading r
                (some { a with buf := a.buf.set a.idx c, idx := a.idx + 1 })
              taker := Function.update s.taker a.key (s.taker a.key ++ [a.readId]) })
              (a := { a with buf := a.buf.set a.idx c, idx := a.idx + 1 }) (q := q)
              (by simp) (by simp) (by simp [hm]; omega)
          refine ⟨?_, ?_, hcounter, hreading⟩
          · rw [hreads]
            simp only [List.append_cancel_left_eq, List.singleton_inj, ReadRecord.mk.injEq,
              true_and, Except.ok.injEq]
            refine ⟨by simp; omega, ?_⟩
            rw [take_set_add_one hidx, drop_set_add_one, List.drop_drop, List.drop_drop,
              List.take_succ_cons, List.length_cons]
            simp [Nat.add_comm, Nat.add_left_comm]
          · rw [hfifos]
            simp

/-- An `os_read` whose iterations run back to back, with no other step in
between, does what the atomic `osRead` of `Fifo` does: the same value, the
same buffer and the same pool. -/
theorem read_uninterrupted_eq_osRead {s : SharedFifos ι} {r : ι} (hr : s.reading r = none)
    (key : FifoKey) (buf : List UInt8) :
    let s' := (s.step (.readStart r key buf)).runEvents
      (List.replicate (buf.length + 1) (.readNext r))
    s'.reads = s.reads ++
        [⟨r, s.nextId, key, buf, (osRead s.pool key buf).1, (osRead s.pool key buf).2.1⟩] ∧
      s'.pool = (osRead s.pool key buf).2.2 ∧ s'.reading r = none := by
  cases hq : s.pool.fifos key with
  | none =>
      rw [step_readStart_of_none hr hq, runEvents_readNext_of_none ?_, osRead_of_none hq]
      · exact ⟨rfl, rfl, hr⟩
      · exact hr
  | some q =>
      rw [step_readStart_of_some hr hq, osRead_of_some hq]
      obtain ⟨hreads, hfifos, hcounter, hreading⟩ :=
        runEvents_readNext_loop buf.length (a := ⟨key, buf, 0, buf, s.nextId⟩) (q := q)
          (s := { s with
            reading := Function.update s.reading r (some ⟨key, buf, 0, buf, s.nextId⟩)
            nextId := s.nextId + 1 }) (r := r) (by simp) hq (by simp)
      exact ⟨by simpa using hreads, FifoPool.eq_of_fifos hfifos hcounter, hreading⟩

end Uninterrupted

end SharedFifos

end Ipc
end NoIdeaOS
