import Mathlib.Data.List.Nodup
import NoIdeaOS.Lib.Fallible
import NoIdeaOS.Lib.Links

/-!
# The fixed-size block allocator

`memory/allocator/fixed_pow2_block.rs`, the kernel heap.  There is one free
list per block size of `BLOCK_SIZES` (8 to 65536 bytes, consecutive powers
of two).  The lists are intrusive: a free block holds the `ListNode` whose
`next` field points to the following block.

* `init` carves the heap from its start, largest class first: as many
  65536-byte blocks as fit, then 32768-byte blocks, and so on down to class
  1 (16 bytes); the loop stops before class 0.
* `alloc` pops the list of the smallest class that fits `max(size, align)`.
  When it is empty, `split_larger_block` takes a block of the first larger
  class that has one and halves it class by class, down to the one asked for.
  When there is none, `alloc` returns the null pointer `0`.
* `dealloc` pushes the block back onto the list of its layout's class.

The allocator is modelled with the memory its lists run through: `mem p` is
the `next` field of the `ListNode` at address `p`, and `list_heads` is a map
from class indices (all below 14) to heads.  An `Option<&mut ListNode>` is a
pointer that is null exactly for `None`, so `Some(&mut *ptr)` is `someRef
ptr`, which is `None` for the null pointer.  The `assert!`s that a
`ListNode` (8 bytes, aligned to 8) fits a block of any class always hold and
are left out; so is the spin lock of `Locked`.
-/

namespace NoIdeaOS
namespace Memory

open Fallible

/-- `BLOCK_SIZES`. -/
def blockSizes : List Nat :=
  [8, 16, 32, 64, 128, 256, 512, 1024, 2048, 4096, 8192, 16384, 32768, 65536]

/-- `BLOCK_SIZES[i]`; every index the allocator uses is below 14. -/
def blockSize (i : Nat) : Nat := blockSizes.getD i 0

theorem blockSize_eq_pow : ∀ i < 14, blockSize i = 2 ^ (i + 3) := by decide

theorem blockSize_pos {i : Nat} (hi : i < 14) : 0 < blockSize i := by
  rw [blockSize_eq_pow i hi]
  exact Nat.two_pow_pos _

/-- The sizes are consecutive powers of two (the test `check_power_of_two`). -/
theorem blockSize_succ {i : Nat} (hi : i + 1 < 14) : blockSize (i + 1) = 2 * blockSize i := by
  rw [blockSize_eq_pow i (by omega), blockSize_eq_pow (i + 1) hi, Nat.pow_succ, Nat.mul_comm]

theorem blockSize_lt_blockSize {i k : Nat} (hik : i < k) (hk : k < 14) :
    blockSize i < blockSize k := by
  rw [blockSize_eq_pow i (by omega), blockSize_eq_pow k hk]
  exact Nat.pow_lt_pow_right (by decide) (by omega)

theorem blockSize_last : blockSize 13 = 65536 := rfl

/-- `Some(&mut *ptr)`: `None` when `ptr` is null. -/
def someRef (ptr : Nat) : Option Nat := if ptr = 0 then none else some ptr

theorem someRef_of_pos {ptr : Nat} (h : 0 < ptr) : someRef ptr = some ptr := by
  simp [someRef, Nat.pos_iff_ne_zero.mp h]

/-- `FixedSizeBlockAllocator` with the `next` fields of its nodes. -/
structure FixedSizeBlockAllocator where
  listHeads : Nat → Option Nat
  mem : Nat → Option Nat

/-- `core::alloc::Layout`, whose alignment is a power of two. -/
structure Layout where
  size : Nat
  align : Nat
  align_isPowerOfTwo : align.isPowerOfTwo
deriving DecidableEq

/-- The panics of the allocator. -/
inductive AllocPanic
  /-- `unwrap` of an empty list in `split_larger_block`. -/
  | unwrapNone
  /-- `alloc`: "Allocations bigger than 2^16 not supported yet, please just
  make multiple (non continuous) allocations". -/
  | allocationTooBig
  /-- `dealloc`: "Wtf, you can't even allocate this". -/
  | cannotAllocate
deriving DecidableEq, Repr

/-- `list_index`: the first class whose blocks hold `max(size, align)` bytes. -/
def listIndex (layout : Layout) : Option Nat :=
  let requiredBlockSize := max layout.size layout.align
  blockSizes.findIdx? fun s => s ≥ requiredBlockSize

/-- The class `list_index` picks is a class of `BLOCK_SIZES` that holds the layout. -/
theorem listIndex_spec {layout : Layout} {i : Nat} (h : listIndex layout = some i) :
    i < 14 ∧ max layout.size layout.align ≤ blockSize i := by
  obtain ⟨hlt, hfit, -⟩ := List.findIdx?_eq_some_iff_getElem.mp h
  have hlen : i < 14 := hlt
  refine ⟨hlen, ?_⟩
  simpa [blockSize, List.getD_eq_getElem?_getD, List.getElem?_eq_getElem hlt] using hfit

/-- `list_index` picks the least class that holds the layout. -/
theorem listIndex_least {layout : Layout} {i : Nat} (h : listIndex layout = some i) :
    ∀ k < i, blockSize k < max layout.size layout.align := by
  obtain ⟨hlt, -, hbefore⟩ := List.findIdx?_eq_some_iff_getElem.mp h
  intro k hk
  have hk14 : k < blockSizes.length := Nat.lt_trans hk hlt
  have hnot := hbefore k hk
  simp only [decide_eq_true_eq, not_le] at hnot
  simpa [blockSize, List.getD_eq_getElem?_getD, List.getElem?_eq_getElem hk14] using hnot

/-- A block of the layout's class is aligned enough: both are powers of two. -/
theorem align_dvd_blockSize {layout : Layout} {i : Nat} (h : listIndex layout = some i) :
    layout.align ∣ blockSize i := by
  obtain ⟨hi, hfit⟩ := listIndex_spec h
  obtain ⟨m, hm⟩ := layout.align_isPowerOfTwo
  have hle : 2 ^ m ≤ 2 ^ (i + 3) := by
    rw [← hm, ← blockSize_eq_pow i hi]
    omega
  rw [hm, blockSize_eq_pow i hi]
  exact Nat.pow_dvd_pow 2 ((Nat.pow_le_pow_iff_right (by omega)).mp hle)

theorem listIndex_isSome {layout : Layout} (h : max layout.size layout.align ≤ 65536) :
    (listIndex layout).isSome := by
  simp only [listIndex, List.findIdx?_isSome, List.any_eq_true]
  exact ⟨65536, by simp [blockSizes], by simpa using h⟩

theorem listIndex_eq_none {layout : Layout} (h : 65536 < max layout.size layout.align) :
    listIndex layout = none := by
  simp only [listIndex, List.findIdx?_eq_none_iff]
  intro s hs
  have hall : ∀ s ∈ blockSizes, s ≤ 65536 := by decide
  have hle := hall s hs
  simp only [decide_eq_false_iff_not]
  omega

namespace FixedSizeBlockAllocator

/-- `FixedSizeBlockAllocator::new`, over whatever the memory holds. -/
def new (mem : Nat → Option Nat) : FixedSizeBlockAllocator :=
  ⟨fun _ => none, mem⟩

/-- `ptr.write(ListNode { next: self.list_heads[idx].take() })`, then
`self.list_heads[idx] = Some(&mut *ptr)`. -/
def pushNode (a : FixedSizeBlockAllocator) (idx ptr : Nat) : FixedSizeBlockAllocator :=
  { listHeads := Function.update a.listHeads idx (someRef ptr),
    mem := Function.update a.mem ptr (a.listHeads idx) }

/-- `self.list_heads[idx].take()` and, on `Some(node)`,
`self.list_heads[idx] = node.next.take()`. -/
def popNode (a : FixedSizeBlockAllocator) (idx : Nat) : Option (Nat × FixedSizeBlockAllocator) :=
  match a.listHeads idx with
  | none => none
  | some node =>
      some (node, { listHeads := Function.update a.listHeads idx (a.mem node),
                    mem := Function.update a.mem node none })

theorem popNode_eq_some {a a' : FixedSizeBlockAllocator} {idx node : Nat} :
    a.popNode idx = some (node, a') ↔
      a.listHeads idx = some node ∧
      a' = { listHeads := Function.update a.listHeads idx (a.mem node),
             mem := Function.update a.mem node none } := by
  unfold popNode
  cases hhead : a.listHeads idx with
  | none => simp
  | some n =>
      simp only [Option.some.injEq, Prod.mk.injEq]
      constructor
      · rintro ⟨rfl, rfl⟩
        exact ⟨rfl, rfl⟩
      · rintro ⟨rfl, rfl⟩
        exact ⟨rfl, rfl⟩

theorem popNode_eq_none {a : FixedSizeBlockAllocator} {idx : Nat} :
    a.popNode idx = none ↔ a.listHeads idx = none := by
  unfold popNode
  split <;> simp_all

/-! ## `init` -/

/-- One round of the inner loop of `init`: push the block at `current`. -/
def carveBlock (idx : Nat) (s : FixedSizeBlockAllocator × Nat) : FixedSizeBlockAllocator × Nat :=
  (s.1.pushNode idx s.2, s.2 + blockSize idx)

/-- `n` rounds of the inner loop. -/
def carveBlocks (idx : Nat) : Nat → FixedSizeBlockAllocator × Nat → FixedSizeBlockAllocator × Nat
  | 0, s => s
  | n + 1, s => carveBlocks idx n (carveBlock idx s)

/-- The inner loop `while current + BLOCK_SIZES[idx] <= heap_start + heap_size`,
as the number of rounds it makes (`carveClass_eq` unfolds it as a loop). -/
def carveClass (heapEnd idx : Nat) (s : FixedSizeBlockAllocator × Nat) :
    FixedSizeBlockAllocator × Nat :=
  carveBlocks idx ((heapEnd - s.2) / blockSize idx) s

/-- The outer `do { .. } while current_increment_idx > 0` loop, entered with
`current_increment_idx = n`: the classes `n` down to 1. -/
def carveDown (heapEnd : Nat) : Nat → FixedSizeBlockAllocator × Nat → FixedSizeBlockAllocator × Nat
  | 0, s => s
  | n + 1, s => carveDown heapEnd n (carveClass heapEnd (n + 1) s)

def init (a : FixedSizeBlockAllocator) (heapStart heapSize : Nat) : FixedSizeBlockAllocator :=
  (carveDown (heapStart + heapSize) (blockSizes.length - 1) (a, heapStart)).1

@[simp] theorem carveBlocks_zero (idx : Nat) (s : FixedSizeBlockAllocator × Nat) :
    carveBlocks idx 0 s = s := rfl

theorem carveBlocks_succ (idx n : Nat) (s : FixedSizeBlockAllocator × Nat) :
    carveBlocks idx (n + 1) s = carveBlocks idx n (carveBlock idx s) := rfl

theorem carveBlocks_snd (idx n : Nat) (s : FixedSizeBlockAllocator × Nat) :
    (carveBlocks idx n s).2 = s.2 + n * blockSize idx := by
  induction n generalizing s with
  | zero => simp
  | succ n ih =>
      rw [carveBlocks_succ, ih]
      simp only [carveBlock, Nat.succ_mul]
      omega

/-- `carveClass` is the `while` loop: one more round while the next block
fits below the end of the heap. -/
theorem carveClass_eq {heapEnd idx : Nat} (hidx : idx < 14) (s : FixedSizeBlockAllocator × Nat) :
    carveClass heapEnd idx s =
      if s.2 + blockSize idx ≤ heapEnd then carveClass heapEnd idx (carveBlock idx s) else s := by
  have hpos := blockSize_pos hidx
  unfold carveClass
  split
  · case isTrue hfit =>
      have hrounds : (heapEnd - s.2) / blockSize idx =
          (heapEnd - (s.2 + blockSize idx)) / blockSize idx + 1 := by
        rw [← Nat.add_div_right _ hpos]
        congr 1
        omega
      rw [hrounds, carveBlocks_succ]
      rfl
  · case isFalse hfit =>
      rw [Nat.div_eq_of_lt (by omega), carveBlocks_zero]

/-- Every class `init` carves, 1 and up, is a multiple of 16 bytes. -/
theorem blockSize_mod_sixteen : ∀ i < 14, 1 ≤ i → blockSize i % 16 = 0 := by decide

/-- `init` carves classes 1 and up only: from a multiple of 16, `current`
stays one. -/
theorem carveDown_snd_mod {heapEnd n : Nat} (hn : n < 14) {s : FixedSizeBlockAllocator × Nat}
    (h : s.2 % 16 = 0) : (carveDown heapEnd n s).2 % 16 = 0 := by
  induction n generalizing s with
  | zero => exact h
  | succ n ih =>
      have hclass := blockSize_mod_sixteen (n + 1) hn (by omega)
      rw [carveDown]
      apply ih (by omega)
      simp [carveClass, carveBlocks_snd, Nat.add_mod, Nat.mul_mod, hclass, h]

/-! ## `alloc` and `dealloc` -/

/-- `pop_first_larger_block_available`: the first class above `blockIdx`
with a free block.  It pops nothing. -/
def popFirstLargerBlockAvailable (a : FixedSizeBlockAllocator) (blockIdx : Nat) : Option Nat :=
  (List.range' (blockIdx + 1) (blockSizes.length - (blockIdx + 1))).find?
    fun idx => (a.listHeads idx).isSome

/-- One round of the loop of `split_larger_block`: the head of list
`idx + 1` is cut into two blocks of class `idx`, pushed onto list `idx`. -/
def splitBlock (a : FixedSizeBlockAllocator) (idx : Nat) : Except AllocPanic FixedSizeBlockAllocator := do
  let (currentBlock, a) ← expect (a.popNode (idx + 1)) .unwrapNone
  let nextHead := a.listHeads idx
  let a := { a with listHeads := Function.update a.listHeads idx none }
  let createdBlockPtr := currentBlock + blockSize idx
  let a := { a with mem := Function.update a.mem createdBlockPtr nextHead }
  let a := { a with mem := Function.update a.mem currentBlock (someRef createdBlockPtr) }
  pure { a with listHeads := Function.update a.listHeads idx (some currentBlock) }

theorem popFirstLargerBlockAvailable_spec {a : FixedSizeBlockAllocator} {blockIdx j : Nat}
    (h : a.popFirstLargerBlockAvailable blockIdx = some j) :
    blockIdx < j ∧ j < 14 ∧ (a.listHeads j).isSome := by
  unfold popFirstLargerBlockAvailable at h
  have hj := List.find?_some h
  obtain ⟨i, hi, rfl⟩ := List.mem_range'.mp (List.mem_of_find?_eq_some h)
  simp only [blockSizes, List.length_cons, List.length_nil] at hi
  exact ⟨by omega, by omega, hj⟩

/-- `pop_first_larger_block_available` finds nothing exactly when every list
above `blockIdx` is empty. -/
theorem popFirstLargerBlockAvailable_eq_none {a : FixedSizeBlockAllocator} {blockIdx : Nat} :
    a.popFirstLargerBlockAvailable blockIdx = none ↔
      ∀ k, blockIdx < k → k < 14 → a.listHeads k = none := by
  unfold popFirstLargerBlockAvailable
  simp only [List.find?_eq_none, List.mem_range', blockSizes, List.length_cons, List.length_nil,
    Option.isSome_iff_ne_none, ne_eq, Decidable.not_not]
  constructor
  · intro h k hlo hhi
    exact h k ⟨k - (blockIdx + 1), by omega, by omega⟩
  · rintro h _ ⟨t, ht, rfl⟩
    exact h _ (by omega) (by omega)

/-- It finds the first class above `blockIdx` with a free block. -/
theorem popFirstLargerBlockAvailable_eq_some {a : FixedSizeBlockAllocator} {blockIdx j : Nat} :
    a.popFirstLargerBlockAvailable blockIdx = some j ↔
      blockIdx < j ∧ j < 14 ∧ (a.listHeads j).isSome ∧
        ∀ k, blockIdx < k → k < j → a.listHeads k = none := by
  unfold popFirstLargerBlockAvailable
  rw [List.find?_eq_some_iff_getElem]
  simp only [blockSizes, List.length_cons, List.length_nil, List.getElem_range', List.length_range',
    Nat.one_mul, Bool.not_eq_true', Option.isSome_eq_false_iff, Option.isNone_iff_eq_none]
  constructor
  · rintro ⟨hj, t, ht, rfl, hbefore⟩
    refine ⟨by omega, by omega, hj, fun k hlo hhi => ?_⟩
    have := hbefore (k - (blockIdx + 1)) (by omega)
    rwa [show blockIdx + 1 + (k - (blockIdx + 1)) = k by omega] at this
  · rintro ⟨hlo, hhi, hj, hbefore⟩
    refine ⟨hj, j - (blockIdx + 1), by omega, by omega, fun t ht => hbefore _ (by omega) (by omega)⟩

/-- A round of `split_larger_block` that does not panic: the head `B` of list
`idx + 1` becomes the head of list `idx`, followed by `B + BLOCK_SIZES[idx]`
and the old list `idx`. -/
theorem splitBlock_eq_ok {a a' : FixedSizeBlockAllocator} {idx : Nat}
    (h : a.splitBlock idx = .ok a') :
    ∃ B, a.listHeads (idx + 1) = some B ∧
      a'.listHeads = Function.update (Function.update a.listHeads (idx + 1) (a.mem B)) idx (some B) ∧
      a'.mem = Function.update (Function.update (Function.update a.mem B none)
        (B + blockSize idx) (a.listHeads idx)) B (someRef (B + blockSize idx)) := by
  unfold splitBlock at h
  cases hpop : a.popNode (idx + 1) with
  | none => simp [hpop] at h
  | some r =>
      obtain ⟨B, a₁⟩ := r
      obtain ⟨hhead, rfl⟩ := popNode_eq_some.mp hpop
      simp only [hpop, expect_some, ok_bind, pure_eq_ok, Except.ok.injEq] at h
      subst h
      refine ⟨B, hhead, Function.update_idem _ _ _, ?_⟩
      show Function.update (Function.update (Function.update a.mem B none) (B + blockSize idx)
        (Function.update a.listHeads (idx + 1) (a.mem B) idx)) B _ = _
      rw [Function.update_of_ne (by omega)]

/-- For a non-null head `B`, the round is a pop from list `idx + 1` and two
pushes onto list `idx`: `B + BLOCK_SIZES[idx]`, then `B`. -/
theorem splitBlock_eq_pushNode {a a' : FixedSizeBlockAllocator} {idx : Nat}
    (h : a.splitBlock idx = .ok a') :
    ∃ B a₁, a.popNode (idx + 1) = some (B, a₁) ∧
      (0 < B → a' = (a₁.pushNode idx (B + blockSize idx)).pushNode idx B) := by
  obtain ⟨B, hhead, hheads, hmem⟩ := splitBlock_eq_ok h
  refine ⟨B, _, popNode_eq_some.mpr ⟨hhead, rfl⟩, fun hB => ?_⟩
  obtain ⟨heads', mem'⟩ := a'
  simp only at hheads hmem
  subst hheads hmem
  have hne : idx ≠ idx + 1 := by omega
  simp only [pushNode, Function.update_idem, Function.update_self, someRef_of_pos hB,
    Function.update_of_ne hne]

/-- `split_larger_block`; the loop runs over `(block_idx..bigger_idx).rev()`. -/
def splitLargerBlock (a : FixedSizeBlockAllocator) (blockIdx : Nat) :
    Except AllocPanic (Option Nat × FixedSizeBlockAllocator) :=
  match a.popFirstLargerBlockAvailable blockIdx with
  | none => pure (none, a)
  | some biggerIdx => do
      let a ← (List.range' blockIdx (biggerIdx - blockIdx)).reverse.foldlM splitBlock a
      let (out, a) ← expect (a.popNode blockIdx) .unwrapNone
      pure (some out, a)

/-- With every list above `blockIdx` empty, `split_larger_block` returns
`None` and changes nothing. -/
theorem splitLargerBlock_of_empty {a : FixedSizeBlockAllocator} {blockIdx : Nat}
    (h : ∀ k, blockIdx < k → k < 14 → a.listHeads k = none) :
    a.splitLargerBlock blockIdx = .ok (none, a) := by
  have hfirst := popFirstLargerBlockAvailable_eq_none.mpr h
  simp only [splitLargerBlock, hfirst]
  rfl

theorem splitLargerBlock_eq_ok {a a' : FixedSizeBlockAllocator} {blockIdx : Nat}
    {c : Option Nat} (h : a.splitLargerBlock blockIdx = .ok (c, a')) :
    (a.popFirstLargerBlockAvailable blockIdx = none ∧ c = none ∧ a' = a) ∨
    ∃ biggerIdx a₁ out, a.popFirstLargerBlockAvailable blockIdx = some biggerIdx ∧
      (List.range' blockIdx (biggerIdx - blockIdx)).reverse.foldlM splitBlock a = .ok a₁ ∧
      a₁.popNode blockIdx = some (out, a') ∧ c = some out := by
  unfold splitLargerBlock at h
  cases hfirst : a.popFirstLargerBlockAvailable blockIdx with
  | none =>
      simp only [hfirst, pure_eq_ok, Except.ok.injEq, Prod.mk.injEq] at h
      exact .inl ⟨rfl, h.1.symm, h.2.symm⟩
  | some biggerIdx =>
      simp only [hfirst] at h
      obtain ⟨a₁, hfold, h⟩ := bind_eq_ok.mp h
      cases hpop : a₁.popNode blockIdx with
      | none => simp [hpop] at h
      | some r =>
          obtain ⟨out, a₂⟩ := r
          simp only [hpop, expect_some, ok_bind, pure_eq_ok, Except.ok.injEq, Prod.mk.injEq] at h
          obtain ⟨rfl, rfl⟩ := h
          exact .inr ⟨biggerIdx, a₁, out, rfl, hfold, hpop, rfl⟩

/-- `GlobalAlloc::alloc`; `0` is the null pointer. -/
def alloc (a : FixedSizeBlockAllocator) (layout : Layout) :
    Except AllocPanic (Nat × FixedSizeBlockAllocator) :=
  match listIndex layout with
  | some index =>
      match a.popNode index with
      | some (node, a) => pure (node, a)
      | none => do
          let (c, a) ← a.splitLargerBlock index
          pure (c.getD 0, a)
  | none => throw .allocationTooBig

/-- `GlobalAlloc::dealloc`. -/
def dealloc (a : FixedSizeBlockAllocator) (ptr : Nat) (layout : Layout) :
    Except AllocPanic FixedSizeBlockAllocator :=
  match listIndex layout with
  | some index => pure (a.pushNode index ptr)
  | none => throw .cannotAllocate

/-- What an `alloc` that does not panic did: pop the list of its class, or
split a larger block (or find none). -/
theorem alloc_eq_ok {a a' : FixedSizeBlockAllocator} {layout : Layout} {p : Nat}
    (h : a.alloc layout = .ok (p, a')) :
    ∃ i, listIndex layout = some i ∧
      (a.popNode i = some (p, a') ∨
        a.popNode i = none ∧ ∃ c, a.splitLargerBlock i = .ok (c, a') ∧ p = c.getD 0) := by
  unfold alloc at h
  cases hidx : listIndex layout with
  | none => simp [hidx] at h
  | some i =>
      simp only [hidx] at h
      refine ⟨i, rfl, ?_⟩
      cases hpop : a.popNode i with
      | some r =>
          obtain ⟨node, a₁⟩ := r
          simp only [hpop, pure_eq_ok, Except.ok.injEq] at h
          rw [h]
          exact .inl rfl
      | none =>
          simp only [hpop] at h
          obtain ⟨⟨c, a₁⟩, hsplit, h⟩ := bind_eq_ok.mp h
          simp only [pure_eq_ok, Except.ok.injEq, Prod.mk.injEq] at h
          obtain ⟨rfl, rfl⟩ := h
          exact .inr ⟨rfl, c, hsplit, rfl⟩

theorem dealloc_eq_ok {a a' : FixedSizeBlockAllocator} {ptr : Nat} {layout : Layout}
    (h : a.dealloc ptr layout = .ok a') :
    ∃ i, listIndex layout = some i ∧ a' = a.pushNode i ptr := by
  unfold dealloc at h
  cases hidx : listIndex layout with
  | none => simp [hidx] at h
  | some i =>
      simp only [hidx, pure_eq_ok, Except.ok.injEq] at h
      exact ⟨i, rfl, h.symm⟩

/-! ## When `alloc` panics -/

/-- A round of `split_larger_block` whose list `idx + 1` is not empty does
not panic, and leaves list `idx` not empty. -/
theorem splitBlock_ok {a : FixedSizeBlockAllocator} {idx : Nat}
    (h : (a.listHeads (idx + 1)).isSome) :
    ∃ a', a.splitBlock idx = .ok a' ∧ (a'.listHeads idx).isSome := by
  obtain ⟨B, hB⟩ := Option.isSome_iff_exists.mp h
  have hpop : a.popNode (idx + 1) = some (B, _) := popNode_eq_some.mpr ⟨hB, rfl⟩
  unfold splitBlock
  rw [hpop]
  exact ⟨_, rfl, by simp⟩

/-- The loop of `split_larger_block` from class `i + n` down to `i`: each
round fills the list the next round takes from. -/
theorem foldlM_splitBlock_ok {i : Nat} (n : Nat) {a : FixedSizeBlockAllocator}
    (h : (a.listHeads (i + n)).isSome) :
    ∃ a', (List.range' i n).reverse.foldlM splitBlock a = .ok a' ∧ (a'.listHeads i).isSome := by
  induction n generalizing a with
  | zero => exact ⟨a, rfl, h⟩
  | succ n ih =>
      have htop : (a.listHeads (i + n + 1)).isSome := by simpa [Nat.add_assoc] using h
      obtain ⟨a₁, h₁, hhead⟩ := splitBlock_ok htop
      obtain ⟨a', hfold, hi⟩ := ih hhead
      refine ⟨a', ?_, hi⟩
      simp only [List.range'_concat, Nat.one_mul, List.reverse_append, List.reverse_cons,
        List.reverse_nil, List.nil_append, List.singleton_append, List.foldlM_cons, h₁, ok_bind]
      exact hfold

/-- The `unwrap`s of `split_larger_block` never fail. -/
theorem splitLargerBlock_ok (a : FixedSizeBlockAllocator) (blockIdx : Nat) :
    ∃ r, a.splitLargerBlock blockIdx = .ok r := by
  unfold splitLargerBlock
  cases hfirst : a.popFirstLargerBlockAvailable blockIdx with
  | none => exact ⟨_, rfl⟩
  | some j =>
      obtain ⟨hij, -, hj⟩ := popFirstLargerBlockAvailable_spec hfirst
      obtain ⟨a', hfold, hi⟩ := foldlM_splitBlock_ok (i := blockIdx) (j - blockIdx) (a := a)
        (by rwa [Nat.add_sub_cancel' hij.le])
      obtain ⟨out, hout⟩ := Option.isSome_iff_exists.mp hi
      have hpop : a'.popNode blockIdx = some (out, _) := popNode_eq_some.mpr ⟨hout, rfl⟩
      simp only [hfold, ok_bind, hpop, expect_some]
      exact ⟨_, rfl⟩

/-- `alloc` panics exactly for layouts larger than the largest class, in
every state of the allocator. -/
theorem alloc_panics_iff_too_big (a : FixedSizeBlockAllocator) (layout : Layout) :
    (∃ e, a.alloc layout = .error e) ↔ 65536 < max layout.size layout.align := by
  constructor
  · rintro ⟨e, he⟩
    by_contra hle
    obtain ⟨i, hidx⟩ := Option.isSome_iff_exists.mp (listIndex_isSome (Nat.le_of_not_lt hle))
    unfold alloc at he
    rw [hidx] at he
    cases hpop : a.popNode i with
    | some r => simp [hpop] at he
    | none =>
        obtain ⟨r, hr⟩ := splitLargerBlock_ok a i
        simp [hpop, hr] at he
  · intro h
    refine ⟨.allocationTooBig, ?_⟩
    simp only [alloc, listIndex_eq_none h]
    rfl

/-! ## What `alloc` returns -/

/-- The loop of `split_larger_block` from class `i + n` down to `i` carries
the head of list `i + n` down to the head of list `i`. -/
theorem foldlM_splitBlock_head {i : Nat} (n : Nat) {a a' : FixedSizeBlockAllocator} {X : Nat}
    (h : a.listHeads (i + n) = some X)
    (hfold : (List.range' i n).reverse.foldlM splitBlock a = .ok a') : a'.listHeads i = some X := by
  induction n generalizing a with
  | zero =>
      simp only [List.range'_zero, List.reverse_nil, List.foldlM_nil, pure_eq_ok,
        Except.ok.injEq] at hfold
      exact hfold ▸ h
  | succ n ih =>
      simp only [List.range'_concat, Nat.one_mul, List.reverse_append, List.reverse_cons,
        List.reverse_nil, List.nil_append, List.singleton_append, List.foldlM_cons] at hfold
      obtain ⟨a₁, h₁, hfold⟩ := bind_eq_ok.mp hfold
      obtain ⟨B, hB, hheads, -⟩ := splitBlock_eq_ok h₁
      have hBX : B = X := Option.some.inj (hB.symm.trans h)
      refine ih ?_ hfold
      rw [hheads, Function.update_self, hBX]


/-- What `alloc` returns: the head of the first non-empty list at or above
the layout's class, split down to that class, or null when every such list
is empty. -/
theorem alloc_eq_ok_head {a a' : FixedSizeBlockAllocator} {layout : Layout} {p i : Nat}
    (h : a.alloc layout = .ok (p, a')) (hidx : listIndex layout = some i) :
    (p = 0 ∧ ∀ k, i ≤ k → k < 14 → a.listHeads k = none) ∨
      ∃ j, i ≤ j ∧ j < 14 ∧ (∀ k, i ≤ k → k < j → a.listHeads k = none) ∧
        a.listHeads j = some p := by
  obtain ⟨i', hidx', hcase⟩ := alloc_eq_ok h
  obtain rfl : i' = i := Option.some.inj (hidx'.symm.trans hidx)
  have hi := (listIndex_spec hidx).1
  rcases hcase with hpop | ⟨hnone, c, hsplit, rfl⟩
  · exact .inr ⟨i', Nat.le_refl _, hi, fun k hik hki => absurd hki (by omega),
      (popNode_eq_some.mp hpop).1⟩
  have hempty := popNode_eq_none.mp hnone
  rcases splitLargerBlock_eq_ok hsplit with ⟨hfirst, rfl, -⟩ | ⟨j, a₁, out, hfirst, hfold, hpop, rfl⟩
  · -- no larger block either: null
    refine .inl ⟨rfl, fun k hik hk => ?_⟩
    rcases Nat.eq_or_lt_of_le hik with rfl | hlt
    · exact hempty
    · exact popFirstLargerBlockAvailable_eq_none.mp hfirst k hlt hk
  · -- the head of the first larger list is split down and handed out
    obtain ⟨hij, hj, hsome, hbefore⟩ := popFirstLargerBlockAvailable_eq_some.mp hfirst
    obtain ⟨X, hX⟩ := Option.isSome_iff_exists.mp hsome
    have hhead := foldlM_splitBlock_head (j - i') (by rwa [Nat.add_sub_cancel' hij.le]) hfold
    have hout : out = X := Option.some.inj ((popNode_eq_some.mp hpop).1.symm.trans hhead)
    refine .inr ⟨j, hij.le, hj, fun k hik hkj => ?_, by simp [hout, hX]⟩
    rcases Nat.eq_or_lt_of_le hik with rfl | hlt
    · exact hempty
    · exact hbefore k hlt hkj

end FixedSizeBlockAllocator

end Memory
end NoIdeaOS
