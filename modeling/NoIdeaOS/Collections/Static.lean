import Mathlib.Data.Finset.Range
import NoIdeaOS.Collections.DynamicBitmap
import NoIdeaOS.Lib.Fallible
import NoIdeaOS.Lib.Simulation

/-!
# The static collections

`static_collections/`: a stack and a bitmap over fixed arrays.  Each is a
trait with default methods (`Stack`, `Bitmap`) and a macro
(`static_stack!`, `static_bitmap!`) whose structure fixes the array's
length; the models are the macros' structures with the traits' methods,
and the array length is a field's invariant.

**Stack.**  `push` raises `size` through `set_size`, which refuses more
than `$size` items, and writes the slot; `pop` refuses an empty stack,
lowers `size` and reads the slot, which keeps its value.  The stack stands
for its first `size` slots (`contents`).  Against the list model of a stack
of at most `$size` items (`BoundedStack.call`), every call returns what the
list model returns and leaves the contents it leaves, so every run from the
macro's zeroed instance does (`static_stack_implements_bounded_stack`).

**Bitmap.**  `set_bit` and `clear_bit` do on their byte what
`DynamicBitmap`'s do, but a byte past the map is `Err(OutOfRange)` where the
dynamic map grows.  The bitmap stands for the indices whose bit is set
(`bits`), and behaves as a set of the indices below `8 · ⌈$size / 8⌉`
(`static_bitmap_implements_bounded_set`): the range check is by whole
bytes, so when `$size` is not a multiple of 8 the map also takes the
indices from `$size` up to the end of its last byte.
-/

namespace NoIdeaOS
namespace Collections

open Fallible Simulation

/-- `StaticCollectionError`. -/
inductive StaticCollectionError
  | outOfRange
deriving DecidableEq, Repr

/-! ## The stack -/

/-- The structure of `static_stack!(_, _, len)`: the slots `stack: [u64; len]`
and the number of items `size`, which `set_size` keeps at most `len`. -/
@[ext] structure StaticStack (len : Nat) where
  stack : List UInt64
  size : Nat
  length_stack : stack.length = len
  size_le : size ≤ len

/-- A call on a stack of `α`s. -/
inductive StackCall (α : Type)
  | push (item : α)
  | pop
  | clearStack
deriving DecidableEq, Repr

namespace StaticStack

variable {len : Nat}

/-- The macro's static instance: zeroed slots and no items. -/
def new (len : Nat) : StaticStack len :=
  ⟨List.replicate len 0, 0, List.length_replicate, Nat.zero_le len⟩

/-- `set_size` of the macro's `impl`. -/
def setSize (s : StaticStack len) (newSize : Nat) : Except StaticCollectionError (StaticStack len) :=
  if h : newSize > len then .error .outOfRange
  else .ok ⟨s.stack, newSize, s.length_stack, Nat.le_of_not_lt h⟩

/-- `Stack::clear_stack`: `set_size(0)`, its result dropped. -/
def clearStack (s : StaticStack len) : StaticStack len :=
  match s.setSize 0 with
  | .ok s' => s'
  | .error _ => s

/-- `Stack::push`: `set_size(new_idx + 1)?`, then `stack[new_idx] = item`. -/
def push (s : StaticStack len) (item : UInt64) : Except StaticCollectionError (StaticStack len) := do
  let newIdx := s.size
  let s ← s.setSize (newIdx + 1)
  pure ⟨s.stack.set newIdx item, s.size, by rw [List.length_set, s.length_stack], s.size_le⟩

/-- `Stack::pop`: refuse an empty stack, `set_size(item_idx)?`, then read
`stack[item_idx]`, which is left in place. -/
def pop (s : StaticStack len) : Except StaticCollectionError (UInt64 × StaticStack len) := do
  if s.size = 0 then
    throw StaticCollectionError.outOfRange
  let itemIdx := s.size - 1
  let s ← s.setSize itemIdx
  pure (s.stack.getD itemIdx 0, s)

/-- A call and what it returns; a call that returns `Err` leaves the stack
as it was. -/
def call (s : StaticStack len) :
    StackCall UInt64 → Except StaticCollectionError (Option UInt64) × StaticStack len
  | .push item =>
      match s.push item with
      | .ok s' => (.ok none, s')
      | .error e => (.error e, s)
  | .pop =>
      match s.pop with
      | .ok (x, s') => (.ok (some x), s')
      | .error e => (.error e, s)
  | .clearStack => (.ok none, s.clearStack)

/-- The items, bottom first: the first `size` slots. -/
def contents (s : StaticStack len) : List UInt64 :=
  s.stack.take s.size

theorem length_contents (s : StaticStack len) : s.contents.length = s.size := by
  simp [contents, s.length_stack, s.size_le]

theorem setSize_of_le {s : StaticStack len} {n : Nat} (h : n ≤ len) :
    ∃ s', s.setSize n = .ok s' ∧ s'.stack = s.stack ∧ s'.size = n :=
  ⟨_, dif_neg (Nat.not_lt_of_le h), rfl, rfl⟩

theorem setSize_of_lt {s : StaticStack len} {n : Nat} (h : len < n) :
    s.setSize n = .error .outOfRange :=
  dif_pos h

/-- Writing slot `n` and keeping one more slot appends the item. -/
theorem take_set_add_one {l : List UInt64} {n : Nat} (x : UInt64) (h : n < l.length) :
    (l.set n x).take (n + 1) = l.take n ++ [x] := by
  rw [List.set_eq_take_cons_drop x h, List.take_append]
  simp [Nat.le_of_lt h]

/-- `push` on a stack with room appends the item; on a full one it refuses. -/
theorem push_cases (s : StaticStack len) (item : UInt64) :
    (s.size < len ∧ ∃ s', s.push item = .ok s' ∧ s'.contents = s.contents ++ [item]) ∨
      (len ≤ s.size ∧ s.push item = .error .outOfRange) := by
  by_cases h : s.size < len
  · obtain ⟨s₁, hs₁, hstack, hsize⟩ := setSize_of_le (s := s) (n := s.size + 1) (by omega)
    refine .inl ⟨h, ⟨s₁.stack.set s.size item, s₁.size,
      by rw [List.length_set, s₁.length_stack], s₁.size_le⟩, ?_, ?_⟩
    · simp only [push, hs₁, ok_bind, pure_eq_ok]
    · have hlt : s.size < s.stack.length := by rw [s.length_stack]; exact h
      simp only [contents, hstack, hsize]
      exact take_set_add_one item hlt
  · refine .inr ⟨Nat.le_of_not_lt h, ?_⟩
    simp only [push, setSize_of_lt (s := s) (Nat.lt_succ_of_le (Nat.le_of_not_lt h)), error_bind]

/-- The last item is slot `size - 1`. -/
theorem getLast?_contents {s : StaticStack len} (h : 0 < s.size) :
    s.contents.getLast? = some (s.stack.getD (s.size - 1) 0) := by
  have hlt : s.size - 1 < s.stack.length := by
    have := s.size_le
    have := s.length_stack
    omega
  simp [contents, List.getLast?_take, Nat.pos_iff_ne_zero.mp h, List.getElem?_eq_getElem hlt]

theorem dropLast_contents (s : StaticStack len) :
    s.contents.dropLast = s.stack.take (s.size - 1) := by
  rw [contents, List.dropLast_eq_take, List.length_take, List.take_take]
  congr 1
  have := s.size_le
  have := s.length_stack
  omega

/-- `pop` on a non-empty stack returns the last item and drops it; on an
empty one it refuses. -/
theorem pop_cases (s : StaticStack len) :
    (∃ x s', s.contents.getLast? = some x ∧ s.pop = .ok (x, s') ∧
        s'.contents = s.contents.dropLast) ∨
      (s.contents = [] ∧ s.pop = .error .outOfRange) := by
  by_cases h : s.size = 0
  · refine .inr ⟨by simp [contents, h], ?_⟩
    simp [pop, h, throw, throwThe, MonadExceptOf.throw]
  · obtain ⟨s₁, hs₁, hstack, hsize⟩ := setSize_of_le (s := s) (n := s.size - 1) (by
      have := s.size_le
      omega)
    refine .inl ⟨_, s₁, getLast?_contents (Nat.pos_of_ne_zero h), ?_, ?_⟩
    · simp [pop, h, hs₁, hstack]
    · rw [dropLast_contents, contents, hstack, hsize]

theorem contents_clearStack (s : StaticStack len) : s.clearStack.contents = [] := by
  obtain ⟨s₁, hs₁, -, hsize⟩ := setSize_of_le (s := s) (Nat.zero_le len)
  simp [clearStack, hs₁, contents, hsize]

end StaticStack

/-- The list model of a stack of at most `len` items, top last: a call
returns `pop`'s item or nothing, or refuses and changes nothing. -/
def BoundedStack.call {α : Type} (len : Nat) (l : List α) :
    StackCall α → Except StaticCollectionError (Option α) × List α
  | .push item => if l.length < len then (.ok none, l ++ [item]) else (.error .outOfRange, l)
  | .pop =>
      match l.getLast? with
      | some x => (.ok (some x), l.dropLast)
      | none => (.error .outOfRange, l)
  | .clearStack => (.ok none, [])

namespace StaticStack

variable {len : Nat}

/-- One call on a stack standing for `l` returns what the list model
returns on `l`, and leaves a stack standing for what it leaves. -/
theorem call_refines {s : StaticStack len} {l : List UInt64} (h : s.contents = l)
    (c : StackCall UInt64) :
    (s.call c).1 = (BoundedStack.call len l c).1 ∧
      (s.call c).2.contents = (BoundedStack.call len l c).2 := by
  subst h
  cases c with
  | push item =>
      have hlen := length_contents s
      rcases push_cases s item with ⟨hlt, s', hs, hc⟩ | ⟨hle, hs⟩
      · simp [call, BoundedStack.call, hs, hc, hlen, hlt]
      · simp [call, BoundedStack.call, hs, hlen, Nat.not_lt_of_le hle]
  | pop =>
      rcases pop_cases s with ⟨x, s', hx, hs, hc⟩ | ⟨he, hs⟩
      · simp [call, BoundedStack.call, hs, hx, hc]
      · simp [call, BoundedStack.call, hs, he]
  | clearStack => exact ⟨rfl, contents_clearStack s⟩

end StaticStack

/-- Every run of calls on the macro's instance of `static_stack!(_, _, len)`
returns, call by call, what the list model of a stack of at most `len`
items returns, and ends with the same items. -/
theorem static_stack_implements_bounded_stack (len : Nat) (calls : List (StackCall UInt64)) :
    (runCalls (@StaticStack.call len) (StaticStack.new len) calls).1 =
        (runCalls (BoundedStack.call len) [] calls).1 ∧
      (runCalls (@StaticStack.call len) (StaticStack.new len) calls).2.contents =
        (runCalls (BoundedStack.call len) [] calls).2 :=
  runCalls_sim (fun (s : StaticStack len) (l : List UInt64) => s.contents = l) (fun _ _ c h => StaticStack.call_refines h c)
    (by simp [StaticStack.contents, StaticStack.new]) calls

/-! ## The bitmap -/

/-- The structure of `static_bitmap!(_, _, size)`: `map: [u8; (size + 7) / 8]`. -/
@[ext] structure StaticBitmap (size : Nat) where
  map : List UInt8
  length_map : map.length = (size + 7) / 8

/-- A call on a bitmap. -/
inductive BitmapCall
  | setBit (n : Nat)
  | clearBit (n : Nat)
  | clearMap
  | fillMap
deriving DecidableEq, Repr

namespace StaticBitmap

variable {size : Nat}

/-- The macro's static instance: every byte zero. -/
def new (size : Nat) : StaticBitmap size :=
  ⟨List.replicate ((size + 7) / 8) 0, List.length_replicate⟩

/-- `Bitmap::clear_map`. -/
def clearMap (b : StaticBitmap size) : StaticBitmap size :=
  ⟨b.map.map fun _ => 0, by rw [List.length_map, b.length_map]⟩

/-- `Bitmap::fill_map`. -/
def fillMap (b : StaticBitmap size) : StaticBitmap size :=
  ⟨b.map.map fun _ => 255, by rw [List.length_map, b.length_map]⟩

/-- `Bitmap::set_bit`: whether the bitmap changed, or `Err(OutOfRange)` for a
byte past the map. -/
def setBit (b : StaticBitmap size) (n : Nat) :
    Except StaticCollectionError (Bool × StaticBitmap size) := do
  let idx := n / 8
  let bitset := DynamicBitmap.bitsetOf n
  let elem ← expect b.map[idx]? StaticCollectionError.outOfRange
  if elem &&& bitset = 0 then
    pure (true, ⟨b.map.modify idx (· ||| bitset), by rw [List.length_modify, b.length_map]⟩)
  else pure (false, b)

/-- `Bitmap::clear_bit`: whether the bitmap changed, or `Err(OutOfRange)` for
a byte past the map. -/
def clearBit (b : StaticBitmap size) (n : Nat) :
    Except StaticCollectionError (Bool × StaticBitmap size) := do
  let idx := n / 8
  let bitset := DynamicBitmap.bitsetOf n
  let elem ← expect b.map[idx]? StaticCollectionError.outOfRange
  if elem &&& bitset ≠ 0 then
    pure (true, ⟨b.map.modify idx (· &&& ~~~bitset), by rw [List.length_modify, b.length_map]⟩)
  else pure (false, b)

/-- A call and what it returns; a call that returns `Err` leaves the bitmap
as it was. -/
def call (b : StaticBitmap size) :
    BitmapCall → Except StaticCollectionError (Option Bool) × StaticBitmap size
  | .setBit n =>
      match b.setBit n with
      | .ok (r, b') => (.ok (some r), b')
      | .error e => (.error e, b)
  | .clearBit n =>
      match b.clearBit n with
      | .ok (r, b') => (.ok (some r), b')
      | .error e => (.error e, b)
  | .clearMap => (.ok none, b.clearMap)
  | .fillMap => (.ok none, b.fillMap)

/-- The same bytes, read as a `DynamicBitmap`. -/
def toDynamic (b : StaticBitmap size) : DynamicBitmap :=
  ⟨b.map⟩

/-- The number of bits of the map, `8 · ⌈size / 8⌉`. -/
def capacity (size : Nat) : Nat :=
  8 * ((size + 7) / 8)

/-- The set the bitmap stands for: the indices whose bit is set. -/
def bits (b : StaticBitmap size) : Finset ℕ :=
  (Finset.range (capacity size)).filter fun k => b.toDynamic.checkBit k

theorem mem_bits {b : StaticBitmap size} {k : Nat} :
    k ∈ b.bits ↔ k < capacity size ∧ b.toDynamic.checkBit k = true := by
  simp [bits]

theorem div_lt_length_iff {b : StaticBitmap size} {n : Nat} :
    n / 8 < b.map.length ↔ n < capacity size := by
  rw [b.length_map, capacity]
  omega

/-- Inside the map, `set_bit` is the dynamic map's on the same bytes. -/
theorem setBit_of_lt {b : StaticBitmap size} {n : Nat} (h : n < capacity size) :
    ∃ b', b.setBit n = .ok ((b.toDynamic.setBit n).1, b') ∧
      b'.toDynamic = (b.toDynamic.setBit n).2 := by
  obtain ⟨elem, helem⟩ : ∃ elem, b.map[n / 8]? = some elem :=
    ⟨_, List.getElem?_eq_getElem (div_lt_length_iff.mpr h)⟩
  have hmod : b.map.modify (n / 8) (· ||| DynamicBitmap.bitsetOf n) =
      b.map.set (n / 8) (elem ||| DynamicBitmap.bitsetOf n) := by
    simp [List.modify_eq_set_getElem?, helem]
  by_cases hset : elem &&& DynamicBitmap.bitsetOf n = 0
  · refine ⟨⟨b.map.modify (n / 8) (· ||| DynamicBitmap.bitsetOf n),
      by rw [List.length_modify, b.length_map]⟩, ?_, ?_⟩
    · simp [setBit, helem, hset, toDynamic, DynamicBitmap.setBit]
    · simp [toDynamic, DynamicBitmap.setBit, helem, hset, hmod]
  · exact ⟨b, by simp [setBit, helem, hset, toDynamic, DynamicBitmap.setBit],
      by simp [toDynamic, DynamicBitmap.setBit, helem, hset]⟩

/-- Inside the map, `clear_bit` is the dynamic map's on the same bytes. -/
theorem clearBit_of_lt {b : StaticBitmap size} {n : Nat} (h : n < capacity size) :
    ∃ b', b.clearBit n = .ok ((b.toDynamic.clearBit n).1, b') ∧
      b'.toDynamic = (b.toDynamic.clearBit n).2 := by
  obtain ⟨elem, helem⟩ : ∃ elem, b.map[n / 8]? = some elem :=
    ⟨_, List.getElem?_eq_getElem (div_lt_length_iff.mpr h)⟩
  by_cases hset : elem &&& DynamicBitmap.bitsetOf n ≠ 0
  · refine ⟨⟨b.map.modify (n / 8) (· &&& ~~~DynamicBitmap.bitsetOf n),
      by rw [List.length_modify, b.length_map]⟩, ?_, ?_⟩
    · simp [clearBit, helem, hset, toDynamic, DynamicBitmap.clearBit]
    · simp [toDynamic, DynamicBitmap.clearBit, helem, hset]
  · exact ⟨b, by simp [clearBit, helem, hset, toDynamic, DynamicBitmap.clearBit],
      by simp [toDynamic, DynamicBitmap.clearBit, helem, hset]⟩

/-- Past the map, both refuse. -/
theorem setBit_of_le {b : StaticBitmap size} {n : Nat} (h : capacity size ≤ n) :
    b.setBit n = .error .outOfRange := by
  have hnone : b.map[n / 8]? = none :=
    List.getElem?_eq_none (Nat.le_of_not_lt (mt div_lt_length_iff.mp (Nat.not_lt_of_le h)))
  simp [setBit, hnone]

theorem clearBit_of_le {b : StaticBitmap size} {n : Nat} (h : capacity size ≤ n) :
    b.clearBit n = .error .outOfRange := by
  have hnone : b.map[n / 8]? = none :=
    List.getElem?_eq_none (Nat.le_of_not_lt (mt div_lt_length_iff.mp (Nat.not_lt_of_le h)))
  simp [clearBit, hnone]

end StaticBitmap

/-- The set model of a bitmap of the indices below `bound`: `set_bit` and
`clear_bit` return whether the set changed, and refuse indices from `bound`
on. -/
def BoundedSet.call (bound : Nat) (S : Finset ℕ) :
    BitmapCall → Except StaticCollectionError (Option Bool) × Finset ℕ
  | .setBit n =>
      if n < bound then (.ok (some (decide (n ∉ S))), insert n S) else (.error .outOfRange, S)
  | .clearBit n =>
      if n < bound then (.ok (some (decide (n ∈ S))), S.erase n) else (.error .outOfRange, S)
  | .clearMap => (.ok none, ∅)
  | .fillMap => (.ok none, Finset.range bound)

namespace StaticBitmap

variable {size : Nat}

theorem bits_of_setBit {b b' : StaticBitmap size} {n : Nat} (h : n < capacity size)
    (hb' : b'.toDynamic = (b.toDynamic.setBit n).2) : b'.bits = insert n b.bits := by
  ext k
  simp only [mem_bits, hb', DynamicBitmap.checkBit_setBit, Finset.mem_insert, Bool.or_eq_true,
    decide_eq_true_eq]
  constructor
  · rintro ⟨hk, rfl | hk'⟩
    · exact .inl rfl
    · exact .inr ⟨hk, hk'⟩
  · rintro (rfl | ⟨hk, hk'⟩)
    · exact ⟨h, .inl rfl⟩
    · exact ⟨hk, .inr hk'⟩

theorem bits_of_clearBit {b b' : StaticBitmap size} {n : Nat}
    (hb' : b'.toDynamic = (b.toDynamic.clearBit n).2) : b'.bits = b.bits.erase n := by
  ext k
  simp only [mem_bits, hb', DynamicBitmap.checkBit_clearBit, Finset.mem_erase, Bool.and_eq_true,
    Bool.not_eq_true', decide_eq_false_iff_not]
  tauto

theorem toDynamic_clearMap (b : StaticBitmap size) : b.clearMap.toDynamic = b.toDynamic.clearMap :=
  rfl

theorem toDynamic_fillMap (b : StaticBitmap size) : b.fillMap.toDynamic = b.toDynamic.fillMap :=
  rfl

theorem bits_new : (new size).bits = ∅ := by
  ext k
  have hzero : ((List.replicate ((size + 7) / 8) (0 : UInt8))[k / 8]?).getD 0 = 0 := by
    rw [List.getElem?_replicate]
    split <;> rfl
  simp [mem_bits, toDynamic, new, DynamicBitmap.checkBit_eq, hzero]

theorem bits_clearMap (b : StaticBitmap size) : b.clearMap.bits = ∅ := by
  ext k
  rw [mem_bits, toDynamic_clearMap, DynamicBitmap.checkBit_clearMap]
  simp

theorem bits_fillMap (b : StaticBitmap size) : b.fillMap.bits = Finset.range (capacity size) := by
  ext k
  rw [mem_bits, toDynamic_fillMap, DynamicBitmap.checkBit_fillMap, Finset.mem_range]
  simp [toDynamic, b.length_map, capacity]

/-- One call on a bitmap standing for `S` returns what the set model of
the indices below `capacity size` returns on `S`, and leaves a bitmap
standing for what it leaves. -/
theorem call_refines {b : StaticBitmap size} {S : Finset ℕ} (h : b.bits = S) (c : BitmapCall) :
    (b.call c).1 = (BoundedSet.call (capacity size) S c).1 ∧
      (b.call c).2.bits = (BoundedSet.call (capacity size) S c).2 := by
  subst h
  cases c with
  | setBit n =>
      by_cases hn : n < capacity size
      · obtain ⟨b', hs, hb'⟩ := setBit_of_lt (b := b) hn
        have hr : (b.toDynamic.setBit n).1 = decide (n ∉ b.bits) := by
          simp [DynamicBitmap.setBit_fst, mem_bits, hn]
        simp [call, BoundedSet.call, hs, hn, hr, bits_of_setBit hn hb']
      · simp [call, BoundedSet.call, setBit_of_le (Nat.le_of_not_lt hn), hn]
  | clearBit n =>
      by_cases hn : n < capacity size
      · obtain ⟨b', hs, hb'⟩ := clearBit_of_lt (b := b) hn
        have hr : (b.toDynamic.clearBit n).1 = decide (n ∈ b.bits) := by
          simp [DynamicBitmap.clearBit_fst, mem_bits, hn]
        simp [call, BoundedSet.call, hs, hn, hr, bits_of_clearBit hb']
      · simp [call, BoundedSet.call, clearBit_of_le (Nat.le_of_not_lt hn), hn]
  | clearMap => exact ⟨rfl, bits_clearMap b⟩
  | fillMap => exact ⟨rfl, bits_fillMap b⟩

end StaticBitmap

/-- Every run of calls on the macro's instance of `static_bitmap!(_, _, size)`
returns, call by call, what a set of the indices below `8 · ⌈size / 8⌉`
returns, and ends standing for the same set. -/
theorem static_bitmap_implements_bounded_set (size : Nat) (calls : List BitmapCall) :
    (runCalls (@StaticBitmap.call size) (StaticBitmap.new size) calls).1 =
        (runCalls (BoundedSet.call (8 * ((size + 7) / 8))) ∅ calls).1 ∧
      (runCalls (@StaticBitmap.call size) (StaticBitmap.new size) calls).2.bits =
        (runCalls (BoundedSet.call (8 * ((size + 7) / 8))) ∅ calls).2 :=
  runCalls_sim (fun (b : StaticBitmap size) (S : Finset ℕ) => b.bits = S) (fun _ _ c h => StaticBitmap.call_refines h c)
    StaticBitmap.bits_new calls

/-- A bitmap of 10 bits takes index 15, the last bit of its second byte. -/
example : ((StaticBitmap.new 10).setBit 15).toOption.map Prod.fst = some true := by
  decide

end Collections
end NoIdeaOS
