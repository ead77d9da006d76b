import Mathlib.Data.List.Basic
import Mathlib.Data.BitVec

/-!
# `DynamicBitmap`: a growable set of naturals

`special_collections/bitmap.rs`.  Index `n` lives in byte `n / 8` of a
`Vec<u8>` under the mask `1 << (n % 8)`; `set_bit` grows the vector with
zero bytes when the byte does not exist yet.  The process manager uses one
as the registry of the names taken by Periodic processes.

**Abstract meaning.**  A bitmap stands for the set of indices whose
`check_bit` is true.  `checkBit_setBit` and `checkBit_clearBit` say that
`set_bit n` adds `n` and `clear_bit n` removes it, leaving every other index
as it was (the growing branch included), and `setBit_fst`, `clearBit_fst`
that the returned flag says whether the set changed.  Bytes are `UInt8`;
the bit facts are read through `UInt8.toBitVec`.  Over whole runs of calls
from `new` (`runCalls`), the bitmap stands for the set the calls make
(`afterCall`), and each call returns what that set says
(`bitmap_implements_set`).
-/

namespace NoIdeaOS
namespace Collections

/-- `DynamicBitmap`: the bytes of the map, byte `i` holding indices `8 i … 8 i + 7`. -/
structure DynamicBitmap where
  data : List UInt8
deriving DecidableEq, Repr

namespace DynamicBitmap

/-- `0x1 << (n % 8)`: the mask of index `n` inside its byte. -/
def bitsetOf (n : Nat) : UInt8 :=
  1 <<< (n % 8).toUInt8

/-- `DynamicBitmap::new`. -/
def new : DynamicBitmap :=
  { data := [] }

/-- `DynamicBitmap::set_bit`: returns whether the bitmap changed. -/
def setBit (b : DynamicBitmap) (n : Nat) : Bool × DynamicBitmap :=
  let idx := n / 8
  let bitset := bitsetOf n
  match b.data[idx]? with
  | some elem =>
      if elem &&& bitset = 0 then (true, { data := b.data.set idx (elem ||| bitset) })
      else (false, b)
  | none =>
      -- `resize(idx + 1, 0)`, then `data[idx] |= bitset`
      let data := b.data ++ List.replicate (idx + 1 - b.data.length) 0
      (true, { data := data.modify idx (· ||| bitset) })

/-- `DynamicBitmap::clear_bit`: returns whether the bitmap changed. -/
def clearBit (b : DynamicBitmap) (n : Nat) : Bool × DynamicBitmap :=
  let idx := n / 8
  let bitset := bitsetOf n
  if (b.data[idx]?.getD 0) &&& bitset ≠ 0 then
    (true, { data := b.data.modify idx (· &&& ~~~bitset) })
  else (false, b)

/-- `DynamicBitmap::check_bit`. -/
def checkBit (b : DynamicBitmap) (n : Nat) : Bool :=
  (b.data[n / 8]?.getD 0) &&& bitsetOf n ≠ 0

/-- `DynamicBitmap::clear_map`. -/
def clearMap (b : DynamicBitmap) : DynamicBitmap :=
  { data := b.data.map fun _ => 0 }

/-- `DynamicBitmap::fill_map`. -/
def fillMap (b : DynamicBitmap) : DynamicBitmap :=
  { data := b.data.map fun _ => 255 }

/-! ## Bits of a byte -/

theorem getLsbD_bitsetOf (n i : Nat) :
    (bitsetOf n).toBitVec.getLsbD i = decide (i = n % 8) := by
  unfold bitsetOf
  have h8 : n % 8 < 8 := Nat.mod_lt _ (by omega)
  simp only [UInt8.toBitVec_shiftLeft]
  simp
  rw [Bool.eq_iff_iff]
  simp
  omega

theorem eq_zero_iff_getLsbD (x : UInt8) : x = 0 ↔ ∀ i, x.toBitVec.getLsbD i = false := by
  constructor
  · rintro rfl i
    simp
  · intro h
    apply UInt8.toBitVec_inj.mp
    ext i hi
    rw [← BitVec.getLsbD_eq_getElem]
    simpa using h i

/-- The mask of `n` selects bit `n % 8` of a byte. -/
theorem and_bitsetOf_ne_zero (x : UInt8) (n : Nat) :
    (x &&& bitsetOf n ≠ 0) ↔ x.toBitVec.getLsbD (n % 8) = true := by
  rw [Ne, eq_zero_iff_getLsbD]
  simp only [UInt8.toBitVec_and, BitVec.getLsbD_and, getLsbD_bitsetOf]
  constructor
  · intro h
    by_contra hc
    apply h
    intro i
    by_cases hi : i = n % 8
    · subst hi
      simpa using hc
    · simp [hi]
  · intro h hall
    have := hall (n % 8)
    simp [h] at this

theorem getLsbD_or_bitsetOf (x : UInt8) (n i : Nat) :
    (x ||| bitsetOf n).toBitVec.getLsbD i = (x.toBitVec.getLsbD i || decide (i = n % 8)) := by
  simp [UInt8.toBitVec_or, getLsbD_bitsetOf]

theorem getLsbD_and_not_bitsetOf (x : UInt8) (n i : Nat) :
    (x &&& ~~~bitsetOf n).toBitVec.getLsbD i =
      (x.toBitVec.getLsbD i && !decide (i = n % 8)) := by
  by_cases hi : i < 8
  · simp only [UInt8.toBitVec_and, UInt8.toBitVec_not, BitVec.getLsbD_and, BitVec.getLsbD_not,
      getLsbD_bitsetOf]
    simp [hi]
  · rw [BitVec.getLsbD_of_ge _ _ (by omega), BitVec.getLsbD_of_ge _ _ (by omega)]
    simp

/-! ## `check_bit` as membership -/

/-- `check_bit n` reads bit `n % 8` of byte `n / 8`, a missing byte reading as zero. -/
theorem checkBit_eq (b : DynamicBitmap) (n : Nat) :
    b.checkBit n = (b.data[n / 8]?.getD 0).toBitVec.getLsbD (n % 8) := by
  unfold checkBit
  rw [Bool.eq_iff_iff, decide_eq_true_iff, and_bitsetOf_ne_zero]

/-- Two indices are equal exactly when they share a byte and a bit. -/
theorem eq_iff_div_mod (k n : Nat) : k = n ↔ k / 8 = n / 8 ∧ k % 8 = n % 8 := by
  constructor
  · rintro rfl
    exact ⟨rfl, rfl⟩
  · rintro ⟨h1, h2⟩
    omega

@[simp] theorem checkBit_new (n : Nat) : new.checkBit n = false := by
  simp [checkBit_eq, new]

/-- Padding with zero bytes changes no byte as `check_bit` reads it. -/
theorem getD_append_replicate_zero (l : List UInt8) (m i : Nat) :
    ((l ++ List.replicate m 0)[i]?).getD 0 = (l[i]?).getD 0 := by
  by_cases hi : i < l.length
  · rw [List.getElem?_append_left hi]
  · rw [List.getElem?_append_right (by omega), List.getElem?_replicate,
      List.getElem?_eq_none_iff.mpr (by omega)]
    split <;> rfl

/-- `set_bit n` adds `n` and leaves every other index alone. -/
theorem checkBit_setBit (b : DynamicBitmap) (n k : Nat) :
    (b.setBit n).2.checkBit k = (decide (k = n) || b.checkBit k) := by
  have hkn := eq_iff_div_mod k n
  rcases helem : b.data[n / 8]? with _ | elem
  · -- the byte is missing: the vector grows with zero bytes first
    have hlen : b.data.length ≤ n / 8 := List.getElem?_eq_none_iff.mp helem
    have hn : (b.data ++ List.replicate (n / 8 + 1 - b.data.length) 0)[n / 8]? = some 0 := by
      rw [List.getElem?_append_right hlen, List.getElem?_replicate]
      simp
      omega
    simp only [setBit, helem, checkBit_eq, List.getElem?_modify]
    by_cases hk : k / 8 = n / 8
    · simp [hk, hn, helem, getLsbD_bitsetOf, hkn]
    · have hnk : n / 8 ≠ k / 8 := Ne.symm hk
      simp only [hnk, if_false]
      simp [getD_append_replicate_zero, hkn, hk]
  · obtain ⟨hlt, hget⟩ := List.getElem?_eq_some_iff.mp helem
    by_cases hset : elem &&& bitsetOf n = 0
    · have hbit : elem.toBitVec.getLsbD (n % 8) = false := by
        simpa using mt (and_bitsetOf_ne_zero elem n).mpr (not_not.mpr hset)
      simp only [setBit, helem, hset, if_true, checkBit_eq, List.getElem?_set]
      by_cases hk : k / 8 = n / 8
      · by_cases hm : k % 8 = n % 8
        · simp [hlt, hget, hbit, getLsbD_bitsetOf, hkn.mpr ⟨hk, hm⟩]
        · simp [hk, hm, hlt, hget, hkn, getLsbD_bitsetOf]
      · simp [hk, hkn, Ne.symm hk]
    · have hbit : elem.toBitVec.getLsbD (n % 8) = true := (and_bitsetOf_ne_zero elem n).mp hset
      simp only [setBit, helem, hset, if_false, checkBit_eq]
      by_cases hk : k / 8 = n / 8
      · by_cases hm : k % 8 = n % 8
        · simp [hk, hm, helem, hbit]
        · simp [hk, hm, hkn]
      · simp [hk, hkn]

/-- `set_bit` reports a change exactly when `n` was absent. -/
theorem setBit_fst (b : DynamicBitmap) (n : Nat) : (b.setBit n).1 = !b.checkBit n := by
  rcases helem : b.data[n / 8]? with _ | elem
  · simp [setBit, helem, checkBit_eq]
  · by_cases hset : elem &&& bitsetOf n = 0
    · have hbit : elem.toBitVec.getLsbD (n % 8) = false := by
        simpa using mt (and_bitsetOf_ne_zero elem n).mpr (not_not.mpr hset)
      simp [setBit, helem, hset, checkBit_eq, hbit]
    · have hbit : elem.toBitVec.getLsbD (n % 8) = true := (and_bitsetOf_ne_zero elem n).mp hset
      simp [setBit, helem, hset, checkBit_eq, hbit]

/-- A `set_bit` that reports no change leaves the bitmap as it was. -/
theorem setBit_snd_of_fst_false {b : DynamicBitmap} {n : Nat} (h : (b.setBit n).1 = false) :
    (b.setBit n).2 = b := by
  rcases helem : b.data[n / 8]? with _ | elem
  · simp [setBit, helem] at h
  · by_cases hset : elem &&& bitsetOf n = 0
    · simp [setBit, helem, hset] at h
    · simp [setBit, helem, hset]

/-- `clear_bit` reports a change exactly when `n` was present. -/
theorem clearBit_fst (b : DynamicBitmap) (n : Nat) : (b.clearBit n).1 = b.checkBit n := by
  by_cases h : (b.data[n / 8]?.getD 0) &&& bitsetOf n ≠ 0 <;> simp [clearBit, checkBit, h]

/-- `clear_bit n` removes `n` and leaves every other index alone. -/
theorem checkBit_clearBit (b : DynamicBitmap) (n k : Nat) :
    (b.clearBit n).2.checkBit k = (!decide (k = n) && b.checkBit k) := by
  have hkn := eq_iff_div_mod k n
  by_cases hset : (b.data[n / 8]?.getD 0) &&& bitsetOf n ≠ 0
  · simp only [clearBit, hset, if_true, ne_eq, not_false_eq_true, checkBit_eq,
      List.getElem?_modify]
    by_cases hk : k / 8 = n / 8
    · simp only [hk, if_true]
      rcases b.data[n / 8]? with _ | elem
      · simp
      · simp only [Option.map_eq_map, Option.map_some, Option.getD_some,
          getLsbD_and_not_bitsetOf]
        simp [hkn, hk, Bool.and_comm]
    · have hnk : n / 8 ≠ k / 8 := Ne.symm hk
      simp only [hnk, if_false]
      simp [hkn, hk]
  · have hbit : (b.data[n / 8]?.getD 0).toBitVec.getLsbD (n % 8) = false := by
      simpa using mt (and_bitsetOf_ne_zero _ n).mpr hset
    simp only [clearBit, hset, if_false, checkBit_eq]
    by_cases hn : k = n
    · subst hn
      simp [hbit]
    · simp [hn]

/-- `clear_map` empties the set. -/
theorem checkBit_clearMap (b : DynamicBitmap) (k : Nat) : b.clearMap.checkBit k = false := by
  rw [checkBit_eq]
  simp only [clearMap, List.map_const', List.getElem?_replicate]
  split <;> simp

/-- `fill_map` makes the set every index inside the bytes. -/
theorem checkBit_fillMap (b : DynamicBitmap) (k : Nat) :
    b.fillMap.checkBit k = decide (k < 8 * b.data.length) := by
  rw [checkBit_eq]
  simp only [fillMap, List.map_const', List.getElem?_replicate]
  by_cases hk : k < 8 * b.data.length
  · have hbyte : k / 8 < b.data.length := by omega
    have hones : ∀ i : Fin 8, (255 : UInt8).toBitVec.getLsbD i.1 = true := by decide
    rw [if_pos hbyte, Option.getD_some, hones ⟨k % 8, Nat.mod_lt _ (by omega)⟩, decide_eq_true hk]
  · have hbyte : ¬ k / 8 < b.data.length := by omega
    simp [hbyte, hk]

/-- Only indices inside the bytes can be set. -/
theorem lt_of_checkBit {b : DynamicBitmap} {k : Nat} (h : b.checkBit k = true) :
    k < 8 * b.data.length := by
  rw [checkBit_eq] at h
  by_contra hk
  rw [List.getElem?_eq_none (by omega)] at h
  simp at h

/-! ## The bitmap as a set of naturals -/

/-- A call on a bitmap. -/
inductive Call
  | setBit (n : Nat)
  | clearBit (n : Nat)
  | checkBit (n : Nat)
  | clearMap
  | fillMap
deriving DecidableEq, Repr

/-- A call run on `b`: what it returns (`clear_map` and `fill_map` return
nothing) and the bitmap after it. -/
def call (b : DynamicBitmap) : Call → Option Bool × DynamicBitmap
  | .setBit n => (some (b.setBit n).1, (b.setBit n).2)
  | .clearBit n => (some (b.clearBit n).1, (b.clearBit n).2)
  | .checkBit n => (some (b.checkBit n), b)
  | .clearMap => (none, b.clearMap)
  | .fillMap => (none, b.fillMap)

/-- The set a call leaves, from the set `S` of a bitmap of `len` bytes:
`fill_map` adds every index below `8 · len`. -/
def afterCall (S : Set ℕ) (len : Nat) : Call → Set ℕ
  | .setBit n => insert n S
  | .clearBit n => S \ {n}
  | .checkBit _ => S
  | .clearMap => ∅
  | .fillMap => S ∪ {k | k < 8 * len}

/-- What a call on the set `S` returns: `set_bit n` whether `n` was absent,
`clear_bit n` and `check_bit n` whether it was present, the map calls nothing. -/
def Returns (S : Set ℕ) : Call → Option Bool → Prop
  | .setBit n, r => ∃ v, r = some v ∧ (v = true ↔ n ∉ S)
  | .clearBit n, r => ∃ v, r = some v ∧ (v = true ↔ n ∈ S)
  | .checkBit n, r => ∃ v, r = some v ∧ (v = true ↔ n ∈ S)
  | .clearMap, r => r = none
  | .fillMap, r => r = none

/-- `b` stands for the set `S`: `check_bit` answers membership. -/
def Represents (b : DynamicBitmap) (S : Set ℕ) : Prop :=
  ∀ k, b.checkBit k = true ↔ k ∈ S

/-- The bitmap and the set it stands for, after `calls` from `st`. -/
def runCalls (st : DynamicBitmap × Set ℕ) (calls : List Call) : DynamicBitmap × Set ℕ :=
  calls.foldl (fun st c => ((st.1.call c).2, afterCall st.2 st.1.data.length c)) st

theorem represents_new : Represents new ∅ := by
  intro k
  simp

/-- One call returns what the set says, and the bitmap after it stands for the
set after it. -/
theorem represents_call {b : DynamicBitmap} {S : Set ℕ} (h : Represents b S) (c : Call) :
    Returns S c (b.call c).1 ∧ Represents (b.call c).2 (afterCall S b.data.length c) := by
  cases c with
  | setBit n =>
      refine ⟨⟨_, rfl, ?_⟩, fun k => ?_⟩
      · simp [setBit_fst, ← h n]
      · simp [call, afterCall, checkBit_setBit, h k]
  | clearBit n =>
      refine ⟨⟨_, rfl, ?_⟩, fun k => ?_⟩
      · simp [clearBit_fst, h n]
      · simp [call, afterCall, checkBit_clearBit, h k, and_comm]
  | checkBit n => exact ⟨⟨_, rfl, h n⟩, h⟩
  | clearMap => exact ⟨rfl, fun k => by simp [call, afterCall, checkBit_clearMap]⟩
  | fillMap =>
      refine ⟨rfl, fun k => ?_⟩
      -- the set already lies below `8 · len`, so adding that range fills it
      simp only [call, afterCall, checkBit_fillMap, decide_eq_true_eq, Set.mem_union,
        Set.mem_ofPred_eq, iff_or_self]
      intro hk
      exact lt_of_checkBit ((h k).mpr hk)

theorem represents_runCalls {st : DynamicBitmap × Set ℕ} (h : Represents st.1 st.2)
    (calls : List Call) : Represents (runCalls st calls).1 (runCalls st calls).2 := by
  induction calls generalizing st with
  | nil => exact h
  | cons c calls ih => exact ih (represents_call h c).2

/-- After any calls from `DynamicBitmap::new()`, the bitmap stands for the
set those calls make, and the next call returns what that set says and leaves
the bitmap standing for the set after it. -/
theorem bitmap_implements_set (calls : List Call) (c : Call) :
    let st := runCalls (new, ∅) calls
    Represents st.1 st.2 ∧ Returns st.2 c (st.1.call c).1 ∧
      Represents (st.1.call c).2 (afterCall st.2 st.1.data.length c) := by
  intro st
  -- the start state is given, not found by unifying the two projections
  have h : Represents st.1 st.2 := @represents_runCalls (new, ∅) represents_new calls
  exact ⟨h, represents_call h c⟩

end DynamicBitmap

end Collections
end NoIdeaOS
