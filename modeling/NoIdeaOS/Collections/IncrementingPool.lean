import Mathlib.Data.List.Basic

/-!
# `IncrementingPool`: the pid allocator

`special_collections/incrementing_pool.rs`.  The pool hands out natural
numbers: the most recently returned one if there is any, and otherwise the
next value of a counter that started at `staring_point`.  The `Vec` of
returned elements is used as a stack; it is modelled by a list whose head is
the top (the element `pop` would return).  The counter is a `u64` that
would wrap only after `2 ^ 64` pids were handed out; it is a `Nat`.

**Abstract meaning.**  An element is *in use* when the counter has passed it
and it is not waiting in the pool.  `inUse_getFreeElem` and
`inUse_returnElem` say that `get_free_elem` adds one fresh element to that
set and `return_elem` removes one, under the invariant `Valid`: the pool is
duplicate-free and holds only elements the counter has passed.
-/

namespace NoIdeaOS
namespace Collections

/-- `IncrementingPool`: returned elements (top first) and the counter. -/
structure IncrementingPool where
  pool : List Nat
  currentMax : Nat
deriving DecidableEq, Repr

namespace IncrementingPool

/-- `IncrementingPool::new(staring_point)`. -/
def new (staringPoint : Nat) : IncrementingPool :=
  { pool := [], currentMax := staringPoint }

/-- `IncrementingPool::get_free_elem`: pop the pool, else bump the counter. -/
def getFreeElem (p : IncrementingPool) : Nat × IncrementingPool :=
  match p.pool with
  | out :: rest => (out, { p with pool := rest })
  | [] => (p.currentMax, { p with currentMax := p.currentMax + 1 })

/-- `IncrementingPool::return_elem`: push `elem` onto the pool. -/
def returnElem (p : IncrementingPool) (elem : Nat) : IncrementingPool :=
  { p with pool := elem :: p.pool }

/-- Elements handed out since a pool started at `start` and not returned. -/
def inUse (start : Nat) (p : IncrementingPool) (x : Nat) : Prop :=
  start ≤ x ∧ x < p.currentMax ∧ x ∉ p.pool

/-- The pool holds distinct elements, each already passed by the counter. -/
def Valid (start : Nat) (p : IncrementingPool) : Prop :=
  p.pool.Nodup ∧ ∀ x ∈ p.pool, start ≤ x ∧ x < p.currentMax

theorem valid_new (start : Nat) : Valid start (new start) := by
  simp [Valid, new]

theorem getFreeElem_valid {start : Nat} {p : IncrementingPool} (hv : Valid start p)
    (hs : start ≤ p.currentMax) :
    Valid start p.getFreeElem.2 ∧ start ≤ p.getFreeElem.2.currentMax := by
  unfold getFreeElem
  split
  · rename_i out rest hpool
    obtain ⟨hnd, hrange⟩ := hv
    rw [hpool] at hnd hrange
    refine ⟨⟨(List.nodup_cons.mp hnd).2, ?_⟩, hs⟩
    intro x hx
    exact hrange x (List.mem_cons_of_mem _ hx)
  · rename_i hpool
    refine ⟨⟨by simp [hpool], ?_⟩, by simp; omega⟩
    intro x hx
    simp [hpool] at hx

/-- The element handed out was not in use. -/
theorem getFreeElem_not_inUse (start : Nat) (p : IncrementingPool) :
    ¬ p.inUse start p.getFreeElem.1 := by
  unfold getFreeElem inUse
  split
  · rename_i out rest hpool
    simp [hpool]
  · simp

/-- The element handed out is at least the starting point. -/
theorem start_le_getFreeElem {start : Nat} {p : IncrementingPool} (hv : Valid start p)
    (hs : start ≤ p.currentMax) : start ≤ p.getFreeElem.1 := by
  unfold getFreeElem
  split
  · rename_i out rest hpool
    exact (hv.2 out (by simp [hpool])).1
  · exact hs

/-- `get_free_elem` adds exactly the element it returns to the in-use set. -/
theorem inUse_getFreeElem {start : Nat} {p : IncrementingPool} (hv : Valid start p)
    (hs : start ≤ p.currentMax) (x : Nat) :
    p.getFreeElem.2.inUse start x ↔ x = p.getFreeElem.1 ∨ p.inUse start x := by
  unfold getFreeElem inUse
  split
  · rename_i out rest hpool
    have hnd := hv.2 out (by simp [hpool])
    have hout : out ∉ rest := (List.nodup_cons.mp (hpool ▸ hv.1)).1
    simp only [hpool, List.mem_cons, not_or]
    constructor
    · rintro ⟨h1, h2, h3⟩
      by_cases hx : x = out
      · exact .inl hx
      · exact .inr ⟨h1, h2, hx, h3⟩
    · rintro (rfl | ⟨h1, h2, _, h3⟩)
      · exact ⟨hnd.1, hnd.2, hout⟩
      · exact ⟨h1, h2, h3⟩
  · rename_i hpool
    simp only [hpool, List.not_mem_nil, not_false_eq_true, and_true]
    omega

/-- `return_elem` removes exactly `elem` from the in-use set. -/
theorem inUse_returnElem {start : Nat} {p : IncrementingPool} {elem : Nat} (x : Nat) :
    (p.returnElem elem).inUse start x ↔ x ≠ elem ∧ p.inUse start x := by
  simp only [inUse, returnElem, List.mem_cons, not_or]
  tauto

theorem returnElem_valid {start : Nat} {p : IncrementingPool} {elem : Nat}
    (hv : Valid start p) (he : p.inUse start elem) : Valid start (p.returnElem elem) := by
  obtain ⟨h1, h2, h3⟩ := he
  refine ⟨List.nodup_cons.mpr ⟨h3, hv.1⟩, ?_⟩
  intro x hx
  rcases List.mem_cons.mp hx with rfl | hx
  · exact ⟨h1, h2⟩
  · exact hv.2 x hx

@[simp] theorem returnElem_currentMax (p : IncrementingPool) (elem : Nat) :
    (p.returnElem elem).currentMax = p.currentMax := rfl

end IncrementingPool

end Collections
end NoIdeaOS
