import NoIdeaOS.Memory.HeapInvariant

/-!
# Runs of the heap allocator

`HeapRun heapStart heapSize mem₀ a live`: the allocator `a`, with the live
allocations `live`, is reached from `init(heap_start, heap_size)` over the
memory `mem₀` by calls of `alloc`, of `dealloc` on a live allocation with the
layout it was allocated with, and by writes of the program into its own
allocations.  An `alloc` that returns null makes no allocation.

Every state of a run satisfies the invariant of `HeapInvariant` and covers
the bytes `init` placed on the free lists.  From it: every block `alloc`
returns is aligned, inside the heap and apart from every other block, live
or free; no free list holds a block twice and no byte is lost or made.
-/

namespace NoIdeaOS
namespace Memory

open Links Fallible FixedSizeBlockAllocator

inductive HeapRun (heapStart heapSize : Nat) (mem₀ : Nat → Option Nat) :
    FixedSizeBlockAllocator → List (Nat × Layout) → Prop
  | init : HeapRun heapStart heapSize mem₀ ((FixedSizeBlockAllocator.new mem₀).init heapStart heapSize) []
  | alloc {a a' : FixedSizeBlockAllocator} {live : List (Nat × Layout)} {layout : Layout} {p : Nat} :
      HeapRun heapStart heapSize mem₀ a live → a.alloc layout = .ok (p, a') →
      HeapRun heapStart heapSize mem₀ a' (if p = 0 then live else (p, layout) :: live)
  | dealloc {a a' : FixedSizeBlockAllocator} {live : List (Nat × Layout)} {p : Nat} {layout : Layout} :
      HeapRun heapStart heapSize mem₀ a live → (p, layout) ∈ live → a.dealloc p layout = .ok a' →
      HeapRun heapStart heapSize mem₀ a' (live.erase (p, layout))
  | write {a : FixedSizeBlockAllocator} {live : List (Nat × Layout)} {e : Nat × Layout} {x : Nat}
      {v : Option Nat} :
      HeapRun heapStart heapSize mem₀ a live → e ∈ live → e.1 ≤ x → x < e.1 + e.2.size →
      HeapRun heapStart heapSize mem₀ { a with mem := Function.update a.mem x v } live

/-- Every state of a run keeps the invariant and the bytes of the state
after `init`. -/
theorem heapOk_of_run {heapStart heapSize : Nat} {mem₀ : Nat → Option Nat}
    {a : FixedSizeBlockAllocator} {live : List (Nat × Layout)} {L₀ : Nat → List Nat}
    (h₀ : HeapInv heapStart (heapStart + heapSize)
      ((FixedSizeBlockAllocator.new mem₀).init heapStart heapSize) [] L₀)
    (hrun : HeapRun heapStart heapSize mem₀ a live) :
    HeapOk heapStart (heapStart + heapSize) a live (heapBytes (heapBlocks L₀ [])) := by
  induction hrun with
  | init => exact ⟨L₀, h₀, rfl⟩
  | alloc _ ha ih =>
      obtain ⟨L, hinv, hbytes⟩ := ih
      rcases hinv.alloc ha with ⟨rfl, rfl⟩ | ⟨hpos, L', hinv', hbytes'⟩
      · exact ⟨L, by simpa using hinv, by simpa using hbytes⟩
      · rw [if_neg (Nat.pos_iff_ne_zero.mp hpos)]
        exact ⟨L', hinv', hbytes'.trans hbytes⟩
  | dealloc _ he hd ih =>
      obtain ⟨L, hinv, hbytes⟩ := ih
      obtain ⟨L', hinv', hbytes'⟩ := hinv.dealloc he hd
      exact ⟨L', hinv', hbytes'.trans hbytes⟩
  | write _ he hlo hhi ih =>
      obtain ⟨L, hinv, hbytes⟩ := ih
      exact ⟨L, hinv.write he hlo hhi, hbytes⟩

theorem heapInv_of_run {heapStart heapSize : Nat} {mem₀ : Nat → Option Nat}
    {a : FixedSizeBlockAllocator} {live : List (Nat × Layout)} (hstart : heapStart % 65536 = 0)
    (hrun : HeapRun heapStart heapSize mem₀ a live) :
    ∃ L, HeapInv heapStart (heapStart + heapSize) a live L := by
  obtain ⟨L₀, h₀⟩ := heapInv_init heapSize hstart mem₀
  obtain ⟨L, hinv, -⟩ := heapOk_of_run h₀ hrun
  exact ⟨L, hinv⟩

/-- A run past `init`: the 64 KiB block of a 64 KiB heap is split for a
first allocation of 32 KiB, a second one takes its other half, and the
first is freed. -/
theorem heapRun_split_and_free :
    let layout : Layout := ⟨32768, 8, ⟨3, rfl⟩⟩
    ∃ a₁ a₂ a₃, ((FixedSizeBlockAllocator.new fun _ => none).init 65536 65536).alloc layout =
        .ok (65536, a₁) ∧ a₁.alloc layout = .ok (98304, a₂) ∧
      a₂.dealloc 65536 layout = .ok a₃ ∧ a₃.listHeads 12 = some 65536 ∧
      HeapRun 65536 65536 (fun _ => none) a₃ [(98304, layout)] := by
  intro layout
  refine ⟨_, _, _, rfl, rfl, rfl, rfl, ?_⟩
  -- the pointers are not null, so each allocation is live
  exact @HeapRun.dealloc _ _ _ _ _ _ 65536 layout (@HeapRun.alloc _ _ _ _ _ [(65536, layout)] layout 98304
    (@HeapRun.alloc _ _ _ _ _ [] layout 65536 .init rfl) rfl) (by decide) rfl

/-- Every non-null block `alloc` returns is aligned as its layout asks, lies
in the heap, and overlaps no live allocation and no block on a free list. -/
theorem alloc_block_aligned_in_heap_and_apart {heapStart heapSize : Nat}
    {mem₀ : Nat → Option Nat} {a : FixedSizeBlockAllocator} {live : List (Nat × Layout)}
    (hstart : heapStart % 65536 = 0) (hrun : HeapRun heapStart heapSize mem₀ a live) :
    ∀ layout p a', a.alloc layout = .ok (p, a') → p ≠ 0 →
      p % layout.align = 0 ∧ heapStart ≤ p ∧ p + layout.size ≤ heapStart + heapSize ∧
      (∀ e ∈ live, p + layout.size ≤ e.1 ∨ e.1 + e.2.size ≤ p) ∧
      ∃ L, FreeLists a' L ∧ ∀ i < 14, ∀ b ∈ L i, p + layout.size ≤ b ∨ b + blockSize i ≤ p := by
  intro layout p a' halloc hp
  obtain ⟨L, hinv⟩ := heapInv_of_run hstart hrun
  rcases hinv.alloc halloc with ⟨rfl, -⟩ | ⟨-, L', hinv', -⟩
  · exact absurd rfl hp
  obtain ⟨i, hidx⟩ : ∃ i, listIndex layout = some i :=
    Option.isSome_iff_exists.mp (hinv'.classes _ List.mem_cons_self)
  have hfit := (listIndex_spec hidx).2
  have hblock : liveBlock (p, layout) = (i, p) := by simp [liveBlock, hidx]
  have hgood := hinv'.blocks.good _ (live_mem_heapBlocks (L := L') List.mem_cons_self)
  rw [hblock] at hgood
  obtain ⟨-, hal, hlo, hhi, -⟩ : i < 14 ∧ p % blockSize i = 0 ∧ heapStart ≤ p ∧
      p + blockSize i ≤ heapStart + heapSize ∧ 0 < p := hgood
  -- the new block against the other live blocks, and against the free ones
  obtain ⟨-, hlive, hcross⟩ := List.pairwise_append.mp hinv'.blocks.apart
  have hmine : (i, p) ∈ ((p, layout) :: live).map liveBlock :=
    hblock ▸ List.mem_map_of_mem List.mem_cons_self
  rw [List.map_cons, hblock, List.pairwise_cons] at hlive
  refine ⟨?_, hlo, by omega, fun e he => ?_, L', hinv'.lists, fun j hj b hb => ?_⟩
  · exact Nat.mod_eq_zero_of_dvd ((align_dvd_blockSize hidx).trans (Nat.dvd_of_mod_eq_zero hal))
  · obtain ⟨c, hc⟩ := Option.isSome_iff_exists.mp (hinv.classes e he)
    have hfit' := (listIndex_spec hc).2
    have hsep := hlive.1 (liveBlock e) (List.mem_map_of_mem he)
    simp only [Apart, liveBlock, hc, Option.getD_some] at hsep
    omega
  · have hsep := hcross (j, b) (mem_freeBlocks.mpr ⟨hj, hb⟩) (i, p) hmine
    simp only [Apart] at hsep
    omega

theorem alloc_block_aligned_in_heap_and_apart_after_free :
    let layout : Layout := ⟨32768, 8, ⟨3, rfl⟩⟩
    ∃ a₁ a₂ a₃, ((FixedSizeBlockAllocator.new fun _ => none).init 65536 65536).alloc layout =
        .ok (65536, a₁) ∧ a₁.alloc layout = .ok (98304, a₂) ∧
      a₂.dealloc 65536 layout = .ok a₃ ∧
      65536 % 65536 = 0 ∧ HeapRun 65536 65536 (fun _ => none) a₃ [(98304, layout)] ∧
      -- the freed half is handed out again
      (∃ a₄, a₃.alloc layout = .ok (65536, a₄)) ∧
      ∀ layout' p a', a₃.alloc layout' = .ok (p, a') → p ≠ 0 →
        p % layout'.align = 0 ∧ 65536 ≤ p ∧ p + layout'.size ≤ 65536 + 65536 ∧
        (∀ e ∈ [(98304, layout)], p + layout'.size ≤ e.1 ∨ e.1 + e.2.size ≤ p) ∧
        ∃ L, FreeLists a' L ∧ ∀ i < 14, ∀ b ∈ L i, p + layout'.size ≤ b ∨ b + blockSize i ≤ p := by
  intro layout
  obtain ⟨a₁, a₂, a₃, h₁, h₂, h₃, hhead, hrun⟩ := heapRun_split_and_free
  have hstart : 65536 % 65536 = 0 := rfl
  have hidx : listIndex layout = some 12 := rfl
  have hagain : ∃ a₄, a₃.alloc layout = .ok (65536, a₄) :=
    ⟨_, by simp only [alloc, hidx, popNode, hhead]; rfl⟩
  exact ⟨a₁, a₂, a₃, h₁, h₂, h₃, hstart, hrun, hagain,
    alloc_block_aligned_in_heap_and_apart hstart hrun⟩

/-- Under the allocator's preconditions `alloc` runs out of memory only when
it must: it returns null exactly when every list from the layout's class up
is empty, and otherwise the head of the first non-empty one of them (list
`list_index(layout)` itself when it is not empty), where `list_index` is the
least class that holds the layout. -/
theorem alloc_uses_smallest_fitting_block {heapStart heapSize : Nat} {mem₀ : Nat → Option Nat}
    {a : FixedSizeBlockAllocator} {live : List (Nat × Layout)} (hstart : heapStart % 65536 = 0)
    (hrun : HeapRun heapStart heapSize mem₀ a live) {layout : Layout}
    (hsize : max layout.size layout.align ≤ 65536) :
    ∃ i, listIndex layout = some i ∧ max layout.size layout.align ≤ blockSize i ∧
      (∀ k < i, blockSize k < max layout.size layout.align) ∧
      ∃ p a', a.alloc layout = .ok (p, a') ∧
        (p = 0 ↔ ∀ k, i ≤ k → k < 14 → a.listHeads k = none) ∧
        ∀ j X, i ≤ j → j < 14 → (∀ k, i ≤ k → k < j → a.listHeads k = none) →
          a.listHeads j = some X → p = X := by
  obtain ⟨L, hinv⟩ := heapInv_of_run hstart hrun
  obtain ⟨i, hidx⟩ := Option.isSome_iff_exists.mp (listIndex_isSome hsize)
  obtain ⟨⟨p, a'⟩, halloc⟩ : ∃ r, a.alloc layout = .ok r := by
    cases h : a.alloc layout with
    | error e => exact absurd ((alloc_panics_iff_too_big a layout).mp ⟨e, h⟩) (by omega)
    | ok r => exact ⟨r, rfl⟩
  -- the head of a free list is a block of the heap, so it is not null
  have hpos : ∀ k < 14, ∀ X, a.listHeads k = some X → 0 < X := by
    intro k hk X hX
    obtain ⟨t, hL, -⟩ := Chain.some_iff.mp (hX ▸ hinv.lists k hk)
    have hmem : X ∈ L k := hL ▸ List.mem_cons_self
    exact (hinv.blocks.good _ (free_mem_heapBlocks hk hmem)).2.2.2.2
  refine ⟨i, hidx, (listIndex_spec hidx).2, listIndex_least hidx, p, a', halloc, ?_⟩
  rcases alloc_eq_ok_head halloc hidx with ⟨rfl, hempty⟩ | ⟨j, hij, hj, hbefore, hhead⟩
  · refine ⟨⟨fun _ => hempty, fun _ => rfl⟩, fun j X hij hj _ hX => ?_⟩
    rw [hempty j hij hj] at hX
    cases hX
  · have hp := hpos j hj p hhead
    refine ⟨⟨fun h0 => absurd h0 (by omega), fun hall => ?_⟩, fun j' X hij' hj' hbefore' hX => ?_⟩
    · rw [hall j hij hj] at hhead
      cases hhead
    · -- both `j` and `j'` are the first non-empty list from `i`
      rcases Nat.lt_trichotomy j j' with hlt | rfl | hgt
      · rw [hbefore' j hij hlt] at hhead
        cases hhead
      · exact Option.some.inj (hhead.symm.trans hX)
      · rw [hbefore j' hij' hgt] at hX
        cases hX

theorem alloc_uses_smallest_fitting_block_after_init :
    let a := (FixedSizeBlockAllocator.new fun _ => none).init 65536 65536
    let layout : Layout := ⟨8, 8, ⟨3, rfl⟩⟩
    65536 % 65536 = 0 ∧ HeapRun 65536 65536 (fun _ => none) a [] ∧
      max layout.size layout.align ≤ 65536 ∧
      ∃ i, listIndex layout = some i ∧ max layout.size layout.align ≤ blockSize i ∧
        (∀ k < i, blockSize k < max layout.size layout.align) ∧
        ∃ p a', a.alloc layout = .ok (p, a') ∧
          (p = 0 ↔ ∀ k, i ≤ k → k < 14 → a.listHeads k = none) ∧
          ∀ j X, i ≤ j → j < 14 → (∀ k, i ≤ k → k < j → a.listHeads k = none) →
            a.listHeads j = some X → p = X := by
  intro a layout
  have hstart : 65536 % 65536 = 0 := rfl
  have hsize : max layout.size layout.align ≤ 65536 := by decide
  exact ⟨hstart, .init, hsize, alloc_uses_smallest_fitting_block hstart .init hsize⟩

/-- No free list holds a block twice, and the bytes on the free lists and in
the live allocations are always the bytes `init` placed on the free lists. -/
theorem heap_bytes_conserved {heapStart heapSize : Nat} {mem₀ : Nat → Option Nat}
    {a : FixedSizeBlockAllocator} {live : List (Nat × Layout)} (hstart : heapStart % 65536 = 0)
    (hrun : HeapRun heapStart heapSize mem₀ a live) :
    ∃ L L₀, FreeLists a L ∧ (∀ i < 14, (L i).Nodup) ∧
      FreeLists ((FixedSizeBlockAllocator.new mem₀).init heapStart heapSize) L₀ ∧
      freeBytes L + liveBytes live = freeBytes L₀ := by
  obtain ⟨L₀, h₀⟩ := heapInv_init heapSize hstart mem₀
  obtain ⟨L, hinv, hbytes⟩ := heapOk_of_run h₀ hrun
  refine ⟨L, L₀, hinv.lists, fun i hi => (hinv.lists i hi).nodup, h₀.lists, ?_⟩
  rw [← heapBytes_heapBlocks, hbytes, heapBytes_heapBlocks]
  simp [liveBytes]

theorem heap_bytes_conserved_after_free :
    let layout : Layout := ⟨32768, 8, ⟨3, rfl⟩⟩
    ∃ a₁ a₂ a₃, ((FixedSizeBlockAllocator.new fun _ => none).init 65536 65536).alloc layout =
        .ok (65536, a₁) ∧ a₁.alloc layout = .ok (98304, a₂) ∧
      a₂.dealloc 65536 layout = .ok a₃ ∧ a₃.listHeads 12 = some 65536 ∧
      65536 % 65536 = 0 ∧ HeapRun 65536 65536 (fun _ => none) a₃ [(98304, layout)] ∧
      ∃ L L₀, FreeLists a₃ L ∧ (∀ i < 14, (L i).Nodup) ∧
        FreeLists ((FixedSizeBlockAllocator.new fun _ => none).init 65536 65536) L₀ ∧
        freeBytes L + liveBytes [(98304, layout)] = freeBytes L₀ := by
  intro layout
  obtain ⟨a₁, a₂, a₃, h₁, h₂, h₃, hhead, hrun⟩ := heapRun_split_and_free
  have hstart : 65536 % 65536 = 0 := rfl
  exact ⟨a₁, a₂, a₃, h₁, h₂, h₃, hhead, hstart, hrun, heap_bytes_conserved hstart hrun⟩

/-- In every state of a heap run, `split_larger_block` has exactly the
effect `afterSplit` describes: with `j` the first class above `blockIdx` with
a free block and `X` its head, it hands out `X` and leaves `X + BLOCK_SIZES[i]`
on each list `i` from `blockIdx` up to below `j`, changing no other list and
no other `next` field; with no such class it returns `None` and changes
nothing. -/
theorem splitLargerBlock_effect_of_run {heapStart heapSize : Nat} {mem₀ : Nat → Option Nat}
    {a : FixedSizeBlockAllocator} {live : List (Nat × Layout)} (hstart : heapStart % 65536 = 0)
    (hrun : HeapRun heapStart heapSize mem₀ a live) (blockIdx : Nat) :
    ((∀ k, blockIdx < k → k < 14 → a.listHeads k = none) →
      a.splitLargerBlock blockIdx = .ok (none, a)) ∧
    ∃ L, FreeLists a L ∧ ∀ j X, blockIdx < j → j < 14 →
      (∀ k, blockIdx < k → k < j → a.listHeads k = none) → a.listHeads j = some X →
      ∃ a', a.splitLargerBlock blockIdx = .ok (some X, a') ∧
        FreeLists a' (afterSplit L blockIdx j X) ∧
        ∀ p, p ≠ X → (∀ i, blockIdx ≤ i → i < j → p ≠ X + blockSize i) → a'.mem p = a.mem p := by
  obtain ⟨L, hinv⟩ := heapInv_of_run hstart hrun
  refine ⟨splitLargerBlock_of_empty, L, hinv.lists, fun j X hlo hhi hbefore hhead => ?_⟩
  have hchain := hinv.lists j hhi
  rw [hhead] at hchain
  obtain ⟨t, hLj, -⟩ := Chain.some_iff.mp hchain
  -- the heap's blocks do not overlap, so the split writes into no list
  obtain ⟨hother, hfresh⟩ := hinv.split_fresh hhi (show X ∈ L j by simp [hLj])
  exact hinv.lists.splitLargerBlock hlo hhi hbefore hhead hother
    fun i _ hij k hk => hfresh i hij k hk

theorem splitLargerBlock_effect_of_run_after_init :
    let a := (FixedSizeBlockAllocator.new fun _ => none).init 65536 65536
    65536 % 65536 = 0 ∧ HeapRun 65536 65536 (fun _ => none) a [] ∧
      a.splitLargerBlock 13 = .ok (none, a) ∧ a.listHeads 13 = some 65536 ∧
      ∃ L, FreeLists a L ∧ ∃ a', a.splitLargerBlock 12 = .ok (some 65536, a') ∧
        FreeLists a' (afterSplit L 12 13 65536) ∧
        ∀ p, p ≠ 65536 → (∀ i, 12 ≤ i → i < 13 → p ≠ 65536 + blockSize i) → a'.mem p = a.mem p := by
  intro a
  have hstart : 65536 % 65536 = 0 := rfl
  have hhead : a.listHeads 13 = some 65536 := by decide
  have hnone : ∀ k, 13 < k → k < 14 → a.listHeads k = none := fun k h₁ h₂ => absurd h₂ (by omega)
  have hbetween : ∀ k, 12 < k → k < 13 → a.listHeads k = none := fun k h₁ h₂ => absurd h₂ (by omega)
  obtain ⟨L, hL, hsplit⟩ := (splitLargerBlock_effect_of_run hstart .init 12).2
  exact ⟨hstart, .init, (splitLargerBlock_effect_of_run hstart .init 13).1 hnone, hhead, L, hL,
    hsplit 13 65536 (by decide) (by decide) hbetween hhead⟩

end Memory
end NoIdeaOS
