import NoIdeaOS.Memory.HeapBlocks

/-!
# The invariant of the heap allocator

`HeapInv heapStart heapEnd a live L`: the lists `L` are the free lists of
`a`, every live allocation has a class, and the free and live blocks are
good blocks of the heap that do not overlap (`BlocksOk`).  Each operation
keeps it, and keeps the bytes the blocks cover (`HeapOk`):

* `dealloc` and the direct pop of `alloc` move one block between the free
  lists and the live allocations, a permutation of the blocks;
* a round of `split_larger_block` replaces a block of class `k + 1` by its
  two halves of class `k`, which `BLOCK_SIZES[k + 1] = 2 · BLOCK_SIZES[k]`
  makes cover the same bytes;
* a write by the program into one of its allocations touches no `next`
  field of a free block;
* `init` pushes, class by class, blocks that lie above every block pushed
  before (`CarveInv`).
-/

namespace NoIdeaOS
namespace Memory

open Links Fallible FixedSizeBlockAllocator

structure HeapInv (heapStart heapEnd : Nat) (a : FixedSizeBlockAllocator)
    (live : List (Nat × Layout)) (L : Nat → List Nat) : Prop where
  lists : FreeLists a L
  classes : ∀ e ∈ live, (listIndex e.2).isSome
  blocks : BlocksOk heapStart heapEnd (heapBlocks L live)

/-- `a` with the allocations `live` keeps the invariant, its blocks covering
`n` bytes. -/
def HeapOk (heapStart heapEnd : Nat) (a : FixedSizeBlockAllocator) (live : List (Nat × Layout))
    (n : Nat) : Prop :=
  ∃ L, HeapInv heapStart heapEnd a live L ∧ heapBytes (heapBlocks L live) = n

section Steps

variable {heapStart heapEnd : Nat} {a a' : FixedSizeBlockAllocator}
  {live : List (Nat × Layout)} {L : Nat → List Nat}

/-- The block of a live allocation holds no node of a free list. -/
theorem HeapInv.not_mem_of_inside_live (h : HeapInv heapStart heapEnd a live L)
    {e : Nat × Layout} (he : e ∈ live) {x : Nat} (hlo : e.1 ≤ x)
    (hhi : x < e.1 + blockSize (liveBlock e).1) : ∀ j < 14, x ∉ L j := by
  intro j hj hx
  have hcross := (List.pairwise_append.mp h.blocks.apart).2.2 (j, x)
    (mem_freeBlocks.mpr ⟨hj, hx⟩) (liveBlock e) (List.mem_map_of_mem he)
  have hpos := h.blocks.pos (free_mem_heapBlocks hj hx)
  simp only [Apart, liveBlock] at hcross hhi hpos
  omega

/-- A node inside a free block of class `i` is that block's own node. -/
theorem HeapInv.eq_of_inside_free (h : HeapInv heapStart heapEnd a live L) {i j b x : Nat}
    (hi : i < 14) (hb : b ∈ L i) (hj : j < 14) (hx : x ∈ L j) (hlo : b ≤ x)
    (hhi : x < b + blockSize i) : j = i ∧ x = b := by
  have heq := h.blocks.eq_of_inside (free_mem_heapBlocks hj hx) (free_mem_heapBlocks hi hb) hlo hhi
  simp only [Prod.mk.injEq] at heq
  exact heq

/-- The head `X` of a free list of class `j` is on no other list, and the
blocks `split_larger_block` cuts it into are on no list: they lie inside
`X`'s block. -/
theorem HeapInv.split_fresh (h : HeapInv heapStart heapEnd a live L) {j X : Nat} (hj : j < 14)
    (hX : X ∈ L j) : (∀ k < 14, k ≠ j → X ∉ L k) ∧ ∀ i < j, ∀ k < 14, X + blockSize i ∉ L k := by
  have hpos : 0 < blockSize j := blockSize_pos hj
  refine ⟨fun k hk hkj hx => hkj (h.eq_of_inside_free hj hX hk hx (Nat.le_refl _) (by omega)).1,
    fun i hi k hk hx => ?_⟩
  have hlt : blockSize i < blockSize j := blockSize_lt_blockSize hi hj
  have hipos : 0 < blockSize i := blockSize_pos (by omega)
  have hsame := (h.eq_of_inside_free hj hX hk hx (by omega) (by omega)).2
  omega

/-- `dealloc` of a live allocation pushes its block back onto its list. -/
theorem HeapInv.dealloc (h : HeapInv heapStart heapEnd a live L) {p : Nat} {layout : Layout}
    (he : (p, layout) ∈ live) (hd : a.dealloc p layout = .ok a') :
    HeapOk heapStart heapEnd a' (live.erase (p, layout)) (heapBytes (heapBlocks L live)) := by
  obtain ⟨i, hidx, rfl⟩ := dealloc_eq_ok hd
  have hi : i < 14 := (listIndex_spec hidx).1
  have hblock : liveBlock (p, layout) = (i, p) := by simp [liveBlock, hidx]
  have hgood := h.blocks.good _ (live_mem_heapBlocks he)
  rw [hblock] at hgood
  have hfresh := h.not_mem_of_inside_live he (Nat.le_refl p)
    (by rw [hblock]; exact Nat.lt_add_of_pos_right (blockSize_pos hi))
  have hperm : (heapBlocks (Function.update L i (p :: L i)) (live.erase (p, layout))).Perm
      (heapBlocks L live) :=
    heapBlocks_dealloc_perm (freeBlocks_push hi) he hblock
  exact ⟨_, ⟨h.lists.push hi hgood.2.2.2.2 hfresh,
    fun e he' => h.classes e (List.mem_of_mem_erase he'), h.blocks.perm hperm⟩,
    heapBytes_perm hperm⟩

/-- Popping the head of list `i` takes it off the lists `L`, and off every
list. -/
theorem HeapInv.pop (h : HeapInv heapStart heapEnd a live L) {i node : Nat} (hi : i < 14)
    (hpop : a.popNode i = some (node, a')) :
    ∃ rest, L i = node :: rest ∧ (∀ j < 14, node ∉ Function.update L i rest j) ∧
      FreeLists a' (Function.update L i rest) := by
  have hchain := h.lists i hi
  rw [(popNode_eq_some.mp hpop).1] at hchain
  obtain ⟨rest, hL, -⟩ := Chain.some_iff.mp hchain
  have hnode : node ∈ L i := by simp [hL]
  have hother : ∀ j < 14, j ≠ i → node ∉ L j := fun j hj hji hx =>
    hji (h.eq_of_inside_free hi hnode hj hx (Nat.le_refl _)
      (Nat.lt_add_of_pos_right (blockSize_pos hi))).1
  have hrest : node ∉ rest := (List.nodup_cons.mp (hL ▸ (h.lists i hi).nodup)).1
  obtain ⟨rest', hL', hlists⟩ := h.lists.pop hi hpop hother
  rw [hL, List.cons.injEq] at hL'
  rw [← hL'.2] at hlists
  exact ⟨rest, hL, not_mem_update hother hrest, hlists⟩

/-- Popping the head of the list of a layout's class hands out a block. -/
theorem HeapInv.popNode (h : HeapInv heapStart heapEnd a live L) {i node : Nat}
    {layout : Layout} (hidx : listIndex layout = some i) (hpop : a.popNode i = some (node, a')) :
    0 < node ∧
      HeapOk heapStart heapEnd a' ((node, layout) :: live) (heapBytes (heapBlocks L live)) := by
  have hi : i < 14 := (listIndex_spec hidx).1
  obtain ⟨rest, hL, -, hlists⟩ := h.pop hi hpop
  have hblock : liveBlock (node, layout) = (i, node) := by simp [liveBlock, hidx]
  have hperm : (heapBlocks (Function.update L i rest) ((node, layout) :: live)).Perm
      (heapBlocks L live) :=
    heapBlocks_alloc_perm (freeBlocks_pop hi hL) hblock
  have hgood := h.blocks.good _ (free_mem_heapBlocks hi (by simp [hL] : node ∈ L i))
  refine ⟨hgood.2.2.2.2, _, ⟨hlists, ?_, h.blocks.perm hperm⟩, heapBytes_perm hperm⟩
  intro e he
  rcases List.mem_cons.mp he with rfl | he
  · simp [hidx]
  · exact h.classes e he

/-- A round of `split_larger_block` cuts the head `B` of list `k + 1` into
two blocks of class `k`: a pop, then two pushes of nodes that are on no
list. -/
theorem HeapInv.splitBlock (h : HeapInv heapStart heapEnd a live L) {k : Nat} (hk : k + 1 < 14)
    (hs : a.splitBlock k = .ok a') :
    HeapOk heapStart heapEnd a' live (heapBytes (heapBlocks L live)) := by
  obtain ⟨B, a₁, hpop, hpush⟩ := splitBlock_eq_pushNode hs
  obtain ⟨rest, hL, hB₁, hlists₁⟩ := h.pop hk hpop
  set L₁ := Function.update L (k + 1) rest
  have hB : B ∈ L (k + 1) := by simp [hL]
  have hgood := h.blocks.good _ (free_mem_heapBlocks hk hB : (k + 1, B) ∈ heapBlocks L live)
  have hpos : 0 < blockSize k := blockSize_pos (by omega)
  have hsucc : blockSize (k + 1) = 2 * blockSize k := blockSize_succ hk
  have hBpos : 0 < B := hgood.2.2.2.2
  have hhalf : ∀ j < 14, B + blockSize k ∉ L j := fun j hj hx => by
    have := (h.eq_of_inside_free hk hB hj hx (by omega) (by omega)).2
    omega
  have hhalf₁ : ∀ j < 14, B + blockSize k ∉ L₁ j :=
    not_mem_update (fun j hj _ => hhalf j hj) (fun hx => hhalf (k + 1) hk (by simp [hL, hx]))
  have hlists₂ := hlists₁.push (i := k) (by omega) (by omega) hhalf₁
  set L₂ := Function.update L₁ k ((B + blockSize k) :: L₁ k)
  have hB₂ : B ∉ (B + blockSize k) :: L₁ k := by
    rw [List.mem_cons, not_or]
    exact ⟨by omega, hB₁ k (by omega)⟩
  have hlists₃ := hlists₂.push (i := k) (by omega) hBpos (not_mem_update (fun j hj _ => hB₁ j hj) hB₂)
  rw [hpush hBpos]
  -- the blocks: `(k + 1, B)` is replaced by its halves
  have hfree : (freeBlocks L).Perm ((k + 1, B) :: freeBlocks L₁) := freeBlocks_pop hk hL
  have hfree' : (freeBlocks (Function.update L₂ k (B :: L₂ k))).Perm
      ((k, B) :: (k, B + blockSize k) :: freeBlocks L₁) :=
    (freeBlocks_push (L := L₂) (by omega)).trans ((freeBlocks_push (L := L₁) (by omega)).cons _)
  have hbefore := hfree.append_right (live.map liveBlock)
  have hafter := hfree'.append_right (live.map liveBlock)
  have hok := (h.blocks.perm hbefore.symm).split hk
  refine ⟨_, ⟨hlists₃, h.classes, hok.perm hafter⟩, ?_⟩
  simp only [heapBlocks]
  rw [heapBytes_perm hafter, heapBytes_perm hbefore]
  simp only [List.cons_append, heapBytes_cons, hsucc]
  omega

/-- The loop of `split_larger_block`, round after round. -/
theorem HeapInv.foldlM_splitBlock (h : HeapInv heapStart heapEnd a live L) {ks : List Nat}
    (hks : ∀ k ∈ ks, k + 1 < 14) (hf : ks.foldlM FixedSizeBlockAllocator.splitBlock a = .ok a') :
    HeapOk heapStart heapEnd a' live (heapBytes (heapBlocks L live)) := by
  induction ks generalizing a L with
  | nil =>
      simp only [List.foldlM_nil, pure_eq_ok, Except.ok.injEq] at hf
      exact ⟨L, hf ▸ h, rfl⟩
  | cons k ks ih =>
      rw [List.foldlM_cons] at hf
      obtain ⟨a₁, h₁, hrest⟩ := bind_eq_ok.mp hf
      obtain ⟨L₁, hinv₁, hbytes₁⟩ := h.splitBlock (hks k List.mem_cons_self) h₁
      obtain ⟨L', hinv', hbytes'⟩ :=
        ih hinv₁ (fun k' hk' => hks k' (List.mem_cons_of_mem _ hk')) hrest
      exact ⟨L', hinv', hbytes'.trans hbytes₁⟩

/-- An `alloc` that does not panic returns null and changes nothing, or hands
out a block. -/
theorem HeapInv.alloc (h : HeapInv heapStart heapEnd a live L) {layout : Layout} {p : Nat}
    (ha : a.alloc layout = .ok (p, a')) :
    (p = 0 ∧ a' = a) ∨
      (0 < p ∧ HeapOk heapStart heapEnd a' ((p, layout) :: live) (heapBytes (heapBlocks L live))) := by
  obtain ⟨i, hidx, hpop | ⟨-, c, hsplit, rfl⟩⟩ := alloc_eq_ok ha
  · exact .inr (h.popNode hidx hpop)
  · rcases splitLargerBlock_eq_ok hsplit with
      ⟨-, rfl, rfl⟩ | ⟨j, a₁, out, hfirst, hfold, hpop, rfl⟩
    · exact .inl ⟨rfl, rfl⟩
    · have hj := popFirstLargerBlockAvailable_spec hfirst
      have hks : ∀ k ∈ (List.range' i (j - i)).reverse, k + 1 < 14 := by
        intro k hk
        obtain ⟨m, hm, rfl⟩ := List.mem_range'.mp (List.mem_reverse.mp hk)
        omega
      obtain ⟨L₁, hinv₁, hbytes₁⟩ := h.foldlM_splitBlock hks hfold
      obtain ⟨hpos, L', hinv', hbytes'⟩ := hinv₁.popNode hidx hpop
      exact .inr ⟨hpos, L', hinv', hbytes'.trans hbytes₁⟩

/-- The program writes into one of its allocations. -/
theorem HeapInv.write (h : HeapInv heapStart heapEnd a live L) {e : Nat × Layout} (he : e ∈ live)
    {x : Nat} {v : Option Nat} (hlo : e.1 ≤ x) (hhi : x < e.1 + e.2.size) :
    HeapInv heapStart heapEnd { a with mem := Function.update a.mem x v } live L := by
  obtain ⟨i, hidx⟩ := Option.isSome_iff_exists.mp (h.classes e he)
  have hfit := (listIndex_spec hidx).2
  have hblock : (liveBlock e).1 = i := by simp [liveBlock, hidx]
  have hinside : x < e.1 + blockSize (liveBlock e).1 := by
    rw [hblock]
    omega
  exact ⟨h.lists.update_mem (h.not_mem_of_inside_live he hlo hinside), h.classes, h.blocks⟩

end Steps

/-! ## `init` -/

/-- The invariant of `init`'s loops at `current = s.2`: the blocks pushed so
far are good, apart, and all below `current`. -/
structure CarveInv (heapStart heapEnd : Nat) (s : FixedSizeBlockAllocator × Nat)
    (L : Nat → List Nat) : Prop where
  lists : FreeLists s.1 L
  blocks : BlocksOk heapStart heapEnd (freeBlocks L)
  below : ∀ x ∈ freeBlocks L, x.2 + blockSize x.1 ≤ s.2
  start : heapStart ≤ s.2
  inside : s.2 ≤ heapEnd

section Carve

variable {heapStart heapEnd : Nat} {s : FixedSizeBlockAllocator × Nat} {L : Nat → List Nat}

theorem CarveInv.lt_of_mem (h : CarveInv heapStart heapEnd s L) {j x : Nat} (hj : j < 14)
    (hx : x ∈ L j) : x < s.2 := by
  have hmem : (j, x) ∈ freeBlocks L := mem_freeBlocks.mpr ⟨hj, hx⟩
  have hbelow := h.below _ hmem
  have hpos := h.blocks.pos hmem
  simp only at hbelow hpos
  omega

theorem CarveInv.not_mem (h : CarveInv heapStart heapEnd s L) : ∀ j < 14, s.2 ∉ L j :=
  fun _ hj hx => Nat.lt_irrefl _ (h.lt_of_mem hj hx)

/-- One round of the inner loop.  At `current = 0` (a heap at address 0)
`Some(&mut *ptr)` is `None`: the list head is cleared and the block lost,
but then no block was pushed before and every list is empty. -/
theorem CarveInv.carveBlock (h : CarveInv heapStart heapEnd s L) {idx : Nat} (hidx : idx < 14)
    (hal : s.2 % blockSize idx = 0) (hfit : s.2 + blockSize idx ≤ heapEnd) :
    ∃ L', CarveInv heapStart heapEnd (carveBlock idx s) L' := by
  have hpos := blockSize_pos hidx
  by_cases hzero : s.2 = 0
  · have hempty : ∀ j < 14, L j = [] := fun j hj =>
      List.eq_nil_iff_forall_not_mem.mpr fun x hx => by
        have := h.lt_of_mem hj hx
        omega
    refine ⟨L, fun j hj => ?_, h.blocks, fun x hx => ?_, ?_, ?_⟩
    · by_cases hji : j = idx
      · subst hji
        simp [FixedSizeBlockAllocator.carveBlock, pushNode, hzero, someRef, hempty j hj]
      · simp only [FixedSizeBlockAllocator.carveBlock, pushNode, Function.update_of_ne hji]
        exact (h.lists j hj).update_of_not_mem (by simp [hempty j hj])
    · have := mem_freeBlocks.mp hx
      simp [hempty x.1 this.1] at this
    · simp only [FixedSizeBlockAllocator.carveBlock]
      have := h.start
      omega
    · simpa [FixedSizeBlockAllocator.carveBlock] using hfit
  · have hgood : Good heapStart heapEnd (idx, s.2) :=
      ⟨hidx, hal, h.start, hfit, Nat.pos_of_ne_zero hzero⟩
    have hperm := freeBlocks_push (L := L) (x := s.2) hidx
    have hok : BlocksOk heapStart heapEnd ((idx, s.2) :: freeBlocks L) :=
      h.blocks.cons hgood fun y hy => .inr (h.below y hy)
    refine ⟨_, h.lists.push hidx (Nat.pos_of_ne_zero hzero) h.not_mem, hok.perm hperm,
      fun x hx => ?_, ?_, ?_⟩
    · rcases List.mem_cons.mp (hperm.mem_iff.mp hx) with rfl | hx
      · exact Nat.le_refl _
      · have := h.below x hx
        simp only [FixedSizeBlockAllocator.carveBlock]
        omega
    · simp only [FixedSizeBlockAllocator.carveBlock]
      have := h.start
      omega
    · simpa [FixedSizeBlockAllocator.carveBlock] using hfit

theorem CarveInv.carveBlocks (h : CarveInv heapStart heapEnd s L) {idx : Nat} (hidx : idx < 14)
    (hal : s.2 % blockSize idx = 0) {n : Nat} (hfit : s.2 + n * blockSize idx ≤ heapEnd) :
    ∃ L', CarveInv heapStart heapEnd (carveBlocks idx n s) L' := by
  induction n generalizing s L with
  | zero => exact ⟨L, h⟩
  | succ n ih =>
      rw [Nat.succ_mul] at hfit
      obtain ⟨L₁, h₁⟩ := h.carveBlock hidx hal (by omega)
      rw [carveBlocks_succ]
      refine ih h₁ ?_ ?_
      · simp [FixedSizeBlockAllocator.carveBlock, hal]
      · simp only [FixedSizeBlockAllocator.carveBlock]
        omega

/-- The inner loop: the blocks of class `idx` that fit. -/
theorem CarveInv.carveClass (h : CarveInv heapStart heapEnd s L) {idx : Nat} (hidx : idx < 14)
    (hal : s.2 % blockSize idx = 0) :
    ∃ L', CarveInv heapStart heapEnd (carveClass heapEnd idx s) L' := by
  have hinside := h.inside
  have hrounds := Nat.div_mul_le_self (heapEnd - s.2) (blockSize idx)
  exact h.carveBlocks hidx hal (by omega)

/-- The outer loop, from class `n` down: `current` stays aligned to the
next class, as each class is half the one before. -/
theorem CarveInv.carveDown (h : CarveInv heapStart heapEnd s L) {n : Nat} (hn : n < 14)
    (hal : s.2 % blockSize n = 0) :
    ∃ L', CarveInv heapStart heapEnd (carveDown heapEnd n s) L' := by
  induction n generalizing s L with
  | zero => exact ⟨L, h⟩
  | succ n ih =>
      obtain ⟨L₁, h₁⟩ := h.carveClass hn hal
      have hal₁ : (FixedSizeBlockAllocator.carveClass heapEnd (n + 1) s).2 % blockSize (n + 1) = 0 := by
        simp [FixedSizeBlockAllocator.carveClass, carveBlocks_snd, hal]
      have hdvd : blockSize n ∣ blockSize (n + 1) := ⟨2, by rw [blockSize_succ hn, Nat.mul_comm]⟩
      exact ih h₁ (by omega) (Nat.mod_eq_zero_of_dvd (hdvd.trans (Nat.dvd_of_mod_eq_zero hal₁)))

end Carve

/-- `init` starts with every list empty and `current` at the heap start. -/
theorem carveInv_new {heapStart : Nat} (heapSize : Nat) (mem₀ : Nat → Option Nat) :
    CarveInv heapStart (heapStart + heapSize) (FixedSizeBlockAllocator.new mem₀, heapStart)
      (fun _ => []) :=
  ⟨fun i _ => by simp [FixedSizeBlockAllocator.new], by simpa using ⟨by simp, .nil⟩,
    by simp, Nat.le_refl _, by omega⟩

/-- After `init` from a heap start aligned to the largest class, the
invariant holds with no live allocation. -/
theorem heapInv_init {heapStart : Nat} (heapSize : Nat) (hstart : heapStart % 65536 = 0)
    (mem₀ : Nat → Option Nat) :
    ∃ L, HeapInv heapStart (heapStart + heapSize)
      ((FixedSizeBlockAllocator.new mem₀).init heapStart heapSize) [] L := by
  obtain ⟨L, hL⟩ := (carveInv_new heapSize mem₀).carveDown (n := 13) (by omega)
    (by simpa [blockSize_last] using hstart)
  exact ⟨L, hL.lists, by simp, by simpa [heapBlocks] using hL.blocks⟩

/-- `init`'s do-while loop stops before class 0 (8 bytes): the last
`heap_size % 16` bytes of the heap are in no free block, which is 8 bytes
or more whenever `heap_size % 16 ≥ 8`. -/
theorem init_leaves_tail {heapStart : Nat} (heapSize : Nat) (hstart : heapStart % 65536 = 0)
    (mem₀ : Nat → Option Nat) :
    ∃ L, FreeLists ((FixedSizeBlockAllocator.new mem₀).init heapStart heapSize) L ∧
      ∀ x ∈ freeBlocks L, x.2 + blockSize x.1 ≤ heapStart + heapSize - heapSize % 16 := by
  obtain ⟨L, hL⟩ := (carveInv_new heapSize mem₀).carveDown (n := 13) (by omega)
    (by simpa [blockSize_last] using hstart)
  -- the loop ends at a multiple of 16 inside the heap
  have hmod : (carveDown (heapStart + heapSize) 13 (FixedSizeBlockAllocator.new mem₀, heapStart)).2
      % 16 = 0 := carveDown_snd_mod (by omega) (by simp; omega)
  refine ⟨L, hL.lists, fun x hx => ?_⟩
  have hbelow := hL.below x hx
  have hinside := hL.inside
  omega

/-- A heap of 24 bytes keeps an 8-byte tail out of every list. -/
theorem init_leaves_tail_of_24_bytes :
    8 ≤ 24 % 16 ∧ ∃ L, FreeLists ((FixedSizeBlockAllocator.new fun _ => none).init 65536 24) L ∧
      ∀ x ∈ freeBlocks L, x.2 + blockSize x.1 ≤ 65536 + 24 - 24 % 16 :=
  ⟨by decide, init_leaves_tail 24 (by decide) _⟩

end Memory
end NoIdeaOS
