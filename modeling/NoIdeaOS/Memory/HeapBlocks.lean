import Mathlib
import NoIdeaOS.Memory.FixedSizeBlock

/-!
# Blocks of the heap

The abstract view of the heap allocator.  A block is a pair `(i, b)` of a
class and an address; it covers `[b, b + BLOCK_SIZES[i])`.  The free lists
are given as lists of addresses `L i`, one per class, and `FreeLists a L`
says that the heads and the `next` fields of `a` thread exactly these lists.
The blocks of a heap are the free blocks, list by list, and the blocks of
the live allocations, each of the class `list_index` gives its layout.

`BlocksOk` is the geometric half of the invariant: every block is aligned
to its size, inside the heap and not null, and no two blocks overlap.  It is
kept by a permutation of the blocks and by cutting a block into its two
halves; the free lists are kept by pushing a node that is on no list and by
popping a head.  On the lists, `split_larger_block` takes the head `X` of the
first non-empty list above the class asked for and leaves `X + BLOCK_SIZES[i]`
on each list `i` it passes (`afterSplit`), when those blocks are on no list
(`FreeLists.splitLargerBlock`); the heap's runs keep that condition
(`Memory.HeapRuns`).
-/

namespace NoIdeaOS
namespace Memory

open Links FixedSizeBlockAllocator Fallible

/-- The blocks `x` and `y` do not overlap. -/
def Apart (x y : Nat × Nat) : Prop :=
  x.2 + blockSize x.1 ≤ y.2 ∨ y.2 + blockSize y.1 ≤ x.2

theorem Apart.symm {x y : Nat × Nat} (h : Apart x y) : Apart y x := Or.symm h

instance : Std.Symm Apart := ⟨fun _ _ h => h.symm⟩

/-- A block of the heap `[heapStart, heapEnd)`: of a class of `BLOCK_SIZES`,
aligned to its size, inside the heap, and not null. -/
def Good (heapStart heapEnd : Nat) (x : Nat × Nat) : Prop :=
  x.1 < 14 ∧ x.2 % blockSize x.1 = 0 ∧ heapStart ≤ x.2 ∧ x.2 + blockSize x.1 ≤ heapEnd ∧ 0 < x.2

structure BlocksOk (heapStart heapEnd : Nat) (xs : List (Nat × Nat)) : Prop where
  good : ∀ x ∈ xs, Good heapStart heapEnd x
  apart : xs.Pairwise Apart

/-- The free blocks, list by list. -/
def freeBlocks (L : Nat → List Nat) : List (Nat × Nat) :=
  (List.range 14).flatMap fun i => (L i).map (i, ·)

/-- The block of a live allocation. -/
def liveBlock (e : Nat × Layout) : Nat × Nat :=
  ((listIndex e.2).getD 0, e.1)

def heapBlocks (L : Nat → List Nat) (live : List (Nat × Layout)) : List (Nat × Nat) :=
  freeBlocks L ++ live.map liveBlock

/-- The bytes the blocks cover. -/
def heapBytes (xs : List (Nat × Nat)) : Nat :=
  (xs.map fun x => blockSize x.1).sum

/-- `Σ_i BLOCK_SIZES[i] · (length of list i)`. -/
def freeBytes (L : Nat → List Nat) : Nat :=
  ((List.range 14).map fun i => blockSize i * (L i).length).sum

/-- `Σ` over the live allocations of `BLOCK_SIZES[list_index(layout)]`. -/
def liveBytes (live : List (Nat × Layout)) : Nat :=
  (live.map fun e => blockSize ((listIndex e.2).getD 0)).sum

/-- The heads and `next` fields of `a` thread the lists `L`. -/
def FreeLists (a : FixedSizeBlockAllocator) (L : Nat → List Nat) : Prop :=
  ∀ i < 14, Chain a.mem (a.listHeads i) (L i)

/-! ## The free blocks -/

@[simp] theorem mem_freeBlocks {L : Nat → List Nat} {x : Nat × Nat} :
    x ∈ freeBlocks L ↔ x.1 < 14 ∧ x.2 ∈ L x.1 := by
  obtain ⟨i, b⟩ := x
  simp only [freeBlocks, List.mem_flatMap, List.mem_range, List.mem_map, Prod.mk.injEq]
  constructor
  · rintro ⟨j, hj, b', hb', rfl, rfl⟩
    exact ⟨hj, hb'⟩
  · rintro ⟨hi, hb⟩
    exact ⟨i, hi, b, hb, rfl, rfl⟩

@[simp] theorem freeBlocks_empty : freeBlocks (fun _ => []) = [] :=
  List.eq_nil_iff_forall_not_mem.mpr fun x hx => by simp at hx

theorem freeBlocks_update_perm {L : Nat → List Nat} {i : Nat} (hi : i < 14) (l : List Nat) :
    (freeBlocks (Function.update L i l) ++ (L i).map (i, ·)).Perm (freeBlocks L ++ l.map (i, ·)) := by
  have hF : (fun j => (Function.update L i l j).map (j, ·)) =
      Function.update (fun j => (L j).map (j, ·)) i (l.map (i, ·)) := by
    funext j
    by_cases hj : j = i
    · subst hj
      simp
    · simp [Function.update_of_ne hj]
  unfold freeBlocks
  rw [hF]
  exact flatMap_update_perm List.nodup_range (List.mem_range.mpr hi) _ _

/-- Popping the head `x` of list `i`. -/
theorem freeBlocks_pop {L : Nat → List Nat} {i x : Nat} {rest : List Nat} (hi : i < 14)
    (hL : L i = x :: rest) :
    (freeBlocks L).Perm ((i, x) :: freeBlocks (Function.update L i rest)) := by
  have h := freeBlocks_update_perm hi rest (L := L)
  rw [hL, List.map_cons, ← List.singleton_append, ← List.append_assoc] at h
  have hcancel := (List.perm_append_right_iff _).mp h
  exact hcancel.symm.trans (List.perm_append_singleton _ _)

/-- Pushing `x` onto list `i`. -/
theorem freeBlocks_push {L : Nat → List Nat} {i x : Nat} (hi : i < 14) :
    (freeBlocks (Function.update L i (x :: L i))).Perm ((i, x) :: freeBlocks L) := by
  have h := freeBlocks_pop hi (Function.update_self i (x :: L i) L)
  rwa [Function.update_idem, Function.update_eq_self] at h

theorem free_mem_heapBlocks {L : Nat → List Nat} {live : List (Nat × Layout)} {i b : Nat}
    (hi : i < 14) (hb : b ∈ L i) : (i, b) ∈ heapBlocks L live :=
  List.mem_append_left _ (mem_freeBlocks.mpr ⟨hi, hb⟩)

theorem live_mem_heapBlocks {L : Nat → List Nat} {live : List (Nat × Layout)} {e : Nat × Layout}
    (he : e ∈ live) : liveBlock e ∈ heapBlocks L live :=
  List.mem_append_right _ (List.mem_map_of_mem he)

/-- A block leaves the free lists for a live allocation. -/
theorem heapBlocks_alloc_perm {L L' : Nat → List Nat} {live : List (Nat × Layout)} {x : Nat × Nat}
    {e : Nat × Layout} (hL : (freeBlocks L).Perm (x :: freeBlocks L')) (he : liveBlock e = x) :
    (heapBlocks L' (e :: live)).Perm (heapBlocks L live) := by
  simp only [heapBlocks, List.map_cons, he]
  exact List.perm_middle.trans (hL.symm.append_right _)

/-- The block of a live allocation goes back onto the free lists. -/
theorem heapBlocks_dealloc_perm {L L' : Nat → List Nat} {live : List (Nat × Layout)}
    {x : Nat × Nat} {e : Nat × Layout} (hL : (freeBlocks L').Perm (x :: freeBlocks L))
    (hmem : e ∈ live) (he : liveBlock e = x) :
    (heapBlocks L' (live.erase e)).Perm (heapBlocks L live) := by
  have hlive : (live.map liveBlock).Perm (x :: (live.erase e).map liveBlock) := by
    rw [← he, ← List.map_cons]
    exact (List.perm_cons_erase hmem).map _
  simp only [heapBlocks]
  exact (hL.append_right _).trans (List.perm_middle.symm.trans (hlive.symm.append_left _))

theorem heapBytes_cons (x : Nat × Nat) (xs : List (Nat × Nat)) :
    heapBytes (x :: xs) = blockSize x.1 + heapBytes xs := by
  simp [heapBytes]

theorem heapBytes_perm {xs ys : List (Nat × Nat)} (h : xs.Perm ys) : heapBytes xs = heapBytes ys :=
  (h.map _).sum_eq

theorem heapBytes_freeBlocks_aux (L : Nat → List Nat) (is : List Nat) :
    heapBytes (is.flatMap fun i => (L i).map (i, ·)) =
      (is.map fun i => blockSize i * (L i).length).sum := by
  induction is with
  | nil => rfl
  | cons i is ih =>
      simp only [heapBytes] at ih ⊢
      simp [List.flatMap_cons, ih, Function.comp_def, Nat.mul_comm]

/-- The bytes of the blocks are the sum the allocator's lists and live
allocations give. -/
theorem heapBytes_heapBlocks (L : Nat → List Nat) (live : List (Nat × Layout)) :
    heapBytes (heapBlocks L live) = freeBytes L + liveBytes live := by
  have hfree := heapBytes_freeBlocks_aux L (List.range 14)
  simp only [heapBytes, heapBlocks, freeBlocks, freeBytes, liveBytes, List.map_append,
    List.sum_append, List.map_map] at hfree ⊢
  rw [hfree]
  rfl

/-! ## Good blocks that do not overlap -/

section BlocksOk

variable {heapStart heapEnd : Nat} {xs ys : List (Nat × Nat)}

theorem BlocksOk.perm (h : BlocksOk heapStart heapEnd xs) (hp : ys.Perm xs) :
    BlocksOk heapStart heapEnd ys :=
  ⟨fun x hx => h.good x (hp.mem_iff.mp hx), hp.symm.pairwise h.apart Apart.symm⟩

theorem BlocksOk.cons (h : BlocksOk heapStart heapEnd xs) {x : Nat × Nat}
    (hx : Good heapStart heapEnd x) (hsep : ∀ y ∈ xs, Apart x y) :
    BlocksOk heapStart heapEnd (x :: xs) := by
  refine ⟨fun y hy => ?_, List.Pairwise.cons hsep h.apart⟩
  rcases List.mem_cons.mp hy with rfl | hy
  · exact hx
  · exact h.good y hy

theorem BlocksOk.pos (h : BlocksOk heapStart heapEnd xs) {x : Nat × Nat} (hx : x ∈ xs) :
    0 < blockSize x.1 :=
  blockSize_pos (h.good x hx).1

/-- An address inside a block is the address of no other block. -/
theorem BlocksOk.eq_of_inside (h : BlocksOk heapStart heapEnd xs) {x y : Nat × Nat}
    (hx : x ∈ xs) (hy : y ∈ xs) (hlo : y.2 ≤ x.2) (hhi : x.2 < y.2 + blockSize y.1) : x = y := by
  by_contra hne
  have hpos := h.pos hx
  rcases h.apart.forall hx hy hne with hxy | hyx <;> omega

/-- Cutting a block into its two halves, one class down. -/
theorem BlocksOk.split {k B : Nat} (h : BlocksOk heapStart heapEnd ((k + 1, B) :: xs))
    (hk : k + 1 < 14) :
    BlocksOk heapStart heapEnd ((k, B) :: (k, B + blockSize k) :: xs) := by
  obtain ⟨hgood, happart⟩ := h
  have hbig : Good heapStart heapEnd (k + 1, B) := hgood _ List.mem_cons_self
  simp only [Good] at hbig
  obtain ⟨-, hal, hlo, hhi, hB⟩ := hbig
  obtain ⟨hsep, hrest⟩ := List.pairwise_cons.mp happart
  have hsucc : blockSize (k + 1) = 2 * blockSize k := blockSize_succ hk
  have hdvd : blockSize k ∣ B :=
    Nat.dvd_trans ⟨2, by rw [hsucc, Nat.mul_comm]⟩ (Nat.dvd_of_mod_eq_zero hal)
  have hpos := blockSize_pos (i := k) (by omega)
  refine ⟨?_, ?_⟩
  · intro x hx
    simp only [List.mem_cons] at hx
    rcases hx with rfl | rfl | hx
    · simp only [Good]
      exact ⟨by omega, Nat.mod_eq_zero_of_dvd hdvd, hlo, by omega, hB⟩
    · simp only [Good, Nat.add_mod_right]
      exact ⟨by omega, Nat.mod_eq_zero_of_dvd hdvd, by omega, by omega, by omega⟩
    · exact hgood x (List.mem_cons_of_mem _ hx)
  · refine List.Pairwise.cons ?_ (List.Pairwise.cons ?_ hrest)
    · intro y hy
      simp only [List.mem_cons] at hy
      rcases hy with rfl | hy
      · exact .inl (Nat.le_refl _)
      · rcases hsep y hy with h' | h'
        · exact .inl (by simp only at h' ⊢; omega)
        · exact .inr h'
    · intro y hy
      rcases hsep y hy with h' | h'
      · exact .inl (by simp only at h' ⊢; omega)
      · exact .inr (by simp only at h' ⊢; omega)

end BlocksOk

/-! ## Free lists -/

section FreeLists

variable {a : FixedSizeBlockAllocator} {L : Nat → List Nat}

/-- A node on no list but `i` is on no list once list `i` is replaced by a
list without it. -/
theorem not_mem_update {i x : Nat} {l : List Nat} (hx : ∀ j < 14, j ≠ i → x ∉ L j)
    (hl : x ∉ l) : ∀ j < 14, x ∉ Function.update L i l j := by
  intro j hj
  by_cases hji : j = i
  · subst hji
    rwa [Function.update_self]
  · rw [Function.update_of_ne hji]
    exact hx j hj hji

theorem FreeLists.update_mem (h : FreeLists a L) {x : Nat} {v : Option Nat}
    (hx : ∀ i < 14, x ∉ L i) : FreeLists { a with mem := Function.update a.mem x v } L :=
  fun i hi => (h i hi).update_of_not_mem (hx i hi)

/-- Pushing a node that is on no list. -/
theorem FreeLists.push (h : FreeLists a L) {i p : Nat} (hi : i < 14) (hp : 0 < p)
    (hfresh : ∀ j < 14, p ∉ L j) :
    FreeLists (a.pushNode i p) (Function.update L i (p :: L i)) := by
  intro j hj
  by_cases hji : j = i
  · subst hji
    simp only [pushNode, Function.update_self, someRef_of_pos hp]
    refine .cons ?_
    rw [Function.update_self]
    exact (h j hj).update_of_not_mem (hfresh j hj)
  · simp only [pushNode, Function.update_of_ne hji]
    exact (h j hj).update_of_not_mem (hfresh j hj)

/-- Popping the head of list `i`, which is on no other list. -/
theorem FreeLists.pop (h : FreeLists a L) {i node : Nat} {a' : FixedSizeBlockAllocator}
    (hi : i < 14) (hpop : a.popNode i = some (node, a'))
    (hother : ∀ j < 14, j ≠ i → node ∉ L j) :
    ∃ rest, L i = node :: rest ∧ FreeLists a' (Function.update L i rest) := by
  obtain ⟨hhead, rfl⟩ := popNode_eq_some.mp hpop
  have hchain := h i hi
  rw [hhead] at hchain
  obtain ⟨rest, hL, hrest⟩ := Chain.some_iff.mp hchain
  have hnot : node ∉ rest := (List.nodup_cons.mp (hL ▸ (h i hi).nodup)).1
  refine ⟨rest, hL, fun j hj => ?_⟩
  by_cases hji : j = i
  · subst hji
    simp only [Function.update_self]
    exact hrest.update_of_not_mem hnot
  · simp only [Function.update_of_ne hji]
    exact (h j hj).update_of_not_mem (hother j hj hji)

end FreeLists

/-! ## `split_larger_block` on the free lists -/

/-- The free lists after `split_larger_block(blockIdx)` hands out the head `X`
of list `j`: `X` leaves list `j`, and each list `i` from `blockIdx` up to
below `j` gets the block `X + BLOCK_SIZES[i]` on top. -/
def afterSplit (L : Nat → List Nat) (blockIdx j X : Nat) (k : Nat) : List Nat :=
  if k = j then (L j).tail
  else if blockIdx ≤ k ∧ k < j then (X + blockSize k) :: L k
  else L k

/-- With no class between, only the head of list `i` is taken. -/
theorem update_afterSplit_self {L : Nat → List Nat} {i X : Nat} {t : List Nat}
    (hX : L i = X :: t) : Function.update (afterSplit L i i X) i (X :: afterSplit L i i X i) = L := by
  funext k
  by_cases hk : k = i
  · subst hk
    simp [afterSplit, hX]
  · simp [afterSplit, hk]

/-- One more round at the top: the lists after the rounds below it, from the
lists the top round leaves. -/
theorem afterSplit_succ {L : Nat → List Nat} {i j X : Nat} {t : List Nat} (hij : i ≤ j)
    (hX : L (j + 1) = X :: t) :
    afterSplit (Function.update (Function.update L (j + 1) t) j (X :: (X + blockSize j) :: L j))
      i j X = afterSplit L i (j + 1) X := by
  funext k
  by_cases hkj : k = j
  · subst hkj
    simp [afterSplit, hij]
  · by_cases hk1 : k = j + 1
    · subst hk1
      simp [afterSplit, hX]
    · have hrange : (i ≤ k ∧ k < j + 1) ↔ (i ≤ k ∧ k < j) := by omega
      simp only [afterSplit, hkj, hk1, if_false, hrange]
      split <;> simp [Function.update_of_ne hkj, Function.update_of_ne hk1]
variable {a : FixedSizeBlockAllocator} {L : Nat → List Nat}

section SplitLargerBlock

variable {a : FixedSizeBlockAllocator} {L : Nat → List Nat}

/-- A round of `split_larger_block` on the lists: the head `B` of list
`idx + 1` and `B + BLOCK_SIZES[idx]` go on top of list `idx`, when neither is
on another list.  The `next` fields of all other nodes stay. -/
theorem FreeLists.splitBlock (h : FreeLists a L) {idx B : Nat} {t : List Nat}
    {a' : FixedSizeBlockAllocator} (hidx : idx + 1 < 14) (hB : L (idx + 1) = B :: t)
    (hother : ∀ k < 14, k ≠ idx + 1 → B ∉ L k) (hfresh : ∀ k < 14, B + blockSize idx ∉ L k)
    (hs : a.splitBlock idx = .ok a') :
    FreeLists a' (Function.update (Function.update L (idx + 1) t) idx
        (B :: (B + blockSize idx) :: L idx)) ∧
      ∀ p, p ≠ B → p ≠ B + blockSize idx → a'.mem p = a.mem p := by
  obtain ⟨B', hhead, hheads, hmem⟩ := splitBlock_eq_ok hs
  have hchain := h (idx + 1) hidx
  rw [hhead, hB] at hchain
  obtain ⟨t', hBt, hrest⟩ := Chain.some_iff.mp hchain
  obtain ⟨rfl, rfl⟩ := List.cons.inj hBt
  have hpos : 0 < blockSize idx := blockSize_pos (by omega)
  have hBt : B ∉ t := (List.nodup_cons.mp (hB ▸ (h (idx + 1) hidx).nodup)).1
  -- every other node keeps its `next` field
  have hsame : ∀ p, p ≠ B → p ≠ B + blockSize idx → a'.mem p = a.mem p := by
    intro p hp hp'
    rw [hmem, Function.update_of_ne hp, Function.update_of_ne hp', Function.update_of_ne hp]
  have hkeep : ∀ l, B ∉ l → B + blockSize idx ∉ l → ∀ o, Chain a.mem o l → Chain a'.mem o l :=
    fun l hl hl' o hc => hc.congr fun x hx => hsame x (by rintro rfl; exact hl hx)
      (by rintro rfl; exact hl' hx)
  refine ⟨fun k hk => ?_, hsame⟩
  by_cases hki : k = idx
  · subst hki
    rw [hheads, Function.update_self, Function.update_self]
    have hBB : a'.mem B = some (B + blockSize k) := by
      rw [hmem, Function.update_self, someRef_of_pos (by omega)]
    have hBB' : a'.mem (B + blockSize k) = a.listHeads k := by
      rw [hmem, Function.update_of_ne (by omega), Function.update_self]
    refine .cons (hBB ▸ .cons (hBB' ▸ hkeep _ (hother k hk (by omega)) (hfresh k hk) _ (h k hk)))
  · rw [Function.update_of_ne hki]
    by_cases hk1 : k = idx + 1
    · subst hk1
      rw [hheads, Function.update_of_ne hki, Function.update_self, Function.update_self]
      exact hkeep _ hBt (fun hmem' => hfresh _ hidx (hB ▸ List.mem_cons_of_mem _ hmem')) _ hrest
    · rw [hheads, Function.update_of_ne hki, Function.update_of_ne hk1, Function.update_of_ne hk1]
      exact hkeep _ (hother k hk hk1) (hfresh k hk) _ (h k hk)

/-- The loop of `split_larger_block` from class `i + n` down to `i`, on the
lists: the head `X` of list `i + n` ends on top of list `i`, above the lists
`afterSplit` describes. -/
theorem FreeLists.foldlM_splitBlock (h : FreeLists a L) {i n X : Nat} {t : List Nat}
    {a' : FixedSizeBlockAllocator} (htop : i + n < 14) (hX : L (i + n) = X :: t)
    (hother : ∀ k < 14, k ≠ i + n → X ∉ L k)
    (hfresh : ∀ m < n, ∀ k < 14, X + blockSize (i + m) ∉ L k)
    (hfold : (List.range' i n).reverse.foldlM FixedSizeBlockAllocator.splitBlock a = .ok a') :
    FreeLists a' (Function.update (afterSplit L i (i + n) X) i (X :: afterSplit L i (i + n) X i)) ∧
      ∀ p, p ≠ X → (∀ m < n, p ≠ X + blockSize (i + m)) → a'.mem p = a.mem p := by
  induction n generalizing a L t with
  | zero =>
      simp only [List.range'_zero, List.reverse_nil, List.foldlM_nil, pure_eq_ok,
        Except.ok.injEq] at hfold
      subst hfold
      exact ⟨(update_afterSplit_self hX).symm ▸ h, fun p _ _ => rfl⟩
  | succ n ih =>
      simp only [List.range'_concat, Nat.one_mul, List.reverse_append, List.reverse_cons,
        List.reverse_nil, List.nil_append, List.singleton_append, List.foldlM_cons] at hfold
      obtain ⟨a₁, h₁, hfold⟩ := bind_eq_ok.mp hfold
      have hXt : X ∉ t := (List.nodup_cons.mp (hX ▸ (h (i + (n + 1)) htop).nodup)).1
      obtain ⟨hL₁, hsame₁⟩ := h.splitBlock (show i + n + 1 < 14 from htop) hX hother
        (hfresh n (by omega)) h₁
      have hX' : L (i + n + 1) = X :: t := hX
      -- `X` has left list `i + n + 1`
      have hother₁ : ∀ k < 14, k ≠ i + n → X ∉ Function.update (Function.update L (i + n + 1) t)
          (i + n) (X :: (X + blockSize (i + n)) :: L (i + n)) k := by
        intro k hk hkn
        rw [Function.update_of_ne hkn]
        exact not_mem_update hother hXt k hk
      -- the blocks still to be cut off are not the two just pushed
      have hfresh₁ : ∀ m < n, ∀ k < 14, X + blockSize (i + m) ∉ Function.update
          (Function.update L (i + n + 1) t) (i + n) (X :: (X + blockSize (i + n)) :: L (i + n)) k := by
        intro m hm
        have hlt : blockSize (i + m) < blockSize (i + n) := blockSize_lt_blockSize (by omega) (by omega)
        have hpos : 0 < blockSize (i + m) := blockSize_pos (by omega)
        have hrest : X + blockSize (i + m) ∉ t :=
          fun hmem => hfresh m (by omega) _ htop (hX' ▸ List.mem_cons_of_mem _ hmem)
        have hnew : X + blockSize (i + m) ∉ X :: (X + blockSize (i + n)) :: L (i + n) := by
          simp only [List.mem_cons, not_or]
          exact ⟨by omega, by omega, hfresh m (by omega) _ (by omega)⟩
        exact not_mem_update (fun k hk _ => not_mem_update (fun k hk _ => hfresh m (by omega) k hk)
          hrest k hk) hnew
      obtain ⟨hL', hsame'⟩ := ih hL₁ (by omega) (by rw [Function.update_self]) hother₁ hfresh₁ hfold
      rw [afterSplit_succ (Nat.le_add_right i n) hX'] at hL'
      refine ⟨hL', fun p hpX hp => ?_⟩
      rw [hsame' p hpX fun m hm => hp m (by omega), hsame₁ p hpX (hp n (by omega))]

/-- `split_larger_block(blockIdx)` hands out the head `X` of the first
non-empty list `j` above `blockIdx` and leaves the lists `afterSplit`
describes, when `X` and the blocks it is cut into are on no other list. -/
theorem FreeLists.splitLargerBlock (hL : FreeLists a L) {blockIdx j X : Nat} (hlo : blockIdx < j)
    (hhi : j < 14) (hbefore : ∀ k, blockIdx < k → k < j → a.listHeads k = none)
    (hhead : a.listHeads j = some X) (hother : ∀ k < 14, k ≠ j → X ∉ L k)
    (hfresh : ∀ i, blockIdx ≤ i → i < j → ∀ k < 14, X + blockSize i ∉ L k) :
    ∃ a', a.splitLargerBlock blockIdx = .ok (some X, a') ∧
      FreeLists a' (afterSplit L blockIdx j X) ∧
      ∀ p, p ≠ X → (∀ i, blockIdx ≤ i → i < j → p ≠ X + blockSize i) → a'.mem p = a.mem p := by
  have hfirst : a.popFirstLargerBlockAvailable blockIdx = some j :=
    popFirstLargerBlockAvailable_eq_some.mpr ⟨hlo, hhi, by simp [hhead], hbefore⟩
  have hchain := hL j hhi
  rw [hhead] at hchain
  obtain ⟨t, hLj, -⟩ := Chain.some_iff.mp hchain
  have hj : blockIdx + (j - blockIdx) = j := Nat.add_sub_cancel' hlo.le
  -- the loop: `X` is cut down to class `blockIdx`
  obtain ⟨a₁, hfold, -⟩ := foldlM_splitBlock_ok (i := blockIdx) (j - blockIdx) (a := a)
    (by rw [hj, hhead]; rfl)
  obtain ⟨hL₁, hsame₁⟩ := hL.foldlM_splitBlock (i := blockIdx) (by omega) (by rw [hj]; exact hLj)
    (by rwa [hj]) (fun m hm k hk => hfresh (blockIdx + m) (by omega) (by omega) k hk) hfold
  rw [hj] at hL₁
  -- the last pop hands `X` out
  have hhead₁ : a₁.listHeads blockIdx = some X := by
    have hc := hL₁ blockIdx (by omega)
    rw [Function.update_self] at hc
    exact hc.eq_some_of_cons
  have hpop : a₁.popNode blockIdx = some (X, _) := popNode_eq_some.mpr ⟨hhead₁, rfl⟩
  have hother₁ : ∀ k < 14, k ≠ blockIdx → X ∉ Function.update (afterSplit L blockIdx j X) blockIdx
      (X :: afterSplit L blockIdx j X blockIdx) k := by
    intro k hk hkb
    rw [Function.update_of_ne hkb]
    unfold afterSplit
    split
    · subst k
      rw [hLj]
      exact (List.nodup_cons.mp (hLj ▸ (hL j hhi).nodup)).1
    · rename_i hkj
      have hpos : 0 < blockSize k := blockSize_pos hk
      split
      · simp only [List.mem_cons, not_or]
        exact ⟨by omega, hother k hk hkj⟩
      · exact hother k hk hkj
  obtain ⟨rest, hrest, hL'⟩ := hL₁.pop (by omega) hpop hother₁
  rw [Function.update_self] at hrest
  obtain rfl := (List.cons.inj hrest).2.symm
  rw [Function.update_idem, Function.update_eq_self] at hL'
  refine ⟨_, ?_, hL', fun p hpX hp => ?_⟩
  · simp only [FixedSizeBlockAllocator.splitLargerBlock, hfirst, hfold, ok_bind, hpop, expect_some]
    rfl
  · show Function.update a₁.mem X none p = a.mem p
    rw [Function.update_of_ne hpX, hsame₁ p hpX fun m hm => hp (blockIdx + m) (by omega) (by omega)]

end SplitLargerBlock

end Memory
end NoIdeaOS
