import NoIdeaOS.Memory.HeapRuns
import NoIdeaOS.Memory.Stacks

/-!
# The kernel heap

`memory/allocator.rs` (`HEAP_START`, `HEAP_SIZE`, `init_heap`).  At boot,
`_start` calls `init_heap` with the page table and the boot frame
allocator, and `expect`s it to succeed.  `init_heap` maps each page of the
heap to a fresh frame, with the loop `alloc_stack` also uses (`mapPages`),
and then `init`s the global `FixedSizeBlockAllocator` on the heap.

`HEAP_START` is aligned to the largest block class, 64 KiB, as the results
of `HeapRuns` ask of the heap start.  When `init_heap` returns `Ok`, every
page of the heap is mapped (`initHeap_eq_ok`), and every live allocation lies
in the heap (`HeapInv.live_inside`), so every byte of every live allocation,
in every later state of the allocator, lies on a mapped page.  `HEAP_SIZE` is 640 KiB,
although the comment beside it says 64 KiB.
-/

namespace NoIdeaOS
namespace Memory

open Fallible FixedSizeBlockAllocator

/-- `HEAP_START`. -/
def heapStart : Nat := 0x222222220000

/-- `HEAP_SIZE`. -/
def heapSize : Nat := 640 * 1024

/-- `Page::containing_address`: the page holding `addr`, aligned down to
4096 as `PhysFrame::containing_address` aligns a frame. -/
def Page.containingAddress (addr : Nat) : Page :=
  ⟨(PhysFrame.containingAddress addr).startAddress, (PhysFrame.containingAddress addr).aligned⟩

/-- `Page::range_inclusive(start, end)`. -/
def Page.rangeInclusive (start stop : Page) : List Page :=
  Page.range start (stop + 1)

variable {σ ε : Type}

/-- `init_heap`: map the pages of the heap, then `init` the allocator on it.
A `map_to` error returns early, keeping the pages mapped so far. -/
def initHeap [FrameAllocator σ ε] (m : StackMemory σ) (a : FixedSizeBlockAllocator) :
    Except (StackPanic ε) (Except MapToError Unit × StackMemory σ × FixedSizeBlockAllocator) := do
  let heapStartPage := Page.containingAddress heapStart
  let heapEndPage := Page.containingAddress (heapStart + heapSize - 1)
  let (r, m) ← mapPages (Page.rangeInclusive heapStartPage heapEndPage) m
  match r with
  | .error e => pure (.error e, m, a)
  | .ok () => pure (.ok (), m, a.init heapStart heapSize)

theorem heapStart_aligned : heapStart % 65536 = 0 := by
  decide

/-- The first page of the heap. -/
def heapStartPage : Page :=
  ⟨heapStart, by decide⟩

/-- The pages of `init_heap`'s loop: the 160 pages from `HEAP_START`. -/
theorem heapPages_eq :
    Page.rangeInclusive (Page.containingAddress heapStart)
        (Page.containingAddress (heapStart + heapSize - 1)) =
      Page.range heapStartPage (heapStartPage + 160) := by
  have hstart : Page.containingAddress heapStart = heapStartPage :=
    Page.ext_startAddress (by decide)
  have hend : Page.containingAddress (heapStart + heapSize - 1) + 1 = heapStartPage + 160 :=
    Page.ext_startAddress (by decide)
  rw [Page.rangeInclusive, hstart, hend]

/-- The page of each byte of the heap is one of them. -/
theorem containingAddress_mem_heapPages {x : Nat} (hlo : heapStart ≤ x)
    (hhi : x < heapStart + heapSize) :
    Page.containingAddress x ∈ Page.range heapStartPage (heapStartPage + 160) := by
  rw [Page.mem_range_add]
  simp only [Page.containingAddress, PhysFrame.containingAddress, heapStartPage]
  unfold heapStart heapSize at *
  omega

/-- When `init_heap` returns `Ok`, the allocator is `init`ed on the heap and
the page of every byte of the heap is mapped, to a frame taken from the
frame allocator. -/
theorem initHeap_eq_ok [FrameAllocator σ ε] {m m' : StackMemory σ} {a a' : FixedSizeBlockAllocator}
    (h : initHeap m a = .ok (.ok (), m', a')) :
    a' = a.init heapStart heapSize ∧
      (∃ frames, Allocates m.frameAllocator frames m'.frameAllocator ∧ frames.length = 160) ∧
      ∀ x, heapStart ≤ x → x < heapStart + heapSize →
        (m'.pageTable (Page.containingAddress x)).isSome := by
  obtain ⟨⟨r, m₁⟩, hmap, h⟩ := bind_eq_ok.mp h
  cases r with
  | error e => simp at h
  | ok u =>
      simp only [pure_eq_ok, Except.ok.injEq, Prod.mk.injEq] at h
      obtain ⟨-, rfl, rfl⟩ := h
      rw [heapPages_eq] at hmap
      obtain ⟨-, -, frames, hall, hlen, htable⟩ := mapPages_eq_ok hmap
      refine ⟨rfl, ⟨frames, hall, by simpa using hlen⟩, fun x hlo hhi => ?_⟩
      rw [htable]
      exact mapAll_isSome (by simp [hlen]) (containingAddress_mem_heapPages hlo hhi)

/-- Every live allocation lies in the heap. -/
theorem HeapInv.live_inside {hs he : Nat} {a : FixedSizeBlockAllocator}
    {live : List (Nat × Layout)} {L : Nat → List Nat} (h : HeapInv hs he a live L)
    {e : Nat × Layout} (hmem : e ∈ live) : hs ≤ e.1 ∧ e.1 + e.2.size ≤ he := by
  obtain ⟨i, hidx⟩ : ∃ i, listIndex e.2 = some i := Option.isSome_iff_exists.mp (h.classes e hmem)
  have hfit := (listIndex_spec hidx).2
  have hgood := h.blocks.good _ (live_mem_heapBlocks (L := L) hmem)
  simp only [Good, liveBlock, hidx, Option.getD_some] at hgood
  have hsize : e.2.size ≤ blockSize i := le_trans (le_max_left _ _) hfit
  exact ⟨hgood.2.2.1, by omega⟩

/-- After `init_heap` returns `Ok`, in every state of every run of the
kernel's allocator from it (`alloc`, `dealloc` of live allocations, and the
program's writes into them), every byte of every live allocation lies on a
page that `init_heap` mapped. -/
theorem kernel_heap_allocations_on_mapped_pages [FrameAllocator σ ε] {m m' : StackMemory σ}
    {mem₀ : Nat → Option Nat} {a₀ a : FixedSizeBlockAllocator} {live : List (Nat × Layout)}
    (hinit : initHeap m (FixedSizeBlockAllocator.new mem₀) = .ok (.ok (), m', a₀))
    (hrun : HeapRun heapStart heapSize mem₀ a live) :
    a₀ = (FixedSizeBlockAllocator.new mem₀).init heapStart heapSize ∧
      ∀ e ∈ live, ∀ x, e.1 ≤ x → x < e.1 + e.2.size →
        (m'.pageTable (Page.containingAddress x)).isSome := by
  obtain ⟨ha₀, -, hmapped⟩ := initHeap_eq_ok hinit
  obtain ⟨L, hinv⟩ := heapInv_of_run heapStart_aligned hrun
  refine ⟨ha₀, fun e he x hlo hhi => hmapped x ?_ ?_⟩
  · exact le_trans (hinv.live_inside he).1 hlo
  · exact lt_of_lt_of_le hhi (hinv.live_inside he).2

/-- At boot, with 160 usable frames and nothing mapped yet, followed by an
allocation of 4 KiB: the last 64 KiB block of the heap is split down to it. -/
theorem kernel_heap_allocations_on_mapped_pages_after_alloc :
    let m : StackMemory (BootInfoFrameAllocator × Ram) :=
      ⟨stackAllocNextInit, fun _ => none,
        (BootInfoFrameAllocator.new.init [⟨⟨16, 176⟩, .usable⟩] 0, fun _ => 0)⟩
    let layout : Layout := ⟨4096, 8, ⟨3, rfl⟩⟩
    ∃ m' a₀ a, initHeap m (FixedSizeBlockAllocator.new fun _ => none) = .ok (.ok (), m', a₀) ∧
      a₀.alloc layout = .ok (heapStart + 589824, a) ∧
      HeapRun heapStart heapSize (fun _ => none) a [(heapStart + 589824, layout)] ∧
      a₀ = (FixedSizeBlockAllocator.new fun _ => none).init heapStart heapSize ∧
      ∀ e ∈ [(heapStart + 589824, layout)], ∀ x, e.1 ≤ x → x < e.1 + e.2.size →
        (m'.pageTable (Page.containingAddress x)).isSome := by
  intro m layout
  have hmap : mapPages (Page.range heapStartPage (heapStartPage + 160)) m = _ :=
    mapPages_of_allocates (allocates_usableFrames _ 0 _)
      (by simp [length_usableFrames_region]) (Page.nodup_range_add _ _) fun _ _ => rfl
  obtain ⟨m', hinit⟩ : ∃ m', initHeap m (FixedSizeBlockAllocator.new fun _ => none) =
      .ok (.ok (), m', (FixedSizeBlockAllocator.new fun _ => none).init heapStart heapSize) :=
    ⟨_, by simp only [initHeap, heapPages_eq, hmap, ok_bind]; rfl⟩
  obtain ⟨a, halloc⟩ : ∃ a, ((FixedSizeBlockAllocator.new fun _ => none).init heapStart heapSize).alloc
      layout = .ok (heapStart + 589824, a) := ⟨_, rfl⟩
  have hrun : HeapRun heapStart heapSize (fun _ => none) a [(heapStart + 589824, layout)] :=
    @HeapRun.alloc _ _ _ _ _ [] layout (heapStart + 589824) .init halloc
  exact ⟨m', _, a, hinit, halloc, hrun, kernel_heap_allocations_on_mapped_pages hinit hrun⟩

end Memory
end NoIdeaOS
