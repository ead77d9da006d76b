import NoIdeaOS.Memory.BootFrameAllocator
import NoIdeaOS.Processes.Basic

/-!
# Process stacks

`memory/mod.rs`: `reserve_stack_memory`, `alloc_stack`, `dealloc_stack` and
`StackBounds::page_range`.

A stack of `n` pages is carved from a virtual region that only grows: the
counter `STACK_ALLOC_NEXT` is advanced by `n + 1` pages, the first page of
the reservation is left unmapped as a guard page, and each of the `n` pages
above it is mapped to a fresh frame.  `dealloc_stack` unmaps the pages of the
bounds again and gives every frame back to the frame deallocator.

The page table is seen through `Mapper<Size4KiB>` as a partial map from pages
to frames: `map_to` fails with `PageAlreadyMapped` on a mapped page and
otherwise maps it, `unmap` fails on an unmapped page and otherwise removes
the entry.  The frames `map_to` may take for new page-table levels, and the
TLB flushes, are below this view.  The frame allocator and deallocator are
the traits `FrameAllocator` and `FrameDeallocator`, with the boot frame
allocator (over the memory holding its free list) as the instance the kernel
uses.

`STACK_ALLOC_NEXT` is a `u64` whose `fetch_add` wraps, and
`reserve_stack_memory` passes the value it read to `VirtAddr::new`: below
`2 ^ 47` the address is kept, in `[2 ^ 47, 2 ^ 48)` it is sign-extended into
the upper half of the address space, and from `2 ^ 48` on (up to the
canonical upper half) `VirtAddr::new` panics.  With stacks of 32 pages the
counter reaches `2 ^ 47` after about 347 million reservations and `2 ^ 48`
after about 1.39 billion; every later `alloc_stack` panics.  The page
arithmetic of `alloc_stack` (`Page + n`, `Page::range`) is exact addition on
the page addresses: it differs from the crate's only for the one reservation
that straddles `2 ^ 47` and the one that straddles `2 ^ 48`.

`alloc_stack` returns a `Result` to its caller and may also panic; its model
returns `Except` of the panic, around the `Result` and the new state.  A
`map_to` error returns early and keeps the pages mapped so far.
-/

namespace NoIdeaOS

open Fallible Memory.BootInfoFrameAllocator
open Processes (StackBounds)

namespace Memory

/-- `Page<Size4KiB>`: a page is known by its 4096-aligned start address. -/
structure Page where
  startAddress : Nat
  aligned : startAddress % 4096 = 0
deriving Repr

namespace Page

theorem ext_startAddress {p q : Page} (h : p.startAddress = q.startAddress) : p = q := by
  cases p
  cases q
  simp_all

/-- Pages are equal when their start addresses are. -/
instance : DecidableEq Page := fun p q =>
  decidable_of_iff (p.startAddress = q.startAddress) ⟨ext_startAddress, fun h => h ▸ rfl⟩

/-- `Page::from_start_address`: `Err(AddressNotAligned)` off a page boundary. -/
def fromStartAddress (addr : Nat) : Option Page :=
  if h : addr % 4096 = 0 then some ⟨addr, h⟩ else none

/-- `page + n`: the page `n` pages above. -/
instance : HAdd Page Nat Page :=
  ⟨fun p n => ⟨p.startAddress + n * 4096, by rw [Nat.add_mul_mod_self_right]; exact p.aligned⟩⟩

/-- `Page::range(start, end)`: the pages from `start` up to `end`, excluded. -/
def range (start stop : Page) : List Page :=
  (List.range ((stop.startAddress - start.startAddress) / 4096)).map (start + ·)

@[simp] theorem add_startAddress (p : Page) (n : Nat) :
    (p + n).startAddress = p.startAddress + n * 4096 := rfl

theorem fromStartAddress_of_aligned {addr : Nat} (h : addr % 4096 = 0) :
    fromStartAddress addr = some ⟨addr, h⟩ := by
  simp [fromStartAddress, h]

@[simp] theorem fromStartAddress_startAddress (p : Page) :
    fromStartAddress p.startAddress = some p :=
  fromStartAddress_of_aligned p.aligned

theorem range_add (p : Page) (n : Nat) : range p (p + n) = (List.range n).map (p + ·) := by
  simp only [range, add_startAddress]
  congr
  omega

theorem add_inj {p : Page} {i j : Nat} (h : p + i = p + j) : i = j := by
  have := congrArg startAddress h
  simp only [add_startAddress] at this
  omega

theorem nodup_range_add (p : Page) (n : Nat) : (range p (p + n)).Nodup := by
  rw [range_add]
  exact (List.nodup_range).map fun _ _ => add_inj

@[simp] theorem length_range_add (p : Page) (n : Nat) : (range p (p + n)).length = n := by
  simp [range_add]

/-- The pages of a range are those whose start lies in it. -/
theorem mem_range_add {p q : Page} {n : Nat} :
    q ∈ range p (p + n) ↔
      p.startAddress ≤ q.startAddress ∧ q.startAddress < p.startAddress + n * 4096 := by
  rw [range_add, List.mem_map]
  constructor
  · rintro ⟨i, hi, rfl⟩
    simp only [List.mem_range] at hi
    simp only [add_startAddress]
    constructor
    · omega
    · have : (i + 1) * 4096 ≤ n * 4096 := Nat.mul_le_mul_right _ hi
      rw [Nat.succ_mul] at this
      omega
  · rintro ⟨hlo, hhi⟩
    have hp := p.aligned
    have hq := q.aligned
    refine ⟨(q.startAddress - p.startAddress) / 4096, ?_, ext_startAddress ?_⟩
    · rw [List.mem_range, Nat.div_lt_iff_lt_mul (by omega)]
      omega
    · simp only [add_startAddress]
      omega

end Page

/-- `MapToError<Size4KiB>`, with the two errors this view of the mapper
produces. -/
inductive MapToError
  | frameAllocationFailed
  | pageAlreadyMapped (frame : PhysFrame)
deriving DecidableEq, Repr

/-- The page table through `Mapper<Size4KiB>`: the frame each page is
mapped to. -/
abbrev PageTable := Page → Option PhysFrame

/-- `Mapper::map_to`. -/
def mapTo (pt : PageTable) (page : Page) (frame : PhysFrame) : Except MapToError PageTable :=
  match pt page with
  | some f => .error (.pageAlreadyMapped f)
  | none => .ok (Function.update pt page (some frame))

/-- `Mapper::unmap`; `None` is `Err(UnmapError::PageNotMapped)`. -/
def unmap (pt : PageTable) (page : Page) : Option (PhysFrame × PageTable) :=
  (pt page).map fun f => (f, Function.update pt page none)

/-- `FrameAllocator<Size4KiB>`: `allocate_frame` returns a frame or `None`,
and may panic with an `ε`. -/
class FrameAllocator (σ : Type) (ε : outParam Type) where
  allocateFrame : σ → Except ε (Option PhysFrame × σ)

/-- `FrameDeallocator<Size4KiB>`. -/
class FrameDeallocator (σ : Type) where
  deallocateFrame : σ → PhysFrame → σ

/-- The kernel's `FRAME_ALLOCATOR`, with the memory its free list lives in. -/
instance : FrameAllocator (BootInfoFrameAllocator × Ram) FramePanic where
  allocateFrame s := (s.1.allocateFrame s.2).map fun r => (r.1, (r.2, s.2))

instance : FrameDeallocator (BootInfoFrameAllocator × Ram) where
  deallocateFrame s frame := s.1.deallocateFrame s.2 frame

/-- The panics of `memory/mod.rs`, that of `VirtAddr::new` with the bits 47
to 63 it refused, and those of the frame allocator. -/
inductive StackPanic (ε : Type)
  | virtAddrNotValid (bits : Nat)
  | notPageAligned
  | failedToUnmapPage
  | unwrapAddressNotAligned
  | frameAllocator (e : ε)
deriving DecidableEq, Repr

/-- The text of each panic, given those of the frame allocator. -/
def StackPanic.message {ε : Type} (frameMessage : ε → String) : StackPanic ε → String
  | .virtAddrNotValid bits =>
      "address passed to VirtAddr::new must not contain any data in bits 48 to 64: " ++
        "VirtAddrNotValid(" ++ toString bits ++ ")"
  | .notPageAligned => "`STACK_ALLOC_NEXT` not page aligned: AddressNotAligned"
  | .failedToUnmapPage => "Failed to unmap page: PageNotMapped"
  | .unwrapAddressNotAligned => "called `Result::unwrap()` on an `Err` value: AddressNotAligned"
  | .frameAllocator e => frameMessage e

namespace VirtAddr

/-- `VirtAddr::new_truncate`: the low 48 bits, with bit 47 copied into bits
48 to 63. -/
def newTruncate (addr : Nat) : Nat :=
  if addr % 2 ^ 48 < 2 ^ 47 then addr % 2 ^ 48 else addr % 2 ^ 48 + (2 ^ 64 - 2 ^ 48)

/-- `VirtAddr::try_new` on a `u64`, whose bits 47 to 63 are `addr / 2 ^ 47`:
all clear or all set keeps the address, bit 47 alone is sign-extended, and
anything else is `Err(VirtAddrNotValid(bits))`. -/
def tryNew (addr : Nat) : Except Nat Nat :=
  match addr / 2 ^ 47 with
  | 0 => .ok addr
  | 1 => .ok (newTruncate addr)
  | 0x1ffff => .ok addr
  | bits => .error bits

theorem newTruncate_of_lt {addr : Nat} (h : addr < 2 ^ 47) : newTruncate addr = addr := by
  unfold newTruncate
  rw [Nat.mod_eq_of_lt (by omega), if_pos h]

theorem newTruncate_of_ge {addr : Nat} (h₁ : 2 ^ 47 ≤ addr) (h₂ : addr < 2 ^ 48) :
    newTruncate addr = addr + (2 ^ 64 - 2 ^ 48) := by
  unfold newTruncate
  rw [Nat.mod_eq_of_lt h₂, if_neg (Nat.not_lt.mpr h₁)]

/-- Below `2 ^ 48`, `VirtAddr::new` does not panic: it sign-extends. -/
theorem tryNew_of_lt {addr : Nat} (h : addr < 2 ^ 48) : tryNew addr = .ok (newTruncate addr) := by
  unfold tryNew
  by_cases h47 : addr < 2 ^ 47
  · rw [Nat.div_eq_of_lt h47, newTruncate_of_lt h47]
    rfl
  · rw [show addr / 2 ^ 47 = 1 by omega]
    rfl

/-- A `u64` that `VirtAddr::new` refuses lies from `2 ^ 48` up to the
canonical upper half. -/
theorem tryNew_eq_error {addr bits : Nat} (hlt : addr < 2 ^ 64) (h : tryNew addr = .error bits) :
    bits = addr / 2 ^ 47 ∧ 2 ^ 48 ≤ addr ∧ addr < 2 ^ 64 - 2 ^ 47 := by
  unfold tryNew at h
  split at h
  · cases h
  · cases h
  · cases h
  · -- bits 47 to 63 are neither clear, nor bit 47 alone, nor all set
    cases h
    rename_i h0 h1 h2
    have : addr / 2 ^ 47 ≠ 0 ∧ addr / 2 ^ 47 ≠ 1 ∧ addr / 2 ^ 47 ≠ 0x1ffff := ⟨h0, h1, h2⟩
    exact ⟨rfl, by omega⟩

/-- From `2 ^ 48` up to the canonical upper half, `VirtAddr::new` panics. -/
theorem tryNew_of_ge {addr : Nat} (h₁ : 2 ^ 48 ≤ addr) (h₂ : addr < 2 ^ 64 - 2 ^ 47) :
    tryNew addr = .error (addr / 2 ^ 47) := by
  unfold tryNew
  split <;> first | omega | rfl

/-- Sign extension keeps the order of the addresses below `2 ^ 48`, and the
room between them. -/
theorem newTruncate_add_le {a b d : Nat} (h : a + d ≤ b) (hb : b < 2 ^ 48) :
    newTruncate a + d ≤ newTruncate b := by
  unfold newTruncate
  rw [Nat.mod_eq_of_lt (by omega : a < 2 ^ 48), Nat.mod_eq_of_lt hb]
  split <;> split <;> omega

/-- What `VirtAddr::new` returns is at least the address it was given, and
page-aligned when that was. -/
theorem le_of_tryNew {addr x : Nat} (h : tryNew addr = .ok x) :
    addr ≤ x ∧ (addr % 4096 = 0 → x % 4096 = 0) := by
  unfold tryNew at h
  split at h <;> cases h
  · exact ⟨le_rfl, id⟩
  · rename_i h1
    rw [newTruncate_of_ge (by omega) (by omega)]
    omega
  · exact ⟨le_rfl, id⟩

end VirtAddr

end Memory

/-- `StackBounds::page_range`. -/
def Processes.StackBounds.pageRange {ε : Type} (b : StackBounds) :
    Except (Memory.StackPanic ε) (List Memory.Page) := do
  let start ← expect (Memory.Page.fromStartAddress b.start) .unwrapAddressNotAligned
  let stop ← expect (Memory.Page.fromStartAddress b.«end») .unwrapAddressNotAligned
  pure (Memory.Page.range start stop)

namespace Memory

/-- The first value of `STACK_ALLOC_NEXT`. -/
def stackAllocNextInit : Nat := 0x555555550000

/-- What the stack code reads and writes: `STACK_ALLOC_NEXT` (a `u64`), the
page table behind `TEMP_MAPPER` and the frame allocator. -/
structure StackMemory (σ : Type) where
  stackAllocNext : Nat
  pageTable : PageTable
  frameAllocator : σ

variable {σ ε : Type}

/-- `reserve_stack_memory`: `fetch_add` of the size on the `u64` counter,
then `VirtAddr::new` of the old value and the page at that address. -/
def reserveStackMemory (m : StackMemory σ) (sizeInPages : Nat) :
    Except (StackPanic ε) (Page × StackMemory σ) := do
  let old := m.stackAllocNext
  let m := { m with stackAllocNext := (old + sizeInPages * 4096) % 2 ^ 64 }
  let startAddr ← (VirtAddr.tryNew old).mapError StackPanic.virtAddrNotValid
  let page ← expect (Page.fromStartAddress startAddr) .notPageAligned
  pure (page, m)

/-- The loop of `alloc_stack`: a frame for each page, then `map_to`. -/
def mapPages [FrameAllocator σ ε] :
    List Page → StackMemory σ → Except (StackPanic ε) (Except MapToError Unit × StackMemory σ)
  | [], m => pure (.ok (), m)
  | page :: pages, m => do
      let (frame, fa) ← (FrameAllocator.allocateFrame m.frameAllocator).mapError .frameAllocator
      let m := { m with frameAllocator := fa }
      match frame with
      | none => pure (.error .frameAllocationFailed, m)
      | some frame =>
          match mapTo m.pageTable page frame with
          | .error e => pure (.error e, m)
          | .ok pt => mapPages pages { m with pageTable := pt }

/-- `alloc_stack`. -/
def allocStack [FrameAllocator σ ε] (m : StackMemory σ) (sizeInPages : Nat) :
    Except (StackPanic ε) (Except MapToError StackBounds × StackMemory σ) := do
  let (guardPage, m) ← reserveStackMemory m (sizeInPages + 1)
  let stackStart : Page := guardPage + 1
  let stackEnd : Page := stackStart + sizeInPages
  let (r, m) ← mapPages (Page.range stackStart stackEnd) m
  match r with
  | .error e => pure (.error e, m)
  | .ok () => pure (.ok { start := stackStart.startAddress, «end» := stackEnd.startAddress }, m)

/-- The loop of `dealloc_stack`: `unmap(..).expect(..)`, then
`deallocate_frame` of the frame. -/
def unmapPages [FrameDeallocator σ] :
    List Page → StackMemory σ → Except (StackPanic ε) (StackMemory σ)
  | [], m => pure m
  | page :: pages, m => do
      let (frame, pt) ← expect (unmap m.pageTable page) .failedToUnmapPage
      unmapPages pages
        { m with pageTable := pt,
                 frameAllocator := FrameDeallocator.deallocateFrame m.frameAllocator frame }

/-- `dealloc_stack`. -/
def deallocStack [FrameDeallocator σ] (stackBounds : StackBounds) (m : StackMemory σ) :
    Except (StackPanic ε) (StackMemory σ) := do
  let pages ← stackBounds.pageRange
  unmapPages pages m

/-! ## What each function does -/

/-- `allocate_frame`, called once for each frame of `frames`, returns them in
order. -/
inductive Allocates [FrameAllocator σ ε] : σ → List PhysFrame → σ → Prop
  | nil (s : σ) : Allocates s [] s
  | cons {s s₁ s' : σ} {f : PhysFrame} {fs : List PhysFrame} :
      FrameAllocator.allocateFrame s = .ok (some f, s₁) → Allocates s₁ fs s' →
        Allocates s (f :: fs) s'

/-- The table with each page of `pages` mapped to the frame at the same
position of `frames`. -/
def mapAll (pt : PageTable) : List Page → List PhysFrame → PageTable
  | page :: pages, frame :: frames => mapAll (Function.update pt page (some frame)) pages frames
  | _, _ => pt

theorem mapAll_of_not_mem {pt : PageTable} {pages : List Page} {frames : List PhysFrame}
    {p : Page} (hp : p ∉ pages) : mapAll pt pages frames p = pt p := by
  induction pages generalizing pt frames with
  | nil => cases frames <;> rfl
  | cons q pages ih =>
      cases frames with
      | nil => rfl
      | cons f frames =>
          have hpq : p ≠ q := fun h => hp (h ▸ List.mem_cons_self)
          rw [mapAll, ih (fun h => hp (List.mem_cons_of_mem q h)), Function.update_of_ne hpq]

theorem update_mapAll {pt : PageTable} {pages : List Page} {frames : List PhysFrame} {p : Page}
    (hp : p ∉ pages) (v : Option PhysFrame) :
    Function.update (mapAll pt pages frames) p v = mapAll (Function.update pt p v) pages frames := by
  induction pages generalizing pt frames with
  | nil => cases frames <;> rfl
  | cons q pages ih =>
      cases frames with
      | nil => rfl
      | cons f frames =>
          have hpq : p ≠ q := fun h => hp (h ▸ List.mem_cons_self)
          rw [mapAll, mapAll, ih (fun h => hp (List.mem_cons_of_mem q h)),
            Function.update_comm hpq]

/-- Every page of `pages` is mapped, when there are frames enough. -/
theorem mapAll_isSome {pt : PageTable} {pages : List Page} {frames : List PhysFrame} {p : Page}
    (hlen : pages.length ≤ frames.length) (hp : p ∈ pages) : (mapAll pt pages frames p).isSome := by
  induction pages generalizing pt frames with
  | nil => simp at hp
  | cons q pages ih =>
      cases frames with
      | nil => simp at hlen
      | cons f frames =>
          rw [mapAll]
          by_cases hin : p ∈ pages
          · exact ih (by simpa using hlen) hin
          · have hpq : p = q := (List.mem_cons.mp hp).resolve_right hin
            subst hpq
            rw [mapAll_of_not_mem hin, Function.update_self]
            rfl

theorem reserveStackMemory_eq_ok {m m' : StackMemory σ} {n : Nat} {page : Page}
    (h : (reserveStackMemory m n : Except (StackPanic ε) _) = .ok (page, m')) :
    VirtAddr.tryNew m.stackAllocNext = .ok page.startAddress ∧
      m' = { m with stackAllocNext := (m.stackAllocNext + n * 4096) % 2 ^ 64 } := by
  simp only [reserveStackMemory, bind_eq_ok, mapError_eq_ok, expect_eq_ok, pure_eq_ok,
    Except.ok.injEq, Prod.mk.injEq] at h
  obtain ⟨addr, haddr, page', hpage, rfl, rfl⟩ := h
  unfold Page.fromStartAddress at hpage
  split at hpage
  · cases hpage
    exact ⟨haddr, rfl⟩
  · cases hpage

/-- `reserve_stack_memory` panics only in `VirtAddr::new`, or on a counter
off a page boundary. -/
theorem reserveStackMemory_eq_error {m : StackMemory σ} {n : Nat} {e : StackPanic ε}
    (h : reserveStackMemory m n = .error e) :
    (VirtAddr.tryNew m.stackAllocNext = .error (m.stackAllocNext / 2 ^ 47) ∧
      e = .virtAddrNotValid (m.stackAllocNext / 2 ^ 47)) ∨
      ∃ addr, VirtAddr.tryNew m.stackAllocNext = .ok addr ∧ addr % 4096 ≠ 0 ∧
        e = .notPageAligned := by
  unfold reserveStackMemory at h
  rcases bind_eq_error.mp h with h | ⟨addr, haddr, h⟩
  · obtain ⟨bits, hbits, rfl⟩ := mapError_eq_error.mp h
    have hb := hbits
    unfold VirtAddr.tryNew at hb
    split at hb <;> cases hb
    exact .inl ⟨hbits, rfl⟩
  · rcases bind_eq_error.mp h with h | ⟨page, -, h⟩
    · refine .inr ⟨addr, mapError_eq_ok.mp haddr, fun hal => ?_, ?_⟩
      · simp [Page.fromStartAddress_of_aligned hal] at h
      · unfold Page.fromStartAddress at h
        split at h <;> simp_all
    · cases h

/-- Below `2 ^ 47`, on a page boundary, `reserve_stack_memory` returns the
page at the counter, and a counter that does not reach `2 ^ 64` moves by the
size. -/
theorem reserveStackMemory_of_lt (m : StackMemory σ) (n : Nat)
    (h : m.stackAllocNext % 4096 = 0) (hlt : m.stackAllocNext < 2 ^ 47)
    (hn : m.stackAllocNext + n * 4096 < 2 ^ 64) :
    (reserveStackMemory m n : Except (StackPanic ε) _) =
      .ok (⟨m.stackAllocNext, h⟩, { m with stackAllocNext := m.stackAllocNext + n * 4096 }) := by
  have hnew : VirtAddr.tryNew m.stackAllocNext = .ok m.stackAllocNext := by
    rw [VirtAddr.tryNew_of_lt (by omega), VirtAddr.newTruncate_of_lt hlt]
  simp only [reserveStackMemory, hnew, Except.mapError, ok_bind,
    Page.fromStartAddress_of_aligned h, expect_some, pure_eq_ok, Nat.mod_eq_of_lt hn]

/-- A loop of `map_to` that succeeds maps each page, unmapped before, to a
fresh frame from the allocator. -/
theorem mapPages_eq_ok [FrameAllocator σ ε] {pages : List Page} {m m' : StackMemory σ}
    (h : mapPages pages m = .ok (.ok (), m')) :
    m'.stackAllocNext = m.stackAllocNext ∧ (∀ p ∈ pages, m.pageTable p = none) ∧
      ∃ frames, Allocates m.frameAllocator frames m'.frameAllocator ∧
        frames.length = pages.length ∧ m'.pageTable = mapAll m.pageTable pages frames := by
  induction pages generalizing m with
  | nil =>
      simp only [mapPages, pure_eq_ok, Except.ok.injEq, Prod.mk.injEq] at h
      obtain ⟨-, rfl⟩ := h
      exact ⟨rfl, by simp, [], .nil _, rfl, rfl⟩
  | cons page pages ih =>
      simp only [mapPages] at h
      obtain ⟨⟨frame, fa⟩, hfa, h⟩ := bind_eq_ok.mp h
      obtain ⟨f, rfl⟩ : ∃ f, frame = some f := by
        cases frame with
        | none => simp at h
        | some f => exact ⟨f, rfl⟩
      have hfa' : FrameAllocator.allocateFrame m.frameAllocator = .ok (some f, fa) := by
        cases hx : FrameAllocator.allocateFrame m.frameAllocator <;> simp_all [Except.mapError]
      cases hmap : mapTo m.pageTable page f with
      | error e => simp [hmap] at h
      | ok pt =>
          simp only [hmap] at h
          have hfree : m.pageTable page = none := by
            unfold mapTo at hmap
            split at hmap
            · cases hmap
            · assumption
          have hpt : pt = Function.update m.pageTable page (some f) := by
            simp only [mapTo, hfree, Except.ok.injEq] at hmap
            exact hmap.symm
          obtain ⟨hnext, hnone, frames, hall, hlen, htable⟩ := ih h
          refine ⟨hnext, ?_, f :: frames, .cons hfa' hall, by simp [hlen], by simpa [mapAll, hpt] using htable⟩
          intro p hp
          rcases List.mem_cons.mp hp with rfl | hp
          · exact hfree
          · have hp' := hnone p hp
            simp only [hpt] at hp'
            by_cases hpq : p = page
            · subst hpq
              simp at hp'
            · rwa [Function.update_of_ne hpq] at hp'

/-- A `map_to` loop panics only when the frame allocator panics. -/
theorem mapPages_eq_error [FrameAllocator σ ε] {pages : List Page} {m : StackMemory σ}
    {e : StackPanic ε} (h : mapPages pages m = .error e) : ∃ e', e = .frameAllocator e' := by
  induction pages generalizing m with
  | nil => simp [mapPages] at h
  | cons page pages ih =>
      simp only [mapPages] at h
      rcases bind_eq_error.mp h with h | ⟨⟨frame, fa⟩, -, h⟩
      · cases hx : FrameAllocator.allocateFrame m.frameAllocator with
        | error e' =>
            simp only [hx, Except.mapError, Except.error.injEq] at h
            exact ⟨e', h.symm⟩
        | ok r => simp [hx, Except.mapError] at h
      · cases frame with
        | none => simp at h
        | some f =>
            cases hmap : mapTo m.pageTable page f with
            | error e' => simp [hmap] at h
            | ok pt =>
                simp only [hmap] at h
                exact ih h

/-- The loop of `map_to` maps every page when the allocator hands out a frame
for each and none of the pages is mapped yet. -/
theorem mapPages_of_allocates [FrameAllocator σ ε] {pages : List Page} {frames : List PhysFrame}
    {m : StackMemory σ} {fa' : σ} (hall : Allocates m.frameAllocator frames fa')
    (hlen : frames.length = pages.length) (hnodup : pages.Nodup)
    (hfree : ∀ p ∈ pages, m.pageTable p = none) :
    mapPages pages m =
      .ok (.ok (), { m with pageTable := mapAll m.pageTable pages frames, frameAllocator := fa' }) := by
  -- induction on the pages, each round taking the next frame of `frames`
  induction pages generalizing m frames with
  | nil =>
      cases hall with
      | nil => rfl
      | cons => simp at hlen
  | cons page pages ih =>
      cases hall with
      | nil => simp at hlen
      | @cons _ s₁ _ f fs hf hrest =>
          obtain ⟨hnotin, hnodup'⟩ := List.nodup_cons.mp hnodup
          have hmap : mapTo m.pageTable page f = .ok (Function.update m.pageTable page (some f)) := by
            simp [mapTo, hfree page List.mem_cons_self]
          have hfree' : ∀ p ∈ pages,
              Function.update m.pageTable page (some f) p = none := fun p hp => by
            rw [Function.update_of_ne (fun h : p = page => hnotin (h ▸ hp))]
            exact hfree p (List.mem_cons_of_mem _ hp)
          have hrec := ih (m := { m with frameAllocator := s₁,
                                         pageTable := Function.update m.pageTable page (some f) })
            hrest (by simpa using hlen) hnodup' hfree'
          simp only [mapPages, hf, Except.mapError, ok_bind, hmap]
          exact hrec

/-- Before any frame is freed, the boot frame allocator hands out the frames
of its iterator in order. -/
theorem allocates_of_physFrameIter {a : BootInfoFrameAllocator} {mem : Ram}
    {frames rest : List PhysFrame} (hlen : a.freeListLength = 0)
    (hiter : a.physFrameIter = some (frames ++ rest)) :
    Allocates (a, mem) frames ({ a with physFrameIter := some rest }, mem) := by
  induction frames generalizing a with
  | nil =>
      have ha : { a with physFrameIter := some rest } = a := by
        cases a
        simp_all
      rw [ha]
      exact .nil _
  | cons f fs ih =>
      have hstep : FrameAllocator.allocateFrame (a, mem) =
          .ok (some f, ({ a with physFrameIter := some (fs ++ rest) }, mem)) := by
        simp [FrameAllocator.allocateFrame, BootInfoFrameAllocator.allocateFrame, hlen, hiter,
          Except.map]
      have hrest := ih (a := { a with physFrameIter := some (fs ++ rest) }) hlen rfl
      exact .cons hstep hrest

/-- Right after `init`, the allocator hands out the frames of the usable
regions in order. -/
theorem allocates_usableFrames (memoryMap : MemoryMap) (offset : Nat) (mem : Ram) :
    Allocates (BootInfoFrameAllocator.new.init memoryMap offset, mem) (usableFrames memoryMap)
      ({ BootInfoFrameAllocator.new.init memoryMap offset with physFrameIter := some [] }, mem) :=
  allocates_of_physFrameIter rfl (by simp [BootInfoFrameAllocator.init])

/-- Unmapping the pages `mapAll` mapped hands their frames to the
deallocator in order and restores the table. -/
theorem unmapPages_mapAll [FrameDeallocator σ] {pages : List Page} {frames : List PhysFrame}
    {pt : PageTable} (m : StackMemory σ) (hnd : pages.Nodup) (hlen : frames.length = pages.length)
    (hnone : ∀ p ∈ pages, pt p = none) :
    (unmapPages pages { m with pageTable := mapAll pt pages frames } : Except (StackPanic ε) _) =
      .ok { m with pageTable := pt,
                   frameAllocator := frames.foldl FrameDeallocator.deallocateFrame m.frameAllocator } := by
  induction pages generalizing frames pt m with
  | nil =>
      cases frames with
      | nil => rfl
      | cons f frames => simp at hlen
  | cons page pages ih =>
      cases frames with
      | nil => simp at hlen
      | cons f frames =>
          obtain ⟨hpage, hnd⟩ := List.nodup_cons.mp hnd
          have hmapped : mapAll pt (page :: pages) (f :: frames) page = some f := by
            rw [mapAll, mapAll_of_not_mem hpage, Function.update_self]
          have hrest : Function.update (mapAll pt (page :: pages) (f :: frames)) page none =
              mapAll pt pages frames := by
            rw [mapAll, update_mapAll hpage, Function.update_idem, ← hnone page List.mem_cons_self,
              Function.update_eq_self]
          simp only [unmapPages, unmap, hmapped, Option.map_some, expect_some, ok_bind, hrest]
          exact ih { m with frameAllocator := FrameDeallocator.deallocateFrame m.frameAllocator f }
            hnd (by simpa using hlen) fun p hp => hnone p (List.mem_cons_of_mem _ hp)

theorem unmapPages_eq_ok [FrameDeallocator σ] {pages : List Page} {m m' : StackMemory σ}
    (h : (unmapPages pages m : Except (StackPanic ε) _) = .ok m') :
    m'.stackAllocNext = m.stackAllocNext ∧ (∀ p ∈ pages, m'.pageTable p = none) ∧
      ∀ p ∉ pages, m'.pageTable p = m.pageTable p := by
  induction pages generalizing m with
  | nil =>
      simp only [unmapPages, pure_eq_ok, Except.ok.injEq] at h
      subst h
      exact ⟨rfl, by simp, fun _ _ => rfl⟩
  | cons page pages ih =>
      simp only [unmapPages] at h
      obtain ⟨⟨frame, pt⟩, hun, h⟩ := bind_eq_ok.mp h
      simp only [unmap, expect_eq_ok, Option.map_eq_some_iff, Prod.mk.injEq] at hun
      obtain ⟨-, -, -, rfl⟩ := hun
      obtain ⟨hnext, hnone, hsame⟩ := ih h
      refine ⟨hnext, fun p hp => ?_, fun p hp => ?_⟩
      · by_cases hin : p ∈ pages
        · exact hnone p hin
        · obtain rfl : p = page := (List.mem_cons.mp hp).resolve_right hin
          simp [hsame p hin]
      · have hpq : p ≠ page := fun h => hp (h ▸ List.mem_cons_self)
        simp [hsame p (fun h => hp (List.mem_cons_of_mem _ h)), Function.update_of_ne hpq]

theorem pageRange_add {start : Page} {n : Nat} :
    ({ start := start.startAddress, «end» := (start + n).startAddress } : StackBounds).pageRange =
      (.ok (Page.range start (start + n)) : Except (StackPanic ε) _) := by
  simp only [Processes.StackBounds.pageRange, Page.fromStartAddress_startAddress, expect_some,
    ok_bind, pure_eq_ok]

/-- A stack that `alloc_stack` hands out: `n` pages above the guard page at
the address `VirtAddr::new` made of the old counter, each mapped to a fresh
frame. -/
theorem allocStack_eq_ok [FrameAllocator σ ε] {m m' : StackMemory σ} {n : Nat} {b : StackBounds}
    (h : allocStack m n = .ok (.ok b, m')) :
    ∃ (guard : Nat) (start : Page), VirtAddr.tryNew m.stackAllocNext = .ok guard ∧
      start.startAddress = guard + 4096 ∧
      b = { start := start.startAddress, «end» := (start + n).startAddress } ∧
      m'.stackAllocNext = (m.stackAllocNext + (n + 1) * 4096) % 2 ^ 64 ∧
      (∀ p ∈ Page.range start (start + n), m.pageTable p = none) ∧
      ∃ frames, Allocates m.frameAllocator frames m'.frameAllocator ∧ frames.length = n ∧
        m'.pageTable = mapAll m.pageTable (Page.range start (start + n)) frames := by
  simp only [allocStack, bind_eq_ok] at h
  obtain ⟨⟨guard, m₁⟩, hres, ⟨r, m₂⟩, hmap, h⟩ := h
  obtain ⟨hguard, rfl⟩ := reserveStackMemory_eq_ok hres
  cases r with
  | error e => simp at h
  | ok u =>
      simp only [pure_eq_ok, Except.ok.injEq, Prod.mk.injEq] at h
      obtain ⟨rfl, rfl⟩ := h
      obtain ⟨hnext, hnone, frames, hall, hlen, htable⟩ := mapPages_eq_ok hmap
      refine ⟨guard.startAddress, guard + 1, hguard, rfl, rfl, hnext, hnone, frames, hall,
        by simpa using hlen, htable⟩

/-- Below `2 ^ 47`, `alloc_stack` hands out a stack when the allocator has a
frame for each of its pages and none of them is mapped yet. -/
theorem allocStack_of_allocates [FrameAllocator σ ε] {m : StackMemory σ} {n : Nat} {guard : Page}
    {frames : List PhysFrame} {fa' : σ} (hguard : guard.startAddress = m.stackAllocNext)
    (hlt : m.stackAllocNext < 2 ^ 47) (hn : m.stackAllocNext + (n + 1) * 4096 < 2 ^ 64)
    (hall : Allocates m.frameAllocator frames fa') (hlen : frames.length = n)
    (hfree : ∀ p ∈ Page.range (guard + 1) (guard + 1 + n), m.pageTable p = none) :
    allocStack m n =
      .ok (.ok ⟨(guard + 1 : Page).startAddress, (guard + 1 + n : Page).startAddress⟩,
        ⟨m.stackAllocNext + (n + 1) * 4096,
          mapAll m.pageTable (Page.range (guard + 1) (guard + 1 + n)) frames, fa'⟩) := by
  obtain ⟨a, hal⟩ := guard
  subst hguard
  unfold allocStack
  rw [reserveStackMemory_of_lt m (n + 1) hal hlt hn, ok_bind]
  dsimp only
  rw [mapPages_of_allocates (m := { m with stackAllocNext := m.stackAllocNext + (n + 1) * 4096 })
    hall (by simp [hlen]) (Page.nodup_range_add _ _) hfree]
  rfl

/-- An `alloc_stack` that panics panicked in `reserve_stack_memory` or in
its loop. -/
theorem allocStack_eq_error [FrameAllocator σ ε] {m : StackMemory σ} {n : Nat} {e : StackPanic ε}
    (h : allocStack m n = .error e) :
    reserveStackMemory m (n + 1) = .error e ∨
      ∃ guard m₁, (reserveStackMemory m (n + 1) : Except (StackPanic ε) _) = .ok (guard, m₁) ∧
        mapPages (Page.range (guard + 1) (guard + 1 + n)) m₁ = .error e := by
  unfold allocStack at h
  rcases bind_eq_error.mp h with h | ⟨⟨guard, m₁⟩, hres, h⟩
  · exact .inl h
  · refine .inr ⟨guard, m₁, hres, ?_⟩
    rcases bind_eq_error.mp h with h | ⟨⟨r, m₂⟩, -, h⟩
    · exact h
    · cases r <;> simp at h

/-- `dealloc_stack` of the bounds `alloc_stack` returned, straight after it,
unmaps exactly the pages it mapped and hands each of their frames, in order,
to the deallocator. -/
theorem deallocStack_allocStack [FrameAllocator σ ε] [FrameDeallocator σ] {m m' : StackMemory σ}
    {n : Nat} {b : StackBounds} (h : allocStack m n = .ok (.ok b, m')) :
    ∃ frames, Allocates m.frameAllocator frames m'.frameAllocator ∧ frames.length = n ∧
      (deallocStack b m' : Except (StackPanic ε) _) =
        .ok { m' with pageTable := m.pageTable,
                      frameAllocator := frames.foldl FrameDeallocator.deallocateFrame
                        m'.frameAllocator } := by
  obtain ⟨-, start, -, -, rfl, -, hnone, frames, hall, hlen, htable⟩ := allocStack_eq_ok h
  refine ⟨frames, hall, hlen, ?_⟩
  have hm' : m' = { m' with pageTable := mapAll m.pageTable (Page.range start (start + n)) frames } := by
    rw [← htable]
  simp only [deallocStack, pageRange_add, ok_bind]
  rw [hm']
  exact unmapPages_mapAll _ (Page.nodup_range_add start n) (by simpa using hlen) hnone

theorem Page.range_of_lt {start stop : Page} (h : start.startAddress < stop.startAddress) :
    ∃ rest, Page.range start stop = start :: rest := by
  have hs := start.aligned
  have ht := stop.aligned
  obtain ⟨k, hk⟩ : ∃ k, (stop.startAddress - start.startAddress) / 4096 = k + 1 :=
    ⟨(stop.startAddress - start.startAddress) / 4096 - 1, by omega⟩
  refine ⟨(List.range' 1 k).map (start + ·), ?_⟩
  rw [Page.range, hk, List.range_eq_range', List.range'_succ, List.map_cons]
  congr 1

/-- Unmapping a page that is not mapped panics. -/
theorem unmapPages_of_unmapped [FrameDeallocator σ] {page : Page} {pages : List Page}
    {m : StackMemory σ} (h : m.pageTable page = none) :
    (unmapPages (page :: pages) m : Except (StackPanic ε) _) = .error .failedToUnmapPage := by
  simp [unmapPages, unmap, h]

/-! ## Runs -/

/-- The loop of `alloc_stack` leaves the counter alone, however it ends. -/
theorem mapPages_stackAllocNext [FrameAllocator σ ε] {pages : List Page} {m m' : StackMemory σ}
    {r : Except MapToError Unit} (h : mapPages pages m = .ok (r, m')) :
    m'.stackAllocNext = m.stackAllocNext := by
  induction pages generalizing m with
  | nil =>
      simp only [mapPages, pure_eq_ok, Except.ok.injEq, Prod.mk.injEq] at h
      rw [← h.2]
  | cons page pages ih =>
      simp only [mapPages] at h
      obtain ⟨⟨frame, fa⟩, -, h⟩ := bind_eq_ok.mp h
      cases frame with
      | none =>
          simp only [pure_eq_ok, Except.ok.injEq, Prod.mk.injEq] at h
          rw [← h.2]
      | some f =>
          cases hmap : mapTo m.pageTable page f with
          | error e =>
              simp only [hmap, pure_eq_ok, Except.ok.injEq, Prod.mk.injEq] at h
              rw [← h.2]
          | ok pt =>
              simp only [hmap] at h
              rw [ih h]

section Runs

variable [FrameAllocator σ ε] [FrameDeallocator σ] {pt₀ : PageTable} {fa₀ : σ}

end Runs

/-- Freeing a stack twice panics: its first page is no longer mapped. -/
theorem deallocStack_twice_panics [FrameDeallocator σ] {m m' : StackMemory σ} {b : StackBounds}
    (hlt : b.start < b.«end») (h : (deallocStack b m : Except (StackPanic ε) _) = .ok m') :
    (deallocStack b m' : Except (StackPanic ε) _) = .error .failedToUnmapPage := by
  obtain ⟨pages, hpages, h⟩ := bind_eq_ok.mp h
  simp only [Processes.StackBounds.pageRange, bind_eq_ok, expect_eq_ok, pure_eq_ok,
    Except.ok.injEq] at hpages
  obtain ⟨start, hstart, stop, hstop, rfl⟩ := hpages
  have hlt' : start.startAddress < stop.startAddress := by
    unfold Page.fromStartAddress at hstart hstop
    split at hstart <;> split at hstop <;> simp_all
    rw [← hstart, ← hstop]
    exact hlt
  obtain ⟨rest, hrange⟩ := Page.range_of_lt hlt'
  have hnone := (unmapPages_eq_ok h).2.1 start (by simp [hrange])
  simp only [deallocStack, Processes.StackBounds.pageRange, hstart, hstop, expect_some, ok_bind,
    pure_eq_ok, hrange]
  exact unmapPages_of_unmapped hnone

theorem deallocStack_twice_panics_of_one_page :
    let page : Page := ⟨4096, rfl⟩
    let frame : PhysFrame := ⟨65536, rfl⟩
    let m : StackMemory (BootInfoFrameAllocator × Ram) :=
      ⟨stackAllocNextInit, Function.update (fun _ => none) page (some frame),
        (BootInfoFrameAllocator.new, fun _ => 0)⟩
    let b : StackBounds := ⟨4096, 8192⟩
    let m' : StackMemory (BootInfoFrameAllocator × Ram) :=
      { m with pageTable := Function.update m.pageTable page none,
               frameAllocator := FrameDeallocator.deallocateFrame m.frameAllocator frame }
    b.start < b.«end» ∧ (deallocStack b m : Except (StackPanic FramePanic) _) = .ok m' ∧
      (deallocStack b m' : Except (StackPanic FramePanic) _) = .error .failedToUnmapPage := by
  intro page frame m b m'
  have hlt : b.start < b.«end» := by decide
  have hrange : (b.pageRange : Except (StackPanic FramePanic) _) = .ok [page] := by
    simp only [Processes.StackBounds.pageRange, b,
      Page.fromStartAddress_of_aligned (show 4096 % 4096 = 0 by decide),
      Page.fromStartAddress_of_aligned (show 8192 % 4096 = 0 by decide), expect_some, ok_bind,
      pure_eq_ok]
    rfl
  have h : (deallocStack b m : Except (StackPanic FramePanic) _) = .ok m' := by
    rw [deallocStack, hrange, ok_bind]
    rfl
  exact ⟨hlt, h, deallocStack_twice_panics hlt h⟩

end Memory
end NoIdeaOS
