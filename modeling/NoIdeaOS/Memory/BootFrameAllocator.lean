import Mathlib.Data.List.Nodup
import NoIdeaOS.Lib.Fallible
import NoIdeaOS.Lib.Links

/-!
# The boot frame allocator

`memory/allocator/boot_frame_allocator.rs`.  Frames come from two sources.
Frames given back by `deallocate_frame` form a LIFO list whose links are
stored in the frames themselves (at `phys_memory_offset` plus the frame's
address, where the bootloader maps all physical memory) and whose length is
kept in `free_list_length`.  When that list is empty, `allocate_frame` takes
the next frame of the iterator `usable_frames` built from the memory map.

Memory is a map from virtual addresses to the `u64` stored there.  The
iterator is the list of frames it has still to yield.  `memory_map` is stored
by `init` and read nowhere, so it is left out.

The run `FrameRun` starts from `init` and interleaves allocations,
deallocations of allocated frames, and writes by anyone else outside the
frames on the free list; it keeps the frames handed out as a ghost list.  Its
invariant `FrameInv` says that the free list, the rest of the iterator and
the allocated frames are distinct frames of usable regions.  Every step moves
one frame from one part to another, so all of it follows from a permutation
(`FrameInv.of_perm`).
-/

namespace NoIdeaOS
namespace Memory

open Fallible Links

/-- `bootloader::bootinfo::MemoryRegionType`. -/
inductive MemoryRegionType
  | usable
  | inUse
  | reserved
  | acpiReclaimable
  | acpiNvs
  | badMemory
  | kernel
  | kernelStack
  | pageTable
  | bootloader
  | frameZero
  | empty
  | bootInfo
  | package
deriving DecidableEq, Repr

/-- `bootloader::bootinfo::FrameRange`: frame numbers, the end excluded. -/
structure FrameRange where
  startFrameNumber : Nat
  endFrameNumber : Nat
deriving DecidableEq, Repr

def FrameRange.startAddr (r : FrameRange) : Nat := r.startFrameNumber * 4096

def FrameRange.endAddr (r : FrameRange) : Nat := r.endFrameNumber * 4096

/-- `bootloader::bootinfo::MemoryRegion`. -/
structure MemoryRegion where
  range : FrameRange
  regionType : MemoryRegionType
deriving DecidableEq, Repr

abbrev MemoryMap := List MemoryRegion

/-- `PhysFrame<Size4KiB>`: a frame is known by its 4096-aligned start address. -/
structure PhysFrame where
  startAddress : Nat
  aligned : startAddress % 4096 = 0
deriving DecidableEq, Repr

/-- `PhysFrame::containing_address`: the address aligned down to 4096. -/
def PhysFrame.containingAddress (addr : Nat) : PhysFrame :=
  ⟨addr - addr % 4096, by omega⟩

/-- `(start..stop).step_by(step)`. -/
def stepBy (start stop step : Nat) : List Nat :=
  List.range' start ((stop - start + step - 1) / step) step

/-- `usable_frames`: the frames of the usable regions, in the map's order. -/
def usableFrames (memoryMap : MemoryMap) : List PhysFrame :=
  let addrRanges := (memoryMap.filter fun r => r.regionType == .usable).map
    fun r => (r.range.startAddr, r.range.endAddr)
  let frameAddresses := addrRanges.flatMap fun r => stepBy r.1 r.2 4096
  frameAddresses.map PhysFrame.containingAddress

/-- `BootInfoFrameAllocator`, without `memory_map`. -/
structure BootInfoFrameAllocator where
  physFrameIter : Option (List PhysFrame)
  freeListLoc : Nat
  freeListLength : Nat
  physMemoryOffset : Nat
deriving DecidableEq, Repr

/-- The `u64` stored at each virtual address. -/
abbrev Ram := Nat → Nat

namespace BootInfoFrameAllocator

def new : BootInfoFrameAllocator :=
  { freeListLoc := 0, physFrameIter := none, freeListLength := 0, physMemoryOffset := 0 }

def init (a : BootInfoFrameAllocator) (memoryMap : MemoryMap) (physicalMemoryOffset : Nat) :
    BootInfoFrameAllocator :=
  { a with physMemoryOffset := physicalMemoryOffset, physFrameIter := some (usableFrames memoryMap) }

/-- The panic of `allocate_frame`: `unwrap` of `phys_frame_iter` before `init`. -/
inductive FramePanic
  | unwrapNone
deriving DecidableEq, Repr

def allocateFrame (a : BootInfoFrameAllocator) (mem : Ram) :
    Except FramePanic (Option PhysFrame × BootInfoFrameAllocator) :=
  if a.freeListLength > 0 then
    let ans := PhysFrame.containingAddress a.freeListLoc
    let a := { a with freeListLength := a.freeListLength - 1 }
    pure (some ans, { a with freeListLoc := mem (a.physMemoryOffset + a.freeListLoc) })
  else do
    let iter ← expect a.physFrameIter .unwrapNone
    -- `Iterator::next`
    match iter with
    | [] => pure (none, a)
    | frame :: rest => pure (some frame, { a with physFrameIter := some rest })

def deallocateFrame (a : BootInfoFrameAllocator) (mem : Ram) (frame : PhysFrame) :
    BootInfoFrameAllocator × Ram :=
  let addr := frame.startAddress
  let currentFreeLstLoc := a.freeListLoc
  let a := { a with freeListLoc := addr }
  let mem := Function.update mem (a.physMemoryOffset + a.freeListLoc) currentFreeLstLoc
  ({ a with freeListLength := a.freeListLength + 1 }, mem)

/-- The free list: from `free_list_loc`, `free_list_length` frames, each
link stored at `phys_memory_offset` plus the frame's address. -/
def freeList (a : BootInfoFrameAllocator) (mem : Ram) : List Nat :=
  List.iterate (fun loc => mem (a.physMemoryOffset + loc)) a.freeListLoc a.freeListLength

@[simp] theorem freeList_physFrameIter (a : BootInfoFrameAllocator) (mem : Ram)
    (iter : Option (List PhysFrame)) :
    freeList { a with physFrameIter := iter } mem = freeList a mem := rfl

@[simp] theorem length_freeList (a : BootInfoFrameAllocator) (mem : Ram) :
    (freeList a mem).length = a.freeListLength :=
  List.length_iterate _ _ _

/-- A write to no link of the free list leaves it as it is. -/
theorem freeList_update {a : BootInfoFrameAllocator} {mem : Ram} {addr v : Nat}
    (h : ∀ f ∈ freeList a mem, a.physMemoryOffset + f ≠ addr) :
    freeList a (Function.update mem addr v) = freeList a mem :=
  iterate_congr fun f hf => Function.update_of_ne (h f hf) v mem

/-- What one call of `allocate_frame` can do: pop the free list, take the
iterator's next frame, or find the iterator exhausted. -/
theorem allocateFrame_eq_ok {a a' : BootInfoFrameAllocator} {mem : Ram}
    {r : Option PhysFrame} (h : allocateFrame a mem = .ok (r, a')) :
    (r = some (PhysFrame.containingAddress a.freeListLoc) ∧ a'.physFrameIter = a.physFrameIter ∧
      freeList a mem = a.freeListLoc :: freeList a' mem) ∨
    (a.freeListLength = 0 ∧ ∃ iter, a.physFrameIter = some iter ∧
      ((iter = [] ∧ r = none ∧ a' = a) ∨
        ∃ frame rest, iter = frame :: rest ∧ r = some frame ∧
          a' = { a with physFrameIter := some rest })) := by
  unfold allocateFrame at h
  split at h
  · case isTrue hpos =>
      simp only [pure_eq_ok, Except.ok.injEq, Prod.mk.injEq] at h
      obtain ⟨rfl, rfl⟩ := h
      refine .inl ⟨rfl, rfl, ?_⟩
      obtain ⟨n, hn⟩ : ∃ n, a.freeListLength = n + 1 := ⟨_, (Nat.succ_pred_eq_of_pos hpos).symm⟩
      simp only [freeList, hn, Nat.add_sub_cancel]
      rfl
  · case isFalse hzero =>
      obtain ⟨iter, hiter, h⟩ := bind_eq_ok.mp h
      rw [expect_eq_ok] at hiter
      refine .inr ⟨by omega, iter, hiter, ?_⟩
      cases iter with
      | nil =>
          simp only [pure_eq_ok, Except.ok.injEq, Prod.mk.injEq] at h
          exact .inl ⟨rfl, h.1.symm, h.2.symm⟩
      | cons frame rest =>
          simp only [pure_eq_ok, Except.ok.injEq, Prod.mk.injEq] at h
          exact .inr ⟨frame, rest, rfl, h.1.symm, h.2.symm⟩

/-- `deallocate_frame` pushes the frame onto the free list, provided the
frame is not on it already (its link would be overwritten). -/
theorem freeList_deallocateFrame {a : BootInfoFrameAllocator} {mem : Ram} {frame : PhysFrame}
    (h : frame.startAddress ∉ freeList a mem) :
    freeList (deallocateFrame a mem frame).1 (deallocateFrame a mem frame).2 =
      frame.startAddress :: freeList a mem := by
  have hrest : freeList a (Function.update mem (a.physMemoryOffset + frame.startAddress)
      a.freeListLoc) = freeList a mem :=
    freeList_update fun f hf heq => h (by rw [Nat.add_left_cancel heq] at hf; exact hf)
  simp only [deallocateFrame, freeList] at hrest ⊢
  rw [List.iterate, Function.update_self, hrest]

end BootInfoFrameAllocator

open BootInfoFrameAllocator

/-! ## The usable frames -/

theorem mem_stepBy {start stop x : Nat} :
    x ∈ stepBy start stop 4096 ↔ ∃ i, i < (stop - start + 4095) / 4096 ∧ x = start + 4096 * i := by
  simp [stepBy, List.mem_range']

/-- The frames of a usable region start inside it and, as the region is
made of whole frames, end inside it. -/
theorem bounds_of_mem_stepBy {r : FrameRange} {x : Nat}
    (hx : x ∈ stepBy r.startAddr r.endAddr 4096) :
    r.startAddr ≤ x ∧ x + 4096 ≤ r.endAddr ∧ x % 4096 = 0 := by
  obtain ⟨i, hi, rfl⟩ := mem_stepBy.mp hx
  simp only [FrameRange.startAddr, FrameRange.endAddr] at hi ⊢
  omega

theorem usableFrames_startAddress (memoryMap : MemoryMap) :
    (usableFrames memoryMap).map PhysFrame.startAddress =
      (memoryMap.filter fun r => r.regionType == .usable).flatMap
        fun r => stepBy r.range.startAddr r.range.endAddr 4096 := by
  have halign : ∀ x ∈ (memoryMap.filter fun r => r.regionType == .usable).flatMap
      (fun r => stepBy r.range.startAddr r.range.endAddr 4096),
      (PhysFrame.containingAddress x).startAddress = x := by
    intro x hx
    obtain ⟨r, -, hr⟩ := List.mem_flatMap.mp hx
    have hx0 := (bounds_of_mem_stepBy hr).2.2
    simp [PhysFrame.containingAddress, hx0]
  simp only [usableFrames, List.map_map, List.flatMap_map]
  exact (List.map_congr_left halign).trans (List.map_id _)

/-- A single usable region from frame `lo` to frame `hi` gives `hi - lo`
frames. -/
theorem length_usableFrames_region (lo hi : Nat) :
    (usableFrames [⟨⟨lo, hi⟩, .usable⟩]).length = hi - lo := by
  simp [usableFrames, stepBy, FrameRange.startAddr, FrameRange.endAddr]
  omega

/-- Two frame ranges share no address. -/
def FrameRange.Disjoint (r r' : FrameRange) : Prop :=
  ∀ addr, ¬ (r.startAddr ≤ addr ∧ addr < r.endAddr ∧ r'.startAddr ≤ addr ∧ addr < r'.endAddr)

/-- The bootloader's promise: the usable regions of the memory map are
pairwise disjoint.  They are made of whole frames by construction, as a
`FrameRange` counts frames. -/
def RegionsOk (memoryMap : MemoryMap) : Prop :=
  (memoryMap.filter fun r => r.regionType == .usable).Pairwise
    fun r r' => r.range.Disjoint r'.range

theorem nodup_usableFrames {memoryMap : MemoryMap} (h : RegionsOk memoryMap) :
    ((usableFrames memoryMap).map PhysFrame.startAddress).Nodup := by
  rw [usableFrames_startAddress, List.nodup_flatMap]
  refine ⟨fun r _ => List.nodup_range' 4096, h.imp fun {r r'} hd => ?_⟩
  intro x hx hx'
  have hb := bounds_of_mem_stepBy hx
  have hb' := bounds_of_mem_stepBy hx'
  exact hd x ⟨hb.1, by omega, hb'.1, by omega⟩

theorem usable_of_mem_usableFrames {memoryMap : MemoryMap} {f : Nat}
    (hf : f ∈ (usableFrames memoryMap).map PhysFrame.startAddress) :
    ∃ r ∈ memoryMap, r.regionType = .usable ∧
      r.range.startAddr ≤ f ∧ f + 4096 ≤ r.range.endAddr := by
  rw [usableFrames_startAddress] at hf
  obtain ⟨r, hr, hfr⟩ := List.mem_flatMap.mp hf
  obtain ⟨hrm, hru⟩ := List.mem_filter.mp hr
  have hb := bounds_of_mem_stepBy hfr
  exact ⟨r, hrm, by simpa using hru, hb.1, hb.2.1⟩

theorem aligned_of_mem_usableFrames {memoryMap : MemoryMap} {f : Nat}
    (hf : f ∈ (usableFrames memoryMap).map PhysFrame.startAddress) : f % 4096 = 0 := by
  obtain ⟨frame, -, rfl⟩ := List.mem_map.mp hf
  exact frame.aligned

/-! ## Runs and their invariant -/

/-- The runs after `init`, with the frames currently handed out.  Other code
may write anywhere but into a frame on the free list. -/
inductive FrameRun (memoryMap : MemoryMap) (offset : Nat) :
    BootInfoFrameAllocator → Ram → List Nat → Prop
  | init (mem : Ram) : FrameRun memoryMap offset (new.init memoryMap offset) mem []
  | allocate {a a' : BootInfoFrameAllocator} {mem : Ram} {allocated : List Nat}
      {r : Option PhysFrame} :
      FrameRun memoryMap offset a mem allocated → allocateFrame a mem = .ok (r, a') →
      FrameRun memoryMap offset a' mem ((r.map PhysFrame.startAddress).toList ++ allocated)
  | deallocate {a : BootInfoFrameAllocator} {mem : Ram} {allocated : List Nat}
      {frame : PhysFrame} :
      FrameRun memoryMap offset a mem allocated → frame.startAddress ∈ allocated →
      FrameRun memoryMap offset (deallocateFrame a mem frame).1 (deallocateFrame a mem frame).2
        (allocated.erase frame.startAddress)
  | write {a : BootInfoFrameAllocator} {mem : Ram} {allocated : List Nat} {addr v : Nat} :
      FrameRun memoryMap offset a mem allocated →
      (∀ f ∈ freeList a mem,
        ¬ (a.physMemoryOffset + f ≤ addr ∧ addr < a.physMemoryOffset + f + 4096)) →
      FrameRun memoryMap offset a (Function.update mem addr v) allocated

/-- Every frame the allocator accounts for: on the free list, still to come
from the iterator, or handed out. -/
def knownFrames (a : BootInfoFrameAllocator) (mem : Ram) (allocated : List Nat) : List Nat :=
  freeList a mem ++ (a.physFrameIter.getD []).map PhysFrame.startAddress ++ allocated

structure FrameInv (memoryMap : MemoryMap) (a : BootInfoFrameAllocator) (mem : Ram)
    (allocated : List Nat) : Prop where
  started : a.physFrameIter.isSome
  nodup : (knownFrames a mem allocated).Nodup
  usable : ∀ f ∈ knownFrames a mem allocated,
    f ∈ (usableFrames memoryMap).map PhysFrame.startAddress

section Steps

variable {memoryMap : MemoryMap} {a a' : BootInfoFrameAllocator} {mem mem' : Ram}
  {allocated allocated' : List Nat}

theorem FrameInv.of_perm (h : FrameInv memoryMap a mem allocated)
    (hs : a'.physFrameIter.isSome)
    (hp : (knownFrames a' mem' allocated').Perm (knownFrames a mem allocated)) :
    FrameInv memoryMap a' mem' allocated' :=
  ⟨hs, hp.nodup_iff.mpr h.nodup, fun f hf => h.usable f (hp.mem_iff.mp hf)⟩

theorem FrameInv.disjoint (h : FrameInv memoryMap a mem allocated) {f : Nat}
    (hf : f ∈ freeList a mem) : f ∉ allocated := by
  have hnd := h.nodup
  simp only [knownFrames, List.nodup_append] at hnd
  exact fun hal => hnd.2.2 f (List.mem_append_left _ hf) f hal rfl

theorem frameInv_init {offset : Nat} (h : RegionsOk memoryMap) (mem : Ram) :
    FrameInv memoryMap (new.init memoryMap offset) mem [] := by
  have hk : knownFrames (new.init memoryMap offset) mem [] =
      (usableFrames memoryMap).map PhysFrame.startAddress := by
    simp [knownFrames, freeList, new, init]
  exact ⟨rfl, hk ▸ nodup_usableFrames h, fun f hf => hk ▸ hf⟩

theorem FrameInv.allocate {r : Option PhysFrame} (h : FrameInv memoryMap a mem allocated)
    (ha : allocateFrame a mem = .ok (r, a')) :
    FrameInv memoryMap a' mem ((r.map PhysFrame.startAddress).toList ++ allocated) := by
  rcases allocateFrame_eq_ok ha with
    ⟨rfl, hiter, hfree⟩ | ⟨hzero, iter, hiter, ⟨rfl, rfl, rfl⟩ | ⟨frame, rest, rfl, rfl, rfl⟩⟩
  · -- the head of the free list is a frame's start, so `containing_address` keeps it
    have hloc : a.freeListLoc ∈ knownFrames a mem allocated := by simp [knownFrames, hfree]
    have hstart : (PhysFrame.containingAddress a.freeListLoc).startAddress = a.freeListLoc := by
      simp [PhysFrame.containingAddress, aligned_of_mem_usableFrames (h.usable _ hloc)]
    refine h.of_perm (hiter ▸ h.started) ?_
    simp only [knownFrames, hfree, hiter, Option.map_some, Option.toList_some, hstart,
      List.cons_append]
    exact List.perm_middle
  · simpa using h
  · have hnil : freeList a mem = [] := List.eq_nil_of_length_eq_zero (by simp [hzero])
    refine h.of_perm rfl ?_
    simp only [knownFrames, freeList_physFrameIter, hnil, hiter, Option.getD_some, List.map_cons,
      List.nil_append, Option.map_some, Option.toList_some, List.cons_append]
    exact List.perm_middle

theorem FrameInv.deallocate {frame : PhysFrame} (h : FrameInv memoryMap a mem allocated)
    (hf : frame.startAddress ∈ allocated) :
    FrameInv memoryMap (deallocateFrame a mem frame).1 (deallocateFrame a mem frame).2
      (allocated.erase frame.startAddress) := by
  have hnot : frame.startAddress ∉ freeList a mem := fun hmem => h.disjoint hmem hf
  refine h.of_perm h.started ?_
  rw [knownFrames, freeList_deallocateFrame hnot]
  set rest := (a.physFrameIter.getD []).map PhysFrame.startAddress
  -- the frame moves from the allocated frames to the front of the free list
  have hmove : (frame.startAddress :: freeList a mem ++ rest ++ allocated.erase frame.startAddress).Perm
      (freeList a mem ++ rest ++ (frame.startAddress :: allocated.erase frame.startAddress)) := by
    simp only [List.cons_append]
    exact List.perm_middle.symm
  exact hmove.trans ((List.perm_cons_erase hf).symm.append_left _)

theorem FrameInv.write {addr v : Nat} (h : FrameInv memoryMap a mem allocated)
    (hw : ∀ f ∈ freeList a mem,
      ¬ (a.physMemoryOffset + f ≤ addr ∧ addr < a.physMemoryOffset + f + 4096)) :
    FrameInv memoryMap a (Function.update mem addr v) allocated := by
  have hsame : freeList a (Function.update mem addr v) = freeList a mem :=
    freeList_update fun f hf heq => hw f hf ⟨by omega, by omega⟩
  exact h.of_perm h.started (by rw [knownFrames, knownFrames, hsame])

end Steps

theorem frameInv_of_run {memoryMap : MemoryMap} {offset : Nat} {a : BootInfoFrameAllocator}
    {mem : Ram} {allocated : List Nat} (hm : RegionsOk memoryMap)
    (hrun : FrameRun memoryMap offset a mem allocated) : FrameInv memoryMap a mem allocated := by
  induction hrun with
  | init mem => exact frameInv_init hm mem
  | allocate _ ha ih => exact ih.allocate ha
  | deallocate _ hf ih => exact ih.deallocate hf
  | write _ hw ih => exact ih.write hw

/-- Every frame `allocate_frame` returns lies in a usable region and is not
handed out already; the free list is `free_list_length` distinct frames, none
of them handed out. -/
theorem frames_never_handed_out_twice {memoryMap : MemoryMap} {offset : Nat}
    {a : BootInfoFrameAllocator} {mem : Ram} {allocated : List Nat}
    (hmap : RegionsOk memoryMap) (hrun : FrameRun memoryMap offset a mem allocated) :
    (∀ frame a', allocateFrame a mem = .ok (some frame, a') →
      frame.startAddress ∉ allocated ∧
      ∃ r ∈ memoryMap, r.regionType = .usable ∧
        r.range.startAddr ≤ frame.startAddress ∧ frame.startAddress + 4096 ≤ r.range.endAddr) ∧
    (freeList a mem).length = a.freeListLength ∧ (freeList a mem).Nodup ∧
    ∀ f ∈ freeList a mem, f ∉ allocated := by
  have hinv := frameInv_of_run hmap hrun
  refine ⟨fun frame a' ha => ?_, length_freeList a mem, ?_, fun f hf => hinv.disjoint hf⟩
  · have hinv' := hinv.allocate ha
    simp only [Option.map_some, Option.toList_some, List.singleton_append] at hinv'
    have hmem : frame.startAddress ∈ knownFrames a' mem (frame.startAddress :: allocated) := by
      simp [knownFrames]
    have hfresh := hinv'.nodup.sublist (List.sublist_append_right _ _)
    exact ⟨(List.nodup_cons.mp hfresh).1, usable_of_mem_usableFrames (hinv'.usable _ hmem)⟩
  · exact hinv.nodup.sublist ((List.sublist_append_left _ _).trans (List.sublist_append_left _ _))

theorem frames_never_handed_out_twice_after_reuse :
    let memoryMap : MemoryMap := [⟨⟨1, 3⟩, .usable⟩, ⟨⟨3, 4⟩, .reserved⟩, ⟨⟨4, 6⟩, .usable⟩]
    -- two frames taken from the iterator, the first of them given back
    let a₂ : BootInfoFrameAllocator :=
      { new.init memoryMap 0 with physFrameIter := some [⟨16384, rfl⟩, ⟨20480, rfl⟩] }
    let a := (deallocateFrame a₂ (fun _ => 0) ⟨4096, rfl⟩).1
    let mem := (deallocateFrame a₂ (fun _ => 0) ⟨4096, rfl⟩).2
    RegionsOk memoryMap ∧ FrameRun memoryMap 0 a mem [8192] ∧
    (∀ frame a', allocateFrame a mem = .ok (some frame, a') →
      frame.startAddress ∉ [8192] ∧
      ∃ r ∈ memoryMap, r.regionType = .usable ∧
        r.range.startAddr ≤ frame.startAddress ∧ frame.startAddress + 4096 ≤ r.range.endAddr) ∧
    (freeList a mem).length = a.freeListLength ∧ (freeList a mem).Nodup ∧
    ∀ f ∈ freeList a mem, f ∉ [8192] := by
  intro memoryMap a₂ a mem
  have hmap : RegionsOk memoryMap := by
    simp [memoryMap, RegionsOk, FrameRange.Disjoint, FrameRange.startAddr, FrameRange.endAddr]
    omega
  have h₁ : allocateFrame (new.init memoryMap 0) (fun _ => 0) =
      .ok (some ⟨4096, rfl⟩, { new.init memoryMap 0 with
        physFrameIter := some [⟨8192, rfl⟩, ⟨16384, rfl⟩, ⟨20480, rfl⟩] }) := rfl
  have h₂ : allocateFrame { new.init memoryMap 0 with
        physFrameIter := some [⟨8192, rfl⟩, ⟨16384, rfl⟩, ⟨20480, rfl⟩] } (fun _ => 0) =
      .ok (some ⟨8192, rfl⟩, a₂) := rfl
  have hrun : FrameRun memoryMap 0 a mem ([8192, 4096].erase 4096) :=
    .deallocate (.allocate (.allocate (.init _) h₁) h₂) (by decide)
  exact ⟨hmap, hrun, frames_never_handed_out_twice hmap hrun⟩

end Memory
end NoIdeaOS
