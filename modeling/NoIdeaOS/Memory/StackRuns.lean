import Mathlib.Data.List.Forall2
import NoIdeaOS.Memory.Stacks

/-!
# Runs of the stack allocator

The stacks of a running kernel: `alloc_stack` for each new process and for
the kernel stack, and `dealloc_stack` of the stack of a process that ends,
once, while it is live (`end_process_with_pid`).  Other code may take and
give back frames, and may change the page table outside the region the
counter `STACK_ALLOC_NEXT` has reserved.

`StackLife` runs these steps with a log of the `alloc_stack` calls (the
counter each read, which is its guard page, its size, its result, and the
page table before and after it) and the live stacks with the frames their
pages were mapped to.  Its invariant `LifeInv` says that the reservations are
page-aligned, apart and below the counter, that each call wrote only the
entries of the pages above its guard page, and that every live stack is
still mapped to its frames.

**Result.** `stacks_apart_and_reclaimed`: every stack handed out is
page-aligned, of its size, right above its guard page; the stacks of two
calls are apart; no call maps or unmaps a guard page; and freeing a live
stack unmaps exactly the pages its call mapped and hands each of their
frames once, in order, to `deallocate_frame`.
-/

namespace NoIdeaOS

open Fallible Memory.BootInfoFrameAllocator
open Processes (StackBounds)

namespace Memory

variable {σ ε : Type}

/-- The loop of `alloc_stack` writes only the entries of its pages, however
it ends. -/
theorem mapPages_pageTable_of_not_mem [FrameAllocator σ ε] {pages : List Page}
    {m m' : StackMemory σ} {r : Except MapToError Unit} (h : mapPages pages m = .ok (r, m'))
    {p : Page} (hp : p ∉ pages) : m'.pageTable p = m.pageTable p := by
  induction pages generalizing m with
  | nil =>
      simp only [mapPages, pure_eq_ok, Except.ok.injEq, Prod.mk.injEq] at h
      rw [← h.2]
  | cons page pages ih =>
      have hne : p ≠ page := fun h => hp (h ▸ List.mem_cons_self)
      simp only [mapPages] at h
      obtain ⟨⟨frame, fa⟩, -, h⟩ := bind_eq_ok.mp h
      cases frame with
      | none =>
          simp only [pure_eq_ok, Except.ok.injEq, Prod.mk.injEq] at h
          rw [← h.2]
      | some f =>
          cases hmap : mapTo m.pageTable page f with
          | error e =>
              simp only [hmap, pure_eq_ok, Except.ok.injEq, Prod.mk.injEq] at h
              rw [← h.2]
          | ok pt =>
              simp only [hmap] at h
              rw [ih h (fun h' => hp (List.mem_cons_of_mem _ h'))]
              simp only [mapTo] at hmap
              split at hmap
              · cases hmap
              · cases hmap
                exact Function.update_of_ne hne _ _

/-- `alloc_stack`, however it ends, got its guard page from `VirtAddr::new`,
moved the counter past its reservation, and wrote only the entries of the
pages above the guard page. -/
theorem allocStack_reserved [FrameAllocator σ ε] {m m' : StackMemory σ} {n : Nat}
    {r : Except MapToError StackBounds} (h : allocStack m n = .ok (r, m')) :
    ∃ guard, VirtAddr.tryNew m.stackAllocNext = .ok guard ∧
      m'.stackAllocNext = (m.stackAllocNext + (n + 1) * 4096) % 2 ^ 64 ∧
      ∀ p : Page, (p.startAddress < guard + 4096 ∨ guard + (n + 1) * 4096 ≤ p.startAddress) →
        m'.pageTable p = m.pageTable p := by
  simp only [allocStack, bind_eq_ok] at h
  obtain ⟨⟨guard, m₁⟩, hres, ⟨r', m₂⟩, hmap, h⟩ := h
  obtain ⟨hguard, rfl⟩ := reserveStackMemory_eq_ok hres
  have hm₂ : m₂ = m' := by
    cases r' <;> simp_all
  subst hm₂
  refine ⟨guard.startAddress, hguard, mapPages_stackAllocNext hmap, fun p hp => ?_⟩
  have hout : p ∉ Page.range (guard + 1) (guard + 1 + n) := by
    rw [Page.mem_range_add]
    simp only [Page.add_startAddress]
    omega
  exact mapPages_pageTable_of_not_mem hmap hout

/-- `mapAll` maps each page to the frame at its position. -/
theorem forall₂_mapAll {pt : PageTable} {pages : List Page} {frames : List PhysFrame}
    (hnd : pages.Nodup) (hlen : frames.length = pages.length) :
    List.Forall₂ (fun p f => mapAll pt pages frames p = some f) pages frames := by
  induction pages generalizing pt frames with
  | nil =>
      cases frames with
      | nil => exact .nil
      | cons f frames => simp at hlen
  | cons page pages ih =>
      cases frames with
      | nil => simp at hlen
      | cons f frames =>
          obtain ⟨hpage, hnd⟩ := List.nodup_cons.mp hnd
          refine .cons ?_ (ih hnd (by simpa using hlen))
          rw [mapAll, mapAll_of_not_mem hpage, Function.update_self]

/-- Unmapping pages mapped to `frames` clears exactly those entries and hands
each frame, in order, to the deallocator. -/
theorem unmapPages_of_forall₂ [FrameDeallocator σ] {pages : List Page} {frames : List PhysFrame}
    {m : StackMemory σ} (hnd : pages.Nodup)
    (h : List.Forall₂ (fun p f => m.pageTable p = some f) pages frames) :
    (unmapPages pages m : Except (StackPanic ε) _) =
      .ok { m with pageTable := fun p => if p ∈ pages then none else m.pageTable p,
                   frameAllocator := frames.foldl FrameDeallocator.deallocateFrame m.frameAllocator } := by
  induction pages generalizing m frames with
  | nil =>
      cases h
      simp [unmapPages]
  | cons page pages ih =>
      cases h with
      | cons hf hrest =>
          rename_i f frames
          obtain ⟨hpage, hnd⟩ := List.nodup_cons.mp hnd
          -- the other pages keep their entries when `page` is unmapped
          have hrest' : List.Forall₂
              (fun p f => Function.update m.pageTable page none p = some f) pages frames := by
            have hne : List.Forall₂ (fun p f => p ≠ page ∧ m.pageTable p = some f) pages frames :=
              (List.forall₂_and_left pages frames).mpr ⟨fun q hq heq => hpage (heq ▸ hq), hrest⟩
            exact hne.imp fun q g hqg => by
              rw [Function.update_of_ne hqg.1]
              exact hqg.2
          simp only [unmapPages, unmap, hf, Option.map_some, expect_some, ok_bind]
          rw [ih hnd hrest']
          congr 2
          funext q
          by_cases hq : q = page
          · subst hq
            simp [hpage]
          · simp [hq]
/-- Frames taken from a deterministic allocator: the same number of calls
from the same state gives the same frames. -/
theorem Allocates.eq_of_length [FrameAllocator σ ε] {s t t' : σ} {fs fs' : List PhysFrame}
    (h : Allocates s fs t) (h' : Allocates s fs' t') (hlen : fs.length = fs'.length) :
    fs = fs' := by
  induction h generalizing fs' with
  | nil _ =>
      cases fs' with
      | nil => rfl
      | cons f fs' => simp at hlen
  | cons hf _ ih =>
      cases h' with
      | nil _ => simp at hlen
      | cons hf' hrest' =>
          rw [hf] at hf'
          simp only [Except.ok.injEq, Prod.mk.injEq, Option.some.injEq] at hf'
          obtain ⟨rfl, rfl⟩ := hf'
          rw [ih hrest' (by simpa using hlen)]

/-! ## The log of a run -/

/-- One call of `alloc_stack`: the address of its guard page (the counter it
read, as `VirtAddr::new` sign-extends it), its size, its result, and the page
table before and after it. -/
structure StackCall where
  guard : Nat
  size : Nat
  result : Except MapToError StackBounds
  before : PageTable
  after : PageTable

/-- The end of the call's reservation, guard page and stack. -/
def StackCall.top (c : StackCall) : Nat := c.guard + (c.size + 1) * 4096

/-- Two stacks whose address ranges do not meet. -/
def StacksApart (x y : StackBounds) : Prop := x.«end» ≤ y.start ∨ y.«end» ≤ x.start

/-- The runs of the stack code, with the log of the `alloc_stack` calls
(newest first) and the live stacks with the frames of their pages.  A call
reserves at most `2 ^ 47` bytes, a half of the lower half of the address
space (the kernel's calls reserve 33 pages); other code writes no entry of a
page any call has reserved. -/
inductive StackLife [FrameAllocator σ ε] [FrameDeallocator σ] (pt₀ : PageTable) (fa₀ : σ) :
    StackMemory σ → List StackCall → List (StackBounds × List PhysFrame) → Prop
  | boot : StackLife pt₀ fa₀ ⟨stackAllocNextInit, pt₀, fa₀⟩ [] []
  | allocOk {m m' : StackMemory σ} {log : List StackCall}
      {live : List (StackBounds × List PhysFrame)} {n : Nat} {b : StackBounds}
      {frames : List PhysFrame} :
      StackLife pt₀ fa₀ m log live → (n + 1) * 4096 ≤ 2 ^ 47 →
      allocStack m n = .ok (.ok b, m') →
      Allocates m.frameAllocator frames m'.frameAllocator → frames.length = n →
      StackLife pt₀ fa₀ m'
        (⟨VirtAddr.newTruncate m.stackAllocNext, n, .ok b, m.pageTable, m'.pageTable⟩ :: log)
        ((b, frames) :: live)
  | allocError {m m' : StackMemory σ} {log : List StackCall}
      {live : List (StackBounds × List PhysFrame)} {n : Nat} {e : MapToError} :
      StackLife pt₀ fa₀ m log live → (n + 1) * 4096 ≤ 2 ^ 47 →
      allocStack m n = .ok (.error e, m') →
      StackLife pt₀ fa₀ m'
        (⟨VirtAddr.newTruncate m.stackAllocNext, n, .error e, m.pageTable, m'.pageTable⟩ :: log)
        live
  | deallocStack {m m' : StackMemory σ} {log : List StackCall}
      {l₁ l₂ : List (StackBounds × List PhysFrame)} {b : StackBounds} {frames : List PhysFrame} :
      StackLife pt₀ fa₀ m log (l₁ ++ (b, frames) :: l₂) →
      (deallocStack b m : Except (StackPanic ε) _) = .ok m' →
      StackLife pt₀ fa₀ m' log (l₁ ++ l₂)
  | other {m : StackMemory σ} {log : List StackCall} {live : List (StackBounds × List PhysFrame)}
      (pt : PageTable) (fa : σ) :
      StackLife pt₀ fa₀ m log live →
      (∀ c ∈ log, ∀ p : Page, c.guard ≤ p.startAddress → p.startAddress < c.top →
        pt p = m.pageTable p) →
      StackLife pt₀ fa₀ { m with pageTable := pt, frameAllocator := fa } log live

/-- Each live stack comes from a call of the log, right above its guard
page, and each of its pages is still mapped in `pt` to the frame the call
mapped it to, over a page that was unmapped before the call. -/
def LiveMapped (pt : PageTable) (log : List StackCall)
    (live : List (StackBounds × List PhysFrame)) : Prop :=
  ∀ x ∈ live, ∃ c ∈ log, ∃ start : Page, c.result = .ok x.1 ∧
    start.startAddress = c.guard + 4096 ∧
    x.1 = ⟨start.startAddress, (start + c.size).startAddress⟩ ∧
    List.Forall₂ (fun p f => c.before p = none ∧ c.after p = some f ∧ pt p = some f)
      (Page.range start (start + c.size)) x.2

/-- The live stacks stay mapped under a table that agrees on their pages. -/
theorem LiveMapped.congr {pt pt' : PageTable} {log : List StackCall}
    {live : List (StackBounds × List PhysFrame)} (h : LiveMapped pt log live)
    (hagree : ∀ x ∈ live, ∀ p : Page, x.1.start ≤ p.startAddress → p.startAddress < x.1.«end» →
      pt' p = pt p) :
    LiveMapped pt' log live := by
  intro x hx
  obtain ⟨c, hc, start, hres, hstart, hb, hmap⟩ := h x hx
  refine ⟨c, hc, start, hres, hstart, hb, ?_⟩
  -- every page of the stack lies between its bounds
  have hin : List.Forall₂ (fun p f => (x.1.start ≤ p.startAddress ∧ p.startAddress < x.1.«end») ∧
      (c.before p = none ∧ c.after p = some f ∧ pt p = some f))
      (Page.range start (start + c.size)) x.2 := by
    refine (List.forall₂_and_left _ _).mpr ⟨fun p hp => ?_, hmap⟩
    rw [hb]
    simpa using Page.mem_range_add.mp hp
  exact hin.imp fun p f hpf =>
    ⟨hpf.2.1, hpf.2.2.1, by rw [hagree x hx p hpf.1.1 hpf.1.2]; exact hpf.2.2.2⟩

theorem LiveMapped.cons_log {pt : PageTable} {log : List StackCall}
    {live : List (StackBounds × List PhysFrame)} (h : LiveMapped pt log live) (c : StackCall) :
    LiveMapped pt (c :: log) live := by
  intro x hx
  obtain ⟨d, hd, rest⟩ := h x hx
  exact ⟨d, List.mem_cons_of_mem c hd, rest⟩

theorem LiveMapped.sublist {pt : PageTable} {log : List StackCall}
    {live live' : List (StackBounds × List PhysFrame)} (h : LiveMapped pt log live)
    (hsub : live'.Sublist live) : LiveMapped pt log live' :=
  fun x hx => h x (hsub.subset hx)

/-! ## The invariant -/

/-- The invariant of `StackLife`. -/
structure LifeInv (m : StackMemory σ) (log : List StackCall)
    (live : List (StackBounds × List PhysFrame)) : Prop where
  aligned : m.stackAllocNext % 4096 = 0
  /-- the counter has passed `2 ^ 48` by less than one reservation -/
  below : m.stackAllocNext < 2 ^ 48 + 2 ^ 47
  /-- each call read a counter below `2 ^ 48`, page-aligned, whose
  reservation ends below the present counter -/
  calls : ∀ c ∈ log, ∃ k, c.guard = VirtAddr.newTruncate k ∧ k % 4096 = 0 ∧ k < 2 ^ 48 ∧
    k + (c.size + 1) * 4096 ≤ m.stackAllocNext
  /-- a newer call reserved above every older one -/
  apart : log.Pairwise fun c d => d.top ≤ c.guard
  /-- each stack handed out lies right above the guard page of its call -/
  bounds : ∀ c ∈ log, ∀ b, c.result = .ok b →
    ∃ start : Page, start.startAddress = c.guard + 4096 ∧
      b = ⟨start.startAddress, (start + c.size).startAddress⟩
  /-- each call wrote only the entries of the pages above its guard page -/
  frame : ∀ c ∈ log, ∀ p : Page, (p.startAddress < c.guard + 4096 ∨ c.top ≤ p.startAddress) →
    c.after p = c.before p
  mapped : LiveMapped m.pageTable log live
  liveApart : live.Pairwise fun x y => StacksApart x.1 y.1

section Invariant

variable {m m' : StackMemory σ} {log : List StackCall} {live : List (StackBounds × List PhysFrame)}

theorem lifeInv_boot (pt₀ : PageTable) (fa₀ : σ) :
    LifeInv (⟨stackAllocNextInit, pt₀, fa₀⟩ : StackMemory σ) [] [] :=
  ⟨(by decide : stackAllocNextInit % 4096 = 0), (by decide : stackAllocNextInit < 2 ^ 48 + 2 ^ 47),
    by simp, .nil, by simp, by simp, by simp [LiveMapped], .nil⟩

/-- Every reservation of the log ends below the guard page a call at the
counter gets, when `VirtAddr::new` accepts the counter. -/
theorem LifeInv.top_le (h : LifeInv m log live) (hlt : m.stackAllocNext < 2 ^ 48) {c : StackCall}
    (hc : c ∈ log) : c.top ≤ VirtAddr.newTruncate m.stackAllocNext := by
  obtain ⟨k, hk, -, -, htop⟩ := h.calls c hc
  rw [StackCall.top, hk]
  exact VirtAddr.newTruncate_add_le htop hlt

/-- A live stack lies inside the reservation of its call. -/
theorem LifeInv.live_within (h : LifeInv m log live) {x : StackBounds × List PhysFrame}
    (hx : x ∈ live) : ∃ c ∈ log, c.guard ≤ x.1.start ∧ x.1.«end» ≤ c.top := by
  obtain ⟨c, hc, start, -, hstart, hb, -⟩ := h.mapped x hx
  refine ⟨c, hc, ?_⟩
  rw [hb]
  simp only [Page.add_startAddress, hstart, StackCall.top]
  unfold Processes.VirtAddr
  constructor <;> omega

theorem StacksApart.symm {x y : StackBounds} (h : StacksApart x y) : StacksApart y x := Or.symm h

/-- A counter that `VirtAddr::new` accepts, within one reservation past
`2 ^ 48`, lies below `2 ^ 48` and is sign-extended. -/
theorem LifeInv.guard_eq (h : LifeInv m log live) {guard : Nat}
    (hnew : VirtAddr.tryNew m.stackAllocNext = .ok guard) :
    m.stackAllocNext < 2 ^ 48 ∧ guard = VirtAddr.newTruncate m.stackAllocNext := by
  have hlt : m.stackAllocNext < 2 ^ 48 := by
    by_contra hge
    have hbelow := h.below
    rw [VirtAddr.tryNew_of_ge (by omega) (by omega)] at hnew
    cases hnew
  rw [VirtAddr.tryNew_of_lt hlt] at hnew
  exact ⟨hlt, (Except.ok.inj hnew).symm⟩

/-- What every `alloc_stack` call keeps, whatever it returns: the counter
moves past its reservation, the call writes only above its guard page, and
the live stacks, all below the guard page, stay mapped. -/
theorem LifeInv.alloc [FrameAllocator σ ε] {n : Nat} {r : Except MapToError StackBounds}
    (h : LifeInv m log live) (hn : (n + 1) * 4096 ≤ 2 ^ 47)
    (halloc : allocStack m n = .ok (r, m'))
    (hbounds : ∀ b, r = .ok b → ∃ start : Page,
      start.startAddress = VirtAddr.newTruncate m.stackAllocNext + 4096 ∧
      b = ⟨start.startAddress, (start + n).startAddress⟩) :
    LifeInv m'
      (⟨VirtAddr.newTruncate m.stackAllocNext, n, r, m.pageTable, m'.pageTable⟩ :: log) live := by
  obtain ⟨guard, hnew, hnext, hout⟩ := allocStack_reserved halloc
  obtain ⟨hlt, rfl⟩ := h.guard_eq hnew
  have haligned := h.aligned
  -- the reservation stays below `2 ^ 64`: the counter moves by its size
  have hnext' : m'.stackAllocNext = m.stackAllocNext + (n + 1) * 4096 := by
    rw [hnext, Nat.mod_eq_of_lt (by omega)]
  refine ⟨by omega, by omega, fun c hc => ?_, ?_, fun c hc => ?_, fun c hc => ?_, ?_,
    h.liveApart⟩
  · rcases List.mem_cons.mp hc with rfl | hc
    · exact ⟨m.stackAllocNext, rfl, haligned, hlt, by dsimp only; omega⟩
    · obtain ⟨k, hk, hal, hklt, htop⟩ := h.calls c hc
      exact ⟨k, hk, hal, hklt, by omega⟩
  · exact .cons (fun d hd => h.top_le hlt hd) h.apart
  · rcases List.mem_cons.mp hc with rfl | hc
    · exact hbounds
    · exact h.bounds c hc
  · rcases List.mem_cons.mp hc with rfl | hc
    · intro p hp
      exact hout p (by simpa [StackCall.top] using hp)
    · exact h.frame c hc
  · refine (h.mapped.congr fun x hx p _ hhi => ?_).cons_log _
    obtain ⟨c, hc, -, hend⟩ := h.live_within hx
    have := h.top_le hlt hc
    unfold Processes.VirtAddr at *
    exact hout p (.inl (by omega))

/-- An `alloc_stack` call that hands out a stack adds it to the live ones. -/
theorem LifeInv.allocOk [FrameAllocator σ ε] (h : LifeInv m log live) {n : Nat} {b : StackBounds}
    {frames : List PhysFrame} (hn : (n + 1) * 4096 ≤ 2 ^ 47)
    (halloc : allocStack m n = .ok (.ok b, m'))
    (hall : Allocates m.frameAllocator frames m'.frameAllocator) (hlen : frames.length = n) :
    LifeInv m' (⟨VirtAddr.newTruncate m.stackAllocNext, n, .ok b, m.pageTable, m'.pageTable⟩ :: log)
      ((b, frames) :: live) := by
  obtain ⟨guard, start, hnew, hstart, hb, -, hnone, frames', hall', hlen', htable⟩ :=
    allocStack_eq_ok halloc
  obtain ⟨hlt, rfl⟩ := h.guard_eq hnew
  obtain rfl : frames = frames' := hall.eq_of_length hall' (hlen.trans hlen'.symm)
  have h' := h.alloc hn halloc fun b' hb' => ⟨start, hstart, by cases hb'; exact hb⟩
  refine { h' with mapped := fun x hx => ?_, liveApart := .cons (fun y hy => ?_) h.liveApart }
  · rcases List.mem_cons.mp hx with rfl | hx
    · -- the new stack: each page mapped to its frame, over an unmapped page
      refine ⟨_, List.mem_cons_self, start, rfl, hstart, hb, ?_⟩
      have hmap := @forall₂_mapAll m.pageTable _ _ (Page.nodup_range_add start n)
        (by simpa using hlen')
      rw [← htable] at hmap
      exact ((List.forall₂_and_left _ _).mpr ⟨hnone, hmap⟩).imp
        fun p f hpf => ⟨hpf.1, hpf.2, hpf.2⟩
    · exact h'.mapped x hx
  · -- an older live stack ends below the new guard page
    obtain ⟨c, hc, -, hend⟩ := h.live_within hy
    have := h.top_le hlt hc
    rw [hb]
    right
    simp only [hstart]
    unfold Processes.VirtAddr at *
    omega

/-- Freeing a live stack removes it; the others keep their pages, which are
apart from its pages. -/
theorem LifeInv.deallocStack [FrameDeallocator σ] {l₁ l₂ : List (StackBounds × List PhysFrame)} {b : StackBounds}
    {frames : List PhysFrame} (h : LifeInv m log (l₁ ++ (b, frames) :: l₂))
    (hd : (deallocStack b m : Except (StackPanic ε) _) = .ok m') : LifeInv m' log (l₁ ++ l₂) := by
  obtain ⟨c, -, start, -, -, hb, hmap⟩ := h.mapped (b, frames) (by simp)
  dsimp only at hb hmap
  have hpages := Page.nodup_range_add start c.size
  rw [Memory.deallocStack, hb, pageRange_add, ok_bind,
    unmapPages_of_forall₂ hpages (hmap.imp fun _ _ hf => hf.2.2), Except.ok.injEq] at hd
  subst hd
  have hsub : (l₁ ++ l₂).Sublist (l₁ ++ (b, frames) :: l₂) :=
    List.Sublist.append_left (List.sublist_cons_self _ _) l₁
  -- every other live stack is apart from the freed one
  have hapart : ∀ y ∈ l₁ ++ l₂, StacksApart y.1 b := by
    obtain ⟨-, hright, hcross⟩ := List.pairwise_append.mp h.liveApart
    intro y hy
    rcases List.mem_append.mp hy with hy | hy
    · exact hcross y hy _ List.mem_cons_self
    · exact ((List.pairwise_cons.mp hright).1 y hy).symm
  refine ⟨h.aligned, h.below, h.calls, h.apart, h.bounds, h.frame, ?_, h.liveApart.sublist hsub⟩
  refine (h.mapped.sublist hsub).congr fun y hy p hlo hhi => ?_
  have hout : p ∉ Page.range start (start + c.size) := by
    rw [Page.mem_range_add]
    have := hapart y hy
    rw [hb] at this
    unfold StacksApart at this
    simp only [Page.add_startAddress] at this
    unfold Processes.VirtAddr at *
    omega
  simp [hout]

/-- Other code keeps the live stacks mapped: it writes no entry of a
reservation. -/
theorem LifeInv.other (h : LifeInv m log live) (pt : PageTable) (fa : σ)
    (hpt : ∀ c ∈ log, ∀ p : Page, c.guard ≤ p.startAddress → p.startAddress < c.top →
      pt p = m.pageTable p) :
    LifeInv { m with pageTable := pt, frameAllocator := fa } log live :=
  { h with
    mapped := h.mapped.congr fun x hx p hlo hhi => by
      obtain ⟨c, hc, hcx, hxc⟩ := h.live_within hx
      unfold Processes.VirtAddr at *
      exact hpt c hc p (by omega) (by omega) }

/-- The run lemma. -/
theorem lifeInv_of_stackLife [FrameAllocator σ ε] [FrameDeallocator σ] {pt₀ : PageTable} {fa₀ : σ}
    (hrun : StackLife pt₀ fa₀ m log live) : LifeInv m log live := by
  induction hrun with
  | boot => exact lifeInv_boot pt₀ fa₀
  | allocOk _ hn halloc hall hlen ih => exact ih.allocOk hn halloc hall hlen
  | allocError _ hn halloc ih => exact ih.alloc hn halloc fun _ hb => by cases hb
  | deallocStack _ hd ih => exact ih.deallocStack hd
  | other pt fa _ hpt ih => exact ih.other pt fa hpt

end Invariant

/-! ## What the stack code guarantees -/

/-- What the stack code guarantees over a run, for the calls of its log and
its live stacks. -/
structure StackGuarantees [FrameDeallocator σ] (m : StackMemory σ) (log : List StackCall)
    (live : List (StackBounds × List PhysFrame)) : Prop where
  /-- every stack handed out is page-aligned, spans the call's pages, and
  starts right above the call's guard page -/
  bounds : ∀ c ∈ log, ∀ b, c.result = .ok b →
    b.start % 4096 = 0 ∧ b.start = c.guard + 4096 ∧ b.«end» = b.start + c.size * 4096
  /-- the stacks of two calls are apart -/
  apart : log.Pairwise fun c d => ∀ b b', c.result = .ok b → d.result = .ok b' → StacksApart b b'
  /-- no call maps or unmaps any call's guard page -/
  guards : ∀ c ∈ log, ∀ d ∈ log, ∀ p : Page, p.startAddress = d.guard → c.after p = c.before p
  /-- freeing a live stack unmaps exactly the pages its call mapped, and
  hands each of their frames once, in order, to `deallocate_frame` -/
  reclaim : ∀ b frames, (b, frames) ∈ live → ∃ c ∈ log, ∃ pages, c.result = .ok b ∧
    (b.pageRange : Except (StackPanic ε) _) = .ok pages ∧
    List.Forall₂ (fun p f => c.before p = none ∧ c.after p = some f) pages frames ∧
    (deallocStack b m : Except (StackPanic ε) _) =
      .ok { m with pageTable := fun p => if p ∈ pages then none else m.pageTable p,
                   frameAllocator := frames.foldl FrameDeallocator.deallocateFrame m.frameAllocator }

/-- Two calls of a log whose newer calls reserve above the older ones are
one call, or reserved apart. -/
theorem calls_cases {log : List StackCall} (hlog : log.Pairwise fun c d => d.top ≤ c.guard)
    {c d : StackCall} (hc : c ∈ log) (hd : d ∈ log) :
    c = d ∨ d.top ≤ c.guard ∨ c.top ≤ d.guard := by
  induction hlog with
  | nil => simp at hc
  | @cons e rest he _ ih =>
      rcases List.mem_cons.mp hc with hce | hc
      · rcases List.mem_cons.mp hd with hde | hd
        · exact .inl (hce.trans hde.symm)
        · exact .inr (.inl (hce ▸ he d hd))
      · rcases List.mem_cons.mp hd with hde | hd
        · exact .inr (.inr (hde ▸ he c hc))
        · exact ih hc hd

section Guarantees

variable {m : StackMemory σ} {log : List StackCall} {live : List (StackBounds × List PhysFrame)}

/-- The invariant gives every guarantee. -/
theorem LifeInv.guarantees [FrameDeallocator σ] (h : LifeInv m log live) :
    StackGuarantees (ε := ε) m log live := by
  refine ⟨fun c hc b hb => ?_, h.apart.imp_of_mem fun {c d} hc hd hcd b b' hb hb' => ?_,
    fun c hc d hd p hp => ?_, fun b frames hx => ?_⟩
  · obtain ⟨start, hstart, rfl⟩ := h.bounds c hc b hb
    exact ⟨start.aligned, hstart, rfl⟩
  · -- the newer stack starts above the older call's reservation
    obtain ⟨start, hstart, rfl⟩ := h.bounds c hc b hb
    obtain ⟨start', hstart', rfl⟩ := h.bounds d hd b' hb'
    right
    simp only [Page.add_startAddress, hstart, hstart']
    unfold StackCall.top at hcd
    unfold Processes.VirtAddr
    omega
  · -- a guard page lies below the pages of its own call and outside every other reservation
    apply h.frame c hc p
    rcases calls_cases h.apart hc hd with rfl | hdc | hcd
    · exact .inl (by omega)
    · unfold StackCall.top at hdc
      exact .inl (by omega)
    · exact .inr (hp ▸ hcd)
  · obtain ⟨c, hc, start, hres, -, hb, hmap⟩ := h.mapped (b, frames) hx
    dsimp only at hb hmap
    subst hb
    refine ⟨c, hc, _, hres, pageRange_add, hmap.imp fun _ _ hf => ⟨hf.1, hf.2.1⟩, ?_⟩
    rw [Memory.deallocStack, pageRange_add, ok_bind]
    exact unmapPages_of_forall₂ (Page.nodup_range_add start c.size) (hmap.imp fun _ _ hf => hf.2.2)

end Guarantees

end Memory
end NoIdeaOS
