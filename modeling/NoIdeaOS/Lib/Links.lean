import Mathlib.Data.List.Iterate
import Mathlib.Data.List.Perm.Basic
import Mathlib.Logic.Function.Basic

/-!
# Lists threaded through memory

An intrusive singly linked list keeps its links in its nodes: `next a` is the
link stored at node `a`.  Two shapes of such a list are used.

* A list ended by a null link.  `Chain next o l` says that following the
  links from `o` visits exactly the nodes `l` and then finds `none`.  Such a
  list is determined by where it starts (`Chain.unique`) and so never visits
  a node twice (`Chain.nodup`).
* A list whose length is kept beside it: following `n` links from `a` visits
  `List.iterate next a n`.

Both are left as they are by a write to a cell that is not on them
(`Chain.update_of_not_mem`, `iterate_congr`).  The last lemma,
`flatMap_update_perm`, is the bookkeeping for a family of such lists indexed
by a list of heads when one of them is replaced.  Nothing here is specific to
one program.
-/

namespace Links

universe u v

variable {α : Type u}

/-- Following the links from `o` visits the nodes `l`, then a null link. -/
inductive Chain (next : α → Option α) : Option α → List α → Prop
  | nil : Chain next none []
  | cons {a : α} {l : List α} : Chain next (next a) l → Chain next (some a) (a :: l)

namespace Chain

variable {next next' : α → Option α}

@[simp] theorem none_iff {l : List α} : Chain next none l ↔ l = [] := by
  constructor
  · rintro ⟨⟩
    rfl
  · rintro rfl
    exact .nil

theorem some_iff {a : α} {l : List α} :
    Chain next (some a) l ↔ ∃ t, l = a :: t ∧ Chain next (next a) t := by
  constructor
  · rintro ⟨⟩
    exact ⟨_, rfl, ‹_›⟩
  · rintro ⟨t, rfl, h⟩
    exact .cons h

/-- A chain through a non-empty list starts at its first node. -/
theorem eq_some_of_cons {o : Option α} {a : α} {l : List α} (h : Chain next o (a :: l)) :
    o = some a := by
  cases h
  rfl

theorem unique {o : Option α} {l l' : List α} (h : Chain next o l) (h' : Chain next o l') :
    l = l' := by
  induction h generalizing l' with
  | nil => exact (none_iff.mp h').symm
  | cons _ ih =>
      obtain ⟨t, rfl, ht⟩ := some_iff.mp h'
      rw [ih ht]

/-- The part of a chain after one of its nodes is the chain from that node. -/
theorem suffix {o : Option α} {l₁ l₂ : List α} {b : α} (h : Chain next o (l₁ ++ b :: l₂)) :
    Chain next (some b) (b :: l₂) := by
  induction l₁ generalizing o with
  | nil =>
      cases h with
      | cons hc => exact .cons hc
  | cons a l₁ ih =>
      cases h with
      | cons hc => exact ih hc

/-- A node seen twice would make the chain from it two lists of different
lengths. -/
theorem nodup {o : Option α} {l : List α} (h : Chain next o l) : l.Nodup := by
  induction h with
  | nil => exact .nil
  | @cons a l hl ih =>
      refine List.nodup_cons.mpr ⟨fun hmem => ?_, ih⟩
      obtain ⟨l₁, l₂, rfl⟩ := List.append_of_mem hmem
      have hsame := unique (.cons hl) (suffix hl)
      have hlen := congrArg List.length hsame
      simp only [List.length_cons, List.length_append] at hlen
      omega

theorem congr {o : Option α} {l : List α} (h : Chain next o l)
    (hl : ∀ x ∈ l, next' x = next x) : Chain next' o l := by
  induction h with
  | nil => exact .nil
  | @cons a l _ ih =>
      have ha := hl a List.mem_cons_self
      refine .cons ?_
      rw [ha]
      exact ih fun x hx => hl x (List.mem_cons_of_mem a hx)

theorem update_of_not_mem [DecidableEq α] {o : Option α} {l : List α} {x : α}
    {v : Option α} (h : Chain next o l) (hx : x ∉ l) :
    Chain (Function.update next x v) o l :=
  h.congr fun y hy => by
    rw [Function.update_of_ne]
    rintro rfl
    exact hx hy

end Chain

/-- Following `n` links only reads the links of the nodes visited. -/
theorem iterate_congr {f g : α → α} {a : α} {n : Nat}
    (h : ∀ x ∈ List.iterate f a n, g x = f x) : List.iterate g a n = List.iterate f a n := by
  induction n generalizing a with
  | zero => rfl
  | succ n ih =>
      have ha : g a = f a := h a List.mem_cons_self
      show a :: List.iterate g (g a) n = a :: List.iterate f (f a) n
      rw [ha, ih fun x hx => h x (List.mem_cons_of_mem a hx)]

/-- Replacing the list of one index `k` in a family of lists: what is
collected afterwards, with the old list of `k`, is what was collected
before, with the new one. -/
theorem flatMap_update_perm {ι : Type u} {β : Type v} [DecidableEq ι] {xs : List ι}
    (hxs : xs.Nodup) {k : ι} (hk : k ∈ xs) (F : ι → List β) (w : List β) :
    (xs.flatMap (Function.update F k w) ++ F k).Perm (xs.flatMap F ++ w) := by
  induction xs with
  | nil => simp at hk
  | cons j xs ih =>
      obtain ⟨hj, hxs⟩ := List.nodup_cons.mp hxs
      by_cases hkj : k = j
      · subst hkj
        have hrest : xs.flatMap (Function.update F k w) = xs.flatMap F :=
          List.flatMap_congr fun x hx => by
            rw [Function.update_of_ne]
            rintro rfl
            exact hj hx
        simp only [List.flatMap_cons, Function.update_self, hrest, List.append_assoc]
        have h₁ : (w ++ (xs.flatMap F ++ F k)).Perm ((xs.flatMap F ++ F k) ++ w) :=
          List.perm_append_comm
        have h₂ : ((xs.flatMap F ++ F k) ++ w).Perm ((F k ++ xs.flatMap F) ++ w) :=
          List.perm_append_comm.append_right w
        simpa only [List.append_assoc] using h₁.trans h₂
      · have hk' : k ∈ xs := (List.mem_cons.mp hk).resolve_left hkj
        simp only [List.flatMap_cons, Function.update_of_ne (Ne.symm hkj) w F, List.append_assoc]
        exact (ih hxs hk').append_left (F j)

end Links
