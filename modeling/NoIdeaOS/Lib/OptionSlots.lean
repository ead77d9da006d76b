import Mathlib.Data.List.Perm.Subperm

/-!
# Tables of optional slots

A table `l : List (Option α)` holds its occupants in some of its slots;
`l.filterMap id` lists them in slot order.  Writing one slot swaps its old
occupant for the new one and leaves the others (`filterMap_set_perm`), and
padding the table with empty slots adds none (`filterMap_append_replicate_none`).

The occupants are often resources handed out by some other component, which
keeps its own list `m` of what it handed out.  That every occupant is one of
them, counted with multiplicity, is `l.filterMap id <+~ m`.  It survives
emptying a slot whose occupant the component takes back (`subperm_set_none`)
and filling an empty slot with a resource it just handed out
(`subperm_set_some`).  Nothing here is specific to one program.
-/

namespace OptionSlots

open List

universe u

variable {α : Type u}

/-- Writing slot `i` replaces its occupant, if any, by the new one. -/
theorem filterMap_set_perm {l : List (Option α)} {i : Nat} {x : Option α} (h : l[i]? = some x)
    (y : Option α) : (l.set i y).filterMap id ++ x.toList ~ l.filterMap id ++ y.toList := by
  obtain ⟨hi, rfl⟩ := List.getElem?_eq_some_iff.mp h
  have hl : l = l.take i ++ l[i] :: l.drop (i + 1) := by simp
  rw [List.set_eq_take_append_cons_drop, if_pos hi]
  conv => rhs; rw [hl]
  -- both sides keep the slots before and after `i`; what differs is the slot itself
  cases l[i] with
  | none =>
      cases y with
      | none => simp
      | some b => simpa using ((List.perm_append_singleton b _).symm).append_left _
  | some a =>
      cases y with
      | none => simpa using (List.perm_append_singleton a _).append_left _
      | some b =>
          simpa using (((List.perm_append_singleton a _).cons b).trans ((List.Perm.swap a b _).trans
            ((List.perm_append_singleton b _).symm.cons a))).append_left _

@[simp] theorem filterMap_append_replicate_none (l : List (Option α)) (n : Nat) :
    (l ++ List.replicate n none).filterMap id = l.filterMap id := by
  simp [List.filterMap_append]

/-- Emptying the slot of a resource that is taken back from `m₁ ++ a :: m₂`. -/
theorem subperm_set_none {l : List (Option α)} {m₁ m₂ : List α} {a : α} {i : Nat}
    (h : l.filterMap id <+~ m₁ ++ a :: m₂) (hi : l[i]? = some (some a)) :
    (l.set i none).filterMap id <+~ m₁ ++ m₂ := by
  have hp := filterMap_set_perm hi none
  simp only [Option.toList_some, Option.toList_none, List.append_nil] at hp
  rw [← List.subperm_append_right [a]]
  exact hp.subperm.trans (h.trans (List.perm_middle.trans (List.perm_append_singleton _ _).symm).subperm)

/-- Filling an empty slot with a resource that was just handed out. -/
theorem subperm_set_some {l : List (Option α)} {m : List α} {a : α} {i : Nat}
    (h : l.filterMap id <+~ m) (hi : l[i]? = some none) :
    (l.set i (some a)).filterMap id <+~ a :: m := by
  have hp := filterMap_set_perm hi (some a)
  simp only [Option.toList_some, Option.toList_none, List.append_nil] at hp
  exact hp.subperm.trans (((List.subperm_append_right [a]).mpr h).trans
    (List.perm_append_singleton _ _).subperm)

end OptionSlots
