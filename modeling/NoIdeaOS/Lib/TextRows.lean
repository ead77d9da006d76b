import Mathlib.Data.List.Basic
import Mathlib.Data.List.Induction

/-!
# Text laid out in rows

A text is a list of items with a separator (a newline) among them; shown on
a screen `w` items wide, each line between separators is cut into rows of
`w` items (`rowsOf`), an empty line giving one empty row, and the rows of
all lines follow one another (`layout`).

A screen writer builds these rows item by item instead: a separator opens a
new empty row, and any other item goes onto the last row, or onto a new one
when that row is full (`layoutStep`, `putOnRows`).  `layout_concat` and
`layout_eq_foldl` say the two agree.  Nothing here is specific to one
program.
-/

namespace TextRows

universe u

variable {α : Type u}

/-- `l` cut into rows of `w` items, the last one possibly shorter; an empty
list gives one empty row.  A width of `0` leaves `l` whole. -/
def rowsOf (w : Nat) (l : List α) : List (List α) :=
  if l.length ≤ w ∨ w = 0 then [l] else l.take w :: rowsOf w (l.drop w)
termination_by l.length
decreasing_by simp only [List.length_drop]; omega

/-- Adding `x` at the end of `rows`: onto the last row, or onto a new one
when the last row already holds `w` items. -/
def putOnRows (w : Nat) : List (List α) → α → List (List α)
  | [], x => [[x]]
  | [row], x => if row.length < w then [row ++ [x]] else [row, [x]]
  | row :: rows, x => row :: putOnRows w rows x

/-- `x` added to the last of `lines`. -/
def appendToLast : List (List α) → α → List (List α)
  | [], x => [[x]]
  | [line], x => [line ++ [x]]
  | line :: lines, x => line :: appendToLast lines x

theorem rowsOf_of_le {w : Nat} {l : List α} (h : l.length ≤ w) : rowsOf w l = [l] := by
  rw [rowsOf, if_pos (.inl h)]

theorem rowsOf_of_lt {w : Nat} {l : List α} (h : w < l.length) (hw : 0 < w) :
    rowsOf w l = l.take w :: rowsOf w (l.drop w) := by
  rw [rowsOf, if_neg (by omega)]

example : rowsOf 3 [1, 2, 3, 4, 5, 6, 7] = [[1, 2, 3], [4, 5, 6], [7]] := by
  simp [rowsOf_of_le, rowsOf_of_lt]

theorem rowsOf_ne_nil (w : Nat) (l : List α) : rowsOf w l ≠ [] := by
  rw [rowsOf]
  split <;> simp

theorem putOnRows_cons {w : Nat} {rows : List (List α)} (h : rows ≠ []) (row : List α) (x : α) :
    putOnRows w (row :: rows) x = row :: putOnRows w rows x := by
  cases rows with
  | nil => contradiction
  | cons r rs => rfl

theorem putOnRows_append {w : Nat} (A : List (List α)) {B : List (List α)} (h : B ≠ []) (x : α) :
    putOnRows w (A ++ B) x = A ++ putOnRows w B x := by
  induction A with
  | nil => rfl
  | cons row A ih =>
      rw [List.cons_append, putOnRows_cons (by simp [h]), ih, List.cons_append]

theorem putOnRows_concat (w : Nat) (P : List (List α)) (cur : List α) (x : α) :
    putOnRows w (P ++ [cur]) x = if cur.length < w then P ++ [cur ++ [x]] else P ++ [cur, [x]] := by
  rw [putOnRows_append P (List.cons_ne_nil cur []), putOnRows]
  split <;> rfl

/-- Cutting `l ++ [x]` into rows is cutting `l`, then adding `x`. -/
theorem rowsOf_concat {w : Nat} (hw : 0 < w) (l : List α) (x : α) :
    rowsOf w (l ++ [x]) = putOnRows w (rowsOf w l) x := by
  induction l using rowsOf.induct w with
  | case1 l hl =>
      have hlw : l.length ≤ w := hl.resolve_right (by omega)
      rw [rowsOf_of_le hlw, putOnRows]
      by_cases hlt : l.length < w
      · rw [if_pos hlt, rowsOf_of_le (by simp; omega)]
      · -- a full row: `x` opens the next one
        have hlen : w < (l ++ [x]).length := by simp; omega
        have hwl : w ≤ l.length := by omega
        rw [if_neg hlt, rowsOf_of_lt hlen hw, List.take_append_of_le_length hwl,
          List.drop_append_of_le_length hwl, List.take_of_length_le hlw,
          List.drop_of_length_le hlw, List.nil_append, rowsOf_of_le (by simp; omega)]
  | case2 l hl ih =>
      have hlw : w < l.length := by omega
      rw [rowsOf_of_lt (by simp; omega) hw, List.take_append_of_le_length (Nat.le_of_lt hlw),
        List.drop_append_of_le_length (Nat.le_of_lt hlw), ih, rowsOf_of_lt hlw hw,
        putOnRows_cons (rowsOf_ne_nil w _)]

theorem appendToLast_cons {lines : List (List α)} (h : lines ≠ []) (line : List α) (x : α) :
    appendToLast (line :: lines) x = line :: appendToLast lines x := by
  cases lines with
  | nil => contradiction
  | cons l ls => rfl

theorem appendToLast_concat (P : List (List α)) (cur : List α) (x : α) :
    appendToLast (P ++ [cur]) x = P ++ [cur ++ [x]] := by
  induction P with
  | nil => rfl
  | cons line P ih => rw [List.cons_append, appendToLast_cons (by simp), ih, List.cons_append]

/-- Adding an item in front of the first line commutes with adding one at
the end of the last. -/
theorem modifyHead_appendToLast {lines : List (List α)} (h : lines ≠ []) (y x : α) :
    (appendToLast lines x).modifyHead (List.cons y) =
      appendToLast (lines.modifyHead (List.cons y)) x := by
  obtain ⟨P, cur, rfl⟩ : ∃ P cur, lines = P ++ [cur] :=
    ⟨_, _, (List.dropLast_append_getLast h).symm⟩
  rw [appendToLast_concat]
  cases P with
  | nil => rfl
  | cons line P =>
      simp only [List.cons_append, List.modifyHead_cons]
      exact (appendToLast_concat ((y :: line) :: P) cur x).symm

section Split

variable [DecidableEq α] {sep : α}

/-- A separator at the end closes the last line and opens an empty one. -/
theorem splitOn_concat_sep (l : List α) : (l ++ [sep]).splitOn sep = l.splitOn sep ++ [[]] := by
  induction l with
  | nil => simp [List.splitOn_cons_eq_if_modifyHead]
  | cons y l ih =>
      rw [List.cons_append, List.splitOn_cons_eq_if_modifyHead, List.splitOn_cons_eq_if_modifyHead, ih]
      split
      · rfl
      · obtain ⟨P, cur, hP⟩ : ∃ P cur, l.splitOn sep = P ++ [cur] :=
          ⟨_, _, (List.dropLast_append_getLast (List.splitOn_ne_nil sep l)).symm⟩
        rw [hP]
        cases P <;> rfl

/-- Any other item at the end goes onto the last line. -/
theorem splitOn_concat_of_ne {x : α} (hx : x ≠ sep) (l : List α) :
    (l ++ [x]).splitOn sep = appendToLast (l.splitOn sep) x := by
  induction l with
  | nil => simp [List.splitOn_cons_eq_if_modifyHead, hx]; rfl
  | cons y l ih =>
      rw [List.cons_append, List.splitOn_cons_eq_if_modifyHead, List.splitOn_cons_eq_if_modifyHead, ih]
      split
      · rw [appendToLast_cons (List.splitOn_ne_nil sep l)]
      · rw [modifyHead_appendToLast (List.splitOn_ne_nil sep l)]

/-- The rows of `l`: split at `sep`, each line cut into rows of `w`. -/
def layout (sep : α) (w : Nat) (l : List α) : List (List α) :=
  (l.splitOn sep).flatMap (rowsOf w)

/-- Laying out `x` after `rows`: a separator opens a new empty row, any other
item is added by `putOnRows`. -/
def layoutStep (sep : α) (w : Nat) (rows : List (List α)) (x : α) : List (List α) :=
  if x = sep then rows ++ [[]] else putOnRows w rows x

theorem layout_concat {w : Nat} (hw : 0 < w) (l : List α) (x : α) :
    layout sep w (l ++ [x]) = layoutStep sep w (layout sep w l) x := by
  unfold layout layoutStep
  split
  · rename_i hx
    subst hx
    rw [splitOn_concat_sep, List.flatMap_append, List.flatMap_singleton, rowsOf_of_le (by simp)]
  · rename_i hx
    obtain ⟨P, cur, hP⟩ : ∃ P cur, l.splitOn sep = P ++ [cur] :=
      ⟨_, _, (List.dropLast_append_getLast (List.splitOn_ne_nil sep l)).symm⟩
    rw [splitOn_concat_of_ne hx, hP, appendToLast_concat, List.flatMap_append, List.flatMap_append,
      List.flatMap_singleton, List.flatMap_singleton, rowsOf_concat hw,
      putOnRows_append _ (rowsOf_ne_nil w cur)]

/-- The layout is built item by item, from one empty row. -/
theorem layout_eq_foldl {w : Nat} (hw : 0 < w) (l : List α) :
    layout sep w l = l.foldl (layoutStep sep w) [[]] := by
  induction l using List.reverseRecOn with
  | nil => simp [layout, rowsOf_of_le]
  | append_singleton l x ih => rw [layout_concat hw, ih, List.foldl_concat]

example : layout 0 2 [1, 2, 3, 0, 0, 4] = [[1, 2], [3], [], [4]] := by
  simp [layout, List.splitOn_cons_eq_if_modifyHead, rowsOf_of_le, rowsOf_of_lt]

end Split

end TextRows
