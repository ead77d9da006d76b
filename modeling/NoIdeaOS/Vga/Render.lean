import Mathlib.Tactic.SplitIfs
import NoIdeaOS.Lib.TextRows
import NoIdeaOS.Vga.Writer

/-!
# What the screen shows

`clear_screen` followed by `write_string(s)` shows the tail of the text of
`s`.  The text is laid out as `TextRows` lays out a list: every byte outside
printable ASCII other than `'\n'` becomes ■ (`0xfe`), the bytes are split at
`'\n'`, and each line is cut into rows of 80 (`textRows`).  The screen shows
the last 25 of those rows from row 0 down, blank-padded, and blank rows below
them (`renderedChar`).

The writer keeps the rows laid out so far (`Shows`): its cursor stands at
the end of the last row, on the screen row of that row, and screen row `r`
holds row `r + (#rows - 25)`.  `new_line` and `write_byte` keep this as
`layoutStep` adds a byte, scrolling included (`newLine_shows`,
`writeByte_shows`); so does every run of the loop of `write_string`
(`writeBytes_shows`).  Lazy wrapping is `putOnRows`: a full row gets a new
one only when the next byte that is not a newline comes.  Over runs of
`print!` and `eprint!` after a `clear_screen` (`PrintedSince`), the screen
shows the rendering of all their text, one text after another.
-/

namespace NoIdeaOS
namespace Vga

open Fallible

/-- The byte `write_string` writes for `byte`: itself when it is printable
ASCII or a newline, ■ (`0xfe`) otherwise. -/
def shownByte (byte : UInt8) : UInt8 :=
  if (0x20 ≤ byte ∧ byte ≤ 0x7e) ∨ byte = 0x0a then byte else 0xfe

/-- The rows of the text of `bytes`: the bytes as `write_string` shows them,
split at `'\n'`, each line cut into rows of 80 (an empty line giving one
empty row). -/
def textRows (bytes : List UInt8) : List (List UInt8) :=
  TextRows.layout 0x0a bufferWidth (bytes.map shownByte)

/-- Character `c` of row `i` of `rows`, a blank past the end of the row and
below the last one. -/
def cellAt (rows : List (List UInt8)) (i c : Nat) : UInt8 :=
  ((rows[i]?).bind fun row => row[c]?).getD 0x20

/-- The rendering of `bytes` at screen row `r`, column `c`: the last
`min(#rows, 25)` rows of the text from row 0 down, each blank-padded, and
blank below them. -/
def renderedChar (bytes : List UInt8) (r c : Nat) : UInt8 :=
  cellAt ((textRows bytes).drop ((textRows bytes).length - min (textRows bytes).length bufferHeight))
    r c

theorem cellAt_of_le {rows : List (List UInt8)} {i : Nat} (h : rows.length ≤ i) (c : Nat) :
    cellAt rows i c = 0x20 := by
  simp [cellAt, List.getElem?_eq_none h]

/-- An empty last row shows as blanks. -/
@[simp] theorem cellAt_append_nil (rows : List (List UInt8)) (i c : Nat) :
    cellAt (rows ++ [[]]) i c = cellAt rows i c := by
  by_cases hi : i < rows.length
  · simp [cellAt, List.getElem?_append_left hi]
  · rw [cellAt_of_le (show rows.length ≤ i by omega) c]
    by_cases hlast : i = rows.length
    · subst hlast
      rw [cellAt, List.getElem?_append_right (Nat.le_refl _), Nat.sub_self]
      simp
    · exact cellAt_of_le (by simp; omega) c

/-- A byte added to the last row shows at its end. -/
theorem cellAt_concat (P : List (List UInt8)) (cur : List UInt8) (y : UInt8) (i c : Nat) :
    cellAt (P ++ [cur ++ [y]]) i c =
      if i = P.length ∧ c = cur.length then y else cellAt (P ++ [cur]) i c := by
  by_cases hi : i < P.length
  · simp [cellAt, List.getElem?_append_left hi, show i ≠ P.length by omega]
  · by_cases hlast : i = P.length
    · subst hlast
      rw [cellAt, cellAt, List.getElem?_append_right (Nat.le_refl _),
        List.getElem?_append_right (Nat.le_refl _), Nat.sub_self]
      simp only [List.getElem?_singleton, true_and, if_true, Option.bind_some]
      by_cases hc : c < cur.length
      · rw [List.getElem?_append_left hc, if_neg (by omega)]
      · rw [List.getElem?_append_right (by omega), List.getElem?_eq_none (by omega : cur.length ≤ c)]
        by_cases hce : c = cur.length
        · subst hce
          simp
        · rw [List.getElem?_eq_none (by simp; omega), if_neg hce]
    · rw [cellAt_of_le (by simp; omega), cellAt_of_le (by simp; omega), if_neg (by omega)]

/-- The rendering at `(r, c)` is row `r + (#rows - 25)` of the text. -/
theorem renderedChar_eq (bytes : List UInt8) (r c : Nat) :
    renderedChar bytes r c = cellAt (textRows bytes) (r + ((textRows bytes).length - bufferHeight)) c := by
  unfold renderedChar cellAt
  rw [List.getElem?_drop]
  congr 3
  omega

namespace Buffer

variable {b : Buffer} {row col : Nat}

/-- A write on the screen, cell by cell. -/
theorem write_eq_ok_ite (hr : row < bufferHeight) (hc : col < bufferWidth) (ch : ScreenChar) :
    b.write row col ch = .ok fun r c => if r.1 = row ∧ c.1 = col then ch else b r c := by
  rw [write_eq_ok hr hc]
  congr 1
  funext r c
  by_cases hrr : r.1 = row
  · obtain rfl : r = ⟨row, hr⟩ := Fin.ext hrr
    by_cases hcc : c.1 = col
    · obtain rfl : c = ⟨col, hc⟩ := Fin.ext hcc
      simp
    · have hne : c ≠ ⟨col, hc⟩ := Fin.ne_of_val_ne hcc
      simp [Function.update_of_ne hne, hcc]
  · have hne : r ≠ ⟨row, hr⟩ := Fin.ne_of_val_ne hrr
    simp [Function.update_of_ne hne, hrr]

/-- The writes of one character `ch` across the first `n` columns of a row. -/
theorem foldlM_write_row (b : Buffer) (hrow : row < bufferHeight) (ch : ScreenChar)
    {n : Nat} (hn : n ≤ bufferWidth) :
    (List.range n).foldlM (fun b col => b.write row col ch) b =
      .ok fun r c => if r.1 = row ∧ c.1 < n then ch else b r c := by
  induction n with
  | zero =>
      simp only [List.range_zero, List.foldlM_nil, pure_eq_ok, Except.ok.injEq]
      funext r c
      simp
  | succ n ih =>
      rw [foldlM_range_succ, ih (by omega), ok_bind, write_eq_ok_ite hrow (by omega)]
      congr 1
      funext r c
      split_ifs <;> first | rfl | omega

/-- The copy of row `row` onto row `row - 1`, over the first `n` columns. -/
theorem foldlM_copy_row (b : Buffer) (hrow : row < bufferHeight) (hrow₁ : 1 ≤ row)
    {n : Nat} (hn : n ≤ bufferWidth) :
    (List.range n).foldlM (fun b col => do
      let character ← b.read row col
      b.write (row - 1) col character) b =
      .ok fun r c => if r.1 = row - 1 ∧ c.1 < n then b ⟨row, hrow⟩ c else b r c := by
  induction n with
  | zero =>
      simp only [List.range_zero, List.foldlM_nil, pure_eq_ok, Except.ok.injEq]
      funext r c
      simp
  | succ n ih =>
      rw [foldlM_range_succ, ih (by omega), ok_bind, read_eq_ok hrow (by omega), ok_bind,
        write_eq_ok_ite (by omega) (by omega)]
      congr 1
      funext r c
      -- row `row` itself is not written, so the character read is the original one
      have hread : ¬(row = row - 1 ∧ n < n) := by omega
      simp only [hread, if_false]
      by_cases hcn : c.1 = n
      · obtain rfl : c = ⟨n, Nat.lt_of_succ_le hn⟩ := Fin.ext hcn
        simp
      · split_ifs <;> first | rfl | omega

/-- The first `m` rounds of the scroll: rows `0 … m - 1` hold the rows
below them. -/
theorem foldlM_scroll_rows (b : Buffer) {m : Nat} (hm : m + 1 ≤ bufferHeight) :
    (List.range' 1 m).foldlM (fun b row =>
      (List.range bufferWidth).foldlM (fun b col => do
        let character ← b.read row col
        b.write (row - 1) col character) b) b =
      .ok fun r c => if h : r.1 < m ∧ r.1 + 1 < bufferHeight then b ⟨r.1 + 1, h.2⟩ c else b r c := by
  induction m with
  | zero =>
      simp only [List.range'_zero, List.foldlM_nil, pure_eq_ok, Except.ok.injEq]
      funext r c
      simp
  | succ m ih =>
      simp only [List.range'_concat, Nat.one_mul, List.foldlM_append, ih (by omega), ok_bind,
        List.foldlM_cons, List.foldlM_nil]
      rw [foldlM_copy_row _ (show 1 + m < bufferHeight by omega) (by omega) (Nat.le_refl _), ok_bind,
        pure_eq_ok]
      congr 1
      funext r c
      by_cases hrm : r.1 = m
      · -- the row copied last
        have h1 : r.1 = 1 + m - 1 ∧ c.1 < bufferWidth := ⟨by omega, c.2⟩
        have h2 : r.1 < m + 1 ∧ r.1 + 1 < bufferHeight := ⟨by omega, by omega⟩
        have h3 : ¬((⟨1 + m, by omega⟩ : Fin bufferHeight).1 < m ∧ 1 + m + 1 < bufferHeight) := by
          simp only [not_and]
          omega
        rw [if_pos h1, dif_pos h2, dif_neg h3]
        congr 1
        ext
        simp only
        omega
      · have h1 : ¬(r.1 = 1 + m - 1 ∧ c.1 < bufferWidth) := by omega
        rw [if_neg h1]
        by_cases hlt : r.1 < m ∧ r.1 + 1 < bufferHeight
        · rw [dif_pos hlt, dif_pos ⟨by omega, hlt.2⟩]
        · rw [dif_neg hlt, dif_neg (by omega)]

/-- The scroll of `new_line`: every row but the last holds the row below it. -/
theorem scrollUp_eq_ok (b : Buffer) :
    b.scrollUp = .ok fun r c => if h : r.1 + 1 < bufferHeight then b ⟨r.1 + 1, h⟩ c else b r c := by
  rw [scrollUp, foldlM_scroll_rows (m := bufferHeight - 1) b (by simp [bufferHeight])]
  congr 1
  funext r c
  by_cases h : r.1 + 1 < bufferHeight
  · rw [dif_pos ⟨by omega, h⟩, dif_pos h]
  · rw [dif_neg (by omega), dif_neg h]

end Buffer

/-- The writer shows the rows `P ++ [cur]` of a text: the cursor is at the end
of the last row `cur`, on the screen row that shows it, and screen row `r`
holds row `r + (#rows - 25)`, blank-padded. -/
structure Shows (w : Writer) (P : List (List UInt8)) (cur : List UInt8) : Prop where
  row_eq : w.rowPosition = min P.length (bufferHeight - 1)
  column_eq : w.columnPosition = cur.length
  cur_le : cur.length ≤ bufferWidth
  cells : ∀ r c, (w.buffer r c).asciiCharacter =
    cellAt (P ++ [cur]) (r.1 + (P.length + 1 - bufferHeight)) c.1

namespace Writer

/-- `clear_row` of a row on the screen blanks that row and nothing else. -/
theorem clearRow_eq_ok (w : Writer) {row : Nat} (hrow : row < bufferHeight) :
    w.clearRow row = .ok { w with
      buffer := fun r c => if r.1 = row then ⟨0x20, w.colorCode⟩ else w.buffer r c } := by
  rw [clearRow]
  simp only [Buffer.foldlM_write_row _ hrow _ (Nat.le_refl _), ok_bind, pure_eq_ok]
  congr 2
  funext r c
  simp [c.2]

variable {w : Writer} {P : List (List UInt8)} {cur : List UInt8}

/-- `new_line` closes the last row and opens an empty one, scrolling when
the cursor was on the last screen row. -/
theorem newLine_shows (h : Shows w P cur) :
    ∃ w', w.newLine = .ok w' ∧ Shows w' (P ++ [cur]) [] := by
  have hH : bufferHeight = 25 := rfl
  have hrow := h.row_eq
  unfold newLine
  dsimp only
  split
  · -- room below: the cursor moves down, the screen stays
    rename_i hlt
    refine ⟨_, rfl, ⟨?_, rfl, Nat.zero_le _, fun r c => ?_⟩⟩
    · simp only [List.length_append, List.length_singleton]
      omega
    · rw [h.cells r c, cellAt_append_nil]
      congr 1
      simp only [List.length_append, List.length_singleton]
      omega
  · -- on the last row: scroll up and blank the last row
    rename_i hge
    rw [Buffer.scrollUp_eq_ok, ok_bind, clearRow_eq_ok _ (by omega)]
    refine ⟨_, rfl, ⟨?_, rfl, Nat.zero_le _, fun r c => ?_⟩⟩
    · simp only [List.length_append, List.length_singleton]
      omega
    · simp only [List.length_append, List.length_singleton, cellAt_append_nil]
      by_cases hr : r.1 = bufferHeight - 1
      · rw [if_pos hr, cellAt_of_le (by simp; omega)]
      · rw [if_neg hr, dif_pos (by omega), h.cells]
        congr 1
        simp only
        omega

/-- Writing a byte at the cursor, when the last row has room, adds it to
that row. -/
theorem write_shows (h : Shows w P cur) (hcur : cur.length < bufferWidth) (y : UInt8) :
    ∃ buffer, w.buffer.write w.rowPosition w.columnPosition ⟨y, w.colorCode⟩ = .ok buffer ∧
      Shows { w with buffer, columnPosition := w.columnPosition + 1 } P (cur ++ [y]) := by
  have hH : bufferHeight = 25 := rfl
  have hrow := h.row_eq
  have hcol := h.column_eq
  rw [Buffer.write_eq_ok_ite (by omega) (by omega)]
  refine ⟨_, rfl, ⟨h.row_eq, by simp [hcol], by simp; omega, fun r c => ?_⟩⟩
  dsimp only
  rw [cellAt_concat]
  -- the screen row of the cursor shows the last row of the text
  have hscreen : r.1 = w.rowPosition ↔ r.1 + (P.length + 1 - bufferHeight) = P.length := by omega
  by_cases hr : r.1 = w.rowPosition ∧ c.1 = w.columnPosition
  · rw [if_pos hr, if_pos ⟨hscreen.mp hr.1, hcol ▸ hr.2⟩]
  · rw [if_neg hr, if_neg (fun h' => hr ⟨hscreen.mpr h'.1, hcol ▸ h'.2⟩), h.cells]

/-- `write_byte` adds its byte to the rows as `layoutStep` does. -/
theorem writeByte_shows (h : Shows w P cur) (y : UInt8) :
    ∃ w', w.writeByte y = .ok w' ∧ ∃ P' cur', Shows w' P' cur' ∧
      P' ++ [cur'] = TextRows.layoutStep 0x0a bufferWidth (P ++ [cur]) y := by
  unfold writeByte TextRows.layoutStep
  by_cases hy : y = 0x0a
  · obtain ⟨w', hw, hs⟩ := newLine_shows h
    exact ⟨w', by rw [if_pos hy, hw], _, _, hs, by rw [if_pos hy]⟩
  rw [if_neg hy, if_neg hy, TextRows.putOnRows_concat]
  by_cases hfull : w.columnPosition ≥ bufferWidth
  · -- a full row: the byte opens the next one
    have hcur : ¬cur.length < bufferWidth := by have := h.column_eq; omega
    obtain ⟨w₁, hw₁, hs₁⟩ := newLine_shows h
    obtain ⟨buffer, hb, hs⟩ := write_shows hs₁ (by simp [bufferWidth]) y
    refine ⟨_, ?_, _, _, hs, by rw [if_neg hcur]; simp⟩
    rw [if_pos hfull, hw₁, ok_bind]
    simp only [hb, ok_bind, pure_eq_ok]
  · have hcur : cur.length < bufferWidth := by have := h.column_eq; omega
    obtain ⟨buffer, hb, hs⟩ := write_shows h hcur y
    refine ⟨_, ?_, _, _, hs, by rw [if_pos hcur]⟩
    rw [if_neg hfull]
    simp only [pure_eq_ok, ok_bind, hb]

/-- The rows `0 … n - 1` blanked by the loop of `clear_screen`. -/
theorem foldlM_clearRow (w : Writer) {n : Nat} (hn : n ≤ bufferHeight) :
    (List.range n).foldlM (fun w row => w.clearRow row) w =
      .ok { w with buffer := fun r c => if r.1 < n then ⟨0x20, w.colorCode⟩ else w.buffer r c } := by
  induction n with
  | zero =>
      simp only [List.range_zero, List.foldlM_nil, pure_eq_ok, Except.ok.injEq]
      congr
  | succ n ih =>
      rw [foldlM_range_succ, ih (by omega), ok_bind, clearRow_eq_ok _ (by omega)]
      congr 2
      funext r c
      dsimp only
      split_ifs <;> first | rfl | omega

/-- `clear_screen` blanks the screen and homes the cursor: it shows one
empty row. -/
theorem clearScreen_shows (w : Writer) : ∃ w₁, w.clearScreen = .ok w₁ ∧ Shows w₁ [] [] := by
  rw [clearScreen, foldlM_clearRow w (Nat.le_refl _), ok_bind]
  refine ⟨_, rfl, ⟨rfl, rfl, Nat.zero_le _, fun r c => ?_⟩⟩
  dsimp only
  rw [if_pos r.2]
  cases hr : r.1 with
  | zero => rfl
  | succ i => exact (cellAt_of_le (by simp; omega) _).symm

theorem writeBytes_cons (w : Writer) (byte : UInt8) (bytes : List UInt8) :
    w.writeBytes (byte :: bytes) = (w.writeByte (shownByte byte)).bind fun w' => w'.writeBytes bytes := by
  unfold writeBytes shownByte
  rw [List.foldlM_cons]
  split <;> rfl

/-- The loop of `write_string` lays the shown bytes out after the rows the
writer shows. -/
theorem writeBytes_shows (h : Shows w P cur) (bytes : List UInt8) :
    ∃ w', w.writeBytes bytes = .ok w' ∧ ∃ P' cur', Shows w' P' cur' ∧
      P' ++ [cur'] = (bytes.map shownByte).foldl (TextRows.layoutStep 0x0a bufferWidth) (P ++ [cur]) := by
  induction bytes generalizing w P cur with
  | nil => exact ⟨w, rfl, P, cur, h, rfl⟩
  | cons byte bytes ih =>
      obtain ⟨w₁, hw₁, P₁, cur₁, hs₁, hrows₁⟩ := writeByte_shows h (shownByte byte)
      obtain ⟨w', hw', P', cur', hs', hrows'⟩ := ih hs₁
      refine ⟨w', ?_, P', cur', hs', ?_⟩
      · rw [writeBytes_cons, hw₁]
        exact hw'
      · rw [hrows', hrows₁, List.map_cons, List.foldl_cons]

end Writer

/-- After `clear_screen`, `write_string(s)` shows the tail of the text of
`s` as `renderedChar` lays it out, and the cursor stays on the screen after
every byte of the loop. -/
theorem clearScreen_writeString_renders (w : Writer) (s : String) :
    ∃ w₁ w₂, w.clearScreen = .ok w₁ ∧ w₁.writeString s = .ok w₂ ∧
      (∀ r c, (w₂.buffer r c).asciiCharacter = renderedChar s.toUTF8.toList r.1 c.1) ∧
      ∀ k, ∃ w', w₁.writeBytes (s.toUTF8.toList.take k) = .ok w' ∧
        w'.rowPosition ≤ bufferHeight - 1 ∧ w'.columnPosition ≤ bufferWidth := by
  obtain ⟨w₁, hw₁, hs₁⟩ := Writer.clearScreen_shows w
  obtain ⟨w₂, hw₂, P, cur, hs, hrows⟩ := Writer.writeBytes_shows hs₁ s.toUTF8.toList
  have htext : textRows s.toUTF8.toList = P ++ [cur] := by
    rw [hrows, textRows, TextRows.layout_eq_foldl (by decide)]
    rfl
  refine ⟨w₁, w₂, hw₁, by rw [Writer.writeString_eq_writeBytes, hw₂], fun r c => ?_, fun k => ?_⟩
  · rw [hs.cells, renderedChar_eq, htext]
    simp
  · obtain ⟨w', hw', P', cur', hs', -⟩ := Writer.writeBytes_shows hs₁ (s.toUTF8.toList.take k)
    exact ⟨w', hw', by rw [hs'.row_eq]; omega, by rw [hs'.column_eq]; exact hs'.cur_le⟩

/-- The writer after `print!` and `eprint!` calls from `w₀`, with the bytes
of the texts they wrote. -/
inductive PrintedSince (w₀ : Writer) : Writer → List UInt8 → Prop
  | start : PrintedSince w₀ w₀ []
  | print {w w' : Writer} {bytes : List UInt8} (s : String) :
      PrintedSince w₀ w bytes → print w s = .ok w' → PrintedSince w₀ w' (bytes ++ s.toUTF8.toList)
  | printError {w w' : Writer} {bytes : List UInt8} (s : String) :
      PrintedSince w₀ w bytes → printError w s = .ok w' →
        PrintedSince w₀ w' (bytes ++ s.toUTF8.toList)

/-- The writer shows the rows of the text `bytes`. -/
def ShowsText (w : Writer) (bytes : List UInt8) : Prop :=
  ∃ P cur, Shows w P cur ∧ P ++ [cur] = textRows bytes

theorem Shows.setColorCode {w : Writer} {P : List (List UInt8)} {cur : List UInt8}
    (h : Shows w P cur) (colorCode : ColorCode) : Shows { w with colorCode } P cur :=
  ⟨h.row_eq, h.column_eq, h.cur_le, h.cells⟩

theorem textRows_nil : textRows [] = [[]] := by
  simp [textRows, TextRows.layout, TextRows.rowsOf_of_le]

/-- The rows of a longer text are laid out from the rows of its beginning. -/
theorem textRows_append (bytes more : List UInt8) :
    textRows (bytes ++ more) =
      (more.map shownByte).foldl (TextRows.layoutStep 0x0a bufferWidth) (textRows bytes) := by
  rw [textRows, textRows, TextRows.layout_eq_foldl (by decide), TextRows.layout_eq_foldl (by decide),
    List.map_append, List.foldl_append]

theorem showsText_clearScreen {w w₁ : Writer} (h : w.clearScreen = .ok w₁) : ShowsText w₁ [] := by
  obtain ⟨w₁', hw, hs⟩ := Writer.clearScreen_shows w
  rw [h, Except.ok.injEq] at hw
  exact ⟨[], [], hw ▸ hs, textRows_nil.symm⟩

theorem ShowsText.writeString {w w' : Writer} {bytes : List UInt8} (h : ShowsText w bytes)
    {s : String} (hw : w.writeString s = .ok w') : ShowsText w' (bytes ++ s.toUTF8.toList) := by
  obtain ⟨P, cur, hs, hrows⟩ := h
  obtain ⟨w'', hw'', P', cur', hs', hrows'⟩ := Writer.writeBytes_shows hs s.toUTF8.toList
  rw [← Writer.writeString_eq_writeBytes, hw, Except.ok.injEq] at hw''
  subst hw''
  exact ⟨P', cur', hs', by rw [hrows', hrows, textRows_append]⟩

theorem ShowsText.printError {w w' : Writer} {bytes : List UInt8} (h : ShowsText w bytes)
    {s : String} (hw : printError w s = .ok w') : ShowsText w' (bytes ++ s.toUTF8.toList) := by
  obtain ⟨P, cur, hs, hrows⟩ := h
  -- the colour changes nothing the screen's characters depend on
  have hred : ShowsText { w with colorCode := ColorCode.error } bytes :=
    ⟨P, cur, hs.setColorCode _, hrows⟩
  unfold Vga.printError at hw
  obtain ⟨w₁, hw₁, hrest⟩ := bind_eq_ok.mp hw
  rw [pure_eq_ok, Except.ok.injEq] at hrest
  subst hrest
  obtain ⟨P', cur', hs', hrows'⟩ := hred.writeString hw₁
  exact ⟨P', cur', hs'.setColorCode _, hrows'⟩

theorem showsText_of_printedSince {w₀ w : Writer} {bytes : List UInt8} (h₀ : ShowsText w₀ [])
    (h : PrintedSince w₀ w bytes) : ShowsText w bytes := by
  induction h with
  | start => exact h₀
  | print s _ hw ih => exact ih.writeString hw
  | printError s _ hw ih => exact ih.printError hw

/-- After `clear_screen`, the screen shows the text of every `print!` and
`eprint!` since, one after another, as `renderedChar` lays it out, with the
cursor at its end on the screen. -/
theorem screen_shows_text_since_clear {w w₀ w' : Writer} {bytes : List UInt8}
    (hclear : w.clearScreen = .ok w₀) (h : PrintedSince w₀ w' bytes) :
    (∀ r c, (w'.buffer r c).asciiCharacter = renderedChar bytes r.1 c.1) ∧
      w'.rowPosition ≤ bufferHeight - 1 ∧ w'.columnPosition ≤ bufferWidth := by
  obtain ⟨P, cur, hs, hrows⟩ := showsText_of_printedSince (showsText_clearScreen hclear) h
  refine ⟨fun r c => ?_, by rw [hs.row_eq]; omega, by rw [hs.column_eq]; exact hs.cur_le⟩
  rw [hs.cells, renderedChar_eq, ← hrows]
  simp

theorem screen_shows_text_since_clear_of_hi :
    let w : Writer := Writer.boot fun _ _ => ⟨0x41, ColorCode.new .white .black⟩
    ∃ w₀ w₁, w.clearScreen = .ok w₀ ∧ PrintedSince w₀ w₁ ([] ++ "hi".toUTF8.toList) ∧
      ∀ r c, (w₁.buffer r c).asciiCharacter = renderedChar ([] ++ "hi".toUTF8.toList) r.1 c.1 := by
  intro w
  obtain ⟨w₀, h₀, hs₀⟩ := Writer.clearScreen_shows w
  obtain ⟨w₁, h₁, -⟩ := Writer.writeBytes_shows hs₀ "hi".toUTF8.toList
  have hprint : print w₀ "hi" = .ok w₁ := by
    rw [print, Writer.writeString_eq_writeBytes]
    exact h₁
  have hrun : PrintedSince w₀ w₁ ([] ++ "hi".toUTF8.toList) := .print "hi" .start hprint
  exact ⟨w₀, w₁, h₀, hrun, (screen_shows_text_since_clear h₀ hrun).1⟩

end Vga
end NoIdeaOS
