import Mathlib.Logic.Function.Basic
import NoIdeaOS.Lib.Fallible

/-!
# The VGA text writer

`vga_buffer.rs`.  The screen is the 25 × 80 array of `ScreenChar`s at
`0xb8000`; `Writer` keeps the cursor (`row_position`, `column_position`) and
the colour it writes in.  `write_byte` moves to a new line at `'\n'` or when
the row is full, `new_line` scrolls the screen up one row once the cursor is
on the last row, and `write_string` shows every byte outside printable ASCII
as `0xfe` (■).

Each `chars[row][col]` is an array index, which panics out of bounds; the
model checks both indices (`Buffer.read`, `Buffer.write`) and panics with the
text Rust gives.  The `for` loops are folds over the index ranges.  `print!`
formats into `write_str`, which is `write_string`; the model takes the
formatted text as its input.

Two facts about every run of the writer from the `WRITER` the kernel builds
(`WriterRun`): the cursor stays on the screen, so no index ever fails, and
every character on the screen is printable ASCII or ■, or one the firmware
left there.  Both follow from the invariant `Writer.Inv` that every run
keeps (`inv_of_writerRun`), for a property of the characters that blanks and
what `write_string` writes have.
-/

namespace NoIdeaOS
namespace Vga

open Fallible

/-- `Color`, with its `repr(u8)` discriminants. -/
inductive Color
  | black
  | blue
  | green
  | cyan
  | red
  | magenta
  | brown
  | lightGray
  | darkGray
  | lightBlue
  | lightGreen
  | lightCyan
  | lightRed
  | pink
  | yellow
  | white
deriving DecidableEq, Repr

def Color.toUInt8 : Color → UInt8
  | .black => 0
  | .blue => 1
  | .green => 2
  | .cyan => 3
  | .red => 4
  | .magenta => 5
  | .brown => 6
  | .lightGray => 7
  | .darkGray => 8
  | .lightBlue => 9
  | .lightGreen => 10
  | .lightCyan => 11
  | .lightRed => 12
  | .pink => 13
  | .yellow => 14
  | .white => 15

/-- `ColorCode(u8)`: the background in the high nibble, the foreground in the
low one. -/
structure ColorCode where
  val : UInt8
deriving DecidableEq, Repr

def ColorCode.new (foreground background : Color) : ColorCode :=
  ⟨(background.toUInt8 <<< 4) ||| foreground.toUInt8⟩

/-- `ColorCode::ERROR`. -/
def ColorCode.error : ColorCode := .new .white .red

structure ScreenChar where
  asciiCharacter : UInt8
  colorCode : ColorCode
deriving DecidableEq, Repr

/-- `BUFFER_HEIGHT`. -/
def bufferHeight : Nat := 25

/-- `BUFFER_WIDTH`. -/
def bufferWidth : Nat := 80

/-- `Buffer`: the characters of the screen, row by row. -/
abbrev Buffer := Fin bufferHeight → Fin bufferWidth → ScreenChar

/-- The panic of an array index out of bounds. -/
inductive VgaPanic
  | indexOutOfBounds (len index : Nat)
deriving DecidableEq, Repr

def VgaPanic.message : VgaPanic → String
  | .indexOutOfBounds len index => s!"index out of bounds: the len is {len} but the index is {index}"

namespace Buffer

/-- `self.buffer.chars[row][col].read()`. -/
def read (b : Buffer) (row col : Nat) : Except VgaPanic ScreenChar :=
  if hr : row < bufferHeight then
    if hc : col < bufferWidth then .ok (b ⟨row, hr⟩ ⟨col, hc⟩)
    else .error (.indexOutOfBounds bufferWidth col)
  else .error (.indexOutOfBounds bufferHeight row)

/-- `self.buffer.chars[row][col].write(c)`. -/
def write (b : Buffer) (row col : Nat) (c : ScreenChar) : Except VgaPanic Buffer :=
  if hr : row < bufferHeight then
    if hc : col < bufferWidth then
      .ok (Function.update b ⟨row, hr⟩ (Function.update (b ⟨row, hr⟩) ⟨col, hc⟩ c))
    else .error (.indexOutOfBounds bufferWidth col)
  else .error (.indexOutOfBounds bufferHeight row)

/-- The `for row in 1..BUFFER_HEIGHT` loop of `new_line`: every row is copied
one row up. -/
def scrollUp (b : Buffer) : Except VgaPanic Buffer :=
  (List.range' 1 (bufferHeight - 1)).foldlM (fun b row =>
    (List.range bufferWidth).foldlM (fun b col => do
      let character ← b.read row col
      b.write (row - 1) col character) b) b

end Buffer

structure Writer where
  columnPosition : Nat
  rowPosition : Nat
  colorCode : ColorCode
  buffer : Buffer

namespace Writer

/-- `WRITER` as `lazy_static!` builds it, over the screen the firmware left. -/
def boot (buffer : Buffer) : Writer :=
  { columnPosition := 0, rowPosition := 0, colorCode := .new .yellow .black, buffer }

/-- `clear_row`: blanks (`b' '`) in the writer's colour. -/
def clearRow (w : Writer) (row : Nat) : Except VgaPanic Writer := do
  let blank : ScreenChar := { asciiCharacter := 0x20, colorCode := w.colorCode }
  let buffer ← (List.range bufferWidth).foldlM (fun b col => b.write row col blank) w.buffer
  pure { w with buffer }

def newLine (w : Writer) : Except VgaPanic Writer := do
  let w := { w with columnPosition := 0 }
  if w.rowPosition < bufferHeight - 1 then
    pure { w with rowPosition := w.rowPosition + 1 }
  else
    let buffer ← w.buffer.scrollUp
    let w := { w with buffer, rowPosition := bufferHeight - 1 }
    w.clearRow (bufferHeight - 1)

def writeByte (w : Writer) (byte : UInt8) : Except VgaPanic Writer :=
  if byte = 0x0a then w.newLine
  else do
    let w ← (if w.columnPosition ≥ bufferWidth then w.newLine else pure w)
    let row := w.rowPosition
    let col := w.columnPosition
    let colorCode := w.colorCode
    let buffer ← w.buffer.write row col { asciiCharacter := byte, colorCode }
    pure { w with buffer, columnPosition := w.columnPosition + 1 }

/-- `write_string`, over the bytes of the string. -/
def writeString (w : Writer) (s : String) : Except VgaPanic Writer :=
  s.toUTF8.toList.foldlM (fun w byte =>
    if (0x20 ≤ byte ∧ byte ≤ 0x7e) ∨ byte = 0x0a then w.writeByte byte
    else w.writeByte 0xfe) w

/-- The loop of `write_string`, over any bytes. -/
def writeBytes (w : Writer) (bytes : List UInt8) : Except VgaPanic Writer :=
  bytes.foldlM (fun w byte =>
    if (0x20 ≤ byte ∧ byte ≤ 0x7e) ∨ byte = 0x0a then w.writeByte byte
    else w.writeByte 0xfe) w

theorem writeString_eq_writeBytes (w : Writer) (s : String) :
    w.writeString s = w.writeBytes s.toUTF8.toList := rfl

def clearScreen (w : Writer) : Except VgaPanic Writer := do
  let w ← (List.range bufferHeight).foldlM (fun w row => w.clearRow row) w
  pure { w with rowPosition := 0, columnPosition := 0 }

end Writer

/-- `_print`, on the formatted text. -/
def print (w : Writer) (s : String) : Except VgaPanic Writer :=
  w.writeString s

/-- `_print_error`: the text in `ColorCode::ERROR`, then the old colour back. -/
def printError (w : Writer) (s : String) : Except VgaPanic Writer := do
  let old := w.colorCode
  let w := { w with colorCode := ColorCode.error }
  let w ← w.writeString s
  pure { w with colorCode := old }

/-- What `write_string` puts on the screen: printable ASCII and ■. -/
def Printable (byte : UInt8) : Prop :=
  (0x20 ≤ byte ∧ byte ≤ 0x7e) ∨ byte = 0xfe

instance : DecidablePred Printable := fun byte =>
  inferInstanceAs (Decidable ((0x20 ≤ byte ∧ byte ≤ 0x7e) ∨ byte = 0xfe))

namespace Buffer

/-- Every character on the screen satisfies `P`. -/
def Holds (P : UInt8 → Prop) (b : Buffer) : Prop :=
  ∀ r c, P (b r c).asciiCharacter

variable {P : UInt8 → Prop} {b b' : Buffer} {row col : Nat}

theorem read_eq_ok (hr : row < bufferHeight) (hc : col < bufferWidth) :
    b.read row col = .ok (b ⟨row, hr⟩ ⟨col, hc⟩) := by
  simp [read, hr, hc]

theorem write_eq_ok (hr : row < bufferHeight) (hc : col < bufferWidth) (c : ScreenChar) :
    b.write row col c =
      .ok (Function.update b ⟨row, hr⟩ (Function.update (b ⟨row, hr⟩) ⟨col, hc⟩ c)) := by
  simp [write, hr, hc]

/-- A write on the screen succeeds, and keeps `P` when the character has it. -/
theorem Holds.write (h : b.Holds P) (hr : row < bufferHeight) (hc : col < bufferWidth)
    {c : ScreenChar} (hP : P c.asciiCharacter) :
    ∃ b', b.write row col c = .ok b' ∧ b'.Holds P := by
  refine ⟨_, write_eq_ok hr hc c, fun r k => ?_⟩
  by_cases hrow : r = ⟨row, hr⟩
  · subst hrow
    rw [Function.update_self]
    by_cases hcol : k = ⟨col, hc⟩
    · subst hcol
      rw [Function.update_self]
      exact hP
    · rw [Function.update_of_ne hcol]
      exact h _ k
  · rw [Function.update_of_ne hrow]
    exact h r k

/-- The scroll succeeds, and keeps `P`: it only copies characters. -/
theorem Holds.scrollUp (h : b.Holds P) : ∃ b', b.scrollUp = .ok b' ∧ b'.Holds P := by
  refine foldlM_of_forall h fun row hrow b hb => ?_
  obtain ⟨hrow₁, hrow₂⟩ := List.mem_range'_1.mp hrow
  refine foldlM_of_forall hb fun col hcol b hb => ?_
  have hc : col < bufferWidth := List.mem_range.mp hcol
  have hr : row < bufferHeight := by simp only [bufferHeight] at hrow₂ ⊢; omega
  obtain ⟨b', hw, hb'⟩ := hb.write (show row - 1 < bufferHeight by omega) hc (hb ⟨row, hr⟩ ⟨col, hc⟩)
  exact ⟨b', by rw [read_eq_ok hr hc, ok_bind, hw], hb'⟩

end Buffer

namespace Writer

/-- The invariant of the writer: the cursor is on the screen (the column may
be one past the last, until the next byte starts a new line), and every
character on the screen satisfies `P`. -/
structure Inv (P : UInt8 → Prop) (w : Writer) : Prop where
  row_lt : w.rowPosition < bufferHeight
  column_le : w.columnPosition ≤ bufferWidth
  cells : w.buffer.Holds P

variable {P : UInt8 → Prop} {w : Writer}

/-- `clear_row` of a row on the screen succeeds, changes only the screen,
and keeps `P` when blanks have it. -/
theorem clearRow_holds (hblank : P 0x20) (h : w.buffer.Holds P) {row : Nat}
    (hrow : row < bufferHeight) :
    ∃ buffer, w.clearRow row = .ok { w with buffer } ∧ buffer.Holds P := by
  obtain ⟨buffer, hfold, hbuf⟩ := foldlM_of_forall h fun col hcol b hb =>
    hb.write hrow (List.mem_range.mp hcol) (c := ⟨0x20, w.colorCode⟩) hblank
  exact ⟨buffer, by simp only [clearRow, hfold, ok_bind, pure_eq_ok], hbuf⟩

/-- `new_line` always succeeds: it puts the cursor at the start of a row on
the screen, scrolling when it was on the last one. -/
theorem newLine_inv (hblank : P 0x20) (h : w.buffer.Holds P) :
    ∃ w', w.newLine = .ok w' ∧ w'.Inv P ∧ w'.columnPosition = 0 ∧ w'.colorCode = w.colorCode := by
  unfold newLine
  dsimp only
  split
  · rename_i hrow
    refine ⟨_, rfl, ⟨?_, Nat.zero_le _, h⟩, rfl, rfl⟩
    simp only [bufferHeight] at hrow ⊢
    omega
  · obtain ⟨b, hs, hb⟩ := h.scrollUp
    obtain ⟨buffer, hc, hbuf⟩ := clearRow_holds (w := ⟨0, bufferHeight - 1, w.colorCode, b⟩)
      hblank hb (show bufferHeight - 1 < bufferHeight by simp [bufferHeight])
    refine ⟨⟨0, bufferHeight - 1, w.colorCode, buffer⟩, ?_,
      ⟨by simp [bufferHeight], Nat.zero_le _, hbuf⟩, rfl, rfl⟩
    rw [hs, ok_bind]
    exact hc

/-- `write_byte` from a writer with the invariant succeeds and keeps it,
when the byte written has `P`. -/
theorem writeByte_inv (hblank : P 0x20) (h : w.Inv P) {byte : UInt8}
    (hbyte : byte ≠ 0x0a → P byte) :
    ∃ w', w.writeByte byte = .ok w' ∧ w'.Inv P ∧ w'.colorCode = w.colorCode := by
  unfold writeByte
  split
  · obtain ⟨w', hw, hinv, -, hcc⟩ := newLine_inv hblank h.cells
    exact ⟨w', hw, hinv, hcc⟩
  · rename_i hnl
    -- the cursor after the optional line break
    obtain ⟨w₁, h₁, hinv₁, hcol₁, hcc₁⟩ : ∃ w₁,
        (if w.columnPosition ≥ bufferWidth then w.newLine else pure w) = .ok w₁ ∧
        w₁.Inv P ∧ w₁.columnPosition < bufferWidth ∧ w₁.colorCode = w.colorCode := by
      split
      · obtain ⟨w₁, hw, hinv, hcol, hcc⟩ := newLine_inv hblank h.cells
        exact ⟨w₁, hw, hinv, by simp [hcol, bufferWidth], hcc⟩
      · rename_i hcol
        exact ⟨w, rfl, h, Nat.lt_of_not_le hcol, rfl⟩
    obtain ⟨b, hw, hb⟩ := hinv₁.cells.write hinv₁.row_lt hcol₁
      (c := ⟨byte, w₁.colorCode⟩) (hbyte hnl)
    refine ⟨{ w₁ with buffer := b, columnPosition := w₁.columnPosition + 1 }, ?_,
      ⟨hinv₁.row_lt, Nat.succ_le_of_lt hcol₁, hb⟩, hcc₁⟩
    rw [h₁, ok_bind]
    simp only [hw, ok_bind, pure_eq_ok]

/-- `write_string` from a writer with the invariant succeeds and keeps it,
when `P` holds of blanks, printable ASCII and ■. -/
theorem writeString_inv (hP : ∀ byte, Printable byte → P byte) (h : w.Inv P) (s : String) :
    ∃ w', w.writeString s = .ok w' ∧ w'.Inv P ∧ w'.colorCode = w.colorCode := by
  have hblank : P 0x20 := hP _ (by decide)
  unfold writeString
  refine foldlM_of_forall (P := fun w' : Writer => w'.Inv P ∧ w'.colorCode = w.colorCode)
    ⟨h, rfl⟩ fun byte _ w₁ ⟨hinv₁, hcc₁⟩ => ?_
  split
  · -- printable ASCII or a newline goes through as it is
    rename_i hshow
    obtain ⟨w₂, hw, hinv₂, hcc₂⟩ := writeByte_inv hblank hinv₁ fun (hnl : byte ≠ 0x0a) =>
      hP _ (.inl (hshow.resolve_right hnl))
    exact ⟨w₂, hw, hinv₂, hcc₂.trans hcc₁⟩
  · obtain ⟨w₂, hw, hinv₂, hcc₂⟩ := writeByte_inv hblank hinv₁ fun (_ : (0xfe : UInt8) ≠ 0x0a) =>
      hP _ (.inr rfl)
    exact ⟨w₂, hw, hinv₂, hcc₂.trans hcc₁⟩

/-- `clear_screen` always succeeds and homes the cursor. -/
theorem clearScreen_inv (hblank : P 0x20) (h : w.buffer.Holds P) :
    ∃ w', w.clearScreen = .ok w' ∧ w'.Inv P := by
  obtain ⟨w₁, hfold, hw₁⟩ := foldlM_of_forall (P := fun w' : Writer => w'.buffer.Holds P)
    (f := fun w row => w.clearRow row) (l := List.range bufferHeight) h
    fun row hrow w₁ hw₁ => by
      obtain ⟨buffer, hc, hbuf⟩ := clearRow_holds hblank hw₁ (List.mem_range.mp hrow)
      exact ⟨_, hc, hbuf⟩
  exact ⟨{ w₁ with rowPosition := 0, columnPosition := 0 },
    by simp only [clearScreen, hfold, ok_bind, pure_eq_ok], ⟨by simp [bufferHeight], Nat.zero_le _, hw₁⟩⟩

end Writer

theorem printError_inv {P : UInt8 → Prop} {w : Writer} (hP : ∀ byte, Printable byte → P byte)
    (h : w.Inv P) (s : String) : ∃ w', printError w s = .ok w' ∧ w'.Inv P := by
  obtain ⟨w', hw, hinv, -⟩ := Writer.writeString_inv (w := { w with colorCode := ColorCode.error })
    hP ⟨h.row_lt, h.column_le, h.cells⟩ s
  exact ⟨{ w' with colorCode := w.colorCode }, by simp only [printError, hw, ok_bind, pure_eq_ok],
    ⟨hinv.row_lt, hinv.column_le, hinv.cells⟩⟩

/-- The runs of `WRITER` under its lock: `print!`, `eprint!` and
`clear_screen`. -/
inductive WriterRun (w₀ : Writer) : Writer → Prop
  | start : WriterRun w₀ w₀
  | print {w w' : Writer} (s : String) : WriterRun w₀ w → print w s = .ok w' → WriterRun w₀ w'
  | printError {w w' : Writer} (s : String) :
      WriterRun w₀ w → printError w s = .ok w' → WriterRun w₀ w'
  | clearScreen {w w' : Writer} : WriterRun w₀ w → w.clearScreen = .ok w' → WriterRun w₀ w'

theorem inv_of_writerRun {P : UInt8 → Prop} {w₀ w : Writer} (hP : ∀ byte, Printable byte → P byte)
    (h₀ : w₀.Inv P) (hrun : WriterRun w₀ w) : w.Inv P := by
  have hblank : P 0x20 := hP _ (by decide)
  induction hrun with
  | start => exact h₀
  | print s _ hw ih =>
      obtain ⟨w', hw', hinv⟩ := Writer.writeString_inv hP ih s
      rw [print, hw'] at hw
      cases hw
      exact hinv.1
  | printError s _ hw ih =>
      obtain ⟨w', hw', hinv⟩ := printError_inv hP ih s
      rw [hw'] at hw
      cases hw
      exact hinv
  | clearScreen _ hw ih =>
      obtain ⟨w', hw', hinv⟩ := Writer.clearScreen_inv hblank ih.cells
      rw [hw'] at hw
      cases hw
      exact hinv

theorem Writer.boot_inv (buffer : Buffer) : (Writer.boot buffer).Inv fun _ => True :=
  ⟨by simp [boot, bufferHeight], Nat.zero_le _, fun _ _ => trivial⟩

/-- No run of the kernel's `WRITER` panics: the cursor never leaves the
screen, so every `print!`, `eprint!` and `clear_screen` indexes the buffer in
bounds. -/
theorem writer_never_panics {buffer₀ : Buffer} {w : Writer} (hrun : WriterRun (Writer.boot buffer₀) w)
    (s : String) :
    (∃ w', print w s = .ok w') ∧ (∃ w', printError w s = .ok w') ∧ ∃ w', w.clearScreen = .ok w' := by
  have hinv := inv_of_writerRun (fun _ _ => trivial) (Writer.boot_inv buffer₀) hrun
  obtain ⟨w₁, h₁, -⟩ := Writer.writeString_inv (fun _ _ => trivial) hinv s
  obtain ⟨w₂, h₂, -⟩ := printError_inv (fun _ _ => trivial) hinv s
  obtain ⟨w₃, h₃, -⟩ := Writer.clearScreen_inv (P := fun _ => True) trivial hinv.cells
  exact ⟨⟨w₁, h₁⟩, ⟨w₂, h₂⟩, ⟨w₃, h₃⟩⟩

/-- A run to the bottom right corner and past it, over a screen of `A`:
printing 24 newlines and 80 `x` brings the cursor to the end of the last
row, and printing `y` wraps it, which scrolls the screen up one row. -/
theorem print_to_corner_then_scroll :
    let buffer₀ : Buffer := fun _ _ => ⟨0x41, ColorCode.new .white .black⟩
    ∃ w₁ w₂, print (Writer.boot buffer₀)
        (String.ofList (List.replicate 24 '\n' ++ List.replicate 80 'x')) = .ok w₁ ∧
      w₁.rowPosition = 24 ∧ w₁.columnPosition = 80 ∧ print w₁ "y" = .ok w₂ ∧
      (w₂.buffer ⟨0, by decide⟩ ⟨0, by decide⟩).asciiCharacter = 0x41 ∧
      (w₂.buffer ⟨23, by decide⟩ ⟨0, by decide⟩).asciiCharacter = 0x78 ∧
      (w₂.buffer ⟨24, by decide⟩ ⟨0, by decide⟩).asciiCharacter = 0x79 := by
  intro buffer₀
  -- `String.toUTF8` is well-founded recursion, which only the kernel unfolds
  have hbytes : (String.ofList (List.replicate 24 '\n' ++ List.replicate 80 'x')).toUTF8.toList =
      List.replicate 24 0x0a ++ List.replicate 80 0x78 := by
    decide +kernel
  have hy : "y".toUTF8.toList = [0x79] := by
    decide +kernel
  -- the kernel runs both calls; only the cursor and three cells are compared
  have hrun : ((Writer.boot buffer₀).writeBytes (List.replicate 24 0x0a ++ List.replicate 80 0x78)
      >>= fun w₁ => w₁.writeBytes [0x79] >>= fun w₂ => pure (w₁, w₂)).toOption.map
      (fun ws => (ws.1.rowPosition, ws.1.columnPosition,
        (ws.2.buffer ⟨0, by decide⟩ ⟨0, by decide⟩).asciiCharacter,
        (ws.2.buffer ⟨23, by decide⟩ ⟨0, by decide⟩).asciiCharacter,
        (ws.2.buffer ⟨24, by decide⟩ ⟨0, by decide⟩).asciiCharacter)) =
      some (24, 80, 0x41, 0x78, 0x79) := by
    decide +kernel
  obtain ⟨⟨w₁, w₂⟩, hws, hfacts⟩ := eq_ok_of_toOption_map hrun
  obtain ⟨w₁', hw₁, h⟩ := bind_eq_ok.mp hws
  obtain ⟨w₂', hw₂, h⟩ := bind_eq_ok.mp h
  simp only [pure_eq_ok, Except.ok.injEq, Prod.mk.injEq] at h hfacts
  obtain ⟨rfl, rfl⟩ := h
  refine ⟨w₁', w₂', ?_, hfacts.1, hfacts.2.1, ?_, hfacts.2.2⟩
  · rw [print, Writer.writeString_eq_writeBytes, hbytes, hw₁]
  · rw [print, Writer.writeString_eq_writeBytes, hy, hw₂]

/-- The cursor at the end of the last row, where the next byte wraps the
row and scrolls the screen. -/
theorem writer_never_panics_at_full_screen :
    let buffer₀ : Buffer := fun _ _ => ⟨0x41, ColorCode.new .white .black⟩
    ∃ w, print (Writer.boot buffer₀)
        (String.ofList (List.replicate 24 '\n' ++ List.replicate 80 'x')) = .ok w ∧
      w.rowPosition = 24 ∧ w.columnPosition = 80 ∧ WriterRun (Writer.boot buffer₀) w ∧
      (∃ w', print w "y" = .ok w') ∧ (∃ w', printError w "y" = .ok w') ∧
      ∃ w', w.clearScreen = .ok w' := by
  intro buffer₀
  obtain ⟨w, -, hprint, hrow, hcol, -⟩ := print_to_corner_then_scroll
  have hrun : WriterRun (Writer.boot buffer₀) w := .print _ .start hprint
  exact ⟨w, hprint, hrow, hcol, hrun, writer_never_panics hrun "y"⟩

/-- What the kernel's screen shows: every character is printable ASCII or ■
(all that `write_string` writes, blanks included), or a character of the
screen the firmware left, moved up by scrolling. -/
theorem screen_shows_printable_or_boot_text {buffer₀ : Buffer} {w : Writer}
    (hrun : WriterRun (Writer.boot buffer₀) w) (r : Fin bufferHeight) (c : Fin bufferWidth) :
    Printable (w.buffer r c).asciiCharacter ∨
      ∃ r' c', (w.buffer r c).asciiCharacter = (buffer₀ r' c').asciiCharacter := by
  let P : UInt8 → Prop := fun byte =>
    Printable byte ∨ ∃ r' c', byte = (buffer₀ r' c').asciiCharacter
  have h₀ : (Writer.boot buffer₀).Inv P :=
    ⟨by simp [Writer.boot, bufferHeight], Nat.zero_le _, fun r' c' => .inr ⟨r', c', rfl⟩⟩
  exact (inv_of_writerRun (fun _ hb => .inl hb) h₀ hrun).cells r c

/-- After the scroll: the firmware's `A` moved up a row, the row of `x`
moved up to row 23, and `y` starts the new last row. -/
theorem screen_shows_printable_or_boot_text_after_scroll :
    let buffer₀ : Buffer := fun _ _ => ⟨0x41, ColorCode.new .white .black⟩
    ∃ w₁ w₂, print (Writer.boot buffer₀)
        (String.ofList (List.replicate 24 '\n' ++ List.replicate 80 'x')) = .ok w₁ ∧
      print w₁ "y" = .ok w₂ ∧ WriterRun (Writer.boot buffer₀) w₂ ∧
      (w₂.buffer ⟨0, by decide⟩ ⟨0, by decide⟩).asciiCharacter = 0x41 ∧
      (w₂.buffer ⟨23, by decide⟩ ⟨0, by decide⟩).asciiCharacter = 0x78 ∧
      (w₂.buffer ⟨24, by decide⟩ ⟨0, by decide⟩).asciiCharacter = 0x79 ∧
      ∀ r c, Printable (w₂.buffer r c).asciiCharacter ∨
        ∃ r' c', (w₂.buffer r c).asciiCharacter = (buffer₀ r' c').asciiCharacter := by
  intro buffer₀
  obtain ⟨w₁, w₂, hprint₁, -, -, hprint₂, hcells⟩ := print_to_corner_then_scroll
  have hrun : WriterRun (Writer.boot buffer₀) w₂ := .print _ (.print _ .start hprint₁) hprint₂
  exact ⟨w₁, w₂, hprint₁, hprint₂, hrun, hcells.1, hcells.2.1, hcells.2.2,
    screen_shows_printable_or_boot_text hrun⟩

end Vga
end NoIdeaOS
