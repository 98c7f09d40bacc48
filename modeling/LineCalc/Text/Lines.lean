/-!
# Lines of bytes and of characters

A line ends with its newline or with the text. The newline is not part of it, and
behind the last newline there is a line only if something stands there. The same
cut serves bytes and characters, because the byte of a newline is never part of
another character.

A carriage return in front of the newline stays with the line. Whoever trims the
lines afterwards sees no difference.
-/

namespace LineCalc.Text

variable {α : Type} [DecidableEq α]

/-- The pieces of a text that `newline` ends or separates. -/
def lines (newline : α) : List α → List (List α)
  | [] => []
  | x :: xs =>
      if x = newline then [] :: lines newline xs
      else
        match lines newline xs with
        | [] => [[x]]
        | line :: rest => (x :: line) :: rest

/-- A cut behind a newline cuts no line. -/
theorem lines_append_newline (newline : α) (xs ys : List α) :
    lines newline (xs ++ newline :: ys) = lines newline (xs ++ [newline]) ++ lines newline ys := by
  induction xs with
  | nil => simp [lines]
  | cons x xs ih =>
      by_cases h : x = newline
      · simp [lines, h, ih]
      · cases hl : lines newline (xs ++ [newline]) with
        | nil =>
            cases xs with
            | nil => simp [lines] at hl
            | cons y ys' =>
                rw [List.cons_append, lines] at hl
                split at hl
                · cases hl
                · split at hl <;> cases hl
        | cons line rest => simp [lines, h, ih, hl]

/-- The text that bytes encode in UTF-8, if they do. -/
def decode? (bytes : List UInt8) : Option String := String.fromUTF8? bytes.toByteArray

/-- The lines of some bytes, each by itself as text. -/
def decodedLines (bytes : List UInt8) : List (Option String) := (lines 0x0A bytes).map decode?

/-- Bytes that end with a newline, or are none, have their lines whatever comes behind them. -/
theorem decodedLines_append {a : List UInt8} (ha : a = [] ∨ a.getLast? = some 0x0A)
    (b : List UInt8) : decodedLines (a ++ b) = decodedLines a ++ decodedLines b := by
  rcases ha with rfl | hlast
  · rfl
  · obtain ⟨front, rfl⟩ := List.getLast?_eq_some_iff.mp hlast
    have hcut := lines_append_newline 0x0A front b
    unfold decodedLines
    rw [List.append_assoc, List.singleton_append, hcut, List.map_append]

end LineCalc.Text
