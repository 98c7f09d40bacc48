/-!
# Cursors: reading a list with one step back

A cursor stands between the tokens already taken and those still ahead. Taking the
next one moves it over, putting it back moves it again, and neither ever loses
anything: `items` is the same list throughout. At the end there is nothing to take,
at the start nothing to put back, and the cursor stays where it is.
-/

namespace LineCalc

/-- A place in a list: what lies behind it, latest first, and what lies ahead. -/
structure Cursor (α : Type) where
  taken : List α
  ahead : List α
  deriving DecidableEq, Repr

namespace Cursor

variable {α : Type}

/-- The start of a list. -/
def ofList (xs : List α) : Cursor α := ⟨[], xs⟩

/-- The list that the cursor is a place in. -/
def items (c : Cursor α) : List α := c.taken.reverse ++ c.ahead

/-- The next item, if there is one, and the place behind it. -/
def get (c : Cursor α) : Option α × Cursor α :=
  match c.ahead with
  | [] => (none, c)
  | x :: xs => (some x, ⟨x :: c.taken, xs⟩)

/-- One step back, if the cursor is not at the start. -/
def putBack (c : Cursor α) : Cursor α :=
  match c.taken with
  | [] => c
  | x :: xs => ⟨xs, x :: c.ahead⟩

/-- How many items have been taken. -/
def position (c : Cursor α) : Nat := c.taken.length

/-- Nothing is ahead. -/
def isExhausted (c : Cursor α) : Bool := c.ahead.isEmpty

/-! ## What a move changes, and what it keeps -/

@[simp] theorem items_ofList (xs : List α) : (ofList xs).items = xs := rfl

@[simp] theorem position_ofList (xs : List α) : (ofList xs).position = 0 := rfl

@[simp] theorem items_get (c : Cursor α) : c.get.2.items = c.items := by
  obtain ⟨taken, ahead⟩ := c
  cases ahead <;> simp [get, items]

@[simp] theorem items_putBack (c : Cursor α) : c.putBack.items = c.items := by
  obtain ⟨taken, ahead⟩ := c
  cases taken <;> simp [putBack, items]

/-- The cursor stays inside its list. -/
theorem position_le (c : Cursor α) : c.position ≤ c.items.length := by
  simp [position, items]

/-- The next item is the one at the cursor's position. -/
theorem get_fst (c : Cursor α) : c.get.1 = c.items[c.position]? := by
  obtain ⟨taken, ahead⟩ := c
  cases ahead <;> simp [get, items, position]

theorem position_get (c : Cursor α) :
    c.get.2.position = if c.isExhausted then c.position else c.position + 1 := by
  obtain ⟨taken, ahead⟩ := c
  cases ahead <;> simp [get, position, isExhausted]

@[simp] theorem position_putBack (c : Cursor α) : c.putBack.position = c.position - 1 := by
  obtain ⟨taken, ahead⟩ := c
  cases taken <;> simp [putBack, position]

/-- Putting back undoes a step that took something. -/
theorem putBack_get {c : Cursor α} (h : c.isExhausted = false) : c.get.2.putBack = c := by
  obtain ⟨taken, ahead⟩ := c
  cases ahead <;> simp_all [get, putBack, isExhausted]

end Cursor

end LineCalc
