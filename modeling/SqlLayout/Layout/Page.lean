import SqlLayout.Token.Basic

/-!
# The page being written

Text is put on a page that only grows. A page knows whether the current line has content, whether a
space is owed before the next text, and which of the open parentheses indent. A fresh line begins
with two spaces for each of those; elsewhere an owed space is written.
-/

namespace SqlLayout

/-! ## Text that grows at its end -/

/-- A text under construction, kept from its end, with its length. -/
structure Buffer where
  reversed : Text := []
  length : Nat := 0
deriving DecidableEq, Repr

namespace Buffer

/-- Adds a text at the end. -/
def append (b : Buffer) (t : Text) : Buffer := ⟨t.reverseAux b.reversed, b.length + t.length⟩

/-- Adds a text several times; a count below zero adds nothing. -/
def appendRepeated (b : Buffer) (t : Text) (count : Int) : Buffer :=
  b.append (List.replicate count.toNat t).flatten

/-- The text so far. -/
def toText (b : Buffer) : Text := b.reversed.reverse

/-- There is some text. -/
def isFilled (b : Buffer) : Bool := b.length != 0

@[simp] theorem toText_empty : ({} : Buffer).toText = [] := rfl

@[simp] theorem toText_append (b : Buffer) (t : Text) : (b.append t).toText = b.toText ++ t := by
  simp [append, toText, List.reverseAux_eq]

@[simp] theorem length_append (b : Buffer) (t : Text) :
    (b.append t).length = b.length + t.length := rfl

@[simp] theorem toText_appendRepeated (b : Buffer) (t : Text) (count : Int) :
    (b.appendRepeated t count).toText = b.toText ++ (List.replicate count.toNat t).flatten := by
  rw [appendRepeated, toText_append]

end Buffer

/-! ## Lines and indentation -/

/-- What one level of indentation is written as. -/
def indentUnit : Text := "  ".toList

/-- The state of a page. -/
structure Page where
  /-- One flag for each open parenthesis, the innermost first: whether it indents. -/
  levels : List Bool := []
  /-- Something other than indentation stands on the current line. -/
  lineHasContent : Bool := false
  /-- A space is owed before the next text. -/
  pendingSpace : Bool := false
  out : Buffer := {}
deriving DecidableEq, Repr

namespace Page

/-- The number of open parentheses that indent. -/
def indentLevel (p : Page) : Nat := p.levels.count true

/-- Opens a level. -/
def push (p : Page) (indents : Bool) : Page := { p with levels := indents :: p.levels }

/-- Closes the innermost level, if there is one. -/
def pop (p : Page) : Page := { p with levels := p.levels.tail }

/-- Owes a space. -/
def space (p : Page) : Page := { p with pendingSpace := true }

/-- The text ends a line. -/
def endsLine (t : Text) : Bool := t.getLast?.any fun c => c == '\n' || c == '\r'

/-- Writes a text, after the indentation of a fresh line or an owed space. -/
def write (p : Page) (t : Text) : Page :=
  let out :=
    if !p.lineHasContent then p.out.appendRepeated indentUnit p.indentLevel
    else if p.pendingSpace then p.out.append [' ']
    else p.out
  { p with out := out.append t, pendingSpace := false, lineHasContent := !endsLine t }

/-- Ends the current line unless nothing stands on it. -/
def lineBreak (p : Page) : Page :=
  if p.lineHasContent then
    { p with out := p.out.append ['\n'], lineHasContent := false, pendingSpace := false }
  else { p with pendingSpace := false }

end Page

end SqlLayout
