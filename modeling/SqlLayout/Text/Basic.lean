import SqlLayout.Text.Ranges

/-!
# Characters and places

What the rest of the program asks of a character and of a place in a text. The blanks are the white
space of every script together with the four ASCII separators U+001C to U+001F. Decimal digits stand
in blocks of ten neighbours in the order of their values, so a table lists the zeros alone and a
digit's value is its distance from the zero below it. Letter case is given by runs of characters
that shift by one distance, and by the few characters that grow to several. A line feed ends a line
and is the last column of it. Texts are ordered like words in a dictionary.
-/

namespace SqlLayout.Text

/-! ## Blanks -/

/-- All blank characters, from low to high. -/
def blankRanges : Ranges := [
  (0x9, 0xd), (0x1c, 0x20), (0x85, 0x85), (0xa0, 0xa0), (0x1680, 0x1680),
  (0x2000, 0x200a), (0x2028, 0x2029), (0x202f, 0x202f), (0x205f, 0x205f), (0x3000, 0x3000)]

/-- A blank character: white space or an ASCII separator. -/
def isBlank (c : Char) : Bool := blankRanges.covers c.toNat

/-- The maximal runs of characters that are not blank. -/
def words (t : Text) : List Text := (t.splitOnP isBlank).filter (!·.isEmpty)

/-- The words with one space between neighbours: blank runs shrink, and none is left at an end. -/
def collapse (t : Text) : Text := [' '].intercalate (words t)

/-! ## Decimal digits -/

/-- The zero of each block of ten decimal digits, from low to high. -/
def digitZeros : List Nat := [
  0x30, 0x660, 0x6f0, 0x7c0, 0x966, 0x9e6, 0xa66, 0xae6, 0xb66, 0xbe6,
  0xc66, 0xce6, 0xd66, 0xde6, 0xe50, 0xed0, 0xf20, 0x1040, 0x1090, 0x17e0,
  0x1810, 0x1946, 0x19d0, 0x1a80, 0x1a90, 0x1b50, 0x1bb0, 0x1c40, 0x1c50, 0xa620,
  0xa8d0, 0xa900, 0xa9d0, 0xa9f0, 0xaa50, 0xabf0, 0xff10, 0x104a0, 0x10d30, 0x11066,
  0x110f0, 0x11136, 0x111d0, 0x112f0, 0x11450, 0x114d0, 0x11650, 0x116c0, 0x11730, 0x118e0,
  0x11950, 0x11c50, 0x11d50, 0x11da0, 0x16a60, 0x16ac0, 0x16b50, 0x1d7ce, 0x1d7d8, 0x1d7e2,
  0x1d7ec, 0x1d7f6, 0x1e140, 0x1e2f0, 0x1e950, 0x1fbf0]

/-- The value of a code point as a decimal digit, looked up among the given zeros. -/
def digitValueFrom : List Nat → Nat → Option Nat
  | [], _ => none
  | z :: rest, n =>
    if n < z then none else if n < z + 10 then some (n - z) else digitValueFrom rest n

/-- The value of a decimal digit of any script. -/
def digitValue? (c : Char) : Option Nat := digitValueFrom digitZeros c.toNat

/-- A decimal digit of any script. -/
def isDigit (c : Char) : Bool := (digitValue? c).isSome

/-! ## Tables of letter case -/

/-- The code points `first`, `first + stride`, … up to `last`, each mapped `shift` away. -/
structure CaseRun where
  first : Nat
  last : Nat
  stride : Nat
  shift : Int
deriving DecidableEq, Repr

/-- The run maps this code point. -/
def CaseRun.moves (r : CaseRun) (n : Nat) : Bool :=
  r.first ≤ n && n ≤ r.last && (n - r.first) % r.stride == 0

/-- Maps a code point by runs that are listed from low to high; all others stay. -/
def shiftCase : List CaseRun → Nat → Nat
  | [], n => n
  | r :: rest, n =>
    if n < r.first then n else if r.moves n then (n + r.shift).toNat else shiftCase rest n

/-- Maps a character: to its expansion if it has one, else by the runs. -/
def mapCase (runs : List CaseRun) (expansions : List (Nat × List Nat)) (c : Char) : List Char :=
  match expansions.lookup c.toNat with
  | some codes => codes.map Char.ofNat
  | none => [Char.ofNat (shiftCase runs c.toNat)]

/-! ## Lines and columns -/

/-- The line of the character at an offset, counted from one. -/
def lineAt (t : Text) (offset : Nat) : Nat := (t.take offset).count '\n' + 1

/-- The column of the character at an offset, counted from one. -/
def columnAt (t : Text) (offset : Nat) : Nat :=
  ((t.take offset).reverse.takeWhile (· != '\n')).length + 1

/-! ## Order -/

/-- A text comes before another one or is the same: character by character, by code point, and a
text before those that it begins. -/
def precedes : Text → Text → Bool
  | [], _ => true
  | _ :: _, [] => false
  | a :: s, b :: t => a.toNat < b.toNat || (a == b && precedes s t)

end SqlLayout.Text
