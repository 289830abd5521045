import SqlLayout.Text.Basic

/-!
# Whole numbers as text

Numbers are written in decimal digits. A reader of numbers is more lenient than the writer: it takes
the digits of any script, a sign, single underscores between digits, and blanks around the whole,
but no more than `maxDigits` digits.
-/

namespace SqlLayout.Text

/-- The decimal digits of a number. -/
def ofNat (n : Nat) : Text := Nat.toDigits 10 n

/-- A whole number in decimal digits, with a minus sign if it is negative. -/
def ofInt : Int → Text
  | .ofNat n => ofNat n
  | .negSucc n => '-' :: ofNat (n + 1)

/-- The most digits that a number may have to be read. -/
def maxDigits : Nat := 4300

/-- What a number of too many digits is refused with. -/
def tooManyDigitsMessage (count : Nat) : Text :=
  "Exceeds the limit (".toList ++ ofNat maxDigits ++
    " digits) for integer string conversion: value has ".toList ++ ofNat count ++
    " digits; use sys.set_int_max_str_digits() to increase the limit".toList

/-- Reads digits with single underscores between them: the values of the digits, latest first.
`between` says that an underscore may stand here. -/
def digitValues (between : Bool) (values : List Nat) : Text → Option (List Nat)
  | [] => if between then some values else none
  | c :: rest =>
    if c = '_' then if between then digitValues false values rest else none
    else
      match digitValue? c with
      | some d => digitValues true (d :: values) rest
      | none => none

/-- The number whose digits, lowest first, have the given values. -/
def valueOfDigits (values : List Nat) : Nat := values.foldr (fun d n => n * 10 + d) 0

/-- Reads a number without a sign. -/
def toNat? (t : Text) : Option Nat :=
  match digitValues false [] t with
  | some values => if values.length ≤ maxDigits then some (valueOfDigits values) else none
  | none => none

/-- The blanks that may surround a number: all but the four separators U+001C to U+001F. -/
def isPadding (c : Char) : Bool := isBlank c && !(0x1c ≤ c.toNat && c.toNat ≤ 0x1f)

/-- Reads a whole number with blanks around it and a sign before it. -/
def toInt? (t : Text) : Option Int :=
  match ((t.dropWhile isPadding).reverse.dropWhile isPadding).reverse with
  | '+' :: rest => (toNat? rest).map Int.ofNat
  | '-' :: rest => (toNat? rest).map fun n => -Int.ofNat n
  | rest => (toNat? rest).map Int.ofNat

end SqlLayout.Text
