import SqlLayout.Text.Basic
import SqlLayout.Text.CaseVariants
import SqlLayout.Text.Word

/-!
# Sets of characters

The unit of a pattern is a test on one character. A set lists characters, ranges and named classes,
may be turned around, and may disregard case.

A set that disregards case and has a single character for its only entry holds all characters that
agree with it up to case. Among several entries this is so for the first 65536 code points. Beyond
them the lower form of the tested character counts: a listed character has to be that form, and a
range has to hold it or its upper form.
-/

namespace SqlLayout

/-- The named classes of characters. -/
inductive CharClass where
  | word
  | digit
  | blank
deriving DecidableEq, Repr

/-- Whether a character is of a class. -/
def CharClass.holds : CharClass → Char → Bool
  | .word => Text.isWord
  | .digit => Text.isDigit
  | .blank => Text.isBlank

/-- One entry of a set. -/
inductive CharSet.Member where
  | char (c : Char)
  | range (first last : Char)
  | within (k : CharClass)
  | outside (k : CharClass)
deriving DecidableEq, Repr

/-- A set of characters. -/
structure CharSet where
  members : List CharSet.Member
  negated : Bool := false
  ignoreCase : Bool := false
deriving DecidableEq, Repr

namespace CharSet

/-- The character is among the first 65536 code points. -/
def isLow (c : Char) : Bool := c.toNat < 0x10000

/-- The character lies in a range. -/
def inRange (first last c : Char) : Bool := first ≤ c && c ≤ last

/-- Whether an entry of a set names the character. -/
def Member.names (c : Char) : Member → Bool
  | .char d => c == d
  | .range first last => inRange first last c
  | .within k => k.holds c
  | .outside k => !k.holds c

/-- Whether one of several entries names the character, in either case. -/
def Member.namesEitherCase (c : Char) : Member → Bool
  | .char d => if isLow d then Text.agreeUpToCase c d else Text.lowerForm c == d
  | .range first last =>
    let lower := Text.lowerForm c
    (Text.caseVariants c).any (fun d => isLow d && inRange first last d) ||
      !isLow last && (inRange first last lower || inRange first last (Text.upperForm lower))
  | .within k => k.holds c
  | .outside k => !k.holds c

/-- Whether the entries of a set name the character. -/
def lists (s : CharSet) (c : Char) : Bool :=
  if s.ignoreCase then
    match s.members with
    | [.char d] => Text.agreeUpToCase c d
    | members => members.any (·.namesEitherCase c)
  else s.members.any (·.names c)

/-- Whether the set holds the character. -/
def contains (s : CharSet) (c : Char) : Bool := s.lists c != s.negated

/-- The set of the listed characters. -/
def ofChars (cs : List Char) : CharSet := { members := cs.map .char }

/-- The set of one class. -/
def ofClass (k : CharClass) : CharSet := { members := [.within k] }

/-- All characters that the set does not hold. -/
def complement (s : CharSet) : CharSet := { s with negated := !s.negated }

/-- The members of both sets; for sets that are not turned around and treat case alike. -/
def union (s t : CharSet) : CharSet := { s with members := s.members ++ t.members }

theorem contains_complement (s : CharSet) (c : Char) :
    s.complement.contains c = !s.contains c := by
  have h : s.complement.lists c = s.lists c := rfl
  rw [contains, contains, h, complement]
  cases s.lists c <;> cases s.negated <;> rfl

end CharSet

end SqlLayout
