import SqlLayout.Text.Basic
import SqlLayout.Text.Decimal
import SqlLayout.Text.Printable
import SqlLayout.Text.Upper
import SqlLayout.Token.Kind

/-!
# Tokens

A token is a piece of a query with its kind and the place where it starts. Tokens are compared by
kind and text alone, so a piece equals the same piece elsewhere.
-/

namespace SqlLayout

/-- A classified piece of text. -/
structure Token where
  kind : Kind
  value : Text
  offset : Int := 0
deriving DecidableEq, Repr

/-- A token was asked for whose kind is still to be chosen. -/
structure UnresolvedKind where
deriving DecidableEq, Repr

/-- What a refused token is reported with. -/
def UnresolvedKind.message (_ : UnresolvedKind) : String :=
  "USE_AS_KEYWORD must be resolved before creating a Token"

namespace Token

/-- A token, unless its kind is still to be chosen. -/
def make (kind : Kind) (value : Text) (offset : Int) : Except UnresolvedKind Token :=
  if kind = .useAsKeyword then .error {} else .ok ⟨kind, value, offset⟩

/-- Two tokens have the same kind and text; where they stand does not count. -/
def same (t u : Token) : Bool := t.kind == u.kind && t.value == u.value

/-- The place just past a token. -/
def stop (t : Token) : Int := t.offset + t.value.length

/-- What keywords are compared by: upper case with single spaces. Other tokens keep their text. -/
def word (t : Token) : Text :=
  if t.kind.isKeyword then Text.upper (Text.collapse t.value) else t.value

/-- The longest text that a diagnostic shows whole. -/
def shownLength : Nat := 20

/-- A token in a diagnostic; a long text is cut short. -/
def diagnostic (t : Token) : Text :=
  let shown :=
    if t.value.length > shownLength then t.value.take (shownLength - 3) ++ "...".toList
    else t.value
  "Token(".toList ++ t.kind.constant.toList ++ ", ".toList ++ Text.quoted shown ++
    ", @".toList ++ Text.ofInt t.offset ++ ")".toList

/-- The token is a keyword and reads so. -/
def isWord (t : Token) (w : String) : Bool := t.kind.isKeyword && t.word == w.toList

/-- The token is this punctuation mark. -/
def isMark (t : Token) (c : Char) : Bool := t.kind == .punctuation && t.value == [c]

end Token

end SqlLayout
