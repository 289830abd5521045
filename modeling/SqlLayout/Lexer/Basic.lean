import SqlLayout.Pattern.Matcher
import SqlLayout.Token.Basic

/-!
# Lexers

A lexer has a table of rules, whose order is their priority, and a table of keywords in upper case,
in the order of their registration. The first registration of a word stands. A rule may be given as a
pattern or as any other matcher.
-/

namespace SqlLayout

/-- Texts that match are tokens of the kind. -/
structure Rule where
  matcher : Matcher
  kind : Kind

/-- The tables that a query is cut by. -/
structure Lexer where
  rules : List Rule
  keywords : List (Text × Kind)

namespace Lexer

/-- A lexer without rules and keywords. -/
def empty : Lexer := ⟨[], []⟩

/-- Adds a rule of the lowest priority. -/
def addRule (lx : Lexer) (matcher : Matcher) (kind : Kind) : Lexer :=
  { lx with rules := lx.rules ++ [⟨matcher, kind⟩] }

/-- The kind that a word is registered with, in any letter case. -/
def keywordKind? (lx : Lexer) (word : Text) : Option Kind := lx.keywords.lookup (Text.upper word)

/-- A word is registered, in any letter case. -/
def isKeyword (lx : Lexer) (word : Text) : Bool := (lx.keywordKind? word).isSome

/-- Registers a word, unless it is registered already. -/
def addKeyword (lx : Lexer) (word : Text) (kind : Kind) : Lexer :=
  if lx.isKeyword word then lx
  else { lx with keywords := lx.keywords ++ [(Text.upper word, kind)] }

/-- The kind of a token that a rule of the given kind cuts: a word that is left to the keyword
table is a name if it is not there. -/
def resolve (lx : Lexer) (kind : Kind) (value : Text) : Kind :=
  if kind = .useAsKeyword then (lx.keywordKind? value).getD .name else kind

end Lexer

end SqlLayout
