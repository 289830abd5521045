import SqlLayout.Text.Lower

/-!
# Kinds of tokens

A kind has three spellings: a title for listings (`KeywordCTE`), a label for records, which is the
title in lower case, and a constant for diagnostics (`KEYWORD_CTE`). A label is recognised in any
letter case.
-/

namespace SqlLayout

/-- What a piece of a query is. Two kinds serve rules alone: `unknown` ends the scan, and
`useAsKeyword` leaves the choice to the keyword table. -/
inductive Kind where
  | unknown
  | whitespace
  | newline
  | keyword
  | keywordCte
  | operator
  | useAsKeyword
  | punctuation
  | name
  | wildcard
  | numberInteger
  | numberFloat
  | string
  | comment
deriving DecidableEq, Repr

namespace Kind

/-- Every kind once. -/
def values : List Kind :=
  [unknown, whitespace, newline, keyword, keywordCte, operator, useAsKeyword, punctuation, name,
    wildcard, numberInteger, numberFloat, string, comment]

/-- The name shown in listings. -/
def title : Kind → String
  | unknown => "Unknown"
  | whitespace => "Whitespace"
  | newline => "Newline"
  | keyword => "Keyword"
  | keywordCte => "KeywordCTE"
  | operator => "Operator"
  | useAsKeyword => "UseAsKeyword"
  | punctuation => "Punctuation"
  | name => "Name"
  | wildcard => "Wildcard"
  | numberInteger => "NumberInteger"
  | numberFloat => "NumberFloat"
  | string => "String"
  | comment => "Comment"

/-- The name shown in diagnostics. -/
def constant : Kind → String
  | unknown => "UNKNOWN"
  | whitespace => "WHITESPACE"
  | newline => "NEWLINE"
  | keyword => "KEYWORD"
  | keywordCte => "KEYWORD_CTE"
  | operator => "OPERATOR"
  | useAsKeyword => "USE_AS_KEYWORD"
  | punctuation => "PUNCTUATION"
  | name => "NAME"
  | wildcard => "WILDCARD"
  | numberInteger => "NUMBER_INTEGER"
  | numberFloat => "NUMBER_FLOAT"
  | string => "STRING"
  | comment => "COMMENT"

/-- The name written in records. -/
def label (k : Kind) : Text := Text.lower k.title.toList

/-- The kind that a label names, in any letter case. -/
def ofLabel? (t : Text) : Option Kind := values.find? fun k => k.label == Text.lower t

/-- Keywords of either sort. -/
def isKeyword (k : Kind) : Bool := k == keyword || k == keywordCte

/-- White space within a line or at its end. -/
def isBlank (k : Kind) : Bool := k == whitespace || k == newline

theorem mem_values (k : Kind) : k ∈ values := by cases k <;> decide

end Kind

end SqlLayout
