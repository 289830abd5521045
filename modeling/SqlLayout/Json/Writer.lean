import SqlLayout.Json.Basic

/-!
# Writing JSON

A document is written on one line without blanks, or with each item and member on a line of its own.
Strings escape the quote, the backslash and the control characters below the space; all other
characters stand for themselves.
-/

namespace SqlLayout.Json

/-- How a document is laid out. -/
inductive Style where
  /-- On one line, without blanks. -/
  | compact
  /-- On lines of their own, each level that many spaces deeper. -/
  | indented (width : Nat)
deriving DecidableEq, Repr

/-- The layout for a requested indentation; less than no indentation is none. -/
def Style.ofIndent : Option Int → Style
  | none => .compact
  | some width => .indented width.toNat

/-- What stands before an item at a depth. -/
def Style.break (depth : Nat) : Style → Text
  | .compact => []
  | .indented width => '\n' :: List.replicate (depth * width) ' '

/-- What stands between a key and its value. -/
def Style.colon : Style → Text
  | .compact => ":".toList
  | .indented _ => ": ".toList

/-- One character of a string. -/
def escaped (c : Char) : Text :=
  if c = '"' then "\\\"".toList
  else if c = '\\' then "\\\\".toList
  else if c = '\n' then "\\n".toList
  else if c = '\r' then "\\r".toList
  else if c = '\t' then "\\t".toList
  else if c = '\x08' then "\\b".toList
  else if c = '\x0c' then "\\f".toList
  else if c.toNat < 0x20 then "\\u".toList ++ Text.hexCode 4 c.toNat
  else [c]

/-- A string between quotes. -/
def writeString (t : Text) : Text := '"' :: t.flatMap escaped ++ ['"']

/-- Written items between brackets; no items leave the brackets empty. -/
def bracketed (style : Style) (depth : Nat) (opening closing : Char) (items : List Text) : Text :=
  match items with
  | [] => [opening, closing]
  | items =>
    opening :: style.break (depth + 1) ++ joined (',' :: style.break (depth + 1)) items ++
      style.break depth ++ [closing]

mutual

/-- Writes a value at a depth. -/
def writeAt (style : Style) (depth : Nat) : Json → Text
  | .null => "null".toList
  | .bool true => "true".toList
  | .bool false => "false".toList
  | .int n => Text.ofInt n
  | .float .nan => "NaN".toList
  | .float (.infinite false) => "Infinity".toList
  | .float (.infinite true) => "-Infinity".toList
  | .float x => x.toText
  | .string t => writeString t
  | .array items => bracketed style depth '[' ']' (writeItems style (depth + 1) items)
  | .object members =>
    bracketed style depth '\x7b' '\x7d' (writeMembers style (depth + 1) members)

/-- Writes the items of an array. -/
def writeItems (style : Style) (depth : Nat) : List Json → List Text
  | [] => []
  | v :: rest => writeAt style depth v :: writeItems style depth rest

/-- Writes the members of an object. -/
def writeMembers (style : Style) (depth : Nat) : List (Text × Json) → List Text
  | [] => []
  | (k, v) :: rest =>
    (writeString k ++ style.colon ++ writeAt style depth v) :: writeMembers style depth rest

end

/-- Writes a document. -/
def write (style : Style) (v : Json) : Text := writeAt style 0 v

end SqlLayout.Json
