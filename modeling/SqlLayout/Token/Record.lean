import SqlLayout.Json.Reader
import SqlLayout.Json.Writer
import SqlLayout.Token.Basic

/-!
# Token records

Tokens are exchanged as records of a type, which is the label of the kind, and a value, which is the
text. Where a token stood is not kept. A document of tokens is an array of records; its items are
first checked to be records at all, and then read from left to right.
-/

namespace SqlLayout

/-- Why a document or a record gives no tokens. -/
inductive RecordError where
  /-- The document is not JSON. -/
  | malformed (document : Text) (stop : Json.Stop)
  /-- The document holds a whole number that is too long to be read. -/
  | tooManyDigits (count : Nat)
  | notArray
  | notRecord (item : Json)
  | missing (field : Text) (members : List (Text × Json))
  | notText (members : List (Text × Json))
  | unknownLabel (label : Text)
  /-- The label names the kind that no token can have. -/
  | unresolvedLabel (label : Text)
deriving Repr

/-- What a refused document or record is reported with. -/
def RecordError.message : RecordError → Text
  | .malformed document stop => "invalid JSON: ".toList ++ stop.message document
  | .tooManyDigits count => Text.tooManyDigitsMessage count
  | .notArray => "expected a JSON array of token records".toList
  | .notRecord item => "expected a token record, got ".toList ++ item.diagnostic
  | .missing field members =>
    "token record is missing ".toList ++ Text.quoted field ++ ": ".toList ++
      (Json.object members).diagnostic
  | .notText members =>
    "token record fields must be strings: ".toList ++ (Json.object members).diagnostic
  | .unknownLabel label => "unknown token type ".toList ++ Text.quoted label
  | .unresolvedLabel label =>
    "token type ".toList ++ Text.quoted label ++ " cannot be serialized".toList

namespace Token

/-- The record of a token. -/
def toRecord (t : Token) : Json :=
  .object [("type".toList, .string t.kind.label), ("value".toList, .string t.value)]

/-- The tokens that are not comments, or all of them. -/
def withoutComments (remove : Bool) (ts : List Token) : List Token :=
  ts.filter fun t => !(remove && t.kind == .comment)

/-- A document of tokens. -/
def toDocument (style : Json.Style) (ts : List Token) : Text :=
  Json.write style (.array (ts.map toRecord))

/-- A member that a record has to have. -/
def field (name : String) (members : List (Text × Json)) : Except RecordError Json :=
  match Json.member? name.toList members with
  | some v => .ok v
  | none => .error (.missing name.toList members)

/-- The token of a record. -/
def ofRecord (members : List (Text × Json)) : Except RecordError Token := do
  let label ← field "type" members
  let value ← field "value" members
  match label, value with
  | .string label, .string value =>
    match Kind.ofLabel? label with
    | none => .error (.unknownLabel label)
    | some kind =>
      match make kind value 0 with
      | .ok t => .ok t
      | .error _ => .error (.unresolvedLabel label)
  | _, _ => .error (.notText members)

/-- The members of an item that is to be a record. -/
def recordMembers : Json → Except RecordError (List (Text × Json))
  | .object members => .ok members
  | item => .error (.notRecord item)

/-- The tokens of a document. -/
def ofDocument (document : Text) : Except RecordError (List Token) :=
  match Json.read document with
  | .error ⟨.tooManyDigits count, _⟩ => .error (.tooManyDigits count)
  | .error stop => .error (.malformed document stop)
  | .ok (.array items) => do
    let records ← items.mapM recordMembers
    records.mapM ofRecord
  | .ok _ => .error .notArray

end Token

end SqlLayout
