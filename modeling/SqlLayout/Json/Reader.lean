import SqlLayout.Json.Basic
import SqlLayout.Text.Basic

/-!
# Reading JSON

A reader takes a production off the front of a text and gives the rest, or a fault and the text from
the place of the fault on. Beside the standard's values it takes `NaN`, `Infinity` and `-Infinity`.
The document is to hold one value and nothing but white space around it.
-/

namespace SqlLayout.Json

/-- What is wrong with a document. -/
inductive Fault where
  | byteOrderMark
  | valueExpected
  | nameExpected
  | colonExpected
  | commaExpected
  | unclosedString
  | controlCharacter
  | unknownEscape
  | badCode
  | extraData
  /-- A whole number has more digits than can be read. -/
  | tooManyDigits (count : Nat)
deriving DecidableEq, Repr

/-- A fault, with the text from its place on. -/
structure Stop where
  fault : Fault
  rest : Text
deriving DecidableEq, Repr

/-- The answer of a reader: a result and the text that follows it. -/
abbrev Reading (α : Type) := Except Stop (α × Text)

/-- Drops white space. -/
def skip (t : Text) : Text := t.dropWhile fun c => c == ' ' || c == '\t' || c == '\n' || c == '\r'

/-! ## Strings -/

/-- The value of a hexadecimal digit. -/
def hexDigit? (c : Char) : Option Nat :=
  if '0' ≤ c ∧ c ≤ '9' then some (c.toNat - '0'.toNat)
  else if 'a' ≤ c ∧ c ≤ 'f' then some (c.toNat - 'a'.toNat + 10)
  else if 'A' ≤ c ∧ c ≤ 'F' then some (c.toNat - 'A'.toNat + 10)
  else none

/-- The code that four hexadecimal digits give. -/
def hexCode? (a b c d : Char) : Option Nat := do
  let a ← hexDigit? a
  let b ← hexDigit? b
  let c ← hexDigit? c
  let d ← hexDigit? d
  return ((a * 16 + b) * 16 + c) * 16 + d

/-- The character that stands after a backslash for another one. -/
def unescaped? : Char → Option Char
  | '"' => some '"'
  | '\\' => some '\\'
  | '/' => some '/'
  | 'b' => some '\x08'
  | 'f' => some '\x0c'
  | 'n' => some '\n'
  | 'r' => some '\r'
  | 't' => some '\t'
  | _ => none

/-- The first half of a pair of codes. -/
def isHighHalf (n : Nat) : Bool := 0xd800 ≤ n && n < 0xdc00

/-- The second half of a pair of codes. -/
def isLowHalf (n : Nat) : Bool := 0xdc00 ≤ n && n < 0xe000

/-- The character of a code by itself. Half a pair is no character, so the replacement character
stands for it, where a reader of code units might keep the half. -/
def charOfCode (n : Nat) : Char :=
  if isHighHalf n || isLowHalf n then '\ufffd' else Char.ofNat n

/-- The character of a pair of codes. -/
def charOfPair (high low : Nat) : Char :=
  Char.ofNat (0x10000 + (high - 0xd800) * 0x400 + (low - 0xdc00))

/-- Reads a string after its opening quote. `start` is the text from that quote on, and `read` what
was read so far, the latest in front. A code in digits is to be followed by one more character, and
two codes are taken together only if another character follows both. -/
def readString (start read : Text) : Text → Reading Text
  | [] => .error ⟨.unclosedString, start⟩
  | '"' :: rest => .ok (read.reverse, rest)
  | ['\\'] => .error ⟨.unclosedString, start⟩
  | '\\' :: 'u' :: a :: b :: c :: d :: rest =>
    match if rest.isEmpty then none else hexCode? a b c d with
    | none => .error ⟨.badCode, 'u' :: a :: b :: c :: d :: rest⟩
    | some high =>
      match rest with
      | '\\' :: 'u' :: e :: f :: g :: h :: x :: rest =>
        if isHighHalf high then
          match hexCode? e f g h with
          | none => .error ⟨.badCode, 'u' :: e :: f :: g :: h :: x :: rest⟩
          | some low =>
            if isLowHalf low then readString start (charOfPair high low :: read) (x :: rest)
            else
              readString start (charOfCode high :: read)
                ('\\' :: 'u' :: e :: f :: g :: h :: x :: rest)
        else
          readString start (charOfCode high :: read) ('\\' :: 'u' :: e :: f :: g :: h :: x :: rest)
      | rest => readString start (charOfCode high :: read) rest
  | '\\' :: 'u' :: rest => .error ⟨.badCode, 'u' :: rest⟩
  | '\\' :: c :: rest =>
    match unescaped? c with
    | some c => readString start (c :: read) rest
    | none => .error ⟨.unknownEscape, '\\' :: c :: rest⟩
  | c :: rest =>
    if c.toNat < 0x20 then .error ⟨.controlCharacter, c :: rest⟩
    else readString start (c :: read) rest

/-! ## Numbers -/

/-- Splits off the decimal digits at the front. -/
def digits (t : Text) : Text × Text := t.span fun c => '0' ≤ c && c ≤ '9'

/-- The number that decimal digits give. -/
def valueOf (ds : Text) : Nat := ds.foldl (fun n c => n * 10 + (c.toNat - '0'.toNat)) 0

/-- The digits after a decimal point, if there are any. -/
def fraction? : Text → Option (Text × Text)
  | '.' :: rest =>
    match digits rest with
    | ([], _) => none
    | ds => some ds
  | _ => none

/-- The exponent of a number, if there is one. -/
def exponent? : Text → Option (Int × Text)
  | 'e' :: rest | 'E' :: rest =>
    let (negative, rest) :=
      match rest with
      | '-' :: rest => (true, rest)
      | '+' :: rest => (false, rest)
      | rest => (false, rest)
    match digits rest with
    | ([], _) => none
    | (ds, rest) => some (if negative then -Int.ofNat (valueOf ds) else Int.ofNat (valueOf ds), rest)
  | _ => none

/-- Reads a number after its sign. `start` is the text from the sign on. -/
def readUnsigned (negative : Bool) (start t : Text) : Reading Json :=
  let (whole, rest) :=
    match t with
    | '0' :: rest => (['0'], rest)
    | t => digits t
  if whole.isEmpty then .error ⟨.valueExpected, start⟩
  else
    let (places, rest') := (fraction? rest).getD ([], rest)
    let (power, rest'') := (exponent? rest').getD (0, rest')
    if places.isEmpty && (exponent? rest').isNone then
      if Text.maxDigits < whole.length then .error ⟨.tooManyDigits whole.length, start⟩
      else
        let n := Int.ofNat (valueOf whole)
        .ok (.int (if negative then -n else n), rest)
    else
      .ok (.float (.ofDecimal negative (valueOf (whole ++ places)) (power - places.length)), rest'')

/-- Reads a number. -/
def readNumber : Text → Reading Json
  | '-' :: rest => readUnsigned true ('-' :: rest) rest
  | t => readUnsigned false t t

/-- Reads a value that holds no others and is no string. -/
def readScalar : Text → Reading Json
  | 'n' :: 'u' :: 'l' :: 'l' :: rest => .ok (.null, rest)
  | 't' :: 'r' :: 'u' :: 'e' :: rest => .ok (.bool true, rest)
  | 'f' :: 'a' :: 'l' :: 's' :: 'e' :: rest => .ok (.bool false, rest)
  | 'N' :: 'a' :: 'N' :: rest => .ok (.float .nan, rest)
  | 'I' :: 'n' :: 'f' :: 'i' :: 'n' :: 'i' :: 't' :: 'y' :: rest =>
    .ok (.float (.infinite false), rest)
  | '-' :: 'I' :: 'n' :: 'f' :: 'i' :: 'n' :: 'i' :: 't' :: 'y' :: rest =>
    .ok (.float (.infinite true), rest)
  | t => readNumber t

/-! ## Values -/

/-- Reads the key of a member and the colon after it, with the white space around them. -/
def readKey : Text → Reading Text
  | '"' :: rest =>
    match readString ('"' :: rest) [] rest with
    | .error e => .error e
    | .ok (key, rest) =>
      match skip rest with
      | ':' :: rest => .ok (key, skip rest)
      | rest => .error ⟨.colonExpected, rest⟩
  | t => .error ⟨.nameExpected, t⟩

mutual

/-- Reads a value from its first character on. A value takes a step for itself and one for each
item, so two steps for each character suffice. -/
def readValue : Nat → Text → Reading Json
  | 0, t => .error ⟨.valueExpected, t⟩
  | n + 1, t =>
    match t with
    | '"' :: rest => (readString t [] rest).map fun (s, rest) => (.string s, rest)
    | '[' :: rest =>
      match skip rest with
      | ']' :: rest => .ok (.array [], rest)
      | rest => readItems n [] rest
    | '\x7b' :: rest =>
      match skip rest with
      | '\x7d' :: rest => .ok (.object [], rest)
      | rest => readMembers n [] rest
    | t => readScalar t

/-- Reads the items of an array up to its end; `items` are those before, the latest in front. -/
def readItems : Nat → List Json → Text → Reading Json
  | 0, _, t => .error ⟨.valueExpected, t⟩
  | n + 1, items, t =>
    match readValue n t with
    | .error e => .error e
    | .ok (v, rest) =>
      match skip rest with
      | ']' :: rest => .ok (.array (v :: items).reverse, rest)
      | ',' :: rest => readItems n (v :: items) (skip rest)
      | rest => .error ⟨.commaExpected, rest⟩

/-- Reads the members of an object up to its end; `members` are those before. -/
def readMembers : Nat → List (Text × Json) → Text → Reading Json
  | 0, _, t => .error ⟨.valueExpected, t⟩
  | n + 1, members, t =>
    match readKey t with
    | .error e => .error e
    | .ok (key, rest) =>
      match readValue n rest with
      | .error e => .error e
      | .ok (v, rest) =>
        match skip rest with
        | '\x7d' :: rest => .ok (.object (put key v members), rest)
        | ',' :: rest => readMembers n (put key v members) (skip rest)
        | rest => .error ⟨.commaExpected, rest⟩

end

/-- Reads a document. -/
def read (t : Text) : Except Stop Json :=
  if t.head? = some '\ufeff' then .error ⟨.byteOrderMark, t⟩
  else
    match readValue (2 * t.length + 2) (skip t) with
    | .error e => .error e
    | .ok (v, rest) => if (skip rest).isEmpty then .ok v else .error ⟨.extraData, skip rest⟩

/-! ## Messages -/

/-- What a fault is reported as. -/
def Fault.text : Fault → String
  | .byteOrderMark => "Unexpected UTF-8 BOM (decode using utf-8-sig)"
  | .valueExpected => "Expecting value"
  | .nameExpected => "Expecting property name enclosed in double quotes"
  | .colonExpected => "Expecting ':' delimiter"
  | .commaExpected => "Expecting ',' delimiter"
  | .unclosedString => "Unterminated string starting at"
  | .controlCharacter => "Invalid control character at"
  | .unknownEscape => "Invalid \\escape"
  | .badCode => "Invalid \\uXXXX escape"
  | .extraData => "Extra data"
  | .tooManyDigits _ => "Too many digits"

/-- The offset of a fault in its document. -/
def Stop.offset (s : Stop) (document : Text) : Nat := document.length - s.rest.length

/-- A fault and its place: line and column counted from one, and the offset. -/
def Stop.message (s : Stop) (document : Text) : Text :=
  let offset := s.offset document
  s.fault.text.toList ++ ": line ".toList ++ Text.ofNat (Text.lineAt document offset) ++
    " column ".toList ++ Text.ofNat (Text.columnAt document offset) ++ " (char ".toList ++
    Text.ofNat offset ++ ")".toList

end SqlLayout.Json
