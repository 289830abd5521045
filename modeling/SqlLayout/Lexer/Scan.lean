import SqlLayout.Lexer.Basic
import SqlLayout.Text.Basic

/-!
# Cutting a text into tokens

At each place the first rule with a match of at least one character decides: it cuts a token, or
ends the scan if its kind is `unknown`. The scan also ends where no rule matches, and it fails where
a keyword was registered whose kind is still to be chosen. A strict scan fails unless it reaches the
end of the text.

Every token takes at least one character (`Lexer.next_shorter`), so a scan comes to an end.
-/

namespace SqlLayout

/-- Where the rule's best match ends, if it takes at least one character. -/
def Rule.end? (r : Rule) (c : Cursor) : Option Cursor :=
  (r.matcher.match? c).filter fun e => e.rest.length < c.rest.length

/-- The text between a place and a later one. -/
def Cursor.upTo (c e : Cursor) : Text := c.rest.take (c.rest.length - e.rest.length)

namespace Lexer

/-- What is found at a place of a text. -/
inductive Found where
  /-- A token, and the place after it. -/
  | token (t : Token) (e : Cursor)
  /-- No rule matches, or the first that does is of kind `unknown`. -/
  | nothing
  /-- The first rule that matches leads to a kind that no token can have. -/
  | unresolved
deriving Repr

/-- The first rule that applies at a place, and where its match ends. -/
def firstMatch? (rules : List Rule) (c : Cursor) : Option (Kind × Cursor) :=
  rules.findSome? fun r => (r.end? c).map (r.kind, ·)

/-- What the tables find at a place whose offset is given. -/
def next (lx : Lexer) (offset : Nat) (c : Cursor) : Found :=
  match firstMatch? lx.rules c with
  | none => .nothing
  | some (kind, e) =>
    if kind = .unknown then .nothing
    else
      match Token.make (lx.resolve kind (c.upTo e)) (c.upTo e) offset with
      | .ok t => .token t e
      | .error _ => .unresolved

theorem firstMatch?_shorter {rules : List Rule} {c e : Cursor} {kind : Kind}
    (h : firstMatch? rules c = some (kind, e)) : e.rest.length < c.rest.length := by
  obtain ⟨r, -, hr⟩ := List.exists_of_findSome?_eq_some h
  obtain ⟨e', he, heq⟩ := Option.map_eq_some_iff.1 hr
  obtain ⟨-, rfl⟩ := Prod.mk.inj heq
  simpa using (Option.filter_eq_some_iff.1 he).2

/-- A token takes at least one character. -/
theorem next_shorter {lx : Lexer} {offset : Nat} {c e : Cursor} {t : Token}
    (h : lx.next offset c = .token t e) : e.rest.length < c.rest.length := by
  rw [next] at h
  split at h
  · simp at h
  · next kind e' hm =>
    split at h
    · simp at h
    · split at h
      · obtain ⟨-, rfl⟩ := Found.token.inj h
        exact firstMatch?_shorter hm
      · simp at h

/-- How a scan came to its end. -/
inductive Ending where
  /-- The whole text is cut. -/
  | complete
  /-- Nothing is found at this offset. -/
  | noMatch (offset : Nat)
  /-- A keyword has a kind that no token can have. -/
  | unresolved
deriving DecidableEq, Repr

/-- The tokens of a text and how the scan ended. -/
structure Scan where
  tokens : List Token
  ending : Ending
deriving Repr

/-- Scans from a place whose offset is given. -/
def scanFrom (lx : Lexer) (offset : Nat) (c : Cursor) : Scan :=
  if c.rest.isEmpty then ⟨[], .complete⟩
  else
    match _h : lx.next offset c with
    | .nothing => ⟨[], .noMatch offset⟩
    | .unresolved => ⟨[], .unresolved⟩
    | .token t e =>
      let scan := scanFrom lx (offset + (c.upTo e).length) e
      ⟨t :: scan.tokens, scan.ending⟩
termination_by c.rest.length
decreasing_by exact next_shorter _h

/-- Scans a text. -/
def scan (lx : Lexer) (t : Text) : Scan := lx.scanFrom 0 (Cursor.start t)

end Lexer

/-! ## The tokens of a text -/

/-- Part of a text could not be cut. Line and column are counted from one. -/
structure TokenizeError where
  text : Text
  offset : Int
  line : Option Int := none
  column : Option Int := none
deriving DecidableEq, Repr

/-- The place in front of the text, as far as it is known; a column is given after its line only. -/
def TokenizeError.message (e : TokenizeError) : Text :=
  match e.line, e.column with
  | none, _ => e.text
  | some line, none => Text.ofInt line ++ ' ' :: e.text
  | some line, some column => Text.ofInt line ++ ':' :: Text.ofInt column ++ ' ' :: e.text

/-- The first character that a scan of the text left over. -/
def TokenizeError.at (t : Text) (offset : Nat) : TokenizeError where
  text := "cannot tokenize ".toList ++ Text.quoted ((t.drop offset).take 1)
  offset := offset
  line := some (Text.lineAt t offset : Nat)
  column := some (Text.columnAt t offset : Nat)

namespace Lexer

/-- Why a text has no tokens. -/
inductive Failure where
  | unresolved (e : UnresolvedKind)
  | incomplete (e : TokenizeError)
deriving DecidableEq, Repr

/-- The tokens of a text. Unless the scan is strict, it may stop before the end of the text. -/
def tokenize (lx : Lexer) (t : Text) (strict : Bool) : Except Failure (List Token) :=
  match lx.scan t with
  | ⟨_, .unresolved⟩ => .error (.unresolved {})
  | ⟨tokens, .complete⟩ => .ok tokens
  | ⟨tokens, .noMatch offset⟩ =>
    if strict then .error (.incomplete (.at t offset)) else .ok tokens

end Lexer

end SqlLayout
