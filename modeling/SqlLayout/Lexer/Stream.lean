import SqlLayout.Lexer.Scan

/-!
# Tokens on demand

A stream gives the tokens of a text one at a time. It reads the tables at each token, so rules and
keywords that are registered in between count from then on. Once a stream has ended, whether at the
end of the text, where nothing is found, or at a token that cannot be made, it stays ended.
-/

namespace SqlLayout.Lexer

/-- A text that is being cut: the place of the next token and its offset, unless the stream has
ended. -/
structure Stream where
  place : Option (Nat × Cursor)
deriving DecidableEq, Repr

/-- What a stream gives when it is asked for a token. -/
inductive Pulled where
  | token (t : Token)
  | nothing
  | unresolved
deriving DecidableEq, Repr

namespace Stream

/-- A stream at the start of its text. -/
def start (t : Text) : Stream := ⟨some (0, Cursor.start t)⟩

/-- A stream that gives no more tokens. -/
def ended : Stream := ⟨none⟩

/-- Asks for the next token under the present tables. -/
def pull (lx : Lexer) (s : Stream) : Pulled × Stream :=
  match s.place with
  | none => (.nothing, ended)
  | some (offset, c) =>
    if c.rest.isEmpty then (.nothing, ended)
    else
      match lx.next offset c with
      | .nothing => (.nothing, ended)
      | .unresolved => (.unresolved, ended)
      | .token t e => (.token t, ⟨some (offset + (c.upTo e).length, e)⟩)

/-- Asks for some tokens at once. If one of them cannot be made, that is the answer. -/
def take (lx : Lexer) : Nat → Stream → Except UnresolvedKind (List Token) × Stream
  | 0, s => (.ok [], s)
  | n + 1, s =>
    match pull lx s with
    | (.nothing, s) => (.ok [], s)
    | (.unresolved, s) => (.error {}, s)
    | (.token t, s) =>
      let (more, s) := take lx n s
      (more.map (t :: ·), s)

end Stream

end SqlLayout.Lexer
