import SqlLayout.Lexer.Sql
import SqlLayout.Lexer.Stream
import SqlLayout.Pattern.Written

/-!
# Lexers at work

Named lexers are built up by registrations and cut texts, at once or on demand. A stream belongs to
the lexer that it was opened on and sees that lexer's registrations, also after the name is given to
another one. A copy starts with the same tables and goes its own way. A rule is added as the text of
a pattern, which may be malformed, or as a matcher of any other making.
-/

namespace SqlLayout.Lexer

/-- Lexers in the order of their making, and what the names stand for. -/
structure Bench where
  lexers : List Lexer := []
  names : List (Text × Nat) := []
  /-- Streams by name, each with the lexer it was opened on. -/
  streams : List (Text × Nat × Stream) := []

/-- A use of a lexer or of a stream. -/
inductive Command where
  /-- Names a new lexer: that of SQL, or an empty one. -/
  | make (name : Text) (sql : Bool)
  | copy (name newName : Text)
  | clear (name : Text)
  | addKeyword (name word : Text) (kind : Kind)
  /-- Adds a rule whose pattern is written as text. -/
  | addRule (name : Text) (flags : Pattern.Flags) (written : Text) (kind : Kind)
  /-- Adds a rule with a matcher of any other making. -/
  | addMatcher (name : Text) (matcher : Matcher) (kind : Kind)
  | isKeyword (name word : Text)
  | keywordKind (name word : Text)
  | keywords (name : Text)
  | ruleKinds (name : Text)
  | tokenize (name text : Text) (strict : Bool)
  /-- Names a stream of a lexer over a text. -/
  | openStream (name stream text : Text)
  /-- Asks a stream for some tokens. -/
  | pull (stream : Text) (count : Nat)

/-- Why a command fails. -/
inductive CommandError where
  | failure (e : Failure)
  | malformed (e : Pattern.Malformed)
  | unknownName (name : Text)
deriving DecidableEq, Repr

/-- What a command answers. -/
inductive Answer where
  | counts (rules keywords : Nat)
  | truth (b : Bool)
  | kind (k : Option Kind)
  | keywords (ws : List (Text × Kind))
  | kinds (ks : List Kind)
  | tokens (ts : List Token)
  | stream (name : Text)
  | failed (e : CommandError)
deriving DecidableEq, Repr

/-- The sizes of the tables. -/
def counts (lx : Lexer) : Answer := .counts lx.rules.length lx.keywords.length

namespace Bench

/-- The lexer that a name stands for. -/
def find? (b : Bench) (name : Text) : Option (Nat × Lexer) := do
  let i ← b.names.lookup name
  let lx ← b.lexers[i]?
  return (i, lx)

/-- Adds a lexer and names it. -/
def add (b : Bench) (name : Text) (lx : Lexer) : Bench :=
  { b with lexers := b.lexers ++ [lx], names := (name, b.lexers.length) :: b.names }

/-- Changes the tables of a lexer. -/
def update (b : Bench) (i : Nat) (lx : Lexer) : Bench := { b with lexers := b.lexers.set i lx }

/-- Uses the lexer of a name. -/
def withLexer (b : Bench) (name : Text) (use : Nat → Lexer → Answer × Bench) : Answer × Bench :=
  match b.find? name with
  | some (i, lx) => use i lx
  | none => (.failed (.unknownName name), b)

/-- Changes the tables of the lexer of a name and tells their sizes. -/
def change (b : Bench) (name : Text) (f : Lexer → Lexer) : Answer × Bench :=
  b.withLexer name fun i lx => ((f lx).counts, b.update i (f lx))

/-- Asks the lexer of a name. -/
def ask (b : Bench) (name : Text) (f : Lexer → Answer) : Answer × Bench :=
  b.withLexer name fun _ lx => (f lx, b)

/-- Runs a command. -/
def exec (b : Bench) : Command → Answer × Bench
  | .make name sql =>
    let lx := if sql then Sql.lexer else empty
    (lx.counts, b.add name lx)
  | .copy name newName => b.withLexer name fun _ lx => (lx.counts, b.add newName lx)
  | .clear name => b.change name fun _ => empty
  | .addKeyword name word kind => b.change name fun lx => lx.addKeyword word kind
  | .addRule name flags written kind =>
    b.withLexer name fun i lx =>
      match Pattern.read flags written with
      | .ok pattern => ((lx.addRule pattern kind).counts, b.update i (lx.addRule pattern kind))
      | .error e => (.failed (.malformed e), b)
  | .addMatcher name matcher kind => b.change name fun lx => lx.addRule matcher kind
  | .isKeyword name word => b.ask name fun lx => .truth (lx.isKeyword word)
  | .keywordKind name word => b.ask name fun lx => .kind (lx.keywordKind? word)
  | .keywords name => b.ask name fun lx => .keywords lx.keywords
  | .ruleKinds name => b.ask name fun lx => .kinds (lx.rules.map (·.kind))
  | .tokenize name text strict =>
    b.ask name fun lx =>
      match lx.tokenize text strict with
      | .ok ts => .tokens ts
      | .error e => .failed (.failure e)
  | .openStream name stream text =>
    b.withLexer name fun i _ =>
      (.stream stream, { b with streams := (stream, i, Stream.start text) :: b.streams })
  | .pull stream count =>
    match b.streams.lookup stream with
    | none => (.failed (.unknownName stream), b)
    | some (i, s) =>
      let (found, s) := Stream.take (b.lexers.getD i empty) count s
      let b := { b with streams := (stream, i, s) :: b.streams.filter (·.1 != stream) }
      match found with
      | .ok ts => (.tokens ts, b)
      | .error e => (.failed (.failure (.unresolved e)), b)

/-- Runs commands one after another. -/
def execAll (b : Bench) : List Command → List Answer × Bench
  | [] => ([], b)
  | c :: rest =>
    let (answer, b) := b.exec c
    let (answers, b) := b.execAll rest
    (answer :: answers, b)

end Bench

end SqlLayout.Lexer
