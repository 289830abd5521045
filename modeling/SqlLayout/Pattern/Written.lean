import SqlLayout.Pattern.Basic
import SqlLayout.Text.Decimal

/-!
# Written patterns

A lexer takes patterns that its user writes as text. The notation has single characters, escapes,
`.`, sets in brackets, the classes `\d \w \s` and their complements, the anchors `^ $ \A \Z \b \B`,
groups, alternatives, repetitions `* + ? {m} {m,n}` with their lazy forms, and tests on what
follows and on what precedes. `Pattern.read` takes the text apart in three steps: glyphs (an escape
is one glyph), pieces (a set, a repetition mark or a bracket is one piece), and the pattern, which
is built on a stack of open groups. A mistake is a piece too, so that of several mistakes the first
is reported.

Alternatives are simplified: parts that all of them begin with come before the choice, and where
each of them is then one character or set, the choice is one set. This shows where case is
disregarded, since a set of several entries treats case otherwise than a single character does.

Richer notations are in use elsewhere: characters by their number (`\x41`), names, flags and comments
in groups, references to what a group has read, conditions on it, turns that are not taken back.
They are refused here. A rule that needs them is given as a `Matcher`.
-/

namespace SqlLayout.Pattern

/-- Why a text is not a written pattern. -/
inductive Malformed where
  | endsInBackslash
  | unknownEscape (c : Char)
  | unclosedSet
  | badRange
  | unknownGroup
  | unclosedGroup
  | strayClosing
  | nothingToRepeat
  | repeatsRepetition
  | leastAboveMost
  /-- A bound of a repetition is too large. -/
  | hugeCount
  /-- A bound of a repetition has more digits than can be read. -/
  | tooManyDigits (count : Nat)
  /-- What is to precede has no fixed width. -/
  | unevenPrecedingTest
deriving DecidableEq, Repr

/-- What the bounds of a repetition are refused with; other mistakes have no text. -/
def Malformed.message? : Malformed → Option Text
  | .hugeCount => some "the repetition number is too large".toList
  | .tooManyDigits count => some (Text.tooManyDigitsMessage count)
  | _ => none

/-- What a pattern's letters mean. -/
structure Flags where
  /-- Letters stand for their case variants too. -/
  ignoreCase : Bool := false
  /-- `^` and `$` hold at every line. -/
  multiline : Bool := false
  /-- `.` stands for a line feed too. -/
  dotAll : Bool := false
deriving DecidableEq, Repr

/-- Sets the flag that a letter names. -/
def Flags.add? (f : Flags) : Char → Option Flags
  | 'i' => some { f with ignoreCase := true }
  | 'm' => some { f with multiline := true }
  | 's' => some { f with dotAll := true }
  | _ => none

/-! ## Glyphs -/

/-- A character of a written pattern, by itself or after a backslash. -/
structure Glyph where
  escaped : Bool
  char : Char
deriving DecidableEq, Repr

/-- Joins each backslash with the character after it. -/
def glyphs : Text → Except Malformed (List Glyph)
  | [] => .ok []
  | ['\\'] => .error .endsInBackslash
  | '\\' :: c :: rest => (glyphs rest).map (⟨true, c⟩ :: ·)
  | c :: rest => (glyphs rest).map (⟨false, c⟩ :: ·)

/-- The class that an escaped letter names. -/
def namedClass? : Char → Option CharSet.Member
  | 'd' => some (.within .digit)
  | 'D' => some (.outside .digit)
  | 'w' => some (.within .word)
  | 'W' => some (.outside .word)
  | 's' => some (.within .blank)
  | 'S' => some (.outside .blank)
  | _ => none

/-- The character that an escape stands for: a control character for some letters, and any
character but a letter or digit for itself. -/
def escapedChar (c : Char) : Except Malformed Char :=
  match c with
  | 'a' => .ok '\x07'
  | 'f' => .ok '\x0c'
  | 'n' => .ok '\n'
  | 'r' => .ok '\r'
  | 't' => .ok '\t'
  | 'v' => .ok '\x0b'
  | c => if c.isAlphanum then .error (.unknownEscape c) else .ok c

/-! ## Sets in brackets -/

/-- The entry of a set that one glyph gives; a backspace is written `\b` here. -/
def setEntry (g : Glyph) : Except Malformed CharSet.Member :=
  if g.escaped then
    match namedClass? g.char with
    | some m => .ok m
    | none =>
      if g.char = 'b' then .ok (.char '\x08') else (escapedChar g.char).map .char
  else .ok (.char g.char)

/-- Joins the two ends of a range. -/
def setRange : CharSet.Member → CharSet.Member → Except Malformed CharSet.Member
  | .char first, .char last =>
    if last < first then .error .badRange else .ok (.range first last)
  | _, _ => .error .badRange

/-- Reads entries, the latest in front, up to the closing bracket, which stands for itself where
the first entry is expected; so does a hyphen before the closing bracket. -/
def setEntries (entries : List CharSet.Member) :
    List Glyph → Except Malformed (List CharSet.Member × List Glyph)
  | [] => .error .unclosedSet
  | g :: rest =>
    if g = ⟨false, ']'⟩ ∧ entries ≠ [] then .ok (entries, rest)
    else
      match setEntry g with
      | .error e => .error e
      | .ok m =>
        match rest with
        | [⟨false, '-'⟩] => .error .unclosedSet
        | ⟨false, '-'⟩ :: h :: rest =>
          if h = ⟨false, ']'⟩ then .ok (.char '-' :: m :: entries, rest)
          else
            match (setEntry h).bind (setRange m) with
            | .error e => .error e
            | .ok r => setEntries (r :: entries) rest
        | rest => setEntries (m :: entries) rest

/-- Reads a set after its opening bracket. An entry that is listed twice counts once. -/
def readSet (flags : Flags) (gs : List Glyph) : Except Malformed (CharSet × List Glyph) :=
  let (negated, gs) :=
    match gs with
    | ⟨false, '^'⟩ :: rest => (true, rest)
    | gs => (false, gs)
  (setEntries [] gs).map fun (entries, rest) =>
    (⟨entries.reverse.eraseDups, negated, flags.ignoreCase⟩, rest)

/-! ## Pieces -/

/-- What a bracket opens. -/
inductive Group where
  /-- A group that is kept as a whole. -/
  | plain
  /-- A group that stands for its parts. -/
  | inline
  | ahead (wanted : Bool)
  | behind (wanted : Bool)
deriving DecidableEq, Repr

/-- The smallest parts of a written pattern that have a meaning of their own. -/
inductive Piece where
  | char (s : CharSet)
  /-- A test of the place, and the glyph that is its sign. -/
  | anchor (sign : Glyph) (a : Anchor)
  | opening (g : Group)
  | closing
  | bar
  | turns (least : Nat) (most : Option Nat) (greedy : Bool)
  | mistake (e : Malformed)
deriving Repr

/-- Splits off the decimal digits at the front. -/
def readDigits (gs : List Glyph) : Text × List Glyph :=
  let (ds, rest) := gs.span fun g => !g.escaped && g.char.isDigit
  (ds.map (·.char), rest)

/-- The bounds of a repetition lie below this number. -/
def countLimit : Nat := 0xffffffff

/-- The number that digits give as a bound, if there are any. -/
def countOf (ds : Text) : Except Malformed (Option Nat) :=
  if ds.isEmpty then .ok none
  else if Text.maxDigits < ds.length then .error (.tooManyDigits ds.length)
  else
    let n := ds.foldl (fun n c => n * 10 + (c.toNat - '0'.toNat)) 0
    if n < countLimit then .ok (some n) else .error .hugeCount

/-- Reads the digits of the bounds of a repetition after the opening brace; a single number is both
bounds. Where the braces hold no bounds, the answer is `none` and the brace stands for itself. -/
def readBounds (gs : List Glyph) : Option ((Text × Text) × List Glyph) :=
  if gs.head? = some ⟨false, '}'⟩ then none
  else
    match readDigits gs with
    | (least, ⟨false, ','⟩ :: rest) =>
      match readDigits rest with
      | (most, ⟨false, '}'⟩ :: rest) => some ((least, most), rest)
      | _ => none
    | (n, ⟨false, '}'⟩ :: rest) => some ((n, n), rest)
    | _ => none

/-- A repetition mark, lazy if a question mark follows it. -/
def turnsPiece (least : Nat) (most : Option Nat) : List Glyph → Piece × List Glyph
  | ⟨false, '?'⟩ :: rest => (.turns least most false, rest)
  | rest => (.turns least most true, rest)

/-- Reads what a bracket opens. -/
def readOpening : List Glyph → Except Malformed (Group × List Glyph)
  | ⟨false, '?'⟩ :: rest =>
    match rest with
    | ⟨false, ':'⟩ :: rest => .ok (.inline, rest)
    | ⟨false, '='⟩ :: rest => .ok (.ahead true, rest)
    | ⟨false, '!'⟩ :: rest => .ok (.ahead false, rest)
    | ⟨false, '<'⟩ :: ⟨false, '='⟩ :: rest => .ok (.behind true, rest)
    | ⟨false, '<'⟩ :: ⟨false, '!'⟩ :: rest => .ok (.behind false, rest)
    | _ => .error .unknownGroup
  | gs => .ok (.plain, gs)

/-- The piece that an escape gives outside of sets. -/
def escapedPiece (flags : Flags) (c : Char) : Except Malformed Piece :=
  match namedClass? c with
  | some m => .ok (.char { members := [m], ignoreCase := flags.ignoreCase })
  | none =>
    match c with
    | 'A' => .ok (.anchor ⟨true, 'A'⟩ .textStart)
    | 'Z' => .ok (.anchor ⟨true, 'Z'⟩ .textEnd)
    | 'b' => .ok (.anchor ⟨true, 'b'⟩ .wordEdge)
    | 'B' => .ok (.anchor ⟨true, 'B'⟩ .notWordEdge)
    | c => (escapedChar c).map fun c =>
        .char { members := [.char c], ignoreCase := flags.ignoreCase }

/-- Reads the piece that begins with the given glyph. -/
def readPiece (flags : Flags) (g : Glyph) (rest : List Glyph) :
    Except Malformed (Piece × List Glyph) :=
  let literal : Piece := .char { members := [.char g.char], ignoreCase := flags.ignoreCase }
  if g.escaped then (escapedPiece flags g.char).map (·, rest)
  else
    match g.char with
    | '.' =>
      let excluded : List CharSet.Member := if flags.dotAll then [] else [.char '\n']
      .ok (.char { members := excluded, negated := true }, rest)
    | '^' => .ok (.anchor g (if flags.multiline then .lineStart else .textStart), rest)
    | '$' => .ok (.anchor g (if flags.multiline then .lineEnd else .lastLineEnd), rest)
    | '|' => .ok (.bar, rest)
    | ')' => .ok (.closing, rest)
    | '(' => (readOpening rest).map fun (group, rest) => (.opening group, rest)
    | '[' => (readSet flags rest).map fun (s, rest) => (.char s, rest)
    | '*' => .ok (turnsPiece 0 none rest)
    | '+' => .ok (turnsPiece 1 none rest)
    | '?' => .ok (turnsPiece 0 (some 1) rest)
    | '{' =>
      match readBounds rest with
      | none => .ok (literal, rest)
      | some ((least, most), rest) => do
        let least ← countOf least
        let most ← countOf most
        return turnsPiece (least.getD 0) most rest
    | _ => .ok (literal, rest)

/-- All pieces of a written pattern, up to the first mistake. Each takes at least one glyph, so as
many turns as there are glyphs suffice. -/
def readPieces (flags : Flags) : Nat → List Glyph → List Piece
  | n + 1, g :: rest =>
    match readPiece flags g rest with
    | .ok (p, rest) => p :: readPieces flags n rest
    | .error e => [.mistake e]
  | _, _ => []

/-! ## Building the pattern -/

/-- A part of an alternative. -/
inductive Part where
  | char (s : CharSet)
  | anchor (sign : Glyph) (a : Anchor)
  /-- A repetition, a choice, a test or a group that is kept as a whole. -/
  | whole (p : Pattern)
deriving Repr

/-- The pattern of a part. -/
def Part.pattern : Part → Pattern
  | .char s => .char s
  | .anchor _ a => .anchor a
  | .whole p => p

/-- The pattern of parts one after another. -/
def sequence (ps : List Part) : Pattern := all (ps.map (·.pattern))

/-- The same character, set or anchor, written alike. -/
def Part.same : Part → Part → Bool
  | .char s, .char t => s == t
  | .anchor s _, .anchor t _ => s == t
  | _, _ => false

/-- The parts that all alternatives begin with, of which one is given. -/
def commonStart : List Part → List (List Part) → List Part
  | p :: ps, others =>
    if others.all (·.head?.any p.same) then p :: commonStart ps (others.map (·.drop 1)) else []
  | [], _ => []

/-- The set of an alternative that is one character, or a set that is not turned around. -/
def loneSet? : List Part → Option CharSet
  | [.char s] => if s.negated then none else some s
  | _ => none

/-- The set of alternatives that are such sets; an entry that is listed twice counts once. -/
def joinedSet? (alternatives : List (List Part)) : Option CharSet :=
  match alternatives.mapM loneSet? with
  | some (s :: sets) =>
    let joined := sets.foldl CharSet.union s
    some { joined with members := joined.members.eraseDups }
  | _ => none

/-- The parts of a choice between alternatives. -/
def chosen : List (List Part) → List Part
  | [] => []
  | [ps] => ps
  | ps :: others =>
    let shared := commonStart ps others
    let rests := (ps :: others).map (·.drop shared.length)
    match joinedSet? rests with
    | some s => shared ++ [.char s]
    | none => shared ++ [.whole (choice (rests.map sequence))]

/-- What a repetition mark may follow. -/
inductive Role where
  | ordinary
  | anchor
  | repetition
deriving DecidableEq, Repr

/-- An open group: its finished alternatives, latest first, and what was read of the present one,
latest first; a repetition mark applies to the whole of the latest. -/
structure Frame where
  group : Group
  alternatives : List (List Part) := []
  parts : List (List Part × Role) := []
deriving Repr

/-- Adds parts to the alternative being read. -/
def Frame.push (f : Frame) (ps : List Part) (role : Role) : Frame :=
  { f with parts := (ps, role) :: f.parts }

/-- Finishes the alternative being read. -/
def Frame.bar (f : Frame) : Frame :=
  { f with alternatives := f.parts.reverse.flatMap (·.1) :: f.alternatives, parts := [] }

/-- The parts that a frame stands for, its alternatives being finished. -/
def Frame.content (f : Frame) : List Part := chosen f.bar.alternatives.reverse

/-- The most characters that a test may look back. -/
def maxWidth : Nat := 0xffffffff

/-- The parts of a closed group. A test of what precedes needs one width, and no excessive one. -/
def Frame.close (f : Frame) : Except Malformed (List Part) :=
  let p := sequence f.content
  match f.group with
  | .plain => .ok [.whole p]
  | .inline => .ok f.content
  | .ahead wanted => .ok [.whole (.ahead wanted p)]
  | .behind wanted =>
    if p.widths.2 = some p.widths.1 ∧ p.widths.1 ≤ maxWidth then
      .ok [.whole (.behind wanted p.widths.1 p)]
    else .error .unevenPrecedingTest

/-- Lets the latest parts take turns. -/
def Frame.repeat? (f : Frame) (least : Nat) (most : Option Nat) (greedy : Bool) :
    Except Malformed Frame :=
  if most.any (· < least) then .error .leastAboveMost
  else
    match f.parts with
    | [] | (_, .anchor) :: _ => .error .nothingToRepeat
    | (_, .repetition) :: _ => .error .repeatsRepetition
    | (ps, .ordinary) :: parts =>
      let turns := Part.whole (.times (sequence ps) least most greedy)
      .ok { f with parts := ([turns], .repetition) :: parts }

/-- Builds the pattern of the pieces: `frame` is the innermost open group, `outer` those around
it. -/
def build (frame : Frame) (outer : List Frame) : List Piece → Except Malformed Pattern
  | [] => if outer.isEmpty then .ok (sequence frame.content) else .error .unclosedGroup
  | .char s :: rest => build (frame.push [.char s] .ordinary) outer rest
  | .anchor sign a :: rest => build (frame.push [.anchor sign a] .anchor) outer rest
  | .bar :: rest => build frame.bar outer rest
  | .turns least most greedy :: rest =>
    match frame.repeat? least most greedy with
    | .ok frame => build frame outer rest
    | .error e => .error e
  | .opening group :: rest => build { group } (frame :: outer) rest
  | .closing :: rest =>
    match outer, frame.close with
    | [], _ => .error .strayClosing
    | _, .error e => .error e
    | parent :: outer, .ok ps => build (parent.push ps .ordinary) outer rest
  | .mistake e :: _ => .error e

mutual

/-- Takes leading groups of flag letters, such as `(?i)`. -/
def leadingFlags (flags : Flags) : List Glyph → Except Malformed (Flags × List Glyph)
  | ⟨false, '('⟩ :: ⟨false, '?'⟩ :: ⟨false, c⟩ :: rest =>
    match flags.add? c with
    | none => .ok (flags, ⟨false, '('⟩ :: ⟨false, '?'⟩ :: ⟨false, c⟩ :: rest)
    | some flags => furtherFlags flags rest
  | gs => .ok (flags, gs)

/-- Takes the letters of a group from its second one on, and the groups after it. -/
def furtherFlags (flags : Flags) : List Glyph → Except Malformed (Flags × List Glyph)
  | ⟨false, ')'⟩ :: rest => leadingFlags flags rest
  | ⟨false, c⟩ :: rest =>
    match flags.add? c with
    | some flags => furtherFlags flags rest
    | none => .error .unknownGroup
  | _ => .error .unknownGroup

end

/-- Reads a written pattern. -/
def read (flags : Flags) (t : Text) : Except Malformed Pattern := do
  let gs ← glyphs t
  let (flags, gs) ← leadingFlags flags gs
  build { group := .plain } [] (readPieces flags gs.length gs)

end SqlLayout.Pattern
