import SqlLayout.Layout.Options
import SqlLayout.Layout.Page
import SqlLayout.Lexer.Sql

/-!
# Laying out tokens

Without reindentation the tokens are written as they are, but for dropped comments and keywords in
upper case. With it the blanks of the query are dropped and lines are broken anew:

- a parenthesis whose first keyword is `SELECT` holds a subquery, which is indented and closed on a
  line of its own;
- `WHERE`, `ORDER BY`, `GROUP BY`, `UNION ALL` and `LEFT OUTER JOIN` begin a line;
- `FROM` begins a line once enough tokens follow its `SELECT`;
- a name that `AS (SELECT` follows begins a line, and so does a comment.

What a token opens is found by looking at the tokens after it; nothing is parsed.
-/

namespace SqlLayout.Layout

/-- The keywords that always begin a line. -/
def breakingKeywords : List String :=
  ["GROUP BY", "LEFT OUTER JOIN", "ORDER BY", "UNION ALL", "WHERE"]

/-- A parenthesis with these tokens after it holds a subquery: the first keyword is `SELECT`, and no
punctuation comes before it. -/
def opensSubquery : List Token → Bool
  | [] => false
  | t :: rest =>
    if t.kind == .punctuation then false
    else if t.kind.isKeyword then t.isWord "SELECT"
    else opensSubquery rest

/-- A name with these tokens after it heads a subquery: the next tokens that are not blank are `AS`,
a parenthesis and `SELECT`. -/
def headsSubquery (following : List Token) : Bool :=
  match (following.filter fun t => !t.kind.isBlank).take 3 with
  | [as, paren, select] => as.isWord "AS" && paren.isMark '(' && select.isWord "SELECT"
  | _ => false

/-- The text that a token is written with. -/
def shown (o : Options) (t : Token) : Text :=
  if !t.kind.isKeyword then t.value
  else
    let text := if o.reindent then Text.collapse t.value else t.value
    if o.uppercaseKeywords && t.kind == .keyword then Text.upper text else text

/-- A page with what is remembered of the tokens on it. -/
structure State where
  page : Page := {}
  /-- The last token written. -/
  last : Option Token := none
  /-- How many tokens were written since the last `SELECT`. -/
  sinceSelect : Nat := 0
deriving DecidableEq, Repr

/-- A token begins a line, given the tokens after it. A closing parenthesis does so if its level
indents; the level is still open then. -/
def beginsLine (o : Options) (s : State) (t : Token) (following : List Token) : Bool :=
  if t.isMark ')' then s.page.levels.headD false
  else if t.kind == .comment then true
  else if t.kind == .name then headsSubquery following
  else if !t.kind.isKeyword then false
  else if t.isWord "SELECT" then
    s.page.levels.headD (s.last.any (·.isMark ')'))
  else if t.isWord "FROM" then o.fromBreakCount ≤ s.sinceSelect
  else breakingKeywords.any t.isWord

/-- Lays out a token that is not blank, given the tokens after it. A closing parenthesis leaves its
level before its line is indented, and an opening one enters its level after it is written. -/
def place (o : Options) (s : State) (t : Token) (following : List Token) : State :=
  let begins := beginsLine o s t following
  let page := if t.isMark ')' then s.page.pop else s.page
  let page := if begins then page.lineBreak else page
  let page := page.write (shown o t)
  let page := if t.isMark '(' then page.push (opensSubquery following) else page
  { page, last := some t, sinceSelect := if t.isWord "SELECT" then 0 else s.sinceSelect + 1 }

/-- Takes one token, given the tokens after it. -/
def step (o : Options) (s : State) (t : Token) (following : List Token) : State :=
  if o.removeComments && t.kind == .comment then s
  else if !o.reindent then
    { s with page := { s.page with out := s.page.out.append (shown o t) } }
  else if t.kind.isBlank then { s with page := s.page.space }
  else place o s t following

/-- Takes all tokens. -/
def run (o : Options) (s : State) : List Token → State
  | [] => s
  | t :: rest => run o (step o s t rest) rest

/-- The text of laid-out tokens. -/
def format (o : Options) (ts : List Token) : Text := (run o {} ts).page.out.toText

/-- Lays out a query, as far as it can be cut. -/
def formatQuery (o : Options) (t : Text) : Text := format o (Sql.tokens t)

end SqlLayout.Layout
