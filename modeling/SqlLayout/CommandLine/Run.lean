import SqlLayout.CommandLine.Arguments
import SqlLayout.Layout.Format
import SqlLayout.Log
import SqlLayout.Token.Record

/-!
# Running the program

A run takes arguments and, if the query is a single hyphen, the standard input; it gives an exit
status and what it writes on the two outputs. It ends with status 2 for arguments that are refused,
and with status 1 for a blank query or for one that a strict run cannot cut. Otherwise it writes the
query laid out, its tokens as a document, or a listing of them. Only a threshold without a value can
keep a run from its end.
-/

namespace SqlLayout.CommandLine

/-- The version of the program. -/
def versionText : Text := "0.1.0".toList

/-- The short description of how to call the program. -/
def usageText : Text :=
  ("usage: sqlscribe [-h] [-v] [-f] [-r] [-c] [--from-break-count N] [-C] [-u]\n" ++
    "                 [-j] [--strict] [--debug]\n" ++
    "                 [query ...]\n").toList

/-- The description of all options. -/
def helpText : Text :=
  usageText ++
    ("\n" ++
    "Tokenize and format SQL queries.\n" ++
    "\n" ++
    "positional arguments:\n" ++
    "  query                 SQL query (words are joined with spaces)\n" ++
    "\n" ++
    "options:\n" ++
    "  -h, --help            show this help message and exit\n" ++
    "  -v, --version         show program's version number and exit\n" ++
    "  -f, --format          format the sql query\n" ++
    "  -r, --reindent, --reident\n" ++
    "                        reindent the sql query\n" ++
    "  -c                    tokens after SELECT needed to break before FROM\n" ++
    "                        (repeat to increase)\n" ++
    "  --from-break-count N  tokens after SELECT needed to break before FROM\n" ++
    "  -C, --remove-comments\n" ++
    "                        remove comments from the sql query\n" ++
    "  -u, --uppercase-keywords\n" ++
    "                        upper-case keywords\n" ++
    "  -j, --json            output the tokens as json (not with --format)\n" ++
    "  --strict              fail if part of the query cannot be tokenized\n" ++
    "  --debug               enable debug logging\n" ++
    "\n" ++
    "the sql query can be replaced by '-' to read from stdin\n").toList

/-- What a run leaves behind. -/
structure Outcome where
  status : Nat
  stdout : Text := []
  stderr : Text := []
deriving DecidableEq, Repr

/-- The outcome of arguments that end the run. -/
def Exit.outcome : Exit → Except Fault Outcome
  | .help => .ok { status := 0, stdout := helpText }
  | .version => .ok { status := 0, stdout := "sqlscribe ".toList ++ versionText ++ ['\n'] }
  | .usage e =>
    .ok { status := 2, stderr := usageText ++ "sqlscribe: error: ".toList ++ e.message ++ ['\n'] }
  | .fault e => .error e

/-- The layout options among the settings. -/
def Settings.options (s : Settings) : Options where
  reindent := s.reindent
  fromBreakCount := (s.fromBreakCount.getD 0).toNat
  removeComments := s.removeComments
  uppercaseKeywords := s.uppercaseKeywords

/-- The query is to be read from the standard input. -/
def Settings.readsInput (s : Settings) : Bool := s.query == [['-']]

/-- The query: the standard input, or the words joined with spaces. -/
def Settings.queryText (s : Settings) (stdin : Text) : Text :=
  if s.readsInput then stdin else [' '].intercalate s.query

/-- One line for each token: its kind and its text. -/
def listing (ts : List Token) : Text :=
  ts.flatMap fun t => t.kind.title.toList ++ ": ".toList ++ t.value ++ ['\n']

/-- What a run writes for the tokens of its query. -/
def Settings.output (s : Settings) (ts : List Token) : Text :=
  if s.format then Layout.format s.options ts ++ ['\n']
  else
    let kept := Token.withoutComments s.removeComments ts
    if s.json then Token.toDocument .compact kept ++ ['\n'] else listing kept

/-- Runs on settings that go together. -/
def Settings.run (s : Settings) (stdin : Text) : Outcome :=
  let query := s.queryText stdin
  if query.all Text.isBlank then { status := 1, stderr := "empty input\n".toList }
  else
    let scan := Sql.scan query
    let records := if s.debug then (LogRecord.ofScan scan).flatMap LogRecord.line else []
    match Sql.lexer.tokenize query s.strict with
    | .ok ts => { status := 0, stdout := s.output ts, stderr := records }
    | .error (.incomplete e) =>
      { status := 1, stderr := records ++ "error: ".toList ++ e.message ++ ['\n'] }
    | .error (.unresolved e) =>
      { status := 1, stderr := records ++ "error: ".toList ++ e.message.toList ++ ['\n'] }

/-- The settings that the arguments ask for, if they go together. -/
def settings (arguments : List Text) : Except Exit Settings := do
  let s ← parse arguments
  s.check
  return s

/-- Runs the program. -/
def run (arguments : List Text) (stdin : Text) : Except Fault Outcome :=
  match settings arguments with
  | .ok s => .ok (s.run stdin)
  | .error e => e.outcome

end SqlLayout.CommandLine
