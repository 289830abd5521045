import SqlLayout.Pattern.Written
import SqlLayout.Text.Decimal
import SqlLayout.Text.Printable

/-!
# Arguments of the command line

Arguments are options or words of the query. A long option may be cut short as long as one spelling
is meant, and may take its value after an equals sign; short options may be written in one cluster.
What begins with a hyphen is a word nonetheless if it is a number, or if it holds a space and no
option begins so. Two hyphens end the options. The words have to stand together: the first run of
them is the query, and later ones are not recognised.

An option's value of two hyphens is dropped, which leaves the threshold without a value. A later
value mends that; a run that needs the threshold before has a fault.

All arguments are classified first; then they are taken from left to right.
-/

namespace SqlLayout.CommandLine

/-! ## Options -/

/-- What an option does. -/
inductive Action where
  | help
  | version
  | format
  | reindent
  /-- Raises the threshold by one. -/
  | raiseCount
  /-- Sets the threshold to a value. -/
  | setCount
  | removeComments
  | uppercaseKeywords
  | json
  | strict
  | debug
deriving DecidableEq, Repr

/-- The spellings of an option, in the order in which they are shown. -/
def Action.spellings : Action → List String
  | .help => ["-h", "--help"]
  | .version => ["-v", "--version"]
  | .format => ["-f", "--format"]
  | .reindent => ["-r", "--reindent", "--reident"]
  | .raiseCount => ["-c"]
  | .setCount => ["--from-break-count"]
  | .removeComments => ["-C", "--remove-comments"]
  | .uppercaseKeywords => ["-u", "--uppercase-keywords"]
  | .json => ["-j", "--json"]
  | .strict => ["--strict"]
  | .debug => ["--debug"]

/-- Every option, in the order of the help text. -/
def actions : List Action :=
  [.help, .version, .format, .reindent, .raiseCount, .setCount, .removeComments,
    .uppercaseKeywords, .json, .strict, .debug]

/-- Every spelling with its option. -/
def spellings : List (Text × Action) :=
  actions.flatMap fun a => a.spellings.map fun s => (s.toList, a)

/-- The option takes a value. -/
def Action.takesValue (a : Action) : Bool := a == .setCount

/-- How messages name an option. -/
def Action.name (a : Action) : Text := ['/'].intercalate (a.spellings.map String.toList)

/-! ## Mistakes -/

/-- Why arguments are refused. -/
inductive UsageError where
  | ambiguous (argument : Text) (meant : List Text)
  | unusedValue (a : Action) (value : Text)
  | valueExpected (a : Action)
  | notWhole (a : Action) (value : Text)
  | unrecognized (arguments : List Text)
  | noQuery
  | formatWithJson
  | negativeCount
deriving DecidableEq, Repr

/-- A mistake in the use of one option. -/
def optionMessage (a : Action) (text : Text) : Text :=
  "argument ".toList ++ a.name ++ ": ".toList ++ text

/-- What refused arguments are reported with. -/
def UsageError.message : UsageError → Text
  | .ambiguous argument meant =>
    "ambiguous option: ".toList ++ argument ++ " could match ".toList ++
      ", ".toList.intercalate meant
  | .unusedValue a value =>
    optionMessage a ("ignored explicit argument ".toList ++ Text.quoted value)
  | .valueExpected a => optionMessage a "expected one argument".toList
  | .notWhole a value => optionMessage a ("invalid int value: ".toList ++ Text.quoted value)
  | .unrecognized arguments => "unrecognized arguments: ".toList ++ [' '].intercalate arguments
  | .noQuery => "missing sql query".toList
  | .formatWithJson => "--format and --json are not compatible".toList
  | .negativeCount => "--from-break-count must be >= 0".toList

/-! ## Classifying -/

/-- What an argument is. -/
inductive Argument where
  | word (t : Text)
  /-- An option in one of its spellings, with what follows it in the same argument. -/
  | option (a : Action) (spelling : Text) (value : Option Text)
  /-- Looks like an option, but is none. -/
  | unknown (t : Text)
  /-- The two hyphens that end the options. -/
  | separator
deriving DecidableEq, Repr

/-- Splits a text at its first equals sign, if it has one. -/
def splitValue (t : Text) : Text × Option Text :=
  match t.span (· != '=') with
  | (head, '=' :: value) => (head, some value)
  | (head, _) => (head, none)

/-- The options that an argument which is no spelling itself may mean. An argument with two hyphens
may be the beginning of a spelling; one with a single hyphen, a short option with more behind it. -/
def candidates (t : Text) : List (Text × Action × Option Text) :=
  if "--".toList.isPrefixOf t then
    let (head, value) := splitValue t
    (spellings.filter fun s => head.isPrefixOf s.1).map fun (s, a) => (s, a, value)
  else
    spellings.filterMap fun (s, a) =>
      if s == t.take 2 then some (s, a, some (t.drop 2))
      else if t.isPrefixOf s then some (s, a, none)
      else none

/-- One digit or more. -/
def digits : Pattern := .plus (.char (.ofClass .digit))

/-- A negative number: digits, or digits and a decimal point before further digits. A line feed may
end it. -/
def negativeNumber : Pattern :=
  .all [.text ['-'],
    .alt digits (.all [.star (.char (.ofClass .digit)), .text ['.'], digits]),
    .anchor .lastLineEnd]

/-- Says what an argument is that does not stand after the separator. -/
def classify (t : Text) : Except UsageError Argument :=
  if t.head? != some '-' then .ok (.word t)
  else if let some a := spellings.lookup t then .ok (.option a t none)
  else if t.length = 1 then .ok (.word t)
  else
    let (head, value) := splitValue t
    match spellings.lookup head, value with
    | some a, some value => .ok (.option a head (some value))
    | _, _ =>
      match candidates t with
      | [(s, a, value)] => .ok (.option a s value)
      | [] =>
        if (negativeNumber.match? (Cursor.start t)).isSome || t.contains ' ' then .ok (.word t)
        else .ok (.unknown t)
      | meant => .error (.ambiguous t (meant.map (·.1)))

/-- Says what each argument is. All that follow the separator are words. -/
def classifyAll : List Text → Except UsageError (List Argument)
  | [] => .ok []
  | t :: rest =>
    if t = "--".toList then .ok (.separator :: rest.map .word)
    else do
      let a ← classify t
      let more ← classifyAll rest
      return a :: more

/-! ## Taking -/

/-- What the arguments ask for. -/
structure Settings where
  query : List Text := []
  format : Bool := false
  reindent : Bool := false
  /-- The threshold, unless it was left without a value. -/
  fromBreakCount : Option Int := some 0
  removeComments : Bool := false
  uppercaseKeywords : Bool := false
  json : Bool := false
  strict : Bool := false
  debug : Bool := false
deriving DecidableEq, Repr

/-- What a run does with a threshold that has no value. -/
inductive Fault where
  /-- Raises it by one. -/
  | raised
  /-- Asks whether it is negative. -/
  | compared
deriving DecidableEq, Repr

/-- What a fault is reported with. -/
def Fault.message : Fault → Text
  | .raised => "can only concatenate list (not \"int\") to list".toList
  | .compared => "'<' not supported between instances of 'list' and 'int'".toList

/-- Why a run ends with its arguments. -/
inductive Exit where
  | help
  | version
  | usage (e : UsageError)
  | fault (e : Fault)
deriving DecidableEq, Repr

/-- Applies an option, with its value if it takes one. -/
def Settings.apply (s : Settings) (a : Action) (value : Text) : Except Exit Settings :=
  match a with
  | .help => .error .help
  | .version => .error .version
  | .format => .ok { s with format := true }
  | .reindent => .ok { s with reindent := true }
  | .raiseCount =>
    match s.fromBreakCount with
    | some n => .ok { s with fromBreakCount := some (n + 1) }
    | none => .error (.fault .raised)
  | .setCount =>
    if value = "--".toList then .ok { s with fromBreakCount := none }
    else
      match Text.toInt? value with
      | some n => .ok { s with fromBreakCount := some n }
      | none => .error (.usage (.notWhole a value))
  | .removeComments => .ok { s with removeComments := true }
  | .uppercaseKeywords => .ok { s with uppercaseKeywords := true }
  | .json => .ok { s with json := true }
  | .strict => .ok { s with strict := true }
  | .debug => .ok { s with debug := true }

/-- Applies options that take no value, one after another. -/
def Settings.applyAll (s : Settings) (as : List Action) : Except Exit Settings :=
  as.foldlM (fun s a => s.apply a []) s

/-- Reads the options of a cluster behind its first one. The text is what follows the option `a` in
the argument; each of its characters has to name a short option, and only the last of these might
take a value. -/
def cluster (a : Action) : Text → Except UsageError (List Action)
  | [] => .ok [a]
  | c :: rest =>
    match spellings.lookup ['-', c] with
    | some next => (cluster next rest).map (a :: ·)
    | none => .error (.unusedValue a (c :: rest))

/-- Takes an option that something follows in the same argument. -/
def takeWithValue (s : Settings) (a : Action) (spelling value : Text) : Except Exit Settings :=
  if a.takesValue then s.apply a value
  else if "--".toList.isPrefixOf spelling || value.isEmpty then
    .error (.usage (.unusedValue a value))
  else
    match cluster a value with
    | .ok as => s.applyAll as
    | .error e => .error (.usage e)

/-- Words of the query without the first separator among them. -/
def withoutSeparator (words : List Text) : List Text := words.erase "--".toList

/-- The arguments that are still to be taken, and what was taken so far. -/
structure Progress where
  settings : Settings := {}
  /-- The query was found. -/
  queryTaken : Bool := false
  /-- Arguments that were not recognised, the latest first. -/
  extra : List Text := []
deriving DecidableEq, Repr

/-- Takes a run of words: the first run is the query, the others are not recognised. -/
def Progress.takeWords (p : Progress) (words : List Text) : Progress :=
  if words.isEmpty then p
  else if p.queryTaken then { p with extra := words.reverse ++ p.extra }
  else
    { p with settings := { p.settings with query := withoutSeparator words }, queryTaken := true }

/-- Takes arguments from left to right. `words` is the run of words right before, the latest
first. -/
def takeAll (p : Progress) (words : List Text) : List Argument → Except Exit Progress
  | [] => .ok (p.takeWords words.reverse)
  | .word t :: rest => takeAll p (t :: words) rest
  | .separator :: rest => takeAll p ("--".toList :: words) rest
  | .unknown t :: rest =>
    let p := p.takeWords words.reverse
    takeAll { p with extra := t :: p.extra } [] rest
  | .option a spelling (some value) :: rest =>
    let p := p.takeWords words.reverse
    match takeWithValue p.settings a spelling value with
    | .ok settings => takeAll { p with settings } [] rest
    | .error e => .error e
  | .option a _ none :: rest =>
    let p := p.takeWords words.reverse
    if a.takesValue then
      match rest with
      | .word value :: rest =>
        match p.settings.apply a value with
        | .ok settings => takeAll { p with settings } [] rest
        | .error e => .error e
      | _ => .error (.usage (.valueExpected a))
    else
      match p.settings.apply a [] with
      | .ok settings => takeAll { p with settings } [] rest
      | .error e => .error e

/-- What the arguments ask for, unless they end the run. -/
def parse (arguments : List Text) : Except Exit Settings := do
  let classified ← (classifyAll arguments).mapError .usage
  let p ← takeAll {} [] classified
  if p.extra.isEmpty then return p.settings
  else throw (.usage (.unrecognized p.extra.reverse))

/-- Refuses settings that do not go together. -/
def Settings.check (s : Settings) : Except Exit Unit :=
  if s.query.isEmpty then .error (.usage .noQuery)
  else if s.format && s.json then .error (.usage .formatWithJson)
  else
    match s.fromBreakCount with
    | none => .error (.fault .compared)
    | some n => if n < 0 then .error (.usage .negativeCount) else .ok ()

end SqlLayout.CommandLine
