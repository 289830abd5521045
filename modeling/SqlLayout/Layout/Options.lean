import SqlLayout.Text.Decimal

/-!
# Layout options

Four independent options say how tokens are laid out; the default leaves a query as it is. Options
are built from named settings. A name that is no option is refused, or passed over where a
configuration may hold other settings too, and a threshold below zero is refused.
-/

namespace SqlLayout

/-- How tokens are laid out. -/
structure Options where
  /-- Lines are broken and indented anew. -/
  reindent : Bool := false
  /-- How many tokens after its `SELECT` let a `FROM` begin a line. -/
  fromBreakCount : Nat := 0
  /-- Comments are dropped. -/
  removeComments : Bool := false
  /-- Keywords are written in upper case. -/
  uppercaseKeywords : Bool := false
deriving DecidableEq, Repr

/-- The value of one option was refused. -/
structure ConfigError where
  option : Text
  text : Text
deriving DecidableEq, Repr

/-- What a refused option is reported with. -/
def ConfigError.message (e : ConfigError) : Text :=
  "Option '".toList ++ e.option ++ "': ".toList ++ e.text

/-- One named setting. -/
inductive Setting where
  | reindent (on : Bool)
  | fromBreakCount (n : Int)
  | removeComments (on : Bool)
  | uppercaseKeywords (on : Bool)
  /-- A name that is no option. -/
  | other (name : Text)
deriving DecidableEq, Repr

/-- Why settings give no options. -/
inductive SettingError where
  | unknown (name : Text)
  | invalid (e : ConfigError)
deriving DecidableEq, Repr

/-- What refused settings are reported with. -/
def SettingError.message : SettingError → Text
  | .unknown name =>
    "FormatOptions.__init__() got an unexpected keyword argument ".toList ++ '\'' :: name ++ ['\'']
  | .invalid e => e.message

namespace Options

/-- The fault of a threshold below zero. -/
def negativeCount (n : Int) : ConfigError where
  option := "from_break_count".toList
  text := "must be >= 0, got ".toList ++ Text.ofInt n

/-- The name of the first setting that is no option. -/
def firstUnknown? (changes : List Setting) : Option Text :=
  changes.findSome? fun
    | .other name => some name
    | _ => none

/-- The threshold that is set last, if one is. -/
def lastCount? (changes : List Setting) : Option Int :=
  changes.reverse.findSome? fun
    | .fromBreakCount n => some n
    | _ => none

/-- Applies one setting; a threshold below zero is caught before. -/
def apply (o : Options) : Setting → Options
  | .reindent on => { o with reindent := on }
  | .fromBreakCount n => { o with fromBreakCount := n.toNat }
  | .removeComments on => { o with removeComments := on }
  | .uppercaseKeywords on => { o with uppercaseKeywords := on }
  | .other _ => o

/-- Options with some settings changed. A later setting of an option overrides an earlier one. -/
def change (o : Options) (changes : List Setting) : Except SettingError Options :=
  match firstUnknown? changes, lastCount? changes with
  | some name, _ => .error (.unknown name)
  | none, some (.negSucc n) => .error (.invalid (negativeCount (.negSucc n)))
  | none, _ => .ok (changes.foldl apply o)

/-- Options from settings, the others at their defaults. -/
def ofSettings (changes : List Setting) : Except SettingError Options := change {} changes

/-- Options from a configuration that may hold other settings too. -/
def ofConfiguration (changes : List Setting) : Except SettingError Options :=
  ofSettings (changes.filter fun
    | .other _ => false
    | _ => true)

end Options

end SqlLayout
