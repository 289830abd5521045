import SqlLayout.Layout.Format

/-!
# Options in force

Options may be put in force for all that follows, or for a block. A layout that is given none uses
those in force at the time it runs. A block restores the options in force before it, whatever its
body puts in force and whether it is run to its end, ends in an exception or is left early by one.
Options that are refused change nothing.

A command that fails answers its failure, and the commands after it are run all the same. A failure
that is not caught ends the commands of its level instead, and the block around them. Whether it goes
on from there is for that block to say, which may be caught in turn or not.
-/

namespace SqlLayout.Layout

/-- Something to be laid out. -/
inductive Source where
  | query (t : Text)
  | tokens (ts : List Token)
deriving DecidableEq, Repr

/-- The tokens of a source. Listed tokens need a kind that tokens can have. -/
def Source.resolve : Source → Except UnresolvedKind (List Token)
  | .query t => .ok (Sql.tokens t)
  | .tokens ts => ts.mapM fun t => Token.make t.kind t.value t.offset

/-- A use of the options in force. -/
inductive Command where
  /-- Puts options in force. -/
  | set (options : List Setting)
  /-- Puts the defaults in force. -/
  | reset
  /-- Asks for the options in force. -/
  | get
  /-- Lays out with the given options, or those in force, after some changes. -/
  | format (source : Source) (options : Option (List Setting)) (changes : List Setting)
  /-- Names a formatter, with options of its own or without. -/
  | formatter (name : Text) (options : Option (List Setting))
  /-- Lays out a query with a named formatter. -/
  | run (name query : Text)
  /-- Puts options in force for a body, which may end in an exception. -/
  | block (options : List Setting) (body : List Command) (raises : Bool)
  /-- A command whose failure is not caught. -/
  | uncaught (c : Command)
deriving Repr

/-- Why a command fails. -/
inductive CommandError where
  | settings (e : SettingError)
  | tokens (e : UnresolvedKind)
  | unknownFormatter (name : Text)
deriving DecidableEq, Repr

/-- What a command answers. -/
inductive Answer where
  | options (o : Options)
  | text (t : Text)
  | failed (e : CommandError)
  /-- The options in force inside, the answers of the body, whether it ended in an exception, and
  the options in force after the block. -/
  | block (inside : Options) (body : List Answer) (raised : Bool) (after : Options)
deriving Repr

/-- Commands that are refused fail, and blocks whose body ended in an exception. -/
def Answer.isFailure : Answer → Bool
  | .failed _ => true
  | .block _ _ raised _ => raised
  | .options _ | .text _ => false

/-- Whether a command that answers `a` ends the commands of its level. -/
def Command.escapes (a : Answer) : Command → Bool
  | .uncaught _ => a.isFailure
  | _ => false

/-- The options in force and the named formatters. -/
structure Scope where
  active : Options := {}
  formatters : List (Text × Option Options) := []
deriving DecidableEq, Repr

/-- What the commands of a level come to: the answers of those that were begun, whether the last of
them failed uncaught, and the scope that they leave. -/
structure Run where
  answers : List Answer
  broken : Bool
  scope : Scope
deriving Repr

namespace Scope

/-- The options of the formatter of a name: its own, or those in force. -/
def optionsOf? (s : Scope) (name : Text) : Option Options :=
  (s.formatters.lookup name).map (·.getD s.active)

/-- The options that are asked for: the given ones, or those in force, after some changes. -/
def request (s : Scope) (options : Option (List Setting)) (changes : List Setting) :
    Except SettingError Options := do
  let base ← match options with
    | some settings => Options.ofSettings settings
    | none => .ok s.active
  if changes.isEmpty then .ok base else base.change changes

/-- The text of a source laid out as asked for. -/
def layOut (s : Scope) (source : Source) (options : Option (List Setting))
    (changes : List Setting) : Except CommandError Text := do
  let tokens ← source.resolve.mapError .tokens
  let o ← (s.request options changes).mapError .settings
  return Layout.format o tokens

mutual

/-- Runs a command. -/
def exec (s : Scope) : Command → Answer × Scope
  | .set settings =>
    match Options.ofSettings settings with
    | .ok o => (.options o, { s with active := o })
    | .error e => (.failed (.settings e), s)
  | .reset => (.options {}, { s with active := {} })
  | .get => (.options s.active, s)
  | .format source options changes =>
    match s.layOut source options changes with
    | .ok t => (.text t, s)
    | .error e => (.failed e, s)
  | .formatter name settings =>
    match settings.mapM Options.ofSettings with
    | .ok options => (.options (options.getD s.active),
        { s with formatters := (name, options) :: s.formatters })
    | .error e => (.failed (.settings e), s)
  | .run name query =>
    match s.optionsOf? name with
    | some o => (.text (formatQuery o query), s)
    | none => (.failed (.unknownFormatter name), s)
  | .block settings body raises =>
    match Options.ofSettings settings with
    | .error e => (.failed (.settings e), s)
    | .ok o =>
      let run := execAll { s with active := o } body
      (.block o run.answers (run.broken || raises) s.active, { run.scope with active := s.active })
  | .uncaught c => exec s c

/-- Runs the commands of a level one after another, up to the first that fails uncaught. -/
def execAll (s : Scope) : List Command → Run
  | [] => ⟨[], false, s⟩
  | c :: rest =>
    let (answer, next) := exec s c
    if c.escapes answer then ⟨[answer], true, next⟩
    else
      let run := execAll next rest
      { run with answers := answer :: run.answers }

end

end Scope

end SqlLayout.Layout
