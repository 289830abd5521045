import SqlLayout.Text.Ranges

/-!
# The hierarchy of loggers

The names of loggers have dots in them, and a logger stands below those whose names come before its
dots. It is made when it is asked for the first time. The logger it hands its records up to is found
then, in a table of names: the nearest one above it that there is. Every name that is passed on the
way is kept as a place, so that a logger that is made there later takes over those that passed it.

The search goes from dot to dot towards the front, and after a dot it passes over the character
before it. Two dots side by side are therefore taken for one: the logger `a..b` is looked for at `a.`
only, and `a` is not found above it.
-/

namespace SqlLayout

/-- What the table of loggers holds under a name. -/
inductive LogNode where
  /-- A logger, with the one above it, if it has any, and whether it lets records for debugging
  through, if it has been asked since the levels were last changed. -/
  | logger (above : Option Text) (passes : Option Bool)
  /-- No logger so far, but loggers below that were looking for one. -/
  | place (below : List Text)
deriving DecidableEq, Repr

namespace LogNode

/-- A logger, and not a place for one. -/
def isLogger : LogNode → Bool
  | .logger _ _ => true
  | .place _ => false

/-- The logger above this one. -/
def above? : LogNode → Option Text
  | .logger above _ => above
  | .place _ => none

/-- Whether this logger lets records for debugging through, if it is known. -/
def passes? : LogNode → Option Bool
  | .logger _ passes => passes
  | .place _ => none

/-- The loggers that were looking for one here. -/
def waiting : LogNode → List Text
  | .logger _ _ => []
  | .place below => below

/-- The logger that stays above another one when one of this name is made above it. -/
def nearer (name : Text) (above : Option Text) : Option Text :=
  if above.any name.isPrefixOf then above else some name

/-- A logger goes below a new one of this name, unless the one above it is nearer. -/
def adopted (name : Text) : LogNode → LogNode
  | .logger above passes => .logger (nearer name above) passes
  | node => node

/-- Keeps in mind whether a logger lets records for debugging through, or forgets it. -/
def noted (passes : Option Bool) : LogNode → LogNode
  | .logger above _ => .logger above passes
  | node => node

end LogNode

/-- The table of loggers. The latest entry of a name counts. -/
structure Loggers where
  nodes : List (Text × LogNode) := []
deriving DecidableEq, Repr

namespace Loggers

/-! ## The table -/

/-- What the table holds under a name. -/
def find? (ls : Loggers) (name : Text) : Option LogNode := ls.nodes.lookup name

/-- Puts something under a name. -/
def set (ls : Loggers) (name : Text) (node : LogNode) : Loggers := ⟨(name, node) :: ls.nodes⟩

/-- Changes what stands under a name, if there is anything. -/
def update (ls : Loggers) (name : Text) (f : LogNode → LogNode) : Loggers :=
  match ls.find? name with
  | some node => ls.set name (f node)
  | none => ls

/-- There is a logger of this name. -/
def isLogger (ls : Loggers) (name : Text) : Bool := (ls.find? name).elim false LogNode.isLogger

/-- The logger above the one of this name. -/
def above? (ls : Loggers) (name : Text) : Option Text := (ls.find? name).elim none LogNode.above?

/-- Whether the logger of this name lets records for debugging through, if it is known. -/
def passes? (ls : Loggers) (name : Text) : Option Bool := (ls.find? name).elim none LogNode.passes?

/-- The loggers that were looking for one of this name. -/
def waiting (ls : Loggers) (name : Text) : List Text := (ls.find? name).elim [] LogNode.waiting

/-- Keeps in mind whether the logger of this name lets records for debugging through. -/
def note (ls : Loggers) (name : Text) (passes : Bool) : Loggers :=
  ls.update name (LogNode.noted (some passes))

/-- Forgets for all loggers whether they let records for debugging through. -/
def forget (ls : Loggers) : Loggers :=
  ⟨ls.nodes.map fun (name, node) => (name, node.noted none)⟩

/-! ## Making a logger -/

/-- The names above one whose characters are given from the last to the first; the nearest is first.
A name that begins with a dot has nothing before that dot. -/
def namesAbove : Text → List Text
  | '.' :: c :: rest => (c :: rest).reverse :: namesAbove rest
  | _ :: rest => namesAbove rest
  | [] => []

/-- The names that a logger is looked for at before one is found. -/
def passed (ls : Loggers) (name : Text) : List Text :=
  (namesAbove name.reverse).takeWhile (!ls.isLogger ·)

/-- A new logger takes over one that was looking for it. -/
def adopt (name : Text) (ls : Loggers) (child : Text) : Loggers :=
  ls.update child (LogNode.adopted name)

/-- A new logger is looking for one at a name above it. -/
def reserve (name : Text) (ls : Loggers) (above : Text) : Loggers :=
  ls.set above (.place (ls.waiting above ++ [name]))

/-- Makes the logger of a name, unless there is one. It takes over those that were looking for it, is
hung below the nearest logger above it, and goes on looking for one at all names that are nearer. -/
def make (ls : Loggers) (name : Text) : Loggers :=
  if ls.isLogger name then ls
  else
    let adopting := (ls.waiting name).foldl (adopt name) ls
    let reserving := (ls.passed name).foldl (reserve name) adopting
    reserving.set name (.logger ((namesAbove name.reverse).find? ls.isLogger) none)

/-! ## The way of a record -/

/-- A record comes from one logger to another in so many steps at most. -/
def reachesIn (ls : Loggers) (target : Text) : Nat → Text → Bool
  | 0, name => name == target
  | n + 1, name => name == target || (ls.above? name).any (ls.reachesIn target n)

/-- A record comes from one logger to another. The name of the logger above is always shorter, so
that there are no more steps than characters. -/
def reaches (ls : Loggers) (target name : Text) : Bool := ls.reachesIn target name.length name

end Loggers

end SqlLayout
