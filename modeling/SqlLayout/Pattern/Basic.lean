import SqlLayout.Pattern.CharSet

/-!
# Patterns

A pattern is matched at a place of a text, and sees the whole text before and after it. The places
where a match may end form a list in order of preference: `ends` gives them all, the left
choice of an alternation before the right one, and more turns of a greedy repetition before fewer.
`run` finds the first end from which a continuation succeeds, without listing the others.

Main statement: `match?` is the head of `ends` (`match?_eq_head?`), so theorems speak of `ends` and
programs run `run`.
-/

namespace SqlLayout

/-- A place in a text: what stands before it, the nearest character first, and what stands after
it. -/
structure Cursor where
  before : Text
  rest : Text
deriving DecidableEq, Repr

/-- The place before the first character. -/
def Cursor.start (t : Text) : Cursor := ⟨[], t⟩

/-- The place some characters back, if there are as many. -/
def Cursor.back? : Nat → Cursor → Option Cursor
  | 0, c => some c
  | n + 1, ⟨x :: before, rest⟩ => back? n ⟨before, x :: rest⟩
  | _ + 1, ⟨[], _⟩ => none

/-- The tests that look around a place and consume nothing. -/
inductive Anchor where
  /-- The start of the text. -/
  | textStart
  /-- The start of the text, or after a line feed. -/
  | lineStart
  /-- The end of the text. -/
  | textEnd
  /-- The end of the text, or before a line feed that ends it. -/
  | lastLineEnd
  /-- The end of the text, or before a line feed. -/
  | lineEnd
  /-- A word character on exactly one side. -/
  | wordEdge
  /-- A word character on both sides or on none. -/
  | notWordEdge
deriving DecidableEq, Repr

/-- A word character stands on exactly one side of the place. -/
def Cursor.atWordEdge (c : Cursor) : Bool :=
  c.before.head?.any Text.isWord != c.rest.head?.any Text.isWord

/-- Whether an anchor holds at a place. An empty text has no word edge, so `notWordEdge` holds in it.
Some matchers let neither anchor hold there; a lexer never asks, since a scan tries no rule where
nothing is left to read. -/
def Anchor.holds (c : Cursor) : Anchor → Bool
  | .textStart => c.before.isEmpty
  | .lineStart => c.before.head?.all (· == '\n')
  | .textEnd => c.rest.isEmpty
  | .lastLineEnd => c.rest.isEmpty || c.rest == ['\n']
  | .lineEnd => c.rest.head?.all (· == '\n')
  | .wordEdge => c.atWordEdge
  | .notWordEdge => !c.atWordEdge

/-- A pattern over characters. -/
inductive Pattern where
  /-- Matches and consumes nothing. -/
  | empty
  /-- One character of a set. -/
  | char (s : CharSet)
  /-- A test of the place. -/
  | anchor (a : Anchor)
  /-- Whether a pattern matches here must be as wanted; nothing is consumed. -/
  | ahead (wanted : Bool) (p : Pattern)
  /-- Whether a pattern matches from so many characters back must be as wanted. -/
  | behind (wanted : Bool) (width : Nat) (p : Pattern)
  /-- One pattern and then another. -/
  | seq (p q : Pattern)
  /-- One pattern or, failing that, another. -/
  | alt (p q : Pattern)
  /-- At least `least` turns and at most `most`; `greedy` prefers more turns to fewer. -/
  | times (p : Pattern) (least : Nat) (most : Option Nat) (greedy : Bool)
deriving Repr

namespace Pattern

/-! ## All ends, best first -/

/-- The ends of exactly `n` turns. -/
def exactly (turn : Cursor → List Cursor) : Nat → Cursor → List Cursor
  | 0, c => [c]
  | n + 1, c => (turn c).flatMap (exactly turn n)

/-- The ends of further turns, as many as the budget allows. A turn that consumes nothing is the
last one, so the turns come to an end. -/
def further (turn : Cursor → List Cursor) (greedy : Bool) (budget : Option Nat) (c : Cursor) :
    List Cursor :=
  let more :=
    if budget = some 0 then []
    else (turn c).flatMap fun e =>
      if e.rest.length < c.rest.length then further turn greedy (budget.map (· - 1)) e else [e]
  if greedy then more ++ [c] else [c] ++ more
termination_by c.rest.length

/-- The places where a match from a given place may end, in order of preference. -/
def ends : Pattern → Cursor → List Cursor
  | .empty, c => [c]
  | .char s, c =>
    match c.rest with
    | [] => []
    | x :: rest => if s.contains x then [⟨x :: c.before, rest⟩] else []
  | .anchor a, c => if a.holds c then [c] else []
  | .ahead wanted p, c => if (ends p c).isEmpty != wanted then [c] else []
  | .behind wanted width p, c =>
    if ((c.back? width).any fun b => !(ends p b).isEmpty) == wanted then [c] else []
  | .seq p q, c => (ends p c).flatMap (ends q)
  | .alt p q, c => ends p c ++ ends q c
  | .times p least most greedy, c =>
    (exactly (ends p) least c).flatMap (further (ends p) greedy (most.map (· - least)))

/-! ## The first end that serves a continuation -/

/-- What follows a match: it answers where the whole ends, or refuses the place it is given. -/
abbrev Continuation := Cursor → Option Cursor

/-- `exactly` before a continuation. -/
def runExactly (turn : Cursor → Continuation → Option Cursor) :
    Nat → Cursor → Continuation → Option Cursor
  | 0, c, k => k c
  | n + 1, c, k => turn c fun e => runExactly turn n e k

/-- `further` before a continuation. -/
def runFurther (turn : Cursor → Continuation → Option Cursor) (greedy : Bool)
    (budget : Option Nat) (c : Cursor) (k : Continuation) : Option Cursor :=
  let more := fun (_ : Unit) =>
    if budget = some 0 then none
    else turn c fun e =>
      if e.rest.length < c.rest.length then runFurther turn greedy (budget.map (· - 1)) e k
      else k e
  if greedy then (more ()).orElse fun _ => k c else (k c).orElse more
termination_by c.rest.length

/-- The answer of a continuation at the best end that it accepts. -/
def run : Pattern → Cursor → Continuation → Option Cursor
  | .empty, c, k => k c
  | .char s, c, k =>
    match c.rest with
    | [] => none
    | x :: rest => if s.contains x then k ⟨x :: c.before, rest⟩ else none
  | .anchor a, c, k => if a.holds c then k c else none
  | .ahead wanted p, c, k => if (run p c some).isNone != wanted then k c else none
  | .behind wanted width p, c, k =>
    if ((c.back? width).any fun b => (run p b some).isSome) == wanted then k c else none
  | .seq p q, c, k => run p c fun e => run q e k
  | .alt p q, c, k => (run p c k).orElse fun _ => run q c k
  | .times p least most greedy, c, k =>
    runExactly (run p) least c fun e => runFurther (run p) greedy (most.map (· - least)) e k

/-- The best end of a match at a place. -/
def match? (p : Pattern) (c : Cursor) : Option Cursor := p.run c some

/-! ## Running agrees with listing -/

theorem findSome?_flatMap {α β γ : Type} (l : List α) (f : α → List β) (k : β → Option γ) :
    (l.flatMap f).findSome? k = l.findSome? fun a => (f a).findSome? k := by
  induction l with
  | nil => rfl
  | cons a l ih =>
    rw [List.flatMap_cons, List.findSome?_append, ih, List.findSome?_cons]
    cases (f a).findSome? k <;> rfl

theorem runExactly_eq {turn : Cursor → Continuation → Option Cursor}
    {list : Cursor → List Cursor} (h : ∀ c k, turn c k = (list c).findSome? k)
    (n : Nat) (c : Cursor) (k : Continuation) :
    runExactly turn n c k = (exactly list n c).findSome? k := by
  induction n generalizing c with
  | zero => simp [runExactly, exactly]
  | succ n ih => simp only [runExactly, exactly, h, findSome?_flatMap, ih]

theorem runFurther_eq {turn : Cursor → Continuation → Option Cursor}
    {list : Cursor → List Cursor} (h : ∀ c k, turn c k = (list c).findSome? k)
    (greedy : Bool) (budget : Option Nat) (c : Cursor) (k : Continuation) :
    runFurther turn greedy budget c k = (further list greedy budget c).findSome? k := by
  induction hn : c.rest.length using Nat.strongRecOn generalizing budget c with
  | ind n ih =>
    subst hn
    have turns : ∀ e : Cursor,
        (if e.rest.length < c.rest.length then runFurther turn greedy (budget.map (· - 1)) e k
          else k e) =
        (if e.rest.length < c.rest.length then further list greedy (budget.map (· - 1)) e
          else [e]).findSome? k := by
      intro e
      split
      · next hlt => exact ih _ hlt _ _ rfl
      · simp
    have more_eq :
        (if budget = some 0 then none
          else turn c fun e =>
            if e.rest.length < c.rest.length then runFurther turn greedy (budget.map (· - 1)) e k
            else k e) =
        (if budget = some 0 then []
          else (list c).flatMap fun e =>
            if e.rest.length < c.rest.length then further list greedy (budget.map (· - 1)) e
            else [e]).findSome? k := by
      split
      · rfl
      · simp only [h, turns, findSome?_flatMap]
    rw [runFurther, further]
    cases greedy <;>
      simp only [more_eq, if_true, if_false, Bool.false_eq_true, List.findSome?_append,
        List.findSome?_singleton, Option.orElse_eq_or]

/-- Running a pattern before a continuation asks the ends for the first that it accepts. -/
theorem run_eq_findSome? (p : Pattern) (c : Cursor) (k : Continuation) :
    p.run c k = (p.ends c).findSome? k := by
  induction p generalizing c k with
  | empty => simp [run, ends]
  | char s =>
    rw [run, ends]
    cases c.rest with
    | nil => rfl
    | cons x rest => by_cases hx : s.contains x <;> simp [hx]
  | anchor a => by_cases ha : a.holds c <;> simp [run, ends, ha]
  | ahead wanted p ih =>
    have hsome : (p.run c some).isNone = (p.ends c).isEmpty := by
      rw [ih]
      cases p.ends c <;> simp
    by_cases hw : ((p.ends c).isEmpty != wanted) = true <;> simp [run, ends, hsome, hw]
  | behind wanted width p ih =>
    have hsome : ∀ b, (p.run b some).isSome = !(p.ends b).isEmpty := by
      intro b
      rw [ih]
      cases p.ends b <;> simp
    by_cases hw : (((c.back? width).any fun b => !(p.ends b).isEmpty) == wanted) = true <;>
      simp [run, ends, hsome, hw]
  | seq p q ihp ihq => simp only [run, ends, ihp, ihq, findSome?_flatMap]
  | alt p q ihp ihq =>
    simp [run, ends, ihp, ihq, List.findSome?_append, Option.orElse_eq_or]
  | times p least most greedy ih =>
    simp only [run, ends, findSome?_flatMap, runExactly_eq ih, runFurther_eq ih]

/-- The match is the first of the ends. -/
theorem match?_eq_head? (p : Pattern) (c : Cursor) : p.match? c = (p.ends c).head? := by
  rw [match?, run_eq_findSome?]
  cases p.ends c <;> simp

/-! ## Widths -/

/-- The fewest and the most characters that a match takes; `none` if there is no most. -/
def widths : Pattern → Nat × Option Nat
  | .empty | .anchor _ | .ahead _ _ | .behind _ _ _ => (0, some 0)
  | .char _ => (1, some 1)
  | .seq p q => (p.widths.1 + q.widths.1, p.widths.2.bind fun m => q.widths.2.map (m + ·))
  | .alt p q => (min p.widths.1 q.widths.1, p.widths.2.bind fun m => q.widths.2.map (max m))
  | .times p least most _ =>
    (p.widths.1 * least,
      if p.widths.2 = some 0 ∨ most = some 0 then some 0
      else p.widths.2.bind fun m => most.map (m * ·))

/-! ## Building patterns -/

/-- Patterns one after another. -/
def all : List Pattern → Pattern
  | [] => .empty
  | [p] => p
  | p :: ps => .seq p (all ps)

/-- Patterns in order of preference; at least one is to be given. -/
def choice : List Pattern → Pattern
  | [] => .empty
  | [p] => p
  | p :: ps => .alt p (choice ps)

/-- A fixed text. -/
def text (t : Text) : Pattern := all (t.map fun c => .char (.ofChars [c]))

/-- Any number of turns, preferring many. -/
def star (p : Pattern) : Pattern := .times p 0 none true

/-- One turn or more, preferring many. -/
def plus (p : Pattern) : Pattern := .times p 1 none true

/-- One turn or none, preferring one. -/
def opt (p : Pattern) : Pattern := .times p 0 (some 1) true

end Pattern

end SqlLayout
