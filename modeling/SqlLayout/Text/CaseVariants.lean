import SqlLayout.Text.Lower
import SqlLayout.Text.Upper

/-!
# Characters that differ only in case

Two characters agree up to case when their lower forms have the same upper case. This joins `k`, `K`
and the Kelvin sign, `s`, `S` and the long `ſ`, and `i`, `I`, the dotless `ı` and the dotted `İ`.
`caseVariants` lists all characters that agree with a given one; it reads the case tables backwards
instead of trying every character.
-/

namespace SqlLayout.Text

/-- The lower case of a character, cut to its first character. -/
def lowerForm (c : Char) : Char := (lowerChar c).headD c

/-- The upper case of a character, cut to its first character. -/
def upperForm (c : Char) : Char := (upperChar c).headD c

/-- What characters that agree up to case have in common. -/
def caseKey (c : Char) : List Char := upperChar (lowerForm c)

/-- Two characters agree up to case. -/
def agreeUpToCase (c d : Char) : Bool := caseKey c == caseKey d

/-- The code points that a table takes to `n` by a shift. -/
def shiftSources (runs : List CaseRun) (n : Nat) : List Nat :=
  runs.filterMap fun r =>
    let m := (n - r.shift : Int).toNat
    if r.moves m then some m else none

/-- The code points that a table takes to the given codes, whether by a shift, by an expansion or
by leaving them alone. -/
def caseSources (runs : List CaseRun) (expansions : List (Nat × List Nat)) (codes : List Nat) :
    List Nat :=
  (expansions.filter (·.2 == codes)).map (·.1) ++
    match codes with
    | [n] => n :: shiftSources runs n
    | _ => []

/-- All characters that agree with a given one up to case. -/
def caseVariants (c : Char) : List Char :=
  let lowers := (caseSources upperRuns upperExpansions ((caseKey c).map Char.toNat)).map Char.ofNat
  let dotted := (lowerExpansions.map (Char.ofNat ·.1))
  let sources := lowers.flatMap fun l => (caseSources lowerRuns [] [l.toNat]).map Char.ofNat
  (c :: (dotted ++ sources)).filter (agreeUpToCase c)

end SqlLayout.Text
