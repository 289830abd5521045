import SqlLayout.Proofs.Lexer.Sql.Leads
import SqlLayout.Proofs.Pattern.Runs

/-!
# Runs, marks and words

Most leads leave no choice: line terminators, other blanks, comparison signs and arithmetic signs
are cut in runs, the star and the punctuation marks one by one. A run of arithmetic signs is the
same whether or not a word follows it. Digits, letters, hyphens and points have a fallback that
always applies, behind the rules that look further ahead.
-/

namespace SqlLayout

/-- What is read up to a place is the longest run that passes a test. -/
theorem Cursor.past_append_iff {f : Char → Bool} {b v r : Text} :
    (⟨b, v ++ r⟩ : Cursor).past f = ⟨v.reverse ++ b, r⟩ ↔
      (∀ x ∈ v, f x = true) ∧ r.head?.any f = false := by
  constructor
  · intro h
    have hreads := Cursor.reads_past f ⟨b, v ++ r⟩
    rw [h] at hreads
    have hv : (v ++ r).takeWhile f = v := hreads.text_unique (.over b v r)
    have hr : (v ++ r).dropWhile f = r := congrArg Cursor.rest h
    refine ⟨fun x hx => ?_, ?_⟩
    · rw [← hv] at hx
      exact List.all_eq_true.1 List.all_takeWhile x hx
    · have hnot := List.head?_dropWhile_not f (v ++ r)
      rw [hr] at hnot
      cases hhead : r.head? with
      | none => rfl
      | some y =>
        rw [hhead] at hnot
        exact hnot
  · rintro ⟨hv, hr⟩
    exact past_append hv hr

namespace Rule

open Pattern

variable {s : CharSet} {b : Text} {x : Char} {t : Text}

theorem end?_of_match? {r : Rule} {c e : Cursor} (hm : r.matcher.match? c = some e)
    (hlt : e.rest.length < c.rest.length) : r.end? c = some e := by
  rw [end?, hm, Option.filter_some, if_pos (by simpa using hlt)]

theorem end?_char (kind : Kind) (hx : s.contains x = true) :
    (Rule.mk (char s) kind).end? ⟨b, x :: t⟩ = some ⟨x :: b, t⟩ := by
  refine end?_of_match? ?_ (by simp)
  rw [match?_toMatcher, match?_char, if_pos hx]

theorem past_shorter {f : Char → Bool} (hx : f x = true) :
    ((⟨b, x :: t⟩ : Cursor).past f).rest.length < (x :: t).length := by
  have hreads := Cursor.reads_past f ⟨b, x :: t⟩
  refine hreads.shorter_iff.2 ?_
  simp [hx]

theorem end?_run (kind : Kind) (hx : s.contains x = true) :
    (Rule.mk (plus (char s)) kind).end? ⟨b, x :: t⟩ =
      some ((⟨b, x :: t⟩ : Cursor).past s.contains) := by
  apply end?_of_match?
  · exact match?_plus_char_of_pos hx
  · exact past_shorter hx

end Rule

namespace Sql

open Lexer Text Pattern

variable {b : Text} {x : Char} {t : Text}

theorem contains_listed (s : String) :
    (CharSet.ofChars s.toList).contains = fun x => decide (x ∈ s.toList) :=
  funext fun x => CharSet.contains_ofChars s.toList x

/-! ## The leads and their characters -/

/-- The characters that tokens other than words, numbers and blanks begin with. -/
def signs : Text := "*<>=~!+/@#%^&|-;()[],.'`".toList

/-- No token begins with the character. -/
def IsAlien (x : Char) : Prop := isBlank x = false ∧ isWord x = false ∧ x ∉ signs

/-- The characters of a lead. -/
def Lead.Fits (x : Char) : Lead → Prop
  | .lineEnd => x ∈ "\r\n".toList
  | .blank => isBlank x = true ∧ x ∉ "\r\n".toList
  | .digit => isDigit x = true
  | .letter => isWord x = true ∧ isDigit x = false
  | .hyphen => x = '-'
  | .star => x = '*'
  | .point => x = '.'
  | .quote => x = '\''
  | .backQuote => x = '`'
  | .comparison => x ∈ "<>=~!".toList
  | .sign => x ∈ "+/@#%^&|".toList
  | .mark => x ∈ ";()[],".toList
  | .alien => IsAlien x

theorem lead_fits (x : Char) : (lead x).Fits x := by
  unfold lead
  by_cases hline : x ∈ "\r\n".toList
  · rw [if_pos hline]
    exact hline
  rw [if_neg hline]
  by_cases hblank : isBlank x = true
  · rw [if_pos hblank]
    exact ⟨hblank, hline⟩
  rw [if_neg hblank]
  by_cases hdigit : isDigit x = true
  · rw [if_pos hdigit]
    exact hdigit
  rw [if_neg hdigit]
  by_cases hword : isWord x = true
  · rw [if_pos hword]
    exact ⟨hword, by simpa using hdigit⟩
  rw [if_neg hword]
  by_cases hhyphen : x = '-'
  · rw [if_pos hhyphen]
    exact hhyphen
  rw [if_neg hhyphen]
  by_cases hstar : x = '*'
  · rw [if_pos hstar]
    exact hstar
  rw [if_neg hstar]
  by_cases hpoint : x = '.'
  · rw [if_pos hpoint]
    exact hpoint
  rw [if_neg hpoint]
  by_cases hquote : x = '\''
  · rw [if_pos hquote]
    exact hquote
  rw [if_neg hquote]
  by_cases hback : x = '`'
  · rw [if_pos hback]
    exact hback
  rw [if_neg hback]
  by_cases hcomparison : x ∈ "<>=~!".toList
  · rw [if_pos hcomparison]
    exact hcomparison
  rw [if_neg hcomparison]
  by_cases hsign : x ∈ "+/@#%^&|".toList
  · rw [if_pos hsign]
    exact hsign
  rw [if_neg hsign]
  by_cases hmark : x ∈ ";()[],".toList
  · rw [if_pos hmark]
    exact hmark
  rw [if_neg hmark]
  -- every character that a token begins with has been tested by now
  have hall : ∀ y ∈ signs, y = '-' ∨ y = '*' ∨ y = '.' ∨ y = '\'' ∨ y = '`' ∨
      y ∈ "<>=~!".toList ∨ y ∈ "+/@#%^&|".toList ∨ y ∈ ";()[],".toList := by decide
  refine ⟨by simpa using hblank, by simpa using hword, fun hmem => ?_⟩
  rcases hall x hmem with h | h | h | h | h | h | h | h
  · exact hhyphen h
  · exact hstar h
  · exact hpoint h
  · exact hquote h
  · exact hback h
  · exact hcomparison h
  · exact hsign h
  · exact hmark h

theorem fits_of_lead {l : Lead} (hx : lead x = l) : l.Fits x := hx ▸ lead_fits x

/-- A character that fits no other lead is an alien. -/
theorem lead_eq_alien_iff {x : Char} : lead x = .alien ↔ IsAlien x := by
  refine ⟨fits_of_lead, ?_⟩
  rintro ⟨hblank, hword, hsigns⟩
  have hdigit : isDigit x = false := by
    rw [← Bool.not_eq_true]
    intro hdigit
    rw [isWord_of_isDigit hdigit] at hword
    exact Bool.noConfusion hword
  have hline := not_mem_lineEnds hblank
  have hone : ∀ y ∈ signs, x ≠ y := by
    rintro y hy rfl
    exact hsigns hy
  have hlist : ∀ l : Text, (∀ y ∈ l, y ∈ signs) → x ∉ l := fun l hl hmem => hsigns (hl x hmem)
  rw [lead, if_neg hline, hblank, if_neg Bool.false_ne_true, hdigit, if_neg Bool.false_ne_true,
    hword, if_neg Bool.false_ne_true, if_neg (hone _ (by decide)), if_neg (hone _ (by decide)),
    if_neg (hone _ (by decide)), if_neg (hone _ (by decide)), if_neg (hone _ (by decide)),
    if_neg (hlist _ (by decide)), if_neg (hlist _ (by decide)), if_neg (hlist _ (by decide))]

/-! ## Leads without a choice -/

theorem firstMatch?_of_lead {l : Lead} (hx : lead x = l) :
    firstMatch? rules ⟨b, x :: t⟩ = firstMatch? (rulesAt l) ⟨b, x :: t⟩ := by
  rw [firstMatch?_lead, hx]

/-- A rule for runs of listed characters reads the longest run. -/
theorem end?_runOf {s : String} (kind : Kind) (hx : x ∈ s.toList) :
    (Rule.mk (plus (oneOf s)) kind).end? ⟨b, x :: t⟩ =
      some ((⟨b, x :: t⟩ : Cursor).past fun y => decide (y ∈ s.toList)) := by
  have hmem : (CharSet.ofChars s.toList).contains x = true := by
    rw [contains_listed]
    exact decide_eq_true hx
  rw [oneOf, Rule.end?_run kind hmem, contains_listed]

/-- A rule for one of the listed characters reads it. -/
theorem end?_oneOf {s : String} (kind : Kind) (hx : x ∈ s.toList) :
    (Rule.mk (oneOf s) kind).end? ⟨b, x :: t⟩ = some ⟨x :: b, t⟩ := by
  refine Rule.end?_char kind ?_
  rw [contains_listed]
  exact decide_eq_true hx

theorem firstMatch?_lineEnd (hx : lead x = .lineEnd) :
    firstMatch? rules ⟨b, x :: t⟩ =
      some (.newline, (⟨b, x :: t⟩ : Cursor).past fun y => decide (y ∈ "\r\n".toList)) := by
  rw [firstMatch?_of_lead hx]
  show firstMatch? [lineBreaks] ⟨b, x :: t⟩ = _
  rw [firstMatch?_singleton, lineBreaks, end?_runOf _ (fits_of_lead hx)]
  rfl

/-- A blank that ends no line. -/
def isInnerBlank (x : Char) : Bool := isBlank x && !(x == '\r') && !(x == '\n')

/-- The set of the rule for blanks. -/
def innerBlanks : CharSet :=
  { members := [.outside .blank, .char '\r', .char '\n'], negated := true }

theorem contains_innerBlanks : innerBlanks.contains = isInnerBlank := funext opens_blanks

theorem isInnerBlank_of_lead (hx : lead x = .blank) : isInnerBlank x = true := by
  obtain ⟨hblank, hline⟩ : isBlank x = true ∧ x ∉ "\r\n".toList := fits_of_lead hx
  have hr : x ≠ '\r' := fun h => hline (h ▸ by decide)
  have hn : x ≠ '\n' := fun h => hline (h ▸ by decide)
  simp [isInnerBlank, hblank, hr, hn]

theorem firstMatch?_blank (hx : lead x = .blank) :
    firstMatch? rules ⟨b, x :: t⟩ =
      some (.whitespace, (⟨b, x :: t⟩ : Cursor).past isInnerBlank) := by
  have hmem : innerBlanks.contains x = true := by
    rw [contains_innerBlanks]
    exact isInnerBlank_of_lead hx
  rw [firstMatch?_of_lead hx]
  show firstMatch? [⟨plus (char innerBlanks), .whitespace⟩] ⟨b, x :: t⟩ = _
  rw [firstMatch?_singleton, Rule.end?_run _ hmem, contains_innerBlanks]
  rfl

theorem firstMatch?_star (hx : lead x = .star) :
    firstMatch? rules ⟨b, x :: t⟩ = some (.wildcard, ⟨x :: b, t⟩) := by
  have hfits : x ∈ "*".toList := by
    rw [show x = '*' from fits_of_lead hx]
    decide
  rw [firstMatch?_of_lead hx]
  show firstMatch? [wildcard] ⟨b, x :: t⟩ = _
  rw [firstMatch?_singleton, wildcard, end?_oneOf _ hfits]
  rfl

theorem firstMatch?_comparison (hx : lead x = .comparison) :
    firstMatch? rules ⟨b, x :: t⟩ =
      some (.operator, (⟨b, x :: t⟩ : Cursor).past fun y => decide (y ∈ "<>=~!".toList)) := by
  rw [firstMatch?_of_lead hx]
  show firstMatch? [comparison] ⟨b, x :: t⟩ = _
  rw [firstMatch?_singleton, comparison, end?_runOf _ (fits_of_lead hx)]
  rfl

theorem firstMatch?_mark (hx : lead x = .mark) :
    firstMatch? rules ⟨b, x :: t⟩ = some (.punctuation, ⟨x :: b, t⟩) := by
  have hfits : x ∈ ";()[],.".toList := by
    have hsub : ∀ y ∈ ";()[],".toList, y ∈ ";()[],.".toList := by decide
    exact hsub x (fits_of_lead hx)
  rw [firstMatch?_of_lead hx]
  show firstMatch? [punctuation] ⟨b, x :: t⟩ = _
  rw [firstMatch?_singleton, punctuation, end?_oneOf _ hfits]
  rfl

theorem firstMatch?_alien (hx : lead x = .alien) : firstMatch? rules ⟨b, x :: t⟩ = none := by
  rw [firstMatch?_of_lead hx]
  rfl

/-! ## Runs of arithmetic signs -/

/-- A character of a run of arithmetic signs. -/
def isArithmetic (x : Char) : Bool := decide (x ∈ "+/@#%^&|-".toList)

theorem isWord_of_isArithmetic (h : isArithmetic x = true) : isWord x = false := by
  have hall : ∀ y ∈ "+/@#%^&|-".toList, isWord y = false := by decide
  exact hall x (of_decide_eq_true h)

/-- The rule for signs before a word reads the longest run, if it applies. -/
theorem end?_arithmeticBeforeWord {c e : Cursor} (h : arithmeticBeforeWord.end? c = some e) :
    e = c.past isArithmetic := by
  obtain ⟨hm, -⟩ := Option.filter_eq_some_iff.1 h
  rw [arithmeticBeforeWord, match?_toMatcher, match?_eq_head?] at hm
  obtain ⟨d, hd, he⟩ := List.mem_flatMap.1 (List.mem_of_mem_head? hm)
  have hedge : d.atWordEdge = true ∧ e = d := by
    rw [ends] at he
    split at he
    · next hholds => exact ⟨hholds, List.mem_singleton.1 he⟩
    · simp at he
  obtain ⟨hedge, rfl⟩ := hedge
  obtain ⟨w, ⟨hne, hall⟩, hw⟩ := (spells_plus_char _ c e).1 hd
  have hall : ∀ y ∈ w, isArithmetic y = true := by
    intro y hy
    have hy' := hall y hy
    rwa [contains_listed] at hy'
  -- a shorter run would end between two signs, where there is no edge
  have hrest : e.rest.head?.any isArithmetic = false := by
    cases hhead : e.rest.head? with
    | none => rfl
    | some y =>
      rw [Option.any_some, ← Bool.not_eq_true]
      intro hy
      have hlast : e.before.head?.any isWord = false := by
        rw [hw.before_eq, List.head?_append, List.head?_reverse, List.getLast?_eq_some_getLast hne]
        exact isWord_of_isArithmetic (hall _ (List.getLast_mem hne))
      rw [Cursor.atWordEdge, hlast, hhead, Option.any_some, isWord_of_isArithmetic hy] at hedge
      exact absurd hedge (by decide)
  obtain ⟨b, t⟩ := c
  obtain ⟨r, rfl, rfl⟩ := Cursor.reads_iff.1 hw
  exact (Cursor.past_append hall hrest).symm

/-- The two rules for arithmetic signs read the longest run. -/
theorem firstMatch?_arithmetic (hx : isArithmetic x = true) :
    firstMatch? [arithmeticBeforeWord, arithmetic] ⟨b, x :: t⟩ =
      some (.operator, (⟨b, x :: t⟩ : Cursor).past isArithmetic) := by
  have hrun : arithmetic.end? ⟨b, x :: t⟩ = some ((⟨b, x :: t⟩ : Cursor).past isArithmetic) := by
    exact end?_runOf .operator (of_decide_eq_true hx)
  show firstMatch? ([arithmeticBeforeWord] ++ [arithmetic]) ⟨b, x :: t⟩ = _
  rw [firstMatch?_append, firstMatch?_singleton, firstMatch?_singleton, hrun]
  cases hbefore : arithmeticBeforeWord.end? ⟨b, x :: t⟩ with
  | none => rfl
  | some e =>
    rw [end?_arithmeticBeforeWord hbefore]
    rfl

theorem firstMatch?_sign (hx : lead x = .sign) :
    firstMatch? rules ⟨b, x :: t⟩ =
      some (.operator, (⟨b, x :: t⟩ : Cursor).past isArithmetic) := by
  rw [firstMatch?_of_lead hx]
  have hsub : ∀ y ∈ "+/@#%^&|".toList, isArithmetic y = true := by decide
  exact firstMatch?_arithmetic (hsub x (fits_of_lead hx))

/-! ## Words, and what comes before them -/

/-- A character of a word after its first. -/
def isWordPart (x : Char) : Bool := decide (x ∈ "$#".toList) || isWord x

theorem contains_wordPart :
    ((CharSet.ofChars "$#".toList).union (.ofClass .word)).contains = isWordPart := by
  funext y
  rw [CharSet.contains_union ⟨rfl, rfl⟩ ⟨rfl, rfl⟩, CharSet.contains_ofChars,
    CharSet.contains_ofClass]
  rfl

theorem isWordPart_of_isWord (hx : isWord x = true) : isWordPart x = true := by
  rw [isWordPart, hx, Bool.or_true]

theorem any_isWordPart_of_any_isWord {o : Option Char} (h : o.any isWord = true) :
    o.any isWordPart = true :=
  any_of_imp (fun _ => isWordPart_of_isWord) h

theorem end?_word (hx : isWord x = true) :
    word.end? ⟨b, x :: t⟩ = some ((⟨b, x :: t⟩ : Cursor).past isWordPart) := by
  refine Rule.end?_of_match? ?_ (Rule.past_shorter (isWordPart_of_isWord hx))
  have hfirst : (char (.ofClass .word)).match? ⟨b, x :: t⟩ = some ⟨x :: b, t⟩ := by
    rw [match?_char, CharSet.contains_ofClass]
    exact if_pos hx
  refine match?_seq hfirst ?_
  rw [match?_star_char, contains_wordPart, Cursor.past_cons_of_pos (isWordPart_of_isWord hx)]

/-- The rules for numbers. -/
def numberRules : List Rule := [exponentNumber, pointNumber, wholeNumber]

/-- The rules for keywords of several words. -/
def phraseRules : List Rule := [join, orderBy, groupBy, unionAll]

theorem firstMatch?_digit (hx : lead x = .digit) :
    firstMatch? rules ⟨b, x :: t⟩ =
      (firstMatch? numberRules ⟨b, x :: t⟩).or
        (some (.useAsKeyword, (⟨b, x :: t⟩ : Cursor).past isWordPart)) := by
  rw [firstMatch?_of_lead hx]
  show firstMatch? (numberRules ++ [word]) ⟨b, x :: t⟩ = _
  rw [firstMatch?_append, firstMatch?_singleton, end?_word (isWord_of_isDigit (fits_of_lead hx))]
  rfl

theorem firstMatch?_letter (hx : lead x = .letter) :
    firstMatch? rules ⟨b, x :: t⟩ =
      (firstMatch? phraseRules ⟨b, x :: t⟩).or
        (some (.useAsKeyword, (⟨b, x :: t⟩ : Cursor).past isWordPart)) := by
  rw [firstMatch?_of_lead hx]
  show firstMatch? (phraseRules ++ [word]) ⟨b, x :: t⟩ = _
  rw [firstMatch?_append, firstMatch?_singleton, end?_word (fits_of_lead hx).1]
  rfl

theorem firstMatch?_hyphen (b t : Text) :
    firstMatch? rules ⟨b, '-' :: t⟩ =
      ((comment.end? ⟨b, '-' :: t⟩).map (.comment, ·)).or
        ((firstMatch? numberRules ⟨b, '-' :: t⟩).or
          (some (.operator, (⟨b, '-' :: t⟩ : Cursor).past isArithmetic))) := by
  rw [firstMatch?_of_lead (by decide : lead '-' = .hyphen)]
  show firstMatch? ([comment] ++ (numberRules ++ [arithmeticBeforeWord, arithmetic])) _ = _
  rw [firstMatch?_append, firstMatch?_append, firstMatch?_singleton,
    firstMatch?_arithmetic (by decide)]
  rfl

theorem firstMatch?_point (b t : Text) :
    firstMatch? rules ⟨b, '.' :: t⟩ =
      (firstMatch? numberRules ⟨b, '.' :: t⟩).or (some (.punctuation, ⟨'.' :: b, t⟩)) := by
  have hexponent : exponentNumber.end? ⟨b, '.' :: t⟩ = none :=
    Rule.end?_eq_none (by rw [opens_exponentNumber]; decide)
  have hwhole : wholeNumber.end? ⟨b, '.' :: t⟩ = none :=
    Rule.end?_eq_none (by rw [opens_wholeNumber]; decide)
  have hnumbers : firstMatch? numberRules ⟨b, '.' :: t⟩ =
      firstMatch? [pointNumber] ⟨b, '.' :: t⟩ := by
    show firstMatch? ([exponentNumber] ++ ([pointNumber] ++ [wholeNumber])) _ = _
    rw [firstMatch?_append, firstMatch?_append, firstMatch?_singleton exponentNumber,
      firstMatch?_singleton wholeNumber, hexponent, hwhole]
    simp
  rw [firstMatch?_of_lead (by decide : lead '.' = .point), hnumbers]
  show firstMatch? ([pointNumber] ++ [punctuation]) _ = _
  rw [firstMatch?_append, firstMatch?_singleton punctuation]
  rw [punctuation, end?_oneOf .punctuation (by decide)]
  rfl

end Sql

end SqlLayout
