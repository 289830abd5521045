import SqlLayout.Lexer.Sql
import SqlLayout.Proofs.Lexer.Cutting
import SqlLayout.Proofs.Pattern.Sets
import SqlLayout.Proofs.Text.Classes

/-!
# What the first character decides

A rule applies only where its pattern opens with the character that stands there. The rules of SQL
tell twelve sorts of characters apart (`Lead`), and a character of none of them opens no rule. So at
each place only the few rules of the character's lead are in play (`firstMatch?_lead`).
-/

namespace SqlLayout

/-- A rule does not apply where its matcher does not open. -/
theorem Rule.end?_eq_none {r : Rule} {b : Text} {x : Char} {t : Text}
    (h : r.matcher.opens x = false) : r.end? ⟨b, x :: t⟩ = none := by
  cases hend : r.end? ⟨b, x :: t⟩ with
  | none => rfl
  | some e =>
    obtain ⟨w, hw, hne, hopens⟩ := r.reads_of_end? hend
    cases w with
    | nil => exact absurd rfl hne
    | cons y w =>
      have hxy : x = y := by simpa using congrArg List.head? hw.rest_eq
      rw [hxy, hopens y w rfl] at h
      exact absurd h.symm Bool.false_ne_true

/-- Rules that do not apply may be left out. -/
theorem Lexer.firstMatch?_filter {α : Type} {entries : List α} {rule : α → Rule}
    {keep : α → Bool} {c : Cursor}
    (h : ∀ e ∈ entries, keep e = false → (rule e).end? c = none) :
    firstMatch? ((entries.filter keep).map rule) c = firstMatch? (entries.map rule) c := by
  unfold firstMatch?
  induction entries with
  | nil => rfl
  | cons e entries ih =>
    have htail := ih fun f hf => h f (List.mem_cons_of_mem e hf)
    by_cases hkeep : keep e = true
    · rw [List.filter_cons_of_pos hkeep, List.map_cons, List.map_cons, List.findSome?_cons,
        List.findSome?_cons, htail]
    · have hnone := h e List.mem_cons_self (by simpa using hkeep)
      rw [List.filter_cons_of_neg hkeep, htail, List.map_cons, List.findSome?_cons, hnone]
      rfl

namespace Sql

open Lexer Text Pattern

/-- The sorts of characters that a token may begin with. -/
inductive Lead where
  | lineEnd
  | blank
  | digit
  | letter
  | hyphen
  | star
  | point
  | quote
  | backQuote
  | comparison
  | sign
  | mark
  /-- No token begins with the character. -/
  | alien
deriving DecidableEq, Repr

/-- The sort of a character. -/
def lead (x : Char) : Lead :=
  if x ∈ "\r\n".toList then .lineEnd
  else if isBlank x then .blank
  else if isDigit x then .digit
  else if isWord x then .letter
  else if x = '-' then .hyphen
  else if x = '*' then .star
  else if x = '.' then .point
  else if x = '\'' then .quote
  else if x = '`' then .backQuote
  else if x ∈ "<>=~!".toList then .comparison
  else if x ∈ "+/@#%^&|".toList then .sign
  else if x ∈ ";()[],".toList then .mark
  else .alien

/-- The rules in order of priority, each with the leads that it may apply to. -/
def ruleLeads : List (Rule × List Lead) :=
  [(lineBreaks, [.lineEnd]), (blanks, [.blank]), (comment, [.hyphen]), (wildcard, [.star]),
    (exponentNumber, [.hyphen, .digit]), (pointNumber, [.hyphen, .digit, .point]),
    (wholeNumber, [.hyphen, .digit]), (singleQuoted, [.quote]), (backQuoted, [.backQuote]),
    (join, [.letter]), (orderBy, [.letter]), (groupBy, [.letter]), (unionAll, [.letter]),
    (comparison, [.comparison]), (arithmeticBeforeWord, [.hyphen, .sign]),
    (word, [.digit, .letter]), (punctuation, [.point, .mark]), (arithmetic, [.hyphen, .sign])]

theorem rules_eq : rules = ruleLeads.map (·.1) := rfl

/-- The rules that may apply at a character of this sort. -/
def rulesAt (l : Lead) : List Rule := (ruleLeads.filter (l ∈ ·.2)).map (·.1)

example : rulesAt .letter = [join, orderBy, groupBy, unionAll, word] := rfl

theorem isBlank_of_mem_lineEnds {x : Char} (h : x ∈ "\r\n".toList) : isBlank x = true := by
  have hall : ∀ y ∈ "\r\n".toList, isBlank y = true := by decide
  exact hall x h

theorem not_mem_lineEnds {x : Char} (h : isBlank x = false) : x ∉ "\r\n".toList := by
  intro hmem
  rw [isBlank_of_mem_lineEnds hmem] at h
  exact Bool.noConfusion h

theorem lead_of_isBlank {x : Char} (h : isBlank x = true) (hline : x ∉ "\r\n".toList) :
    lead x = .blank := by
  rw [lead, if_neg hline, if_pos h]

theorem lead_of_isDigit {x : Char} (h : isDigit x = true) : lead x = .digit := by
  have hblank := isBlank_eq_false_of_isWord (isWord_of_isDigit h)
  have hline := not_mem_lineEnds hblank
  rw [lead, if_neg hline, hblank, if_neg Bool.false_ne_true, if_pos h]

theorem lead_of_isWord {x : Char} (h : isWord x = true) : lead x ∈ [Lead.digit, .letter] := by
  have hblank := isBlank_eq_false_of_isWord h
  have hline := not_mem_lineEnds hblank
  rw [lead, if_neg hline, hblank, if_neg Bool.false_ne_true]
  split
  · simp
  · simp

/-! ## The first characters of the rules -/

theorem opens_oneOf (s : String) (x : Char) : (oneOf s).opens x = decide (x ∈ s.toList) :=
  CharSet.contains_ofChars s.toList x

theorem opens_exponentNumber (x : Char) :
    exponentNumber.matcher.opens x = (decide (x = '-') || isDigit x) := by
  have hclass : (CharSet.ofClass .digit).contains x = isDigit x :=
    CharSet.contains_ofClass .digit x
  simp [exponentNumber, number, digit, oneOf, opens, skippable, all, opt, plus, hclass,
    CharSet.contains_ofChars]

theorem opens_pointNumber (x : Char) :
    pointNumber.matcher.opens x = (decide (x = '-') || (isDigit x || decide (x = '.'))) := by
  have hclass : (CharSet.ofClass .digit).contains x = isDigit x :=
    CharSet.contains_ofClass .digit x
  simp [pointNumber, number, digit, oneOf, opens, skippable, all, choice, opt, plus, hclass,
    CharSet.contains_ofChars]

theorem opens_wholeNumber (x : Char) :
    wholeNumber.matcher.opens x = (decide (x = '-') || isDigit x) := by
  have hclass : (CharSet.ofClass .digit).contains x = isDigit x :=
    CharSet.contains_ofClass .digit x
  simp [wholeNumber, number, digit, oneOf, opens, skippable, all, opt, plus, hclass,
    CharSet.contains_ofChars]

theorem mem_of_opens_join {x : Char} (h : join.matcher.opens x = true) :
    x ∈ "JLRFIOSCN".toList := by
  simp [join, opens, skippable, all, choice, maybeWord, phrase, Pattern.text, opt,
    CharSet.contains_ofChars] at h
  simp
  grind

theorem opens_blanks (x : Char) :
    blanks.matcher.opens x = (isBlank x && !(x == '\r') && !(x == '\n')) := by
  show ((!isBlank x || (x == '\r' || (x == '\n' || false))) != true) = _
  cases isBlank x <;> cases x == '\r' <;> cases x == '\n' <;> rfl

theorem opens_word (x : Char) : word.matcher.opens x = isWord x := by
  show ((CharSet.ofClass .word).contains x || false) = isWord x
  rw [Bool.or_false, CharSet.contains_ofClass]
  rfl

/-- The leads of a rule are all that its pattern may begin with. -/
theorem lead_mem_of_opens {x : Char} {e : Rule × List Lead} (he : e ∈ ruleLeads)
    (h : e.1.matcher.opens x = true) : lead x ∈ e.2 := by
  have listed : ∀ {s : String} {l : List Lead}, (∀ y ∈ s.toList, lead y ∈ l) →
      (oneOf s).opens x = true → lead x ∈ l := by
    intro s l hs hx
    rw [opens_oneOf, decide_eq_true_iff] at hx
    exact hs x hx
  have first : ∀ {c : Char} {l : List Lead}, lead c ∈ l → x = c → lead x ∈ l := by
    rintro c l hc rfl
    exact hc
  have number : ∀ {l : List Lead}, .digit ∈ l → lead '-' ∈ l → (x = '-' ∨ isDigit x = true) →
      lead x ∈ l := by
    rintro l hdigit hhyphen (rfl | hx)
    · exact hhyphen
    · rw [lead_of_isDigit hx]
      exact hdigit
  simp only [ruleLeads, List.mem_cons, List.not_mem_nil, or_false] at he
  rcases he with rfl | rfl | rfl | rfl | rfl | rfl | rfl | rfl | rfl | rfl | rfl | rfl | rfl |
    rfl | rfl | rfl | rfl | rfl
  · exact listed (s := "\r\n") (by decide) h
  · rw [opens_blanks] at h
    simp only [Bool.and_eq_true, Bool.not_eq_true', beq_eq_false_iff_ne] at h
    obtain ⟨⟨hblank, hr⟩, hn⟩ := h
    rw [lead_of_isBlank hblank (by simp [hr, hn])]
    exact List.mem_singleton_self _
  · exact first (c := '-') (by decide) (by simpa [comment, opens, skippable, all, phrase,
      Pattern.text, CharSet.contains_ofChars] using h)
  · exact listed (s := "*") (by decide) h
  · exact number (by simp) (by decide) (by simpa [opens_exponentNumber] using h)
  · rw [opens_pointNumber, Bool.or_eq_true, Bool.or_eq_true, decide_eq_true_iff,
      decide_eq_true_iff] at h
    rcases h with h | h | h
    · exact first (c := '-') (by decide) h
    · exact number (by simp) (by decide) (.inr h)
    · exact first (c := '.') (by decide) h
  · exact number (by simp) (by decide) (by simpa [opens_wholeNumber] using h)
  · exact first (c := '\'') (by decide) (by simpa [singleQuoted, opens, skippable, all, oneOf,
      CharSet.contains_ofChars] using h)
  · exact first (c := '`') (by decide) (by simpa [backQuoted, opens, skippable, all, oneOf,
      CharSet.contains_ofChars] using h)
  · have hall : ∀ y ∈ "JLRFIOSCN".toList, lead y ∈ [Lead.letter] := by decide
    exact hall x (mem_of_opens_join h)
  · exact first (c := 'O') (by decide) (by simpa [orderBy, keywords, opens, skippable, all, phrase,
      Pattern.text, List.intersperse, CharSet.contains_ofChars] using h)
  · exact first (c := 'G') (by decide) (by simpa [groupBy, keywords, opens, skippable, all, phrase,
      Pattern.text, List.intersperse, CharSet.contains_ofChars] using h)
  · exact first (c := 'U') (by decide) (by simpa [unionAll, keywords, opens, skippable, all,
      phrase, Pattern.text, List.intersperse, CharSet.contains_ofChars] using h)
  · exact listed (s := "<>=~!") (by decide) h
  · exact listed (s := "+/@#%^&|-") (by decide) (by simpa [arithmeticBeforeWord, opens, plus] using h)
  · rw [opens_word] at h
    exact lead_of_isWord h
  · exact listed (s := ";()[],.") (by decide) h
  · exact listed (s := "+/@#%^&|-") (by decide) h

/-- A rule of SQL applies only to a character of one of its leads. -/
theorem end?_eq_none_of_lead {entry : Rule × List Lead} {x : Char} (h : entry ∈ ruleLeads)
    (hx : lead x ∉ entry.2) (b w : Text) : entry.1.end? ⟨b, x :: w⟩ = none := by
  apply Rule.end?_eq_none
  rw [← Bool.not_eq_true]
  intro hopens
  exact hx (lead_mem_of_opens h hopens)

theorem firstMatch?_lead (b : Text) (x : Char) (t : Text) :
    firstMatch? rules ⟨b, x :: t⟩ = firstMatch? (rulesAt (lead x)) ⟨b, x :: t⟩ := by
  rw [rules_eq, rulesAt]
  refine (firstMatch?_filter fun e he hkeep => ?_).symm
  exact end?_eq_none_of_lead he (of_decide_eq_false hkeep) b t

end Sql

end SqlLayout
