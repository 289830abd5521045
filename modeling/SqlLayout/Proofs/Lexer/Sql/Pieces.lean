import SqlLayout.Proofs.Lexer.Sql.Comments
import SqlLayout.Proofs.Lexer.Sql.Phrases

/-!
# What the rules of SQL cut

`Piece b v r kind` says sort by sort when the text `v` is cut between `b` and `r` by a rule of that
kind. It holds exactly where the rules do so (`firstMatch?_eq_some_iff_piece`), so whatever is to be
known of the tokens of a query is read off its constructors.
-/

namespace SqlLayout.Sql

open Lexer Text Pattern

/-- The first text is the longest run of characters that pass the test, and the second one what
follows it. -/
structure IsRun (f : Char → Bool) (v r : Text) : Prop where
  all : ∀ x ∈ v, f x = true
  stops : r.head?.any f = false

/-- The rules cut this text between what stands before it, the nearest character first, and what
follows it. -/
inductive Piece : Text → Text → Text → Kind → Prop
  | lineEnds {b r w : Text} {x : Char} (hx : lead x = .lineEnd)
      (run : IsRun (fun y => decide (y ∈ "\r\n".toList)) (x :: w) r) : Piece b (x :: w) r .newline
  | blanks {b r w : Text} {x : Char} (hx : lead x = .blank) (run : IsRun isInnerBlank (x :: w) r) :
      Piece b (x :: w) r .whitespace
  | star (b r : Text) : Piece b ['*'] r .wildcard
  | mark {b r : Text} {x : Char} (hx : lead x = .mark) : Piece b [x] r .punctuation
  | comparison {b r w : Text} {x : Char} (hx : lead x = .comparison)
      (run : IsRun (fun y => decide (y ∈ "<>=~!".toList)) (x :: w) r) : Piece b (x :: w) r .operator
  | sign {b r w : Text} {x : Char} (hx : lead x = .sign) (run : IsRun isArithmetic (x :: w) r) :
      Piece b (x :: w) r .operator
  | comment {b v r : Text} (h : IsComment v r) : Piece b v r .comment
  /-- A run of signs that begins with a hyphen is no comment and no number. -/
  | hyphen {b r w : Text} (hcomment : ¬"--".toList <+: '-' :: (w ++ r))
      (hnumber : firstMatch? numberRules ⟨b, '-' :: (w ++ r)⟩ = none)
      (run : IsRun isArithmetic ('-' :: w) r) : Piece b ('-' :: w) r .operator
  | number {b v r : Text} {kind : Kind} (hcomment : ¬"--".toList <+: v ++ r)
      (h : firstMatch? numberRules ⟨b, v ++ r⟩ = some (kind, ⟨v.reverse ++ b, r⟩)) :
      Piece b v r kind
  | point {b r : Text} (hnumber : firstMatch? numberRules ⟨b, '.' :: r⟩ = none) :
      Piece b ['.'] r .punctuation
  | singleQuoted {b r w : Text} (h : close? '\'' true (w ++ r) = some w) :
      Piece b ('\'' :: w) r .string
  | backQuoted {b r w : Text} (h : close? '`' false (w ++ r) = some w) : Piece b ('`' :: w) r .string
  | phrase {b v r : Text} {kind : Kind}
      (h : firstMatch? phraseRules ⟨b, v ++ r⟩ = some (kind, ⟨v.reverse ++ b, r⟩)) :
      Piece b v r kind
  | word {b r w : Text} {x : Char} (hx : lead x = .letter)
      (hphrase : firstMatch? phraseRules ⟨b, x :: (w ++ r)⟩ = none)
      (run : IsRun isWordPart (x :: w) r) : Piece b (x :: w) r .useAsKeyword
  /-- Digits that are no number, since something touches them. -/
  | digits {b r w : Text} {x : Char} (hx : lead x = .digit)
      (hnumber : firstMatch? numberRules ⟨b, x :: (w ++ r)⟩ = none)
      (run : IsRun isWordPart (x :: w) r) : Piece b (x :: w) r .useAsKeyword

variable {b v r w : Text} {x : Char} {kind kind' : Kind} {f : Char → Bool}

/-! ## From the rules to the pieces -/

theorem some_run_eq_iff :
    some (kind', (⟨b, v ++ r⟩ : Cursor).past f) = some (kind, (⟨v.reverse ++ b, r⟩ : Cursor)) ↔
      kind' = kind ∧ IsRun f v r := by
  rw [Option.some.injEq, Prod.mk.injEq, Cursor.past_append_iff]
  exact and_congr_right fun _ => ⟨fun h => ⟨h.1, h.2⟩, fun h => ⟨h.all, h.stops⟩⟩

theorem some_one_eq_iff :
    some (kind', (⟨x :: b, w ++ r⟩ : Cursor)) = some (kind, ⟨(x :: w).reverse ++ b, r⟩) ↔
      kind' = kind ∧ w = [] := by
  rw [Option.some.injEq, Prod.mk.injEq, Cursor.mk.injEq]
  refine and_congr_right fun _ => ⟨fun h => ?_, ?_⟩
  · have hrest : w ++ r = [] ++ r := h.2
    exact List.append_cancel_right hrest
  · rintro rfl
    simp

theorem comment_end?_eq_none_iff {t : Text} :
    comment.end? ⟨b, t⟩ = none ↔ ¬"--".toList <+: t := by
  refine ⟨?_, comment_end?_eq_none⟩
  rintro hnone ⟨u, rfl⟩
  obtain ⟨v, r, heq, hcomment⟩ := exists_isComment u
  rw [heq, comment_end?_of_isComment hcomment] at hnone
  simp at hnone

theorem map_close?_eq_iff {q : Char} {doubled : Bool} :
    ((close? q doubled (w ++ r)).map fun u =>
      (Kind.string, (⟨u.reverse ++ q :: b, (w ++ r).drop u.length⟩ : Cursor))) =
        some (kind, ⟨(q :: w).reverse ++ b, r⟩) ↔
      kind = .string ∧ close? q doubled (w ++ r) = some w := by
  rw [Option.map_eq_some_iff]
  constructor
  · rintro ⟨u, hu, heq⟩
    obtain ⟨rfl, hplace⟩ := Prod.mk.inj heq
    have hbefore := congrArg Cursor.before hplace
    simp only [List.reverse_cons, List.append_assoc, List.singleton_append] at hbefore
    have huw : u = w := by simpa using List.append_cancel_right hbefore
    exact ⟨rfl, huw ▸ hu⟩
  · rintro ⟨rfl, hw⟩
    exact ⟨w, hw, by simp⟩

/-- Whatever the rules cut is a piece. -/
theorem piece_of_firstMatch? (hne : v ≠ [])
    (h : firstMatch? rules ⟨b, v ++ r⟩ = some (kind, ⟨v.reverse ++ b, r⟩)) : Piece b v r kind := by
  obtain ⟨x, w, rfl⟩ := List.exists_cons_of_ne_nil hne
  rw [List.cons_append] at h
  cases hlead : lead x with
  | lineEnd =>
    rw [firstMatch?_lineEnd hlead, ← List.cons_append, some_run_eq_iff] at h
    exact h.1 ▸ .lineEnds hlead h.2
  | blank =>
    rw [firstMatch?_blank hlead, ← List.cons_append, some_run_eq_iff] at h
    exact h.1 ▸ .blanks hlead h.2
  | digit =>
    -- digits that are no number are a word
    rw [firstMatch?_digit hlead] at h
    have hhyphen : x ≠ '-' := by
      rintro rfl
      exact absurd hlead (by decide)
    cases hnumber : firstMatch? numberRules ⟨b, x :: (w ++ r)⟩ with
    | none =>
      rw [hnumber, Option.none_or, ← List.cons_append, some_run_eq_iff] at h
      exact h.1 ▸ .digits hlead hnumber h.2
    | some found =>
      rw [hnumber, Option.some_or] at h
      refine .number ?_ (hnumber.trans h)
      rintro ⟨t, ht⟩
      exact hhyphen (List.cons.inj ht).1.symm
  | letter =>
    rw [firstMatch?_letter hlead] at h
    cases hphrase : firstMatch? phraseRules ⟨b, x :: (w ++ r)⟩ with
    | none =>
      rw [hphrase, Option.none_or, ← List.cons_append, some_run_eq_iff] at h
      exact h.1 ▸ .word hlead hphrase h.2
    | some found =>
      rw [hphrase, Option.some_or] at h
      exact .phrase (hphrase.trans h)
  | hyphen =>
    -- a comment comes before a number, and that before a run of signs
    obtain rfl : x = '-' := fits_of_lead hlead
    rw [firstMatch?_hyphen] at h
    cases hcomment : comment.end? ⟨b, '-' :: (w ++ r)⟩ with
    | some e =>
      rw [hcomment, Option.map_some, Option.some_or, Option.some.injEq, Prod.mk.injEq] at h
      obtain ⟨rfl, rfl⟩ := h
      exact .comment (comment_end?_eq_some_iff.1 hcomment)
    | none =>
      rw [hcomment, Option.map_none, Option.none_or] at h
      rw [comment_end?_eq_none_iff] at hcomment
      cases hnumber : firstMatch? numberRules ⟨b, '-' :: (w ++ r)⟩ with
      | none =>
        rw [hnumber, Option.none_or, ← List.cons_append, some_run_eq_iff] at h
        exact h.1 ▸ .hyphen hcomment hnumber h.2
      | some found =>
        rw [hnumber, Option.some_or] at h
        exact .number hcomment (hnumber.trans h)
  | star =>
    obtain rfl : x = '*' := fits_of_lead hlead
    rw [firstMatch?_star hlead, some_one_eq_iff] at h
    obtain ⟨rfl, rfl⟩ := h
    exact .star b r
  | point =>
    obtain rfl : x = '.' := fits_of_lead hlead
    rw [firstMatch?_point] at h
    cases hnumber : firstMatch? numberRules ⟨b, '.' :: (w ++ r)⟩ with
    | none =>
      rw [hnumber, Option.none_or, some_one_eq_iff] at h
      obtain ⟨rfl, rfl⟩ := h
      exact .point hnumber
    | some found =>
      rw [hnumber, Option.some_or] at h
      refine .number ?_ (hnumber.trans h)
      rintro ⟨t, ht⟩
      exact absurd (List.cons.inj ht).1 (by decide)
  | quote =>
    obtain rfl : x = '\'' := fits_of_lead hlead
    rw [firstMatch?_singleQuote, map_close?_eq_iff] at h
    exact h.1 ▸ .singleQuoted h.2
  | backQuote =>
    obtain rfl : x = '`' := fits_of_lead hlead
    rw [firstMatch?_backQuote, map_close?_eq_iff] at h
    exact h.1 ▸ .backQuoted h.2
  | comparison =>
    rw [firstMatch?_comparison hlead, ← List.cons_append, some_run_eq_iff] at h
    exact h.1 ▸ .comparison hlead h.2
  | sign =>
    rw [firstMatch?_sign hlead, ← List.cons_append, some_run_eq_iff] at h
    exact h.1 ▸ .sign hlead h.2
  | mark =>
    rw [firstMatch?_mark hlead, some_one_eq_iff] at h
    obtain ⟨rfl, rfl⟩ := h
    exact .mark hlead
  | alien =>
    rw [firstMatch?_alien hlead] at h
    simp at h

/-! ## And back -/

/-- Where a rule applies, the character's lead is one of the rule's. -/
theorem lead_mem_of_firstMatch? (entries : List (Rule × List Lead)) {leads : List Lead} {t : Text}
    {found : Kind × Cursor} (hsub : ∀ e ∈ entries, e ∈ ruleLeads ∧ e.2 ⊆ leads)
    (h : firstMatch? (entries.map (·.1)) ⟨b, x :: t⟩ = some found) : lead x ∈ leads := by
  obtain ⟨rule, hrule, hend, -⟩ := exists_rule_of_firstMatch? h
  obtain ⟨e, he, rfl⟩ := List.mem_map.1 hrule
  obtain ⟨hrules, hleads⟩ := hsub e he
  by_contra hnot
  rw [end?_eq_none_of_lead hrules fun hlead => hnot (hleads hlead)] at hend
  simp at hend

theorem lead_of_numberRules {t : Text} {found : Kind × Cursor}
    (h : firstMatch? numberRules ⟨b, x :: t⟩ = some found) :
    lead x ∈ [Lead.hyphen, .digit, .point] := by
  refine lead_mem_of_firstMatch? [(exponentNumber, [.hyphen, .digit]),
    (pointNumber, [.hyphen, .digit, .point]), (wholeNumber, [.hyphen, .digit])] ?_ h
  intro e he
  simp only [List.mem_cons, List.not_mem_nil, or_false] at he
  rcases he with rfl | rfl | rfl <;> exact ⟨by simp [ruleLeads], by decide⟩

theorem lead_of_phraseRules {t : Text} {found : Kind × Cursor}
    (h : firstMatch? phraseRules ⟨b, x :: t⟩ = some found) : lead x = .letter := by
  refine List.mem_singleton.1 (lead_mem_of_firstMatch? [(join, [.letter]),
    (orderBy, [.letter]), (groupBy, [.letter]), (unionAll, [.letter])] ?_ h)
  intro e he
  simp only [List.mem_cons, List.not_mem_nil, or_false] at he
  rcases he with rfl | rfl | rfl | rfl <;> exact ⟨by simp [ruleLeads], by decide⟩

theorem Piece.ne_nil (h : Piece b v r kind) : v ≠ [] := by
  have hreads : ∀ {rules : List Rule} {kind : Kind} {v : Text},
      firstMatch? rules ⟨b, v ++ r⟩ = some (kind, ⟨v.reverse ++ b, r⟩) → v ≠ [] := by
    intro rules kind v h
    have hread := reads_of_firstMatch? h
    rw [(Cursor.Reads.over b v r).upTo_eq] at hread
    exact hread.2
  cases h with
  | comment h =>
    obtain ⟨body, term, rfl, -⟩ := h
    simp
  | number _ h => exact hreads h
  | phrase h => exact hreads h
  | _ => simp

/-- And every piece is cut. -/
theorem Piece.firstMatch? (h : Piece b v r kind) :
    Lexer.firstMatch? rules ⟨b, v ++ r⟩ = some (kind, ⟨v.reverse ++ b, r⟩) := by
  have hne := h.ne_nil
  cases h with
  | lineEnds hx run =>
    rw [List.cons_append, firstMatch?_lineEnd hx, ← List.cons_append, some_run_eq_iff]
    exact ⟨rfl, run⟩
  | blanks hx run =>
    rw [List.cons_append, firstMatch?_blank hx, ← List.cons_append, some_run_eq_iff]
    exact ⟨rfl, run⟩
  | star => exact firstMatch?_star (by decide)
  | mark hx => exact firstMatch?_mark hx
  | comparison hx run =>
    rw [List.cons_append, firstMatch?_comparison hx, ← List.cons_append, some_run_eq_iff]
    exact ⟨rfl, run⟩
  | sign hx run =>
    rw [List.cons_append, firstMatch?_sign hx, ← List.cons_append, some_run_eq_iff]
    exact ⟨rfl, run⟩
  | comment h =>
    have hend := comment_end?_of_isComment (b := b) h
    obtain ⟨body, term, rfl, -⟩ := h
    have hcons : "--".toList ++ (body ++ term) ++ r = '-' :: ('-' :: (body ++ term) ++ r) := rfl
    rw [hcons] at hend ⊢
    rw [firstMatch?_hyphen, hend]
    rfl
  | hyphen hcomment hnumber run =>
    rw [List.cons_append, firstMatch?_hyphen, comment_end?_eq_none hcomment, hnumber,
      Option.map_none, Option.none_or, Option.none_or, ← List.cons_append, some_run_eq_iff]
    exact ⟨rfl, run⟩
  | number hcomment h =>
    obtain ⟨x, w, rfl⟩ := List.exists_cons_of_ne_nil hne
    have hlead := lead_of_numberRules (t := w ++ r) h
    simp only [List.mem_cons, List.not_mem_nil, or_false] at hlead
    rw [List.cons_append] at h hcomment ⊢
    rcases hlead with hlead | hlead | hlead
    · obtain rfl : x = '-' := fits_of_lead hlead
      rw [firstMatch?_hyphen, comment_end?_eq_none hcomment, h]
      rfl
    · rw [firstMatch?_digit hlead, h]
      rfl
    · obtain rfl : x = '.' := fits_of_lead hlead
      rw [firstMatch?_point, h]
      rfl
  | point hnumber =>
    rw [List.cons_append, List.nil_append, firstMatch?_point, hnumber]
    rfl
  | singleQuoted h =>
    rw [List.cons_append, firstMatch?_singleQuote, map_close?_eq_iff]
    exact ⟨rfl, h⟩
  | backQuoted h =>
    rw [List.cons_append, firstMatch?_backQuote, map_close?_eq_iff]
    exact ⟨rfl, h⟩
  | phrase h =>
    obtain ⟨x, w, rfl⟩ := List.exists_cons_of_ne_nil hne
    have hlead := lead_of_phraseRules (t := w ++ r) h
    rw [List.cons_append] at h ⊢
    rw [firstMatch?_letter hlead, h]
    rfl
  | word hx hphrase run =>
    rw [List.cons_append, firstMatch?_letter hx, hphrase, Option.none_or, ← List.cons_append,
      some_run_eq_iff]
    exact ⟨rfl, run⟩
  | digits hx hnumber run =>
    rw [List.cons_append, firstMatch?_digit hx, hnumber, Option.none_or, ← List.cons_append,
      some_run_eq_iff]
    exact ⟨rfl, run⟩

theorem firstMatch?_eq_some_iff_piece :
    Lexer.firstMatch? rules ⟨b, v ++ r⟩ = some (kind, ⟨v.reverse ++ b, r⟩) ∧ v ≠ [] ↔
      Piece b v r kind :=
  ⟨fun h => piece_of_firstMatch? h.2 h.1, fun h => ⟨h.firstMatch?, h.ne_nil⟩⟩

end SqlLayout.Sql
