import SqlLayout.Proofs.Lexer.Sql.Quotes
import SqlLayout.Proofs.Lexer.Sql.Signs

/-!
# Comments

A comment is two hyphens, the rest of their line and the line's terminator, or the rest of the text
if no line ends in it. Two hyphens always begin one.
-/

namespace SqlLayout

namespace Pattern

theorem ends_text_append (w b r : Text) :
    (text w).ends ⟨b, w ++ r⟩ = [⟨w.reverse ++ b, r⟩] := by
  have hone : ∀ (x : Char) (b r : Text), (char (.ofChars [x])).ends ⟨b, x :: r⟩ = [⟨x :: b, r⟩] := by
    intro x b r
    rw [ends_char, CharSet.contains_ofChars]
    simp
  induction w generalizing b with
  | nil => rfl
  | cons x w ih =>
    cases w with
    | nil => exact hone x b r
    | cons y w =>
      show ((char (.ofChars [x])).ends ⟨b, x :: (y :: w ++ r)⟩).flatMap (text (y :: w)).ends = _
      rw [hone, List.flatMap_singleton, ih]
      simp

theorem match?_text_append (w b r : Text) :
    (text w).match? ⟨b, w ++ r⟩ = some ⟨w.reverse ++ b, r⟩ := by
  rw [match?_eq_head?, ends_text_append]
  rfl

theorem match?_alt (p q : Pattern) (c : Cursor) :
    (alt p q).match? c = (p.match? c).or (q.match? c) := by
  rw [match?_eq_head?, match?_eq_head?, match?_eq_head?, ends, List.head?_append]

end Pattern

namespace Sql

open Lexer Text Pattern

variable {b v r t : Text}

/-- A character that ends no line. -/
def endsNoLine (x : Char) : Bool := !decide (x ∈ "\r\n".toList)

/-- What may end a comment before such a text. -/
def Terminates (term r : Text) : Prop :=
  term = "\r\n".toList ∨ (term = ['\r'] ∧ r.head? ≠ some '\n') ∨ term = ['\n'] ∨
    (term = [] ∧ r = [])

/-- The first text is a comment where the second one follows. -/
def IsComment (v r : Text) : Prop :=
  ∃ body term, v = "--".toList ++ (body ++ term) ∧ (∀ x ∈ body, endsNoLine x = true) ∧
    Terminates term r

/-- The pattern of what ends a comment. -/
def lineEnding : Pattern :=
  choice [phrase "\r\n", oneOf "\r", oneOf "\n", anchor .textEnd]

theorem comment_eq :
    comment = ⟨seq (phrase "--") (seq (star (noneOf "\r\n")) lineEnding), .comment⟩ := rfl

theorem match?_lineEnding {term : Text} (h : Terminates term r) :
    lineEnding.match? ⟨b, term ++ r⟩ = some ⟨term.reverse ++ b, r⟩ := by
  have hone : ∀ (c : Char) (b : Text) (x : Char) (r : Text),
      (char (.ofChars [c])).match? ⟨b, x :: r⟩ = if x = c then some ⟨x :: b, r⟩ else none :=
    fun c b x r => match?_quote b x r
  have hpair : ∀ (b : Text) (x y : Char) (r : Text), (phrase "\r\n").match? ⟨b, x :: y :: r⟩ =
      if x = '\r' ∧ y = '\n' then some ⟨y :: x :: b, r⟩ else none := by
    intro b x y r
    show (text ['\r', '\n']).match? _ = _
    rw [match?_eq_head?, ends_pair]
    split <;> rfl
  have hshort : ∀ (b t : Text), t.length < 2 → (phrase "\r\n").match? ⟨b, t⟩ = none := by
    intro b t ht
    show (text ['\r', '\n']).match? _ = _
    rw [match?_eq_head?, ends_pair_of_short _ _ _ _ ht]
    rfl
  have hreturn : (oneOf "\r") = char (.ofChars ['\r']) := rfl
  have hfeed : (oneOf "\n") = char (.ofChars ['\n']) := rfl
  show (alt (phrase "\r\n") (alt (oneOf "\r") (alt (oneOf "\n") (anchor .textEnd)))).match? _ = _
  rw [match?_alt, match?_alt, match?_alt, hreturn, hfeed]
  rcases h with rfl | ⟨rfl, hnext⟩ | rfl | ⟨rfl, rfl⟩
  · show ((phrase "\r\n").match? ⟨b, '\r' :: '\n' :: r⟩).or _ = _
    rw [hpair]
    rfl
  · have hnone : (phrase "\r\n").match? ⟨b, '\r' :: r⟩ = none := by
      cases r with
      | nil => exact hshort _ _ (by simp)
      | cons y r =>
        rw [hpair, if_neg]
        rintro ⟨-, rfl⟩
        exact hnext rfl
    rw [List.cons_append, List.nil_append, hnone, hone]
    rfl
  · have hnone : (phrase "\r\n").match? ⟨b, '\n' :: r⟩ = none := by
      cases r with
      | nil => exact hshort _ _ (by simp)
      | cons y r =>
        rw [hpair, if_neg]
        rintro ⟨hcr, -⟩
        exact absurd hcr (by decide)
    rw [List.cons_append, List.nil_append, hnone, hone, hone]
    rfl
  · rw [List.append_nil, hshort _ _ (by simp)]
    rfl

theorem contains_noneOf_lineEnds :
    (CharSet.ofChars "\r\n".toList).complement.contains = endsNoLine := by
  funext x
  rw [CharSet.contains_complement, CharSet.contains_ofChars]
  rfl

/-- What ends a comment begins with no character of its body. -/
theorem Terminates.stops {term : Text} (h : Terminates term r) :
    (term ++ r).head?.any endsNoLine = false := by
  rcases h with rfl | ⟨rfl, -⟩ | rfl | ⟨rfl, rfl⟩ <;> rfl

theorem comment_end?_of_isComment (h : IsComment v r) :
    comment.end? ⟨b, v ++ r⟩ = some ⟨v.reverse ++ b, r⟩ := by
  obtain ⟨body, term, rfl, hbody, hterm⟩ := h
  refine Rule.end?_of_match? ?_ (by simp; omega)
  have hopen := match?_text_append "--".toList b (body ++ (term ++ r))
  have hrun : (star (noneOf "\r\n")).match?
      ⟨"--".toList.reverse ++ b, body ++ (term ++ r)⟩ =
      some ⟨body.reverse ++ ("--".toList.reverse ++ b), term ++ r⟩ := by
    rw [noneOf, match?_star_char, contains_noneOf_lineEnds, Cursor.past_append hbody hterm.stops]
  have hclose := match?_lineEnding (b := body.reverse ++ ("--".toList.reverse ++ b)) hterm
  have hall := match?_seq hopen (match?_seq hrun hclose)
  rw [comment_eq, match?_toMatcher, phrase]
  simpa only [List.append_assoc, List.reverse_append] using hall

/-- Two hyphens begin a comment. -/
theorem exists_isComment (t : Text) : ∃ v r, "--".toList ++ t = v ++ r ∧ IsComment v r := by
  obtain ⟨term, r, hrest, hterm⟩ : ∃ term r, t.dropWhile endsNoLine = term ++ r ∧
      Terminates term r := by
    have hstop := List.head?_dropWhile_not endsNoLine t
    match hdrop : t.dropWhile endsNoLine with
    | [] => exact ⟨[], [], rfl, .inr (.inr (.inr ⟨rfl, rfl⟩))⟩
    | x :: u =>
      rw [hdrop] at hstop
      have hx : x = '\r' ∨ x = '\n' := by
        simp only [endsNoLine, List.head?_cons, Bool.not_eq_false', decide_eq_true_eq] at hstop
        simpa using hstop
      rcases hx with rfl | rfl
      · cases u with
        | nil => exact ⟨['\r'], [], rfl, .inr (.inl ⟨rfl, by simp⟩)⟩
        | cons y u =>
          by_cases hy : y = '\n'
          · exact ⟨"\r\n".toList, u, by rw [hy]; rfl, .inl rfl⟩
          · exact ⟨['\r'], y :: u, rfl, .inr (.inl ⟨rfl, by simpa using hy⟩)⟩
      · exact ⟨['\n'], u, rfl, .inr (.inr (.inl rfl))⟩
  refine ⟨"--".toList ++ (t.takeWhile endsNoLine ++ term), r, ?_, _, _, rfl, ?_, hterm⟩
  · rw [List.append_assoc, List.append_assoc, ← hrest, List.takeWhile_append_dropWhile]
  · exact fun x hx => List.all_eq_true.1 List.all_takeWhile x hx

theorem comment_end?_eq_none (h : ¬"--".toList <+: t) : comment.end? ⟨b, t⟩ = none := by
  cases hend : comment.end? ⟨b, t⟩ with
  | none => rfl
  | some e =>
    obtain ⟨hm, -⟩ := Option.filter_eq_some_iff.1 hend
    rw [comment_eq, match?_toMatcher, match?_eq_head?] at hm
    obtain ⟨d, hd, -⟩ := List.mem_flatMap.1 (List.mem_of_mem_head? hm)
    obtain ⟨w, hw, hread⟩ := (spells_text _ _ _).1 hd
    obtain rfl : w = "--".toList := hw
    exact absurd ⟨d.rest, hread.rest_eq.symm⟩ h

theorem comment_end?_eq_some_iff :
    comment.end? ⟨b, v ++ r⟩ = some ⟨v.reverse ++ b, r⟩ ↔ IsComment v r := by
  refine ⟨fun hend => ?_, comment_end?_of_isComment⟩
  have hprefix : "--".toList <+: v ++ r := by
    by_contra hnot
    rw [comment_end?_eq_none hnot] at hend
    simp at hend
  obtain ⟨t, ht⟩ := hprefix
  obtain ⟨v', r', heq, hcomment⟩ := exists_isComment t
  rw [← ht, heq, comment_end?_of_isComment hcomment, Option.some.injEq] at hend
  have hr : r' = r := congrArg Cursor.rest hend
  subst hr
  have hv : v' = v := List.append_cancel_right (heq.symm.trans ht)
  exact hv ▸ hcomment

end Sql

end SqlLayout
