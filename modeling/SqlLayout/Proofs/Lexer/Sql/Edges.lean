import SqlLayout.Proofs.Lexer.Registration
import SqlLayout.Proofs.Lexer.Sql.Respacing

/-!
# The edges of pieces

A piece that is no blank begins with no blank, ends with none unless it is a comment, and after a
word character at its end no other one follows (`Piece.isEdged`). With single spaces it begins and
ends the same. The keyword table gives a kind to words only, and none to those that begin with a
digit.
-/

namespace SqlLayout.Sql

open Lexer Text

variable {b v r r' : Text} {kind : Kind} {p : Bool}

/-! ## The edges of a piece -/

/-- What stands at the edges of a piece that is no blank. -/
structure IsEdged (v r : Text) (kind : Kind) : Prop where
  head : v.head?.any isBlank = false
  last : kind = .comment ∨ v.getLast?.any isBlank = false
  stops : v.getLast?.any isWord = true → r.head?.any isWord = false

theorem head?_any_eq_false {f : Char → Bool} (h : ∀ x ∈ v, f x = false) :
    v.head?.any f = false :=
  (Option.any_eq_false f v.head?).2 fun x hx => h x (List.mem_of_mem_head? hx)

theorem getLast?_any_eq_false {f : Char → Bool} (h : ∀ x ∈ v, f x = false) :
    v.getLast?.any f = false :=
  (Option.any_eq_false f v.getLast?).2 fun x hx => h x (List.mem_of_getLast? hx)

theorem isEdged_of_signs (h : ∀ x ∈ v, isBlank x = false ∧ isWord x = false) :
    IsEdged v r kind where
  head := head?_any_eq_false fun x hx => (h x hx).1
  last := .inr (getLast?_any_eq_false fun x hx => (h x hx).1)
  stops hlast := by
    rw [getLast?_any_eq_false fun x hx => (h x hx).2] at hlast
    exact Bool.noConfusion hlast

theorem isEdged_of_isSolid (h : IsSolid v) (hr : r.head?.any isWord = false) :
    IsEdged v r kind where
  head := head?_any_eq_false h
  last := .inr (getLast?_any_eq_false h)
  stops _ := hr

theorem isEdged_of_close? {q : Char} {doubled : Bool} {w : Text}
    (hq : isBlank q = false ∧ isWord q = false) (h : close? q doubled (w ++ r) = some w) :
    IsEdged (q :: w) r kind := by
  have hlast : (q :: w).getLast? = some q := by simp [List.getLast?_cons, getLast?_close? h]
  refine ⟨hq.1, .inr ?_, fun hword => ?_⟩
  · rw [hlast]
    exact hq.1
  · rw [hlast, Option.any_some, hq.2] at hword
    exact Bool.noConfusion hword

/-- A comment ends its line or the text. -/
theorem IsComment.ends (h : IsComment v r) :
    (∃ x ∈ "\r\n".toList, v.getLast? = some x) ∨ r = [] := by
  obtain ⟨body, term, rfl, -, hterm⟩ := h
  have hlast : ∀ (w : Text) (x : Char), ("--".toList ++ (body ++ (w ++ [x]))).getLast? = some x := by
    intro w x
    rw [← List.append_assoc, ← List.append_assoc, List.getLast?_concat]
  rcases hterm with rfl | ⟨rfl, -⟩ | rfl | ⟨-, rfl⟩
  · exact .inl ⟨'\n', by decide, hlast ['\r'] '\n'⟩
  · exact .inl ⟨'\r', by decide, hlast [] '\r'⟩
  · exact .inl ⟨'\n', by decide, hlast [] '\n'⟩
  · exact .inr rfl

theorem isEdged_of_isComment (h : IsComment v r) : IsEdged v r .comment := by
  refine ⟨?_, .inl rfl, fun hword => ?_⟩
  · obtain ⟨body, term, rfl, -⟩ := h
    rfl
  · rcases h.ends with ⟨x, hx, hlast⟩ | rfl
    · rw [hlast, Option.any_some,
        isWord_eq_false_of_isBlank (isBlank_of_mem_lineEnds hx)] at hword
      exact Bool.noConfusion hword
    · rfl

theorem IsRun.isSolid (h : IsRun isWordPart v r) : IsSolid v := by
  intro x hx
  rw [← Bool.not_eq_true]
  intro hblank
  have hpart := h.all x hx
  rw [isWordPart_of_isBlank x hblank] at hpart
  exact Bool.noConfusion hpart

theorem IsRun.isEdged_wordPart (h : IsRun isWordPart v r) : IsEdged v r kind := by
  refine isEdged_of_isSolid h.isSolid (any_eq_false_of_imp (fun x hx => ?_) h.stops)
  rw [isWordPart, hx, Bool.or_true]

theorem IsRun.isEdged_listed {l : Text} (hl : ∀ y ∈ l, isBlank y = false ∧ isWord y = false)
    (h : IsRun (fun y => decide (y ∈ l)) v r) : IsEdged v r kind :=
  isEdged_of_signs fun x hx => hl x (of_decide_eq_true (h.all x hx))

theorem Piece.isEdged (h : Piece b v r kind) (hblank : kind.isBlank = false) :
    IsEdged v r kind := by
  cases h with
  | lineEnds => exact absurd hblank (by decide)
  | blanks => exact absurd hblank (by decide)
  | star => exact isEdged_of_signs (by decide)
  | mark hx =>
    have hall : ∀ y ∈ ";()[],".toList, isBlank y = false ∧ isWord y = false := by decide
    refine isEdged_of_signs fun y hy => ?_
    obtain rfl := List.mem_singleton.1 hy
    exact hall y (fits_of_lead hx)
  | comparison hx run => exact run.isEdged_listed (by decide)
  | sign hx run => exact run.isEdged_listed (l := "+/@#%^&|-".toList) (by decide)
  | comment h => exact isEdged_of_isComment h
  | hyphen _ _ run => exact run.isEdged_listed (l := "+/@#%^&|-".toList) (by decide)
  | number _ h =>
    obtain ⟨-, hr, hnumeral⟩ := untouched_of_numberRules h
    exact isEdged_of_isSolid hnumeral.solid (hr.stops)
  | point => exact isEdged_of_signs (by decide)
  | singleQuoted h => exact isEdged_of_close? (by decide) h
  | backQuoted h => exact isEdged_of_close? (by decide) h
  | phrase h =>
    have hphrase := isPhrase_of_phraseRules h
    obtain ⟨x, w, rfl⟩ := List.exists_cons_of_ne_nil (Piece.phrase h).ne_nil
    have hx : isWord x = true := (fits_of_lead (lead_of_phraseRules (t := w ++ r) h)).1
    refine ⟨isBlank_eq_false_of_isWord hx, .inr ?_, fun _ => hphrase.stops⟩
    have hlast := hphrase.last
    cases hv : (x :: w).getLast? with
    | none => rfl
    | some y =>
      rw [hv, Option.any_some] at hlast
      exact isBlank_eq_false_of_isWord hlast
  | word _ _ run => exact run.isEdged_wordPart
  | digits _ _ run => exact run.isEdged_wordPart

/-! ## Single spaces -/

/-- Only the rules for phrases cut keywords. -/
theorem Piece.isPhrase (h : Piece b v r .keyword) : IsPhrase v r := by
  cases h with
  | number _ h => simpa using kind_of_numberRules h
  | phrase h => exact isPhrase_of_phraseRules h

theorem Piece.getLast?_settled (h : Piece b v r kind) : (settled kind v).getLast? = v.getLast? := by
  unfold settled
  split
  · next hkind =>
    subst hkind
    exact h.isPhrase.collapse_last
  · rfl

theorem Piece.head?_settled (h : Piece b v r kind) : (settled kind v).head? = v.head? := by
  unfold settled
  split
  · next hkind =>
    subst hkind
    exact h.isPhrase.collapse_head
  · rfl

/-- The blanks within a keyword change with those around it. -/
theorem Piece.respaced_settled (h : Piece b v r kind)
    (hr : Respaced (v.getLast?.elim p isWord) r r') :
    Respaced p (v ++ r) (settled kind v ++ r') := by
  unfold settled
  split
  · next hkind =>
    subst hkind
    rw [elim_getLast?_eq_any h.ne_nil, h.isPhrase.last] at hr
    exact h.isPhrase.respaced p r' hr
  · exact .append hr

/-! ## Kinds -/

/-- The kinds of words. -/
def wordKinds : List Kind := [.name, .keyword, .keywordCte]

theorem resolve_word_mem (v : Text) : lexer.resolve .useAsKeyword v ∈ wordKinds := by
  rw [resolve, if_pos rfl]
  cases hk : lexer.keywordKind? v with
  | none => decide
  | some kind =>
    have hall : ∀ y ∈ keywordTable, y.2 ∈ wordKinds := by decide
    exact hall _ (mem_of_keywordKind? hk)

/-- A word that begins with a digit is no keyword: its upper case begins with the digit. -/
theorem resolve_word_of_isDigit {x : Char} (hx : isDigit x = true) (w : Text) :
    lexer.resolve .useAsKeyword (x :: w) = .name := by
  rw [resolve, if_pos rfl]
  cases hk : lexer.keywordKind? (x :: w) with
  | none => rfl
  | some kind =>
    have hall : ∀ y ∈ keywordTable, y.1.head?.any isDigit = false := by decide
    have hhead := hall _ (mem_of_keywordKind? hk)
    rw [Text.upper, List.flatMap_cons, upperChar_of_isDigit hx] at hhead
    simp [hx] at hhead

theorem resolve_of_ne (h : kind ≠ .useAsKeyword) (v : Text) : lexer.resolve kind v = kind :=
  if_neg h

/-- No rule has the kinds that only words are given. -/
theorem Piece.kind_not_mem (h : Piece b v r kind) : kind ∉ [.name, .keywordCte] := by
  have hnumber : ∀ {kind : Kind}, kind ∈ [.numberFloat, .numberInteger] →
      kind ∉ [.name, .keywordCte] := by
    intro kind
    cases kind <;> decide
  cases h with
  | number _ h => exact hnumber (kind_of_numberRules h)
  | phrase h =>
    rw [kind_of_phraseRules h]
    decide
  | _ => decide

theorem Piece.isSolid_of_word (h : Piece b v r .useAsKeyword) : IsSolid v := by
  cases h with
  | number _ h => simpa using kind_of_numberRules h
  | phrase h => simpa using kind_of_phraseRules h
  | word _ _ run => exact run.isSolid
  | digits _ _ run => exact run.isSolid

end SqlLayout.Sql
