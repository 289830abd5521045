import SqlLayout.Proofs.Layout.Unfused
import SqlLayout.Proofs.Lexer.Sql.Identifiers

/-!
# Tokens that are kept without their comments

Where the tokens of a query that are no comments stand in the text that they make, nothing ran
together: each of them is cut there, so the one before it ended, it was touched by nothing if it is a
number, and no longer number or phrase begins where it does (`unfused_of_stands`).
-/

namespace SqlLayout.Layout

open Lexer Text Sql

variable {b b' r r' : Text} {t u : Token} {ts cs gs front rest : List Token}

/-! ## Two tokens -/

/-- A token that begins with a single quote has another one. -/
theorem exists_of_quote (h : Cut b u r) (hhead : u.value.head? = some '\'') :
    ∃ w, u.value = '\'' :: w ∧ '\'' ∈ w := by
  obtain ⟨kind, hpiece, -⟩ := h
  obtain ⟨w, hw⟩ := List.head?_eq_some_iff.1 hhead
  have hmatch := hpiece.firstMatch?
  rw [hw, List.cons_append, firstMatch?_singleQuote, map_close?_eq_iff] at hmatch
  exact ⟨w, hw, List.mem_of_getLast? (getLast?_close? hmatch.2)⟩

/-- Tokens that are cut next to each other are apart, if a hyphen followed the first one before. -/
theorem apart_of_cuts (ht : isCode t = true) (hold : Cut b t r) (hr : r.head? = some '-')
    (hcut : Cut b' t (u.value ++ r')) (hcut' : Cut (t.value.reverse ++ b') u r') : Apart t u := by
  obtain ⟨hblank, hcomment⟩ := isCode_iff.1 ht
  have hhead : (u.value ++ r').head? = u.value.head? := List.head?_append_of_ne_nil _ hcut'.ne_nil
  refine
    { words := fun hlast => hhead ▸ (hcut.isEdged hblank).stops hlast
      parts := fun hphrase hlast => ?_
      comparisons := fun hlast => hhead ▸ hcut.stops_of_comparison hcomment hlast
      quotes := fun hlast hquote => ?_
      numberBefore := fun hnumber => ?_
      numberAfter := fun hnumber => ?_ }
  · rw [← Bool.not_eq_true, ← hhead]
    intro hnext
    rcases hcut.isPhraseAt_or_signs hlast hnext with ⟨⟨ws, hws, hrow⟩, -⟩ | hsigns
    · exact hphrase ws hws hrow
    · -- the hyphen would have belonged to the signs
      have hstop := hold.stops_of_signs hcomment hsigns
      rw [hr] at hstop
      exact absurd hstop (by decide)
  · obtain ⟨w, hw, hmem⟩ := exists_of_quote hcut' hquote
    exact hcut.stops_of_quote hcomment hlast (by rw [hw]; rfl) (List.mem_append_left r' hmem)
  · have huntouched := (hcut.untouched hnumber).2.1
    rwa [Untouched, hhead] at huntouched
  · have huntouched := (hcut'.untouched hnumber).1
    rwa [Untouched, List.head?_append_of_ne_nil _ (by simpa using hcut.ne_nil),
      List.head?_reverse] at huntouched

/-! ## All tokens -/

/-- What is left of the tokens from a place on stands behind what is left of those before. -/
theorem stands_left (h : Stands b (Token.withoutComments true (front ++ rest))) :
    Stands ((texts (Token.withoutComments true front)).reverse ++ b)
      (Token.withoutComments true rest) := by
  rw [uncommented_append] at h
  exact h.of_append

theorem uncommented_of_comments (h : ∀ c ∈ cs, c.kind = .comment) :
    Token.withoutComments true cs = [] := by
  rw [Token.withoutComments, List.filter_eq_nil_iff]
  intro c hc
  simp [h c hc]

/-- Words on both sides of a gap with a comment make no phrase. -/
theorem not_joins_left (ht : isCode t = true) (hu : isCode u = true)
    (hgs : ∀ g ∈ gs, isCode g = false)
    (h : Stands b (Token.withoutComments true (t :: (gs ++ u :: rest)))) : ¬Joins t u := by
  obtain ⟨hblank, hcomment⟩ := isCode_iff.1 ht
  obtain ⟨hblank', hcomment'⟩ := isCode_iff.1 hu
  rw [uncommented_cons hcomment, uncommented_append, uncommented_cons hcomment'] at h
  have hgaps : ∀ g ∈ Token.withoutComments true gs, g.kind.isBlank = true := by
    intro g hg
    obtain ⟨hmem, hkept⟩ := List.mem_filter.1 hg
    exact (isCode_eq_false_iff.1 (hgs g hmem)).resolve_right (by simpa using hkept)
  by_cases hnil : Token.withoutComments true gs = []
  · -- the words would stand next to each other
    rintro ⟨ws, w, more, hrow, hw, hvalue, -⟩
    rw [hnil, List.nil_append] at h
    have hwords := isWordText_of_mem_phraseRows _ hrow
    obtain ⟨x, hx, hlast⟩ := (hwords t.value List.mem_cons_self).getLast?
    have hstop := ((h.cut hblank).isEdged hblank).stops (by rw [hx, Option.any_some, hlast])
    obtain ⟨y, w, rfl, v, hv, hy⟩ := hw.exists_head fun v hv => hwords v (List.mem_cons_of_mem _ hv)
    rw [texts_cons, hvalue, List.cons_append, List.cons_append, List.head?_cons, Option.any_some,
      (hwords v (List.mem_cons_of_mem _ hv)).2 y hy] at hstop
    exact Bool.noConfusion hstop
  · exact h.not_joins hblank hblank' hnil hgaps

/-- Nothing runs together among tokens that stand without their comments. -/
theorem unfused_of_stands (h : Stands b ts) (h' : Stands b' (Token.withoutComments true ts)) :
    Unfused b' ts where
  apart t cs u hin ht hu hne hcs := by
    obtain ⟨front, back, hts⟩ := hin
    obtain ⟨c, cs, rfl⟩ := List.exists_cons_of_ne_nil hne
    have hsplit : ts = front ++ t :: (c :: cs ++ u :: back) := by simp [← hts]
    subst hsplit
    have hold := Stands.of_append h
    have hleft := stands_left h'
    rw [uncommented_cons (isCode_iff.1 ht).2, uncommented_append, uncommented_of_comments hcs,
      List.nil_append, uncommented_cons (isCode_iff.1 hu).2] at hleft
    refine apart_of_cuts ht (hold.cut (isCode_iff.1 ht).1) ?_
      (hleft.cut (isCode_iff.1 ht).1) (hleft.of_cons.cut (isCode_iff.1 hu).1)
    exact head?_comment hold.of_cons (hcs c List.mem_cons_self) _
  numbers front t rest w r hts ht hw hb heq hr := by
    subst hts
    have hleft := stands_left h'
    rw [uncommented_cons (isCode_iff.1 ht).2] at hleft heq
    have hwithin := (hleft.cut (isCode_iff.1 ht).1).prefix_of_numeral hw hb hr heq
    exact hwithin.trans (List.prefix_append t.value _)
  phrases t gs u hin ht hu hgs _ := by
    obtain ⟨front, back, hts⟩ := hin
    have hsplit : ts = front ++ t :: (gs ++ u :: back) := by simp [← hts]
    subst hsplit
    exact not_joins_left ht hu hgs (stands_left h')

end SqlLayout.Layout
