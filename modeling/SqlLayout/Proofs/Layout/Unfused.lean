import SqlLayout.Proofs.Layout.Plain
import SqlLayout.Proofs.Lexer.Sql.Parting

/-!
# Tokens with a comment between them

A layout that drops comments puts the tokens around them next to each other. Two such tokens may be
cut differently then, as a comment takes the end of its line along. `Unfused` lists all that can go
wrong: two tokens run together or touch a number (`Apart`), a number is read over the place of a
comment, or words on both sides make a phrase. Elsewhere the next character after a token is the same
as before, or it is a blank or begins a token apart (`Seam`), and a number that is read there was read
before (`numeral_kept`).
-/

namespace SqlLayout.Layout

open Lexer Text Sql

variable {b r r' w : Text} {t u : Token} {ts us cs : List Token}

/-! ## Tokens around comments -/

/-- The token is neither a blank nor a comment. -/
def isCode (t : Token) : Bool := !t.kind.isBlank && t.kind != .comment

/-- The second token may follow the first one directly: they are no parts of one word, comparison or
quoted text, and neither touches a number. A phrase ends at a word edge, any other word only where no
part of a word follows. -/
structure Apart (t u : Token) : Prop where
  words : t.value.getLast?.any isWord = true → u.value.head?.any isWord = false
  parts : (∀ ws ∈ phraseRows, ¬Phrased ws t.value) → t.value.getLast?.any isWordPart = true →
    u.value.head?.any isWordPart = false
  comparisons : t.value.getLast?.any (fun x => decide (x ∈ "<>=~!".toList)) = true →
    u.value.head?.any (fun x => decide (x ∈ "<>=~!".toList)) = false
  quotes : t.value.getLast? = some '\'' → u.value.head? ≠ some '\''
  numberBefore : t.kind ∈ numberKinds → Untouched u.value
  numberAfter : u.kind ∈ numberKinds → t.value.getLast?.any isBoundary = false

/-- Nothing runs together where comments are left out of `ts`. The text `b`, which is read backwards,
is left before them. -/
structure Unfused (b : Text) (ts : List Token) : Prop where
  apart : ∀ t cs u, t :: (cs ++ [u]) <:+: ts → isCode t = true → isCode u = true → cs ≠ [] →
    (∀ c ∈ cs, c.kind = .comment) → Apart t u
  /-- A number that can be read at a token, with nothing touching it, is over before the next
  comment. -/
  numbers : ∀ front t rest w r, ts = front ++ t :: rest → isCode t = true → Numeral w →
    Untouched ((texts (Token.withoutComments true front)).reverse ++ b) →
    texts (Token.withoutComments true (t :: rest)) = w ++ r → Untouched r →
    w <+: texts (t :: rest.takeWhile (·.kind != .comment))
  phrases : ∀ t gs u, t :: (gs ++ [u]) <:+: ts → isCode t = true → isCode u = true →
    (∀ g ∈ gs, isCode g = false) → (∃ c ∈ gs, c.kind = .comment) → ¬Joins t u

theorem isCode_iff : isCode t = true ↔ t.kind.isBlank = false ∧ t.kind ≠ .comment := by
  simp [isCode]

theorem isCode_eq_false_iff : isCode t = false ↔ t.kind.isBlank = true ∨ t.kind = .comment := by
  simp only [isCode, Bool.and_eq_false_iff, Bool.not_eq_false', bne_eq_false_iff_eq]

/-! ## What is left -/

theorem uncommented_comment (h : t.kind = .comment) (ts : List Token) :
    Token.withoutComments true (t :: ts) = Token.withoutComments true ts := by
  rw [withoutComments_cons, h]
  rfl

theorem uncommented_cons (h : t.kind ≠ .comment) (ts : List Token) :
    Token.withoutComments true (t :: ts) = t :: Token.withoutComments true ts := by
  rw [withoutComments_cons, beq_eq_false_iff_ne.2 h]
  rfl

theorem uncommented_append (ts us : List Token) :
    Token.withoutComments true (ts ++ us) =
      Token.withoutComments true ts ++ Token.withoutComments true us :=
  List.filter_append ..

theorem isCode_of_mem (h : t ∈ Token.withoutComments true ts) (hblank : t.kind.isBlank = false) :
    isCode t = true := by
  have hkept := (List.mem_filter.1 h).2
  exact isCode_iff.2 ⟨hblank, by simpa using hkept⟩

/-- Nothing runs together in the rest of the tokens, behind what is left of the first ones. -/
theorem Unfused.of_append (h : Unfused b (us ++ ts)) :
    Unfused ((texts (Token.withoutComments true us)).reverse ++ b) ts where
  apart t cs u hin := h.apart t cs u (hin.trans (List.suffix_append us ts).isInfix)
  numbers front t rest w r hts hcode hw hb := by
    refine h.numbers (us ++ front) t rest w r (by rw [hts, List.append_assoc]) hcode hw ?_
    rw [uncommented_append, texts_append, List.reverse_append, List.append_assoc]
    exact hb
  phrases t gs u hin := h.phrases t gs u (hin.trans (List.suffix_append us ts).isInfix)

theorem Unfused.of_comment (h : Unfused b (t :: ts)) (ht : t.kind = .comment) : Unfused b ts := by
  have hrest : Unfused _ ts := Unfused.of_append (show Unfused b ([t] ++ ts) from h)
  rwa [uncommented_comment ht] at hrest

theorem Unfused.of_kept (h : Unfused b (t :: ts)) (ht : t.kind ≠ .comment) :
    Unfused (t.value.reverse ++ b) ts := by
  have hrest : Unfused _ ts := Unfused.of_append (show Unfused b ([t] ++ ts) from h)
  rw [uncommented_cons ht] at hrest
  simpa [Token.withoutComments] using hrest

/-- Comments stand before the next token that is left. -/
theorem exists_comments (ts : List Token) :
    ∃ cs rest, ts = cs ++ rest ∧ (∀ c ∈ cs, c.kind = .comment) ∧
      (∀ u ∈ rest.head?, u.kind ≠ .comment) ∧
      Token.withoutComments true ts = Token.withoutComments true rest := by
  induction ts with
  | nil => exact ⟨[], [], rfl, by simp, by simp, rfl⟩
  | cons t ts ih =>
    by_cases ht : t.kind = .comment
    · obtain ⟨cs, rest, rfl, hcs, hrest, heq⟩ := ih
      refine ⟨t :: cs, rest, rfl, ?_, hrest, by rw [uncommented_comment ht, heq]⟩
      intro c hc
      rcases List.mem_cons.1 hc with rfl | hc
      · exact ht
      · exact hcs c hc
    · exact ⟨[], t :: ts, rfl, by simp, by simpa using ht, rfl⟩

theorem texts_uncommented_sublist (ts : List Token) :
    (texts (Token.withoutComments true ts)).Sublist (texts ts) := by
  induction ts with
  | nil => exact List.Sublist.refl _
  | cons t ts ih =>
    by_cases ht : t.kind = .comment
    · rw [uncommented_comment ht, texts_cons]
      exact ih.trans (List.sublist_append_right t.value (texts ts))
    · rw [uncommented_cons ht, texts_cons, texts_cons]
      exact List.Sublist.append (List.Sublist.refl _) ih

/-! ## The next token -/

theorem head?_comment (h : Stands b (t :: ts)) (hkind : t.kind = .comment) (r : Text) :
    (t.value ++ r).head? = some '-' := by
  obtain ⟨body, term, hvalue, -⟩ := (h.cut (by rw [hkind]; rfl)).isComment hkind
  rw [hvalue]
  rfl

/-- What follows a token once the comments are left out: the same as before, or where a comment
stood nothing, a blank or a token apart from it. -/
inductive Seam (t : Token) (r r' : Text) : Prop
  | same (h : r'.head? = r.head?)
  | gap (hr : r.head? = some '-') (h : ∀ x ∈ r'.head?, isBlank x = true)
  | apart {u : Token} (hr : r.head? = some '-') (hu : Apart t u) (h : r'.head? = u.value.head?)

theorem seam (h : Stands b (t :: ts)) (hcode : isCode t = true) (hunfused : Unfused r (t :: ts)) :
    Seam t (texts ts) (texts (Token.withoutComments true ts)) := by
  obtain ⟨cs, rest, rfl, hcs, hrest, heq⟩ := exists_comments ts
  have hafter : Stands (t.value.reverse ++ b) (cs ++ rest) := h.of_cons
  rw [heq]
  cases cs with
  | nil =>
    rw [List.nil_append] at hafter ⊢
    cases rest with
    | nil => exact .same rfl
    | cons u rest =>
      rw [uncommented_cons (hrest u rfl), texts_cons, texts_cons]
      exact .same ((hafter.head?_texts _).trans (hafter.head?_texts _).symm)
  | cons c cs =>
    have hr : (texts (c :: cs ++ rest)).head? = some '-' :=
      head?_comment hafter (hcs c List.mem_cons_self) _
    cases rest with
    | nil => exact .gap hr (by simp [Token.withoutComments])
    | cons u rest =>
      have hu := hafter.of_append
      rw [uncommented_cons (hrest u rfl), texts_cons]
      by_cases hblank : u.kind.isBlank = true
      · exact .gap hr ((hu.gap hblank).1.head (hu.gap hblank).2)
      · refine .apart hr (hunfused.apart t (c :: cs) u ?_ hcode ?_ (List.cons_ne_nil c cs) hcs)
          (hu.head?_texts _)
        · exact ⟨[], rest, by simp⟩
        · exact isCode_iff.2 ⟨by simpa using hblank, hrest u rfl⟩

/-- A test that fails for what follows, for blanks and for tokens apart fails for what is left. -/
theorem Seam.stops {f : Char → Bool} (h : Seam t r r')
    (hblank : ∀ x, isBlank x = true → f x = false)
    (hapart : r.head? = some '-' → ∀ u, Apart t u → u.value.head?.any f = false)
    (hr : r.head?.any f = false) : r'.head?.any f = false := by
  cases h with
  | same h => rwa [h]
  | gap _ h => exact (Option.any_eq_false f r'.head?).2 fun x hx => hblank x (h x hx)
  | apart hhead hu h =>
    rw [h]
    exact hapart hhead _ hu

/-! ## Numbers over comments -/

/-- The tokens up to a comment are left, and so is what is left of the others. -/
theorem exists_comment (ts : List Token) :
    ∃ far, ts = ts.takeWhile (·.kind != .comment) ++ far ∧ (∀ c ∈ far.head?, c.kind = .comment) ∧
      Token.withoutComments true ts =
        ts.takeWhile (·.kind != .comment) ++ Token.withoutComments true far := by
  have hsplit : ts.takeWhile (·.kind != .comment) ++ ts.dropWhile (·.kind != .comment) = ts :=
    List.takeWhile_append_dropWhile
  refine ⟨_, hsplit.symm, fun c hc => ?_, ?_⟩
  · have hstop := List.head?_dropWhile_not (fun t : Token => t.kind != .comment) ts
    rw [Option.mem_def.1 hc] at hstop
    simpa using hstop
  · have hnear : Token.withoutComments true (ts.takeWhile (·.kind != .comment)) =
        ts.takeWhile (·.kind != .comment) :=
      List.filter_eq_self.2 (List.all_eq_true.1 List.all_takeWhile)
    conv_lhs => rw [← hsplit]
    rw [uncommented_append, hnear]

/-- A number that is read where the comments are left out is read in the query. -/
theorem numeral_kept {b' u' : Text} (h : Stands b (t :: ts)) (hcode : isCode t = true)
    (hunfused : Unfused b' (t :: ts)) (hw : Numeral w) (hb' : Untouched b')
    (heq : texts (Token.withoutComments true (t :: ts)) = w ++ u') (hu' : Untouched u') :
    ∃ u, texts (t :: ts) = w ++ u ∧ Untouched u := by
  obtain ⟨x, hx⟩ := hunfused.numbers [] t ts w u' rfl hcode hw hb' heq hu'
  obtain ⟨far, hts, hfar, hleft⟩ := exists_comment ts
  generalize ts.takeWhile (·.kind != .comment) = near at hx hts hleft
  subst hts
  have hu : u' = x ++ texts (Token.withoutComments true far) := by
    rw [uncommented_cons (isCode_iff.1 hcode).2, hleft, ← List.cons_append, texts_append, ← hx,
      List.append_assoc] at heq
    exact (List.append_cancel_left heq).symm
  refine ⟨x ++ texts far, by rw [← List.cons_append, texts_append, ← hx, List.append_assoc], ?_⟩
  by_cases hend : x = []
  · -- the number ends in front of a comment, or at the end of the query
    subst hend
    cases far with
    | nil => rfl
    | cons c far =>
      have hhyphen : (texts (c :: far)).head? = some '-' :=
        head?_comment (Stands.of_append h.of_cons) (hfar c rfl) _
      rw [List.nil_append, Untouched, hhyphen]
      decide
  · -- otherwise the same character follows it
    rw [Untouched, List.head?_append_of_ne_nil _ hend]
    rwa [hu, Untouched, List.head?_append_of_ne_nil _ hend] at hu'

end SqlLayout.Layout
