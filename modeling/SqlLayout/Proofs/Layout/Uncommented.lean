import SqlLayout.Proofs.Layout.Kept

/-!
# Queries without their comments

Where nothing runs together, the tokens of a query that are no comments stand in the text that they
make (`stands_uncommented`). So a layout that drops comments keeps all other tokens exactly if nothing
runs together (`format_uncommented`).
-/

namespace SqlLayout.Layout

open Lexer Text Sql

variable {b b' : Text} {t u : Token} {ts us gs after : List Token} {kind : Kind}

/-! ## The rest of a query -/

/-- Between the texts before a place with its comments and without them: nothing touches what
follows the one only if nothing touches what follows the other, and a number is touched in
neither. -/
structure Ready (b b' : Text) (ts : List Token) : Prop where
  behind : ts ≠ [] → Untouched b' → Untouched b
  number : ∀ cs u rest, ts = cs ++ u :: rest → (∀ c ∈ cs, c.kind = .comment) →
    u.kind ∈ numberKinds → (cs = [] → Untouched b) → Untouched b'

theorem Ready.start (ts : List Token) : Ready [] [] ts := ⟨fun _ h => h, fun _ _ _ _ _ _ _ => rfl⟩

theorem Ready.comment (h : Ready b b' (t :: ts)) (hstands : Stands b (t :: ts))
    (hkind : t.kind = .comment) : Ready (t.value.reverse ++ b) b' ts := by
  have hcut := hstands.cut (by rw [hkind]; rfl)
  refine ⟨fun hne _ => ?_, fun cs u rest hts hcs hu _ => ?_⟩
  · rcases (hcut.isComment hkind).ends with ⟨x, hx, hlast⟩ | hnil
    · have hboundary := isBoundary_of_isBlank (isBlank_of_mem_lineEnds hx)
      rw [Untouched, List.head?_append_of_ne_nil _ (by simpa using hcut.ne_nil), List.head?_reverse,
        hlast, Option.any_some, hboundary]
    · obtain ⟨u, us, rfl⟩ := List.exists_cons_of_ne_nil hne
      exact absurd (List.append_eq_nil_iff.1 hnil).1 hstands.of_cons.value_ne_nil
  · refine h.number (t :: cs) u rest (by rw [hts]; rfl) ?_ hu fun hnil =>
      absurd hnil (List.cons_ne_nil t cs)
    exact List.forall_mem_cons.2 ⟨hkind, hcs⟩

theorem Ready.kept (h : Stands b (t :: ts)) (hkind : t.kind ≠ .comment)
    (hunfused : Unfused b' (t :: ts)) :
    Ready (t.value.reverse ++ b) (t.value.reverse ++ b') ts := by
  have hne : t.value.reverse ≠ [] := by simpa using h.value_ne_nil
  have hsame : Untouched (t.value.reverse ++ b) ↔ Untouched (t.value.reverse ++ b') := by
    rw [Untouched, Untouched, List.head?_append_of_ne_nil _ hne, List.head?_append_of_ne_nil _ hne]
  refine ⟨fun _ => hsame.2, fun cs u rest hts hcs hu hnil => ?_⟩
  by_cases hempty : cs = []
  · exact hsame.1 (hnil hempty)
  · rw [Untouched, List.head?_append_of_ne_nil _ hne, List.head?_reverse]
    by_cases hblank : t.kind.isBlank = true
    · refine (Option.any_eq_false _ _).2 fun x hx => isBoundary_of_isBlank ?_
      exact (h.gap hblank).1 x (List.mem_of_getLast? hx)
    · have hcode : ∀ k ∈ numberKinds, k.isBlank = false ∧ k ≠ .comment := by decide
      refine (hunfused.apart t cs u ⟨[], rest, by simp [hts]⟩ ?_ ?_ hempty hcs).numberAfter hu
      · exact isCode_iff.2 ⟨by simpa using hblank, hkind⟩
      · exact isCode_iff.2 (hcode u.kind hu)

/-! ## Words -/

/-- A token that is left stands before the others as a word, a phrase or another token, and it joins
none of them. -/
theorem placed_uncommented (h : Stands b (t :: ts)) (hcode : isCode t = true)
    (hunfused : Unfused b' (t :: ts)) : Placed t (Token.withoutComments true ts) := by
  obtain ⟨hblank, -⟩ := isCode_iff.1 hcode
  have hcut := h.cut hblank
  have hedged := hcut.isEdged hblank
  refine ⟨hcut.ne_nil, hedged.head, hcut.shape, fun hlast => ?_, fun gs u more heq hne hgs hu => ?_⟩
  · exact (seam h hcode hunfused).stops (fun _ => isWord_eq_false_of_isBlank)
      (fun _ u hu => hu.words hlast) (hedged.stops hlast)
  · have hmem : u ∈ Token.withoutComments true ts := by simp [heq]
    have hu' : isCode u = true := isCode_of_mem hmem hu
    obtain ⟨l₁, l₂, rfl, hl₁, hl₂⟩ := List.filter_eq_append_iff.1 heq
    obtain ⟨l₃, l₄, rfl, hl₃, -, -⟩ := List.filter_eq_cons_iff.1 hl₂
    rw [← List.append_assoc] at h hunfused
    have hbetween : ∀ g ∈ l₁ ++ l₃, isCode g = false := by
      intro g hg
      rw [isCode_eq_false_iff]
      by_cases hkind : g.kind = .comment
      · exact .inr hkind
      · rcases List.mem_append.1 hg with hg | hg
        · refine .inl (hgs g ?_)
          rw [← hl₁]
          exact List.mem_filter.2 ⟨hg, by simpa using hkind⟩
        · exact absurd (by simpa using hl₃ g hg) hkind
    by_cases hcomment : ∃ c ∈ l₁ ++ l₃, c.kind = .comment
    · exact hunfused.phrases t (l₁ ++ l₃) u ⟨[], l₄, by simp⟩ hcode hu' hbetween hcomment
    · -- without a comment in between they would be one token of the query
      refine h.not_joins hblank hu ?_ fun g hg => ?_
      · rintro hnil
        rw [(List.append_eq_nil_iff.1 hnil).1] at hl₁
        exact hne hl₁.symm
      · exact (isCode_eq_false_iff.1 (hbetween g hg)).resolve_right fun hkind =>
          hcomment ⟨g, hg, hkind⟩

/-! ## The tokens that are left -/

/-- A piece that ends in front of a hyphen and is no phrase has no phrase for a text. -/
theorem not_phrased (h : Piece b t.value r kind) (hkind : kind ≠ .keyword)
    (hr : r.head? = some '-') : ∀ ws ∈ phraseRows, ¬Phrased ws t.value := by
  intro ws hws hphrase
  have hstop : r.head?.any isWord = false := by
    rw [hr]
    decide
  have hat : IsPhraseAt t.value r := ⟨⟨ws, hws, hphrase⟩, hstop⟩
  exact hkind (h.unique (.phrase (firstMatch?_phraseRules_iff.2 ⟨rfl, hat⟩)) rfl).2

theorem moves (h : Stands b (t :: ts)) (hcode : isCode t = true) (hunfused : Unfused b' (t :: ts))
    (hready : Ready b b' (t :: ts)) (hworded : Worded (t :: Token.withoutComments true ts))
    (hpiece : Piece b t.value (texts ts) kind) :
    Moves t.value kind b (texts ts) b' (texts (Token.withoutComments true ts)) where
  stops hkind f hf hlast hr := by
    refine (seam h hcode hunfused).stops (runTests_of_isBlank f hf) (fun hhead u hu => ?_) hr
    simp only [runTests, List.mem_cons, List.not_mem_nil, or_false] at hf
    rcases hf with rfl | rfl | rfl
    · exact hu.comparisons hlast
    · -- a comment does not follow a run of signs
      rw [hhead] at hr
      exact absurd hr (by decide)
    · exact hu.parts (not_phrased hpiece hkind hhead) hlast
  numerals w u' hw hb' heq hu' := by
    rw [← texts_cons, ← uncommented_cons (isCode_iff.1 hcode).2] at heq
    rw [← texts_cons]
    exact ⟨hready.behind (List.cons_ne_nil t ts) hb',
      numeral_kept h hcode hunfused hw hb' heq hu'⟩
  number hnumber := by
    have hcut := h.cut (isCode_iff.1 hcode).1
    have ht := hcut.kind_of_number hpiece hnumber
    obtain ⟨hb, hr, -⟩ := hcut.untouched ht
    refine ⟨hready.number [] t ts rfl (by simp) ht fun _ => hb, ?_⟩
    exact (seam h hcode hunfused).stops (fun _ => isBoundary_of_isBlank)
      (fun _ u hu => hu.numberBefore ht) hr
  quotes q _ hq := (texts_uncommented_sublist ts).subset hq
  doubled hlast u' hu' := by
    have hsub := texts_uncommented_sublist ts
    rw [hu'] at hsub
    -- the quote comes from the query, where the same quotes follow it
    rcases seam h hcode hunfused with hsame | ⟨-, hgap⟩ | ⟨-, hapart, hhead⟩
    · rw [hu', List.head?_cons] at hsame
      obtain ⟨u, hu⟩ := List.head?_eq_some_iff.1 hsame.symm
      rw [hu] at hsub
      exact ⟨u, hu, fun hmem => (List.cons_sublist_cons.1 hsub).subset hmem⟩
    · exact absurd (hgap '\'' (by rw [hu']; rfl)) (by decide)
    · rw [hu', List.head?_cons] at hhead
      exact absurd hhead.symm (hapart.quotes hlast)
  phrase hphrase := by
    subst hphrase
    have hphrase := hpiece.isPhrase
    exact (seam h hcode hunfused).stops (fun _ => isWord_eq_false_of_isBlank)
      (fun _ u hu => hu.words hphrase.last) hphrase.stops
  phrases hword hnone v r' heq := by
    subst hword
    obtain ⟨hblank, -⟩ := isCode_iff.1 hcode
    exact hworded.not_isPhraseAt hblank hpiece.all_isWordPart
      ((h.cut hblank).beginsNoPhrase hblank hnone) heq

/-- The tokens of a query that are no comments stand in the text of these tokens. -/
theorem stands_uncommented (h : Stands b ts) (hunfused : Unfused b' ts) (hready : Ready b b' ts) :
    Stands b' (Token.withoutComments true ts) ∧ Worded (Token.withoutComments true ts) := by
  induction ts generalizing b b' with
  | nil => exact ⟨.nil b', .nil⟩
  | cons t ts ih =>
    by_cases hkind : t.kind = .comment
    · rw [uncommented_comment hkind]
      exact ih h.of_cons (hunfused.of_comment hkind) (hready.comment h hkind)
    · rw [uncommented_cons hkind]
      obtain ⟨hstands, hworded⟩ :=
        ih h.of_cons (hunfused.of_kept hkind) (Ready.kept h hkind hunfused)
      by_cases hblank : t.kind.isBlank = true
      · obtain ⟨hgap, hne⟩ := h.gap hblank
        exact ⟨.blank hblank hgap hne hstands, .gap hblank hgap hworded⟩
      · rw [Bool.not_eq_true] at hblank
        have hcode : isCode t = true := isCode_iff.2 ⟨hblank, hkind⟩
        have hworded' : Worded (t :: Token.withoutComments true ts) :=
          .token hblank (placed_uncommented h hcode hunfused) hworded
        refine ⟨.token hblank ((h.cut hblank).moved hblank hkind fun kind hpiece => ?_) hstands,
          hworded'⟩
        exact moves h hcode hunfused hready hworded' hpiece

/-- Comments are dropped, and nothing else changes. -/
def uncommenting : Options := { removeComments := true }

theorem formatQuery_uncommenting (s : Text) :
    formatQuery uncommenting s = texts (Token.withoutComments true (Sql.tokens s)) := by
  have hshown : shown uncommenting = (·.value) := funext fun t => shown_plain rfl rfl t
  rw [formatQuery, format_plain rfl, hshown]
  rfl

/-- Dropping the comments of a query that is cut completely keeps all other tokens exactly if none of
them run together over a comment. -/
theorem format_uncommented (s : Text) (hcomplete : (Sql.scan s).ending = .complete) :
    (Sql.scan (formatQuery uncommenting s)).ending = .complete ∧
        solids (Sql.tokens (formatQuery uncommenting s)) =
          solids (Token.withoutComments true (Sql.tokens s)) ↔
      Unfused [] (Sql.tokens s) := by
  obtain ⟨-, hstands⟩ := stands_tokens hcomplete
  rw [formatQuery_uncommenting]
  constructor
  · rintro ⟨hkept, hsolids⟩
    have hgapped : Gapped (Token.withoutComments true (Sql.tokens s)) :=
      fun u hu => hstands.gapped u (List.mem_filter.1 hu).1
    exact unfused_of_stands hstands (stands_of_scan_texts hgapped hkept hsolids)
  · intro hunfused
    exact (stands_uncommented hstands hunfused (Ready.start _)).1.scan_texts

/-- A digit behind a point is no part of a number where a word stands before the point. -/
theorem format_uncommented_point :
    (Sql.scan "a.--\n5".toList).ending = .complete ∧
      ((Sql.scan (formatQuery uncommenting "a.--\n5".toList)).ending = .complete ∧
        solids (Sql.tokens (formatQuery uncommenting "a.--\n5".toList)) =
          solids (Token.withoutComments true (Sql.tokens "a.--\n5".toList))) ∧
      Unfused [] (Sql.tokens "a.--\n5".toList) := by
  have hcomplete : (Sql.scan "a.--\n5".toList).ending = .complete := by decide +kernel
  have hkept : (Sql.scan (formatQuery uncommenting "a.--\n5".toList)).ending = .complete ∧
      solids (Sql.tokens (formatQuery uncommenting "a.--\n5".toList)) =
        solids (Token.withoutComments true (Sql.tokens "a.--\n5".toList)) := by
    decide +kernel
  exact ⟨hcomplete, hkept, (format_uncommented "a.--\n5".toList hcomplete).1 hkept⟩

/-- Two words with nothing but a comment between them become one. -/
theorem format_uncommented_words :
    (Sql.scan "a--\nb".toList).ending = .complete ∧
      solids (Sql.tokens (formatQuery uncommenting "a--\nb".toList)) ≠
        solids (Token.withoutComments true (Sql.tokens "a--\nb".toList)) := by
  decide +kernel

end SqlLayout.Layout
