import SqlLayout.Proofs.Lexer.Sql.Shapes

/-!
# The vocabulary of keywords

A keyword is a phrase of the table `phraseRows` or a word of the keyword table in some letter case
(`Cut.keyword_cases`). So what keywords are compared by, upper case with single spaces, is one of
finitely many texts. Phrases are cut where they stand and nowhere else: no rule before theirs applies
to a letter, so a token is decided by a rule for phrases exactly if a phrase stands at its start
(`decides_phrase_iff`).
-/

namespace SqlLayout.Sql

open Lexer Text

variable {b r s v : Text} {t : Token} {ws : List Text} {k : Nat}

/-! ## Phrases at a start -/

/-- No rule before the rules for phrases applies where a phrase begins. -/
theorem end?_eq_none_of_phrase {found : Kind × Cursor}
    (h : firstMatch? phraseRules ⟨b, s⟩ = some found) :
    ∀ rule ∈ rules.take 9, rule.end? ⟨b, s⟩ = none := by
  obtain ⟨rule, hrule, hend, -⟩ := exists_rule_of_firstMatch? h
  obtain ⟨w, hread, hne, -⟩ := rule.reads_of_end? hend
  obtain ⟨x, u, hs⟩ : ∃ x u, s = x :: u := by
    apply List.exists_cons_of_ne_nil
    rintro rfl
    exact hne (List.append_eq_nil_iff.1 hread.rest_eq.symm).1
  subst hs
  have hlead := lead_of_phraseRules h
  have hother : ∀ entry ∈ ruleLeads.take 9, Lead.letter ∉ entry.2 := by decide
  intro rule hrule
  rw [rules_eq, ← List.map_take] at hrule
  obtain ⟨entry, hentry, rfl⟩ := List.mem_map.1 hrule
  apply end?_eq_none_of_lead (List.mem_of_mem_take hentry)
  rw [hlead]
  exact hother entry hentry

/-- A rule for phrases decides up to a place exactly if a phrase stands up to there. -/
theorem decides_phrase_iff {e : Cursor} :
    (∃ rule ∈ phraseRules, lexer.Decides rule ⟨b, s⟩ e) ↔
      ∃ v r, s = v ++ r ∧ e = ⟨v.reverse ++ b, r⟩ ∧ IsPhraseAt v r := by
  constructor
  · rintro ⟨rule, hrule, earlier, later, -, -, hend⟩
    exact exists_end?_iff.1 ⟨rule, hrule, hend⟩
  · rintro ⟨v, r, rfl, rfl, hphrase⟩
    have hmatch := firstMatch?_phraseRules_iff (b := b) |>.2 ⟨rfl, hphrase⟩
    have hbefore := end?_eq_none_of_phrase hmatch
    obtain ⟨earlier, rule, later, hrules, hearlier, hend, -⟩ := firstMatch?_eq_some_iff.1 hmatch
    -- nine rules of the table stand before those for phrases, and five after them
    refine ⟨rule, by simp [hrules], rules.take 9 ++ earlier, later ++ rules.drop 13, ?_, ?_, hend⟩
    · have hsplit : lexer.rules = rules.take 9 ++ (phraseRules ++ rules.drop 13) := rfl
      rw [hsplit, hrules, List.append_assoc, List.append_assoc, List.cons_append]
    · intro rule hrule
      rcases List.mem_append.1 hrule with hrule | hrule
      · exact hbefore rule hrule
      · exact hearlier rule hrule

/-- Where a phrase stands it is cut as a keyword, and as nothing else. -/
theorem IsPhraseAt.cut_iff (h : IsPhraseAt t.value r) : Cut b t r ↔ t.kind = .keyword := by
  have hpiece : Piece b t.value r .keyword := .phrase (firstMatch?_phraseRules_iff.2 ⟨rfl, h⟩)
  constructor
  · rintro ⟨kind, hpiece', hkind⟩
    obtain ⟨-, rfl⟩ := hpiece.unique hpiece' rfl
    rw [hkind, resolve_of_ne (by decide)]
  · intro hkind
    refine ⟨.keyword, hpiece, ?_⟩
    rw [hkind, resolve_of_ne (by decide)]

/-- At a start the token is decided by a rule for phrases exactly if it is a phrase that stands
there. -/
theorem mem_tokens_phrase_iff (hk : IsStart (tokens s) k) :
    (t ∈ tokens s ∧ t.offset = k ∧
        ∃ rule ∈ phraseRules, lexer.Decides rule (.at s k) (.at s t.stop.toNat)) ↔
      t.offset = k ∧ t.kind = .keyword ∧ ∃ r, s.drop k = t.value ++ r ∧ IsPhraseAt t.value r := by
  constructor
  · rintro ⟨ht, hoffset, hdecides⟩
    obtain ⟨v, r, hdrop, hplace, hphrase⟩ := decides_phrase_iff.1 hdecides
    obtain ⟨hslice, hcut⟩ := cut_of_mem_tokens ht
    rw [hoffset, Int.toNat_natCast] at hslice hcut
    obtain rfl : s.drop t.stop.toNat = r := congrArg Cursor.rest hplace
    obtain rfl : t.value = v := List.append_cancel_right (hslice.symm.trans hdrop)
    exact ⟨hoffset, hphrase.cut_iff.1 hcut, _, hslice, hphrase⟩
  · rintro ⟨hoffset, hkind, r, hdrop, hphrase⟩
    have hcut : Cut (s.take k).reverse t r := hphrase.cut_iff.2 hkind
    obtain ⟨ht, -⟩ := (mem_tokens_iff_cut hk).2 ⟨hoffset, r, hdrop, hcut⟩
    have hnext := next_of_mem_scan ht
    rw [hoffset, Int.toNat_natCast] at hnext
    have hread : (Cursor.at s k).Reads t.value ⟨t.value.reverse ++ (s.take k).reverse, r⟩ :=
      ⟨hdrop, rfl⟩
    have hplace := (reads_of_next hnext).1.unique hread
    exact ⟨ht, hoffset, decides_phrase_iff.2 ⟨t.value, r, hdrop, hplace, hphrase⟩⟩

/-! ## Keywords -/

/-- A keyword is a phrase, or a single word that the keyword table has in upper case. -/
theorem Cut.keyword_cases (h : Cut b t r) (hkind : t.kind.isKeyword = true) :
    (∃ ws ∈ phraseRows, Phrased ws t.value) ∨
      (Text.upper t.value, t.kind) ∈ keywordTable ∧ IsSolid t.value := by
  obtain ⟨kind, hpiece, -, ⟨rfl, hnot⟩ | ⟨rfl, hresolve, -⟩⟩ := h.exists_piece
  · have hkeyword : t.kind = .keyword := by
      simp only [Kind.isKeyword, Bool.or_eq_true, beq_iff_eq] at hkind
      refine hkind.resolve_right fun hcte => hnot ?_
      simp [hcte]
    rw [hkeyword] at hpiece
    exact .inl hpiece.isPhraseAt.row
  · refine .inr ⟨?_, hpiece.isSolid_of_word⟩
    rw [resolve, if_pos rfl] at hresolve
    cases hlookup : lexer.keywordKind? t.value with
    | none =>
      rw [hlookup, Option.getD_none] at hresolve
      rw [hresolve] at hkind
      exact absurd hkind (by decide)
    | some kind =>
      rw [hlookup, Option.getD_some] at hresolve
      rw [hresolve]
      exact mem_of_keywordKind? hlookup

theorem collapse_of_phrased (hws : ws ∈ phraseRows) (h : Phrased ws v) :
    Text.collapse v = [' '].intercalate ws := by
  rw [Text.collapse, h.words (isWordText_of_mem_phraseRows ws hws)]

theorem upper_intercalate_phraseRows :
    ∀ ws ∈ phraseRows, Text.upper ([' '].intercalate ws) = [' '].intercalate ws := by
  decide +kernel

theorem word_of_phrased (hkind : t.kind.isKeyword = true) (hws : ws ∈ phraseRows)
    (h : Phrased ws t.value) : t.word = [' '].intercalate ws := by
  rw [Token.word, if_pos hkind, collapse_of_phrased hws h, upper_intercalate_phraseRows ws hws]

/-- A keyword is compared by a word of the keyword table or by the words of a phrase with single
spaces. -/
theorem Cut.word_mem (h : Cut b t r) (hkind : t.kind.isKeyword = true) :
    t.word ∈ keywordTable.map (·.1) ∨ t.word ∈ phraseRows.map ([' '].intercalate ·) := by
  rcases h.keyword_cases hkind with ⟨ws, hws, hphrase⟩ | ⟨hentry, hsolid⟩
  · right
    rw [word_of_phrased hkind hws hphrase]
    exact List.mem_map_of_mem hws
  · left
    rw [Token.word, if_pos hkind, collapse_of_isSolid h.ne_nil hsolid]
    exact List.mem_map_of_mem hentry

/-- The phrases of a query are keywords, each exactly where it stands: the rules for phrases decide
a token if a phrase stands at its start, there is only one such phrase, and the token is that phrase
and is compared by its words with single spaces. Every other keyword is compared by a word of the
keyword table. -/
theorem tokenize_phrases (s : Text) :
    ∃ ts, lexer.tokenize s false = .ok ts ∧
      (∀ p, IsStart ts p →
        ((∃ t ∈ ts, t.offset = p ∧
            ∃ rule ∈ phraseRules, lexer.Decides rule (.at s p) (.at s t.stop.toNat)) ↔
          ∃ v r, s.drop p = v ++ r ∧ IsPhraseAt v r) ∧
        ∀ v r, s.drop p = v ++ r → IsPhraseAt v r →
          (∀ v' r', s.drop p = v' ++ r' → IsPhraseAt v' r' → v' = v) ∧
          ∃ t ∈ ts, t = ⟨.keyword, v, p⟩ ∧ ∃ ws ∈ phraseRows, Phrased ws v ∧
            t.word = [' '].intercalate ws) ∧
      ∀ t ∈ ts, t.kind.isKeyword = true →
        t.word ∈ keywordTable.map (·.1) ∨ t.word ∈ phraseRows.map ([' '].intercalate ·) := by
  refine ⟨tokens s, tokenize_eq_ok resolved s, ?_, ?_⟩
  · intro p hp
    have htoken : ∀ {v r : Text}, s.drop p = v ++ r → IsPhraseAt v r →
        (⟨.keyword, v, p⟩ : Token) ∈ tokens s ∧
          ∃ rule ∈ phraseRules, lexer.Decides rule (.at s p)
            (.at s (Token.stop ⟨.keyword, v, p⟩).toNat) := by
      intro v r hdrop hphrase
      have hfound := (mem_tokens_phrase_iff (t := ⟨.keyword, v, p⟩) hp).2
        ⟨rfl, rfl, r, hdrop, hphrase⟩
      exact ⟨hfound.1, hfound.2.2⟩
    refine ⟨⟨?_, ?_⟩, ?_⟩
    · rintro ⟨t, ht, hoffset, hdecides⟩
      obtain ⟨-, -, r, hdrop, hphrase⟩ := (mem_tokens_phrase_iff hp).1 ⟨ht, hoffset, hdecides⟩
      exact ⟨t.value, r, hdrop, hphrase⟩
    · rintro ⟨v, r, hdrop, hphrase⟩
      obtain ⟨ht, hdecides⟩ := htoken hdrop hphrase
      exact ⟨_, ht, rfl, hdecides⟩
    · intro v r hdrop hphrase
      refine ⟨fun v' r' hdrop' hphrase' => ?_, ⟨.keyword, v, p⟩, (htoken hdrop hphrase).1, rfl, ?_⟩
      · exact hphrase'.unique hphrase (hdrop'.symm.trans hdrop)
      · obtain ⟨ws, hws, hrow⟩ := hphrase.row
        exact ⟨ws, hws, hrow, word_of_phrased rfl hws hrow⟩
  · intro t ht hkind
    exact (cut_of_mem_tokens ht).2.word_mem hkind

end SqlLayout.Sql
