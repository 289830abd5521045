import SqlLayout.Proofs.Layout.Emitted
import SqlLayout.Proofs.Layout.Laid

/-!
# Reindenting with keywords in upper case

If blanks or line ends stand between all tokens of a query, they do so in its layout, too. A token
that blanks keep apart is cut there again, a keyword in upper case as well, as long as no word makes
a phrase with what follows it (`cut_emitted`). So the layout is cut into the tokens that were
written (`stands_laid`), and as those are written as they stand, a second pass changes nothing
(`format_uppercasing_idem`).
-/

namespace SqlLayout.Layout

open Lexer Text Sql

variable {k : Nat} {t u p : Token} {ts us gs before after : List Token} {b b' r g v : Text}

/-- Neighbours that are no blanks have the end of a line between them. -/
def Separated (ts : List Token) : Prop :=
  ts.IsChain fun t u =>
    t.kind.isBlank = false → u.kind.isBlank = false → Page.endsLine t.value = true

instance : DecidablePred Separated := fun _ => inferInstanceAs (Decidable (List.IsChain _ _))

/-- No two tokens with nothing but blanks between them make a phrase as they are written. -/
def Unjoined (o : Options) (ts : List Token) : Prop :=
  ∀ t gs u, t :: (gs ++ [u]) <:+: ts → t.kind.isBlank = false → (∀ g ∈ gs, g.kind.isBlank = true) →
    u.kind.isBlank = false → ¬Joins (emitted o t) (emitted o u)

theorem Separated.of_cons (h : Separated (t :: ts)) : Separated ts := (List.isChain_cons.1 h).2

theorem Separated.next (h : Separated (t :: ts)) (hblank : t.kind.isBlank = false)
    (hline : Page.endsLine t.value = false) : ∀ u ∈ ts.head?, u.kind.isBlank = true := by
  intro u hu
  rw [← Bool.not_eq_false]
  intro hsolid
  rw [(List.isChain_cons.1 h).1 u hu hblank hsolid] at hline
  exact Bool.noConfusion hline

theorem Unjoined.of_cons {o : Options} (h : Unjoined o (t :: ts)) : Unjoined o ts :=
  fun a gs b hin => h a gs b (hin.trans (List.suffix_cons t ts).isInfix)

/-- Tokens that begin no phrase as they are written make none. -/
theorem Unjoined.of_heads {o : Options}
    (h : ∀ t ∈ ts, ∀ ws ∈ phraseRows, ws.head? ≠ some (shown o t)) : Unjoined o ts := by
  rintro t gs u hin - - - ⟨ws, w, rest, hrow, -⟩
  exact h t (hin.subset List.mem_cons_self) _ hrow rfl

/-! ## Texts that keywords are written with -/

theorem edges_of_mem_upperKeywords : ∀ v ∈ upperKeywords, v ≠ [] ∧ v.head?.any isBlank = false ∧
    v.getLast?.any isWord = true ∧ ∀ q ∈ "'`".toList, q ∉ v := by
  decide +kernel

/-- The texts of keywords of one word. -/
theorem word_of_mem_keywordTable : ∀ y ∈ keywordTable.filter (·.2 == .keyword),
    y.1.head?.any (lead · == .letter) = true ∧ (∀ x ∈ y.1, isWordPart x = true) ∧
      lexer.resolve .useAsKeyword y.1 = .keyword ∧
      ∀ ws ∈ phraseRows, ws.tail = [] → ∀ w ∈ ws, ¬w <+: y.1 := by
  decide +kernel

theorem shape_of_mem_upperKeywords (hv : v ∈ upperKeywords) :
    (∀ y ∈ v, isWordPart y = true) ∨ ∃ ws ∈ phraseRows, Phrased ws v := by
  rw [upperKeywords, List.mem_append, List.mem_map, List.mem_map] at hv
  rcases hv with ⟨ws, hws, rfl⟩ | ⟨y, hy, rfl⟩
  · refine .inr ⟨ws, hws, phrased_intercalate ?_⟩
    rintro rfl
    exact absurd hws (by decide)
  · exact .inl (word_of_mem_keywordTable y hy).2.1

/-- What ends with a word character ends no line. -/
theorem endsLine_of_isWord (h : v.getLast?.any isWord = true) : Page.endsLine v = false := by
  rw [Page.endsLine]
  cases hx : v.getLast? with
  | none => rfl
  | some x =>
    rw [hx, Option.any_some] at h
    rw [Option.any_some, Bool.or_eq_false_iff, beq_eq_false_iff_ne, beq_eq_false_iff_ne]
    constructor <;> rintro rfl <;> exact absurd h (by decide)

theorem IsClear.stops {f : Char → Bool} (h : IsClear r) (hf : ∀ x, isBlank x = true → f x = false) :
    r.head?.any f = false :=
  (Option.any_eq_false f r.head?).2 fun x hx => hf x (h x hx)

/-- A keyword in upper case is cut in front of a blank. -/
theorem cut_upperKeyword (hv : v ∈ upperKeywords) (hr : IsClear (texts us))
    (hworded : Worded (⟨.keyword, v, 0⟩ :: us)) (b : Text) : Cut b ⟨.keyword, v, 0⟩ (texts us) := by
  have hstop := hr.stops fun _ => isWord_eq_false_of_isBlank
  rw [upperKeywords, List.mem_append, List.mem_map, List.mem_map] at hv
  rcases hv with ⟨ws, hws, rfl⟩ | ⟨y, hy, rfl⟩
  · have hne : ws ≠ [] := by
      rintro rfl
      exact absurd hws (by decide)
    have hphrase : IsPhraseAt ([' '].intercalate ws) (texts us) :=
      ⟨⟨ws, hws, phrased_intercalate hne⟩, hstop⟩
    exact (hphrase.cut_iff (t := ⟨.keyword, [' '].intercalate ws, 0⟩)).2 rfl
  · obtain ⟨hletter, hrun, hresolve, hsingle⟩ := word_of_mem_keywordTable y hy
    have hbegins : BeginsNoPhrase ⟨.keyword, y.1, 0⟩ := by
      intro w rest hw hvalue
      exact absurd ⟨rest, hvalue.symm⟩ (hsingle [w] hw rfl w List.mem_cons_self)
    have hnone : firstMatch? phraseRules ⟨b, y.1 ++ texts us⟩ = none :=
      firstMatch?_phraseRules_eq_none_iff.2 fun v r heq =>
        hworded.not_isPhraseAt rfl hrun hbegins heq
    refine ⟨.useAsKeyword, ?_, hresolve.symm⟩
    show Piece b y.1 (texts us) .useAsKeyword
    generalize y.1 = v at hletter hrun hnone
    cases v with
    | nil => exact Bool.noConfusion hletter
    | cons x w =>
      exact .word (by simpa using hletter) hnone ⟨hrun, hr.stops isWordPart_of_isBlank⟩

/-! ## Tokens as they are written -/

theorem shown_mem_upperKeywords (h : Cut b t r) (hkind : t.kind = .keyword) :
    shown (uppercasing k) t ∈ upperKeywords := by
  rw [shown_of_keyword hkind]
  exact mem_upperKeywords_of_cut h hkind

/-- A token that is no keyword is written as it is. -/
theorem shown_of_cut (h : Cut b t r) (hkind : t.kind ≠ .keyword) :
    shown (uppercasing k) t = t.value := by
  rw [shown_of_ne_keyword hkind]
  obtain ⟨kind, -, hsettled, ⟨rfl, -⟩ | ⟨rfl, -, -⟩⟩ := h.exists_piece
  · rw [hsettled, settled, if_neg hkind]
  · exact hsettled

/-- Only comments end a line. -/
theorem endsLine_of_ne_comment (h : Cut b t r) (hblank : t.kind.isBlank = false)
    (hkind : t.kind ≠ .comment) : Page.endsLine t.value = false := by
  rw [← Bool.not_eq_true, Page.endsLine, ← endsLine_settled h]
  exact fun hends => hkind (kind_of_endsLine h hblank hends).1

/-- A token that is written begins and ends like the one that is cut, as far as blanks go. -/
theorem edges_shown (h : Cut b t r) (hblank : t.kind.isBlank = false) :
    shown (uppercasing k) t ≠ [] ∧ (shown (uppercasing k) t).head?.any isBlank = false ∧
      Page.endsLine (shown (uppercasing k) t) = Page.endsLine t.value := by
  by_cases hkind : t.kind = .keyword
  · obtain ⟨hne, hhead, hlast, -⟩ :=
      edges_of_mem_upperKeywords _ (shown_mem_upperKeywords (k := k) h hkind)
    refine ⟨hne, hhead, ?_⟩
    rw [endsLine_of_ne_comment h hblank (by rw [hkind]; decide), endsLine_of_isWord hlast]
  · rw [shown_of_cut h hkind]
    exact ⟨h.ne_nil, (h.isEdged hblank).head, rfl⟩

/-- No quotes are new. -/
theorem mem_of_mem_shown {q : Char} (h : Stands b (t :: ts)) (hq : q ∈ "'`".toList)
    (hmem : q ∈ shown (uppercasing k) t) : q ∈ t.value := by
  by_cases hblank : t.kind.isBlank = true
  · rwa [shown, isKeyword_of_isBlank hblank] at hmem
  · have hcut := h.cut (by simpa using hblank)
    by_cases hkind : t.kind = .keyword
    · have hknown := shown_mem_upperKeywords (k := k) hcut hkind
      exact absurd hmem ((edges_of_mem_upperKeywords _ hknown).2.2.2 q hq)
    · rwa [shown_of_cut hcut hkind] at hmem

/-! ## Tokens that blanks keep apart -/

theorem IsClear.untouched (h : IsClear r) : Untouched r := h.stops fun _ => isBoundary_of_isBlank

/-- Between blanks a numeral is read where it was. -/
theorem keepsNumerals_of_isClear {r' : Text} (hb : IsClear b) (hr : IsClear r)
    (hr' : IsClear r') : KeepsNumerals b (v ++ r) b' (v ++ r') := by
  intro w u' hw _ heq hu'
  refine ⟨hb.untouched, ?_⟩
  rcases append_cases heq with ⟨x, hx, rfl, rfl⟩ | ⟨x, rfl, rfl⟩
  · -- there is no blank in it
    obtain ⟨y, x, rfl⟩ := List.exists_cons_of_ne_nil hx
    have hy := hr' y rfl
    rw [hw.isNumeral.solid y (by simp)] at hy
    exact Bool.noConfusion hy
  · refine ⟨x ++ r, List.append_assoc .., ?_⟩
    by_cases hx : x = []
    · subst hx
      exact hr.untouched
    · rw [Untouched, List.head?_append_of_ne_nil _ hx] at hu' ⊢
      exact hu'

/-- Between blanks a token is cut again as it is written, if its layout adds no quotes after it. -/
theorem cut_emitted (h : Cut b t r) (hblank : t.kind.isBlank = false) (hcomment : t.kind ≠ .comment)
    (hb : IsClear b) (hr : IsClear r) (hb' : IsClear b') (hr' : IsClear (texts us))
    (hquotes : ∀ q ∈ "'`".toList, q ∈ texts us → q ∈ r)
    (hworded : Worded (⟨t.kind, shown (uppercasing k) t, 0⟩ :: us)) :
    Cut b' ⟨t.kind, shown (uppercasing k) t, 0⟩ (texts us) := by
  by_cases hkind : t.kind = .keyword
  · have hmem := shown_mem_upperKeywords (k := k) h hkind
    rw [hkind] at hworded ⊢
    exact cut_upperKeyword hmem hr' hworded b'
  · rw [shown_of_cut h hkind] at hworded ⊢
    show Cut b' t (texts us)
    have hquote : ∀ u', texts us ≠ '\'' :: u' := by
      intro u' hu'
      rw [IsClear, hu'] at hr'
      exact absurd (hr' _ rfl) (by decide)
    exact h.moved hblank hcomment fun kind hpiece => {
      stops := fun _ f hf _ _ => hr'.stops (runTests_of_isBlank f hf)
      numerals := keepsNumerals_of_isClear hb hr hr'
      number := fun _ => ⟨hb'.untouched, hr'.untouched⟩
      quotes := hquotes
      doubled := fun _ u' hu' => absurd hu' (hquote u')
      phrase := fun _ => hr'.stops fun _ => isWord_eq_false_of_isBlank
      phrases := by
        rintro rfl hnone v r' heq
        exact hworded.not_isPhraseAt hblank hpiece.all_isWordPart (h.beginsNoPhrase hblank hnone)
          heq }

/-! ## What stands behind -/

/-- What the layout has behind it in front of these tokens: the last token that was written, and a
blank is owed or comes next unless that one ended its line. -/
structure Behind (k : Nat) (before : List Token) (b' : Text) (ts : List Token) : Prop where
  fresh : lastWritten? (reindenting k) before = none → b' = []
  last : ∀ p ∈ lastWritten? (reindenting k) before, b'.head? = p.settled.getLast?
  owed : ∀ p ∈ lastWritten? (reindenting k) before, Page.endsLine p.settled = false →
    blankSince (reindenting k) before = true ∨ ∀ t ∈ ts.head?, t.kind.isBlank = true

theorem Behind.start (k : Nat) (ts : List Token) : Behind k [] [] ts :=
  ⟨fun _ => rfl, fun _ hp => absurd hp (by simp [lastWritten?]),
    fun _ hp => absurd hp (by simp [lastWritten?])⟩

theorem Behind.skip (h : Behind k before b' (t :: ts)) (hblank : t.kind.isBlank = true) :
    Behind k (before ++ [t]) b' ts := by
  have hlast := lastWritten?_blank (k := k) hblank before
  exact ⟨fun hnone => h.fresh (hlast ▸ hnone), fun p hp => h.last p (hlast ▸ hp),
    fun _ _ _ => .inl (blankSince_blank hblank before)⟩

theorem Behind.write (hblank : t.kind.isBlank = false) (hne : t.settled ≠ [])
    (hnext : Page.endsLine t.settled = false → ∀ u ∈ ts.head?, u.kind.isBlank = true)
    (before : List Token) (b' : Text) : Behind k (before ++ [t]) (t.settled.reverse ++ b') ts := by
  have hlast := lastWritten?_written (k := k) hblank before
  refine ⟨fun hnone => ?_, fun p hp => ?_, fun p hp hends => .inr ?_⟩
  · rw [hlast] at hnone
    exact nomatch hnone
  · obtain rfl : t = p := by simpa [hlast] using hp
    rw [List.head?_append_of_ne_nil _ (by simpa using hne), List.head?_reverse]
  · obtain rfl : t = p := by simpa [hlast] using hp
    exact hnext hends

theorem isClear_of_endsLine (hhead : b.head? = v.getLast?) (hends : Page.endsLine v = true) :
    IsClear b := by
  intro x hx
  rw [Page.endsLine, ← hhead, hx, Option.any_some, Bool.or_eq_true, beq_iff_eq, beq_iff_eq] at hends
  rcases hends with rfl | rfl <;> decide

/-- So a token that is no blank has a blank behind it in the layout, or nothing. -/
theorem Behind.isClear (h : Behind k before b' (t :: ts)) (hblank : t.kind.isBlank = false) :
    IsClear (((Site.mk before t ts).separator (reindenting k)).reverse ++ b') := by
  cases hlast : lastWritten? (reindenting k) before with
  | none =>
    rw [Site.separator_of_none (s := ⟨before, t, ts⟩) hlast, h.fresh hlast]
    exact .nil
  | some p =>
    by_cases hends : Page.endsLine p.settled = true
    · exact .append Site.isGap_separator.reverse (isClear_of_endsLine (h.last p hlast) hends)
    · rw [Bool.not_eq_true] at hends
      have hsince := (h.owed p hlast hends).resolve_right fun hnext => by
        simp [hnext t rfl] at hblank
      rw [← shown_reindenting k] at hends
      have hne := (Site.separator_ne_nil_iff (s := ⟨before, t, ts⟩) hlast hends).2 (.inr hsince)
      exact Site.isGap_separator.reverse.head (by simpa using hne)

/-! ## The emitted tokens in their layout -/

theorem isKnown_of_stands (h : Stands b ts) : ∀ t ∈ ts, IsKnown t := by
  intro t ht hkind
  obtain ⟨b, after, hstands⟩ := h.of_mem ht
  exact mem_upperKeywords_of_cut (hstands.cut (by rw [hkind]; rfl)) hkind

/-- A token that is written stands before the rest of the layout as a word, a phrase or another
token, and it joins none of them. -/
theorem placed_emitted (h : Stands b (t :: ts)) (hblank : t.kind.isBlank = false)
    (hunjoined : Unjoined (uppercasing k) (t :: ts))
    (hclear : Page.endsLine t.value = false →
      IsClear (texts (laid k before (ts.map (emitted (uppercasing k)))))) :
    Placed ⟨t.kind, shown (uppercasing k) t, 0⟩
      (laid k before (ts.map (emitted (uppercasing k)))) := by
  have hcut := h.cut hblank
  obtain ⟨hne, hhead, hends⟩ := edges_shown (k := k) hcut hblank
  refine ⟨hne, hhead, fun hletter => ?_, fun hlast => ?_, fun gs u more heq _ hgs hu hjoins => ?_⟩
  · by_cases hkind : t.kind = .keyword
    · exact shape_of_mem_upperKeywords (shown_mem_upperKeywords hcut hkind)
    · change (shown (uppercasing k) t).head?.any _ = true at hletter
      change (∀ y ∈ shown (uppercasing k) t, isWordPart y = true) ∨
        ∃ ws ∈ phraseRows, Phrased ws (shown (uppercasing k) t)
      rw [shown_of_cut hcut hkind] at hletter ⊢
      exact hcut.shape hletter
  · refine (hclear ?_).stops fun _ => isWord_eq_false_of_isBlank
    rw [← hends]
    exact endsLine_of_isWord hlast
  · -- the next token of the layout is the next one of the query
    obtain ⟨hs, v, more, hlist, hhs, hv, rfl⟩ := exists_of_laid_eq heq hgs hu
    obtain ⟨l, l', rfl, rfl, hl'⟩ := List.map_eq_append_iff.1 hlist
    obtain ⟨u, ts, rfl, rfl, rfl⟩ := List.map_eq_cons_iff.1 hl'
    have hsettled := emitted_settled (k := k) (isKnown_of_stands h u (by simp))
    rw [hsettled] at hjoins
    exact hunjoined t l u ⟨[], ts, by simp⟩ hblank
      (fun g hg => hhs (emitted _ g) (List.mem_map_of_mem hg)) hv hjoins

/-- A comment stands before the rest of the layout: where it ends its line no line feed comes next,
and otherwise nothing comes. -/
theorem cut_comment (h : Stands b (t :: ts)) (hkind : t.kind = .comment)
    (hlast : lastWritten? (reindenting k) before = some (emitted (uppercasing k) t)) :
    Cut b' ⟨t.kind, shown (uppercasing k) t, 0⟩
      (texts (laid k before (ts.map (emitted (uppercasing k))))) := by
  have hblank : t.kind.isBlank = false := by
    rw [hkind]
    rfl
  have hcut := h.cut hblank
  have hshown : shown (uppercasing k) t = t.value := shown_of_cut hcut (by rw [hkind]; decide)
  have hcomment := hcut.isComment hkind
  have hend : texts ts = [] → texts (laid k before (ts.map (emitted (uppercasing k)))) = [] := by
    intro hnil
    rw [h.of_cons.eq_nil hnil]
    rfl
  have hfeed : (texts (laid k before (ts.map (emitted (uppercasing k))))).head? ≠ some '\n' := by
    have hsettled := emitted_settled (k := k) (isKnown_of_stands h t List.mem_cons_self)
    rcases hcomment.ends with ⟨x, hx, hlastx⟩ | hnil
    · refine head?_laid_ne hlast ?_ fun u hu hsolid => ?_
      · have hall : ∀ y ∈ "\r\n".toList, (y == '\n' || y == '\r') = true := by decide
        rw [hsettled, hshown, Page.endsLine, hlastx]
        exact hall x hx
      · obtain ⟨u, hmem, rfl⟩ := List.mem_map.1 hu
        obtain ⟨b, after, hstands⟩ := h.of_cons.of_mem hmem
        rw [emitted_settled (isKnown_of_stands h u (List.mem_cons_of_mem t hmem))]
        obtain ⟨hne, hhead, -⟩ := edges_shown (k := k) (hstands.cut hsolid) hsolid
        exact ⟨hne, hhead⟩
    · simp [hend hnil]
  refine ⟨.comment, ?_, ?_⟩
  · show Piece b' (shown (uppercasing k) t) _ .comment
    rw [hshown]
    exact .comment (hcomment.carried hfeed hend)
  · rw [resolve_of_ne (by decide)]
    exact hkind

/-- If a blank comes next, it is clear. -/
theorem isClear_texts (h : Stands b ts)
    (hnext : ∀ t ∈ ts.head?, t.kind.isBlank = true) : IsClear (texts ts) := by
  cases ts with
  | nil => exact .nil
  | cons t ts =>
    obtain ⟨hgap, hne⟩ := h.gap (hnext t rfl)
    exact hgap.head hne

/-- The layout adds no quotes. -/
theorem mem_of_mem_laid {q : Char} (h : Stands b ts) (hq : q ∈ "'`".toList)
    (hmem : q ∈ texts (laid k before (ts.map (emitted (uppercasing k))))) : q ∈ texts ts := by
  rcases mem_texts_laid hmem with hblank | ⟨u, hu, hmem⟩
  · have hall : ∀ q ∈ "'`".toList, isBlank q = false := by decide
    rw [hall q hq] at hblank
    exact Bool.noConfusion hblank
  · obtain ⟨t, ht, rfl⟩ := List.mem_map.1 hu
    obtain ⟨b, after, hstands⟩ := h.of_mem ht
    rw [emitted_settled (isKnown_of_stands h t ht)] at hmem
    exact List.mem_flatMap.2 ⟨t, ht, mem_of_mem_shown hstands hq hmem⟩

/-- After a token that a line end or a blank sets apart, other tokens have a blank behind them. -/
theorem isClear_behind (hne : t.value ≠ [])
    (hnext : Page.endsLine t.value = false → ∀ u ∈ ts.head?, u.kind.isBlank = true) :
    ∀ u ∈ ts.head?, u.kind.isBlank = false → IsClear (t.value.reverse ++ b) := by
  intro u hu hsolid
  have hends : Page.endsLine t.value = true := by
    rw [← Bool.not_eq_false]
    intro hends
    rw [hnext hends u hu] at hsolid
    exact Bool.noConfusion hsolid
  refine isClear_of_endsLine ?_ hends
  rw [List.head?_append_of_ne_nil _ (by simpa using hne), List.head?_reverse]

/-- The tokens of a query that blanks keep apart stand in their layout as they are written. -/
theorem stands_laid (h : Stands b ts) (hseparated : Separated ts)
    (hunjoined : Unjoined (uppercasing k) ts)
    (hb : ∀ t ∈ ts.head?, t.kind.isBlank = false → IsClear b)
    (hbehind : Behind k before b' (ts.map (emitted (uppercasing k)))) :
    Stands b' (laid k before (ts.map (emitted (uppercasing k)))) ∧
      Worded (laid k before (ts.map (emitted (uppercasing k)))) := by
  induction ts generalizing b before b' with
  | nil => exact ⟨.nil b', .nil⟩
  | cons t ts ih =>
    rw [List.map_cons] at hbehind ⊢
    by_cases hblank : t.kind.isBlank = true
    · rw [laid_blank (t := emitted _ t) hblank]
      obtain ⟨hgap, hne⟩ := h.gap hblank
      exact ih h.of_cons hseparated.of_cons hunjoined.of_cons
        (fun _ _ _ => hgap.reverse.head (by simpa using hne)) (hbehind.skip hblank)
    · rw [Bool.not_eq_true] at hblank
      have hcut := h.cut hblank
      obtain ⟨hne, -, hends⟩ := edges_shown (k := k) hcut hblank
      have hsettled := emitted_settled (k := k) (isKnown_of_stands h t List.mem_cons_self)
      have hnext := hseparated.next hblank
      have hnext' : Page.endsLine (emitted (uppercasing k) t).settled = false →
          ∀ u ∈ (ts.map (emitted (uppercasing k))).head?, u.kind.isBlank = true := by
        rw [hsettled, hends, List.head?_map]
        intro hline u hu
        obtain ⟨v, hv, rfl⟩ := Option.mem_map.1 hu
        exact hnext hline v hv
      have hlast := lastWritten?_written (k := k) (t := emitted (uppercasing k) t) hblank before
      have hclear : Page.endsLine t.value = false →
          IsClear (texts (laid k (before ++ [emitted (uppercasing k) t])
            (ts.map (emitted (uppercasing k))))) := by
        rw [← hends, ← hsettled]
        exact fun hline => isClear_laid hlast hline (.inr (hnext' hline))
      obtain ⟨hstands, hworded⟩ := ih h.of_cons hseparated.of_cons hunjoined.of_cons
        (isClear_behind hcut.ne_nil hnext)
        (.write (t := emitted (uppercasing k) t) hblank (by rwa [hsettled]) hnext' before _)
      rw [hsettled] at hstands
      have hworded' := Worded.token (t := ⟨t.kind, shown (uppercasing k) t, 0⟩) hblank
        (placed_emitted h hblank hunjoined hclear) hworded
      rw [laid_written (t := emitted (uppercasing k) t) hblank, hsettled]
      refine ⟨stands_gapTokens Site.isGap_separator (.token hblank ?_ hstands),
        worded_gapTokens Site.isGap_separator hworded'⟩
      by_cases hkind : t.kind = .comment
      · exact cut_comment h hkind hlast
      · have hline := endsLine_of_ne_comment hcut hblank hkind
        exact cut_emitted hcut hblank hkind (hb t rfl hblank)
          (isClear_texts h.of_cons (hnext hline)) (hbehind.isClear hblank) (hclear hline)
          (fun q hq hmem => mem_of_mem_laid h.of_cons hq hmem) hworded'

/-! ## The second pass -/

/-- The tokens of the layout are written as they are. -/
theorem emitted_of_relaid (h : Relaid k before (ts.map (emitted (uppercasing k))) us)
    (hknown : ∀ t ∈ ts, IsKnown t) : ∀ u ∈ us, emitted (uppercasing k) u = u := by
  intro u hu
  suffices hshown : shown (uppercasing k) u = u.value by rw [emitted, hshown]
  by_cases hblank : u.kind.isBlank = true
  · rw [shown, isKeyword_of_isBlank hblank]
    rfl
  · have hmem : (u.kind, u.value) ∈ (us.filter (!·.kind.isBlank)).map fun u => (u.kind, u.value) :=
      List.mem_map_of_mem (List.mem_filter.2 ⟨hu, by simpa using hblank⟩)
    rw [h.map_settled, List.mem_map] at hmem
    obtain ⟨v, hv, heq⟩ := hmem
    obtain ⟨t, ht, rfl⟩ := List.mem_map.1 (List.mem_of_mem_filter hv)
    obtain ⟨hkind, hvalue⟩ := Prod.mk.inj heq
    rw [emitted_settled (hknown t ht)] at hvalue
    rw [← hvalue, ← shown_emitted (hknown t ht), shown, shown, emitted_value, hvalue, hkind]

/-- Reindenting with keywords in upper case changes nothing the second time, if blanks or line ends
stand between all tokens and no words are written as a phrase that they were not cut as. -/
theorem format_uppercasing_idem (s : Text) (k : Nat) (hcomplete : (Sql.scan s).ending = .complete)
    (hseparated : Separated (Sql.tokens s))
    (hunjoined : Unjoined (uppercasing k) (Sql.tokens s)) :
    formatQuery (uppercasing k) (formatQuery (uppercasing k) s) =
      formatQuery (uppercasing k) s := by
  have hformat : ∀ ts, (∀ t ∈ ts, IsKnown t) → format (uppercasing k) ts =
      describedFrom (reindenting k) [] (ts.map (emitted (uppercasing k))) := fun ts hts =>
    (format_eq_described rfl ts).trans (describedFrom_uppercasing hts)
  obtain ⟨-, hstands⟩ := stands_tokens hcomplete
  have hknown := isKnown_of_stands hstands
  have hlaid := (stands_laid hstands hseparated hunjoined (fun _ _ _ => .nil) (.start k _)).1
  obtain ⟨us, m, d, hcuts, hend, hrelaid⟩ := (relaid_laid k [] _).exists_cuts hlaid 0
  rw [texts_laid, ← hformat _ hknown] at hcuts
  have hscan : Sql.scan (formatQuery (uppercasing k) s) = ⟨us, .complete⟩ := scanFrom_eq hcuts hend
  have htokens : Sql.tokens (formatQuery (uppercasing k) s) = us := congrArg Scan.tokens hscan
  have hsame : us.map (emitted (uppercasing k)) = us :=
    (List.map_congr_left (emitted_of_relaid hrelaid hknown)).trans (List.map_id us)
  have hknown' : ∀ u ∈ us, IsKnown u := isKnown_of_stands (stands_of_cuts hcuts hend).2
  calc formatQuery (uppercasing k) (formatQuery (uppercasing k) s)
      = format (uppercasing k) us := by rw [formatQuery, htokens]
    _ = describedFrom (reindenting k) [] (us.map (emitted (uppercasing k))) := hformat us hknown'
    _ = describedFrom (reindenting k) [] us := by rw [hsame]
    _ = describedFrom (reindenting k) [] ((Sql.tokens s).map (emitted (uppercasing k))) :=
      hrelaid.describedFrom_eq rfl rfl
    _ = formatQuery (uppercasing k) s := (hformat _ hknown).symm

theorem format_uppercasing_idem_from :
    (Sql.scan "select a --\nfrom b".toList).ending = .complete ∧
      Separated (Sql.tokens "select a --\nfrom b".toList) ∧
      Unjoined (uppercasing 0) (Sql.tokens "select a --\nfrom b".toList) ∧
      formatQuery (uppercasing 0) (formatQuery (uppercasing 0) "select a --\nfrom b".toList) =
        formatQuery (uppercasing 0) "select a --\nfrom b".toList := by
  obtain ⟨hcomplete, hseparated, hheads⟩ :
      (Sql.scan "select a --\nfrom b".toList).ending = .complete ∧
      Separated (Sql.tokens "select a --\nfrom b".toList) ∧
      ∀ t ∈ Sql.tokens "select a --\nfrom b".toList, ∀ ws ∈ phraseRows,
        ws.head? ≠ some (shown (uppercasing 0) t) := by
    decide +kernel
  have hunjoined := Unjoined.of_heads hheads
  exact ⟨hcomplete, hseparated, hunjoined,
    format_uppercasing_idem "select a --\nfrom b".toList 0 hcomplete hseparated hunjoined⟩

/-- Two words that are written as a phrase are one keyword the second time, and it begins a line. -/
theorem format_uppercasing_orderBy :
    (Sql.scan "a order by".toList).ending = .complete ∧ Separated (Sql.tokens "a order by".toList) ∧
      formatQuery (uppercasing 0) (formatQuery (uppercasing 0) "a order by".toList) ≠
        formatQuery (uppercasing 0) "a order by".toList := by
  decide +kernel

end SqlLayout.Layout
