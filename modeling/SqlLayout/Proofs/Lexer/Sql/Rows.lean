import SqlLayout.Proofs.Lexer.Sql.Respacing

/-!
# All phrases in one table

The rules for keywords of several words are read as one: a phrase is a row of the table `phraseRows`
with gaps between its words, and it stands at the front of a text if no word goes on after it
(`IsPhraseAt`). No row begins another one, so a place has at most one phrase, and the rules for
phrases cut exactly that one (`firstMatch?_phraseRules_iff`).
-/

namespace SqlLayout.Sql

open Lexer Text

variable {b v v' r r' s w : Text} {ws ws' us : List Text}

/-! ## Rows -/

/-- The words of every phrase. -/
def phraseRows : List (List Text) :=
  joinOpeners.map (· ++ ["JOIN".toList]) ++
    [["ORDER".toList, "BY".toList], ["GROUP".toList, "BY".toList],
      ["UNION".toList, "ALL".toList]]

theorem isWordText_of_mem_phraseRows : ∀ ws ∈ phraseRows, ∀ w ∈ ws, IsWordText w := by decide

/-- No row begins another one. -/
theorem eq_of_prefix_phraseRows :
    ∀ ws ∈ phraseRows, ∀ ws' ∈ phraseRows, ws <+: ws' → ws = ws' := by decide +kernel

/-- What follows the first of three or more words is a row again. -/
theorem tail_mem_phraseRows :
    ∀ ws ∈ phraseRows, 2 < ws.length → ws.tail ∈ phraseRows := by decide +kernel

/-- The words one after another, with gaps between them. -/
inductive Phrased : List Text → Text → Prop
  | single (w : Text) : Phrased [w] w
  | cons {w g v : Text} {ws : List Text} (hne : g ≠ []) (hg : IsGap g) (more : Phrased ws v) :
      Phrased (w :: ws) (w ++ (g ++ v))

theorem phrased_concat_iff {last : Text} :
    Phrased (us ++ [last]) v ↔ ∃ o, v = o ++ last ∧ Opened us o := by
  constructor
  · intro h
    induction us generalizing v with
    | nil =>
      cases h with
      | single => exact ⟨[], rfl, .nil⟩
      | cons _ _ more => exact nomatch more
    | cons u us ih =>
      rw [List.cons_append] at h
      generalize hws : us ++ [last] = ws at h
      cases h with
      | single => exact absurd hws (by simp)
      | cons hne hg more =>
        obtain ⟨o, rfl, ho⟩ := ih (hws ▸ more)
        exact ⟨_, by simp, .cons hne hg ho⟩
  · rintro ⟨o, rfl, ho⟩
    induction ho with
    | nil => exact .single last
    | @cons u g o us hne hg _ ih =>
      have happend : u ++ (g ++ o) ++ last = u ++ (g ++ (o ++ last)) := by simp
      rw [happend]
      exact .cons hne hg ih

theorem Phrased.words (h : Phrased ws v) (hws : ∀ w ∈ ws, IsWordText w) : Text.words v = ws := by
  induction h with
  | single w =>
    have hw := hws w List.mem_cons_self
    exact words_of_isSolid hw.1 hw.isSolid
  | @cons w g v ws hne hg _ ih =>
    have hw := hws w List.mem_cons_self
    rw [words_append_gap hw.1 hw.isSolid hne hg, ih fun u hu => hws u (List.mem_cons_of_mem w hu)]

/-- A phrase begins with a character of its first word. -/
theorem Phrased.exists_head (h : Phrased ws v) (hws : ∀ w ∈ ws, IsWordText w) :
    ∃ x t, v = x :: t ∧ ∃ w ∈ ws, x ∈ w := by
  cases h with
  | single w =>
    obtain ⟨x, t, rfl⟩ := List.exists_cons_of_ne_nil (hws v List.mem_cons_self).1
    exact ⟨x, t, rfl, _, List.mem_cons_self, List.mem_cons_self⟩
  | @cons w g v ws =>
    obtain ⟨x, t, rfl⟩ := List.exists_cons_of_ne_nil (hws w List.mem_cons_self).1
    exact ⟨x, _, rfl, _, List.mem_cons_self, List.mem_cons_self⟩

/-- And it ends with a character of its last word. -/
theorem Phrased.getLast?_any_isWord (h : Phrased ws v) (hws : ∀ w ∈ ws, IsWordText w) :
    v.getLast?.any isWord = true := by
  induction h with
  | single w =>
    obtain ⟨x, hx, hword⟩ := (hws w List.mem_cons_self).getLast?
    rw [hx, Option.any_some, hword]
  | @cons w g v ws _ _ more ih =>
    have htail : ∀ u ∈ ws, IsWordText u := fun u hu => hws u (List.mem_cons_of_mem w hu)
    obtain ⟨x, t, hv, -⟩ := more.exists_head htail
    have hne : v ≠ [] := by simp [hv]
    rw [List.getLast?_append_of_ne_nil _ (by simp [hne]), List.getLast?_append_of_ne_nil _ hne]
    exact ih htail

/-- Of two phrases at one place the words of one begin those of the other. -/
theorem Phrased.comparable (h : Phrased ws v) (h' : Phrased ws' v')
    (hws : ∀ w ∈ ws, IsWordText w) (hws' : ∀ w ∈ ws', IsWordText w)
    (hr : r.head?.any isWord = false) (hr' : r'.head?.any isWord = false)
    (heq : v ++ r = v' ++ r') :
    (ws <+: ws' ∨ ws' <+: ws) ∧ (ws = ws' → v = v') := by
  induction h generalizing ws' v' with
  | single w =>
    have hw := (hws w List.mem_cons_self).2
    cases h' with
    | single w' =>
      obtain ⟨rfl, -⟩ := run_unique hw (hws' _ List.mem_cons_self).2 hr hr' heq
      exact ⟨.inl List.prefix_rfl, fun _ => rfl⟩
    | @cons w' g' v' ws' hne' hg' more' =>
      rw [List.append_assoc, List.append_assoc] at heq
      obtain ⟨rfl, -⟩ := run_unique hw (hws' _ List.mem_cons_self).2 hr
        (IsGap.head?_isWord hg' hne' _) heq
      refine ⟨.inl (by simp), fun hnil => ?_⟩
      obtain rfl : [] = ws' := (List.cons.inj hnil).2
      exact nomatch more'
  | @cons w g v ws hne hg more ih =>
    have hw := (hws w List.mem_cons_self).2
    rw [List.append_assoc, List.append_assoc] at heq
    cases h' with
    | single w' =>
      obtain ⟨rfl, -⟩ := run_unique hw (hws' _ List.mem_cons_self).2
        (IsGap.head?_isWord hg hne _) hr' heq
      refine ⟨.inr (by simp), fun hnil => ?_⟩
      obtain rfl : ws = [] := (List.cons.inj hnil).2
      exact nomatch more
    | @cons w' g' v' ws' hne' hg' more' =>
      rw [List.append_assoc, List.append_assoc] at heq
      obtain ⟨rfl, hgaps⟩ := run_unique hw (hws' _ List.mem_cons_self).2
        (IsGap.head?_isWord hg hne _) (IsGap.head?_isWord hg' hne' _) heq
      have htail : ∀ u ∈ ws, IsWordText u := fun u hu => hws u (List.mem_cons_of_mem w hu)
      have htail' : ∀ u ∈ ws', IsWordText u := fun u hu => hws' u (List.mem_cons_of_mem w hu)
      -- a gap ends where the next word begins
      have hstop : ∀ {vs : List Text} {p : Text} (q : Text), Phrased vs p →
          (∀ u ∈ vs, IsWordText u) → (p ++ q).head?.any isBlank = false := by
        intro vs p q hp hvs
        obtain ⟨x, t, rfl, w, hw, hx⟩ := hp.exists_head hvs
        exact isBlank_eq_false_of_isWord ((hvs w hw).2 x hx)
      obtain ⟨rfl, hrest⟩ := run_unique hg hg' (hstop r more htail) (hstop r' more' htail') hgaps
      obtain ⟨hstart, hsame⟩ := ih more' htail htail' hrest
      refine ⟨?_, fun hcons => ?_⟩
      · rw [List.prefix_cons_inj, List.prefix_cons_inj]
        exact hstart
      · rw [hsame (List.cons.inj hcons).2]

/-! ## Phrases at a place -/

/-- The first text is a phrase, and no word goes on where the second one follows it. -/
structure IsPhraseAt (v r : Text) : Prop where
  row : ∃ ws ∈ phraseRows, Phrased ws v
  stops : r.head?.any isWord = false

theorem IsPhraseAt.unique (h : IsPhraseAt v r) (h' : IsPhraseAt v' r')
    (heq : v ++ r = v' ++ r') : v = v' := by
  obtain ⟨ws, hws, hv⟩ := h.row
  obtain ⟨ws', hws', hv'⟩ := h'.row
  obtain ⟨hstart, hsame⟩ := hv.comparable hv' (isWordText_of_mem_phraseRows ws hws)
    (isWordText_of_mem_phraseRows ws' hws') h.stops h'.stops heq
  refine hsame ?_
  rcases hstart with hstart | hstart
  · exact eq_of_prefix_phraseRows ws hws ws' hws' hstart
  · exact (eq_of_prefix_phraseRows ws' hws' ws hws hstart).symm

/-- Every rule for phrases reads rows of the table. -/
theorem exists_table {rule : Rule} (h : rule ∈ phraseRules) :
    ∃ table last, ReadsPhrase rule table last ∧ ∀ us ∈ table, us ++ [last] ∈ phraseRows := by
  simp only [phraseRules, List.mem_cons, List.not_mem_nil, or_false] at h
  rcases h with rfl | rfl | rfl | rfl
  · exact ⟨_, _, readsPhrase_join, by decide⟩
  · exact ⟨_, _, readsPhrase_orderBy, by decide⟩
  · exact ⟨_, _, readsPhrase_groupBy, by decide⟩
  · exact ⟨_, _, readsPhrase_unionAll, by decide⟩

/-- Every row of the table is read by a rule. -/
theorem exists_rule_of_mem_phraseRows (h : ws ∈ phraseRows) :
    ∃ rule ∈ phraseRules, ∃ table last us, ReadsPhrase rule table last ∧ us ∈ table ∧
      ws = us ++ [last] := by
  rw [phraseRows, List.mem_append] at h
  rcases h with h | h
  · obtain ⟨us, hus, rfl⟩ := List.mem_map.1 h
    exact ⟨join, by simp [phraseRules], _, _, us, readsPhrase_join, hus, rfl⟩
  · simp only [List.mem_cons, List.not_mem_nil, or_false] at h
    rcases h with rfl | rfl | rfl
    · exact ⟨orderBy, by simp [phraseRules], _, _, _, readsPhrase_orderBy,
        List.mem_singleton.2 rfl, rfl⟩
    · exact ⟨groupBy, by simp [phraseRules], _, _, _, readsPhrase_groupBy,
        List.mem_singleton.2 rfl, rfl⟩
    · exact ⟨unionAll, by simp [phraseRules], _, _, _, readsPhrase_unionAll,
        List.mem_singleton.2 rfl, rfl⟩

/-- The rules for phrases read the phrases. -/
theorem exists_end?_iff {e : Cursor} :
    (∃ rule ∈ phraseRules, rule.end? ⟨b, s⟩ = some e) ↔
      ∃ v r, s = v ++ r ∧ e = ⟨v.reverse ++ b, r⟩ ∧ IsPhraseAt v r := by
  constructor
  · rintro ⟨rule, hrule, hend⟩
    obtain ⟨table, last, hreads, hrows⟩ := exists_table hrule
    obtain ⟨o, ⟨us, hus, ho⟩, hread, hafter⟩ := hreads.end?_eq_some_iff.1 hend
    obtain ⟨r, rfl, rfl⟩ := Cursor.reads_iff.1 hread
    exact ⟨o ++ last, r, rfl, rfl,
      ⟨us ++ [last], hrows us hus, phrased_concat_iff.2 ⟨o, rfl, ho⟩⟩, hafter⟩
  · rintro ⟨v, r, rfl, rfl, ⟨ws, hws, hv⟩, hafter⟩
    obtain ⟨rule, hrule, table, last, us, hreads, hus, rfl⟩ := exists_rule_of_mem_phraseRows hws
    obtain ⟨o, rfl, ho⟩ := phrased_concat_iff.1 hv
    exact ⟨rule, hrule, hreads.end?_eq_some_iff.2 ⟨o, ⟨us, hus, ho⟩, .over b _ r, hafter⟩⟩

theorem firstMatch?_phraseRules_eq_none_iff :
    firstMatch? phraseRules ⟨b, s⟩ = none ↔ ∀ v r, s = v ++ r → ¬IsPhraseAt v r := by
  rw [firstMatch?_eq_none_iff]
  constructor
  · intro h v r hs hphrase
    obtain ⟨rule, hrule, hend⟩ := exists_end?_iff.2 ⟨v, r, hs, rfl, hphrase⟩
    rw [h rule hrule] at hend
    exact nomatch hend
  · intro h rule hrule
    rw [Option.eq_none_iff_forall_not_mem]
    intro e he
    obtain ⟨v, r, hs, -, hphrase⟩ := exists_end?_iff.1 ⟨rule, hrule, he⟩
    exact h v r hs hphrase

/-- The rules for phrases cut the phrase at a place, if there is one. -/
theorem firstMatch?_phraseRules_iff {kind : Kind} :
    firstMatch? phraseRules ⟨b, v ++ r⟩ = some (kind, ⟨v.reverse ++ b, r⟩) ↔
      kind = .keyword ∧ IsPhraseAt v r := by
  have hplace : ∀ {v' r' : Text}, v ++ r = v' ++ r' →
      (⟨v.reverse ++ b, r⟩ : Cursor) = ⟨v'.reverse ++ b, r'⟩ → v = v' := by
    intro v' r' heq hcursor
    obtain rfl : r = r' := congrArg Cursor.rest hcursor
    exact List.append_cancel_right heq
  constructor
  · intro h
    obtain ⟨rule, hrule, hend, -⟩ := exists_rule_of_firstMatch? h
    obtain ⟨v', r', heq, hcursor, hphrase⟩ := exists_end?_iff.1 ⟨rule, hrule, hend⟩
    obtain rfl := hplace heq hcursor
    obtain rfl := List.append_cancel_left heq
    exact ⟨kind_of_phraseRules h, hphrase⟩
  · rintro ⟨rfl, hphrase⟩
    cases hfirst : firstMatch? phraseRules ⟨b, v ++ r⟩ with
    | none => exact absurd hphrase (firstMatch?_phraseRules_eq_none_iff.1 hfirst v r rfl)
    | some found =>
      obtain ⟨kind, e⟩ := found
      obtain ⟨rule, hrule, hend, -⟩ := exists_rule_of_firstMatch? hfirst
      obtain ⟨v', r', heq, rfl, hphrase'⟩ := exists_end?_iff.1 ⟨rule, hrule, hend⟩
      obtain rfl := hphrase.unique hphrase' heq
      obtain rfl := List.append_cancel_left heq
      rw [kind_of_phraseRules hfirst]

end SqlLayout.Sql
