import SqlLayout.Proofs.Layout.Alike
import SqlLayout.Proofs.Layout.Essence
import SqlLayout.Proofs.Lexer.Sql.Parting
import SqlLayout.Proofs.Lexer.Sql.Vocabulary

/-!
# Keywords in upper case

A keyword is laid out in upper case with single spaces: as a phrase of the table, or as a word of
the keyword table. These texts are laid out as they are (`shown_emitted`), and reindenting the
tokens with these texts is the same as reindenting with keywords in upper case
(`describedFrom_uppercasing`).
-/

namespace SqlLayout.Layout

open Lexer Text Sql

variable {o : Options} {k : Nat} {t u : Token} {ts before : List Token} {b r v w : Text}
  {ws : List Text}

/-- Reindentation with keywords in upper case. -/
def uppercasing (k : Nat) : Options :=
  { reindent := true, fromBreakCount := k, uppercaseKeywords := true }

/-- The token with the text that it is written with. -/
def emitted (o : Options) (t : Token) : Token := { t with value := shown o t }

@[simp] theorem emitted_kind (o : Options) (t : Token) : (emitted o t).kind = t.kind := rfl

@[simp] theorem emitted_value (o : Options) (t : Token) : (emitted o t).value = shown o t := rfl

theorem shown_of_keyword (h : t.kind = .keyword) :
    shown (uppercasing k) t = Text.upper (Text.collapse t.value) := by
  rw [shown, h]
  rfl

theorem shown_of_ne_keyword (h : t.kind ≠ .keyword) : shown (uppercasing k) t = t.settled := by
  have hkeyword : (t.kind == .keyword) = false := beq_eq_false_iff_ne.2 h
  rw [shown, Token.settled, hkeyword]
  cases t.kind.isKeyword <;> rfl

/-! ## The texts of keywords -/

/-- All texts that keywords are laid out with. -/
def upperKeywords : List Text :=
  phraseRows.map ([' '].intercalate ·) ++ (keywordTable.filter (·.2 == .keyword)).map (·.1)

theorem upper_of_mem_upperKeywords :
    ∀ v ∈ upperKeywords, Text.upper v = v ∧ Text.collapse v = v := by decide +kernel

theorem phrased_intercalate (hne : ws ≠ []) : Phrased ws ([' '].intercalate ws) := by
  induction ws with
  | nil => exact absurd rfl hne
  | cons w ws ih =>
    by_cases hnil : ws = []
    · subst hnil
      rw [List.intercalate_singleton]
      exact .single w
    · rw [List.intercalate_cons_of_ne_nil hnil, List.append_assoc]
      exact .cons (List.cons_ne_nil ' ' []) (IsGap.cons (by decide) .nil) (ih hnil)

/-- A keyword that is cut is a phrase or a word of the table in some letter case. -/
theorem mem_upperKeywords_of_cut (h : Cut b t r) (hkind : t.kind = .keyword) :
    Text.upper (Text.collapse t.value) ∈ upperKeywords := by
  rw [upperKeywords, List.mem_append, List.mem_map, List.mem_map]
  rcases h.keyword_cases (by rw [hkind]; rfl) with ⟨ws, hws, hphrase⟩ | ⟨hentry, hsolid⟩
  · left
    rw [collapse_of_phrased hws hphrase, upper_intercalate_phraseRows ws hws]
    exact ⟨ws, hws, rfl⟩
  · right
    rw [collapse_of_isSolid h.ne_nil hsolid]
    rw [hkind] at hentry
    exact ⟨(Text.upper t.value, .keyword), List.mem_filter.2 ⟨hentry, rfl⟩, rfl⟩

/-! ## Reindenting emitted tokens -/

/-- If the token is a keyword, it is laid out with one of these texts. -/
def IsKnown (t : Token) : Prop :=
  t.kind = .keyword → Text.upper (Text.collapse t.value) ∈ upperKeywords

theorem emitted_settled (h : IsKnown t) :
    (emitted (uppercasing k) t).settled = shown (uppercasing k) t := by
  by_cases hkind : t.kind = .keyword
  · rw [Token.settled, emitted_kind, emitted_value, hkind, shown_of_keyword hkind,
      (upper_of_mem_upperKeywords _ (h hkind)).2]
    rfl
  · rw [Token.settled, emitted_kind, emitted_value, shown_of_ne_keyword hkind]
    exact bare_settled t

/-- What is written is written as it stands. -/
theorem shown_emitted (h : IsKnown t) :
    shown (uppercasing k) (emitted (uppercasing k) t) = shown (uppercasing k) t := by
  by_cases hkind : t.kind = .keyword
  · obtain ⟨hupper, hcollapse⟩ := upper_of_mem_upperKeywords _ (h hkind)
    rw [shown_of_keyword (t := emitted _ t) hkind, emitted_value, shown_of_keyword hkind, hcollapse,
      hupper]
  · rw [shown_of_ne_keyword (t := emitted _ t) hkind, emitted_settled h]

theorem emitted_isWord (h : IsKnown t) (v : String) :
    (emitted (uppercasing k) t).isWord v = t.isWord v := by
  rw [Token.isWord, Token.isWord, emitted_kind]
  by_cases hkeyword : t.kind.isKeyword = true
  · have hword : (emitted (uppercasing k) t).word = t.word := by
      rw [Token.word, Token.word, emitted_kind, if_pos hkeyword, if_pos hkeyword, emitted_value]
      by_cases hkind : t.kind = .keyword
      · obtain ⟨hupper, hcollapse⟩ := upper_of_mem_upperKeywords _ (h hkind)
        rw [shown_of_keyword hkind, hcollapse, hupper]
      · rw [shown_of_ne_keyword hkind, Token.settled, if_pos hkeyword, Text.collapse_collapse]
    rw [hword]
  · rw [Bool.not_eq_true] at hkeyword
    rw [hkeyword, Bool.false_and, Bool.false_and]

theorem emitted_isMark (t : Token) (c : Char) :
    (emitted (uppercasing k) t).isMark c = t.isMark c := by
  by_cases hmark : t.kind = .punctuation
  · have hvalue : shown (uppercasing k) t = t.value := by
      rw [shown, hmark]
      rfl
    rw [Token.isMark, Token.isMark, emitted_kind, emitted_value, hvalue]
  · rw [isMark_of_kind hmark, isMark_of_kind (t := emitted _ t) hmark]

theorem readsAlike_emitted (h : IsKnown t) :
    ReadsAlike (fun t => some (emitted (uppercasing k) t)) t :=
  .inr ⟨_, rfl, rfl, emitted_isMark t, emitted_isWord h⟩

theorem keeps_emitted (h : ∀ t ∈ ts, IsKnown t) :
    Keeps (fun t => some (emitted (uppercasing k) t)) (uppercasing k) (reindenting k) ts where
  reads t ht := readsAlike_emitted (h t ht)
  written t _ := by simp [isWritten, uppercasing, reindenting]
  count := rfl

/-- Emitted tokens stand behind the same separators. -/
theorem separator_emitted (h : ∀ u ∈ before ++ t :: ts, IsKnown u) :
    (Site.mk (before.map (emitted (uppercasing k))) (emitted (uppercasing k) t)
        (ts.map (emitted (uppercasing k)))).separator (reindenting k) =
      (Site.mk before t ts).separator (uppercasing k) := by
  have hkeeps := keeps_emitted (k := k) h
  have hafter : ∀ u ∈ ts, IsKnown u := fun u hu => h u (by simp [hu])
  rw [← List.filterMap_eq_map]
  refine Site.separator_changed (s := ⟨before, t, ts⟩) hkeeps rfl ?_ (fun p hp q hq => ?_) ?_
  · refine Site.breaks_changed (s := ⟨before, t, ts⟩) hkeeps rfl fun _ => ?_
    exact (congrArg headsSubquery (congrFun List.filterMap_eq_map ts)).trans
      (headsSubquery_map fun u hu => readsAlike_emitted (hafter u hu))
  · obtain rfl := Option.some.inj hq
    rw [shown_reindenting, emitted_settled (h p (List.mem_append_left _ hp))]
  · exact blankSince_filterMap (hkeeps.mono (List.subset_append_left before (t :: ts)))
      fun _ _ => rfl

/-- With keywords in upper case the layout is that of the emitted tokens. -/
theorem describedFrom_uppercasing (h : ∀ t ∈ before ++ ts, IsKnown t) :
    describedFrom (uppercasing k) before ts =
      describedFrom (reindenting k) (before.map (emitted (uppercasing k)))
        (ts.map (emitted (uppercasing k))) := by
  induction ts generalizing before with
  | nil => rfl
  | cons t ts ih =>
    have hmore := @ih (before ++ [t]) (by simpa using h)
    rw [List.map_append] at hmore
    rw [List.map_cons, describedFrom_cons, describedFrom_cons, hmore, separator_emitted h,
      shown_reindenting, emitted_settled (h t (by simp))]
    rfl

end SqlLayout.Layout
