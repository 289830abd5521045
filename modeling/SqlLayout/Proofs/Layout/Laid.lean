import SqlLayout.Proofs.Layout.Spacing
import SqlLayout.Proofs.Lexer.Sql.Parting

/-!
# A layout as tokens

The text of a layout is that of a list of tokens: the tokens that are written, with one blank token
for each separator (`laid`). If they stand in that text, its scan gives tokens of the layout
(`Relaid.exists_cuts`).
-/

namespace SqlLayout.Layout

open Lexer Text Sql

variable {k : Nat} {t u p : Token} {before ts us gs after : List Token} {b r : Text}

/-! ## Tokens of a layout -/

/-- The blank token of a separator, if there is one. -/
def gapTokens (g : Text) : List Token := if g = [] then [] else [⟨.whitespace, g, 0⟩]

/-- The reindented tokens with their separators. -/
def laid (k : Nat) (before : List Token) : List Token → List Token
  | [] => []
  | t :: ts =>
    if t.kind.isBlank then laid k (before ++ [t]) ts
    else gapTokens ((Site.mk before t ts).separator (reindenting k)) ++
      ⟨t.kind, t.settled, 0⟩ :: laid k (before ++ [t]) ts

@[simp] theorem texts_gapTokens (g : Text) : texts (gapTokens g) = g := by
  by_cases hg : g = [] <;> simp [gapTokens, hg]

theorem gapTokens_eq_nil_iff {g : Text} : gapTokens g = [] ↔ g = [] := by
  by_cases hg : g = [] <;> simp [gapTokens, hg]

theorem isBlank_of_mem_gapTokens {g : Text} (h : u ∈ gapTokens g) : u.kind.isBlank = true := by
  by_cases hg : g = []
  · simp [gapTokens, hg] at h
  · rw [gapTokens, if_neg hg, List.mem_singleton] at h
    rw [h]
    rfl

theorem laid_blank (h : t.kind.isBlank = true) (before ts : List Token) :
    laid k before (t :: ts) = laid k (before ++ [t]) ts := if_pos h

theorem laid_written (h : t.kind.isBlank = false) (before ts : List Token) :
    laid k before (t :: ts) = gapTokens ((Site.mk before t ts).separator (reindenting k)) ++
      ⟨t.kind, t.settled, 0⟩ :: laid k (before ++ [t]) ts :=
  if_neg (by simp [h])

theorem texts_laid (k : Nat) (before ts : List Token) :
    texts (laid k before ts) = describedFrom (reindenting k) before ts := by
  induction ts generalizing before with
  | nil => rfl
  | cons t ts ih =>
    by_cases hblank : t.kind.isBlank = true
    · rw [laid_blank hblank, describedFrom_blank hblank, ih]
    · rw [Bool.not_eq_true] at hblank
      rw [laid_written hblank, describedFrom_written hblank, texts_append, texts_cons,
        texts_gapTokens, ih]

theorem relaid_laid (k : Nat) (before ts : List Token) : Relaid k before ts (laid k before ts) := by
  induction ts generalizing before with
  | nil => exact .done before
  | cons t ts ih =>
    by_cases hblank : t.kind.isBlank = true
    · rw [laid_blank hblank]
      exact .skip hblank (ih _)
    · rw [Bool.not_eq_true] at hblank
      rw [laid_written hblank]
      exact .write hblank (fun g hg => isBlank_of_mem_gapTokens hg) (not_congr gapTokens_eq_nil_iff)
        rfl rfl (ih _)

/-- After blank tokens the first other one is determined. -/
theorem eq_of_gaps {hs more : List Token} (hgs : ∀ g ∈ gs, g.kind.isBlank = true)
    (hhs : ∀ g ∈ hs, g.kind.isBlank = true) (hu : u.kind.isBlank = false)
    (ht : t.kind.isBlank = false) (h : gs ++ u :: after = hs ++ t :: more) : u = t := by
  induction gs generalizing hs with
  | nil =>
    cases hs with
    | nil => exact (List.cons.inj h).1
    | cons g hs =>
      rw [(List.cons.inj h).1, hhs g List.mem_cons_self] at hu
      exact Bool.noConfusion hu
  | cons g gs ih =>
    cases hs with
    | nil =>
      rw [← (List.cons.inj h).1, hgs g List.mem_cons_self] at ht
      exact Bool.noConfusion ht
    | cons g' hs =>
      exact ih (fun v hv => hgs v (List.mem_cons_of_mem g hv))
        (fun v hv => hhs v (List.mem_cons_of_mem g' hv)) (List.cons.inj h).2

/-- The first token of a layout that is no blank is the first one that is written. -/
theorem exists_of_laid_eq (h : laid k before ts = gs ++ u :: after)
    (hgs : ∀ g ∈ gs, g.kind.isBlank = true) (hu : u.kind.isBlank = false) :
    ∃ hs v more, ts = hs ++ v :: more ∧ (∀ g ∈ hs, g.kind.isBlank = true) ∧ v.kind.isBlank = false ∧
      u = ⟨v.kind, v.settled, 0⟩ := by
  induction ts generalizing before with
  | nil => exact absurd h (by simp [laid])
  | cons t ts ih =>
    by_cases hblank : t.kind.isBlank = true
    · rw [laid_blank hblank] at h
      obtain ⟨hs, v, more, rfl, hhs, hv⟩ := ih h
      exact ⟨t :: hs, v, more, rfl, List.forall_mem_cons.2 ⟨hblank, hhs⟩, hv⟩
    · rw [Bool.not_eq_true] at hblank
      rw [laid_written hblank] at h
      exact ⟨[], t, ts, rfl, by simp, hblank,
        eq_of_gaps hgs (fun g hg => isBlank_of_mem_gapTokens hg) hu hblank h.symm⟩

/-- A separator may stand before tokens that stand. -/
theorem stands_gapTokens {g : Text} (hg : IsGap g) (h : Stands (g.reverse ++ b) us) :
    Stands b (gapTokens g ++ us) := by
  by_cases hne : g = []
  · subst hne
    exact h
  · rw [gapTokens, if_neg hne]
    exact .blank rfl hg hne h

theorem worded_gapTokens {g : Text} (hg : IsGap g) (h : Worded us) :
    Worded (gapTokens g ++ us) := by
  by_cases hne : g = []
  · subst hne
    exact h
  · rw [gapTokens, if_neg hne]
    exact .gap rfl hg h

/-- The scan of tokens that stand as a layout gives tokens of the same layout. -/
theorem Relaid.exists_cuts (h : Relaid k before ts us) (hstands : Stands b us) (n : Nat) :
    ∃ vs m d, Cuts lexer n ⟨b, texts us⟩ vs m d ∧ d.rest = [] ∧ Relaid k before ts vs := by
  induction h generalizing b n with
  | done before => exact ⟨[], n, _, .done n _, rfl, .done before⟩
  | skip hblank _ ih =>
    obtain ⟨vs, m, d, hcuts, hend, hrelaid⟩ := ih hstands n
    exact ⟨vs, m, d, hcuts, hend, .skip hblank hrelaid⟩
  | @write before ts gs us t u hblank hgs hgap hkind hvalue _ ih =>
    have hu : u.kind.isBlank = false := by rw [hkind, hblank]
    have htoken : Stands _ (u :: us) := hstands.of_append
    have hcut := htoken.cut hu
    have hgaps : IsGap (texts gs) ∧ (texts gs ≠ [] ↔ gs ≠ []) := by
      by_cases hne : gs = []
      · subst hne
        exact ⟨.nil, by simp⟩
      · obtain ⟨hg, hne'⟩ := hstands.gap_texts hne hgs
        exact ⟨hg, iff_of_true hne' hne⟩
    have hhead : (u.value ++ texts us).head?.any isBlank = false := by
      rw [List.head?_append_of_ne_nil _ hcut.ne_nil]
      exact (hcut.isEdged hu).head
    obtain ⟨hs, hblanks, hhs⟩ := exists_cuts_gap hgaps.1 hhead b n
    obtain ⟨vs, m, d, hcuts, hend, hrelaid⟩ :=
      ih htoken.of_cons (n + (texts gs).length + u.value.length)
    refine ⟨hs ++ { u with offset := (n + (texts gs).length : Nat) } :: vs, m, d, ?_, hend, ?_⟩
    · rw [texts_append, texts_cons]
      refine hblanks.trans (.step ?_ hcuts)
      exact next_eq_token_iff_cut.2 ⟨_, rfl, rfl, rfl, hcut⟩
    · refine .write hblank hhs ?_ hkind hvalue hrelaid
      rw [hblanks.ne_nil_iff, ← hgap, ← hgaps.2, ← List.length_pos_iff]
      omega

/-! ## What the text of a layout begins with -/

theorem mem_texts_laid {x : Char} (h : x ∈ texts (laid k before ts)) :
    isBlank x = true ∨ ∃ t ∈ ts, x ∈ t.settled := by
  induction ts generalizing before with
  | nil => exact absurd h List.not_mem_nil
  | cons t ts ih =>
    have hmore : x ∈ texts (laid k (before ++ [t]) ts) →
        isBlank x = true ∨ ∃ u ∈ t :: ts, x ∈ u.settled := by
      intro hx
      rcases ih hx with hx | ⟨u, hu, hx⟩
      · exact .inl hx
      · exact .inr ⟨u, List.mem_cons_of_mem t hu, hx⟩
    by_cases hblank : t.kind.isBlank = true
    · rw [laid_blank hblank] at h
      exact hmore h
    · rw [laid_written (by simpa using hblank), texts_append, texts_gapTokens, texts_cons,
        List.mem_append, List.mem_append] at h
      rcases h with hx | hx | hx
      · exact .inl (Site.isGap_separator x hx)
      · exact .inr ⟨t, List.mem_cons_self, hx⟩
      · exact hmore hx

/-- The text begins with a blank, if it begins at all. -/
def IsClear (r : Text) : Prop := ∀ x ∈ r.head?, isBlank x = true

theorem IsClear.nil : IsClear [] := fun _ hx => nomatch hx

theorem IsClear.append {g : Text} (h : IsGap g) (hr : IsClear r) : IsClear (g ++ r) := by
  by_cases hg : g = []
  · rwa [hg]
  · exact h.head hg

/-- Where a space is owed or comes next, the layout goes on with a blank. -/
theorem isClear_laid (hlast : lastWritten? (reindenting k) before = some p)
    (hends : Page.endsLine p.settled = false)
    (howed : blankSince (reindenting k) before = true ∨ ∀ t ∈ ts.head?, t.kind.isBlank = true) :
    IsClear (texts (laid k before ts)) := by
  induction ts generalizing before with
  | nil => exact .nil
  | cons t ts ih =>
    by_cases hblank : t.kind.isBlank = true
    · rw [laid_blank hblank]
      exact ih (by rw [lastWritten?_blank hblank, hlast]) (.inl (blankSince_blank hblank before))
    · rw [Bool.not_eq_true] at hblank
      have hsince := howed.resolve_right fun h => by simp [h t rfl] at hblank
      rw [← shown_reindenting k] at hends
      have hne := (Site.separator_ne_nil_iff (s := ⟨before, t, ts⟩) hlast hends).2 (.inr hsince)
      rw [laid_written hblank, texts_append, texts_gapTokens]
      exact Site.isGap_separator.head hne

/-- Where a line has ended, the layout goes on with no line feed. -/
theorem head?_laid_ne (hlast : lastWritten? (reindenting k) before = some p)
    (hends : Page.endsLine p.settled = true)
    (hheads : ∀ t ∈ ts, t.kind.isBlank = false →
      t.settled ≠ [] ∧ t.settled.head?.any isBlank = false) :
    (texts (laid k before ts)).head? ≠ some '\n' := by
  induction ts generalizing before with
  | nil => exact nofun
  | cons t ts ih =>
    by_cases hblank : t.kind.isBlank = true
    · rw [laid_blank hblank]
      exact ih (by rw [lastWritten?_blank hblank, hlast])
        fun u hu => hheads u (List.mem_cons_of_mem t hu)
    · rw [Bool.not_eq_true] at hblank
      obtain ⟨hne, hsolid⟩ := hheads t List.mem_cons_self hblank
      have hindent := Site.separator_of_endsLine (s := ⟨before, t, ts⟩) hlast
        (by rw [shown_reindenting]; exact hends)
      rw [laid_written hblank, texts_append, texts_gapTokens, hindent, texts_cons,
        List.head?_append]
      cases hfirst : (Site.mk before t ts).indentation.head? with
      | some x =>
        rw [Site.mem_indentation (List.mem_of_mem_head? hfirst), Option.some_or]
        decide
      | none =>
        intro hfeed
        rw [Option.none_or, List.head?_append_of_ne_nil _ hne] at hfeed
        rw [hfeed] at hsolid
        exact absurd hsolid (by decide)

end SqlLayout.Layout
