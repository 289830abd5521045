import SqlLayout.Proofs.Layout.Lined

/-!
# Lines are indented by the levels around their parentheses

A line is indented by the levels open at its start. They are those around a parenthesis further on
that line, too: a level that indents is only left by a token that begins a line, and at most one such
level is entered on a line, since the `SELECT` after its parenthesis begins the next one (`Upright`).
-/

namespace SqlLayout.Layout

open Text Sql

variable {o : Options} {s : State} {t p : Token} {l : Text} {before following : List Token} {k : Nat}

/-! ## The start of a line -/

/-- A line that was begun with this many levels. -/
def Begun (k : Nat) (l : Text) : Prop :=
  ∃ c w, l = List.replicate (2 * k) ' ' ++ c :: w ∧ isBlank c = false

theorem ne_space_of_isBlank_eq_false {c : Char} (h : isBlank c = false) : c ≠ ' ' := by
  rintro rfl
  exact absurd h (by decide)

theorem Begun.indentation_eq (h : Begun k l) : indentation l = 2 * k := by
  obtain ⟨c, w, rfl, hc⟩ := h
  exact indentation_replicate_append (ne_space_of_isBlank_eq_false hc) w

theorem Begun.append (h : Begun k l) (y : Text) : Begun k (l ++ y) := by
  obtain ⟨c, w, rfl, hc⟩ := h
  exact ⟨c, w ++ y, by rw [List.append_assoc]; rfl, hc⟩

/-- The levels are those that the line was begun with, or one more: a subquery whose `SELECT` is
still to come. -/
inductive Leads (levels : List Bool) (following : List Token) (k : Nat) : Prop
  | even (hk : k = levels.count true)
  | ahead (outer : List Bool) (hlevels : levels = true :: outer) (hk : k = outer.count true)
      (hselect : holdsSelect following = true)

theorem holdsSelect_cons (t : Token) (following : List Token) :
    holdsSelect (t :: following) =
      if t.kind == .punctuation then false
      else if t.kind.isKeyword then t.isWord "SELECT"
      else holdsSelect following := by
  rw [← opensSubquery_eq, opensSubquery, opensSubquery_eq]

/-- On its way to a `SELECT` the search passes over tokens that are neither keywords nor
punctuation. -/
theorem holdsSelect_of_cons (h : holdsSelect (t :: following) = true)
    (hkeyword : t.kind.isKeyword = false) :
    t.kind ≠ .punctuation ∧ holdsSelect following = true := by
  rw [holdsSelect_cons, hkeyword] at h
  by_cases hmark : t.kind = .punctuation
  · simp [hmark] at h
  · exact ⟨hmark, by simpa [hmark] using h⟩

theorem leads_push (following : List Token) (levels : List Bool) (t : Token) :
    Leads (if t.isMark '(' then holdsSelect following :: levels else levels) following
      (levels.count true) := by
  split
  · cases hselect : holdsSelect following with
    | true => exact .ahead levels rfl rfl hselect
    | false => exact .even (by simp)
  · exact .even rfl

theorem isWritten_of_isKeyword (h : t.kind.isKeyword = true) : isWritten o t = true := by
  obtain ⟨hblank, hcomment, -⟩ := ne_of_isKeyword h
  rw [isWritten, hblank, hcomment, Bool.and_false]
  rfl

/-- The `SELECT` of a subquery begins a line within its level. -/
theorem begins_select {outer : List Bool} (hlevels : s.page.levels = true :: outer)
    (hselects : t.isWord "SELECT" = true) (following : List Token) :
    beginsLine o s t following = true ∧ width s t = 2 * outer.count true + 2 := by
  have hkeyword := isKeyword_of_isWord hselects
  obtain ⟨-, hcomment, hname, hmark⟩ := ne_of_isKeyword hkeyword
  have hclose : t.isMark ')' = false := isMark_of_kind (beq_eq_false_iff_ne.1 hmark)
  constructor
  · rw [beginsLine, hclose, hcomment, hname, hkeyword, hselects, hlevels]
    rfl
  · rw [width, levelsAround, hclose, if_neg Bool.false_ne_true, hlevels, List.count_cons_self]
    omega

/-- The parenthesis that closes a subquery begins a line outside of it. -/
theorem begins_close {outer : List Bool} (hlevels : s.page.levels = true :: outer)
    (hcloses : t.isMark ')' = true) (following : List Token) :
    beginsLine o s t following = true ∧ width s t = 2 * outer.count true := by
  constructor
  · rw [beginsLine, if_pos hcloses, hlevels]
    rfl
  · rw [width, levelsAround, if_pos hcloses, hlevels]
    rfl

/-- A token that begins no line does not change how far the levels lead. -/
theorem Leads.stays (h : Leads s.page.levels (t :: following) k)
    (hbegins : beginsLine o s t following = false) :
    Leads (place o s t following).page.levels following k := by
  rw [place_levels]
  cases h with
  | even hk =>
    have hcount : (levelsAround s t).count true = s.page.levels.count true := by
      rw [levelsAround]
      split
      · next hclose =>
        -- the level that is left does not indent, or else the token begins a line
        rw [beginsLine, if_pos hclose] at hbegins
        cases hlevels : s.page.levels with
        | nil => rfl
        | cons b outer =>
          rw [hlevels, List.headD_cons] at hbegins
          rw [hbegins]
          simp
      · rfl
    rw [hk, ← hcount]
    exact leads_push following (levelsAround s t) t
  | ahead outer hlevels hk hselect =>
    have hkeyword : t.kind.isKeyword = false := by
      -- a keyword is the `SELECT`, which begins a line
      rw [← Bool.not_eq_true]
      intro hkeyword
      have hword : t.isWord "SELECT" = true := by
        rwa [holdsSelect_cons, (ne_of_isKeyword hkeyword).2.2.2, hkeyword] at hselect
      rw [(begins_select hlevels hword following).1] at hbegins
      exact Bool.noConfusion hbegins
    obtain ⟨hmark, hselect⟩ := holdsSelect_of_cons hselect hkeyword
    rw [levelsAround, isMark_of_kind hmark, isMark_of_kind hmark]
    exact .ahead outer hlevels hk hselect

/-- The current line of the page was begun with the levels that are open, but for a subquery whose
`SELECT` is still to come. -/
def Upright (s : State) (following : List Token) : Prop :=
  ∃ ls l, Shows s s.page.out.toText ls l ∧
    (s.page.lineHasContent = true → ∃ k, Begun k l ∧ Leads s.page.levels following k)

theorem upright_init (ts : List Token) : Upright {} ts :=
  ⟨[], [], ⟨rfl, fun _ => rfl, nofun⟩, nofun⟩

theorem Upright.place (h : Upright s (t :: following)) (hstroke : IsStroke (shown o t)) :
    Upright (Layout.place o s t following) following := by
  obtain ⟨ls, l, hshows, hline⟩ := h
  obtain ⟨ls', l', c, w, hturns, hc, hplaced⟩ := hshows.place hstroke following
  have hbegun : ∃ k, Begun k (l' ++ c :: w) ∧
      Leads (Layout.place o s t following).page.levels following k := by
    have hnew : ∃ k, Begun k (List.replicate (width s t) ' ' ++ c :: w) ∧
        Leads (Layout.place o s t following).page.levels following k := by
      refine ⟨(levelsAround s t).count true, ⟨c, w, rfl, hc⟩, ?_⟩
      rw [place_levels]
      exact leads_push following (levelsAround s t) t
    cases hturns with
    | stays hcontent hbegins gap =>
      obtain ⟨k, hk, hleads⟩ := hline hcontent
      exact ⟨k, (hk.append gap).append _, hleads.stays hbegins⟩
    | ends => exact hnew
    | fresh => exact hnew
  rw [← toText_place] at hplaced
  rcases hplaced with ⟨-, hshows'⟩ | ⟨hcontent, hshows'⟩
  · exact ⟨_, _, hshows', fun _ => hbegun⟩
  · refine ⟨_, _, hshows', fun htrue => ?_⟩
    rw [hcontent] at htrue
    exact Bool.noConfusion htrue

/-- A token that is not written is neither a keyword nor punctuation. -/
theorem holdsSelect_of_not_isWritten (ht : isWritten o t = false)
    (h : holdsSelect (t :: following) = true) : holdsSelect following = true := by
  refine (holdsSelect_of_cons h ?_).2
  rw [isWritten] at ht
  generalize t.kind = kind at ht
  cases kind <;> first | rfl | simp [Kind.isBlank] at ht

theorem Upright.skip (h : Upright s (t :: following)) (hreindent : o.reindent = true)
    (ht : isWritten o t = false) : Upright (step o s t following) following := by
  obtain ⟨ls, l, hshows, hline⟩ := h
  obtain ⟨hout, hlevels, hcontent⟩ := step_of_not_isWritten hreindent ht s following
  refine ⟨ls, l, ?_, ?_⟩
  · rw [hout]
    exact ⟨hshows.lines, hcontent ▸ hshows.fresh, hcontent ▸ hshows.whole⟩
  · rw [hcontent, hlevels]
    intro htrue
    obtain ⟨k, hk, hleads⟩ := hline htrue
    refine ⟨k, hk, ?_⟩
    cases hleads with
    | even hk => exact .even hk
    | ahead outer hlevels hk hselect =>
      exact .ahead outer hlevels hk (holdsSelect_of_not_isWritten ht hselect)

/-- Every run keeps its page so. -/
theorem upright_runBefore (hreindent : o.reindent = true)
    (hstrokes : ∀ t ∈ before, isWritten o t = true → IsStroke (shown o t)) (after : List Token) :
    Upright (runBefore o {} before after) after := by
  induction before using List.reverseRecOn generalizing after with
  | nil => exact upright_init after
  | append_singleton before t ih =>
    have hbefore := ih (fun u hu => hstrokes u (List.mem_append_left _ hu)) (t :: after)
    rw [runBefore_concat]
    cases ht : isWritten o t with
    | true =>
      rw [step_of_isWritten hreindent ht]
      exact hbefore.place (hstrokes t (by simp) ht)
    | false => exact hbefore.skip hreindent ht

theorem Upright.opened (h : Upright s (t :: following)) (hopened : t.isMark '(' = true) :
    ∃ ls l, Text.lines (s.page.out.toText ++ gapBefore o s t following ++ ['(']) = ls ++ [l] ∧
      indentation l = 2 * s.page.levels.count true := by
  obtain ⟨ls, l, hshows, hline⟩ := h
  obtain ⟨ls', l', hturns, hlines⟩ := hshows.turns o t following
  have hparen : IsOneLine ['('] := by
    intro c hc
    rw [List.mem_singleton.1 hc]
    decide
  refine ⟨ls', l' ++ ['('], lines_append_isOneLine hlines hparen, Begun.indentation_eq ?_⟩
  have hnew : Begun (s.page.levels.count true) (List.replicate (width s t) ' ' ++ ['(']) := by
    rw [width, levelsAround, isMark_eq_false hopened (by decide)]
    exact ⟨'(', [], rfl, by decide⟩
  cases hturns with
  | stays hcontent _ gap =>
    obtain ⟨k, hk, hleads⟩ := hline hcontent
    cases hleads with
    | even heven => exact heven ▸ (hk.append gap).append _
    | ahead outer _ _ hselect =>
      -- a parenthesis would end the search for the `SELECT` that is to come
      rw [holdsSelect_cons, kind_of_isMark hopened] at hselect
      exact Bool.noConfusion hselect
  | ends => exact hnew
  | fresh => exact hnew

/-- A parenthesis stands on a line that was begun with the levels around it. -/
theorem exists_line_opened (hreindent : o.reindent = true) (hopened : p.isMark '(' = true)
    (hstrokes : ∀ t ∈ before, isWritten o t = true → IsStroke (shown o t))
    (following : List Token) :
    ∃ above ls l, written o (before ++ [p]) following = above ++ ['('] ∧
      Text.lines (above ++ ['(']) = ls ++ [l] ∧
      indentation l = 2 * (unclosed before (p :: following)).count true := by
  obtain ⟨ls, l, hlines, hindent⟩ :=
    (upright_runBefore hreindent hstrokes (p :: following)).opened (o := o) hopened
  rw [(agrees_runBefore hreindent before (p :: following)).levels] at hindent
  refine ⟨_, ls, l, ?_, hlines, hindent⟩
  rw [written_concat hreindent (isWritten_of_isMark hopened), shown_of_isMark hopened]
  rfl

end SqlLayout.Layout
