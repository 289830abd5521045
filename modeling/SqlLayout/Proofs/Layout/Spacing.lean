import SqlLayout.Proofs.Layout.Relaid

/-!
# A layout respaces its query

The separators of a reindented text are gaps. They stand where the query has blanks, and before the
few tokens that begin a line. So the rest of the layout is the rest of the query with other blanks
(`respaced_describedFrom`), provided that no token which may begin a line would change by that
(`Separable`).
-/

namespace SqlLayout.Layout

open Lexer Text Sql

variable {o : Options} {k n m m' : Nat} {t p : Token} {ts before after : List Token}
  {b b' r g c : Text}

/-! ## Separators -/

namespace Site

variable {s : Site}

theorem mem_indentation {x : Char} (h : x ∈ s.indentation) : x = ' ' := by
  unfold indentation at h
  obtain ⟨l, hl, hx⟩ := List.mem_flatten.1 h
  rw [List.eq_of_mem_replicate hl] at hx
  have hall : ∀ y ∈ indentUnit, y = ' ' := by decide
  exact hall x hx

theorem isGap_indentation : IsGap s.indentation := by
  intro x hx
  rw [mem_indentation hx]
  decide

theorem isGap_separator : IsGap (s.separator o) := by
  have hspace : IsGap [' '] := IsGap.cons (by decide) .nil
  unfold separator
  split
  · exact .nil
  · split
    · exact isGap_indentation
    · split
      · exact IsGap.cons (by decide) isGap_indentation
      · split
        · exact hspace
        · exact .nil

theorem separator_of_none (h : lastWritten? o s.before = none) : s.separator o = [] := by
  rw [separator, h]

theorem separator_of_endsLine (h : lastWritten? o s.before = some p)
    (hends : Page.endsLine (shown o p) = true) : s.separator o = s.indentation := by
  rw [separator, h]
  exact if_pos hends

/-- Within a line something is written before a token if it breaks or a blank stands there. -/
theorem separator_ne_nil_iff (h : lastWritten? o s.before = some p)
    (hends : Page.endsLine (shown o p) = false) :
    s.separator o ≠ [] ↔ s.breaks o = true ∨ blankSince o s.before = true := by
  rw [separator, h]
  dsimp only
  rw [if_neg (by simp [hends])]
  cases s.breaks o <;> cases blankSince o s.before <;> simp

/-- Only closing parentheses, comments and words begin a line. -/
theorem kind_of_breaks (h : s.breaks o = true) :
    s.token.isMark ')' = true ∨ s.token.kind ∈ .comment :: wordKinds := by
  have hword : ∀ {w : String}, s.token.isWord w = true → s.token.kind ∈ .comment :: wordKinds := by
    intro w hw
    rw [Token.isWord, Bool.and_eq_true, Kind.isKeyword, Bool.or_eq_true, beq_iff_eq,
      beq_iff_eq] at hw
    rcases hw.1 with hkind | hkind <;> rw [hkind] <;> decide
  unfold breaks at h
  simp only [Bool.or_eq_true, Bool.and_eq_true, beq_iff_eq, List.any_eq_true] at h
  rcases h with ((((⟨hmark, -⟩ | hkind) | ⟨hkind, -⟩) | ⟨hselect, -⟩) | ⟨hfrom, -⟩) | ⟨w, -, hw⟩
  · exact .inl hmark
  · rw [hkind]
    exact .inr (by decide)
  · rw [hkind]
    exact .inr (by decide)
  · exact .inr (hword hselect)
  · exact .inr (hword hfrom)
  · exact .inr (hword hw)

end Site

/-! ## The rest of a layout -/

/-- No name begins with a digit, and no word follows a point that follows a whole number. -/
structure Separable (ts : List Token) : Prop where
  names : ∀ t ∈ ts, t.kind = .name → t.value.head?.any isDigit = false
  points : ∀ a p c, [a, p, c] <:+: ts → a.kind = .numberInteger → p.isMark '.' = true →
    c.kind ∉ wordKinds

theorem Separable.tail (h : Separable (t :: ts)) : Separable ts where
  names u hu := h.names u (List.mem_cons_of_mem t hu)
  points a p c hin := h.points a p c (hin.trans (List.suffix_cons t ts).isInfix)

/-- A token that begins a line may be set apart from what stands before it. -/
theorem mayOpen_of_breaks {q : Bool} (hcut : Cut b t r) (hbreaks : (Site.mk before t ts).breaks o = true)
    (hname : t.kind = .name → t.value.head?.any isDigit = false)
    (hword : q = true → t.value.head?.any isWord = false) :
    ∃ x ∈ t.value.head?, MayOpen q x := by
  rcases Site.kind_of_breaks hbreaks with hmark | hkind
  · have hvalue : t.value = [')'] := by
      change t.isMark ')' = true at hmark
      rw [Token.isMark, Bool.and_eq_true, beq_iff_eq, beq_iff_eq] at hmark
      exact hmark.2
    exact ⟨')', by rw [hvalue]; rfl, .inl (by decide)⟩
  · rcases List.mem_cons.1 hkind with hcomment | hkind
    · obtain ⟨body, term, hvalue, -⟩ := hcut.isComment hcomment
      exact ⟨'-', by rw [hvalue]; rfl, .inl (by decide)⟩
    · obtain ⟨x, w, hvalue, hx, hdigit⟩ := hcut.letter hkind hname
      refine ⟨x, by rw [hvalue]; rfl, .inr ⟨?_, hx, hdigit⟩⟩
      rw [← Bool.not_eq_true]
      intro hq
      have hnot := hword hq
      rw [hvalue, List.head?_cons, Option.any_some, hx] at hnot
      exact Bool.noConfusion hnot

theorem endsLine_settled (hcut : Cut b t r) :
    Page.endsLine t.settled = t.value.getLast?.any fun c => c == '\n' || c == '\r' := by
  rw [Page.endsLine, hcut.getLast?_settled]

/-- Only comments end a line. -/
theorem kind_of_endsLine (hcut : Cut b t r) (hblank : t.kind.isBlank = false)
    (hends : Page.endsLine t.settled = true) :
    t.kind = .comment ∧ ∃ x, t.value.getLast? = some x ∧ isBlank x = true := by
  rw [endsLine_settled hcut] at hends
  cases hlast : t.value.getLast? with
  | none => simp [hlast] at hends
  | some x =>
    have hx : isBlank x = true := by
      rw [hlast, Option.any_some, Bool.or_eq_true, beq_iff_eq, beq_iff_eq] at hends
      rcases hends with rfl | rfl <;> decide
    refine ⟨(hcut.isEdged hblank).last.resolve_right ?_, x, rfl, hx⟩
    rw [hlast, Option.any_some, hx]
    simp

/-- The gaps since the end of the token that was written last: in the query, and in the layout up to
the separator. What ends the line of a comment counts for both. -/
structure Gaps (k : Nat) (before : List Token) (g g' : Text) : Prop where
  query : IsGap g
  layout : IsGap g'
  written : lastWritten? (reindenting k) before ≠ none
  line : ∀ p ∈ lastWritten? (reindenting k) before, Page.endsLine p.settled = true →
    g ≠ [] ∧ g' ≠ []
  plain : ∀ p ∈ lastWritten? (reindenting k) before, Page.endsLine p.settled = false →
    g' = [] ∧ (blankSince (reindenting k) before = true ↔ g ≠ [])

theorem Gaps.skip (h : Gaps k before g g') (hblank : t.kind.isBlank = true) (hgap : IsGap t.value)
    (hne : t.value ≠ []) : Gaps k (before ++ [t]) (g ++ t.value) g' := by
  have hlast := lastWritten?_blank (k := k) hblank before
  refine ⟨h.query.append hgap, h.layout, hlast ▸ h.written, fun p hp hends => ?_,
    fun p hp hends => ?_⟩
  · rw [hlast] at hp
    exact ⟨by simp [hne], (h.line p hp hends).2⟩
  · rw [hlast] at hp
    refine ⟨(h.plain p hp hends).1, ?_⟩
    rw [blankSince_blank hblank]
    simp [hne]

/-- After a token that ends no line there are no gaps yet. -/
theorem Gaps.plain_start (hblank : t.kind.isBlank = false) (hends : Page.endsLine t.settled = false)
    (before : List Token) : Gaps k (before ++ [t]) [] [] := by
  have hlast := lastWritten?_written (k := k) hblank before
  refine ⟨.nil, .nil, by simp [hlast], fun p hp hp' => ?_, fun p hp hp' => ?_⟩
  · obtain rfl : t = p := by simpa [hlast] using hp
    rw [hends] at hp'
    exact Bool.noConfusion hp'
  · rw [blankSince_written hblank]
    simp

/-- After one that does there is its last character. -/
theorem Gaps.line_start (hblank : t.kind.isBlank = false) (hends : Page.endsLine t.settled = true)
    {x : Char} (hx : isBlank x = true) (before : List Token) : Gaps k (before ++ [t]) [x] [x] := by
  have hlast := lastWritten?_written (k := k) hblank before
  refine ⟨.cons hx .nil, .cons hx .nil, by simp [hlast], by simp, fun p hp hp' => ?_⟩
  obtain rfl : t = p := by simpa [hlast] using hp
  rw [hends] at hp'
  exact Bool.noConfusion hp'

/-- With the separator of the next token there is a gap in the layout where there is one in the
query, and elsewhere only if the token begins a line. -/
theorem Gaps.separator {s : Site} (h : Gaps k s.before g g') :
    (g ≠ [] → g' ++ s.separator (reindenting k) ≠ []) ∧
      (g = [] → g' ++ s.separator (reindenting k) ≠ [] → s.breaks (reindenting k) = true) := by
  obtain ⟨p, hp⟩ := Option.ne_none_iff_exists'.1 h.written
  by_cases hends : Page.endsLine p.settled = true
  · -- where a line has ended there is a gap on both sides, whatever the separator
    obtain ⟨hne, hne'⟩ := h.line p hp hends
    exact ⟨fun _ => by simp [hne'], fun hnil => absurd hnil hne⟩
  · rw [Bool.not_eq_true] at hends
    obtain ⟨rfl, hsince⟩ := h.plain p hp hends
    rw [← shown_reindenting k] at hends
    rw [List.nil_append, Site.separator_ne_nil_iff hp hends, hsince]
    exact ⟨.inr, fun hnil hor => hor.resolve_right fun hne => hne hnil⟩

/-- If what follows a token is respaced, whatever gaps it leaves, so is the token before it. -/
theorem respaced_settled (hcut : Cut b t r) (hblank : t.kind.isBlank = false) {r' : Text}
    (h : ∀ {g g' : Text} {q : Bool}, Gaps k (before ++ [t]) g g' →
      (g = [] → q = true → r.head?.any isWord = false) → Respaced q (g ++ r) (g' ++ r'))
    (q : Bool) : Respaced q (t.value ++ r) (t.settled ++ r') := by
  by_cases hends : Page.endsLine t.settled = true
  · obtain ⟨hcomment, x, hlast, hx⟩ := kind_of_endsLine hcut hblank hends
    have hsettled : t.settled = t.value := by
      rw [Token.settled, if_neg (by rw [hcomment]; decide)]
    -- the end of the comment's line is part of the gap
    have hvalue := List.dropLast_append_getLast? x hlast
    have hrest := h (q := t.value.dropLast.getLast?.elim q isWord)
      (Gaps.line_start hblank hends hx before) (by simp)
    rw [hsettled, ← hvalue, List.append_assoc, List.append_assoc]
    exact .append hrest
  · rw [Bool.not_eq_true] at hends
    refine hcut.respaced_settled (h (Gaps.plain_start hblank hends before) fun _ hq => ?_)
    refine (hcut.isEdged hblank).stops ?_
    rw [← elim_getLast?_eq_any hcut.ne_nil]
    exact hq

/-- The rest of a layout is the rest of the query with other blanks. -/
theorem respaced_describedFrom {c d : Cursor} {q : Bool} (hcuts : Cuts lexer n c ts m d)
    (hend : d.rest = []) (hseparable : Separable ts) (hgaps : Gaps k before g g')
    (hword : g = [] → q = true → c.rest.head?.any isWord = false) :
    Respaced q (g ++ c.rest) (g' ++ describedFrom (reindenting k) before ts) := by
  induction hcuts generalizing before g g' q with
  | done n c =>
    rw [hend]
    show Respaced q (g ++ []) (g' ++ [])
    -- blanks at the end of the query are dropped, but for the end of a comment's line
    obtain ⟨p, hp⟩ := Option.ne_none_iff_exists'.1 hgaps.written
    by_cases hends : Page.endsLine p.settled = true
    · obtain ⟨hne, hne'⟩ := hgaps.line p hp hends
      exact .gap hne hgaps.query hne' hgaps.layout (.finish .nil)
    · rw [Bool.not_eq_true] at hends
      obtain ⟨rfl, -⟩ := hgaps.plain p hp hends
      rw [List.append_nil, List.append_nil]
      exact .finish hgaps.query
  | @step n m c d e t ts hnext hcuts ih =>
    obtain ⟨b, s⟩ := c
    obtain ⟨r, rfl, rfl, -, hcut⟩ := next_eq_token_iff_cut.1 hnext
    have htail := hseparable.tail
    by_cases hblank : t.kind.isBlank = true
    · -- a blank token widens the gap of the query
      rw [describedFrom_blank hblank]
      show Respaced q (g ++ (t.value ++ r)) _
      rw [← List.append_assoc]
      refine ih hend htail (hgaps.skip hblank (hcut.isGap hblank) hcut.ne_nil) fun hnil => ?_
      exact absurd (List.append_eq_nil_iff.1 hnil).2 hcut.ne_nil
    · -- any other token ends both gaps, after its separator in the layout
      rw [Bool.not_eq_true] at hblank
      have hrespaced : ∀ q, Respaced q (t.value ++ r)
          (t.settled ++ describedFrom (reindenting k) (before ++ [t]) ts) :=
        respaced_settled hcut hblank fun hgaps' hword' => ih hend htail hgaps' hword'
      obtain ⟨hne, hopen⟩ := hgaps.separator (s := ⟨before, t, ts⟩)
      rw [describedFrom_written hblank, ← List.append_assoc g']
      refine .prepend hgaps.query (hgaps.layout.append Site.isGap_separator) hne ?_ hrespaced
      intro hnil hne'
      have hfirst : (t.value ++ r).head? = t.value.head? :=
        List.head?_append_of_ne_nil t.value hcut.ne_nil
      rw [List.head?_append_of_ne_nil t.settled hcut.settled_ne_nil, hcut.head?_settled]
      refine mayOpen_of_breaks hcut (hopen hnil hne') (hseparable.names t List.mem_cons_self) ?_
      intro hq
      have hnot := hword hnil hq
      rwa [hfirst] at hnot

end SqlLayout.Layout
