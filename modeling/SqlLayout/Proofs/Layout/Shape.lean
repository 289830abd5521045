import SqlLayout.Proofs.Layout.Upright

/-!
# The shape of reindented lines

A page is written stroke by stroke, with nothing, a space or a new line in front of each. Only a
comment ends its line itself; a new line is begun behind a stroke that ends with no blank. So in the
text every line end is that of a comment or stands behind such a stroke, and the line after it is
empty and the last, or it begins with two spaces for each level (`Formed.append`). Of the tokens of
a query nothing else is needed than that they are strokes, and that a comment whose line does not
end is the last of them (`allKeepLines_tokens`).
-/

namespace SqlLayout

/-! ## Line ends -/

namespace Text

variable {u v w x y term : Text} {c : Char}

/-- Between these two texts stands a whole line end. -/
structure IsLineEnd (u term v : Text) : Prop where
  mem : term ∈ lineEnds
  /-- It does not go on behind. -/
  whole : term = ['\r'] → v.head? ≠ some '\n'
  /-- And it did not begin before. -/
  begins : term = ['\n'] → u.getLast? ≠ some '\r'

/-- A line ends with this character, if the text goes on so. -/
def EndsLineAt (c : Char) (v : Text) : Prop := c = '\n' ∨ c = '\r' ∧ v.head? ≠ some '\n'

theorem EndsLineAt.isBlank (h : EndsLineAt c v) : isBlank c = true := by
  rcases h with rfl | ⟨rfl, -⟩ <;> decide

theorem EndsLineAt.ne_space (h : EndsLineAt c v) : c ≠ ' ' := by
  rcases h with rfl | ⟨rfl, -⟩ <;> decide

theorem EndsLineAt.not_isOneLine (h : EndsLineAt c v) (hc : c ∈ w) : ¬IsOneLine w := by
  intro hline
  rcases h with rfl | ⟨rfl, -⟩
  · exact (hline _ hc).1 rfl
  · exact (hline _ hc).2 rfl

/-- Whether a line ends depends on the next character only. -/
theorem EndsLineAt.of_append (h : EndsLineAt c (v ++ w)) : EndsLineAt c v := by
  refine h.imp_right (And.imp_right fun hhead hv => hhead ?_)
  rw [List.head?_append, hv]
  rfl

/-- A line end is its last character, with the carriage return in front of it if there is one. -/
theorem IsLineEnd.exists_last (h : IsLineEnd u term v) :
    ∃ p c, term = p ++ [c] ∧ EndsLineAt c v ∧ (p = [] ∨ p = ['\r']) := by
  obtain ⟨hmem, hwhole, -⟩ := h
  simp only [lineEnds, List.mem_cons, List.not_mem_nil, or_false] at hmem
  rcases hmem with rfl | rfl | rfl
  · exact ⟨[], '\n', rfl, .inl rfl, .inl rfl⟩
  · exact ⟨[], '\r', rfl, .inr ⟨rfl, hwhole rfl⟩, .inl rfl⟩
  · exact ⟨['\r'], '\n', rfl, .inl rfl, .inr rfl⟩

/-- Nothing of a line end stands behind the character with which the line ends. -/
theorem eq_nil_of_mem_lineEnds (h : u ++ c :: v ∈ lineEnds) (hends : EndsLineAt c v) : v = [] := by
  simp only [lineEnds, List.mem_cons, List.not_mem_nil, or_false] at h
  rcases h with h | h | h
  · exact (List.append_eq_singleton_iff.1 h).elim (fun h => (List.cons.inj h.2).2) (by simp)
  · exact (List.append_eq_singleton_iff.1 h).elim (fun h => (List.cons.inj h.2).2) (by simp)
  · cases u with
    | nil =>
      obtain ⟨rfl, rfl⟩ := List.cons.inj h
      exact absurd hends (by simp [EndsLineAt])
    | cons d u =>
      have htail := (List.cons.inj h).2
      exact (List.append_eq_singleton_iff.1 htail).elim (fun h => (List.cons.inj h.2).2) (by simp)

/-- A character of two texts stands in the second one or in the first. -/
theorem append_cons_cases (h : x ++ y = u ++ c :: v) :
    (∃ a, u = x ++ a ∧ y = a ++ c :: v) ∨ ∃ a, x = u ++ c :: a ∧ v = a ++ y := by
  rcases append_cases h.symm with ⟨a, hne, hx, hcons⟩ | hlater
  · obtain ⟨d, a, rfl⟩ := List.exists_cons_of_ne_nil hne
    obtain ⟨rfl, hv⟩ := List.cons.inj hcons
    exact .inr ⟨a, hx, hv⟩
  · exact .inl hlater

theorem IsStroke.ne_nil (h : IsStroke w) : w ≠ [] := by
  obtain ⟨c, w, term, rfl, -⟩ := h
  simp

/-- A stroke ends its line only with its last character. -/
theorem IsStroke.eq_nil (h : IsStroke (u ++ c :: v)) (hends : EndsLineAt c v) : v = [] := by
  obtain ⟨d, w, term, heq, -, hline, hterm⟩ := h
  rcases append_cons_cases heq.symm with ⟨a, -, rfl⟩ | ⟨a, hw, -⟩
  · exact eq_nil_of_mem_lineEnds (hterm.resolve_left (by simp)) hends
  · exact absurd hline (hends.not_isOneLine (hw ▸ by simp))

end Text

namespace Layout

open Text Lexer Sql

variable {o : Options} {t : Token} {b r s u v w x g term : Text} {c : Char} {k : Nat}
  {P : Text → Prop} {ts before after : List Token}

theorem Begun.of_isStroke (h : IsStroke w) (k : Nat) :
    Begun k (List.replicate (2 * k) ' ' ++ w) := by
  obtain ⟨d, w, term, rfl, hd, -⟩ := h
  exact ⟨d, w ++ term, rfl, hd⟩

/-! ## Texts in strokes -/

/-- Every line end of the text is one that is allowed to stand there, or it is a line feed behind a
character that is no blank; the line after it is empty and the last, or it is begun. -/
def Formed (P : Text → Prop) (x : Text) : Prop :=
  ∀ u c v, x = u ++ c :: v → EndsLineAt c v →
    (P (u ++ [c]) ∨ c = '\n' ∧ u.getLast?.any (!isBlank ·) = true) ∧ (v = [] ∨ ∃ k, Begun k v)

/-- What may stand between a text and the stroke after it. -/
inductive Between (x : Text) : Text → Prop
  | fresh (k : Nat) : Between x (List.replicate (2 * k) ' ')
  | ends (h : x.getLast?.any (!isBlank ·) = true) (k : Nat) :
      Between x ('\n' :: List.replicate (2 * k) ' ')
  | stays (h : x.getLast?.any (!isBlank ·) = true) {g : Text} (hg : ∀ y ∈ g, y = ' ') : Between x g

/-- Behind a text whose last line has ended stands indentation. -/
theorem Between.eq_replicate (h : Between (u ++ [c]) g) (hends : EndsLineAt c v) :
    ∃ k, g = List.replicate (2 * k) ' ' := by
  have hblank : (u ++ [c]).getLast?.any (!isBlank ·) = false := by
    rw [List.getLast?_concat, Option.any_some, hends.isBlank]
    rfl
  cases h with
  | fresh k => exact ⟨k, rfl⟩
  | ends h => exact Bool.noConfusion (hblank.symm.trans h)
  | stays h => exact Bool.noConfusion (hblank.symm.trans h)

/-- A line ends between a text and a stroke only with a line feed, and behind no blank. -/
theorem Between.ends_inv (h : Between x (u ++ c :: v)) (hends : EndsLineAt c w) :
    c = '\n' ∧ u = [] ∧ x.getLast?.any (!isBlank ·) = true ∧
      ∃ k, v = List.replicate (2 * k) ' ' := by
  generalize hg : u ++ c :: v = g at h
  have hmem : c ∈ g := hg ▸ by simp
  cases h with
  | fresh k => exact absurd (List.eq_of_mem_replicate hmem) hends.ne_space
  | stays _ hspaces => exact absurd (hspaces c hmem) hends.ne_space
  | ends hlast k =>
    cases u with
    | nil =>
      obtain ⟨rfl, rfl⟩ := List.cons.inj hg
      exact ⟨rfl, rfl, hlast, k, rfl⟩
    | cons d u =>
      have hspaces : c ∈ List.replicate (2 * k) ' ' := (List.cons.inj hg).2 ▸ by simp
      exact absurd (List.eq_of_mem_replicate hspaces) hends.ne_space

/-- One more stroke keeps the text so, if its own line end is allowed to stand there. -/
theorem Formed.append (h : Formed P x) (hg : Between x g) (hw : IsStroke w)
    (hP : ¬IsOneLine w → P (x ++ g ++ w)) : Formed P (x ++ g ++ w) := by
  intro u c v heq hends
  rw [List.append_assoc] at heq hP
  rcases append_cons_cases heq with ⟨a, rfl, hbehind⟩ | ⟨a, rfl, rfl⟩
  · rcases append_cons_cases hbehind with ⟨a, rfl, rfl⟩ | ⟨a, rfl, rfl⟩
    · -- the line ends in the stroke
      obtain rfl := hw.eq_nil hends
      refine ⟨.inl ?_, .inl rfl⟩
      have hline : ¬IsOneLine (a ++ [c]) := hends.not_isOneLine (by simp)
      simpa using hP hline
    · -- it ends in front of the stroke
      obtain ⟨rfl, rfl, hlast, k, rfl⟩ := hg.ends_inv hends
      refine ⟨.inr ⟨rfl, ?_⟩, .inr ⟨k, .of_isStroke hw k⟩⟩
      rwa [List.append_nil]
  · -- it ended before
    obtain ⟨hplace, hbegun⟩ := h u c a rfl hends.of_append
    refine ⟨hplace, .inr ?_⟩
    rcases hbegun with rfl | ⟨k, hk⟩
    · obtain ⟨k, rfl⟩ := hg.eq_replicate hends
      exact ⟨k, .of_isStroke hw k⟩
    · exact ⟨k, hk.append _⟩

/-! ## Pages -/

/-- The token's text is a stroke. A comment does not end its line only if no token follows it, and
every other token stays on its line and ends with no blank. -/
structure KeepsLines (o : Options) (t : Token) (after : List Token) : Prop where
  stroke : IsStroke (shown o t)
  comment : t.kind = .comment →
    2 ≤ (shown o t).length ∧ (Page.endsLine (shown o t) = false → after = [])
  other : t.kind ≠ .comment → IsOneLine (shown o t) ∧ (shown o t).getLast?.any isBlank = false

/-- So do all tokens that are written. -/
def AllKeepLines (o : Options) (ts : List Token) : Prop :=
  ∀ before t after, ts = before ++ t :: after → isWritten o t = true → KeepsLines o t after

/-- The first text ends a comment, and the second one is what is written up to the end of it. -/
def OfComment (o : Options) (ts : List Token) (term y : Text) : Prop :=
  ∃ before t after, ts = before ++ t :: after ∧ isWritten o t = true ∧ t.kind = .comment ∧
    term <:+ t.value ∧ written o (before ++ [t]) after = y

/-- Nothing is written before the first token that is. -/
theorem written_of_none (hreindent : o.reindent = true) (h : lastWritten? o before = none)
    (after : List Token) : written o before after = [] := by
  induction before using List.reverseRecOn generalizing after with
  | nil => rfl
  | append_singleton before t ih =>
    rw [lastWritten?_concat] at h
    cases ht : isWritten o t with
    | true => simp [ht] at h
    | false =>
      rw [ht, if_neg Bool.false_ne_true] at h
      rw [written_skip hreindent ht, ih h]

/-- The text ends with the last token that is written. -/
theorem exists_written_of_last (hreindent : o.reindent = true) {p : Token}
    (h : lastWritten? o before = some p) (after : List Token) :
    ∃ earlier later y, before = earlier ++ p :: later ∧ isWritten o p = true ∧
      written o before after = y ++ shown o p := by
  induction before using List.reverseRecOn generalizing after with
  | nil => exact nomatch h
  | append_singleton before t ih =>
    rw [lastWritten?_concat] at h
    cases ht : isWritten o t with
    | true =>
      rw [ht, if_pos rfl, Option.some.injEq] at h
      subst h
      exact ⟨before, [], _, rfl, ht, written_concat hreindent ht before after⟩
    | false =>
      rw [ht, if_neg Bool.false_ne_true] at h
      obtain ⟨earlier, later, y, rfl, hp, hwritten⟩ := ih h (t :: after)
      refine ⟨earlier, later ++ [t], y, by simp, hp, ?_⟩
      rw [written_skip hreindent ht, hwritten]

theorem any_not_isBlank_append (hne : w ≠ []) (h : w.getLast?.any isBlank = false) (y : Text) :
    (y ++ w).getLast?.any (!isBlank ·) = true := by
  rw [List.getLast?_append_of_ne_nil _ hne]
  rw [List.getLast?_eq_some_getLast hne, Option.any_some] at h ⊢
  rw [h]
  rfl

/-- In front of a token stands what may stand between strokes. -/
theorem between_gapBefore (hreindent : o.reindent = true)
    (hkeep : AllKeepLines o (before ++ t :: after)) :
    Between (written o before (t :: after))
      (gapBefore o (runBefore o {} before (t :: after)) t after) := by
  have hagrees := agrees_runBefore hreindent before (t :: after)
  unfold gapBefore
  cases hcontent : (runBefore o {} before (t :: after)).page.lineHasContent with
  | false => exact .fresh _
  | true =>
    -- the line has content, so the last token has not ended it
    rw [hagrees.line, Option.any_eq_true] at hcontent
    obtain ⟨p, hp, hends⟩ := hcontent
    obtain ⟨earlier, later, y, rfl, hwritten, hy⟩ :=
      exists_written_of_last hreindent hp (t :: after)
    have hkeeps := hkeep earlier p (later ++ t :: after) (by simp) hwritten
    have hcomment : p.kind ≠ .comment := by
      intro hkind
      have hnil := (hkeeps.comment hkind).2 (by simpa using hends)
      simp at hnil
    have hlast :
        (written o (earlier ++ p :: later) (t :: after)).getLast?.any (!isBlank ·) = true := by
      rw [hy]
      exact any_not_isBlank_append hkeeps.stroke.ne_nil (hkeeps.other hcomment).2 y
    cases beginsLine o (runBefore o {} (earlier ++ p :: later) (t :: after)) t after with
    | true => exact .ends hlast _
    | false =>
      refine .stays hlast ?_
      cases (runBefore o {} (earlier ++ p :: later) (t :: after)).page.pendingSpace <;> simp

/-- The page is formed all along. -/
theorem formed_written (hreindent : o.reindent = true) (hkeep : AllKeepLines o ts)
    (heq : ts = before ++ after) : Formed (OfComment o ts []) (written o before after) := by
  induction before using List.reverseRecOn generalizing after with
  | nil =>
    intro u c v hnil
    have hempty : written o [] after = [] := rfl
    simp [hempty] at hnil
  | append_singleton before t ih =>
    have hsplit : ts = before ++ t :: after := by simpa using heq
    cases ht : isWritten o t with
    | true =>
      have hkeeps := hkeep before t after hsplit ht
      rw [written_concat hreindent ht]
      refine (ih hsplit).append (between_gapBefore hreindent (hsplit ▸ hkeep)) hkeeps.stroke ?_
      -- only a comment does not stay on its line
      intro hline
      have hcomment : t.kind = .comment := by
        by_contra hother
        exact hline (hkeeps.other hother).1
      exact ⟨before, t, after, hsplit, ht, hcomment, List.nil_suffix,
        written_concat hreindent ht before after⟩
    | false =>
      rw [written_skip hreindent ht]
      exact ih hsplit

/-- It begins with its first stroke. -/
theorem head?_written (hreindent : o.reindent = true) (hkeep : AllKeepLines o ts)
    (heq : ts = before ++ after) : (written o before after).head?.any isBlank = false := by
  induction before using List.reverseRecOn generalizing after with
  | nil => rfl
  | append_singleton before t ih =>
    have hsplit : ts = before ++ t :: after := by simpa using heq
    cases ht : isWritten o t with
    | false =>
      rw [written_skip hreindent ht]
      exact ih hsplit
    | true =>
      rw [written_concat hreindent ht]
      cases hlast : lastWritten? o before with
      | none =>
        have hgap : gapBefore o (runBefore o {} before (t :: after)) t after = [] := by
          rw [(agrees_runBefore hreindent before (t :: after)).gapBefore_eq, Site.separator, hlast]
        obtain ⟨c, w, term, hshown, hc, -⟩ := (hkeep before t after hsplit ht).stroke
        rw [written_of_none hreindent hlast, hgap, hshown]
        exact hc
      | some p =>
        obtain ⟨earlier, later, y, rfl, hp, hy⟩ :=
          exists_written_of_last hreindent hlast (t :: after)
        have hstroke := (hkeep earlier p (later ++ t :: after) (by simp [hsplit]) hp).stroke
        have hne : written o (earlier ++ p :: later) (t :: after) ≠ [] := by
          rw [hy]
          exact List.append_ne_nil_of_right_ne_nil y hstroke.ne_nil
        rw [List.append_assoc, List.head?_append_of_ne_nil _ hne]
        exact ih hsplit

/-! ## The shape of a layout -/

/-- The text of a layout begins with no blank. Every line end in it is that of a comment, or it is a
line feed behind a character that is no blank; behind it the text ends, or an even number of spaces
and a character that is no blank follow. The text ends with a blank only behind a comment. -/
structure HasShape (o : Options) (ts : List Token) (x : Text) : Prop where
  head : x.head?.any isBlank = false
  lineEnds : ∀ u term v, x = u ++ term ++ v → IsLineEnd u term v →
    (OfComment o ts term (u ++ term) ∨ term = ['\n'] ∧ u.getLast?.any (!isBlank ·) = true) ∧
      (v = [] ∨ ∃ k, Begun k v)
  last : x.getLast?.any isBlank = true → ∃ t, lastWritten? o ts = some t ∧ t.kind = .comment

/-- The line end behind a comment is a part of it. -/
theorem OfComment.of_suffix (hreindent : o.reindent = true) (hkeep : AllKeepLines o ts)
    (h : OfComment o ts [] (u ++ term)) (hlength : term.length ≤ 2) :
    OfComment o ts term (u ++ term) := by
  obtain ⟨before, t, after, hsplit, ht, hkind, -, hwritten⟩ := h
  refine ⟨before, t, after, hsplit, ht, hkind, ?_, hwritten⟩
  have hshown := shown_of_comment (o := o) hkind
  have hlong := ((hkeep before t after hsplit ht).comment hkind).1
  rw [hshown] at hlong
  have hvalue : t.value <:+ u ++ term := by
    rw [← hwritten, written_concat hreindent ht, hshown]
    exact List.suffix_append _ _
  exact List.suffix_of_suffix_length_le (List.suffix_append u term) hvalue (hlength.trans hlong)

/-- Where all tokens keep lines, the layout has its shape. -/
theorem hasShape_format (hreindent : o.reindent = true) (hkeep : AllKeepLines o ts) :
    HasShape o ts (format o ts) := by
  have hall : ts = ts ++ [] := (List.append_nil ts).symm
  rw [← written_all]
  refine ⟨head?_written hreindent hkeep hall, ?_, ?_⟩
  · intro u term v heq hend
    obtain ⟨p, c, rfl, hends, hp⟩ := hend.exists_last
    have hplaces := formed_written hreindent hkeep hall (u ++ p) c v (by simpa using heq) hends
    refine ⟨?_, hplaces.2⟩
    rcases hplaces.1 with hcomment | ⟨rfl, hlast⟩
    · left
      rw [List.append_assoc] at hcomment
      apply hcomment.of_suffix hreindent hkeep
      rcases hp with rfl | rfl <;> simp
    · right
      rcases hp with rfl | rfl
      · rw [List.append_nil] at hlast
        exact ⟨rfl, hlast⟩
      · -- a carriage return is a blank
        rw [List.getLast?_concat] at hlast
        exact absurd hlast (by decide)
  · intro hblank
    cases hlast : lastWritten? o ts with
    | none =>
      rw [written_of_none hreindent hlast] at hblank
      exact Bool.noConfusion hblank
    | some t =>
      refine ⟨t, rfl, ?_⟩
      obtain ⟨earlier, later, y, rfl, ht, hy⟩ := exists_written_of_last hreindent hlast []
      by_contra hkind
      have hkeeps := hkeep earlier t later rfl ht
      rw [hy, List.getLast?_append_of_ne_nil _ hkeeps.stroke.ne_nil,
        (hkeeps.other hkind).2] at hblank
      exact Bool.noConfusion hblank

/-! ## Queries -/

/-- Where the text ends the tokens do. -/
theorem eq_nil_of_drop_stop (heq : tokens s = before ++ t :: after)
    (hrest : s.drop t.stop.toNat = []) : after = [] := by
  cases after with
  | nil => rfl
  | cons u after =>
    obtain ⟨m, d, hcuts, -⟩ := cuts_scan lexer s
    have hchain : (tokens s).IsChain fun t u => u.offset = t.stop := hcuts.adjoins.2.1
    rw [heq, List.isChain_append] at hchain
    have hoffset : u.offset = t.stop := (List.isChain_cons_cons.1 hchain.2.1).1
    have hu : u ∈ tokens s := heq ▸ by simp
    obtain ⟨hdrop, hcut⟩ := cut_of_mem_tokens hu
    rw [hoffset, hrest] at hdrop
    exact absurd (List.append_eq_nil_iff.1 hdrop.symm).1 hcut.ne_nil

/-- The tokens of a query keep lines if its quoted texts do. -/
theorem allKeepLines_tokens (hreindent : o.reindent = true)
    (hstrings : ∀ t ∈ tokens s, t.kind = .string → IsOneLine t.value) :
    AllKeepLines o (tokens s) := by
  intro before t after heq hwritten
  have ht : t ∈ tokens s := heq ▸ by simp
  have hblank := isBlank_of_isWritten hwritten
  obtain ⟨-, hcut⟩ := cut_of_mem_tokens ht
  refine ⟨isStroke_shown hreindent hcut hblank (hstrings t ht), ?_, ?_⟩
  · intro hkind
    have hcomment := hcut.isComment hkind
    rw [shown_of_comment hkind]
    constructor
    · obtain ⟨body, term, hvalue, -⟩ := hcomment
      rw [hvalue, List.length_append]
      exact Nat.le_add_right 2 _
    · intro hline
      rcases hcomment.ends with ⟨x, hx, hlast⟩ | hrest
      · rw [Page.endsLine, hlast, Option.any_some] at hline
        have hends : ∀ y ∈ "\r\n".toList, (y == '\n' || y == '\r') = true := by decide
        exact Bool.noConfusion (hline.symm.trans (hends x hx))
      · exact eq_nil_of_drop_stop heq hrest
  · intro hkind
    exact isOneLine_shown hreindent hcut hblank hkind (hstrings t ht)

/-- If no quoted text of a query holds a line end, its reindented layout has the shape of lines that
are not blank, end with no blanks and are indented by whole levels. -/
theorem hasShape_of_reindent (hreindent : o.reindent = true)
    (hstrings : ∀ t ∈ tokens s, t.kind = .string → IsOneLine t.value) :
    HasShape o (tokens s) (formatQuery o s) :=
  hasShape_format hreindent (allKeepLines_tokens hreindent hstrings)

/-- A query with comments before a subquery and at its end. -/
theorem hasShape_commented :
    (uppercasing 0).reindent = true ∧
      (∀ t ∈ tokens "select 'a' --b\r\n from (SELECT 1) -- c ".toList,
        t.kind = .string → IsOneLine t.value) ∧
      HasShape (uppercasing 0) (tokens "select 'a' --b\r\n from (SELECT 1) -- c ".toList)
        (formatQuery (uppercasing 0) "select 'a' --b\r\n from (SELECT 1) -- c ".toList) := by
  have hstrings : ∀ t ∈ tokens "select 'a' --b\r\n from (SELECT 1) -- c ".toList,
      t.kind = .string → IsOneLine t.value := by
    unfold IsOneLine
    decide +kernel
  exact ⟨rfl, hstrings, hasShape_of_reindent rfl hstrings⟩

example : formatQuery (uppercasing 0) "select 'a' --b\r\n from (SELECT 1) -- c ".toList =
    "SELECT 'a'\n--b\r\nFROM (\n  SELECT 1\n)\n-- c ".toList := by decide +kernel

end Layout

end SqlLayout
