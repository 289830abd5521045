import SqlLayout.Proofs.Layout.Upright

/-!
# Subqueries are closed on lines of their own

Lines are never compared when a query is laid out. That the parentheses of a subquery are aligned
rests on two facts: the line of the first one is indented by the levels around it, and within the
subquery every new line is indented by its level at least (`Deep`). The `SELECT` and the last
parenthesis begin lines, of which the first has one level more and the other none.
-/

namespace SqlLayout.Layout

open Text Sql

variable {o : Options} {s : State} {t p : Token} {x l : Text} {ls : List Text}
  {before after following w : List Token} {n : Nat}

/-! ## Within a parenthesis -/

/-- Of these lines all but the first are indented as deep at least, except that the current one may
be empty. -/
structure Deep (n : Nat) (s : State) (x : Text) (ls : List Text) (l : Text) : Prop
    extends Shows s x ls l where
  complete : ∀ y ∈ ls.tail, n ≤ indentation y
  current : s.page.lineHasContent = true → ls ≠ [] → n ≤ indentation l
  begun : s.page.lineHasContent = false → ls ≠ []

theorem mem_tail_concat {y : Text} (h : y ∈ (ls ++ [l]).tail) : y ∈ ls.tail ∨ ls ≠ [] ∧ y = l := by
  cases ls with
  | nil => exact absurd h List.not_mem_nil
  | cons a as => simpa using h

/-- A token may be put on such a line or on a new one that is indented as deep. -/
theorem Deep.turns {ls' : List Text} {l' : Text} (h : Deep n s x ls l) (hwidth : n ≤ width s t)
    (hturns : Turns o s t following ls l ls' l') :
    (∀ y ∈ ls'.tail, n ≤ indentation y) ∧ (ls' ≠ [] → ∀ w, n ≤ indentation (l' ++ w)) := by
  have hnew : ∀ w, n ≤ indentation (List.replicate (width s t) ' ' ++ w) := fun w =>
    hwidth.trans (le_indentation_replicate_append _ w)
  cases hturns with
  | stays hcontent _ gap =>
    refine ⟨h.complete, fun hne w => (h.current hcontent hne).trans ?_⟩
    rw [List.append_assoc]
    exact le_indentation_append l (gap ++ w)
  | ends hcontent _ =>
    refine ⟨fun y hy => ?_, fun _ => hnew⟩
    rcases mem_tail_concat hy with hy | ⟨hne, rfl⟩
    · exact h.complete y hy
    · exact h.current hcontent hne
  | fresh => exact ⟨h.complete, fun _ => hnew⟩

theorem Deep.place (h : Deep n s x ls l) (hwidth : n ≤ width s t)
    (hstroke : IsStroke (shown o t)) (following : List Token) :
    ∃ ls' l', Deep n (Layout.place o s t following)
      (x ++ gapBefore o s t following ++ shown o t) ls' l' := by
  obtain ⟨ls', l', c, w, hturns, -, hplaced⟩ := h.toShows.place hstroke following
  obtain ⟨hcomplete, hcurrent⟩ := h.turns hwidth hturns
  rcases hplaced with ⟨hcontent, hshows⟩ | ⟨hcontent, hshows⟩
  · refine ⟨_, _, hshows, hcomplete, fun _ hne => hcurrent hne _, fun hfalse => ?_⟩
    rw [hcontent] at hfalse
    exact Bool.noConfusion hfalse
  · refine ⟨_, _, hshows, fun y hy => ?_, fun htrue => ?_, fun _ => by simp⟩
    · rcases mem_tail_concat hy with hy | ⟨hne, rfl⟩
      · exact hcomplete y hy
      · exact hcurrent hne _
    · rw [hcontent] at htrue
      exact Bool.noConfusion htrue

theorem Deep.skip (h : Deep n s x ls l) (hreindent : o.reindent = true)
    (ht : isWritten o t = false) (following : List Token) :
    Deep n (step o s t following) x ls l := by
  obtain ⟨-, -, hcontent⟩ := step_of_not_isWritten hreindent ht s following
  exact ⟨⟨h.lines, hcontent ▸ h.fresh, hcontent ▸ h.whole⟩, h.complete, hcontent ▸ h.current,
    hcontent ▸ h.begun⟩

/-- A token that begins a line has nothing but its indentation in front, and the lines before are
complete. -/
theorem Deep.begins (h : Deep n s x ls l) (hbegins : beginsLine o s t following = true) :
    ∃ first between, Text.lines (x ++ gapBefore o s t following) =
        first :: (between ++ [List.replicate (width s t) ' ']) ∧
      ∀ y ∈ between, n ≤ indentation y := by
  obtain ⟨ls', l', hturns, hlines⟩ := h.toShows.turns o t following
  rw [hlines]
  cases hturns with
  | stays _ hstays _ =>
    rw [hbegins] at hstays
    exact Bool.noConfusion hstays
  | ends hcontent _ =>
    cases ls with
    | nil => exact ⟨l, [], rfl, nofun⟩
    | cons first between =>
      refine ⟨first, between ++ [l], rfl, fun y hy => ?_⟩
      rcases List.mem_append.1 hy with hy | hy
      · exact h.complete y hy
      · rw [List.mem_singleton.1 hy]
        exact h.current hcontent (List.cons_ne_nil first between)
  | fresh hcontent =>
    cases ls with
    | nil => exact absurd rfl (h.begun hcontent)
    | cons first between => exact ⟨first, between, rfl, h.complete⟩

/-- While a subquery is open, lines are indented by its level at least. -/
theorem le_width {inner outer : List Bool} (hlevels : s.page.levels = inner ++ true :: outer)
    (hclose : t.isMark ')' = true → inner ≠ []) : 2 * outer.count true + 2 ≤ width s t := by
  have hcount : ∀ bs : List Bool, outer.count true + 1 ≤ (bs ++ true :: outer).count true := by
    intro bs
    rw [List.count_append, List.count_cons_self]
    omega
  have haround : outer.count true + 1 ≤ (levelsAround s t).count true := by
    rw [levelsAround, hlevels]
    split
    · next h =>
      rw [List.tail_append_of_ne_nil (hclose h)]
      exact hcount inner.tail
    · exact hcount inner
  rw [width]
  omega

theorem levels_within (hreindent : o.reindent = true) (hopened : p.isMark '(' = true)
    (hstays : StaysOpen w) (hselect : holdsSelect (w ++ following) = true) (before : List Token) :
    (runBefore o {} (before ++ p :: w) following).page.levels =
      unclosed w following ++ true :: unclosed before (p :: (w ++ following)) := by
  rw [(agrees_runBefore hreindent (before ++ p :: w) following).levels,
    unclosed_within hopened hstays, hselect]

/-- What a run writes within a subquery is as deep as the subquery. -/
theorem deep_runBefore (hreindent : o.reindent = true) (hopened : p.isMark '(' = true)
    (hstays : StaysOpen w) (hselect : holdsSelect (w ++ following) = true)
    (hstrokes : ∀ t ∈ w, isWritten o t = true → IsStroke (shown o t)) :
    ∃ x ls l, written o (before ++ p :: w) following =
        written o (before ++ [p]) (w ++ following) ++ x ∧
      Deep (2 * (unclosed before (p :: (w ++ following))).count true + 2)
        (runBefore o {} (before ++ p :: w) following) x ls l := by
  induction w using List.reverseRecOn generalizing following with
  | nil =>
    refine ⟨[], [], [], by simp, ⟨rfl, fun _ => rfl, nofun⟩, nofun, fun _ h => absurd rfl h, ?_⟩
    intro hcontent
    rw [runBefore_concat, step_of_isWritten hreindent (isWritten_of_isMark hopened),
      place_lineHasContent, shown_of_isMark hopened] at hcontent
    exact absurd hcontent (by decide)
  | append_singleton w t ih =>
    have hfollow : w ++ [t] ++ following = w ++ t :: following := by simp
    have happend : before ++ p :: (w ++ [t]) = before ++ p :: w ++ [t] := by simp
    rw [hfollow] at hselect ⊢
    obtain ⟨hw, -⟩ := staysOpen_concat.1 hstays
    obtain ⟨x, ls, l, hout, hdeep⟩ :=
      ih hw hselect fun u hu => hstrokes u (List.mem_append_left _ hu)
    have hlevels := levels_within hreindent hopened hw hselect before
    have hwidth := le_width (t := t) hlevels fun hclose =>
      ((staysOpen_concat_close hclose (t :: following)).1 hstays).2
    rw [happend, runBefore_concat]
    cases ht : isWritten o t with
    | true =>
      obtain ⟨ls', l', hdeep'⟩ := hdeep.place hwidth (hstrokes t (by simp) ht) following
      rw [written_concat hreindent ht, step_of_isWritten hreindent ht, hout]
      exact ⟨_, ls', l', by simp only [List.append_assoc], hdeep'⟩
    | false =>
      rw [written_skip hreindent ht, hout]
      exact ⟨x, ls, l, rfl, hdeep.skip hreindent ht following⟩

/-- A token within a subquery that begins a line has nothing but its indentation in front. -/
theorem exists_lines_within (hreindent : o.reindent = true) (hopened : p.isMark '(' = true)
    (hstays : StaysOpen w) (hselect : holdsSelect (w ++ t :: following) = true)
    (hstrokes : ∀ t ∈ w, isWritten o t = true → IsStroke (shown o t)) (ht : isWritten o t = true)
    (hbegins : beginsLine o (runBefore o {} (before ++ p :: w) (t :: following)) t following = true) :
    ∃ y first between, written o (before ++ p :: w ++ [t]) following =
        written o (before ++ [p]) (w ++ t :: following) ++ y ++ shown o t ∧
      Text.lines y = first :: (between ++
        [List.replicate (width (runBefore o {} (before ++ p :: w) (t :: following)) t) ' ']) ∧
      ∀ l ∈ between,
        2 * (unclosed before (p :: (w ++ t :: following))).count true + 2 ≤ indentation l := by
  obtain ⟨x, ls, l, hout, hdeep⟩ := deep_runBefore hreindent hopened hstays hselect hstrokes
  obtain ⟨first, between, hlines, hbetween⟩ := hdeep.begins hbegins
  refine ⟨_, first, between, ?_, hlines, hbetween⟩
  rw [written_concat hreindent ht, hout]
  simp only [List.append_assoc]

/-! ## Subqueries -/

/-- A parenthesis whose first keyword, before any punctuation, is `SELECT`, with the parenthesis
that closes it. -/
structure Subquery (ts : List Token) where
  before : List Token
  opened : Token
  lead : List Token
  select : Token
  rest : List Token
  closed : Token
  after : List Token
  eq : ts = before ++ opened :: (lead ++ select :: rest) ++ closed :: after
  opens : opened.isMark '(' = true
  passes : ∀ t ∈ lead, t.kind ≠ .punctuation ∧ t.kind.isKeyword = false
  selects : select.isWord "SELECT" = true
  closes : closed.isMark ')' = true
  /-- Nothing before closes the parenthesis. -/
  stays : StaysOpen (lead ++ select :: rest)
  /-- And everything that is opened inside is closed. -/
  balanced : openings (lead ++ select :: rest) = closings (lead ++ select :: rest)

/-- The subquery `(gap word body)` behind a text is aligned: its `SELECT` and its last parenthesis
begin lines. The first of these lines is indented by one level more than the line of the first
parenthesis, the last one is indented as that is, and those between the parentheses are indented by
one level more at least. -/
structure IsAligned (above gap word body : Text) (earlier : List Text) (line : Text) : Prop where
  opened : Text.lines (above ++ ['(']) = earlier ++ [line]
  selects : ∃ first more, Text.lines (above ++ '(' :: gap) =
    earlier ++ (line ++ first) :: (more ++ [List.replicate (indentation line + 2) ' '])
  begins : ∃ c w, word = c :: w ∧ c ≠ ' '
  closes : ∃ first between, Text.lines (above ++ '(' :: (gap ++ word ++ body)) =
      earlier ++ (line ++ first) :: (between ++ [List.replicate (indentation line) ' ']) ∧
    ∀ l ∈ between, indentation line + 2 ≤ indentation l

namespace Subquery

variable {ts : List Token}

/-- The tokens between the parentheses. -/
def inner (q : Subquery ts) : List Token := q.lead ++ q.select :: q.rest

theorem holdsSelect_inner (q : Subquery ts) (following : List Token) :
    holdsSelect (q.inner ++ following) = true := by
  rw [inner, List.append_assoc]
  generalize q.lead = lead, q.passes = hpasses
  induction lead with
  | nil =>
    have hkeyword := isKeyword_of_isWord q.selects
    rw [List.nil_append, List.cons_append, holdsSelect_cons, (ne_of_isKeyword hkeyword).2.2.2,
      hkeyword]
    exact q.selects
  | cons t lead ih =>
    obtain ⟨⟨hmark, hkeyword⟩, hlead⟩ := List.forall_mem_cons.1 hpasses
    rw [List.cons_append, holdsSelect_cons, beq_eq_false_iff_ne.2 hmark, hkeyword]
    exact ih hlead

/-- Every parenthesis that is taken for that of a subquery is one, if it is closed. -/
theorem exists_of_opensSubquery {inner : List Token} {closed : Token} (hopens : p.isMark '(' = true)
    (hsubquery : opensSubquery (inner ++ closed :: after) = true)
    (hcloses : closed.isMark ')' = true) (hstays : StaysOpen inner)
    (hbalanced : openings inner = closings inner) (before : List Token) :
    ∃ q : Subquery (before ++ p :: inner ++ closed :: after),
      q.before = before ∧ q.opened = p ∧ q.inner = inner ∧ q.closed = closed ∧ q.after = after := by
  obtain ⟨lead, select, rest, rfl, hpasses, hselects⟩ : ∃ lead select rest,
      inner = lead ++ select :: rest ∧
        (∀ t ∈ lead, t.kind ≠ .punctuation ∧ t.kind.isKeyword = false) ∧
        select.isWord "SELECT" = true := by
    clear hstays hbalanced
    rw [opensSubquery_eq] at hsubquery
    induction inner with
    | nil =>
      -- the search ends at the parenthesis
      rw [List.nil_append, holdsSelect_cons, kind_of_isMark hcloses] at hsubquery
      exact Bool.noConfusion hsubquery
    | cons t inner ih =>
      cases hkeyword : t.kind.isKeyword with
      | true =>
        rw [List.cons_append, holdsSelect_cons, (ne_of_isKeyword hkeyword).2.2.2, hkeyword]
          at hsubquery
        exact ⟨[], t, inner, rfl, nofun, hsubquery⟩
      | false =>
        obtain ⟨hmark, hsubquery⟩ := holdsSelect_of_cons hsubquery hkeyword
        obtain ⟨lead, select, rest, rfl, hpasses, hselects⟩ := ih hsubquery
        exact ⟨t :: lead, select, rest, rfl, List.forall_mem_cons.2 ⟨⟨hmark, hkeyword⟩, hpasses⟩,
          hselects⟩
  exact ⟨⟨before, p, lead, select, rest, closed, after, rfl, hopens, hpasses, hselects, hcloses,
    hstays, hbalanced⟩, rfl, rfl, rfl, rfl, rfl⟩

theorem staysOpen_inner (q : Subquery ts) : StaysOpen q.inner := q.stays

theorem unclosed_inner (q : Subquery ts) (following : List Token) :
    unclosed q.inner following = [] := by
  have hcount := excess_add_openings q.inner following
  have hbalanced : openings q.inner = closings q.inner := q.balanced
  have hstays : excess q.inner = 0 := excess_eq_zero_iff.2 q.staysOpen_inner
  exact List.length_eq_zero_iff.1 (by omega)

theorem staysOpen_lead (q : Subquery ts) : StaysOpen q.lead := fun u hu =>
  q.stays u (hu.trans (List.prefix_append _ _))

theorem unclosed_lead (q : Subquery ts) (following : List Token) :
    unclosed q.lead following = [] :=
  unclosed_eq_nil fun t ht => isMark_of_kind (q.passes t ht).1

/-- The number of subqueries around. -/
def depth (q : Subquery ts) : Nat :=
  (unclosed q.before (q.opened :: (q.inner ++ q.closed :: q.after))).count true

/-- The `SELECT` begins a line one level deeper than the parenthesis. -/
theorem exists_lines_select (hreindent : o.reindent = true) (q : Subquery ts)
    (hstrokes : ∀ t ∈ q.inner, isWritten o t = true → IsStroke (shown o t)) :
    ∃ gap first more,
      written o (q.before ++ q.opened :: q.lead ++ [q.select]) (q.rest ++ q.closed :: q.after) =
        written o (q.before ++ [q.opened]) (q.inner ++ q.closed :: q.after) ++ gap ++
          shown o q.select ∧
      Text.lines gap = first :: (more ++ [List.replicate (2 * q.depth + 2) ' ']) := by
  have hfollow : q.lead ++ q.select :: (q.rest ++ q.closed :: q.after) =
      q.inner ++ q.closed :: q.after := by simp [inner]
  have hselect : holdsSelect (q.lead ++ q.select :: (q.rest ++ q.closed :: q.after)) = true :=
    hfollow ▸ q.holdsSelect_inner _
  have hlevels := levels_within hreindent q.opens q.staysOpen_lead hselect q.before
  rw [q.unclosed_lead, List.nil_append, hfollow] at hlevels
  obtain ⟨hbegins, hwidth⟩ := begins_select hlevels q.selects (q.rest ++ q.closed :: q.after)
  obtain ⟨gap, first, more, hgap, hlines, -⟩ := exists_lines_within hreindent
    q.opens q.staysOpen_lead hselect (fun t ht => hstrokes t (List.mem_append_left _ ht))
    (isWritten_of_isKeyword (isKeyword_of_isWord q.selects)) hbegins
  rw [hfollow] at hgap
  rw [hwidth] at hlines
  exact ⟨gap, first, more, hgap, hlines⟩

/-- The parenthesis that closes it begins a line as deep as the first one, and the lines in between
are deeper. -/
theorem exists_lines_closed (hreindent : o.reindent = true) (q : Subquery ts)
    (hstrokes : ∀ t ∈ q.inner, isWritten o t = true → IsStroke (shown o t)) :
    ∃ mid first between,
      written o (q.before ++ q.opened :: q.inner ++ [q.closed]) q.after =
        written o (q.before ++ [q.opened]) (q.inner ++ q.closed :: q.after) ++ mid ++
          shown o q.closed ∧
      Text.lines mid = first :: (between ++ [List.replicate (2 * q.depth) ' ']) ∧
      ∀ l ∈ between, 2 * q.depth + 2 ≤ indentation l := by
  have hselect := q.holdsSelect_inner (q.closed :: q.after)
  have hlevels := levels_within hreindent q.opens q.staysOpen_inner hselect q.before
  rw [q.unclosed_inner, List.nil_append] at hlevels
  obtain ⟨hbegins, hwidth⟩ := begins_close hlevels q.closes q.after
  obtain ⟨mid, first, between, hmid, hlines, hbetween⟩ := exists_lines_within
    hreindent q.opens q.staysOpen_inner hselect hstrokes (isWritten_of_isMark q.closes) hbegins
  rw [hwidth] at hlines
  exact ⟨mid, first, between, hmid, hlines, hbetween⟩

/-- The text of a layout around the three tokens of a subquery, which is aligned there. -/
def IsLaid (q : Subquery ts) (o : Options) : Prop :=
  ∃ above gap body below earlier line,
    written o (q.before ++ [q.opened]) (q.inner ++ q.closed :: q.after) = above ++ ['('] ∧
    written o (q.before ++ q.opened :: q.lead ++ [q.select]) (q.rest ++ q.closed :: q.after) =
      above ++ '(' :: (gap ++ shown o q.select) ∧
    written o (q.before ++ q.opened :: q.inner ++ [q.closed]) q.after =
      above ++ '(' :: (gap ++ shown o q.select ++ body) ++ [')'] ∧
    format o ts = above ++ '(' :: (gap ++ shown o q.select ++ body) ++ ')' :: below ∧
    IsAligned above gap (shown o q.select) body earlier line

/-- Where every token that is written fills a part of a line, subqueries are aligned. -/
theorem isLaid_of_isStroke (hreindent : o.reindent = true)
    (hstrokes : ∀ t ∈ ts, isWritten o t = true → IsStroke (shown o t)) (q : Subquery ts) :
    q.IsLaid o := by
  have hts : ts = q.before ++ q.opened :: q.inner ++ [q.closed] ++ q.after := by
    rw [List.append_assoc _ [q.closed]]
    exact q.eq
  have hmem : ∀ t ∈ q.before ++ q.opened :: q.inner, isWritten o t = true → IsStroke (shown o t) := by
    intro t ht
    refine hstrokes t ?_
    rw [q.eq]
    exact List.mem_append_left _ ht
  have hinner : ∀ t ∈ q.inner, isWritten o t = true → IsStroke (shown o t) := fun t ht =>
    hmem t (List.mem_append_right _ (List.mem_cons_of_mem _ ht))
  obtain ⟨above, earlier, line, hparen, hline, hindent⟩ := exists_line_opened hreindent q.opens
    (fun t ht => hmem t (List.mem_append_left _ ht)) (q.inner ++ q.closed :: q.after)
  obtain ⟨gap, first, more, hgap, hgaps⟩ := q.exists_lines_select hreindent hinner
  obtain ⟨mid, first', between, hmid, hmids, hbetween⟩ := q.exists_lines_closed hreindent hinner
  rw [hparen] at hgap hmid
  change indentation line = 2 * q.depth at hindent
  rw [← hindent] at hgaps hmids hbetween
  -- what is written up to the `SELECT` is a part of what is written up to the last parenthesis
  have hsplit : q.before ++ q.opened :: q.inner =
      q.before ++ q.opened :: q.lead ++ [q.select] ++ q.rest := by simp [inner]
  obtain ⟨body, rfl⟩ : gap ++ shown o q.select <+: mid := by
    have hprefix := prefix_of_written_concat hreindent (isWritten_of_isMark q.closes) (hsplit ▸ hmid)
    rwa [hgap, List.append_assoc, List.prefix_append_right_inj] at hprefix
  obtain ⟨below, hbelow⟩ := prefix_written_format hreindent
    (q.before ++ q.opened :: q.inner ++ [q.closed]) q.after
  rw [← hts] at hbelow
  rw [shown_of_isMark q.closes] at hmid
  have hparens : (above ++ ['(']).getLast? ≠ some '\r' := by simp
  refine ⟨above, gap, body, below, earlier, line, hparen, ?_, ?_, ?_, ?_⟩
  · rw [hgap]
    simp
  · rw [hmid]
    simp
  · rw [← hbelow, hmid]
    simp
  · refine ⟨hline, ⟨first, more, ?_⟩, ?_, first', between, ?_, hbetween⟩
    · have hlines := lines_append hline hgaps fun h => absurd h hparens
      simpa using hlines
    · have hselect : q.select ∈ q.inner := by simp [inner]
      obtain ⟨c, w, term, hshown, hc, -⟩ :=
        hinner _ hselect (isWritten_of_isKeyword (isKeyword_of_isWord q.selects))
      exact ⟨c, w ++ term, hshown, ne_space_of_isBlank_eq_false hc⟩
    · have hlines := lines_append hline hmids fun h => absurd h hparens
      simpa using hlines

/-- In a query whose quoted texts stay on their lines, subqueries are aligned by reindentation. -/
theorem isLaid_of_reindent {s : Text} (hreindent : o.reindent = true)
    (hstrings : ∀ t ∈ Sql.tokens s, t.kind = .string → IsOneLine t.value)
    (q : Subquery (Sql.tokens s)) : q.IsLaid o := by
  refine q.isLaid_of_isStroke hreindent fun t ht hwritten => ?_
  obtain ⟨b, r, hcut⟩ := exists_cut_of_mem_tokens ht
  exact isStroke_shown hreindent hcut (isBlank_of_isWritten hwritten) (hstrings t ht)

/-- A subquery behind a comment, in a query with another parenthesis. -/
def counted : Text := "SELECT (-- all\n SELECT count(*)) FROM t".toList

/-- Its subquery among its tokens. -/
def countedSubquery : Subquery (Sql.tokens counted) where
  before := [⟨.keyword, "SELECT".toList, 0⟩, ⟨.whitespace, [' '], 6⟩]
  opened := ⟨.punctuation, ['('], 7⟩
  lead := [⟨.comment, "-- all\n".toList, 8⟩, ⟨.whitespace, [' '], 15⟩]
  select := ⟨.keyword, "SELECT".toList, 16⟩
  rest := [⟨.whitespace, [' '], 22⟩, ⟨.name, "count".toList, 23⟩, ⟨.punctuation, ['('], 28⟩,
    ⟨.wildcard, ['*'], 29⟩, ⟨.punctuation, [')'], 30⟩]
  closed := ⟨.punctuation, [')'], 31⟩
  after := [⟨.whitespace, [' '], 32⟩, ⟨.keyword, "FROM".toList, 33⟩, ⟨.whitespace, [' '], 37⟩,
    ⟨.name, "t".toList, 38⟩]
  eq := by decide +kernel
  opens := rfl
  passes := by decide
  selects := by decide +kernel
  closes := rfl
  stays := by decide
  balanced := by decide

theorem isLaid_counted :
    (uppercasing 0).reindent = true ∧
      (∀ t ∈ Sql.tokens counted, t.kind = .string → IsOneLine t.value) ∧
      countedSubquery.IsLaid (uppercasing 0) := by
  have hstrings : ∀ t ∈ Sql.tokens counted, t.kind = .string → IsOneLine t.value := by
    have hnone : ∀ t ∈ Sql.tokens counted, t.kind ≠ .string := by
      rw [countedSubquery.eq]
      decide
    exact fun t ht hkind => absurd hkind (hnone t ht)
  exact ⟨rfl, hstrings, isLaid_of_reindent rfl hstrings countedSubquery⟩

example : formatQuery (reindenting 0) "SELECT (-- all\n SELECT 1) x FROM t".toList =
    "SELECT (\n  -- all\n  SELECT 1\n) x\nFROM t".toList := by decide +kernel

end Subquery

end SqlLayout.Layout
