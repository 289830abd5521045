import SqlLayout.Proofs.Layout.Paging

/-!
# Raising the threshold

A higher threshold lets fewer `FROM`s begin a line, and this is all it does. A reindenting run keeps
a line flag and an owed space, so a line that is begun under one threshold only takes two runs apart
for a while. The description keeps nothing: a separator depends on the threshold through the test
that a line begins, and this test only if the token is `FROM`. What holds of each place then holds
of the whole layouts.
-/

namespace SqlLayout.Layout

variable {o : Options} {n m : Nat} {s : Site} {before ts : List Token} {l r : List Site}

/-! ## The places of a layout -/

/-- The places of the tokens that are written, each with the tokens around it. -/
def writtenSites (o : Options) (ts : List Token) : List Site :=
  (sitesFrom [] ts).filter fun s => isWritten o s.token

/-- What is written at these places. -/
def laidOut (o : Options) (l : List Site) : Text :=
  l.flatMap fun s => s.separator o ++ shown o s.token

theorem map_token_sitesFrom (before ts : List Token) :
    (sitesFrom before ts).map (·.token) = ts := by
  induction ts generalizing before with
  | nil => rfl
  | cons t ts ih => rw [sitesFrom, List.map_cons, ih]

theorem map_token_writtenSites (o : Options) (ts : List Token) :
    (writtenSites o ts).map (·.token) = ts.filter (isWritten o) := by
  conv_rhs => rw [← map_token_sitesFrom [] ts, List.filter_map]
  rfl

/-- A place knows the tokens of the places before it. -/
theorem before_eq_of_sitesFrom (h : sitesFrom before ts = l ++ s :: r) :
    s.before = before ++ l.map (·.token) := by
  induction l generalizing before ts with
  | nil =>
    cases ts with
    | nil => exact nomatch h
    | cons t ts =>
      obtain ⟨rfl, -⟩ := List.cons.inj h
      simp
  | cons p l ih =>
    cases ts with
    | nil => exact nomatch h
    | cons t ts =>
      obtain ⟨rfl, hrest⟩ := List.cons.inj h
      simp [ih hrest]

theorem length_before_lt (hs : s ∈ sitesFrom [] ts) : s.before.length < ts.length := by
  obtain ⟨l, r, hsplit⟩ := List.append_of_mem hs
  have htokens : l.map (·.token) ++ s.token :: r.map (·.token) = ts := by
    rw [← map_token_sitesFrom [] ts, hsplit, List.map_append, List.map_cons]
  rw [before_eq_of_sitesFrom hsplit, ← htokens]
  simp

/-- The tokens that are written before a place are those of the places before it. -/
theorem filter_before_eq (h : writtenSites o ts = l ++ s :: r) :
    s.before.filter (isWritten o) = l.map (·.token) := by
  obtain ⟨l₁, rest, hsites, hl₁, hrest⟩ := List.filter_eq_append_iff.1 h
  obtain ⟨skipped, r₁, rfl, hskipped, -, -⟩ := List.filter_eq_cons_iff.1 hrest
  have hnone : skipped.filter (fun s => isWritten o s.token) = [] :=
    List.filter_eq_nil_iff.2 hskipped
  rw [← List.append_assoc] at hsites
  rw [before_eq_of_sitesFrom hsites, List.nil_append, List.filter_map, List.filter_append]
  show (l₁.filter (fun s => isWritten o s.token) ++
    skipped.filter (fun s => isWritten o s.token)).map (·.token) = _
  rw [hl₁, hnone, List.append_nil]

/-! ## Tokens that start a line -/

namespace Site

/-- Nothing is written before the token, or a text that ends its line. -/
def isFresh (o : Options) (s : Site) : Bool :=
  (lastWritten? o s.before).all fun p => Page.endsLine (shown o p)

/-- The token is the first on its line: the line is fresh already, or the separator begins one. -/
def startsLine (o : Options) (s : Site) : Bool := s.isFresh o || (s.separator o).head? == some '\n'

theorem separator_of_isFresh (h : s.isFresh o = true) :
    s.separator o = if (lastWritten? o s.before).isSome then s.indentation else [] := by
  unfold separator
  unfold isFresh at h
  cases hlast : lastWritten? o s.before with
  | none => rfl
  | some p =>
    rw [hlast, Option.all_some] at h
    dsimp only
    rw [if_pos h, Option.isSome_some, if_pos rfl]

theorem separator_of_not_isFresh (h : s.isFresh o = false) :
    s.separator o = if s.breaks o then '\n' :: s.indentation
      else if blankSince o s.before then [' '] else [] := by
  unfold separator
  unfold isFresh at h
  cases hlast : lastWritten? o s.before with
  | none =>
    rw [hlast, Option.all_none] at h
    exact Bool.noConfusion h
  | some p =>
    rw [hlast, Option.all_some] at h
    dsimp only
    rw [h, if_neg Bool.false_ne_true]

/-- A token that asks for a line starts one, and elsewhere a line is started by the text before. -/
theorem startsLine_eq (o : Options) (s : Site) : s.startsLine o = (s.isFresh o || s.breaks o) := by
  unfold startsLine
  cases hfresh : s.isFresh o with
  | true => rw [Bool.true_or, Bool.true_or]
  | false =>
    rw [separator_of_not_isFresh hfresh, Bool.false_or, Bool.false_or]
    cases s.breaks o with
    | true => simp
    | false => cases blankSince o s.before <;> simp

/-- Nothing but line feeds is taken of the separator: behind one stand spaces. -/
theorem takeWhile_separator (o : Options) (s : Site) :
    (s.separator o).takeWhile (· == '\n') =
      if !s.isFresh o && s.breaks o then ['\n'] else [] := by
  have hindentation : s.indentation.takeWhile (· == '\n') = [] := by
    rw [indentation, flatten_replicate_indentUnit, List.takeWhile_replicate_eq_filter]
    exact List.filter_eq_nil_iff.2 fun c hc => by simp [List.eq_of_mem_replicate hc]
  cases hfresh : s.isFresh o with
  | true =>
    rw [separator_of_isFresh hfresh]
    cases lastWritten? o s.before with
    | none => rfl
    | some p => exact hindentation
  | false =>
    rw [separator_of_not_isFresh hfresh]
    cases s.breaks o with
    | true => simp [hindentation]
    | false => cases blankSince o s.before <;> simp

/-- Where no text is empty, the line of a token is a line of the output: the token starts one if
what is written before it, with the line feed that may follow, is empty or ends a line. -/
theorem startsLine_eq_isFresh_laidOut (hfilled : ∀ t ∈ ts, shown o t ≠ [])
    (hsplit : writtenSites o ts = l ++ s :: r) :
    s.startsLine o =
      Page.isFresh (laidOut o l ++ (s.separator o).takeWhile (· == '\n')) := by
  have hlast : lastWritten? o s.before = (l.map (·.token)).getLast? := by
    rw [lastWritten?, filter_before_eq hsplit]
  have hfresh : Page.isFresh (laidOut o l) = s.isFresh o := by
    cases l using List.reverseRecOn with
    | nil =>
      unfold isFresh
      rw [hlast]
      rfl
    | append_singleton l p =>
      have hp : p.token ∈ ts.filter (isWritten o) := by
        rw [← map_token_writtenSites, hsplit]
        simp
      have hlaid : laidOut o (l ++ [p]) =
          laidOut o l ++ p.separator o ++ shown o p.token := by simp [laidOut]
      unfold isFresh
      rw [hlaid, Page.isFresh_append _ (hfilled _ (List.mem_of_mem_filter hp)), hlast]
      simp
  rw [startsLine_eq, takeWhile_separator]
  cases hs : s.isFresh o with
  | true => simp [hfresh, hs]
  | false =>
    cases s.breaks o with
    | true =>
      show true = Page.isFresh (laidOut o l ++ ['\n'])
      rw [Page.isFresh_append _ (List.cons_ne_nil _ _)]
      rfl
    | false => simp [hfresh, hs]

end Site

/-! ## What depends on the threshold -/

/-- The options with reindentation and a threshold. -/
def withThreshold (o : Options) (n : Nat) : Options :=
  { o with reindent := true, fromBreakCount := n }

theorem countSince_le_length (o : Options) (before : List Token) :
    countSince o before ≤ before.length :=
  calc countSince o before
      ≤ (before.filter (isWritten o)).length := (List.rtakeWhile_suffix _ _).length_le
    _ ≤ before.length := List.length_filter_le _ _

namespace Site

/-- Of a `FROM` nothing but the count matters. -/
theorem breaks_of_from (hfrom : s.token.isWord "FROM" = true) :
    s.breaks o = decide (o.fromBreakCount ≤ countSince o s.before) := by
  obtain ⟨-, hcomment, hname, hpunctuation⟩ := ne_of_isKeyword (isKeyword_of_isWord hfrom)
  have hmark : s.token.isMark ')' = false := isMark_of_kind (beq_eq_false_iff_ne.1 hpunctuation)
  have hselect := isWord_eq_false hfrom (w := "SELECT") (by decide)
  have hclause := any_breakingKeywords_eq_false hfrom (by decide)
  rw [breaks, hmark, hcomment, hname, hselect, hfrom, hclause]
  simp

/-- Of another token the threshold does not matter. -/
theorem breaks_of_not_from (o : Options) (n m : Nat) (hfrom : s.token.isWord "FROM" = false) :
    s.breaks (withThreshold o n) = s.breaks (withThreshold o m) := by
  unfold breaks
  rw [hfrom, Bool.false_and]
  rfl

/-- A place under a low and a high threshold. -/
structure Thins (low high : Options) (s : Site) : Prop where
  text : shown low s.token = shown high s.token
  lines : s.startsLine high = true → s.startsLine low = true
  joined : s.startsLine low = true → s.startsLine high = false → s.token.isWord "FROM" = true
  others : s.startsLine low = s.startsLine high → s.separator low = s.separator high

theorem breaks_mono (h : n ≤ m) (hhigh : s.breaks (withThreshold o m) = true) :
    s.breaks (withThreshold o n) = true := by
  by_cases hfrom : s.token.isWord "FROM" = true
  · rw [breaks_of_from hfrom, decide_eq_true_eq] at *
    exact h.trans hhigh
  · rw [breaks_of_not_from o n m (by simpa using hfrom)]
    exact hhigh

theorem thins (o : Options) (h : n ≤ m) (s : Site) :
    s.Thins (withThreshold o n) (withThreshold o m) := by
  -- the text before the token is the same under both thresholds
  have hfresh : s.isFresh (withThreshold o n) = s.isFresh (withThreshold o m) := rfl
  refine ⟨rfl, fun hhigh => ?_, fun hlow hhigh => ?_, fun hsame => ?_⟩
  · rw [startsLine_eq, Bool.or_eq_true] at *
    exact hhigh.imp id (breaks_mono h)
  · by_contra hfrom
    rw [startsLine_eq, breaks_of_not_from o n m (by simpa using hfrom), hfresh, ← startsLine_eq,
      hhigh] at hlow
    exact Bool.false_ne_true hlow
  · cases hm : s.isFresh (withThreshold o m) with
    | true =>
      rw [separator_of_isFresh hm, separator_of_isFresh (hfresh.trans hm)]
      rfl
    | false =>
      rw [startsLine_eq, startsLine_eq, hfresh, hm, Bool.false_or, Bool.false_or] at hsame
      rw [separator_of_not_isFresh hm, separator_of_not_isFresh (hfresh.trans hm), hsame]
      rfl

/-- A threshold that is not reached lets no `FROM` begin a line. -/
theorem isFresh_of_from (hs : s ∈ sitesFrom [] ts) (hmany : ts.length ≤ m)
    (hfrom : s.token.isWord "FROM" = true) (hstarts : s.startsLine (withThreshold o m) = true) :
    s.isFresh (withThreshold o m) = true := by
  have hcount : countSince (withThreshold o m) s.before < m :=
    calc countSince (withThreshold o m) s.before
        ≤ s.before.length := countSince_le_length _ _
      _ < ts.length := length_before_lt hs
      _ ≤ m := hmany
  have hbreaks : s.breaks (withThreshold o m) = false := by
    rw [breaks_of_from hfrom, decide_eq_false_iff_not]
    exact Nat.not_le.2 hcount
  rw [startsLine_eq, hbreaks, Bool.or_false] at hstarts
  exact hstarts

end Site

/-! ## The layouts of the same tokens -/

/-- The layouts of tokens under a low and a high threshold, place by place. -/
structure Thinned (o : Options) (n m : Nat) (ts : List Token) : Prop where
  tokens : (writtenSites o ts).map (·.token) = ts.filter (isWritten o)
  low : format (withThreshold o n) ts = laidOut (withThreshold o n) (writtenSites o ts)
  high : format (withThreshold o m) ts = laidOut (withThreshold o m) (writtenSites o ts)
  /-- Both write the same text at each place, the high threshold starts no line that the low one
  does not, the lines that it does not start are those of `FROM`s, and the separators in front of
  all other tokens are the same. -/
  sites : ∀ s ∈ writtenSites o ts, s.Thins (withThreshold o n) (withThreshold o m)
  /-- The lines that tokens start are those of the output, where no text is empty: what is written
  before, with the line feed that may follow, is empty or ends a line. -/
  starts : ∀ k, (∀ t ∈ ts, shown (withThreshold o k) t ≠ []) →
    ∀ l s r, writtenSites o ts = l ++ s :: r → s.startsLine (withThreshold o k) =
      Page.isFresh (laidOut (withThreshold o k) l ++
        (s.separator (withThreshold o k)).takeWhile (· == '\n'))
  /-- Under a threshold that the tokens cannot reach, a `FROM` is first on a line that is fresh. -/
  unreached : ts.length ≤ m → ∀ s ∈ writtenSites o ts, s.token.isWord "FROM" = true →
    s.startsLine (withThreshold o m) = true → s.isFresh (withThreshold o m) = true

/-- A higher threshold joins lines at `FROM`, and changes nothing else. -/
theorem format_thinned (o : Options) (ts : List Token) (h : n ≤ m) : Thinned o n m ts where
  tokens := map_token_writtenSites o ts
  low := format_eq_described rfl ts
  high := format_eq_described rfl ts
  sites s _ := s.thins o h
  starts _ hfilled _ _ _ hsplit := Site.startsLine_eq_isFresh_laidOut hfilled hsplit
  unreached hmany _ hs hfrom := Site.isFresh_of_from (List.mem_of_mem_filter hs) hmany hfrom

theorem format_thinned_columns :
    3 ≤ 4 ∧ Thinned {} 3 4 (Sql.tokens "SELECT a, b FROM t".toList) :=
  ⟨by decide, format_thinned {} _ (by decide)⟩

/-- Three tokens are written between `SELECT` and its `FROM`. -/
example : [3, 4].map (fun n => formatQuery (withThreshold {} n) "SELECT a, b FROM t".toList) =
    ["SELECT a, b\nFROM t".toList, "SELECT a, b FROM t".toList] := by decide +kernel

end SqlLayout.Layout
