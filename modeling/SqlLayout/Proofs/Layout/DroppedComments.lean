import SqlLayout.Proofs.Layout.Alike
import SqlLayout.Proofs.Layout.Plain

/-!
# Dropped comments

A layout that drops comments is compared with the layout of the tokens that are no comments. The two
agree in all they remember and in every lookahead but one: a name heads a subquery if `AS`, a
parenthesis and `SELECT` follow it, and this test takes a dropped comment for a token. A name that
heads a subquery only once the comments are left out is obscured. Where it stands within a line the
second layout has a line feed that the first one lacks, and no other difference is possible, so the
layouts are the same exactly if no name is obscured (`format_removing_comments_iff`).
-/

namespace SqlLayout.Layout

variable {o : Options} {s : Site} {t : Token} {before after ts : List Token}

/-- Comments are dropped. -/
def removing (o : Options) : Options := { o with removeComments := true }

/-- Comments are kept. -/
def keeping (o : Options) : Options := { o with removeComments := false }

/-- A token that is no comment. -/
def uncommented? (t : Token) : Option Token := if t.kind = .comment then none else some t

theorem withoutComments_eq_filterMap (ts : List Token) :
    Token.withoutComments true ts = ts.filterMap uncommented? := by
  rw [Token.withoutComments, ← List.filterMap_eq_filter]
  congr 1
  funext t
  by_cases ht : t.kind = .comment
  · simp [uncommented?, ht]
  · simp [uncommented?, ht, Option.guard]

theorem uncommented?_of_comment (h : t.kind = .comment) : uncommented? t = none := if_pos h

theorem uncommented?_of_ne (h : t.kind ≠ .comment) : uncommented? t = some t := if_neg h

theorem eq_of_uncommented? {u : Token} (h : uncommented? t = some u) : u = t := by
  rw [uncommented?] at h
  split at h
  · exact nomatch h
  · exact (Option.some.inj h).symm

/-- Leaving comments out keeps a layout that would drop them. -/
theorem keeps_uncommented? (o : Options) (ts : List Token) :
    Keeps uncommented? (removing o) (keeping o) ts where
  reads t _ := by
    by_cases ht : t.kind = .comment
    · exact .inl ⟨uncommented?_of_comment ht, by rw [ht]; decide, by rw [ht]; rfl⟩
    · exact .inr ⟨t, uncommented?_of_ne ht, rfl, fun _ => rfl, fun _ => rfl⟩
  written t _ := by
    by_cases ht : t.kind = .comment
    · rw [uncommented?_of_comment ht, isWritten, removing, ht]
      rfl
    · rw [uncommented?_of_ne ht, isWritten, removing, beq_eq_false_iff_ne.2 ht]
      simp [isWritten, keeping]
  count := rfl

theorem isBlank_uncommented? (t : Token) :
    (uncommented? t).any (·.kind.isBlank) = t.kind.isBlank := by
  by_cases ht : t.kind = .comment
  · rw [uncommented?_of_comment ht, ht]
    rfl
  · rw [uncommented?_of_ne ht, Option.any_some]

/-! ## The lookahead that sees comments -/

theorem headsSubquery_iff :
    headsSubquery after = true ↔ ∃ as paren select rest,
      after.filter (!·.kind.isBlank) = as :: paren :: select :: rest ∧
        as.isWord "AS" = true ∧ paren.isMark '(' = true ∧ select.isWord "SELECT" = true := by
  rw [headsSubquery]
  generalize after.filter (fun t => !t.kind.isBlank) = first
  rcases first with _ | ⟨as, _ | ⟨paren, _ | ⟨select, rest⟩⟩⟩
  · simp
  · simp
  · simp
  · simp [and_assoc]

theorem ne_comment_of_isWord {v : String} (h : t.isWord v = true) : t.kind ≠ .comment := by
  intro ht
  rw [isWord_of_not_isKeyword (by rw [ht]; rfl)] at h
  exact Bool.noConfusion h

/-- A name that heads a subquery does so without comments. -/
theorem headsSubquery_uncommented (h : headsSubquery after = true) :
    headsSubquery (after.filterMap uncommented?) = true := by
  obtain ⟨as, paren, select, rest, hfirst, has, hparen, hselect⟩ := headsSubquery_iff.1 h
  refine headsSubquery_iff.2
    ⟨as, paren, select, rest.filterMap uncommented?, ?_, has, hparen, hselect⟩
  have hmark : paren.kind ≠ .comment := by
    rw [kind_of_isMark hparen]
    decide
  have hcomm : (after.filterMap uncommented?).filter (!·.kind.isBlank) =
      (after.filter (!·.kind.isBlank)).filterMap uncommented? := by
    rw [← withoutComments_eq_filterMap, ← withoutComments_eq_filterMap, Token.withoutComments,
      Token.withoutComments, List.filter_filter, List.filter_filter]
    simp only [Bool.and_comm]
  rw [hcomm, hfirst, List.filterMap_cons_some (uncommented?_of_ne (ne_comment_of_isWord has)),
    List.filterMap_cons_some (uncommented?_of_ne hmark),
    List.filterMap_cons_some (uncommented?_of_ne (ne_comment_of_isWord hselect))]

/-- The token is a name within a line, and it heads a subquery once the comments are left out. -/
def Site.isObscured (o : Options) (s : Site) : Bool :=
  s.token.kind == .name && !headsSubquery s.after &&
    headsSubquery (Token.withoutComments true s.after) &&
    (lastWritten? (removing o) s.before).any fun p => !Page.endsLine (shown o p)

/-! ## Separators -/

namespace Site

theorem blankSince_uncommented (o : Options) (before : List Token) :
    blankSince (keeping o) (before.filterMap uncommented?) = blankSince (removing o) before :=
  blankSince_filterMap (keeps_uncommented? o before) fun t _ => isBlank_uncommented? t

theorem separator_of_breaks_eq (ht : uncommented? s.token = some s.token)
    (hbreaks : (s.changed uncommented? s.token).breaks (keeping o) = s.breaks (removing o)) :
    (s.changed uncommented? s.token).separator (keeping o) = s.separator (removing o) := by
  refine separator_changed (keeps_uncommented? o s.tokens) ht hbreaks (fun p _ q hq => ?_)
    (blankSince_uncommented o s.before)
  rw [eq_of_uncommented? hq]
  rfl

/-- A site where only the second layout may begin a line. -/
theorem exists_last_of_isObscured (h : s.isObscured o = true) :
    s.token.kind = .name ∧ headsSubquery s.after = false ∧
      headsSubquery (s.after.filterMap uncommented?) = true ∧
      ∃ p, lastWritten? (removing o) s.before = some p ∧ Page.endsLine (shown o p) = false := by
  simp only [isObscured, Bool.and_eq_true, beq_iff_eq, Bool.not_eq_true', Option.any_eq_true,
    withoutComments_eq_filterMap] at h
  obtain ⟨⟨⟨hname, hseen⟩, hheads⟩, p, hp, hends⟩ := h
  exact ⟨hname, hseen, hheads, p, hp, hends⟩

/-- Where no name is obscured the separators agree. -/
theorem separator_uncommented (ht : s.token.kind ≠ .comment) (h : s.isObscured o = false) :
    (s.changed uncommented? s.token).separator (keeping o) = s.separator (removing o) := by
  have hu := uncommented?_of_ne ht
  by_cases hheads : s.token.kind = .name →
      headsSubquery (s.after.filterMap uncommented?) = headsSubquery s.after
  · exact separator_of_breaks_eq hu (breaks_changed (keeps_uncommented? o s.tokens) hu hheads)
  · -- the name would be obscured, so no line feed can stand before it
    rw [Classical.not_imp] at hheads
    obtain ⟨hname, hne⟩ := hheads
    have hseen : headsSubquery s.after = false := by
      rw [← Bool.not_eq_true]
      exact fun hseen => hne ((headsSubquery_uncommented hseen).trans hseen.symm)
    rw [hseen, Bool.not_eq_false] at hne
    simp only [isObscured, hname, hseen, withoutComments_eq_filterMap, hne, beq_self_eq_true,
      Bool.not_false, Bool.true_and] at h
    rw [separator, separator, changed_before]
    cases hp : lastWritten? (removing o) s.before with
    | none => rw [lastWritten?_filterMap_eq_none (keeps_uncommented? o s.before) hp]
    | some p =>
      obtain ⟨q, hq, hlast⟩ := exists_lastWritten?_filterMap (keeps_uncommented? o s.before) hp
      rw [hp, Option.any_some, Bool.not_eq_false'] at h
      obtain rfl := eq_of_uncommented? hq
      rw [hlast]
      dsimp only
      rw [if_pos (show Page.endsLine (shown (keeping o) q) = true from h),
        if_pos (show Page.endsLine (shown (removing o) q) = true from h),
        indentation_changed (keeps_uncommented? o s.tokens) hu]

/-- A name begins a line if it heads a subquery, and for no other reason. -/
theorem breaks_of_name (h : s.token.kind = .name) (o : Options) :
    s.breaks o = headsSubquery s.after := by
  have hkey : s.token.kind.isKeyword = false := by rw [h]; rfl
  have hclause : breakingKeywords.any s.token.isWord = false :=
    List.any_eq_false.2 fun w _ => by simp [isWord_of_not_isKeyword hkey]
  rw [breaks, isMark_of_kind (by rw [h]; decide), isWord_of_not_isKeyword hkey,
    isWord_of_not_isKeyword hkey, hclause, h]
  simp

theorem count_indentation (s : Site) : s.indentation.count '\n' = 0 := by
  rw [List.count_eq_zero, indentation]
  intro hmem
  obtain ⟨unit, hunit, hfeed⟩ := List.mem_flatten.1 hmem
  rw [List.eq_of_mem_replicate hunit] at hfeed
  exact absurd hfeed (by decide)

/-- Before an obscured name the second layout writes a line feed, and the first one none. -/
theorem count_separator_of_isObscured (h : s.isObscured o = true) :
    ((s.changed uncommented? s.token).separator (keeping o)).count '\n' =
      (s.separator (removing o)).count '\n' + 1 := by
  obtain ⟨hname, hseen, hheads, p, hp, hends⟩ := exists_last_of_isObscured h
  obtain ⟨q, hq, hlast⟩ := exists_lastWritten?_filterMap (keeps_uncommented? o s.before) hp
  obtain rfl := eq_of_uncommented? hq
  have hfirst : (s.separator (removing o)).count '\n' = 0 := by
    rw [separator, hp]
    dsimp only
    rw [if_neg (by rw [show Page.endsLine (shown (removing o) q) = false from hends]; decide),
      breaks_of_name hname, hseen, if_neg Bool.false_ne_true]
    split <;> rfl
  have hsecond : ((s.changed uncommented? s.token).separator (keeping o)).count '\n' = 1 := by
    rw [separator, changed_before, hlast]
    dsimp only
    rw [if_neg (by rw [show Page.endsLine (shown (keeping o) q) = false from hends]; decide),
      breaks_of_name (s := s.changed uncommented? s.token) hname, changed_after, hheads, if_pos rfl,
      List.count_cons, count_indentation]
    rfl
  rw [hfirst, hsecond]

end Site

/-! ## Layouts -/

/-- What is written for the tokens that are no comments, after those that are none. -/
def uncommentedFrom (o : Options) (before ts : List Token) : Text :=
  describedFrom (keeping o) (before.filterMap uncommented?) (ts.filterMap uncommented?)

theorem uncommentedFrom_comment (ht : t.kind = .comment) :
    uncommentedFrom o before (t :: after) = uncommentedFrom o (before ++ [t]) after := by
  rw [uncommentedFrom, uncommentedFrom, List.filterMap_append,
    List.filterMap_cons_none (uncommented?_of_comment ht),
    List.filterMap_cons_none (uncommented?_of_comment ht), List.filterMap_nil, List.append_nil]

theorem uncommentedFrom_other (ht : t.kind ≠ .comment) :
    uncommentedFrom o before (t :: after) =
      (if isWritten (removing o) t then
        ((Site.mk before t after).changed uncommented? t).separator (keeping o) ++ shown o t
        else []) ++ uncommentedFrom o (before ++ [t]) after := by
  have hwritten : isWritten (removing o) t = isWritten (keeping o) t := by
    rw [(keeps_uncommented? o [t]).written t List.mem_cons_self, uncommented?_of_ne ht,
      Option.any_some]
  rw [uncommentedFrom, uncommentedFrom, List.filterMap_append,
    List.filterMap_cons_some (uncommented?_of_ne ht),
    List.filterMap_cons_some (uncommented?_of_ne ht), describedFrom_cons, hwritten]
  rfl

theorem describedFrom_comment (ht : t.kind = .comment) :
    describedFrom (removing o) before (t :: after) =
      describedFrom (removing o) (before ++ [t]) after := by
  have hwritten : isWritten (removing o) t = false := by
    rw [(keeps_uncommented? o [t]).written t List.mem_cons_self, uncommented?_of_comment ht,
      Option.any_none]
  rw [describedFrom_cons, hwritten, if_neg Bool.false_ne_true, List.nil_append]

/-- Without obscured names the two layouts describe the same text. -/
theorem describedFrom_uncommented (h : ∀ s ∈ sitesFrom before ts, s.isObscured o = false) :
    describedFrom (removing o) before ts = uncommentedFrom o before ts := by
  induction ts generalizing before with
  | nil => rfl
  | cons t after ih =>
    rw [sitesFrom, List.forall_mem_cons] at h
    by_cases ht : t.kind = .comment
    · rw [describedFrom_comment ht, uncommentedFrom_comment ht, ih h.2]
    · rw [describedFrom_cons, uncommentedFrom_other ht, ih h.2,
        ← Site.separator_uncommented (s := ⟨before, t, after⟩) ht h.1]
      rfl

/-- Each obscured name makes for one line feed more. -/
theorem count_uncommentedFrom (o : Options) (before ts : List Token) :
    (uncommentedFrom o before ts).count '\n' =
      (describedFrom (removing o) before ts).count '\n' +
        (sitesFrom before ts).countP (·.isObscured o) := by
  induction ts generalizing before with
  | nil => rfl
  | cons t after ih =>
    rw [sitesFrom, List.countP_cons]
    by_cases ht : t.kind = .comment
    · have hseen : (Site.mk before t after).isObscured o = false := by simp [Site.isObscured, ht]
      rw [uncommentedFrom_comment ht, describedFrom_comment ht, ih, hseen]
      rfl
    · rw [uncommentedFrom_other ht, describedFrom_cons, List.count_append, List.count_append, ih]
      have hshown : shown (removing o) t = shown o t := rfl
      cases hseen : (Site.mk before t after).isObscured o with
      | false =>
        rw [← Site.separator_uncommented (s := ⟨before, t, after⟩) ht hseen, hshown,
          if_neg Bool.false_ne_true]
        exact (Nat.add_assoc _ _ _).symm
      | true =>
        have hname := (Site.exists_last_of_isObscured hseen).1
        have hwritten : isWritten (removing o) t = true := by
          rw [isWritten, show t.kind = .name from hname]
          simp [Kind.isBlank]
        have hcount := Site.count_separator_of_isObscured hseen
        rw [hwritten, if_pos rfl, if_pos rfl, if_pos rfl, List.count_append, List.count_append,
          hcount, hshown]
        omega

/-- A layout that drops comments is the layout of the tokens that are no comments, except where
lines are broken anew and a dropped comment hides what a name within a line heads. -/
theorem format_removing_comments_iff (o : Options) (ts : List Token) :
    format { o with removeComments := true } ts =
        format { o with removeComments := false } (Token.withoutComments true ts) ↔
      (o.reindent = true → ∀ s ∈ sitesFrom [] ts, s.isObscured o = false) := by
  show format (removing o) ts = format (keeping o) (Token.withoutComments true ts) ↔ _
  cases hreindent : o.reindent with
  | false =>
    -- without new lines both write the tokens that are no comments one after another
    have hplain : format (removing o) ts = format (keeping o) (Token.withoutComments true ts) := by
      rw [format_plain (o := removing o) hreindent, format_plain (o := keeping o) hreindent]
      have hkept : Token.withoutComments false (Token.withoutComments true ts) =
        Token.withoutComments true ts := by simp [Token.withoutComments]
      exact congrArg (List.flatMap (shown o)) hkept.symm
    exact iff_of_true hplain Bool.noConfusion
  | true =>
    rw [format_eq_described (o := removing o) hreindent,
      format_eq_described (o := keeping o) hreindent, withoutComments_eq_filterMap]
    show describedFrom (removing o) [] ts = uncommentedFrom o [] ts ↔ _
    refine ⟨fun h _ => ?_, fun h => describedFrom_uncommented (h rfl)⟩
    have hcount := count_uncommentedFrom o [] ts
    rw [← h, Nat.left_eq_add, List.countP_eq_zero] at hcount
    exact fun s hs => Bool.eq_false_iff.2 (hcount s hs)

/-- The tokens of a query in which a comment stands between a name and what it heads. -/
def hiddenHead : List Token :=
  [⟨.keywordCte, "WITH".toList, 0⟩, ⟨.whitespace, " ".toList, 4⟩, ⟨.name, "x".toList, 5⟩,
    ⟨.whitespace, " ".toList, 6⟩, ⟨.comment, "--c\n".toList, 7⟩, ⟨.whitespace, " ".toList, 11⟩,
    ⟨.keyword, "AS".toList, 12⟩, ⟨.whitespace, " ".toList, 14⟩, ⟨.punctuation, "(".toList, 15⟩,
    ⟨.keyword, "SELECT".toList, 16⟩, ⟨.whitespace, " ".toList, 22⟩,
    ⟨.numberInteger, "1".toList, 23⟩, ⟨.punctuation, ")".toList, 24⟩]

theorem format_removing_comments_hiddenHead :
    format { reindent := true, removeComments := true } hiddenHead =
        "WITH x AS (\n  SELECT 1\n)".toList ∧
      format { reindent := true } (Token.withoutComments true hiddenHead) =
        "WITH\nx AS (\n  SELECT 1\n)".toList := by
  decide

end SqlLayout.Layout
