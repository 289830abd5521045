import SqlLayout.Proofs.Layout.Spacing

/-!
# Reindentation keeps the tokens

A reindented query is cut into the tokens of the query again: its scan follows that of the query,
token by token, and cuts each separator into blanks on the way (`exists_relaid`). What the two scans
have behind them agrees as far as rules look back (`Aligned`). So reindentation keeps the program,
and reindenting a second time changes nothing.
-/

namespace SqlLayout.Layout

open Lexer Text Sql

variable {k n m : Nat} {t p : Token} {ts before : List Token} {b b' r : Text}

/-! ## What stands behind -/

theorem untouched_of_gap {g : Text} (hg : IsGap g) (hne : g ≠ []) (b : Text) :
    Untouched (g.reverse ++ b) := by
  have hhead := hg.reverse.head (t := b) (by simpa using hne)
  cases hfirst : (g.reverse ++ b).head? with
  | none => rw [Untouched, hfirst]; rfl
  | some x =>
    rw [Untouched, hfirst]
    exact isBoundary_of_isBlank (hhead x hfirst)

theorem untouched_congr (h : b.head? = b'.head?) : Untouched b ↔ Untouched b' := by
  rw [Untouched, Untouched, h]

/-- What the scan of the query and that of the layout have behind them, in front of the same token:
the same last character, or a blank. -/
structure Aligned (k : Nat) (before : List Token) (b b' : Text) : Prop where
  blank : blankSince (reindenting k) before = true → Untouched b
  fresh : lastWritten? (reindenting k) before = none → Untouched b ∧ Untouched b'
  last : ∀ p ∈ lastWritten? (reindenting k) before, b'.head? = p.settled.getLast?
  same : lastWritten? (reindenting k) before ≠ none → blankSince (reindenting k) before = false →
    b.head? = b'.head?

theorem Aligned.start (k : Nat) : Aligned k [] [] [] := by
  refine ⟨fun _ => rfl, fun _ => ⟨rfl, rfl⟩, fun p hp => ?_, fun _ _ => rfl⟩
  simp [lastWritten?] at hp

theorem Aligned.skip (h : Aligned k before b b') (hcut : Cut b t r) (hblank : t.kind.isBlank = true) :
    Aligned k (before ++ [t]) (t.value.reverse ++ b) b' := by
  have huntouched := untouched_of_gap (hcut.isGap hblank) hcut.ne_nil b
  have hlast := lastWritten?_blank (k := k) hblank before
  refine ⟨fun _ => huntouched, fun hnone => ?_, fun p hp => ?_, fun _ hsince => ?_⟩
  · rw [hlast] at hnone
    exact ⟨huntouched, (h.fresh hnone).2⟩
  · rw [hlast] at hp
    exact h.last p hp
  · rw [blankSince_blank hblank] at hsince
    exact Bool.noConfusion hsince

theorem Aligned.write (hcut : Cut b t r) (hblank : t.kind.isBlank = false) (before : List Token)
    (b' : Text) : Aligned k (before ++ [t]) (t.value.reverse ++ b) (t.settled.reverse ++ b') := by
  have hlast := lastWritten?_written (k := k) hblank before
  have hfirst : ∀ {v : Text} (w : Text), v ≠ [] → (v.reverse ++ w).head? = v.getLast? := by
    intro v w hne
    rw [List.head?_append_of_ne_nil _ (by simpa using hne), List.head?_reverse]
  refine ⟨fun h => ?_, fun h => ?_, fun p hp => ?_, fun _ _ => ?_⟩
  · rw [blankSince_written hblank] at h
    exact Bool.noConfusion h
  · rw [hlast] at h
    exact absurd h (by simp)
  · obtain rfl : t = p := by simpa [hlast] using hp
    exact hfirst b' hcut.settled_ne_nil
  · rw [hfirst b hcut.ne_nil, hfirst b' hcut.settled_ne_nil, hcut.getLast?_settled]

/-- In front of a token that does not begin a line, both scans have something behind them that may
touch a number, or neither has. -/
theorem Aligned.untouched_iff {s : Site} (h : Aligned k s.before b b')
    (hbreaks : s.breaks (reindenting k) = false) :
    Untouched b ↔ Untouched ((s.separator (reindenting k)).reverse ++ b') := by
  cases hlast : lastWritten? (reindenting k) s.before with
  | none =>
    obtain ⟨hb, hb'⟩ := h.fresh hlast
    rw [Site.separator_of_none hlast]
    exact iff_of_true hb hb'
  | some p =>
    have hwritten : lastWritten? (reindenting k) s.before ≠ none := by simp [hlast]
    by_cases hends : Page.endsLine p.settled = true
    · -- a line has ended, so neither text touches what follows
      have hb' : Untouched b' := by
        rw [Page.endsLine, ← h.last p hlast] at hends
        cases hhead : b'.head? with
        | none => simp [hhead] at hends
        | some x =>
          rw [hhead, Option.any_some, Bool.or_eq_true, beq_iff_eq, beq_iff_eq] at hends
          rw [Untouched, hhead, Option.any_some]
          rcases hends with rfl | rfl <;> decide
      refine iff_of_true ?_ ?_
      · cases hsince : blankSince (reindenting k) s.before with
        | true => exact h.blank hsince
        | false => exact (untouched_congr (h.same hwritten hsince)).2 hb'
      · by_cases hempty : s.separator (reindenting k) = []
        · rw [hempty]
          exact hb'
        · exact untouched_of_gap Site.isGap_separator hempty b'
    · -- within a line a separator stands exactly where blanks stood
      rw [Bool.not_eq_true, ← shown_reindenting k] at hends
      have hiff := Site.separator_ne_nil_iff hlast hends
      rw [hbreaks] at hiff
      cases hsince : blankSince (reindenting k) s.before with
      | true =>
        have hne := hiff.2 (.inr hsince)
        exact iff_of_true (h.blank hsince) (untouched_of_gap Site.isGap_separator hne b')
      | false =>
        have hempty : s.separator (reindenting k) = [] := by
          by_contra hne
          simpa [hsince] using hiff.1 hne
        rw [hempty]
        exact untouched_congr (h.same hwritten hsince)

/-! ## The tokens of a layout -/

theorem head?_settled_append (hcut : Cut b t r) (w : Text) :
    (t.settled ++ w).head? = t.value.head? := by
  rw [List.head?_append_of_ne_nil _ hcut.settled_ne_nil, hcut.head?_settled]

theorem head?_settled_isBlank (hcut : Cut b t r) (hblank : t.kind.isBlank = false) (w : Text) :
    (t.settled ++ w).head?.any isBlank = false := by
  rw [head?_settled_append hcut]
  exact (hcut.isEdged hblank).head

/-- Where a line has ended, a layout goes on with no line feed. -/
theorem head?_describedFrom_ne {c d : Cursor} (hcuts : Cuts lexer n c ts m d)
    (hlast : lastWritten? (reindenting k) before = some p)
    (hends : Page.endsLine p.settled = true) :
    (describedFrom (reindenting k) before ts).head? ≠ some '\n' := by
  induction hcuts generalizing before with
  | done n c => exact nofun
  | @step n m c d e t ts hnext _ ih =>
    obtain ⟨b, s⟩ := c
    obtain ⟨r, rfl, rfl, -, hcut⟩ := next_eq_token_iff_cut.1 hnext
    by_cases hblank : t.kind.isBlank = true
    · rw [describedFrom_blank hblank]
      exact ih (by rw [lastWritten?_blank hblank, hlast])
    · rw [Bool.not_eq_true] at hblank
      have hindent := Site.separator_of_endsLine (s := ⟨before, t, ts⟩) hlast
        (by rw [shown_reindenting]; exact hends)
      rw [describedFrom_written hblank, hindent, List.head?_append]
      cases hfirst : (Site.mk before t ts).indentation.head? with
      | some x =>
        rw [Site.mem_indentation (List.mem_of_mem_head? hfirst), Option.some_or]
        decide
      | none =>
        intro hfeed
        have hsolid := head?_settled_isBlank hcut hblank
          (describedFrom (reindenting k) (before ++ [t]) ts)
        rw [Option.none_or] at hfeed
        rw [hfeed] at hsolid
        exact absurd hsolid (by decide)

/-- In the layout a token is cut behind its separator, with its settled text. -/
theorem cut_settled {d : Cursor} {n' : Nat} (hcut : Cut b t r) (hblank : t.kind.isBlank = false)
    (hcuts : Cuts lexer n ⟨b, t.value ++ r⟩ (t :: ts) m d)
    (hmore : Cuts lexer n' ⟨t.value.reverse ++ b, r⟩ ts m d) (hend : d.rest = [])
    (hseparable : Separable (t :: ts)) (haligned : Aligned k before b b') (i : Int) :
    Cut (((Site.mk before t ts).separator (reindenting k)).reverse ++ b') ⟨t.kind, t.settled, i⟩
      (describedFrom (reindenting k) (before ++ [t]) ts) := by
  refine hcut.carried hblank ?_ ?_ ?_ ?_ (hseparable.names t List.mem_cons_self) i
  · -- what follows a token within a line is what followed it, with other blanks
    intro hkind
    have hends : Page.endsLine t.settled = false := by
      rw [← Bool.not_eq_true]
      exact fun hends => hkind (kind_of_endsLine hcut hblank hends).1
    refine respaced_describedFrom hmore hend hseparable.tail
      (Gaps.plain_start hblank hends before) fun _ hlast => ?_
    exact (hcut.isEdged hblank).stops hlast
  · -- a comment ended its line, so the layout adds no line feed to its end
    intro hkind
    have hnil : r = [] → describedFrom (reindenting k) (before ++ [t]) ts = [] := by
      rintro rfl
      rw [hmore.eq_nil rfl]
      rfl
    refine ⟨?_, hnil⟩
    rcases (hcut.isComment hkind).ends with ⟨x, hx, hlast⟩ | hr
    · refine head?_describedFrom_ne hmore (lastWritten?_written hblank before) ?_
      rw [endsLine_settled hcut, hlast]
      have hall : ∀ y ∈ "\r\n".toList, (y == '\n' || y == '\r') = true := by decide
      exact hall x hx
    · rw [hnil hr]
      exact nofun
  · -- other tokens begin no line, so they touch what they touched
    intro hkind hmark
    refine haligned.untouched_iff (s := ⟨before, t, ts⟩) ?_
    rw [← Bool.not_eq_true]
    intro hbreaks
    rcases Site.kind_of_breaks hbreaks with hmark' | hkind'
    · rw [show t.isMark ')' = true from hmark'] at hmark
      exact Bool.noConfusion hmark
    · exact hkind hkind'
  · -- a severed letter would be a word after the point that follows a whole number
    intro hb hsevered
    obtain ⟨a, p, c, us, heq, ha, hp, hc⟩ := hsevered.exists_cuts hb hcuts hend
    refine hseparable.points a p c ?_ ha hp hc
    rw [heq]
    exact (List.prefix_append [a, p, c] us).isInfix

/-- The scan of a layout follows the scan of the query. -/
theorem exists_relaid {c d : Cursor} (hcuts : Cuts lexer n c ts m d) (hend : d.rest = [])
    (hseparable : Separable ts) (haligned : Aligned k before c.before b') (i : Nat) :
    ∃ us j e, Relaid k before ts us ∧
      Cuts lexer i ⟨b', describedFrom (reindenting k) before ts⟩ us j e ∧ e.rest = [] := by
  induction hcuts generalizing before b' i with
  | done n c => exact ⟨[], i, _, .done before, .done i _, rfl⟩
  | @step n m c d e t ts hnext hcuts ih =>
    obtain ⟨b, s⟩ := c
    obtain ⟨r, rfl, rfl, -, hcut⟩ := next_eq_token_iff_cut.1 hnext
    by_cases hblank : t.kind.isBlank = true
    · -- the layout leaves blanks out, so its scan waits
      obtain ⟨us, j, e, hrelaid, hcuts', he⟩ :=
        ih hend hseparable.tail (haligned.skip hcut hblank) i
      refine ⟨us, j, e, .skip hblank hrelaid, ?_, he⟩
      rw [describedFrom_blank hblank]
      exact hcuts'
    · rw [Bool.not_eq_true] at hblank
      have hcut' := cut_settled hcut hblank (.step hnext hcuts) hcuts hend hseparable haligned
      -- the layout cuts the separator into blanks, and then the token
      generalize hsep : (Site.mk before t ts).separator (reindenting k) = sep at hcut'
      have hgap : IsGap sep := hsep ▸ Site.isGap_separator
      obtain ⟨gs, hgaps, hgs⟩ := exists_cuts_gap hgap (head?_settled_isBlank hcut hblank
        (describedFrom (reindenting k) (before ++ [t]) ts)) b' i
      obtain ⟨us, j, e, hrelaid, hcuts', he⟩ := ih hend hseparable.tail
        (Aligned.write hcut hblank before (sep.reverse ++ b'))
        (i + sep.length + t.settled.length)
      refine ⟨gs ++ ⟨t.kind, t.settled, (i + sep.length : Nat)⟩ :: us, j, e, ?_, ?_, he⟩
      · refine .write hblank hgs ?_ rfl rfl hrelaid
        rw [hgaps.ne_nil_iff, hsep, ← List.length_pos_iff]
        omega
      · rw [describedFrom_written hblank, hsep]
        refine hgaps.trans (.step ?_ hcuts')
        exact next_eq_token_iff_cut.2 ⟨_, rfl, rfl, rfl, hcut' _⟩

/-- Reindentation keeps the program of a query that is cut completely: what it writes is cut
completely into the same tokens but for blanks, keywords with single spaces, and reindenting that
again changes nothing. -/
theorem reindent_preserves (s : Text) (k : Nat) (hcomplete : (Sql.scan s).ending = .complete)
    (hseparable : Separable (Sql.tokens s)) :
    (Sql.scan (formatQuery (reindenting k) s)).ending = .complete ∧
      ((Sql.tokens (formatQuery (reindenting k) s)).filter (!·.kind.isBlank)).map
          (fun u => (u.kind, u.value)) =
        ((Sql.tokens s).filter (!·.kind.isBlank)).map (fun u => (u.kind, u.settled)) ∧
      formatQuery (reindenting k) (formatQuery (reindenting k) s) =
        formatQuery (reindenting k) s := by
  have hformat : ∀ ts, format (reindenting k) ts = describedFrom (reindenting k) [] ts :=
    fun ts => format_eq_described rfl ts
  obtain ⟨m, d, hcuts, hstop⟩ := cuts_scanFrom lexer 0 (Cursor.start s)
  change Stops lexer m d (Sql.scan s).ending at hstop
  rw [hcomplete] at hstop
  obtain ⟨us, j, e, hrelaid, hcuts', he⟩ := exists_relaid hcuts hstop hseparable (Aligned.start k) 0
  have hscan : Sql.scan (formatQuery (reindenting k) s) = ⟨us, .complete⟩ := by
    rw [formatQuery, hformat]
    exact scanFrom_eq hcuts' he
  have htokens : Sql.tokens (formatQuery (reindenting k) s) = us := congrArg Scan.tokens hscan
  refine ⟨congrArg Scan.ending hscan, ?_, ?_⟩
  · rw [htokens]
    exact hrelaid.map_settled
  · rw [formatQuery, htokens, formatQuery, hformat, hformat]
    exact hrelaid.describedFrom_eq rfl rfl

/-- The tokens of a query with one clause. -/
def clauseTokens : List Token :=
  [⟨.name, "a".toList, 0⟩, ⟨.whitespace, " ".toList, 1⟩, ⟨.keyword, "WHERE".toList, 2⟩,
    ⟨.whitespace, " ".toList, 7⟩, ⟨.name, "b".toList, 8⟩]

theorem scan_clause : Sql.scan "a WHERE b".toList = ⟨clauseTokens, .complete⟩ := by
  -- none of the words begins like a keyword of several words
  have hphrase : ∀ {b : Text} {x : Char} {t : Text}, x ∈ "aWb".toList →
      firstMatch? phraseRules ⟨b, x :: t⟩ = none := by
    intro b x t hx
    refine firstMatch?_eq_none_iff.2 fun rule hrule => Rule.end?_eq_none ?_
    have hall : ∀ y ∈ "aWb".toList, ∀ rule ∈ phraseRules, rule.matcher.opens y = false := by decide
    exact hall x hx rule hrule
  have hword : ∀ {b w r : Text} {x : Char} {kind : Kind} {i : Nat}, x ∈ "aWb".toList →
      lead x = .letter → IsRun isWordPart (x :: w) r →
      lexer.resolve .useAsKeyword (x :: w) = kind →
      lexer.next i ⟨b, (x :: w) ++ r⟩ = .token ⟨kind, x :: w, i⟩ ⟨(x :: w).reverse ++ b, r⟩ := by
    intro b w r x kind i hx hlead hrun hkind
    exact next_eq_token_iff_cut.2 ⟨r, rfl, rfl, rfl, .useAsKeyword,
      .word hlead (hphrase hx) hrun, hkind.symm⟩
  have hspace : ∀ {b r : Text} {i : Nat}, r.head?.any isInnerBlank = false →
      lexer.next i ⟨b, " ".toList ++ r⟩ = .token ⟨.whitespace, " ".toList, i⟩ ⟨' ' :: b, r⟩ := by
    intro b r i hr
    exact next_eq_token_iff_cut.2 ⟨r, rfl, rfl, rfl, .whitespace,
      .blanks (by decide) ⟨by decide, hr⟩, rfl⟩
  refine scanFrom_eq (m := 9) (d := ⟨"b EREHW a".toList, []⟩) ?_ rfl
  refine .step (hword (x := 'a') (w := []) (r := " WHERE b".toList) (by decide) (by decide)
    ⟨by decide, by decide⟩ (by decide)) (.step (hspace (by decide)) ?_)
  refine .step (hword (x := 'W') (w := "HERE".toList) (r := " b".toList) (by decide) (by decide)
    ⟨by decide, by decide⟩ (by decide)) (.step (hspace (by decide)) ?_)
  exact .step (hword (x := 'b') (w := []) (r := []) (by decide) (by decide)
    ⟨by decide, by decide⟩ (by decide)) (.done 9 _)

theorem separable_clauseTokens : Separable clauseTokens where
  names := by decide
  points a p c hin ha := by
    have hall : ∀ t ∈ clauseTokens, t.kind ≠ .numberInteger := by decide
    exact absurd ha (hall a (hin.subset List.mem_cons_self))

theorem reindent_preserves_clause :
    (Sql.scan "a WHERE b".toList).ending = .complete ∧ Separable (Sql.tokens "a WHERE b".toList) ∧
      (Sql.scan (formatQuery (reindenting 0) "a WHERE b".toList)).ending = .complete ∧
      ((Sql.tokens (formatQuery (reindenting 0) "a WHERE b".toList)).filter
          (!·.kind.isBlank)).map (fun u => (u.kind, u.value)) =
        ((Sql.tokens "a WHERE b".toList).filter (!·.kind.isBlank)).map
          (fun u => (u.kind, u.settled)) ∧
      formatQuery (reindenting 0) (formatQuery (reindenting 0) "a WHERE b".toList) =
        formatQuery (reindenting 0) "a WHERE b".toList := by
  have hcomplete : (Sql.scan "a WHERE b".toList).ending = .complete := by rw [scan_clause]
  have hseparable : Separable (Sql.tokens "a WHERE b".toList) := by
    rw [Sql.tokens, scan_clause]
    exact separable_clauseTokens
  exact ⟨hcomplete, hseparable, reindent_preserves "a WHERE b".toList 0 hcomplete hseparable⟩

end SqlLayout.Layout
