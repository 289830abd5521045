import SqlLayout.Proofs.Lexer.Sql.Edges
import SqlLayout.Proofs.Lexer.Sql.Stopping
import SqlLayout.Proofs.Lexer.Starts

/-!
# Tokens between their neighbours

`Cut b t r` says that a token of this kind and text is cut between `b` and `r`. A token that is no
blank is cut between other blanks as well, with single spaces if it is a keyword (`Cut.carried`),
and blanks are cut however they lie (`exists_cuts_gap`). The tokens of a query are cut between what
stands before and after them, and where one may start it is what is cut there
(`mem_tokens_iff_cut`).
-/

namespace SqlLayout

/-- The text of a token, a keyword with single spaces. -/
def Token.settled (t : Token) : Text := if t.kind.isKeyword then Text.collapse t.value else t.value

namespace Sql

open Lexer Text

variable {b b' r r' g s : Text} {p : Bool} {t : Token} {n : Nat}

/-! ## Cut tokens -/

/-- A token of this kind and text is cut between these texts. -/
def Cut (b : Text) (t : Token) (r : Text) : Prop :=
  ∃ kind, Piece b t.value r kind ∧ t.kind = lexer.resolve kind t.value

theorem next_eq_token_iff_cut {e : Cursor} :
    lexer.next n ⟨b, s⟩ = .token t e ↔
      ∃ r, s = t.value ++ r ∧ e = ⟨t.value.reverse ++ b, r⟩ ∧ t.offset = n ∧ Cut b t r := by
  constructor
  · intro h
    obtain ⟨hread, hne, hoffset⟩ := reads_of_next h
    obtain ⟨r, rfl, rfl⟩ := Cursor.reads_iff.1 hread
    obtain ⟨kind, hm, -, -, ht⟩ := next_eq_token_iff.1 h
    rw [hread.upTo_eq] at ht
    exact ⟨r, rfl, rfl, hoffset, kind, piece_of_firstMatch? hne hm, congrArg Token.kind ht⟩
  · rintro ⟨r, rfl, rfl, hoffset, kind, hpiece, hkind⟩
    have hm := hpiece.firstMatch?
    have hupTo := (Cursor.Reads.over b t.value r).upTo_eq
    refine next_eq_token_iff.2 ⟨kind, hm, kind_of_firstMatch? hm, resolved.resolve_ne _ _, ?_⟩
    rw [hupTo, ← hkind, ← hoffset]

theorem Cut.ne_nil (h : Cut b t r) : t.value ≠ [] :=
  let ⟨_, hpiece, _⟩ := h
  hpiece.ne_nil

/-- A token is laid out with the text of its piece, and its kind is that of the piece or the one
that a word is given. -/
theorem Cut.exists_piece (h : Cut b t r) :
    ∃ kind, Piece b t.value r kind ∧ t.settled = settled kind t.value ∧
      (kind = t.kind ∧ t.kind ∉ [.name, .keywordCte, .useAsKeyword] ∨
        kind = .useAsKeyword ∧ t.kind = lexer.resolve .useAsKeyword t.value ∧
          t.kind ∈ wordKinds) := by
  obtain ⟨kind, hpiece, hkind⟩ := h
  by_cases hword : kind = .useAsKeyword
  · subst hword
    refine ⟨_, hpiece, ?_, .inr ⟨rfl, hkind, hkind ▸ resolve_word_mem t.value⟩⟩
    have hsettled : settled .useAsKeyword t.value = t.value := rfl
    rw [Token.settled, hsettled]
    split
    · -- even as a keyword a single word has no blanks to collapse
      exact collapse_of_isSolid hpiece.ne_nil hpiece.isSolid_of_word
    · rfl
  · rw [resolve_of_ne hword] at hkind
    subst hkind
    have hnot := hpiece.kind_not_mem
    simp only [List.mem_cons, List.not_mem_nil, or_false, not_or] at hnot
    refine ⟨_, hpiece, ?_, .inl ⟨rfl, ?_⟩⟩
    · rw [Token.settled, settled, Kind.isKeyword]
      by_cases hkeyword : t.kind = .keyword <;> simp [hkeyword, hnot.2]
    · simp only [List.mem_cons, List.not_mem_nil, or_false, not_or]
      exact ⟨hnot.1, hnot.2, hword⟩

theorem Cut.isEdged (h : Cut b t r) (hblank : t.kind.isBlank = false) :
    IsEdged t.value r t.kind := by
  obtain ⟨kind, hpiece, -, ⟨rfl, -⟩ | ⟨rfl, -, -⟩⟩ := h.exists_piece
  · exact hpiece.isEdged hblank
  · obtain ⟨hhead, hlast, hstops⟩ := hpiece.isEdged rfl
    exact ⟨hhead, .inr (hlast.resolve_left (by simp)), hstops⟩

/-- The texts of blank tokens are gaps. -/
theorem Cut.isGap (h : Cut b t r) (hblank : t.kind.isBlank = true) : IsGap t.value := by
  obtain ⟨kind, hpiece, -, ⟨rfl, -⟩ | ⟨-, -, hword⟩⟩ := h.exists_piece
  · have hnot : ∀ {kind : Kind} {l : List Kind}, kind.isBlank = true →
        (∀ k ∈ l, k.isBlank = false) → kind ∉ l := by
      intro kind l hkind hl hmem
      rw [hl kind hmem] at hkind
      exact Bool.noConfusion hkind
    generalize t.kind = kind at hpiece hblank
    generalize t.value = v at hpiece
    cases hpiece with
    | lineEnds _ run =>
      exact fun x hx => isBlank_of_mem_lineEnds (of_decide_eq_true (run.all x hx))
    | blanks _ run =>
      intro x hx
      have hall := run.all x hx
      simp only [isInnerBlank, Bool.and_eq_true] at hall
      exact hall.1.1
    | number _ h => exact absurd (kind_of_numberRules h) (hnot hblank (by decide))
    | phrase h =>
      rw [kind_of_phraseRules h] at hblank
      exact absurd hblank (by decide)
    | _ => exact absurd hblank (by decide)
  · have hall : ∀ k ∈ wordKinds, k.isBlank = false := by decide
    rw [hall _ hword] at hblank
    exact Bool.noConfusion hblank

/-- A word or phrase begins with a letter, unless it is a name that begins with a digit. -/
theorem Cut.letter (h : Cut b t r) (hkind : t.kind ∈ wordKinds)
    (hdigit : t.kind = .name → t.value.head?.any isDigit = false) :
    ∃ x w, t.value = x :: w ∧ isWord x = true ∧ isDigit x = false := by
  have hletter : ∀ {x : Char}, lead x = .letter → isWord x = true ∧ isDigit x = false :=
    fun hx => fits_of_lead hx
  obtain ⟨kind, hpiece, -, ⟨rfl, hnot⟩ | ⟨rfl, hresolve, -⟩⟩ := h.exists_piece
  · have hkeyword : t.kind = .keyword := by
      simp only [wordKinds, List.mem_cons, List.not_mem_nil, or_false, not_or] at hkind hnot
      exact (hkind.resolve_left hnot.1).resolve_right hnot.2.1
    rw [hkeyword] at hpiece
    generalize t.value = v at hpiece
    cases hpiece with
    | number _ h => simpa using kind_of_numberRules h
    | phrase h =>
      obtain ⟨x, w, rfl⟩ := List.exists_cons_of_ne_nil (Piece.phrase h).ne_nil
      exact ⟨x, w, rfl, hletter (lead_of_phraseRules (t := w ++ r) h)⟩
  · generalize hv : t.value = v at hpiece
    cases hpiece with
    | number _ h => simpa using kind_of_numberRules h
    | phrase h => simpa using kind_of_phraseRules h
    | word hx _ _ => exact ⟨_, _, rfl, hletter hx⟩
    | digits hx _ _ =>
      have hx : isDigit _ = true := fits_of_lead hx
      rw [hv, resolve_word_of_isDigit hx] at hresolve
      have hfirst := hdigit hresolve
      rw [hv, List.head?_cons, Option.any_some, hx] at hfirst
      exact Bool.noConfusion hfirst

/-- A comment begins with a hyphen, and it ends its line or the text. -/
theorem Cut.isComment (h : Cut b t r) (hkind : t.kind = .comment) : IsComment t.value r := by
  obtain ⟨kind, hpiece, -, ⟨rfl, -⟩ | ⟨-, -, hword⟩⟩ := h.exists_piece
  · rw [hkind] at hpiece
    generalize t.value = v at hpiece
    cases hpiece with
    | comment h => exact h
    | number _ h => simpa using kind_of_numberRules h
    | phrase h => simpa using kind_of_phraseRules h
  · rw [hkind] at hword
    exact absurd hword (by decide)

theorem Cut.head?_settled (h : Cut b t r) : t.settled.head? = t.value.head? := by
  obtain ⟨kind, hpiece, hsettled, -⟩ := h.exists_piece
  rw [hsettled]
  exact hpiece.head?_settled

theorem Cut.getLast?_settled (h : Cut b t r) : t.settled.getLast? = t.value.getLast? := by
  obtain ⟨kind, hpiece, hsettled, -⟩ := h.exists_piece
  rw [hsettled]
  exact hpiece.getLast?_settled

theorem Cut.settled_ne_nil (h : Cut b t r) : t.settled ≠ [] := by
  intro hnil
  have hlast := h.getLast?_settled
  rw [hnil] at hlast
  exact h.ne_nil (List.getLast?_eq_none_iff.1 hlast.symm)

theorem Cut.respaced_settled (h : Cut b t r) (hr : Respaced (t.value.getLast?.elim p isWord) r r') :
    Respaced p (t.value ++ r) (t.settled ++ r') := by
  obtain ⟨kind, hpiece, hsettled, -⟩ := h.exists_piece
  rw [hsettled]
  exact hpiece.respaced_settled hr

/-- A token that is no blank is cut between other blanks, too. -/
theorem Cut.carried (h : Cut b t r) (hblank : t.kind.isBlank = false)
    (hafter : t.kind ≠ .comment → Respaced (t.value.getLast?.any isWord) r r')
    (hcomment : t.kind = .comment → r'.head? ≠ some '\n' ∧ (r = [] → r' = []))
    (hbehind : t.kind ∉ .comment :: wordKinds → t.isMark ')' = false →
      (Untouched b ↔ Untouched b'))
    (hwhole : Untouched b → ¬Severed (t.value ++ r))
    (hdigit : t.kind = .name → t.value.head?.any isDigit = false) (k : Int) :
    Cut b' ⟨t.kind, t.settled, k⟩ r' := by
  have hletter := h.letter
  obtain ⟨kind, hpiece, hsettled, ⟨rfl, hnot⟩ | ⟨rfl, hresolve, hword⟩⟩ := h.exists_piece
  · -- the piece has the kind of its token, which is no kind of a single word
    have hsolid : t.kind ≠ .useAsKeyword := fun heq => hnot (by simp [heq])
    have hcarries : Carries t.value t.kind b r b' r' := by
      refine ⟨hafter, hcomment, fun hothers hmark => hbehind ?_ ?_, hwhole, fun heq => ?_⟩
      · simp only [wordKinds, List.mem_cons, List.not_mem_nil, or_false, not_or] at hnot hothers ⊢
        exact ⟨hothers.1, hnot.1, hothers.2.2, hnot.2.1⟩
      · rw [Token.isMark, Bool.and_eq_false_iff]
        exact .inr (by simpa using hmark)
      · exact absurd heq hsolid
    refine ⟨t.kind, ?_, (resolve_of_ne hsolid _).symm⟩
    show Piece b' t.settled r' t.kind
    rw [hsettled]
    exact hpiece.carried hblank hcarries
  · -- a word needs nothing behind it, and no keyword begins with a digit
    have hcarries : Carries t.value .useAsKeyword b r b' r' := by
      refine ⟨fun _ => hafter ?_, by simp, by simp, hwhole, fun _ => ?_⟩
      · intro heq
        rw [heq] at hword
        exact absurd hword (by decide)
      · obtain ⟨x, w, hv, -, hx⟩ := hletter hword hdigit
        rw [hv, List.head?_cons, Option.any_some, hx]
    have hsame : t.settled = t.value := hsettled
    refine ⟨.useAsKeyword, ?_, ?_⟩
    · show Piece b' t.settled r' .useAsKeyword
      rw [hsettled]
      exact hpiece.carried rfl hcarries
    · show t.kind = lexer.resolve .useAsKeyword t.settled
      rw [hsame]
      exact hresolve

/-! ## Tokens at their starts -/

/-- A token of a query is cut between what stands before and after it. -/
theorem cut_of_mem_tokens (h : t ∈ tokens s) :
    s.drop t.offset.toNat = t.value ++ s.drop t.stop.toNat ∧
      Cut (s.take t.offset.toNat).reverse t (s.drop t.stop.toNat) := by
  obtain ⟨r, hs, he, -, hcut⟩ := next_eq_token_iff_cut.1 (next_of_mem_scan h)
  obtain rfl : s.drop t.stop.toNat = r := congrArg Cursor.rest he
  exact ⟨hs, hcut⟩

/-- At a start the query has the token that is cut there. -/
theorem mem_tokens_iff_cut (hn : IsStart (tokens s) n) :
    t ∈ tokens s ∧ t.offset = n ↔
      t.offset = n ∧ ∃ r, s.drop n = t.value ++ r ∧ Cut (s.take n).reverse t r := by
  rw [tokens, scan, mem_scan_iff_next resolved hn]
  constructor
  · rintro ⟨e, hnext⟩
    obtain ⟨r, hs, -, hoffset, hcut⟩ := next_eq_token_iff_cut.1 hnext
    exact ⟨hoffset, r, hs, hcut⟩
  · rintro ⟨hoffset, r, hs, hcut⟩
    exact ⟨_, next_eq_token_iff_cut.2 ⟨r, hs, rfl, hoffset, hcut⟩⟩

/-! ## Gaps -/

/-- A blank begins a run of line ends or a run of other blanks. -/
theorem exists_blankRun {x : Char} (hx : isBlank x = true) :
    ∃ (f : Char → Bool) (kind : Kind), f x = true ∧ (∀ y, f y = true → isBlank y = true) ∧
      kind.isBlank = true ∧
      ∀ {b v r : Text} {k : Int}, IsRun f (x :: v) r → Cut b ⟨kind, x :: v, k⟩ r := by
  by_cases hline : x ∈ "\r\n".toList
  · refine ⟨fun y => decide (y ∈ "\r\n".toList), .newline, decide_eq_true hline,
      fun y hy => isBlank_of_mem_lineEnds (of_decide_eq_true hy), rfl, fun run => ?_⟩
    exact ⟨.newline, .lineEnds (by rw [lead, if_pos hline]) run, rfl⟩
  · have hlead := lead_of_isBlank hx hline
    refine ⟨isInnerBlank, .whitespace, isInnerBlank_of_lead hlead, fun y hy => ?_, rfl,
      fun run => ?_⟩
    · simp only [isInnerBlank, Bool.and_eq_true] at hy
      exact hy.1.1
    · exact ⟨.whitespace, .blanks hlead run, rfl⟩

/-- Before a text that begins with no blank, a part of a gap is cut into a blank token. -/
theorem exists_cut_gap (hg : IsGap g) (hne : g ≠ []) (hr : r.head?.any isBlank = false) (b : Text)
    (k : Int) :
    ∃ u w, g = u.value ++ w ∧ u.kind.isBlank = true ∧ u.offset = k ∧ Cut b u (w ++ r) := by
  obtain ⟨x, g, rfl⟩ := List.exists_cons_of_ne_nil hne
  obtain ⟨f, kind, hfx, hf, hkind, hcut⟩ := exists_blankRun (hg x List.mem_cons_self)
  refine ⟨⟨kind, x :: g.takeWhile f, k⟩, g.dropWhile f, ?_, hkind, rfl, hcut ⟨?_, ?_⟩⟩
  · rw [List.cons_append, List.takeWhile_append_dropWhile]
  · intro y hy
    rcases List.mem_cons.1 hy with rfl | hy
    · exact hfx
    · exact List.all_eq_true.1 List.all_takeWhile y hy
  · -- the run ends where another sort of blank begins, or with the gap
    have hstop := List.head?_dropWhile_not f g
    cases hdrop : g.dropWhile f with
    | nil => exact any_eq_false_of_imp hf hr
    | cons y u =>
      rw [hdrop] at hstop
      simpa using hstop

/-- So the whole gap is cut into blank tokens. -/
theorem exists_cuts_gap (hg : IsGap g) (hr : r.head?.any isBlank = false) (b : Text) (n : Nat) :
    ∃ gs, Cuts lexer n ⟨b, g ++ r⟩ gs (n + g.length) ⟨g.reverse ++ b, r⟩ ∧
      ∀ u ∈ gs, u.kind.isBlank = true := by
  -- one token for each run of blanks of one sort
  induction hn : g.length using Nat.strongRecOn generalizing g b n with
  | ind len ih =>
    subst hn
    by_cases hne : g = []
    · subst hne
      exact ⟨[], .done n ⟨b, r⟩, by simp⟩
    · obtain ⟨u, w, rfl, hblank, hoffset, hcut⟩ := exists_cut_gap hg hne hr b n
      have hw : IsGap w := fun y hy => hg y (List.mem_append_right u.value hy)
      have hlen : w.length < (u.value ++ w).length := by
        have := List.length_pos_iff.2 hcut.ne_nil
        rw [List.length_append]
        omega
      obtain ⟨gs, hcuts, hgs⟩ := ih w.length hlen hw (u.value.reverse ++ b) (n + u.value.length) rfl
      have hnext : lexer.next n ⟨b, u.value ++ w ++ r⟩ =
          .token u ⟨u.value.reverse ++ b, w ++ r⟩ :=
        next_eq_token_iff_cut.2 ⟨w ++ r, by simp, rfl, hoffset, hcut⟩
      refine ⟨u :: gs, .step hnext ?_, ?_⟩
      · rw [List.length_append, ← Nat.add_assoc, List.reverse_append, List.append_assoc]
        exact hcuts
      · intro y hy
        rcases List.mem_cons.1 hy with rfl | hy
        · exact hblank
        · exact hgs y hy

/-! ## Severed letters -/

theorem lead_of_letter {y : Char} (hword : isWord y = true) (hdigit : isDigit y = false) :
    lead y = .letter := by
  have hlead := lead_of_isWord hword
  simp only [List.mem_cons, List.not_mem_nil, or_false] at hlead
  refine hlead.resolve_left fun h => ?_
  rw [show isDigit y = true from fits_of_lead h] at hdigit
  exact Bool.noConfusion hdigit

section Severed

variable {sg ds w : Text} {y : Char} {e : Cursor}

/-- Neither digits nor an exponent follow the point. -/
theorem not_mem_exponentForms_severed (hsg : IsSign sg) (hne : ds ≠ []) (hds : Digits ds)
    (hdigit : isDigit y = false) {v : Text} (hv : v ∈ exponentForms) :
    v ++ e.rest ≠ sg ++ ds ++ '.' :: y :: w := by
  obtain ⟨s, es, f, x, g, xs, hs, hne', hes, hf, hx, -, -, -, rfl⟩ := hv
  intro heq
  simp only [List.append_assoc, List.cons_append] at heq
  have hstop : NoDigit (f ++ x :: (g ++ (xs ++ e.rest))) := by
    rcases hf with rfl | ⟨fs, rfl, -, -⟩
    · exact noDigit_cons (isDigit_of_mem_exponentLetters hx) _
    · exact noDigit_cons (by decide) _
  obtain ⟨-, -, hrest⟩ := signed_unique hsg hs hds hes (noDigit_cons (by decide) _) hstop
    (.inl hne) (.inl hne') heq.symm
  rcases hf with rfl | ⟨fs, rfl, hfne, hfs⟩
  · exact ne_point_of_mem_exponentLetters hx (List.cons.inj hrest).1.symm
  · exact hfs.append_ne hfne hdigit (List.cons.inj hrest).2.symm

/-- A number that ends with its point would be touched by the letter. -/
theorem touched_of_mem_pointForms_severed (hsg : IsSign sg) (hne : ds ≠ []) (hds : Digits ds)
    (hword : isWord y = true) (hdigit : isDigit y = false) {v : Text} (hv : v ∈ pointForms)
    (heq : v ++ e.rest = sg ++ ds ++ '.' :: y :: w) : ¬Untouched e.rest := by
  obtain ⟨s, es, fs, hs, hes, hfs, -, rfl⟩ := hv
  simp only [List.append_assoc, List.cons_append] at heq
  obtain ⟨-, -, hrest⟩ := signed_unique hsg hs hds hes (noDigit_cons (by decide) _)
    (noDigit_cons (by decide) _) (.inl hne) (.inr (by simp)) heq.symm
  by_cases hfne : fs = []
  · rw [hfne, List.nil_append] at hrest
    rw [← (List.cons.inj hrest).2, Untouched, List.head?_cons, Option.any_some,
      isBoundary_of_isWord hword]
    exact Bool.noConfusion
  · exact absurd (List.cons.inj hrest).2.symm (hfs.append_ne hfne hdigit)

/-- Before a point and a letter digits are read as a whole number. -/
theorem firstMatch?_numberRules_severed (hb : Untouched b) (hsg : IsSign sg) (hne : ds ≠ [])
    (hds : Digits ds) (hword : isWord y = true) (hdigit : isDigit y = false) :
    firstMatch? numberRules ⟨b, sg ++ ds ++ '.' :: y :: w⟩ =
      some (.numberInteger, ⟨(sg ++ ds).reverse ++ b, '.' :: y :: w⟩) := by
  refine firstMatch?_eq_some_iff.2 ⟨[exponentNumber, pointNumber], wholeNumber, [], rfl, ?_, ?_, rfl⟩
  · intro rule hrule
    rw [Option.eq_none_iff_forall_not_mem]
    intro e he
    simp only [List.mem_cons, List.not_mem_nil, or_false] at hrule
    rcases hrule with rfl | rfl
    · obtain ⟨-, v, hv, hread, -⟩ := readsNumeral_exponent.end?_eq_some_iff.1 he
      exact not_mem_exponentForms_severed hsg hne hds hdigit hv hread.rest_eq.symm
    · obtain ⟨-, v, hv, hread, hafter⟩ := readsNumeral_point.end?_eq_some_iff.1 he
      exact touched_of_mem_pointForms_severed hsg hne hds hword hdigit hv hread.rest_eq.symm hafter
  · exact readsNumeral_whole.end?_eq_some_iff.2
      ⟨hb, sg ++ ds, ⟨sg, ds, hsg, hne, hds, rfl⟩, .over b (sg ++ ds) _,
        (by decide : isBoundary '.' = false)⟩

theorem cut_wholeNumber_severed (hb : Untouched b) (hsg : IsSign sg) (hne : ds ≠ [])
    (hds : Digits ds) (hword : isWord y = true) (hdigit : isDigit y = false) (k : Int) :
    Cut b ⟨.numberInteger, sg ++ ds, k⟩ ('.' :: y :: w) := by
  have hmatch := firstMatch?_numberRules_severed (w := w) hb hsg hne hds hword hdigit
  refine ⟨.numberInteger, .number ?_ hmatch, rfl⟩
  -- a digit stands at the start or after the sign, so no comment begins here
  obtain ⟨z, ds, rfl⟩ := List.exists_cons_of_ne_nil hne
  have hz : z ≠ '-' := by
    rintro rfl
    exact absurd (hds '-' List.mem_cons_self) (by decide)
  rintro ⟨u, hu⟩
  rcases hsg with rfl | rfl
  · exact hz (List.cons.inj hu).1.symm
  · exact hz (List.cons.inj (List.cons.inj hu).2).1.symm

/-- A number does not begin after a digit. -/
theorem firstMatch?_numberRules_eq_none (h : ¬Untouched b) (t : Text) :
    firstMatch? numberRules ⟨b, t⟩ = none := by
  rw [firstMatch?_eq_none_iff]
  intro rule hrule
  obtain ⟨L, hreads⟩ := exists_readsNumeral hrule
  rw [Option.eq_none_iff_forall_not_mem]
  intro e he
  exact h (hreads.end?_eq_some_iff.1 he).1

/-- So a point after digits is cut as a mark. -/
theorem cut_point_of_digits (hne : ds ≠ []) (hds : Digits ds) (sg b r : Text) (k : Int) :
    Cut ((sg ++ ds).reverse ++ b) ⟨.punctuation, ['.'], k⟩ r := by
  refine ⟨.punctuation, .point (firstMatch?_numberRules_eq_none ?_ _), rfl⟩
  have hboundary := isBoundary_of_isWord (isWord_of_isDigit (hds _ (List.getLast_mem hne)))
  rw [Untouched, List.reverse_append, List.append_assoc, List.head?_append, List.head?_reverse,
    List.getLast?_eq_some_getLast hne, Option.some_or, Option.any_some, hboundary]
  exact Bool.noConfusion

/-- Where a letter stands, a word or a phrase is cut. -/
theorem kind_mem_wordKinds_of_next {t : Token} (hlead : lead y = .letter)
    (hnext : lexer.next n ⟨b, y :: w⟩ = .token t e) : t.kind ∈ wordKinds := by
  obtain ⟨kind, hm, -, -, rfl⟩ := next_eq_token_iff.1 hnext
  change firstMatch? rules _ = _ at hm
  show lexer.resolve kind _ ∈ wordKinds
  rw [firstMatch?_letter hlead] at hm
  cases hphrase : firstMatch? phraseRules ⟨b, y :: w⟩ with
  | none =>
    rw [hphrase, Option.none_or, Option.some.injEq, Prod.mk.injEq] at hm
    rw [← hm.1]
    exact resolve_word_mem _
  | some found =>
    rw [hphrase, Option.some_or, Option.some.injEq] at hm
    subst hm
    rw [kind_of_phraseRules hphrase, resolve_of_ne (by simp)]
    exact (by decide : Kind.keyword ∈ wordKinds)

end Severed

/-- Where a letter is severed, a whole number, a point and a word are cut. -/
theorem Severed.exists_cuts {ts : List Token} {m : Nat} {d : Cursor} (h : Severed s)
    (hb : Untouched b) (hcuts : Cuts lexer n ⟨b, s⟩ ts m d) (hend : d.rest = []) :
    ∃ a p c us, ts = a :: p :: c :: us ∧ a.kind = .numberInteger ∧ p.isMark '.' = true ∧
      c.kind ∈ wordKinds := by
  obtain ⟨sg, ds, y, w, hsg, hne, hds, hword, hdigit, rfl⟩ := h
  rw [← List.append_assoc] at hcuts
  have hnumber := cut_wholeNumber_severed (w := w) hb hsg hne hds hword hdigit n
  obtain ⟨us, rfl, hrest⟩ := hcuts.exists_eq_cons hend
    (next_eq_token_iff_cut.2 ⟨_, rfl, rfl, rfl, hnumber⟩)
  have hpoint := cut_point_of_digits hne hds sg b (y :: w) (n + (sg ++ ds).length : Nat)
  obtain ⟨us, rfl, hmore⟩ := hrest.exists_eq_cons hend
    (next_eq_token_iff_cut.2 ⟨_, rfl, rfl, rfl, hpoint⟩)
  cases hmore with
  | done n c => exact absurd hend (List.cons_ne_nil y w)
  | @step _ _ _ _ e c us hnext _ =>
    exact ⟨_, _, c, us, rfl, rfl, rfl,
      kind_mem_wordKinds_of_next (lead_of_letter hword hdigit) hnext⟩

end Sql

end SqlLayout
