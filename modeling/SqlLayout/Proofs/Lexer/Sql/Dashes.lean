import SqlLayout.Proofs.Lexer.Sql.Shapes

/-!
# Two hyphens

Two hyphens begin a comment wherever a token starts. Elsewhere a token hides them only if it is a
comment or a string, or a run of signs that began before the first of them (`HoldsDashes`); no token
ends between the two. So outside of such tokens every two hyphens of the text that was cut begin a
comment (`tokenize_dashes`).
-/

namespace SqlLayout.Sql

open Lexer Text

variable {b r s u v v₁ v₂ w g : Text} {t : Token} {kind : Kind} {x y : Char} {k : Nat}

/-! ## Hyphens in numerals -/

/-- No two hyphens stand side by side. -/
def Undashed (w : Text) : Prop := w.IsChain fun x y => x = '-' → y ≠ '-'

theorem Undashed.append (hu : ∀ x ∈ u, x ≠ '-') (hw : Undashed w) : Undashed (u ++ w) := by
  induction u with
  | nil => exact hw
  | cons x u ih =>
    refine List.isChain_cons.2 ⟨fun y _ hx => ?_, ih fun y hy => hu y (List.mem_cons_of_mem x hy)⟩
    exact absurd hx (hu x List.mem_cons_self)

theorem undashed_of_ne (hw : ∀ x ∈ w, x ≠ '-') : Undashed w := by
  have hall := Undashed.append hw List.IsChain.nil
  rwa [List.append_nil] at hall

theorem Digits.ne_hyphen {ds : Text} (h : Digits ds) : ∀ x ∈ ds, x ≠ '-' := by
  rintro x hx rfl
  exact absurd (h '-' hx) (by decide)

theorem Digits.ne_hyphen_point {fs : Text} (h : Digits fs) : ∀ x ∈ '.' :: fs, x ≠ '-' := by
  intro x hx
  rcases List.mem_cons.1 hx with rfl | hx
  · decide
  · exact h.ne_hyphen x hx

theorem IsFraction.ne_hyphen (h : IsFraction w) : ∀ x ∈ w, x ≠ '-' := by
  rcases h with rfl | ⟨fs, rfl, -, hfs⟩
  · intro x hx
    exact absurd hx List.not_mem_nil
  · exact hfs.ne_hyphen_point

theorem IsSign.isExponentSign (h : IsSign s) : IsExponentSign s :=
  h.imp_right fun hs => ⟨'-', by decide, hs⟩

/-- A sign stands alone in front of what begins with no hyphen. -/
theorem IsExponentSign.undashed (hg : IsExponentSign g) (hw : Undashed w)
    (hhead : w.head? ≠ some '-') : Undashed (g ++ w) := by
  rcases hg with rfl | ⟨y, -, rfl⟩
  · exact hw
  · refine List.isChain_cons.2 ⟨fun z hz _ => ?_, hw⟩
    rintro rfl
    exact hhead hz

theorem IsExponentSign.undashed_digits {ds : Text} (hg : IsExponentSign g) (hds : Digits ds)
    (hne : ds ≠ []) : Undashed (g ++ ds) := by
  have hhead := head?_ne_hyphen (r := []) hds (.inl hne)
  rw [List.append_nil] at hhead
  exact hg.undashed (undashed_of_ne hds.ne_hyphen) hhead

/-- After a sign a numeral goes on with a digit or a point. -/
theorem Numeral.undashed (h : Numeral w) : Undashed w := by
  rcases h with ⟨sg, ds, hsg, hne, hds, rfl⟩ | ⟨sg, ds, fs, hsg, hds, hfs, hne, rfl⟩ |
    ⟨sg, ds, f, x, g, es, hsg, hne, hds, hf, hx, hg, hnee, hes, rfl⟩
  · exact hsg.isExponentSign.undashed_digits hds hne
  · have hpoint : Undashed ('.' :: fs) := undashed_of_ne hfs.ne_hyphen_point
    apply hsg.isExponentSign.undashed
    · exact hpoint.append hds.ne_hyphen
    · exact head?_ne_hyphen hds (.inr (by simp))
  · have hletter : ∀ y ∈ [x], y ≠ '-' := by
      have hall : ∀ y ∈ "eE".toList, y ≠ '-' := by decide
      intro y hy
      rw [List.mem_singleton.1 hy]
      exact hall x hx
    have hexponent : Undashed ([x] ++ (g ++ es)) :=
      (hg.undashed_digits hes hnee).append hletter
    apply hsg.isExponentSign.undashed
    · exact (hexponent.append hf.ne_hyphen).append hds.ne_hyphen
    · exact head?_ne_hyphen hds (.inl hne)

/-- A text does not end between two hyphens if its last character is no hyphen. -/
theorem goes_on_of_getLast? (v₁ : Text) (hlast : (v₁ ++ '-' :: v₂).getLast? ≠ some '-')
    (hnext : (v₂ ++ r).head? = some '-') : ∃ u, v₂ = '-' :: u := by
  cases v₂ with
  | nil =>
    rw [List.getLast?_concat] at hlast
    exact absurd rfl hlast
  | cons z u =>
    obtain rfl : z = '-' := Option.some.inj hnext
    exact ⟨u, rfl⟩

/-- So where a numeral has a hyphen no second one follows. -/
theorem Numeral.head?_ne_hyphen (h : Numeral (v₁ ++ '-' :: v₂)) (r : Text) :
    (v₂ ++ r).head? ≠ some '-' := by
  intro hnext
  obtain ⟨u, rfl⟩ : ∃ u, v₂ = '-' :: u := by
    apply goes_on_of_getLast? v₁ ?_ hnext
    intro hlast
    rcases h.isNumeral.ending with hword | ⟨sg, ds, -, -, -, heq⟩
    · rw [hlast] at hword
      exact absurd hword (by decide)
    · rw [heq, ← List.append_assoc, List.getLast?_concat] at hlast
      exact absurd hlast (by decide)
  have hchain := (List.isChain_append.1 h.undashed).2.1
  exact (List.isChain_cons_cons.1 hchain).1 rfl rfl

/-! ## Hyphens in pieces -/

/-- A token of this kind and text may have two hyphens in it. -/
def HoldsDashes (kind : Kind) (v : Text) : Prop :=
  kind = .comment ∨ kind = .string ∨
    kind = .operator ∧ (∀ x ∈ v, isArithmetic x = true) ∧ ¬"--".toList <+: v

/-- A run goes on with the next character of the text if that passes the test, too. -/
theorem IsRun.goes_on {f : Char → Bool} (h : IsRun f (v₁ ++ x :: v₂) r) (hy : f y = true)
    (hnext : (v₂ ++ r).head? = some y) : ∃ u, v₂ = y :: u := by
  cases v₂ with
  | nil =>
    have hstop := h.stops
    rw [show r.head? = some y from hnext, Option.any_some, hy] at hstop
    exact Bool.noConfusion hstop
  | cons z u =>
    obtain rfl : z = y := Option.some.inj hnext
    exact ⟨u, rfl⟩

theorem Phrased.ne_hyphen {ws : List Text} (h : Phrased ws v) (hws : ∀ w ∈ ws, IsWordText w) :
    ∀ x ∈ v, x ≠ '-' := by
  have hword : ∀ {w : Text}, IsWordText w → ∀ x ∈ w, x ≠ '-' := by
    rintro w hw x hx rfl
    exact absurd (hw.2 '-' hx) (by decide)
  induction h with
  | single w => exact hword (hws w List.mem_cons_self)
  | @cons w g v ws _ hg _ ih =>
    intro x hx
    simp only [List.mem_append] at hx
    rcases hx with hx | hx | hx
    · exact hword (hws w List.mem_cons_self) x hx
    · rintro rfl
      exact absurd (hg '-' hx) (by decide)
    · exact ih (fun u hu => hws u (List.mem_cons_of_mem w hu)) x hx

/-- Where a comment begins nothing else is cut. -/
theorem Piece.kind_of_dashes (h : Piece b v r kind) (hdashes : "--".toList <+: v ++ r) :
    kind = .comment := by
  obtain ⟨t, ht⟩ := hdashes
  obtain ⟨v', r', heq, hcomment⟩ := exists_isComment t
  exact (h.unique (.comment hcomment) (ht.symm.trans heq)).2

/-- A piece that goes past a hyphen goes past a second one behind it, too, and it may hold them. -/
theorem Piece.holdsDashes (h : Piece b (v₁ ++ '-' :: v₂) r kind)
    (hnext : (v₂ ++ r).head? = some '-') :
    (∃ u, v₂ = '-' :: u) ∧ HoldsDashes kind (v₁ ++ '-' :: v₂) := by
  have hmem : '-' ∈ v₁ ++ '-' :: v₂ := by simp
  have hquote : ∀ {q : Char} {doubled : Bool} {w : Text}, q ≠ '-' →
      v₁ ++ '-' :: v₂ = q :: w → close? q doubled (w ++ r) = some w → ∃ u, v₂ = '-' :: u := by
    intro q doubled w hq hv hclose
    apply goes_on_of_getLast? v₁ ?_ hnext
    rw [hv, List.getLast?_cons, getLast?_close? hclose]
    simpa using hq
  generalize hv : v₁ ++ '-' :: v₂ = v at h hmem
  cases h with
  | lineEnds _ run => exact absurd (run.all '-' hmem) (by decide)
  | blanks _ run => exact absurd (run.all '-' hmem) (by decide)
  | star => exact absurd hmem (by decide)
  | mark hx =>
    rw [← List.mem_singleton.1 hmem] at hx
    exact absurd hx (by decide)
  | comparison _ run => exact absurd (run.all '-' hmem) (by decide)
  | sign hx run =>
    refine ⟨IsRun.goes_on (hv ▸ run) (by decide) hnext, .inr (.inr ⟨rfl, run.all, ?_⟩)⟩
    rintro ⟨u, hu⟩
    rw [← (List.cons.inj hu).1] at hx
    exact absurd hx (by decide)
  | comment h =>
    refine ⟨?_, .inl rfl⟩
    -- the comment ends its line, or it ends with the text
    rcases h.ends with ⟨x, hx, hlast⟩ | rfl
    · apply goes_on_of_getLast? v₁ ?_ hnext
      rw [hv, hlast]
      rintro heq
      rw [Option.some.inj heq] at hx
      exact absurd hx (by decide)
    · rw [List.append_nil] at hnext
      exact List.head?_eq_some_iff.1 hnext
  | @hyphen _ w hcomment _ run =>
    refine ⟨IsRun.goes_on (hv ▸ run) (by decide) hnext, .inr (.inr ⟨rfl, run.all, ?_⟩)⟩
    intro hdashes
    exact hcomment (hdashes.trans ⟨r, rfl⟩)
  | number _ h =>
    have hnumeral := numeral_of_numberRules h
    rw [← hv] at hnumeral
    exact absurd hnext (hnumeral.head?_ne_hyphen r)
  | point => exact absurd hmem (by decide)
  | singleQuoted h => exact ⟨hquote (by decide) hv h, .inr (.inl rfl)⟩
  | backQuoted h => exact ⟨hquote (by decide) hv h, .inr (.inl rfl)⟩
  | phrase h =>
    obtain ⟨ws, hws, hphrase⟩ := (firstMatch?_phraseRules_iff.1 h).2.row
    exact absurd rfl (hphrase.ne_hyphen (isWordText_of_mem_phraseRows ws hws) '-' hmem)
  | word _ _ run => exact absurd (run.all '-' hmem) (by decide)
  | digits _ _ run => exact absurd (run.all '-' hmem) (by decide)

/-! ## Hyphens in tokens -/

theorem HoldsDashes.resolve (h : HoldsDashes kind v) : lexer.resolve kind v = kind := by
  apply resolve_of_ne
  rintro rfl
  rcases h with h | h | ⟨h, -⟩ <;> exact nomatch h

/-- A token with a hyphen that another one follows goes past both of them and may hold them, and if
it begins with them it is a comment. -/
theorem Cut.dashes (h : Cut b t r) (hv : t.value = v₁ ++ '-' :: v₂)
    (hnext : (v₂ ++ r).head? = some '-') :
    (∃ u, v₂ = '-' :: u) ∧ HoldsDashes t.kind t.value ∧ (v₁ = [] → t.kind = .comment) := by
  obtain ⟨kind, hpiece, hkind⟩ := h
  rw [hv] at hpiece hkind
  obtain ⟨⟨u, rfl⟩, hholds⟩ := hpiece.holdsDashes hnext
  rw [hholds.resolve] at hkind
  rw [hkind, hv]
  refine ⟨⟨u, rfl⟩, hholds, ?_⟩
  rintro rfl
  exact hpiece.kind_of_dashes ⟨u ++ r, rfl⟩

theorem Cut.holdsDashes (h : Cut b t r) (hdashes : "--".toList <:+: t.value) :
    HoldsDashes t.kind t.value := by
  obtain ⟨v₁, u, hv⟩ := hdashes
  have hsplit : t.value = v₁ ++ '-' :: ('-' :: u) := by
    rw [← hv, List.append_assoc]
    rfl
  exact (h.dashes hsplit rfl).2.1

/-- Two hyphens in the text that was cut begin a comment, or a token that began before them and may
hold them goes past both. -/
theorem exists_comment_or_holdsDashes (hk : k < reach (tokens s))
    (hdashes : "--".toList <+: s.drop k) :
    (∃ t ∈ tokens s, t.offset = k ∧ t.kind = .comment) ∨
      ∃ t ∈ tokens s, t.offset < k ∧ k + 2 ≤ t.stop ∧ HoldsDashes t.kind t.value := by
  obtain ⟨t, ht, w, u, hvalue, hne, hplace, hdrop⟩ := exists_mem_scan_within hk
  obtain ⟨-, hcut⟩ := cut_of_mem_tokens ht
  obtain ⟨x, v, rfl⟩ := List.exists_cons_of_ne_nil hne
  obtain ⟨rest, hrest⟩ := hdashes
  have hboth : '-' :: '-' :: rest = x :: (v ++ s.drop t.stop.toNat) := hrest.trans hdrop
  obtain ⟨rfl, hsecond⟩ := List.cons.inj hboth
  have hnext : (v ++ s.drop t.stop.toNat).head? = some '-' := by
    rw [← hsecond]
    rfl
  obtain ⟨⟨u, rfl⟩, hholds, hstart⟩ := hcut.dashes hvalue hnext
  by_cases hw : w = []
  · subst hw
    exact .inl ⟨t, ht, by simpa using hplace.symm, hstart rfl⟩
  · have hpos := List.length_pos_iff.2 hw
    refine .inr ⟨t, ht, by omega, ?_, hholds⟩
    rw [Token.stop, hvalue, List.length_append, List.length_cons, List.length_cons]
    omega

/-- In the tokens of a query two hyphens stand only in comments and strings, and in runs of signs
that do not begin with them. Outside of these every two hyphens of the text that was cut begin a
comment, and a comment goes to the end of its line or of the text. -/
theorem tokenize_dashes (s : Text) :
    ∃ ts, lexer.tokenize s false = .ok ts ∧
      (∀ t ∈ ts, "--".toList <:+: t.value → HoldsDashes t.kind t.value) ∧
      (∀ k < reach ts, "--".toList <+: s.drop k →
        (∃ t ∈ ts, t.offset = k ∧ t.kind = .comment) ∨
          ∃ t ∈ ts, t.offset < k ∧ k + 2 ≤ t.stop ∧ HoldsDashes t.kind t.value) ∧
      ∀ t ∈ ts, t.kind = .comment → IsComment t.value (s.drop t.stop.toNat) := by
  refine ⟨tokens s, tokenize_eq_ok resolved s, ?_, ?_, ?_⟩
  · intro t ht hdashes
    exact (cut_of_mem_tokens ht).2.holdsDashes hdashes
  · intro k hk hdashes
    exact exists_comment_or_holdsDashes hk hdashes
  · intro t ht hkind
    exact (cut_of_mem_tokens ht).2.isComment hkind

/-- Signs in front of two hyphens hide them: no comment begins there. -/
theorem tokenize_dashes_signRun :
    lexer.tokenize "a+--b".toList false =
        .ok [⟨.name, "a".toList, 0⟩, ⟨.operator, "+--".toList, 1⟩, ⟨.name, "b".toList, 4⟩] ∧
      ¬∀ s ts, lexer.tokenize s false = .ok ts →
        (∀ t ∈ ts, "--".toList <:+: t.value → t.kind = .comment ∨ t.kind = .string) ∧
          ∀ k < reach ts, "--".toList <+: s.drop k →
            (∃ t ∈ ts, t.offset = k ∧ t.kind = .comment) ∨
              ∃ t ∈ ts, t.offset < k ∧ k < t.stop ∧ (t.kind = .comment ∨ t.kind = .string) := by
  have hok : lexer.tokenize "a+--b".toList false =
      .ok [⟨.name, "a".toList, 0⟩, ⟨.operator, "+--".toList, 1⟩, ⟨.name, "b".toList, 4⟩] := by
    rw [tokenize_eq_ok resolved]
    decide +kernel
  refine ⟨hok, fun h => ?_⟩
  obtain ⟨hkinds, -⟩ := h _ _ hok
  have hrun := hkinds ⟨.operator, "+--".toList, 1⟩ (by simp) (by decide)
  exact absurd hrun (by decide)

end SqlLayout.Sql
