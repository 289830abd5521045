import SqlLayout.Proofs.Lexer.Sql.Standing

/-!
# What a token tells of itself

Of the many forms a token can have, its first and last characters and its kind tell enough: what
begins with a letter is a word or a phrase, signs, comparisons and quoted texts end only where they do
not go on (`Closing`), and a number is the longest numeral that nothing touches. A place has only one
token.
-/

namespace SqlLayout.Sql

open Lexer Text

variable {b r v : Text} {t : Token} {kind : Kind} {x : Char}

/-! ## The last character -/

/-- A quoted text with a quote behind it ends where no other quote comes later. -/
theorem not_mem_of_close? {q : Char} {w u : Text} (h : close? q true (w ++ q :: u) = some w) :
    q ∉ u := by
  generalize ht : w ++ q :: u = t at h
  fun_induction close? q true t generalizing w with
  | case1 => simp at ht
  | case2 =>
    obtain rfl := Option.some.inj h
    simp at ht
  | case3 => simp at h
  | case4 c d t hpair ih =>
    obtain ⟨w, hw, rfl⟩ := Option.map_eq_some_iff.1 h
    exact ih (List.cons.inj (List.cons.inj ht).2).2 hw
  | case5 d t hpair =>
    obtain rfl := Option.some.inj h
    obtain ⟨rfl, rfl⟩ := List.cons.inj (List.cons.inj ht).2
    exact fun hlater => hpair ⟨rfl, .inr ⟨rfl, rfl⟩, hlater⟩
  | case6 c d t hpair hc ih =>
    obtain ⟨w, hw, rfl⟩ := Option.map_eq_some_iff.1 h
    exact ih (List.cons.inj ht).2 hw

/-- How a piece ends that is no comment. Runs and quoted texts tell what follows them, words and
numbers have a word character at an end. -/
inductive Closing (v r : Text) (x : Char) : Prop
  | blank (hx : isBlank x = true)
  | closer (hx : x ∈ "\r\n*.;()[],`".toList)
  | comparison (run : IsRun (fun y => decide (y ∈ "<>=~!".toList)) v r)
  | signs (run : IsRun isArithmetic v r)
  | quoted {w : Text} (hv : v = '\'' :: w) (h : close? '\'' true (w ++ r) = some w)
  | word (hhead : v.head?.any isWord = true) (hrun : ∀ y ∈ v, isWordPart y = true)
  | ended (hx : isWord x = true)

theorem Piece.closing (h : Piece b v r kind) (hcomment : kind ≠ .comment)
    (hlast : v.getLast? = some x) : Closing v r x := by
  have hmem : x ∈ v := List.mem_of_getLast? hlast
  have hlisted : ∀ {l : Text}, x ∈ l → (∀ y ∈ l, y ∈ "\r\n*.;()[],`".toList) → Closing v r x :=
    fun hx hl => .closer (hl x hx)
  have hword : v.getLast?.any isWord = true → Closing v r x := by
    intro hend
    rw [hlast] at hend
    exact .ended hend
  cases h with
  | comment => exact absurd rfl hcomment
  | lineEnds _ run => exact hlisted (of_decide_eq_true (run.all x hmem)) (by decide)
  | blanks _ run =>
    have hinner := run.all x hmem
    simp only [isInnerBlank, Bool.and_eq_true] at hinner
    exact .blank hinner.1.1
  | comparison _ run => exact .comparison run
  | star | point => exact hlisted hmem (by decide)
  | mark hm =>
    have hmark : x ∈ ";()[],".toList := List.mem_singleton.1 hmem ▸ fits_of_lead hm
    exact hlisted hmark (by decide)
  | singleQuoted h => exact .quoted rfl h
  | backQuoted h =>
    obtain rfl : '`' = x := by simpa [List.getLast?_cons, getLast?_close? h] using hlast
    exact .closer (by decide)
  | number _ h =>
    obtain ⟨-, -, hnumeral⟩ := untouched_of_numberRules h
    rcases hnumeral.ending with hend | ⟨sg, ds, -, -, -, rfl⟩
    · exact hword hend
    · obtain rfl : '.' = x := by
        rw [← List.append_assoc, List.getLast?_concat] at hlast
        exact Option.some.inj hlast
      exact .closer (by decide)
  | sign _ run => exact .signs run
  | hyphen _ _ run => exact .signs run
  | word hx _ run => exact .word (fits_of_lead hx).1 run.all
  | digits hx _ run => exact .word (isWord_of_isDigit (fits_of_lead hx)) run.all
  | phrase h => exact hword (isPhrase_of_phraseRules h).last

theorem Cut.closing (h : Cut b t r) (hcomment : t.kind ≠ .comment)
    (hlast : t.value.getLast? = some x) : Closing t.value r x := by
  obtain ⟨kind, hpiece, hkind⟩ := h
  refine hpiece.closing ?_ hlast
  rintro rfl
  exact hcomment (hkind.trans (resolve_of_ne (by decide) _))

/-- A run of signs ends only where no sign follows. -/
theorem Cut.stops_of_signs (h : Cut b t r) (hcomment : t.kind ≠ .comment)
    (hsigns : ∀ y ∈ t.value, isArithmetic y = true) : r.head?.any isArithmetic = false := by
  obtain ⟨x, hlast⟩ : ∃ x, t.value.getLast? = some x :=
    ⟨_, List.getLast?_eq_some_getLast h.ne_nil⟩
  have hx := hsigns x (List.mem_of_getLast? hlast)
  have hother : ∀ {l : Text}, (∀ y ∈ l, isArithmetic y = false) → x ∉ l := by
    intro l hl hmem
    exact Bool.noConfusion ((hl x hmem).symm.trans hx)
  cases h.closing hcomment hlast with
  | blank hblank => exact Bool.noConfusion ((isArithmetic_of_isBlank x hblank).symm.trans hx)
  | closer hmem => exact absurd hmem (hother (by decide))
  | comparison run =>
    exact absurd (of_decide_eq_true (run.all x (List.mem_of_getLast? hlast))) (hother (by decide))
  | signs run => exact run.stops
  | quoted hv _ =>
    have hquote := hsigns '\'' (by rw [hv]; exact List.mem_cons_self)
    exact absurd hquote (by decide)
  | word hhead _ =>
    rw [head?_any_eq_false fun y hy => isWord_of_isArithmetic (hsigns y hy)] at hhead
    exact Bool.noConfusion hhead
  | ended hword => exact Bool.noConfusion ((isWord_of_isArithmetic hx).symm.trans hword)

/-- A comparison ends only where it does not go on. -/
theorem Cut.stops_of_comparison (h : Cut b t r) (hcomment : t.kind ≠ .comment)
    (hend : t.value.getLast?.any (fun y => decide (y ∈ "<>=~!".toList)) = true) :
    r.head?.any (fun y => decide (y ∈ "<>=~!".toList)) = false := by
  obtain ⟨x, hlast, hx⟩ := (Option.any_eq_true _ _).1 hend
  have hall : ∀ y ∈ "<>=~!".toList, isBlank y = false ∧ isArithmetic y = false ∧
      isWordPart y = false ∧ isWord y = false ∧ y ∉ "\r\n*.;()[],`".toList ∧ y ≠ '\'' := by decide
  obtain ⟨hblank, hsign, hpart, hword, hcloser, hquote⟩ := hall x (of_decide_eq_true hx)
  have hmem : x ∈ t.value := List.mem_of_getLast? hlast
  cases h.closing hcomment hlast with
  | blank h => exact Bool.noConfusion (hblank.symm.trans h)
  | closer h => exact absurd h hcloser
  | comparison run => exact run.stops
  | signs run => exact Bool.noConfusion (hsign.symm.trans (run.all x hmem))
  | quoted hv hclose =>
    rw [hv] at hlast
    exact absurd (by simpa [List.getLast?_cons, getLast?_close? hclose] using hlast.symm) hquote
  | word _ hrun => exact Bool.noConfusion (hpart.symm.trans (hrun x hmem))
  | ended h => exact Bool.noConfusion (hword.symm.trans h)

/-- A text in single quotes ends only where no quotes around a text follow. -/
theorem Cut.stops_of_quote (h : Cut b t r) (hcomment : t.kind ≠ .comment)
    (hlast : t.value.getLast? = some '\'') {u : Text} (hr : r = '\'' :: u) : '\'' ∉ u := by
  have hall : isBlank '\'' = false ∧ isArithmetic '\'' = false ∧ isWordPart '\'' = false ∧
      isWord '\'' = false := by decide
  obtain ⟨hblank, hsign, hpart, hword⟩ := hall
  have hmem : '\'' ∈ t.value := List.mem_of_getLast? hlast
  cases h.closing hcomment hlast with
  | blank h => exact Bool.noConfusion (hblank.symm.trans h)
  | closer h => exact absurd h (by decide)
  | comparison run => exact absurd (of_decide_eq_true (run.all _ hmem)) (by decide)
  | signs run => exact Bool.noConfusion (hsign.symm.trans (run.all _ hmem))
  | quoted _ hclose => exact not_mem_of_close? (hr ▸ hclose)
  | word _ hrun => exact Bool.noConfusion (hpart.symm.trans (hrun _ hmem))
  | ended h => exact Bool.noConfusion (hword.symm.trans h)

/-! ## Numbers -/

/-- The kinds of numbers. -/
def numberKinds : List Kind := [.numberFloat, .numberInteger]

/-- A piece of a number kind is a number. -/
theorem Piece.number_inv (h : Piece b v r kind) (hkind : kind ∈ numberKinds) :
    Lexer.firstMatch? numberRules ⟨b, v ++ r⟩ = some (kind, ⟨v.reverse ++ b, r⟩) := by
  cases h with
  | number _ h => exact h
  | phrase h =>
    rw [kind_of_phraseRules h] at hkind
    exact absurd hkind (by decide)
  | _ => exact absurd hkind (by decide)

/-- A number is cut where the rules for numbers apply. -/
theorem cut_number_iff :
    Cut b t r ∧ t.kind ∈ numberKinds ↔
      Lexer.firstMatch? numberRules ⟨b, t.value ++ r⟩ = some (t.kind, ⟨t.value.reverse ++ b, r⟩) := by
  constructor
  · rintro ⟨⟨kind, hpiece, hkind⟩, hnumber⟩
    by_cases hword : kind = .useAsKeyword
    · rw [hkind, hword] at hnumber
      have hall : ∀ k ∈ wordKinds, k ∉ numberKinds := by decide
      exact absurd hnumber (hall _ (resolve_word_mem t.value))
    · rw [resolve_of_ne hword] at hkind
      subst hkind
      exact hpiece.number_inv hnumber
  · intro hmatch
    have hkind := kind_of_numberRules hmatch
    refine ⟨⟨t.kind, .number ((numeral_of_numberRules hmatch).not_comment r) hmatch, ?_⟩, hkind⟩
    have hword : t.kind ≠ .useAsKeyword := by
      intro heq
      rw [heq] at hkind
      exact absurd hkind (by decide)
    exact (resolve_of_ne hword _).symm

/-- Nothing touches a token that is a number. -/
theorem Cut.untouched (h : Cut b t r) (hkind : t.kind ∈ numberKinds) :
    Untouched b ∧ Untouched r ∧ Numeral t.value := by
  have hread := cut_number_iff.1 ⟨h, hkind⟩
  obtain ⟨hb, hr, -⟩ := untouched_of_numberRules hread
  exact ⟨hb, hr, numeral_of_numberRules hread⟩

/-- In a whole number there are digits and a sign. -/
theorem not_mem_of_mem_wholeForms {w : Text} {y : Char} (hw : w ∈ wholeForms)
    (hdigit : isDigit y = false) (hsign : y ≠ '-') : y ∉ w := by
  obtain ⟨sg, ds, hsg, -, hds, rfl⟩ := hw
  rintro hy
  rcases List.mem_append.1 hy with hy | hy
  · rcases hsg with rfl | rfl
    · exact absurd hy List.not_mem_nil
    · exact hsign (List.mem_singleton.1 hy)
  · exact Bool.noConfusion (hdigit.symm.trans (hds y hy))

/-- With a point there is no letter, either. -/
theorem not_mem_of_mem_pointForms {w : Text} {y : Char} (hw : w ∈ pointForms)
    (hy : y ∈ "eE".toList) : y ∉ w := by
  obtain ⟨sg, ds, fs, hsg, hds, hfs, -, rfl⟩ := hw
  have hdigit := isDigit_of_mem_exponentLetters hy
  rintro hmem
  simp only [List.mem_append, List.mem_cons] at hmem
  rcases hmem with hmem | hmem | rfl | hmem
  · rcases hsg with rfl | rfl
    · exact absurd hmem List.not_mem_nil
    · rw [List.mem_singleton.1 hmem] at hy
      exact absurd hy (by decide)
  · exact Bool.noConfusion (hdigit.symm.trans (hds y hmem))
  · exact absurd hy (by decide)
  · exact Bool.noConfusion (hdigit.symm.trans (hfs y hmem))

/-- A numeral that goes on behind an exponent has one. -/
theorem mem_exponentForms_of_longer {w : Text} (hv : v ∈ exponentForms) (h : v <+: w)
    (hw : Numeral w) : w ∈ exponentForms := by
  obtain ⟨sg, ds, f, y, g, es, -, -, -, -, hy, -, -, -, rfl⟩ := hv
  have hletter : y ∈ w := h.subset (by simp)
  have hsign : y ≠ '-' := by
    rintro rfl
    exact absurd hy (by decide)
  rcases hw with hw | hw | hw
  · exact absurd hletter (not_mem_of_mem_wholeForms hw (isDigit_of_mem_exponentLetters hy) hsign)
  · exact absurd hletter (not_mem_of_mem_pointForms hw hy)
  · exact hw

/-- One that goes on behind a point is no whole number. -/
theorem not_mem_wholeForms_of_longer {w : Text} (hv : v ∈ pointForms) (h : v <+: w) :
    w ∉ wholeForms := by
  obtain ⟨sg, ds, fs, -, -, -, -, rfl⟩ := hv
  have hpoint : '.' ∈ w := h.subset (by simp)
  exact fun hw => not_mem_of_mem_wholeForms hw (by decide) (by decide) hpoint

/-- The number that is cut is the longest one at its place. -/
theorem prefix_of_numberRules {w u : Text}
    (h : Lexer.firstMatch? numberRules ⟨b, v ++ r⟩ = some (kind, ⟨v.reverse ++ b, r⟩))
    (hw : Numeral w) (hu : Untouched u) (heq : v ++ r = w ++ u) : w <+: v := by
  obtain ⟨hb, hr, -⟩ := untouched_of_numberRules h
  rcases append_cases heq with ⟨x, hx, hlonger, -⟩ | ⟨x, hv, -⟩
  · -- a longer one would be of the same form, or of one that comes first
    exfalso
    have hprefix : v <+: w := ⟨x, hlonger.symm⟩
    obtain ⟨earlier, rule, later, hrules, hsilent, hend, -⟩ := firstMatch?_eq_some_iff.1 h
    have hsame : ∀ {L : Language Char}, ReadsNumeral rule L → v ∈ L ∧ w ∉ L := by
      intro L hreads
      obtain ⟨-, v', hv, hread, -⟩ := hreads.end?_eq_some_iff.1 hend
      obtain rfl : v = v' := (Cursor.Reads.over b v r).text_unique hread
      refine ⟨hv, fun hw => hx ?_⟩
      have heq := hreads.decided v hv w hw r u hr hu heq
      exact List.self_eq_append_right.1 (heq.trans hlonger)
    have hearlier : ∀ {rule : Rule} {L : Language Char}, rule ∈ earlier → ReadsNumeral rule L →
        w ∉ L := by
      intro rule L hrule hreads hw
      have hend := hreads.end?_eq_some_iff.2 ⟨hb, w, hw, .over b w u, hu⟩
      rw [← heq, hsilent rule hrule] at hend
      cases hend
    match earlier, hrules with
    | [], hrules =>
      obtain ⟨rfl, -⟩ := List.cons.inj hrules
      obtain ⟨hv, hother⟩ := hsame readsNumeral_exponent
      exact hother (mem_exponentForms_of_longer hv hprefix hw)
    | [e], hrules =>
      obtain ⟨rfl, hrest⟩ := List.cons.inj hrules
      obtain ⟨rfl, -⟩ := List.cons.inj hrest
      obtain ⟨hv, hother⟩ := hsame readsNumeral_point
      rcases hw with hw | hw | hw
      · exact not_mem_wholeForms_of_longer hv hprefix hw
      · exact hother hw
      · exact hearlier List.mem_cons_self readsNumeral_exponent hw
    | [e, p], hrules =>
      obtain ⟨rfl, hrest⟩ := List.cons.inj hrules
      obtain ⟨rfl, hlast⟩ := List.cons.inj hrest
      obtain ⟨rfl, -⟩ := List.cons.inj hlast
      rcases hw with hw | hw | hw
      · exact (hsame readsNumeral_whole).2 hw
      · exact hearlier (by simp) readsNumeral_point hw
      · exact hearlier (by simp) readsNumeral_exponent hw
    | _ :: _ :: _ :: earlier, hrules =>
      have hlength := congrArg List.length hrules
      simp [numberRules] at hlength
  · exact ⟨x, hv.symm⟩

/-! ## Words and phrases -/

/-- The text that is cut at a place is determined. -/
theorem Piece.unique {v' r' : Text} {kind' : Kind} (h : Piece b v r kind) (h' : Piece b v' r' kind')
    (heq : v ++ r = v' ++ r') : v = v' ∧ kind = kind' := by
  have hsame := h'.firstMatch?
  rw [← heq, h.firstMatch?, Option.some.injEq, Prod.mk.injEq, Cursor.mk.injEq] at hsame
  obtain ⟨rfl, -, rfl⟩ := hsame
  exact ⟨List.append_cancel_right heq, rfl⟩

/-- Where a number is cut it is the token. -/
theorem Cut.kind_of_number (h : Cut b t r) (hpiece : Piece b t.value r kind)
    (hkind : kind ∈ numberKinds) : t.kind ∈ numberKinds := by
  obtain ⟨kind', hpiece', hresolve⟩ := h
  obtain ⟨-, rfl⟩ := hpiece.unique hpiece' rfl
  rw [hresolve, resolve_of_ne]
  · exact hkind
  · rintro rfl
    exact absurd hkind (by decide)

/-- Where a numeral stands that nothing touches, a number is cut that goes as far at least. -/
theorem Cut.prefix_of_numeral {w u : Text} (h : Cut b t r) (hw : Numeral w) (hb : Untouched b)
    (hu : Untouched u) (heq : t.value ++ r = w ++ u) : w <+: t.value := by
  have hends : ∀ {rule : Rule} {L : Language Char}, rule ∈ numberRules → ReadsNumeral rule L →
      w ∈ L → Lexer.firstMatch? numberRules ⟨b, w ++ u⟩ ≠ none := by
    intro rule L hrule hreads hw hnone
    have hend := hreads.end?_eq_some_iff.2 ⟨hb, w, hw, .over b w u, hu⟩
    rw [firstMatch?_eq_none_iff.1 hnone rule hrule] at hend
    cases hend
  have hsome : Lexer.firstMatch? numberRules ⟨b, w ++ u⟩ ≠ none := by
    rcases hw with hw | hw | hw
    · exact hends (by simp [numberRules]) readsNumeral_whole hw
    · exact hends (by simp [numberRules]) readsNumeral_point hw
    · exact hends (by simp [numberRules]) readsNumeral_exponent hw
  obtain ⟨⟨kind, e⟩, hmatch⟩ := Option.ne_none_iff_exists'.1 hsome
  obtain ⟨hread, -⟩ := reads_of_firstMatch? hmatch
  generalize (⟨b, w ++ u⟩ : Cursor).upTo e = v at hread
  obtain ⟨r', hr', rfl⟩ := Cursor.reads_iff.1 hread
  rw [hr'] at hmatch
  -- the token is that number
  obtain ⟨kind', hpiece, -⟩ := h
  have hnumber : Piece b v r' kind :=
    .number ((numeral_of_numberRules hmatch).not_comment r') hmatch
  rw [(hpiece.unique hnumber (heq.trans hr')).1]
  exact prefix_of_numberRules hmatch hw hu hr'.symm

/-- Where a phrase stands it is the token. -/
theorem Cut.eq_of_isPhraseAt {v' r' : Text} (h : Cut b t r) (hphrase : IsPhraseAt v' r')
    (heq : t.value ++ r = v' ++ r') : t.value = v' := by
  obtain ⟨kind, hpiece, -⟩ := h
  exact (hpiece.unique (.phrase (firstMatch?_phraseRules_iff.2 ⟨rfl, hphrase⟩)) heq).1

theorem Piece.all_isWordPart (h : Piece b v r .useAsKeyword) : ∀ x ∈ v, isWordPart x = true := by
  cases h with
  | number _ h => simpa using kind_of_numberRules h
  | phrase h => simpa using kind_of_phraseRules h
  | word _ _ run => exact run.all
  | digits _ _ run => exact run.all

theorem Piece.isPhraseAt (h : Piece b v r .keyword) : IsPhraseAt v r := by
  cases h with
  | number _ h => simpa using kind_of_numberRules h
  | phrase h => exact (firstMatch?_phraseRules_iff.1 h).2

/-- All characters of the token may be part of a word. -/
def IsWordRun (t : Token) : Prop := ∀ x ∈ t.value, isWordPart x = true

/-- What begins with a letter is a word or a phrase. -/
theorem Piece.shape (h : Piece b v r kind) (hletter : v.head?.any (lead · == .letter) = true) :
    (∀ x ∈ v, isWordPart x = true) ∨ ∃ ws ∈ phraseRows, Phrased ws v := by
  obtain ⟨x, w, rfl⟩ := List.exists_cons_of_ne_nil h.ne_nil
  have hx : lead x = .letter := by simpa using hletter
  have hread := h.firstMatch?
  rw [List.cons_append, firstMatch?_letter hx] at hread
  cases hphrase : Lexer.firstMatch? phraseRules ⟨b, x :: (w ++ r)⟩ with
  | none =>
    rw [hphrase, Option.none_or, ← List.cons_append, some_run_eq_iff] at hread
    exact .inl hread.2.all
  | some found =>
    rw [hphrase, Option.some_or] at hread
    exact .inr (firstMatch?_phraseRules_iff.1 (hphrase.trans hread)).2.row

theorem Cut.shape (h : Cut b t r) (hletter : t.value.head?.any (lead · == .letter) = true) :
    IsWordRun t ∨ ∃ ws ∈ phraseRows, Phrased ws t.value :=
  let ⟨_, hpiece, _⟩ := h
  hpiece.shape hletter

end SqlLayout.Sql
