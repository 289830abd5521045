import SqlLayout.Proofs.Lexer.Sql.Pieces

/-!
# Pieces between other blanks

A piece that is no blank is cut again where the blanks around it differ, as long as what follows it
is respaced (`Piece.carried`). Three things can go wrong and are kept off: a comment may not swallow
what follows it, nothing may come to touch a number or cease to do so, and a blank may not set a
letter apart from a point after digits, as the point would then be taken for that of a number
(`Severed`).
-/

namespace SqlLayout

namespace Lexer

/-- Rules that stay silent and a rule that still applies make the same match elsewhere. -/
theorem firstMatch?_carried {rules : List Rule} {kind : Kind} {c c' e e' : Cursor}
    (hsilent : ∀ rule ∈ rules, rule.end? c = none → rule.end? c' = none)
    (hend : ∀ rule ∈ rules, rule.end? c = some e → rule.end? c' = some e')
    (h : firstMatch? rules c = some (kind, e)) : firstMatch? rules c' = some (kind, e') := by
  obtain ⟨earlier, rule, later, rfl, hearlier, hrule, rfl⟩ := firstMatch?_eq_some_iff.1 h
  refine firstMatch?_eq_some_iff.2 ⟨earlier, rule, later, rfl, fun s hs => ?_, ?_, rfl⟩
  · exact hsilent s (by simp [hs]) (hearlier s hs)
  · exact hend rule (by simp) hrule

end Lexer

namespace Sql

open Lexer Text Pattern

variable {b b' v w r r' s s' : Text} {kind : Kind} {p : Bool}

/-! ## Numbers -/

/-- A whole number, a point and a letter begin the text. -/
def Severed (s : Text) : Prop :=
  ∃ sg ds y t, IsSign sg ∧ ds ≠ [] ∧ Digits ds ∧ isWord y = true ∧ isDigit y = false ∧
    s = sg ++ (ds ++ '.' :: y :: t)

theorem isBoundary_of_isBlank {x : Char} (hx : isBlank x = true) : isBoundary x = false := by
  have hlisted : x ∉ "$#'\"`".toList := by
    intro hmem
    have hall : ∀ y ∈ "$#'\"`".toList, isBlank y = false := by decide
    rw [hall x hmem] at hx
    exact Bool.noConfusion hx
  rw [isBoundary, isWord_eq_false_of_isBlank hx, Bool.false_or]
  exact decide_eq_false hlisted

theorem Untouched.respaced (h : Untouched r) (hr : Respaced p r r') : Untouched r' :=
  hr.stops (fun _ => isBoundary_of_isBlank) h

/-- What follows a numeral is untouched in both texts, unless a letter is severed from its point. -/
theorem IsNumeral.untouched (h : IsNumeral w) (hr : Respaced (w.getLast?.elim p isWord) r r')
    (hwhole : ¬Severed (w ++ r)) (hafter : Untouched r') : Untouched r := by
  refine hr.stops_inv (fun _ => isBoundary_of_isBlank) ?_ hafter
  rintro x hx (hlisted | ⟨hflag, hword, hdigit⟩)
  · have hall : ∀ y ∈ "-)".toList, isBoundary y = false := by decide
    exact hall x hlisted
  · -- a letter is set apart only if no word character precedes it: the numeral ends with its point
    rcases h.ending with hlast | ⟨sg, ds, hsg, hne, hds, rfl⟩
    · rw [elim_getLast?_eq_any h.proper, hlast] at hflag
      exact Bool.noConfusion hflag
    · obtain ⟨t, rfl⟩ : ∃ t, r = x :: t := by
        cases r with
        | nil => simp at hx
        | cons y t => exact ⟨t, by rw [Option.some.inj hx]⟩
      exact absurd ⟨sg, ds, x, t, hsg, hne, hds, hword, hdigit, by simp⟩ hwhole

/-- A rule for numbers that is silent stays so. -/
theorem ReadsNumeral.silent {rule : Rule} {L : Language Char} (h : ReadsNumeral rule L)
    (hbehind : Untouched b' → Untouched b) (hs : Respaced p s s')
    (hwhole : Untouched b → ¬Severed s) (hnone : rule.end? ⟨b, s⟩ = none) :
    rule.end? ⟨b', s'⟩ = none := by
  rw [Option.eq_none_iff_forall_not_mem]
  intro e' he'
  obtain ⟨hb', w, hw, hread, hafter⟩ := h.end?_eq_some_iff.1 he'
  have hnumeral := h.numeral w hw
  have hs' : s' = w ++ e'.rest := hread.rest_eq
  rw [hs'] at hs
  obtain ⟨r, rfl, hr⟩ := hs.append_inv hnumeral.solid
  have hb := hbehind hb'
  have hend : rule.end? ⟨b, w ++ r⟩ = some ⟨w.reverse ++ b, r⟩ :=
    h.end?_eq_some_iff.2 ⟨hb, w, hw, .over b w r, hnumeral.untouched hr (hwhole hb) hafter⟩
  rw [hnone] at hend
  simp at hend

/-- One that applies does so where nothing touches the number. -/
theorem ReadsNumeral.carried {rule : Rule} {L : Language Char} (h : ReadsNumeral rule L)
    (hbehind : Untouched b → Untouched b') (hafter : Untouched r → Untouched r')
    (hend : rule.end? ⟨b, v ++ r⟩ = some ⟨v.reverse ++ b, r⟩) :
    rule.end? ⟨b', v ++ r'⟩ = some ⟨v.reverse ++ b', r'⟩ := by
  obtain ⟨hb, w, hw, hread, hr⟩ := h.end?_eq_some_iff.1 hend
  obtain rfl : v = w := (Cursor.Reads.over b v r).text_unique hread
  exact h.end?_eq_some_iff.2 ⟨hbehind hb, v, hw, .over b' v r', hafter hr⟩

theorem exists_readsNumeral {rule : Rule} (h : rule ∈ numberRules) : ∃ L, ReadsNumeral rule L := by
  simp only [numberRules, List.mem_cons, List.not_mem_nil, or_false] at h
  rcases h with rfl | rfl | rfl
  · exact ⟨_, readsNumeral_exponent⟩
  · exact ⟨_, readsNumeral_point⟩
  · exact ⟨_, readsNumeral_whole⟩

theorem numberRules_silent (hbehind : Untouched b' → Untouched b) (hs : Respaced p s s')
    (hwhole : Untouched b → ¬Severed s) (hnone : firstMatch? numberRules ⟨b, s⟩ = none) :
    firstMatch? numberRules ⟨b', s'⟩ = none := by
  rw [firstMatch?_eq_none_iff] at hnone ⊢
  intro rule hrule
  obtain ⟨L, hreads⟩ := exists_readsNumeral hrule
  exact hreads.silent hbehind hs hwhole (hnone rule hrule)

/-- Where a number is cut nothing touches it. -/
theorem untouched_of_numberRules
    (h : firstMatch? numberRules ⟨b, v ++ r⟩ = some (kind, ⟨v.reverse ++ b, r⟩)) :
    Untouched b ∧ Untouched r ∧ IsNumeral v := by
  obtain ⟨earlier, rule, later, hrules, -, hend, -⟩ := firstMatch?_eq_some_iff.1 h
  have hrule : rule ∈ numberRules := by
    rw [hrules]
    simp
  obtain ⟨L, hreads⟩ := exists_readsNumeral hrule
  obtain ⟨hb, w, hw, hread, hr⟩ := hreads.end?_eq_some_iff.1 hend
  obtain rfl : v = w := (Cursor.Reads.over b v r).text_unique hread
  exact ⟨hb, hr, hreads.numeral v hw⟩

theorem numberRules_carried (hbehind : Untouched b → Untouched b')
    (hs : Respaced p (v ++ r) (v ++ r')) (hr : Untouched r → Untouched r')
    (hwhole : Untouched b → ¬Severed (v ++ r))
    (h : firstMatch? numberRules ⟨b, v ++ r⟩ = some (kind, ⟨v.reverse ++ b, r⟩)) :
    firstMatch? numberRules ⟨b', v ++ r'⟩ = some (kind, ⟨v.reverse ++ b', r'⟩) := by
  have hb := (untouched_of_numberRules h).1
  refine firstMatch?_carried (fun rule hrule => ?_) (fun rule hrule => ?_) h
  · obtain ⟨L, hreads⟩ := exists_readsNumeral hrule
    exact hreads.silent (fun _ => hb) hs hwhole
  · obtain ⟨L, hreads⟩ := exists_readsNumeral hrule
    exact hreads.carried hbehind hr

/-! ## Phrases -/

/-- A rule for phrases that is silent stays so. -/
theorem ReadsPhrase.silent {rule : Rule} {table : List (List Text)} {last : Text}
    (h : ReadsPhrase rule table last) (hs : Respaced p s s') (hnone : rule.end? ⟨b, s⟩ = none) :
    rule.end? ⟨b', s'⟩ = none := by
  rw [Option.eq_none_iff_forall_not_mem]
  intro e' he'
  obtain ⟨o', ⟨us, hus, ho'⟩, hread, hafter⟩ := h.end?_eq_some_iff.1 he'
  have hs' : s' = o' ++ (last ++ e'.rest) := by
    rw [← List.append_assoc]
    exact hread.rest_eq
  rw [hs'] at hs
  have hwords : ∀ u ∈ us, IsWordText u := fun u hu => (h.isTable.openers us hus u hu).1
  obtain ⟨o, r, rfl, ho, hr⟩ := ho'.respaced_inv hwords h.isTable.last hs
  have hrest : r.head?.any isWord = false :=
    hr.stops_inv (fun _ => isWord_eq_false_of_isBlank) (fun _ _ hx => hx.isWord) hafter
  have hend : rule.end? ⟨b, o ++ (last ++ r)⟩ = some ⟨(o ++ last).reverse ++ b, r⟩ := by
    rw [← List.append_assoc]
    exact h.end?_eq_some_iff.2 ⟨o, ⟨us, hus, ho⟩, .over b (o ++ last) r, hrest⟩
  rw [hnone] at hend
  simp at hend

theorem exists_readsPhrase {rule : Rule} (h : rule ∈ phraseRules) :
    ∃ table last, ReadsPhrase rule table last := by
  simp only [phraseRules, List.mem_cons, List.not_mem_nil, or_false] at h
  rcases h with rfl | rfl | rfl | rfl
  · exact ⟨_, _, readsPhrase_join⟩
  · exact ⟨_, _, readsPhrase_orderBy⟩
  · exact ⟨_, _, readsPhrase_groupBy⟩
  · exact ⟨_, _, readsPhrase_unionAll⟩

theorem phraseRules_silent (hs : Respaced p s s')
    (hnone : firstMatch? phraseRules ⟨b, s⟩ = none) : firstMatch? phraseRules ⟨b', s'⟩ = none := by
  rw [firstMatch?_eq_none_iff] at hnone ⊢
  intro rule hrule
  obtain ⟨table, last, hreads⟩ := exists_readsPhrase hrule
  exact hreads.silent hs (hnone rule hrule)

/-- A phrase that is cut is a row of openers and a last word that no word goes on after. -/
theorem ReadsPhrase.exists_opened {rule : Rule} {table : List (List Text)} {last : Text}
    (h : ReadsPhrase rule table last)
    (hend : rule.end? ⟨b, v ++ r⟩ = some ⟨v.reverse ++ b, r⟩) :
    ∃ us o, us ∈ table ∧ Opened us o ∧ (∀ u ∈ us, IsWordText u) ∧ v = o ++ last ∧
      r.head?.any isWord = false := by
  obtain ⟨o, ⟨us, hus, ho⟩, hread, hafter⟩ := h.end?_eq_some_iff.1 hend
  have hv : v = o ++ last := (Cursor.Reads.over b v r).text_unique hread
  exact ⟨us, o, hus, ho, fun u hu => (h.isTable.openers us hus u hu).1, hv, hafter⟩

/-- It is cut with single spaces, too. -/
theorem ReadsPhrase.carried {rule : Rule} {table : List (List Text)} {last : Text}
    (h : ReadsPhrase rule table last) (hr : Respaced true r r')
    (hend : rule.end? ⟨b, v ++ r⟩ = some ⟨v.reverse ++ b, r⟩) :
    rule.end? ⟨b', Text.collapse v ++ r'⟩ = some ⟨(Text.collapse v).reverse ++ b', r'⟩ := by
  obtain ⟨us, o, hus, ho, hwords, rfl, hafter⟩ := h.exists_opened hend
  obtain ⟨o', hcollapse, ho', -⟩ := ho.collapse hwords h.isTable.last
  have hafter' : r'.head?.any isWord = false :=
    hr.stops (fun _ => isWord_eq_false_of_isBlank) hafter
  rw [hcollapse]
  exact h.end?_eq_some_iff.2 ⟨o', ⟨us, hus, ho'⟩, .over b' (o' ++ last) r', hafter'⟩

/-- What is known of a phrase that is cut. -/
structure IsPhrase (v r : Text) : Prop where
  stops : r.head?.any isWord = false
  last : v.getLast?.any isWord = true
  collapse_head : (Text.collapse v).head? = v.head?
  collapse_last : (Text.collapse v).getLast? = v.getLast?
  respaced : ∀ p r', Respaced true r r' → Respaced p (v ++ r) (Text.collapse v ++ r')

theorem isPhrase_of_phraseRules
    (h : firstMatch? phraseRules ⟨b, v ++ r⟩ = some (kind, ⟨v.reverse ++ b, r⟩)) :
    IsPhrase v r := by
  obtain ⟨rule, hrule, hend, -⟩ := exists_rule_of_firstMatch? h
  obtain ⟨table, last, hreads⟩ := exists_readsPhrase hrule
  obtain ⟨us, o, hus, ho, hwords, rfl, hafter⟩ := hreads.exists_opened hend
  obtain ⟨o', hcollapse, ho', hrespaced⟩ := ho.collapse hwords hreads.isTable.last
  obtain ⟨x, hx, hword⟩ := hreads.isTable.last.getLast?
  refine ⟨hafter, ?_, ?_, ?_, fun p r' hr => ?_⟩
  · simp [hx, hword]
  · rw [hcollapse]
    exact ho'.head?_eq ho hwords
  · rw [hcollapse]
    simp [hx]
  · rw [hcollapse, List.append_assoc, List.append_assoc]
    exact hrespaced p r r' hr

theorem phraseRules_carried (hr : Respaced true r r')
    (h : firstMatch? phraseRules ⟨b, v ++ r⟩ = some (kind, ⟨v.reverse ++ b, r⟩)) :
    firstMatch? phraseRules ⟨b', Text.collapse v ++ r'⟩ =
      some (kind, ⟨(Text.collapse v).reverse ++ b', r'⟩) := by
  have hs := (isPhrase_of_phraseRules h).respaced false r' hr
  refine firstMatch?_carried (fun rule hrule => ?_) (fun rule hrule hend => ?_) h
  · obtain ⟨table, last, hreads⟩ := exists_readsPhrase hrule
    exact hreads.silent hs
  · obtain ⟨table, last, hreads⟩ := exists_readsPhrase hrule
    exact hreads.carried hr hend

/-! ## Quoted texts and comments -/

/-- The rest of a quoted text ends with its closing quote. -/
theorem getLast?_close? {q : Char} {doubled : Bool} {t : Text} (h : close? q doubled t = some w) :
    w.getLast? = some q := by
  fun_induction close? q doubled t generalizing w with
  | case1 => simp at h
  | case2 => simp [← Option.some.inj h]
  | case3 => simp at h
  | case4 c d u _ ih =>
    obtain ⟨v, hv, rfl⟩ := Option.map_eq_some_iff.1 h
    simp [List.getLast?_cons, ih hv]
  | case5 d u _ => simp [← Option.some.inj h]
  | case6 c d u _ _ ih =>
    obtain ⟨v, hv, rfl⟩ := Option.map_eq_some_iff.1 h
    simp [List.getLast?_cons, ih hv]

theorem close?_self {q : Char} {doubled : Bool} {t : Text}
    (h : ∀ u, t = q :: u → (q = '\\' ∨ doubled = true) → q ∉ u) :
    close? q doubled (q :: t) = some [q] := by
  cases t with
  | nil => rw [close?, if_pos rfl]
  | cons d u =>
    rw [close?, if_neg, if_pos rfl]
    rintro ⟨rfl, hopen, hlater⟩
    exact h u rfl (hopen.imp_right And.left) hlater

/-- A quoted text ends at the same quote before a text that has no new quotes, and that begins with
none where quotes may be doubled. -/
theorem close?_carried {q : Char} {doubled : Bool} (hmem : q ∈ r' → q ∈ r)
    (hnext : q = '\\' ∨ doubled = true → ∀ u', r' = q :: u' →
      ∃ u, r = q :: u ∧ (q ∈ u' → q ∈ u))
    (h : close? q doubled (w ++ r) = some w) : close? q doubled (w ++ r') = some w := by
  generalize ht : w ++ r = t at h
  fun_induction close? q doubled t generalizing w with
  | case1 => simp at h
  | case2 =>
    obtain rfl := Option.some.inj h
    obtain rfl : r = [] := by simpa using ht
    refine close?_self fun u' hu' hopen => ?_
    obtain ⟨u, hu, -⟩ := hnext hopen u' hu'
    exact absurd hu (by simp)
  | case3 => simp at h
  | case4 c d u hpair ih =>
    -- a pair that is read over is so again, as the closing quote comes later
    obtain ⟨v, hv, rfl⟩ := Option.map_eq_some_iff.1 h
    have hu : v ++ r = u := by simpa using ht
    have hlater : q ∈ v ++ r' := List.mem_append_left r' (List.mem_of_getLast? (getLast?_close? hv))
    show close? q doubled (c :: d :: (v ++ r')) = _
    rw [close?, if_pos ⟨hpair.1, hpair.2.1, hlater⟩, ih hu hv]
    rfl
  | case5 d u hpair =>
    -- the quote closes the text, and what follows may not turn it into a pair
    obtain rfl := Option.some.inj h
    have hr : r = d :: u := by simpa using ht
    refine close?_self fun u' hu' hopen hlater => ?_
    obtain ⟨u₂, hu₂, hback⟩ := hnext hopen u' hu'
    obtain ⟨rfl, rfl⟩ := List.cons.inj (hr.symm.trans hu₂)
    exact hpair ⟨rfl, hopen.imp_right fun h => ⟨h, rfl⟩, hback hlater⟩
  | case6 c d u hpair hc ih =>
    obtain ⟨v, hv, rfl⟩ := Option.map_eq_some_iff.1 h
    have hu : v ++ r = d :: u := by simpa using ht
    have hrest := ih hu hv
    cases v with
    | nil => exact absurd (getLast?_close? hv) (by simp)
    | cons e v =>
      obtain ⟨rfl, rfl⟩ := List.cons.inj hu
      show close? q doubled (c :: e :: (v ++ r')) = _
      rw [close?, if_neg, if_neg hc]
      · rw [List.cons_append] at hrest
        rw [hrest]
        rfl
      · rintro ⟨he, hopen, hlater⟩
        refine hpair ⟨he, hopen, ?_⟩
        rcases List.mem_append.1 hlater with hlater | hlater
        · exact List.mem_append_left r hlater
        · exact List.mem_append_right v (hmem hlater)

theorem close?_respaced {q : Char} {doubled : Bool} (hq : isBlank q = false)
    (hr : Respaced p r r') (h : close? q doubled (w ++ r) = some w) :
    close? q doubled (w ++ r') = some w := by
  refine close?_carried (hr.mem hq) (fun _ u' hu' => ?_) h
  subst hu'
  obtain ⟨u, rfl, hu⟩ := hr.cons_inv hq
  exact ⟨u, rfl, hu.mem hq⟩

theorem IsComment.carried (h : IsComment v r) (hfeed : r'.head? ≠ some '\n')
    (hend : r = [] → r' = []) : IsComment v r' := by
  obtain ⟨body, term, rfl, hbody, hterm⟩ := h
  refine ⟨body, term, rfl, hbody, ?_⟩
  rcases hterm with rfl | ⟨rfl, -⟩ | rfl | ⟨rfl, hr⟩
  · exact .inl rfl
  · exact .inr (.inl ⟨rfl, hfeed⟩)
  · exact .inr (.inr (.inl rfl))
  · exact .inr (.inr (.inr ⟨rfl, hend hr⟩))

/-! ## Pieces -/

/-- The text that a piece of this kind is laid out with. -/
def settled (kind : Kind) (v : Text) : Text := if kind = .keyword then Text.collapse v else v

/-- What lets a piece that is cut between `b` and `r` be cut between `b'` and `r'`. A comment needs
nothing behind it and no new text after it; a word needs nothing before it. -/
structure Carries (v : Text) (kind : Kind) (b r b' r' : Text) : Prop where
  after : kind ≠ .comment → Respaced (v.getLast?.any isWord) r r'
  afterComment : kind = .comment → r'.head? ≠ some '\n' ∧ (r = [] → r' = [])
  behind : kind ∉ [.comment, .useAsKeyword, .keyword] → v ≠ [')'] → (Untouched b ↔ Untouched b')
  whole : Untouched b → ¬Severed (v ++ r)
  letter : kind = .useAsKeyword → v.head?.any isDigit = false

theorem IsRun.respaced {f : Char → Bool} (h : IsRun f v r)
    (hf : ∀ x, isBlank x = true → f x = false) (hr : Respaced p r r') : IsRun f v r' :=
  ⟨h.all, hr.stops hf h.stops⟩

theorem eq_false_of_isBlank {l : Text} (hl : ∀ y ∈ l, isBlank y = false) (x : Char)
    (hx : isBlank x = true) : decide (x ∈ l) = false := by
  refine decide_eq_false fun hmem => ?_
  rw [hl x hmem] at hx
  exact Bool.noConfusion hx

theorem isArithmetic_of_isBlank (x : Char) (hx : isBlank x = true) : isArithmetic x = false :=
  eq_false_of_isBlank (by decide) x hx

theorem isWordPart_of_isBlank (x : Char) (hx : isBlank x = true) : isWordPart x = false := by
  rw [isWordPart, isWord_eq_false_of_isBlank hx, Bool.or_false]
  exact eq_false_of_isBlank (by decide) x hx

theorem prefix_respaced_inv (hw : IsSolid w) (hs : Respaced p s s') (h : w <+: s') : w <+: s := by
  obtain ⟨t', rfl⟩ := h
  obtain ⟨t, rfl, -⟩ := hs.append_inv hw
  exact ⟨t, rfl⟩

/-- The rules of numbers have kinds of their own. -/
theorem kind_of_numberRules {c e : Cursor} (h : firstMatch? numberRules c = some (kind, e)) :
    kind ∈ [.numberFloat, .numberInteger] := by
  have hall : ∀ k ∈ numberRules.map (·.kind), k ∈ [Kind.numberFloat, .numberInteger] := by decide
  exact hall kind (kind_mem_of_firstMatch? h)

theorem kind_of_phraseRules {c e : Cursor} (h : firstMatch? phraseRules c = some (kind, e)) :
    kind = .keyword := by
  have hall : ∀ k ∈ phraseRules.map (·.kind), k = Kind.keyword := by decide
  exact hall kind (kind_mem_of_firstMatch? h)

/-- A piece that is no blank is cut between other blanks, too. -/
theorem Piece.carried (h : Piece b v r kind) (hblank : kind.isBlank = false)
    (hc : Carries v kind b r b' r') : Piece b' (settled kind v) r' kind := by
  have hne := h.ne_nil
  -- what stands in front of a piece of another kind is touched in both texts or in neither
  have hrespaced : kind ≠ .comment → ∀ p, Respaced p (v ++ r) (v ++ r') := by
    intro hkind p
    refine .append ?_
    rw [elim_getLast?_eq_any hne]
    exact hc.after hkind
  cases h with
  | lineEnds => exact absurd hblank (by decide)
  | blanks => exact absurd hblank (by decide)
  | star => exact .star b' r'
  | mark hx => exact .mark hx
  | comparison hx run =>
    exact .comparison hx (run.respaced (eq_false_of_isBlank (by decide)) (hc.after (by simp)))
  | sign hx run => exact .sign hx (run.respaced isArithmetic_of_isBlank (hc.after (by simp)))
  | comment h =>
    obtain ⟨hfeed, hend⟩ := hc.afterComment rfl
    exact .comment (h.carried hfeed hend)
  | hyphen hcomment hnumber run =>
    have hs := hrespaced (by simp) false
    have hbehind := hc.behind (by simp) (by simp)
    refine .hyphen (fun hprefix => hcomment ?_) ?_
      (run.respaced isArithmetic_of_isBlank (hc.after (by simp)))
    · exact prefix_respaced_inv (by decide) hs hprefix
    · exact numberRules_silent hbehind.2 hs hc.whole hnumber
  | number hcomment h =>
    have hkind := kind_of_numberRules h
    have hnot : kind ∉ [.comment, .useAsKeyword, .keyword] := by
      simp only [List.mem_cons, List.not_mem_nil, or_false] at hkind
      rcases hkind with rfl | rfl <;> decide
    have hkeyword : kind ≠ .keyword := fun h => hnot (by simp [h])
    have hs := hrespaced (fun h => hnot (by simp [h])) false
    have hmark : v ≠ [')'] := by
      rintro rfl
      exact absurd (lead_of_numberRules (t := r) h) (by decide)
    have hbehind := hc.behind hnot hmark
    have hafter := hc.after fun h => hnot (by simp [h])
    rw [settled, if_neg hkeyword]
    refine .number (fun hprefix => hcomment (prefix_respaced_inv (by decide) hs hprefix)) ?_
    exact numberRules_carried hbehind.1 hs (fun hr => hr.respaced hafter) hc.whole h
  | point hnumber =>
    have hs := hrespaced (by simp) false
    have hbehind := hc.behind (by simp) (by simp)
    exact .point (numberRules_silent hbehind.2 hs hc.whole hnumber)
  | singleQuoted h => exact .singleQuoted (close?_respaced (by decide) (hc.after (by simp)) h)
  | backQuoted h => exact .backQuoted (close?_respaced (by decide) (hc.after (by simp)) h)
  | phrase h =>
    obtain rfl := kind_of_phraseRules h
    have hr := hc.after (by simp)
    rw [(isPhrase_of_phraseRules h).last] at hr
    exact .phrase (phraseRules_carried hr h)
  | word hx hphrase run =>
    refine .word hx ?_ (run.respaced isWordPart_of_isBlank (hc.after (by simp)))
    exact phraseRules_silent (hrespaced (by simp) false) hphrase
  | digits hx =>
    have hdigit := hc.letter rfl
    rw [List.head?_cons, Option.any_some, show isDigit _ = true from fits_of_lead hx] at hdigit
    exact Bool.noConfusion hdigit

end Sql

end SqlLayout
