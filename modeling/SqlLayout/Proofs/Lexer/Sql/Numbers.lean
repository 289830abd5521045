import SqlLayout.Proofs.Lexer.Sql.Signs

/-!
# Numbers

A number is a numeral that no word and no quote touches on either side. There are three forms of
numerals, one for each rule. Since a digit or a letter would touch the numeral, a place has at most
one numeral of each form: its digits are the longest runs.
-/

namespace SqlLayout.Sql

open Lexer Text Pattern

/-! ## The forms of numerals -/

/-- A character that may not touch a number. -/
def isBoundary (x : Char) : Bool := isWord x || decide (x ∈ "$#'\"`".toList)

/-- A text of digits. -/
def Digits (ds : Text) : Prop := ∀ x ∈ ds, isDigit x = true

/-- A minus sign or nothing. -/
def IsSign (s : Text) : Prop := s = [] ∨ s = ['-']

/-- Digits alone. -/
def wholeForms : Language Char :=
  {w | ∃ s ds, IsSign s ∧ ds ≠ [] ∧ Digits ds ∧ w = s ++ ds}

/-- A decimal point with digits on a side at least. -/
def pointForms : Language Char :=
  {w | ∃ s ds fs, IsSign s ∧ Digits ds ∧ Digits fs ∧ (ds ≠ [] ∨ fs ≠ []) ∧
    w = s ++ (ds ++ '.' :: fs)}

/-- A decimal point and digits, or nothing. -/
def IsFraction (f : Text) : Prop := f = [] ∨ ∃ fs, f = '.' :: fs ∧ fs ≠ [] ∧ Digits fs

/-- The sign of an exponent, or nothing. -/
def IsExponentSign (g : Text) : Prop := g = [] ∨ ∃ y ∈ "-+".toList, g = [y]

/-- Digits, perhaps with a fraction, and an exponent. -/
def exponentForms : Language Char :=
  {w | ∃ s ds f x g es, IsSign s ∧ ds ≠ [] ∧ Digits ds ∧ IsFraction f ∧ x ∈ "eE".toList ∧
    IsExponentSign g ∧ es ≠ [] ∧ Digits es ∧ w = s ++ (ds ++ (f ++ x :: (g ++ es)))}

/-- The text goes on with a character that may touch a number, or ends. -/
def Untouched (t : Text) : Prop := t.head?.any isBoundary = false

/-- The text does not go on with a digit. -/
def NoDigit (t : Text) : Prop := t.head?.any isDigit = false

theorem isBoundary_of_isWord {x : Char} (h : isWord x = true) : isBoundary x = true := by
  rw [isBoundary, h, Bool.true_or]

/-- What touches no number is no part of a word, either. -/
theorem Untouched.stops {t : Text} (h : Untouched t) : t.head?.any isWord = false :=
  any_eq_false_of_imp (fun _ => isBoundary_of_isWord) h

theorem Untouched.noDigit {t : Text} (h : Untouched t) : NoDigit t :=
  any_eq_false_of_imp (fun _ => isWord_of_isDigit) h.stops

theorem noDigit_cons {x : Char} (hx : isDigit x = false) (t : Text) : NoDigit (x :: t) := hx

/-- Digits do not begin with another character. -/
theorem Digits.append_ne {ds r t : Text} {y : Char} (hd : Digits ds) (hne : ds ≠ [])
    (hdigit : isDigit y = false) : ds ++ r ≠ y :: t := by
  intro heq
  obtain ⟨z, ds, rfl⟩ := List.exists_cons_of_ne_nil hne
  have hz := hd z List.mem_cons_self
  rw [(List.cons.inj heq).1, hdigit] at hz
  exact Bool.noConfusion hz

/-- Two runs of digits of the same text are the same if no digit follows them. -/
theorem Digits.unique {ds es r u : Text} (hd : Digits ds) (he : Digits es) (hr : NoDigit r)
    (hu : NoDigit u) (h : ds ++ r = es ++ u) : ds = es ∧ r = u :=
  run_unique hd he hr hu h

/-- So the sign of a numeral is told by its first character. -/
theorem IsSign.unique {s s' r u : Text} (hs : IsSign s) (hs' : IsSign s')
    (hr : r.head? ≠ some '-') (hu : u.head? ≠ some '-') (h : s ++ r = s' ++ u) : s = s' ∧ r = u := by
  rcases hs with rfl | rfl <;> rcases hs' with rfl | rfl
  · exact ⟨rfl, h⟩
  · rw [List.nil_append] at h
    exact absurd (by rw [h]; rfl) hr
  · rw [List.nil_append] at h
    exact absurd (by rw [← h]; rfl) hu
  · exact ⟨rfl, List.append_cancel_left h⟩

theorem head?_ne_hyphen {ds r : Text} (hd : Digits ds) (h : ds ≠ [] ∨ r.head? ≠ some '-') :
    (ds ++ r).head? ≠ some '-' := by
  by_cases hne : ds = []
  · rw [hne]
    exact h.resolve_left fun hne' => hne' hne
  · intro hx
    obtain ⟨t, ht⟩ := List.head?_eq_some_iff.1 hx
    exact hd.append_ne hne (by decide) ht

/-- The sign and the first digits of a numeral are told by the text, and so is what follows them. -/
theorem signed_unique {s s' ds ds' r u : Text} (hs : IsSign s) (hs' : IsSign s')
    (hd : Digits ds) (hd' : Digits ds') (hr : NoDigit r) (hu : NoDigit u)
    (hsign : ds ≠ [] ∨ r.head? ≠ some '-') (hsign' : ds' ≠ [] ∨ u.head? ≠ some '-')
    (h : s ++ (ds ++ r) = s' ++ (ds' ++ u)) : s = s' ∧ ds = ds' ∧ r = u := by
  obtain ⟨rfl, hrest⟩ := hs.unique hs' (head?_ne_hyphen hd hsign) (head?_ne_hyphen hd' hsign') h
  obtain ⟨rfl, rfl⟩ := hd.unique hd' hr hu hrest
  exact ⟨rfl, rfl, rfl⟩

/-! ## One numeral of a form at a place -/

/-- Of two words of the language that nothing touches, neither goes on where the other ends. -/
def Decided (L : Language Char) : Prop :=
  ∀ v ∈ L, ∀ w ∈ L, ∀ r u : Text, Untouched r → Untouched u → v ++ r = w ++ u → v = w

theorem wholeForms_decided : Decided wholeForms := by
  rintro v ⟨s, ds, hs, hne, hd, rfl⟩ w ⟨s', ds', hs', hne', hd', rfl⟩ r u hr hu h
  rw [List.append_assoc, List.append_assoc] at h
  obtain ⟨rfl, rfl, -⟩ :=
    signed_unique hs hs' hd hd' hr.noDigit hu.noDigit (.inl hne) (.inl hne') h
  rfl

theorem pointForms_decided : Decided pointForms := by
  rintro v ⟨s, ds, fs, hs, hd, hf, -, rfl⟩ w ⟨s', ds', fs', hs', hd', hf', -, rfl⟩ r u hr hu h
  simp only [List.append_assoc, List.cons_append] at h
  have hpoint : isDigit '.' = false := by decide
  obtain ⟨rfl, rfl, hrest⟩ := signed_unique hs hs' hd hd' (noDigit_cons hpoint _)
    (noDigit_cons hpoint _) (.inr (by simp)) (.inr (by simp)) h
  obtain ⟨rfl, -⟩ := hf.unique hf' hr.noDigit hu.noDigit (List.cons.inj hrest).2
  rfl

theorem isDigit_of_mem_exponentLetters {x : Char} (h : x ∈ "eE".toList) : isDigit x = false := by
  have hall : ∀ y ∈ "eE".toList, isDigit y = false := by decide
  exact hall x h

theorem ne_point_of_mem_exponentLetters {x : Char} (h : x ∈ "eE".toList) : x ≠ '.' := by
  have hall : ∀ y ∈ "eE".toList, y ≠ '.' := by decide
  exact hall x h

/-- The fraction of a numeral with an exponent is told by what follows its first digits. -/
theorem IsFraction.unique {f f' r u : Text} {x y : Char} (hf : IsFraction f) (hf' : IsFraction f')
    (hx : x ∈ "eE".toList) (hy : y ∈ "eE".toList) (h : f ++ x :: r = f' ++ y :: u) :
    f = f' ∧ x = y ∧ r = u := by
  rcases hf with rfl | ⟨fs, rfl, -, hd⟩ <;> rcases hf' with rfl | ⟨fs', rfl, -, hd'⟩
  · obtain ⟨rfl, rfl⟩ := List.cons.inj h
    exact ⟨rfl, rfl, rfl⟩
  · exact absurd (List.cons.inj h).1 (ne_point_of_mem_exponentLetters hx)
  · exact absurd (List.cons.inj h).1.symm (ne_point_of_mem_exponentLetters hy)
  · obtain ⟨rfl, hrest⟩ := hd.unique hd' (noDigit_cons (isDigit_of_mem_exponentLetters hx) _)
      (noDigit_cons (isDigit_of_mem_exponentLetters hy) _) (List.cons.inj h).2
    obtain ⟨rfl, rfl⟩ := List.cons.inj hrest
    exact ⟨rfl, rfl, rfl⟩

theorem IsExponentSign.unique {g g' es es' r u : Text} (hg : IsExponentSign g)
    (hg' : IsExponentSign g') (hne : es ≠ []) (hne' : es' ≠ []) (he : Digits es)
    (he' : Digits es') (h : g ++ (es ++ r) = g' ++ (es' ++ u)) : g = g' ∧ es ++ r = es' ++ u := by
  have hsign : ∀ y ∈ "-+".toList, isDigit y = false := by decide
  rcases hg with rfl | ⟨y, hy, rfl⟩ <;> rcases hg' with rfl | ⟨y', hy', rfl⟩
  · exact ⟨rfl, h⟩
  · exact absurd h (he.append_ne hne (hsign y' hy'))
  · exact absurd h.symm (he'.append_ne hne' (hsign y hy))
  · obtain ⟨rfl, hrest⟩ := List.cons.inj h
    exact ⟨rfl, hrest⟩

theorem exponentForms_decided : Decided exponentForms := by
  rintro v ⟨s, ds, f, x, g, es, hs, hne, hd, hf, hx, hg, hnee, he, rfl⟩
    w ⟨s', ds', f', y, g', es', hs', hne', hd', hf', hy, hg', hnee', he', rfl⟩ r u hr hu h
  simp only [List.append_assoc, List.cons_append] at h
  have hstop : ∀ {f : Text} {x : Char} (t : Text), IsFraction f → x ∈ "eE".toList →
      NoDigit (f ++ x :: t) := by
    rintro f x t (rfl | ⟨fs, rfl, -, -⟩) hx
    · exact noDigit_cons (isDigit_of_mem_exponentLetters hx) t
    · exact noDigit_cons (by decide) _
  obtain ⟨rfl, rfl, hrest⟩ := signed_unique hs hs' hd hd' (hstop _ hf hx) (hstop _ hf' hy)
    (.inl hne) (.inl hne') h
  obtain ⟨rfl, rfl, hexponent⟩ := hf.unique hf' hx hy hrest
  obtain ⟨rfl, hdigits⟩ := hg.unique hg' hnee hnee' he he' hexponent
  obtain ⟨rfl, -⟩ := he.unique he' hr.noDigit hu.noDigit hdigits
  rfl

/-! ## What the rules read -/

theorem contains_numberBoundary (x : Char) : numberBoundary.contains x = isBoundary x := by
  rw [numberBoundary, CharSet.contains_union ⟨rfl, rfl⟩ ⟨rfl, rfl⟩, CharSet.contains_ofClass,
    CharSet.contains_ofChars]
  rfl

theorem mem_ends_untouchedAhead {c e : Cursor} :
    e ∈ (ahead false (char numberBoundary)).ends c ↔ e = c ∧ Untouched c.rest := by
  obtain ⟨b, t⟩ := c
  rw [ends]
  cases t with
  | nil => simp [ends, Untouched]
  | cons x t =>
    rw [ends_char, contains_numberBoundary, Untouched, List.head?_cons, Option.any_some]
    cases isBoundary x <;> simp

theorem mem_ends_untouchedBehind {c e : Cursor} :
    e ∈ (behind false 1 (char numberBoundary)).ends c ↔ e = c ∧ Untouched c.before := by
  obtain ⟨b, t⟩ := c
  rw [ends]
  cases b with
  | nil => simp [Cursor.back?, Untouched]
  | cons x b =>
    rw [Cursor.back?, Cursor.back?, Untouched, List.head?_cons, Option.any_some]
    rw [Option.any_some, ends_char, contains_numberBoundary]
    cases isBoundary x <;> simp

theorem mem_ends_all_concat {ps : List Pattern} (hne : ps ≠ []) (q : Pattern) {c e : Cursor} :
    e ∈ (all (ps ++ [q])).ends c ↔ ∃ d ∈ (all ps).ends c, e ∈ q.ends d := by
  induction ps generalizing c with
  | nil => exact absurd rfl hne
  | cons p ps ih =>
    cases ps with
    | nil =>
      show e ∈ ((p.ends c).flatMap q.ends) ↔ _
      exact List.mem_flatMap
    | cons p' ps =>
      show e ∈ ((p.ends c).flatMap (all ((p' :: ps) ++ [q])).ends) ↔
        ∃ d ∈ (p.ends c).flatMap (all (p' :: ps)).ends, e ∈ q.ends d
      simp only [List.mem_flatMap, ih (by simp)]
      constructor
      · rintro ⟨a, ha, d, hd, he⟩
        exact ⟨d, ⟨a, ha, hd⟩, he⟩
      · rintro ⟨d, ⟨a, ha, hd⟩, he⟩
        exact ⟨a, ha, d, hd, he⟩

/-- A number is a numeral that nothing touches. -/
theorem mem_ends_number {body : List Pattern} {L : Language Char}
    (h : (all (opt (oneOf "-") :: body)).Spells L) {c e : Cursor} :
    e ∈ (number body).ends c ↔
      Untouched c.before ∧ ∃ w ∈ L, c.Reads w e ∧ Untouched e.rest := by
  have hnumber : number body = Pattern.seq (behind false 1 (char numberBoundary))
      (all ((opt (oneOf "-") :: body) ++ [ahead false (char numberBoundary)])) := by
    cases body <;> rfl
  rw [hnumber, ends, List.mem_flatMap]
  simp only [mem_ends_untouchedBehind, mem_ends_all_concat (List.cons_ne_nil _ _), h _ _,
    mem_ends_untouchedAhead]
  constructor
  · rintro ⟨d, ⟨rfl, hbefore⟩, d', ⟨w, hw, hread⟩, rfl, hafter⟩
    exact ⟨hbefore, w, hw, hread, hafter⟩
  · rintro ⟨hbefore, w, hw, hread, hafter⟩
    exact ⟨c, ⟨rfl, hbefore⟩, e, ⟨w, hw, hread⟩, rfl, hafter⟩

/-! ## The parts of the rules -/

theorem spells_oneOf (s : String) : (oneOf s).Spells {w | ∃ x ∈ s.toList, w = [x]} := by
  intro c e
  rw [oneOf, spells_char, contains_listed]
  simp

theorem spells_sign : (opt (oneOf "-")).Spells {s | IsSign s} := by
  intro c e
  rw [(spells_oneOf "-").opt c e]
  refine exists_congr fun w => and_congr_left fun _ => ?_
  constructor
  · rintro (⟨x, hx, rfl⟩ | hw)
    · exact .inr (by simpa using hx)
    · exact .inl hw
  · rintro (rfl | rfl)
    · exact .inr rfl
    · exact .inl ⟨'-', by decide, rfl⟩

theorem spells_digits : (plus digit).Spells {ds | ds ≠ [] ∧ Digits ds} := by
  intro c e
  rw [digit, spells_plus_char]
  have hclass : (CharSet.ofClass .digit).contains = isDigit :=
    funext fun x => CharSet.contains_ofClass .digit x
  rw [hclass]
  rfl

theorem spells_optionalDigits : (star digit).Spells {ds | Digits ds} := by
  intro c e
  rw [digit, spells_star_char]
  have hclass : (CharSet.ofClass .digit).contains = isDigit :=
    funext fun x => CharSet.contains_ofClass .digit x
  rw [hclass]
  rfl

theorem spells_fraction : (opt (seq (oneOf ".") (plus digit))).Spells {f | IsFraction f} := by
  intro c e
  rw [((spells_oneOf ".").seq spells_digits).opt c e]
  refine exists_congr fun w => and_congr_left fun _ => ?_
  constructor
  · rintro (⟨_, ⟨x, hx, rfl⟩, fs, ⟨hne, hd⟩, rfl⟩ | hw)
    · obtain rfl : x = '.' := by simpa using hx
      exact .inr ⟨fs, rfl, hne, hd⟩
    · exact .inl hw
  · rintro (rfl | ⟨fs, rfl, hne, hd⟩)
    · exact .inr rfl
    · exact .inl ⟨['.'], ⟨'.', by decide, rfl⟩, fs, ⟨hne, hd⟩, rfl⟩

theorem spells_exponentSign : (opt (oneOf "-+")).Spells {g | IsExponentSign g} := by
  intro c e
  rw [(spells_oneOf "-+").opt c e]
  refine exists_congr fun w => and_congr_left fun _ => ?_
  exact or_comm

theorem spells_whole : (all [opt (oneOf "-"), plus digit]).Spells wholeForms := by
  intro c e
  rw [show all [opt (oneOf "-"), plus digit] = .seq (opt (oneOf "-")) (plus digit) from rfl,
    spells_sign.seq spells_digits]
  refine exists_congr fun w => and_congr_left fun _ => ?_
  constructor
  · rintro ⟨s, hs, ds, ⟨hne, hd⟩, rfl⟩
    exact ⟨s, ds, hs, hne, hd, rfl⟩
  · rintro ⟨s, ds, hs, hne, hd, rfl⟩
    exact ⟨s, hs, ds, ⟨hne, hd⟩, rfl⟩

theorem spells_point :
    (all [opt (oneOf "-"), choice [all [plus digit, oneOf ".", star digit],
      seq (oneOf ".") (plus digit)]]).Spells pointForms := by
  have hboth := spells_digits.seq ((spells_oneOf ".").seq spells_optionalDigits)
  have hafter := (spells_oneOf ".").seq spells_digits
  have hall := spells_sign.seq (hboth.alt hafter)
  intro c e
  refine Iff.trans (hall c e) (exists_congr fun w => and_congr_left fun _ => ?_)
  constructor
  · rintro ⟨s, hs, v, ⟨ds, ⟨hne, hd⟩, _, ⟨_, ⟨x, hx, rfl⟩, fs, hf, rfl⟩, rfl⟩ |
      ⟨_, ⟨x, hx, rfl⟩, fs, ⟨hne, hf⟩, rfl⟩, rfl⟩
    · obtain rfl : x = '.' := by simpa using hx
      exact ⟨s, ds, fs, hs, hd, hf, .inl hne, rfl⟩
    · obtain rfl : x = '.' := by simpa using hx
      exact ⟨s, [], fs, hs, by simp [Digits], hf, .inr hne, rfl⟩
  · rintro ⟨s, ds, fs, hs, hd, hf, hne, rfl⟩
    refine ⟨s, hs, _, ?_, rfl⟩
    by_cases hds : ds = []
    · subst hds
      exact .inr ⟨['.'], ⟨'.', by decide, rfl⟩, fs, ⟨hne.resolve_left fun h => h rfl, hf⟩, rfl⟩
    · exact .inl ⟨ds, ⟨hds, hd⟩, _, ⟨['.'], ⟨'.', by decide, rfl⟩, fs, hf, rfl⟩, rfl⟩

theorem spells_exponent :
    (all [opt (oneOf "-"), plus digit, opt (seq (oneOf ".") (plus digit)), oneOf "eE",
      opt (oneOf "-+"), plus digit]).Spells exponentForms := by
  have hall := spells_sign.seq (spells_digits.seq (spells_fraction.seq
    ((spells_oneOf "eE").seq (spells_exponentSign.seq spells_digits))))
  intro c e
  refine Iff.trans (hall c e) (exists_congr fun w => and_congr_left fun _ => ?_)
  constructor
  · rintro ⟨s, hs, _, ⟨ds, ⟨hne, hd⟩, _, ⟨f, hf, _, ⟨_, ⟨x, hx, rfl⟩, _, ⟨g, hg, es, ⟨hnee, he⟩,
      rfl⟩, rfl⟩, rfl⟩, rfl⟩, rfl⟩
    exact ⟨s, ds, f, x, g, es, hs, hne, hd, hf, hx, hg, hnee, he, rfl⟩
  · rintro ⟨s, ds, f, x, g, es, hs, hne, hd, hf, hx, hg, hnee, he, rfl⟩
    exact ⟨s, hs, _, ⟨ds, ⟨hne, hd⟩, _, ⟨f, hf, _, ⟨[x], ⟨x, hx, rfl⟩, _, ⟨g, hg, es, ⟨hnee, he⟩,
      rfl⟩, rfl⟩, rfl⟩, rfl⟩, rfl⟩

/-! ## The rules -/

/-- A numeral that ends with its point. -/
def IsPointed (w : Text) : Prop :=
  ∃ s ds, IsSign s ∧ ds ≠ [] ∧ Digits ds ∧ w = s ++ (ds ++ ['.'])

/-- What all forms of numerals have in common: there is no blank in them, and they end with a digit
or with a point after digits. -/
structure IsNumeral (w : Text) : Prop where
  proper : w ≠ []
  solid : ∀ x ∈ w, isBlank x = false
  ending : w.getLast?.any isWord = true ∨ IsPointed w

theorem Digits.isBlank {ds : Text} (h : Digits ds) : ∀ x ∈ ds, isBlank x = false :=
  fun x hx => isBlank_eq_false_of_isWord (isWord_of_isDigit (h x hx))

theorem IsSign.isBlank {s : Text} (h : IsSign s) : ∀ x ∈ s, isBlank x = false := by
  rcases h with rfl | rfl <;> decide

theorem Digits.getLast?_append {ds : Text} (h : Digits ds) (hne : ds ≠ []) (w : Text) :
    (w ++ ds).getLast?.any isWord = true := by
  rw [List.getLast?_append, List.getLast?_eq_some_getLast hne]
  exact isWord_of_isDigit (h _ (List.getLast_mem hne))

theorem isNumeral_of_mem_wholeForms {w : Text} (h : w ∈ wholeForms) : IsNumeral w := by
  obtain ⟨s, ds, hs, hne, hd, rfl⟩ := h
  refine ⟨by simp [hne], ?_, .inl (hd.getLast?_append hne s)⟩
  intro x hx
  rcases List.mem_append.1 hx with hx | hx
  · exact hs.isBlank x hx
  · exact hd.isBlank x hx

theorem isNumeral_of_mem_pointForms {w : Text} (h : w ∈ pointForms) : IsNumeral w := by
  obtain ⟨s, ds, fs, hs, hd, hf, hne, rfl⟩ := h
  refine ⟨by simp, ?_, ?_⟩
  · intro x hx
    simp only [List.mem_append, List.mem_cons] at hx
    rcases hx with hx | hx | rfl | hx
    · exact hs.isBlank x hx
    · exact hd.isBlank x hx
    · decide
    · exact hf.isBlank x hx
  · by_cases hfs : fs = []
    · subst hfs
      exact .inr ⟨s, ds, hs, hne.resolve_right fun h => h rfl, hd, rfl⟩
    · left
      have hword := hf.getLast?_append hfs (s ++ (ds ++ ['.']))
      simpa using hword

theorem isNumeral_of_mem_exponentForms {w : Text} (h : w ∈ exponentForms) : IsNumeral w := by
  obtain ⟨s, ds, f, x, g, es, hs, -, hd, hf, hx, hg, hne, he, rfl⟩ := h
  refine ⟨by simp, ?_, ?_⟩
  · have hletter : isBlank x = false := by
      have hall : ∀ y ∈ "eE".toList, isBlank y = false := by decide
      exact hall x hx
    intro y hy
    simp only [List.mem_append, List.mem_cons] at hy
    rcases hy with hy | hy | hy | rfl | hy | hy
    · exact hs.isBlank y hy
    · exact hd.isBlank y hy
    · rcases hf with rfl | ⟨fs, rfl, -, hfs⟩
      · exact absurd hy List.not_mem_nil
      · rcases List.mem_cons.1 hy with rfl | hy
        · decide
        · exact hfs.isBlank y hy
    · exact hletter
    · rcases hg with rfl | ⟨z, hz, rfl⟩
      · exact absurd hy List.not_mem_nil
      · have hall : ∀ y ∈ "-+".toList, isBlank y = false := by decide
        rw [List.mem_singleton.1 hy]
        exact hall z hz
    · exact he.isBlank y hy
  · left
    have hword := he.getLast?_append hne (s ++ (ds ++ (f ++ x :: g)))
    simpa using hword

/-- The rule reads the words of a language of numerals where nothing touches them. -/
structure ReadsNumeral (r : Rule) (L : Language Char) : Prop where
  pattern : ∃ p : Pattern, r.matcher = p ∧ ∀ c e, e ∈ p.ends c ↔
    Untouched c.before ∧ ∃ w ∈ L, c.Reads w e ∧ Untouched e.rest
  decided : Decided L
  numeral : ∀ w ∈ L, IsNumeral w

theorem readsNumeral_exponent : ReadsNumeral exponentNumber exponentForms where
  pattern := ⟨_, rfl, fun _ _ => mem_ends_number spells_exponent⟩
  decided := exponentForms_decided
  numeral _ := isNumeral_of_mem_exponentForms

theorem readsNumeral_point : ReadsNumeral pointNumber pointForms where
  pattern := ⟨_, rfl, fun _ _ => mem_ends_number spells_point⟩
  decided := pointForms_decided
  numeral _ := isNumeral_of_mem_pointForms

theorem readsNumeral_whole : ReadsNumeral wholeNumber wholeForms where
  pattern := ⟨_, rfl, fun _ _ => mem_ends_number spells_whole⟩
  decided := wholeForms_decided
  numeral _ := isNumeral_of_mem_wholeForms

/-- A rule for numbers applies exactly where nothing touches a numeral of its form. -/
theorem ReadsNumeral.end?_eq_some_iff {r : Rule} {L : Language Char} (h : ReadsNumeral r L)
    {c e : Cursor} :
    r.end? c = some e ↔ Untouched c.before ∧ ∃ w ∈ L, c.Reads w e ∧ Untouched e.rest := by
  obtain ⟨p, hr, hends⟩ := h.pattern
  rw [← hends]
  refine Rule.end?_eq_some_iff_mem_ends hr ?_ ?_
  · intro d hd e he
    obtain ⟨-, v, hv, hread, hafter⟩ := (hends c d).1 hd
    obtain ⟨-, w, hw, hread', hafter'⟩ := (hends c e).1 he
    have hvw : v = w := by
      refine h.decided v hv w hw d.rest e.rest hafter hafter' ?_
      rw [← hread.rest_eq, hread'.rest_eq]
    exact hread.unique (hvw ▸ hread')
  · intro e he
    obtain ⟨-, w, hw, hread, -⟩ := (hends c e).1 he
    exact hread.shorter_iff.2 (h.numeral w hw).proper

end SqlLayout.Sql
