import SqlLayout.Proofs.Lexer.Sql.Edges
import SqlLayout.Proofs.Lexer.Sql.Rows

/-!
# Pieces between other texts

A piece is cut again between other texts if these give it no occasion to end elsewhere: a run must
still stop, no numeral and no phrase may be read that was not read before, and a quote may not be
doubled. `Moves` lists these conditions, and `Piece.moved` shows that they suffice.
-/

namespace SqlLayout.Sql

open Lexer Text

variable {b b' v w r r' s s' : Text} {kind : Kind}

/-! ## Numerals of any form -/

/-- A numeral of one of the three forms. -/
def Numeral (w : Text) : Prop := w ∈ wholeForms ∨ w ∈ pointForms ∨ w ∈ exponentForms

theorem Numeral.isNumeral (h : Numeral w) : IsNumeral w := by
  rcases h with h | h | h
  · exact isNumeral_of_mem_wholeForms h
  · exact isNumeral_of_mem_pointForms h
  · exact isNumeral_of_mem_exponentForms h

/-- A numeral begins with a digit or a point, perhaps after a sign. -/
theorem Numeral.exists_lead (h : Numeral w) :
    ∃ sg x t, IsSign sg ∧ (isDigit x = true ∨ x = '.') ∧ w = sg ++ x :: t := by
  have hdigits : ∀ {sg ds : Text}, IsSign sg → ds ≠ [] → Digits ds → ∀ u,
      ∃ sg' x t, IsSign sg' ∧ (isDigit x = true ∨ x = '.') ∧ sg ++ (ds ++ u) = sg' ++ x :: t := by
    intro sg ds hsg hne hds u
    obtain ⟨x, ds, rfl⟩ := List.exists_cons_of_ne_nil hne
    exact ⟨sg, x, ds ++ u, hsg, .inl (hds x List.mem_cons_self), rfl⟩
  rcases h with ⟨sg, ds, hsg, hne, hds, rfl⟩ | ⟨sg, ds, fs, hsg, hds, -, -, rfl⟩ |
    ⟨sg, ds, f, x, g, es, hsg, hne, hds, -, -, -, -, -, rfl⟩
  · have hwhole := hdigits hsg hne hds []
    rwa [List.append_nil] at hwhole
  · by_cases hne : ds = []
    · subst hne
      exact ⟨sg, '.', fs, hsg, .inr rfl, rfl⟩
    · exact hdigits hsg hne hds _
  · exact hdigits hsg hne hds _

/-- So it begins no comment. -/
theorem Numeral.not_comment (h : Numeral w) (r : Text) : ¬"--".toList <+: w ++ r := by
  obtain ⟨sg, x, t, hsg, hx, rfl⟩ := h.exists_lead
  have hhyphen : '-' ≠ x := by
    rintro rfl
    exact absurd hx (by decide)
  rintro ⟨u, hu⟩
  rcases hsg with rfl | rfl
  · exact hhyphen (List.cons.inj hu).1
  · exact hhyphen (List.cons.inj (List.cons.inj hu).2).1

theorem exists_readsNumeral_form {rule : Rule} (h : rule ∈ numberRules) :
    ∃ L, ReadsNumeral rule L ∧ ∀ w ∈ L, Numeral w := by
  simp only [numberRules, List.mem_cons, List.not_mem_nil, or_false] at h
  rcases h with rfl | rfl | rfl
  · exact ⟨_, readsNumeral_exponent, fun w hw => .inr (.inr hw)⟩
  · exact ⟨_, readsNumeral_point, fun w hw => .inr (.inl hw)⟩
  · exact ⟨_, readsNumeral_whole, fun w hw => .inl hw⟩

/-- The numerals that nothing touches at the second place are such numerals at the first one. -/
def KeepsNumerals (b s b' s' : Text) : Prop :=
  ∀ w u', Numeral w → Untouched b' → s' = w ++ u' → Untouched u' →
    Untouched b ∧ ∃ u, s = w ++ u ∧ Untouched u

theorem KeepsNumerals.silent (h : KeepsNumerals b s b' s') {rule : Rule}
    (hrule : rule ∈ numberRules)
    (hnone : rule.end? ⟨b, s⟩ = none) : rule.end? ⟨b', s'⟩ = none := by
  obtain ⟨L, hreads, hform⟩ := exists_readsNumeral_form hrule
  rw [Option.eq_none_iff_forall_not_mem]
  intro e' he'
  obtain ⟨hb', w, hw, hread, hafter⟩ := hreads.end?_eq_some_iff.1 he'
  obtain ⟨hb, u, rfl, hu⟩ := h w e'.rest (hform w hw) hb' hread.rest_eq hafter
  have hend := hreads.end?_eq_some_iff.2 ⟨hb, w, hw, .over b w u, hu⟩
  rw [hnone] at hend
  exact nomatch hend

theorem KeepsNumerals.firstMatch?_eq_none (h : KeepsNumerals b s b' s')
    (hnone : firstMatch? numberRules ⟨b, s⟩ = none) : firstMatch? numberRules ⟨b', s'⟩ = none := by
  rw [firstMatch?_eq_none_iff] at hnone ⊢
  exact fun rule hrule => h.silent hrule (hnone rule hrule)

/-- A number is read at the second place if nothing touches it there. -/
theorem KeepsNumerals.firstMatch? (h : KeepsNumerals b (v ++ r) b' (v ++ r'))
    (hb' : Untouched b') (hr' : Untouched r')
    (hread : firstMatch? numberRules ⟨b, v ++ r⟩ = some (kind, ⟨v.reverse ++ b, r⟩)) :
    Lexer.firstMatch? numberRules ⟨b', v ++ r'⟩ = some (kind, ⟨v.reverse ++ b', r'⟩) := by
  refine firstMatch?_carried (fun rule hrule => h.silent hrule) (fun rule hrule hend => ?_) hread
  obtain ⟨L, hreads, -⟩ := exists_readsNumeral_form hrule
  exact hreads.carried (fun _ => hb') (fun _ => hr') hend

theorem numeral_of_numberRules
    (h : firstMatch? numberRules ⟨b, v ++ r⟩ = some (kind, ⟨v.reverse ++ b, r⟩)) : Numeral v := by
  obtain ⟨rule, hrule, hend, -⟩ := exists_rule_of_firstMatch? h
  obtain ⟨L, hreads, hform⟩ := exists_readsNumeral_form hrule
  obtain ⟨-, w, hw, hread, -⟩ := hreads.end?_eq_some_iff.1 hend
  obtain rfl : v = w := (Cursor.Reads.over b v r).text_unique hread
  exact hform v hw

/-! ## Moved pieces -/

/-- The tests of the characters that runs are made of, blanks aside. -/
def runTests : List (Char → Bool) :=
  [fun y => decide (y ∈ "<>=~!".toList), isArithmetic, isWordPart]

theorem runTests_of_isBlank : ∀ f ∈ runTests, ∀ x, isBlank x = true → f x = false := by
  intro f hf
  simp only [runTests, List.mem_cons, List.not_mem_nil, or_false] at hf
  rcases hf with rfl | rfl | rfl
  · exact eq_false_of_isBlank (by decide)
  · exact isArithmetic_of_isBlank
  · exact isWordPart_of_isBlank

/-- What lets a piece that is cut between `b` and `r` be cut between `b'` and `r'`. -/
structure Moves (v : Text) (kind : Kind) (b r b' r' : Text) : Prop where
  stops : kind ≠ .keyword → ∀ f ∈ runTests, v.getLast?.any f = true → r.head?.any f = false →
    r'.head?.any f = false
  numerals : KeepsNumerals b (v ++ r) b' (v ++ r')
  number : kind ∈ [.numberFloat, .numberInteger] → Untouched b' ∧ Untouched r'
  quotes : ∀ q ∈ "'`".toList, q ∈ r' → q ∈ r
  doubled : v.getLast? = some '\'' → ∀ u', r' = '\'' :: u' →
    ∃ u, r = '\'' :: u ∧ ('\'' ∈ u' → '\'' ∈ u)
  phrase : kind = .keyword → r'.head?.any isWord = false
  phrases : kind = .useAsKeyword → (∀ v₁ r₁, v ++ r = v₁ ++ r₁ → ¬IsPhraseAt v₁ r₁) →
    ∀ v₁ r₁, v ++ r' = v₁ ++ r₁ → ¬IsPhraseAt v₁ r₁

theorem IsRun.getLast?_any {f : Char → Bool} (h : IsRun f v r) (hne : v ≠ []) :
    v.getLast?.any f = true := by
  rw [List.getLast?_eq_some_getLast hne]
  exact h.all _ (List.getLast_mem hne)

/-- A run that stops is moved. -/
theorem IsRun.moved {f : Char → Bool} {x : Char} (h : IsRun f (x :: w) r)
    (hm : Moves (x :: w) kind b r b' r') (hkind : kind ≠ .keyword) (hf : f ∈ runTests) :
    IsRun f (x :: w) r' :=
  ⟨h.all, hm.stops hkind f hf (h.getLast?_any (List.cons_ne_nil x w)) h.stops⟩

theorem Piece.moved (h : Piece b v r kind) (hblank : kind.isBlank = false)
    (hcomment : kind ≠ .comment) (hm : Moves v kind b r b' r') : Piece b' v r' kind := by
  cases h with
  | lineEnds => exact absurd hblank (by decide)
  | blanks => exact absurd hblank (by decide)
  | star => exact .star b' r'
  | mark hx => exact .mark hx
  | comparison hx run => exact .comparison hx (run.moved hm (by decide) (by simp [runTests]))
  | sign hx run => exact .sign hx (run.moved hm (by decide) (by simp [runTests]))
  | comment => exact absurd rfl hcomment
  | @hyphen _ w hdashes hnumber run =>
    have run' := run.moved hm (by decide) (by simp [runTests])
    refine .hyphen ?_ (hm.numerals.firstMatch?_eq_none hnumber) run'
    -- a second hyphen would belong to the run, and there it begins no comment
    rintro ⟨u, hu⟩
    have hsecond := (List.cons.inj hu).2
    cases w with
    | nil =>
      have hstop := run'.stops
      rw [← show '-' :: u = r' from hsecond] at hstop
      exact absurd hstop (by simp [isArithmetic])
    | cons y w =>
      obtain rfl : '-' = y := (List.cons.inj hsecond).1
      exact hdashes ⟨w ++ r, rfl⟩
  | number _ h =>
    obtain ⟨hb', hr'⟩ := hm.number (kind_of_numberRules h)
    exact .number ((numeral_of_numberRules h).not_comment r') (hm.numerals.firstMatch? hb' hr' h)
  | point hnumber => exact .point (hm.numerals.firstMatch?_eq_none hnumber)
  | singleQuoted h =>
    refine .singleQuoted (close?_carried (hm.quotes _ (by decide)) (fun _ => hm.doubled ?_) h)
    simp [List.getLast?_cons, getLast?_close? h]
  | backQuoted h =>
    refine .backQuoted (close?_carried (hm.quotes _ (by decide)) (fun hopen => ?_) h)
    exact absurd hopen (by decide)
  | phrase h =>
    obtain ⟨rfl, hrow, -⟩ := firstMatch?_phraseRules_iff.1 h
    exact .phrase (firstMatch?_phraseRules_iff.2 ⟨rfl, hrow, hm.phrase rfl⟩)
  | word hx hphrase run =>
    refine .word hx ?_ (run.moved hm (by decide) (by simp [runTests]))
    rw [firstMatch?_phraseRules_eq_none_iff] at hphrase ⊢
    exact hm.phrases rfl hphrase
  | digits hx hnumber run =>
    exact .digits hx (hm.numerals.firstMatch?_eq_none hnumber)
      (run.moved hm (by decide) (by simp [runTests]))

end SqlLayout.Sql
