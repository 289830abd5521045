import SqlLayout.Proofs.Lexer.Sql.Shapes

/-!
# Delimited numbers

A number of some form stands between two places of a text if the characters between them are a
numeral of the form and no character that may touch a number stands on either side (`Delimits`).
From a place a form has one such number at most. The token at its start is a number if some form has
one there, and then it is that of the first form in the order of the rules
(`firstMatch?_eq_some_iff_firstForm`).
-/

namespace SqlLayout

/-- The characters between two places are read from the one to the other. -/
theorem Cursor.reads_at {s : Text} {a b : Nat} (hab : a ≤ b) (hb : b ≤ s.length) :
    (Cursor.at s a).Reads ((s.take b).drop a) (.at s b) where
  rest_eq := by
    have hlen : a ≤ (s.take b).length := by
      rw [List.length_take]
      omega
    show s.drop a = (s.take b).drop a ++ s.drop b
    rw [← List.drop_append_of_le_length hlen, List.take_append_drop]
  before_eq := by
    have htake : s.take a = (s.take b).take a := by rw [List.take_take, Nat.min_eq_left hab]
    show (s.take b).reverse = ((s.take b).drop a).reverse ++ (s.take a).reverse
    rw [htake, ← List.reverse_append, List.take_append_drop]

namespace Sql

open Lexer Text Pattern

variable {b r s : Text} {t : Token} {L : Language Char} {kind : Kind}
  {forms : List (Language Char × Kind)}

/-! ## Numbers between two places -/

/-- The forms of numbers in the order of their rules, each with the kind of its numbers. -/
def numberForms : List (Language Char × Kind) :=
  [(exponentForms, .numberFloat), (pointForms, .numberFloat), (wholeForms, .numberInteger)]

/-- Between these places stands a literal of the form that nothing touches. -/
structure Delimits (L : Language Char) (s : Text) (first last : Nat) : Prop where
  le : first ≤ last
  within : last ≤ s.length
  literal : (s.take last).drop first ∈ L
  before : Untouched (s.take first).reverse
  after : Untouched (s.drop last)

variable {first last last' : Nat}

theorem Delimits.reads (h : Delimits L s first last) :
    (Cursor.at s first).Reads ((s.take last).drop first) (.at s last) :=
  Cursor.reads_at h.le h.within

/-- From a place only one number of a form is delimited. -/
theorem Delimits.unique (hL : Decided L) (h : Delimits L s first last)
    (h' : Delimits L s first last') : last = last' := by
  have hsame : (s.take last).drop first = (s.take last').drop first := by
    apply hL _ h.literal _ h'.literal (s.drop last) (s.drop last') h.after h'.after
    exact h.reads.rest_eq.symm.trans h'.reads.rest_eq
  have hlen := congrArg List.length hsame
  have hle := h.le
  have hle' := h'.le
  have hwithin := h.within
  have hwithin' := h'.within
  rw [List.length_drop, List.length_drop, List.length_take, List.length_take] at hlen
  omega

/-- A rule for numbers applies at a place of a text if a number of its form is delimited there. -/
theorem ReadsNumeral.end?_at_iff {rule : Rule} {d : Cursor} (h : ReadsNumeral rule L) :
    rule.end? (.at s first) = some d ↔ ∃ last, d = .at s last ∧ Delimits L s first last := by
  rw [h.end?_eq_some_iff]
  constructor
  · rintro ⟨hbefore, w, hw, hread, hafter⟩
    obtain rfl := hread.of_at
    refine ⟨first + w.length, rfl, Nat.le_add_right first w.length, ?_, ?_, hbefore, hafter⟩
    · -- the literal is not empty, so it begins within the text
      have hpos := List.length_pos_iff.2 (h.numeral w hw).proper
      have hlen : (s.drop first).length = w.length + (s.drop (first + w.length)).length :=
        hread.length_eq
      rw [List.length_drop, List.length_drop] at hlen
      omega
    · rw [hread.slice]
      exact hw
  · rintro ⟨last, rfl, hdelimits⟩
    exact ⟨hdelimits.before, _, hdelimits.literal, hdelimits.reads, hdelimits.after⟩

/-! ## The first form that has a number -/

/-- The first of the forms with a number from this place has it up to that one, and it is of this
kind. -/
inductive FirstForm (s : Text) (first : Nat) : List (Language Char × Kind) → Nat → Kind → Prop
  | here {L : Language Char} {kind : Kind} {forms : List (Language Char × Kind)} {last : Nat}
      (h : Delimits L s first last) : FirstForm s first ((L, kind) :: forms) last kind
  | later {L : Language Char} {kind kind' : Kind} {forms : List (Language Char × Kind)} {last : Nat}
      (hnone : ∀ other, ¬Delimits L s first other) (h : FirstForm s first forms last kind) :
      FirstForm s first ((L, kind') :: forms) last kind

theorem FirstForm.exists_mem (h : FirstForm s first forms last kind) :
    ∃ L, (L, kind) ∈ forms ∧ Delimits L s first last := by
  induction h with
  | here h => exact ⟨_, List.mem_cons_self, h⟩
  | later _ _ ih =>
    obtain ⟨L, hmem, hdelimits⟩ := ih
    exact ⟨L, List.mem_cons_of_mem _ hmem, hdelimits⟩

/-- If some form has a number there is a first one. -/
theorem exists_firstForm {form : Language Char × Kind} (hform : form ∈ forms)
    (h : Delimits form.1 s first last) : ∃ last kind, FirstForm s first forms last kind := by
  induction forms with
  | nil => exact absurd hform List.not_mem_nil
  | cons form' forms ih =>
    obtain ⟨L, kind⟩ := form'
    by_cases hhere : ∃ other, Delimits L s first other
    · obtain ⟨other, hother⟩ := hhere
      exact ⟨other, kind, .here hother⟩
    · rcases List.mem_cons.1 hform with rfl | hform
      · exact absurd ⟨last, h⟩ hhere
      · obtain ⟨other, kind', hlater⟩ := ih hform
        exact ⟨other, kind', .later (fun l hl => hhere ⟨l, hl⟩) hlater⟩

/-- Rules for numbers, one for each form, cut the number of the first form that has one. -/
theorem firstMatch?_eq_some_iff_firstForm {rules : List Rule} {d : Cursor}
    (h : List.Forall₂ (fun r form => ReadsNumeral r form.1 ∧ r.kind = form.2) rules forms) :
    firstMatch? rules (.at s first) = some (kind, d) ↔
      ∃ last, d = .at s last ∧ FirstForm s first forms last kind := by
  induction h with
  | nil =>
    constructor
    · intro hmatch
      exact nomatch hmatch
    · rintro ⟨last, -, hfirst⟩
      exact nomatch hfirst
  | @cons rule form rules forms hrule _ ih =>
    obtain ⟨L, kind'⟩ := form
    obtain ⟨hreads, hkind⟩ := hrule
    rw [← List.singleton_append, firstMatch?_append, firstMatch?_singleton]
    cases hend : rule.end? (.at s first) with
    | none =>
      have hnone : ∀ other, ¬Delimits L s first other := by
        intro other hother
        rw [hreads.end?_at_iff.2 ⟨other, rfl, hother⟩] at hend
        exact nomatch hend
      rw [Option.map_none, Option.none_or, ih]
      constructor
      · rintro ⟨last, rfl, hfirst⟩
        exact ⟨last, rfl, .later hnone hfirst⟩
      · rintro ⟨last, rfl, hfirst⟩
        cases hfirst with
        | here hhere => exact absurd hhere (hnone last)
        | later _ hlater => exact ⟨last, rfl, hlater⟩
    | some e =>
      obtain ⟨last, rfl, hhere⟩ := hreads.end?_at_iff.1 hend
      rw [Option.map_some, Option.some_or, Option.some.injEq, Prod.mk.injEq]
      constructor
      · rintro ⟨rfl, rfl⟩
        exact ⟨last, rfl, hkind ▸ .here hhere⟩
      · rintro ⟨last', rfl, hfirst⟩
        cases hfirst with
        | here hhere' => exact ⟨hkind, by rw [hhere.unique hreads.decided hhere']⟩
        | later hnone _ => exact absurd hhere (hnone last)

theorem firstMatch?_numberRules_iff {d : Cursor} :
    firstMatch? numberRules (.at s first) = some (kind, d) ↔
      ∃ last, d = .at s last ∧ FirstForm s first numberForms last kind :=
  firstMatch?_eq_some_iff_firstForm (.cons ⟨readsNumeral_exponent, rfl⟩
    (.cons ⟨readsNumeral_point, rfl⟩ (.cons ⟨readsNumeral_whole, rfl⟩ .nil)))

/-! ## The tokens -/

/-- At a start the token is a number exactly if some form has one there, and it is that of the first
such form. -/
theorem mem_tokens_number_iff (hstart : IsStart (tokens s) first) :
    t ∈ tokens s ∧ t.offset = first ∧ t.kind ∈ numberKinds ↔
      t.offset = first ∧
        ∃ last, FirstForm s first numberForms last t.kind ∧ t.value = (s.take last).drop first := by
  rw [← and_assoc, mem_tokens_iff_cut hstart]
  constructor
  · rintro ⟨⟨hoffset, r, hdrop, hcut⟩, hkind⟩
    have hmatch := cut_number_iff.1 ⟨hcut, hkind⟩
    rw [← hdrop] at hmatch
    obtain ⟨last, hplace, hfirst⟩ := firstMatch?_numberRules_iff.1 hmatch
    obtain ⟨L, -, hdelimits⟩ := hfirst.exists_mem
    refine ⟨hoffset, last, hfirst, ?_⟩
    have hread : (Cursor.at s first).Reads t.value (.at s last) := by
      rw [← hplace, Cursor.at, hdrop]
      exact .over _ t.value r
    exact hread.text_unique hdelimits.reads
  · rintro ⟨hoffset, last, hfirst, hvalue⟩
    obtain ⟨L, -, hdelimits⟩ := hfirst.exists_mem
    have hread := hdelimits.reads
    rw [← hvalue] at hread
    have hmatch := firstMatch?_numberRules_iff.2 ⟨last, rfl, hfirst⟩
    have hplace : Cursor.at s last = ⟨t.value.reverse ++ (s.take first).reverse, s.drop last⟩ := by
      rw [Cursor.at, Cursor.mk.injEq]
      exact ⟨hread.before_eq, rfl⟩
    have hdrop : s.drop first = t.value ++ s.drop last := hread.rest_eq
    rw [hplace, Cursor.at, hdrop] at hmatch
    obtain ⟨hcut, hkind⟩ := cut_number_iff.2 hmatch
    exact ⟨⟨hoffset, s.drop last, hdrop, hcut⟩, hkind⟩

/-- The numbers of a query are the delimited ones: each form delimits at most one from a place, a
token is a number if some form delimits one from its start, and it is that of the first such form.
No run of digits goes on before or after a number. -/
theorem tokenize_numbers (s : Text) :
    ∃ ts, lexer.tokenize s false = .ok ts ∧
      (∀ form ∈ numberForms, ∀ first last last', Delimits form.1 s first last →
        Delimits form.1 s first last' → last = last') ∧
      (∀ first, IsStart ts first →
        ((∃ t ∈ ts, t.offset = first ∧ t.kind ∈ numberKinds) ↔
          ∃ form ∈ numberForms, ∃ last, Delimits form.1 s first last) ∧
        ∀ t, t ∈ ts ∧ t.offset = first ∧ t.kind ∈ numberKinds ↔
          t.offset = first ∧ ∃ last, FirstForm s first numberForms last t.kind ∧
            t.value = (s.take last).drop first) ∧
      ∀ t ∈ ts, t.kind ∈ numberKinds →
        NoDigit (s.take t.offset.toNat).reverse ∧ NoDigit (s.drop t.stop.toNat) := by
  refine ⟨tokens s, tokenize_eq_ok resolved s, ?_, ?_, ?_⟩
  · intro form hform first last last' h h'
    have hall : ∀ form ∈ numberForms, Decided form.1 := by
      simp [numberForms, exponentForms_decided, pointForms_decided, wholeForms_decided]
    exact h.unique (hall form hform) h'
  · intro first hstart
    refine ⟨⟨?_, ?_⟩, fun t => mem_tokens_number_iff hstart⟩
    · rintro ⟨t, ht, hoffset, hkind⟩
      obtain ⟨-, last, hfirst, -⟩ := (mem_tokens_number_iff hstart).1 ⟨ht, hoffset, hkind⟩
      obtain ⟨L, hmem, hdelimits⟩ := hfirst.exists_mem
      exact ⟨_, hmem, last, hdelimits⟩
    · rintro ⟨form, hform, last, hdelimits⟩
      obtain ⟨last, kind, hfirst⟩ := exists_firstForm hform hdelimits
      refine ⟨⟨kind, (s.take last).drop first, first⟩, ?_⟩
      exact (mem_tokens_number_iff hstart).2 ⟨rfl, last, hfirst, rfl⟩
  · intro t ht hkind
    obtain ⟨hbefore, hafter, -⟩ := (cut_of_mem_tokens ht).2.untouched hkind
    exact ⟨hbefore.noDigit, hafter.noDigit⟩

/-- After a digit a hyphen is no sign of a number. -/
example : tokens "-5-3".toList =
    [⟨.numberInteger, "-5".toList, 0⟩, ⟨.operator, "-".toList, 2⟩, ⟨.numberInteger, "3".toList, 3⟩] := by
  decide +kernel

end Sql

end SqlLayout
