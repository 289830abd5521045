import SqlLayout.Proofs.Lexer.Extension
import SqlLayout.Proofs.Lexer.Sql.Tokens

/-!
# Operators

There are two rules for arithmetic signs, and the one of the higher priority asks for a word behind
them. Its match backtracks to a word edge, but between two signs there is none, so it reads all of
them or does not apply. The rules between the two open with no sign: whatever the first rule reads
the second one reads as well, and nothing changes if the first is left out. So an operator is a run
of signs that goes as far as it can.
-/

namespace SqlLayout

/-- A rule may be left out where the rules after it find what it would. -/
theorem Lexer.firstMatch?_leaveOut {earlier later : List Rule} {rule : Rule} {c : Cursor}
    (h : ∀ e, rule.end? c = some e → firstMatch? later c = some (rule.kind, e)) :
    firstMatch? (earlier ++ later) c = firstMatch? (earlier ++ rule :: later) c := by
  have hlater : firstMatch? (rule :: later) c = firstMatch? later c := by
    show firstMatch? ([rule] ++ later) c = _
    rw [firstMatch?_append, firstMatch?_singleton]
    cases hend : rule.end? c with
    | none => rfl
    | some e => rw [h e hend, Option.map_some, Option.some_or]
  rw [firstMatch?_append, firstMatch?_append, hlater]

namespace Sql

open Lexer

variable {b r : Text} {x : Char} {t : Text} {u : Token} {c e : Cursor}

/-! ## Without the rule for signs before a word -/

/-- The lexer of SQL without its rule for arithmetic signs that a word follows. -/
def unguarded : Lexer := ⟨rules.eraseIdx 14, keywordTable⟩

example : rules = rules.take 14 ++ arithmeticBeforeWord :: [word, punctuation, arithmetic] := rfl

theorem lead_of_arithmeticBeforeWord (h : arithmeticBeforeWord.end? ⟨b, x :: t⟩ = some e) :
    lead x = .hyphen ∨ lead x = .sign := by
  have hmem : (arithmeticBeforeWord, [Lead.hyphen, .sign]) ∈ ruleLeads := by simp [ruleLeads]
  rw [← List.mem_pair]
  by_contra hnot
  have hnone : arithmeticBeforeWord.end? ⟨b, x :: t⟩ = none := by
    exact end?_eq_none_of_lead hmem hnot b t
  rw [hnone] at h
  cases h

/-- A character that opens a run of arithmetic signs opens no word and is no punctuation mark. -/
theorem firstMatch?_of_sign (hx : lead x = .hyphen ∨ lead x = .sign) :
    firstMatch? [word, punctuation, arithmetic] ⟨b, x :: t⟩ =
      some (.operator, (⟨b, x :: t⟩ : Cursor).past isArithmetic) := by
  have hword : word.end? ⟨b, x :: t⟩ = none := by
    have hmem : (word, [Lead.digit, .letter]) ∈ ruleLeads := by simp [ruleLeads]
    refine end?_eq_none_of_lead hmem ?_ b t
    rcases hx with hx | hx <;> simp [hx]
  have hmark : punctuation.end? ⟨b, x :: t⟩ = none := by
    have hmem : (punctuation, [Lead.point, .mark]) ∈ ruleLeads := by simp [ruleLeads]
    refine end?_eq_none_of_lead hmem ?_ b t
    rcases hx with hx | hx <;> simp [hx]
  have hsign : x ∈ "+/@#%^&|-".toList := by
    rcases hx with hx | hx
    · rw [show x = '-' from fits_of_lead hx]
      decide
    · have hsub : ∀ y ∈ "+/@#%^&|".toList, y ∈ "+/@#%^&|-".toList := by decide
      exact hsub x (fits_of_lead hx)
  show firstMatch? ([word] ++ ([punctuation] ++ [arithmetic])) _ = _
  rw [firstMatch?_append, firstMatch?_append, firstMatch?_singleton, firstMatch?_singleton,
    firstMatch?_singleton, hword, hmark, arithmetic, end?_runOf _ hsign]
  rfl

/-- What the rule for signs before a word reads, the rules after it read, too. -/
theorem firstMatch?_behindGuard (h : arithmeticBeforeWord.end? c = some e) :
    firstMatch? [word, punctuation, arithmetic] c = some (.operator, e) := by
  obtain rfl := end?_arithmeticBeforeWord h
  obtain ⟨b, _ | ⟨x, t⟩⟩ := c
  · -- at the end of the text no rule applies
    obtain ⟨w, hw, hne, -⟩ := Rule.reads_of_end? h
    exact absurd (List.append_eq_nil_iff.1 hw.rest_eq.symm).1 hne
  · exact firstMatch?_of_sign (lead_of_arithmeticBeforeWord h)

theorem firstMatch?_unguarded (c : Cursor) :
    firstMatch? unguarded.rules c = firstMatch? lexer.rules c := by
  show firstMatch? (rules.take 14 ++ [word, punctuation, arithmetic]) c =
    firstMatch? (rules.take 14 ++ arithmeticBeforeWord :: [word, punctuation, arithmetic]) c
  exact firstMatch?_leaveOut fun _ => firstMatch?_behindGuard

theorem next_unguarded (n : Nat) (c : Cursor) : unguarded.next n c = lexer.next n c := by
  unfold next
  rw [firstMatch?_unguarded]
  rfl

/-! ## Operators in a text -/

/-- The sorts of signs that operators are made of. -/
def operatorSigns : List String := ["<>=~!", "+/@#%^&|-"]

/-- An operator is a run of signs of one sort. -/
theorem Cut.isRun (h : Cut b u r) (hkind : u.kind = .operator) :
    ∃ signs ∈ operatorSigns, IsRun (fun x => decide (x ∈ signs.toList)) u.value r := by
  obtain ⟨kind, hpiece, -, ⟨rfl, -⟩ | ⟨-, -, hword⟩⟩ := h.exists_piece
  · rw [hkind] at hpiece
    generalize u.value = v at hpiece
    cases hpiece with
    | comparison _ run => exact ⟨"<>=~!", by decide, run⟩
    | sign _ run => exact ⟨"+/@#%^&|-", by decide, run⟩
    | hyphen _ _ run => exact ⟨"+/@#%^&|-", by decide, run⟩
    | number _ h => exact absurd (kind_of_numberRules h) (by decide)
    | phrase h => exact absurd (kind_of_phraseRules h) (by decide)
  · rw [hkind] at hword
    exact absurd hword (by decide)

/-- The rule for signs before a word may be left out, and every operator is a run of signs of one
sort that no further sign of the sort follows. -/
theorem tokenize_operators (s : Text) :
    (∀ strict, unguarded.tokenize s strict = lexer.tokenize s strict) ∧
      ∃ ts, lexer.tokenize s false = .ok ts ∧ ∀ t ∈ ts, t.kind = .operator →
        ∃ signs ∈ operatorSigns, (∀ x ∈ t.value, x ∈ signs.toList) ∧
          ∀ x, (s.drop t.stop.toNat).head? = some x → x ∉ signs.toList := by
  refine ⟨tokenize_eq_of_next next_unguarded s, tokens s, tokenize_eq_ok resolved s, ?_⟩
  intro t ht hkind
  obtain ⟨signs, hsigns, run⟩ := (cut_of_mem_tokens ht).2.isRun hkind
  refine ⟨signs, hsigns, fun x hx => of_decide_eq_true (run.all x hx), fun x hx hmem => ?_⟩
  have hstops := run.stops
  rw [hx, Option.any_some, decide_eq_true hmem] at hstops
  exact Bool.noConfusion hstops

/-- The sorts stand side by side; a run of one of them ends where the other begins. -/
example : tokens "a+-<=b".toList =
    [⟨.name, "a".toList, 0⟩, ⟨.operator, "+-".toList, 1⟩, ⟨.operator, "<=".toList, 3⟩,
      ⟨.name, "b".toList, 5⟩] := by decide +kernel

end Sql

end SqlLayout
