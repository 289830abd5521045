import SqlLayout.Proofs.Lexer.Starts
import SqlLayout.Proofs.Text.Position

/-!
# Strict scans

A scan comes to the end of its text exactly if its tokens, written one after another, give back the
text; otherwise it stops where they end (`ending_eq`). A strict scan fails in the second case. Its
error names the first character that is left over and the place of that character.
-/

namespace SqlLayout.Lexer

variable {lx : Lexer} {s : Text} {offset : Nat}

/-- How a scan ends is told by the texts of its tokens. -/
theorem ending_eq (h : lx.Resolved) (s : Text) :
    (lx.scan s).ending =
      if (lx.scan s).tokens.flatMap (·.value) = s then .complete
      else .noMatch ((lx.scan s).tokens.flatMap (·.value)).length := by
  obtain ⟨m, d, hcuts, hstop⟩ := cuts_scan lx s
  have hm : m = ((lx.scan s).tokens.flatMap (·.value)).length := by
    rw [hcuts.reads.2, Nat.zero_add]
  have hrest : d.rest = [] ↔ (lx.scan s).tokens.flatMap (·.value) = s := by
    rw [hcuts.flatMap_value, hcuts.place_eq, hcuts.reach_eq]
    refine List.drop_eq_nil_iff.trans ⟨List.take_of_length_le, fun htake => ?_⟩
    exact le_of_eq_of_le (congrArg List.length htake).symm (List.length_take_le m s)
  cases hending : (lx.scan s).ending with
  | complete =>
    rw [hending] at hstop
    rw [if_pos (hrest.1 hstop)]
  | noMatch k =>
    rw [hending] at hstop
    rw [if_neg (mt hrest.2 hstop.2.1), ← hm, hstop.1]
  | unresolved => exact absurd hending (hstop.of_resolved h).1

/-- A strict scan gives the tokens of the default scan if they give back the text, and fails
otherwise. -/
theorem tokenize_strict (h : lx.Resolved) (s : Text) :
    lx.tokenize s true =
      if (lx.scan s).tokens.flatMap (·.value) = s then .ok (lx.scan s).tokens
      else .error (.incomplete (.at s ((lx.scan s).tokens.flatMap (·.value)).length)) := by
  have hending := ending_eq h s
  unfold tokenize
  cases hscan : lx.scan s with
  | mk tokens ending =>
    rw [hscan] at hending
    by_cases hall : tokens.flatMap (·.value) = s
    · rw [if_pos hall] at hending ⊢
      obtain rfl : ending = .complete := hending
      rfl
    · rw [if_neg hall] at hending ⊢
      obtain rfl : ending = .noMatch (tokens.flatMap (·.value)).length := hending
      rfl

/-- What is left over begins somewhere in the text. -/
theorem consumed_lt (hne : (lx.scan s).tokens.flatMap (·.value) ≠ s) :
    ((lx.scan s).tokens.flatMap (·.value)).length < s.length := by
  obtain ⟨m, d, hcuts, -⟩ := cuts_scan lx s
  rw [hcuts.flatMap_value] at hne ⊢
  rw [List.length_take]
  have hm : ¬s.length ≤ m := fun hle => hne (List.take_of_length_le hle)
  omega

/-! ## The error -/

/-- The error names this offset of the text, by line and column too, and the character there. Its
message begins with the place and shows the character between quotes. -/
structure Names (s : Text) (offset : Nat) (e : TokenizeError) (line column : Nat) (c : Char) :
    Prop where
  atOffset : e.offset = offset
  atLine : e.line = some (line : Int)
  atColumn : e.column = some (column : Int)
  place : Text.IsPlace s offset line column
  /-- No other line and column are the place of the offset. -/
  unique : ∀ l k, Text.IsPlace s offset l k → l = line ∧ k = column
  character : s[offset]? = some c
  message : e.message = Text.ofNat line ++ ':' :: Text.ofNat column ++ " cannot tokenize ".toList ++
    Text.quoted [c]

theorem names_at (h : offset < s.length) :
    Names s offset (.at s offset) (Text.lineAt s offset) (Text.columnAt s offset) s[offset] where
  atOffset := rfl
  atLine := rfl
  atColumn := rfl
  place := Text.isPlace_lineAt h.le
  unique l k hplace := hplace.unique (Text.isPlace_lineAt h.le)
  character := List.getElem?_eq_getElem h
  message := by
    have hone : (s.drop offset).take 1 = [s[offset]] := by
      rw [List.drop_eq_getElem_cons h]
      rfl
    unfold TokenizeError.message TokenizeError.at
    simp only [hone]
    show Text.ofNat _ ++ ':' :: Text.ofNat _ ++ ' ' :: ("cannot tokenize ".toList ++ _) = _
    simp

/-- A strict scan gives the same tokens as the default scan if their texts, one after another, are
the whole text. Otherwise it fails, and the error names the offset behind them. -/
theorem tokenize_strict_names (h : lx.Resolved) (s : Text) :
    ∃ ts, lx.tokenize s false = .ok ts ∧
      (ts.flatMap (·.value) = s → lx.tokenize s true = .ok ts) ∧
      (ts.flatMap (·.value) ≠ s → ∃ e line column c, lx.tokenize s true = .error (.incomplete e) ∧
        Names s (ts.flatMap (·.value)).length e line column c) := by
  refine ⟨(lx.scan s).tokens, tokenize_eq_ok h s, ?_, ?_⟩
  · intro hall
    rw [tokenize_strict h, if_pos hall]
  · intro hne
    refine ⟨_, _, _, _, ?_, names_at (consumed_lt hne)⟩
    rw [tokenize_strict h, if_neg hne]

/-- The dollar sign behind a line feed is left over. -/
theorem tokenize_strict_names_secondLine :
    Sql.lexer.Resolved ∧
      ∃ ts, Sql.lexer.tokenize "SELECT 1\nFROM $".toList false = .ok ts ∧
        (ts.flatMap (·.value) = "SELECT 1\nFROM $".toList →
          Sql.lexer.tokenize "SELECT 1\nFROM $".toList true = .ok ts) ∧
        (ts.flatMap (·.value) ≠ "SELECT 1\nFROM $".toList → ∃ e line column c,
          Sql.lexer.tokenize "SELECT 1\nFROM $".toList true = .error (.incomplete e) ∧
          Names "SELECT 1\nFROM $".toList (ts.flatMap (·.value)).length e line column c) :=
  ⟨Registered.sql.resolved, tokenize_strict_names Registered.sql.resolved _⟩

end SqlLayout.Lexer
