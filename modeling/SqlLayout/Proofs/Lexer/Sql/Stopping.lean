import SqlLayout.Proofs.Lexer.Sql.Quotes
import SqlLayout.Proofs.Lexer.Sql.Signs
import SqlLayout.Proofs.Lexer.Tiling

/-!
# Where the scan of a query stops

For every character but three sorts some rule applies whatever follows: numbers fall back to words
or marks, signs that begin no comment and no number are cut as a run, and a comment may end with the
text. What is left are quotes that nothing closes and characters that begin no token.
-/

namespace SqlLayout.Sql

open Lexer Text

variable {b : Text} {x : Char} {t : Text}

/-- Nothing is cut where this character stands before this text. A quote counts by the text after
it alone, any other character by itself. -/
def GivesUp (x : Char) (later : Text) : Prop :=
  if x = '\'' ∨ x = '`' then x ∉ later
  else isBlank x = false ∧ isWord x = false ∧ x ∉ "*<>=~!+/@#%^&|-;()[],.".toList

/-- Nothing is cut so many characters into the text. -/
def GivesUpAt (s : Text) (k : Nat) : Prop := ∃ x later, s.drop k = x :: later ∧ GivesUp x later

theorem givesUp_iff_lead (hx : ¬(x = '\'' ∨ x = '`')) : GivesUp x t ↔ lead x = .alien := by
  rw [GivesUp, if_neg hx, lead_eq_alien_iff, IsAlien]
  refine and_congr_right fun _ => and_congr_right fun _ => not_congr ?_
  have hsigns : signs = "*<>=~!+/@#%^&|-;()[],.".toList ++ ['\'', '`'] := by decide
  rw [hsigns, List.mem_append]
  refine (or_iff_left ?_).symm
  simpa using hx

/-- The rules of SQL leave out exactly the aliens and the quotes that nothing closes. -/
theorem firstMatch?_rules_eq_none_iff :
    firstMatch? rules ⟨b, x :: t⟩ = none ↔ GivesUp x t := by
  by_cases hquote : x = '\'' ∨ x = '`'
  · rw [GivesUp, if_pos hquote]
    rcases hquote with rfl | rfl
    · rw [firstMatch?_singleQuote, Option.map_eq_none_iff, close?_eq_none_iff]
    · rw [firstMatch?_backQuote, Option.map_eq_none_iff, close?_eq_none_iff]
  · rw [givesUp_iff_lead hquote]
    cases hlead : lead x with
    | lineEnd => simp [firstMatch?_lineEnd hlead]
    | blank => simp [firstMatch?_blank hlead]
    | digit => simp [firstMatch?_digit hlead]
    | letter => simp [firstMatch?_letter hlead]
    | hyphen =>
      obtain rfl : x = '-' := fits_of_lead hlead
      simp [firstMatch?_hyphen]
    | star => simp [firstMatch?_star hlead]
    | point =>
      obtain rfl : x = '.' := fits_of_lead hlead
      simp [firstMatch?_point]
    | quote => exact absurd (.inl (fits_of_lead hlead)) hquote
    | backQuote => exact absurd (.inr (fits_of_lead hlead)) hquote
    | comparison => simp [firstMatch?_comparison hlead]
    | sign => simp [firstMatch?_sign hlead]
    | mark => simp [firstMatch?_mark hlead]
    | alien => simp [firstMatch?_alien hlead]

/-- No rule of SQL ends the scan. -/
theorem kind_of_firstMatch? {c e : Cursor} {kind : Kind}
    (h : firstMatch? rules c = some (kind, e)) : kind ≠ .unknown := by
  have hall : ∀ k ∈ rules.map (·.kind), k ≠ .unknown := by decide
  exact hall kind (kind_mem_of_firstMatch? h)

theorem next_eq_nothing_iff_givesUp {n : Nat} :
    lexer.next n ⟨b, x :: t⟩ = .nothing ↔ GivesUp x t := by
  rw [next_eq_nothing_iff, ← firstMatch?_rules_eq_none_iff (b := b)]
  refine or_iff_left ?_
  rintro ⟨e, he⟩
  exact kind_of_firstMatch? he rfl

theorem next_at_eq_nothing_iff {s : Text} {k : Nat} (hk : k < s.length) :
    lexer.next k (.at s k) = .nothing ↔ GivesUpAt s k := by
  obtain ⟨x, later, hdrop⟩ : ∃ x later, s.drop k = x :: later :=
    List.exists_cons_of_ne_nil fun hnil => by
      have := List.drop_eq_nil_iff.1 hnil
      omega
  have hat : Cursor.at s k = ⟨(s.take k).reverse, x :: later⟩ := by rw [Cursor.at, hdrop]
  rw [hat, next_eq_nothing_iff_givesUp, GivesUpAt, hdrop]
  constructor
  · intro h
    exact ⟨x, later, rfl, h⟩
  · rintro ⟨y, u, heq, h⟩
    obtain ⟨rfl, rfl⟩ := List.cons.inj heq
    exact h

theorem resolved : lexer.Resolved := Registered.sql.resolved

/-- The kinds of tokens that the rules of SQL cut. -/
theorem kind_of_next {n : Nat} {c e : Cursor} {t : Token} (h : lexer.next n c = .token t e) :
    t.kind ≠ .unknown ∧ t.kind ≠ .useAsKeyword := by
  obtain ⟨kind, -, hkind, hresolve, rfl⟩ := next_eq_token_iff.1 h
  refine ⟨?_, hresolve⟩
  show lexer.resolve kind (c.upTo e) ≠ .unknown
  unfold resolve
  split
  · -- the words of the table have one of two kinds, and other words are names
    cases hk : lexer.keywordKind? (c.upTo e) with
    | none => simp
    | some k =>
      have hall : ∀ y ∈ keywordTable, y.2 ≠ .unknown := by decide
      exact hall _ (mem_of_keywordKind? hk)
  · exact hkind

/-- A query is cut up to the first place where a token would begin with a character that gives up,
and no token begins with such a character. -/
theorem tokenize_gives_up (s : Text) :
    ∃ ts, lexer.tokenize s false = .ok ts ∧
      (∀ t ∈ ts, t.kind ≠ .unknown ∧ t.kind ≠ .useAsKeyword) ∧
      (∀ t ∈ ts, ¬GivesUpAt s t.offset.toNat) ∧
      (reach ts < s.length → GivesUpAt s (reach ts)) ∧
      ∀ k < s.length, lexer.next k (.at s k) = .nothing ↔ GivesUpAt s k := by
  obtain ⟨m, d, hcuts, hstop⟩ := cuts_scan lexer s
  obtain ⟨hreads, hm⟩ := hcuts.reads
  rw [Nat.zero_add] at hm
  have hd : d = .at s m := by rw [hreads.of_at, hm, Nat.zero_add]
  subst hd
  refine ⟨(lexer.scan s).tokens, tokenize_eq_ok resolved s, ?_, ?_, ?_, ?_⟩
  · intro t ht
    obtain ⟨k, -, -, hnext⟩ := hcuts.next_at ht
    exact kind_of_next hnext
  · -- where a token begins something is cut
    intro t ht hgives
    obtain ⟨k, -, hoff, hnext⟩ := hcuts.next_at ht
    rw [hoff, Int.toNat_natCast] at hgives
    have hk : k < s.length := by
      have hshorter := next_shorter hnext
      simp only [Cursor.at, List.length_drop] at hshorter
      omega
    rw [(next_at_eq_nothing_iff hk).2 hgives] at hnext
    exact Found.noConfusion hnext
  · rw [hcuts.reach_eq]
    intro hlt
    rcases (hstop.of_resolved resolved).2 with hrest | hnothing
    · have hle : s.length ≤ m := List.drop_eq_nil_iff.1 hrest
      omega
    · exact (next_at_eq_nothing_iff hlt).1 hnothing
  · intro k hk
    exact next_at_eq_nothing_iff hk

end SqlLayout.Sql
