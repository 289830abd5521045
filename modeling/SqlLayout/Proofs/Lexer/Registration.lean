import SqlLayout.Lexer.Sql

/-!
# Tables that registrations lead to

A lexer is resolved if no keyword of its table has the kind that no token can have. Registrations
that never ask for that kind lead to resolved lexers only (`Registered.resolved`), and a resolved
lexer finds a kind for every match.
-/

namespace SqlLayout.Lexer

/-- No keyword has the kind that no token can have. -/
def Resolved (lx : Lexer) : Prop := ∀ x ∈ lx.keywords, x.2 ≠ .useAsKeyword

/-- The lexers that registrations lead to, from no tables at all or from those of SQL, where every
keyword is registered with a kind that a token can have. -/
inductive Registered : Lexer → Prop
  | empty : Registered .empty
  | sql : Registered Sql.lexer
  | addRule {lx : Lexer} (matcher : Matcher) (kind : Kind) (h : Registered lx) :
      Registered (lx.addRule matcher kind)
  | addKeyword {lx : Lexer} (word : Text) {kind : Kind} (hkind : kind ≠ .useAsKeyword)
      (h : Registered lx) : Registered (lx.addKeyword word kind)

theorem Resolved.addKeyword {lx : Lexer} (h : lx.Resolved) (word : Text) {kind : Kind}
    (hkind : kind ≠ .useAsKeyword) : (lx.addKeyword word kind).Resolved := by
  intro x hx
  unfold Lexer.addKeyword at hx
  split at hx
  · exact h x hx
  · rcases List.mem_append.1 hx with hx | hx
    · exact h x hx
    · rw [List.mem_singleton.1 hx]
      exact hkind

theorem Registered.resolved {lx : Lexer} (h : Registered lx) : lx.Resolved := by
  induction h with
  | empty => intro x hx; simp [Lexer.empty] at hx
  | sql =>
    intro x hx
    have htable : ∀ y ∈ Sql.keywordTable, y.2 ≠ .useAsKeyword := by decide
    exact htable x hx
  | addRule matcher kind _ ih => exact ih
  | addKeyword word hkind _ ih => exact ih.addKeyword word hkind

/-- The kind of a keyword stands in the table beside its upper case. -/
theorem mem_of_keywordKind? {lx : Lexer} {v : Text} {kind : Kind}
    (h : lx.keywordKind? v = some kind) : (Text.upper v, kind) ∈ lx.keywords := by
  obtain ⟨earlier, later, hmem, -⟩ := List.lookup_eq_some_iff.1 h
  rw [hmem]
  simp

theorem Resolved.resolve_ne {lx : Lexer} (h : lx.Resolved) (kind : Kind) (value : Text) :
    lx.resolve kind value ≠ .useAsKeyword := by
  unfold resolve
  split
  · cases hk : lx.keywordKind? value with
    | none => simp
    | some k => exact h _ (mem_of_keywordKind? hk)
  · assumption

end SqlLayout.Lexer
