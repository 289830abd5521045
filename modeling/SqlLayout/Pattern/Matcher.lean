import SqlLayout.Pattern.Basic

/-!
# What a match reads

Every end of a match is reached by reading some text from the place where the match began: the text
moves from the rest of the cursor, turned around, to what stands before it. Nothing else of the
cursor changes, whatever tests the pattern makes on the way.

The first character that is read narrows down which patterns are in play. `skippable` and `opens`
are computed from the pattern alone; a match that reads nothing needs a skippable pattern, and one
that reads `x` first needs a pattern that opens with `x` (`begins_of_mem_ends`).

That a match reads forward is all that a lexer asks of what it matches with. A `Matcher` is any
function from places to places that carries the proof of this, and every pattern is one. So what is
proved of lexers also holds where matches are found by other means, with notions that `Pattern` has
not: references to what a group has read, conditions on it, turns that are not taken back.
-/

namespace SqlLayout

/-! ## Moving over a text -/

/-- Reading a text from one place leads to another. -/
structure Cursor.Reads (c : Cursor) (w : Text) (e : Cursor) : Prop where
  rest_eq : c.rest = w ++ e.rest
  before_eq : e.before = w.reverse ++ c.before

namespace Cursor

variable {c d e : Cursor} {v w : Text}

theorem Reads.nil (c : Cursor) : c.Reads [] c := ⟨rfl, rfl⟩

theorem Reads.cons (b : Text) (x : Char) (r : Text) : (⟨b, x :: r⟩ : Cursor).Reads [x] ⟨x :: b, r⟩ :=
  ⟨rfl, rfl⟩

theorem Reads.over (b w r : Text) : (⟨b, w ++ r⟩ : Cursor).Reads w ⟨w.reverse ++ b, r⟩ := ⟨rfl, rfl⟩

theorem Reads.append (h : c.Reads v d) (h' : d.Reads w e) : c.Reads (v ++ w) e where
  rest_eq := by rw [h.rest_eq, h'.rest_eq, List.append_assoc]
  before_eq := by rw [h'.before_eq, h.before_eq, List.reverse_append, List.append_assoc]

theorem Reads.length_eq (h : c.Reads w e) : c.rest.length = w.length + e.rest.length := by
  rw [h.rest_eq, List.length_append]

theorem Reads.shorter_iff (h : c.Reads w e) : e.rest.length < c.rest.length ↔ w ≠ [] := by
  rw [h.length_eq, ← List.length_pos_iff]
  omega

/-- The text that is read determines the place that is reached. -/
theorem Reads.unique (h : c.Reads w d) (h' : c.Reads w e) : d = e := by
  have hrest : d.rest = e.rest := List.append_cancel_left (h.rest_eq.symm.trans h'.rest_eq)
  have hbefore : d.before = e.before := h.before_eq.trans h'.before_eq.symm
  cases d with
  | mk db dr =>
    cases e with
    | mk eb er =>
      rw [show db = eb from hbefore, show dr = er from hrest]

theorem Reads.eq_of_nil (h : c.Reads [] e) : e = c := h.unique (Reads.nil c)

/-- The place that is reached determines the text that was read. -/
theorem Reads.text_unique (h : c.Reads v e) (h' : c.Reads w e) : v = w :=
  List.append_cancel_right (h.rest_eq.symm.trans h'.rest_eq)

theorem reads_iff {b t : Text} :
    (⟨b, t⟩ : Cursor).Reads w e ↔ ∃ r, t = w ++ r ∧ e = ⟨w.reverse ++ b, r⟩ := by
  constructor
  · intro h
    refine ⟨e.rest, h.rest_eq, ?_⟩
    rw [← show e.before = w.reverse ++ b from h.before_eq]
  · rintro ⟨r, rfl, rfl⟩
    exact Reads.over b w r

end Cursor

namespace Pattern

/-! ## The first character of a match -/

/-- The pattern may match without taking a character. -/
def skippable : Pattern → Bool
  | .empty | .anchor _ | .ahead _ _ | .behind _ _ _ => true
  | .char _ => false
  | .seq p q => p.skippable && q.skippable
  | .alt p q => p.skippable || q.skippable
  | .times p least _ _ => least == 0 || p.skippable

/-- A match of the pattern may take this character first. -/
def opens (x : Char) : Pattern → Bool
  | .empty | .anchor _ | .ahead _ _ | .behind _ _ _ => false
  | .char s => s.contains x
  | .seq p q => p.opens x || (p.skippable && q.opens x)
  | .alt p q => p.opens x || q.opens x
  | .times p _ _ _ => p.opens x

/-- A match of the pattern may read a text that begins like this one. -/
def begins (p : Pattern) : Text → Bool
  | [] => p.skippable
  | x :: _ => p.opens x

theorem mem_further {turn : Cursor → List Cursor} {greedy : Bool} {budget : Option Nat}
    {c e : Cursor} :
    e ∈ further turn greedy budget c ↔
      e = c ∨ (budget ≠ some 0 ∧ ∃ d ∈ turn c,
        if d.rest.length < c.rest.length then e ∈ further turn greedy (budget.map (· - 1)) d
        else e = d) := by
  have hturn : ∀ d : Cursor,
      (e ∈ if d.rest.length < c.rest.length then further turn greedy (budget.map (· - 1)) d
        else [d]) ↔
      if d.rest.length < c.rest.length then e ∈ further turn greedy (budget.map (· - 1)) d
        else e = d := by
    intro d
    split <;> simp
  rw [further]
  by_cases hb : budget = some 0
  · cases greedy <;> simp [hb]
  · cases greedy <;> simp [hb, hturn, or_comm]

/-- Mandatory turns read the turns' texts one after another. -/
theorem begins_of_mem_exactly {p : Pattern} {turn : Cursor → List Cursor}
    (h : ∀ c, ∀ e ∈ turn c, ∃ w, c.Reads w e ∧ p.begins w = true) {n : Nat} {c e : Cursor}
    (he : e ∈ exactly turn n c) :
    ∃ w, c.Reads w e ∧ (w = [] → n = 0 ∨ p.skippable = true) ∧
      ∀ x v, w = x :: v → p.opens x = true := by
  induction n generalizing c with
  | zero =>
    rw [exactly, List.mem_singleton] at he
    subst he
    exact ⟨[], .nil _, fun _ => .inl rfl, by simp⟩
  | succ n ih =>
    rw [exactly] at he
    obtain ⟨d, hd, he⟩ := List.mem_flatMap.1 he
    obtain ⟨v, hv, hbegin⟩ := h c d hd
    obtain ⟨w, hw, -, hopen⟩ := ih he
    refine ⟨v ++ w, hv.append hw, ?_, ?_⟩
    · intro hnil
      rw [List.append_eq_nil_iff] at hnil
      rw [hnil.1] at hbegin
      exact .inr hbegin
    · intro x u hu
      cases v with
      | nil => exact hopen x u hu
      | cons y v =>
        rw [List.cons_append, List.cons.injEq] at hu
        rw [← hu.1]
        exact hbegin

/-- So do further turns, and a match of none of them reads nothing. -/
theorem begins_of_mem_further {p : Pattern} {turn : Cursor → List Cursor}
    (h : ∀ c, ∀ e ∈ turn c, ∃ w, c.Reads w e ∧ p.begins w = true) {greedy : Bool}
    {budget : Option Nat} {c e : Cursor} (he : e ∈ further turn greedy budget c) :
    ∃ w, c.Reads w e ∧ ∀ x v, w = x :: v → p.opens x = true := by
  -- the budget may be unlimited, so the induction is on what is left to read
  induction hn : c.rest.length using Nat.strongRecOn generalizing budget c with
  | ind n ih =>
    subst hn
    rcases mem_further.1 he with rfl | ⟨-, d, hd, he⟩
    · exact ⟨[], .nil _, by simp⟩
    · obtain ⟨v, hv, hbegin⟩ := h c d hd
      split at he
      · next hlt =>
        obtain ⟨w, hw, -⟩ := ih _ hlt he rfl
        refine ⟨v ++ w, hv.append hw, ?_⟩
        intro x u hu
        -- the turn was not empty, so the first character is one of its own
        cases v with
        | nil => exact absurd rfl (hv.shorter_iff.1 hlt)
        | cons y v =>
          rw [List.cons_append, List.cons.injEq] at hu
          rw [← hu.1]
          exact hbegin
      · subst he
        refine ⟨v, hv, ?_⟩
        rintro x u rfl
        exact hbegin

/-- Every end of a match is reached by reading a text, and the pattern tells how it begins. -/
theorem begins_of_mem_ends {p : Pattern} {c e : Cursor} (he : e ∈ p.ends c) :
    ∃ w, c.Reads w e ∧ p.begins w = true := by
  induction p generalizing c e with
  | empty =>
    rw [ends, List.mem_singleton] at he
    exact ⟨[], he ▸ .nil c, rfl⟩
  | char s =>
    obtain ⟨b, t⟩ := c
    cases t with
    | nil => simp [ends] at he
    | cons x r =>
      rw [ends] at he
      by_cases hx : s.contains x = true
      · simp only [hx, if_true, List.mem_singleton] at he
        exact ⟨[x], he ▸ .cons b x r, hx⟩
      · simp [hx] at he
  | anchor a =>
    rw [ends] at he
    split at he
    · exact ⟨[], List.mem_singleton.1 he ▸ .nil c, rfl⟩
    · simp at he
  | ahead wanted p _ =>
    rw [ends] at he
    split at he
    · exact ⟨[], List.mem_singleton.1 he ▸ .nil c, rfl⟩
    · simp at he
  | behind wanted width p _ =>
    rw [ends] at he
    split at he
    · exact ⟨[], List.mem_singleton.1 he ▸ .nil c, rfl⟩
    · simp at he
  | seq p q ihp ihq =>
    rw [ends] at he
    obtain ⟨d, hd, he⟩ := List.mem_flatMap.1 he
    obtain ⟨v, hv, hp⟩ := ihp hd
    obtain ⟨w, hw, hq⟩ := ihq he
    refine ⟨v ++ w, hv.append hw, ?_⟩
    -- the second part reads the first character only if the first part may be skipped
    cases v with
    | nil => cases w <;> simp_all [begins, skippable, opens]
    | cons x v => simp_all [begins, opens]
  | alt p q ihp ihq =>
    rw [ends, List.mem_append] at he
    rcases he with he | he
    · obtain ⟨w, hw, hp⟩ := ihp he
      exact ⟨w, hw, by cases w <;> simp_all [begins, skippable, opens]⟩
    · obtain ⟨w, hw, hq⟩ := ihq he
      exact ⟨w, hw, by cases w <;> simp_all [begins, skippable, opens]⟩
  | times p least most greedy ih =>
    rw [ends] at he
    obtain ⟨d, hd, he⟩ := List.mem_flatMap.1 he
    -- the mandatory turns, and the further ones after them
    obtain ⟨v, hv, hskip, hopen⟩ := begins_of_mem_exactly (fun _ _ => ih) hd
    obtain ⟨w, hw, hmore⟩ := begins_of_mem_further (fun _ _ => ih) he
    refine ⟨v ++ w, hv.append hw, ?_⟩
    cases v with
    | nil =>
      cases w with
      | nil => simpa [begins, skippable] using hskip rfl
      | cons x w => exact hmore x w rfl
    | cons x v => exact hopen x v rfl

theorem exists_reads_of_mem_ends {p : Pattern} {c e : Cursor} (he : e ∈ p.ends c) :
    ∃ w, c.Reads w e :=
  let ⟨w, hw, _⟩ := begins_of_mem_ends he
  ⟨w, hw⟩

end Pattern

/-! ## Matchers -/

/-- Finds where a match at a place ends. What stands between the two places is read, and begins with
a character that the matcher opens with; where nothing is known of these it opens with any. -/
structure Matcher where
  match? : Cursor → Option Cursor
  opens : Char → Bool := fun _ => true
  reads : ∀ {c e}, match? c = some e → ∃ w, c.Reads w e ∧ ∀ x v, w = x :: v → opens x = true

/-- A pattern finds its best match. -/
def Pattern.toMatcher (p : Pattern) : Matcher where
  match? := p.match?
  opens x := p.opens x
  reads h := by
    rw [match?_eq_head?] at h
    obtain ⟨w, hw, hbegins⟩ := begins_of_mem_ends (List.mem_of_mem_head? h)
    refine ⟨w, hw, ?_⟩
    rintro x v rfl
    exact hbegins

instance : Coe Pattern Matcher := ⟨Pattern.toMatcher⟩

theorem Pattern.match?_toMatcher (p : Pattern) (c : Cursor) :
    p.toMatcher.match? c = p.match? c := rfl

@[simp] theorem Pattern.opens_toMatcher (p : Pattern) (x : Char) :
    p.toMatcher.opens x = p.opens x := rfl

end SqlLayout
