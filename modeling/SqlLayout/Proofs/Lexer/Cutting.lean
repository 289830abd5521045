import SqlLayout.Lexer.Scan
import SqlLayout.Pattern.Matcher

/-!
# Cutting as a relation

A scan cuts one token after another until it stops. `Cuts` is the part of the scan that cuts, from
one place to another, and `Stops` says why nothing is cut at the place it leads to. A scan is one of
each (`cuts_scanFrom`), and there is only one such pair (`scanFrom_eq`), so what a scan does is
proved by induction on `Cuts` without looking at the recursion again.
-/

namespace SqlLayout

/-- The place some characters into a text. -/
def Cursor.at (t : Text) (n : Nat) : Cursor := ⟨(t.take n).reverse, t.drop n⟩

theorem Cursor.at_zero (t : Text) : Cursor.at t 0 = Cursor.start t := by
  simp [Cursor.at, Cursor.start]

theorem Cursor.Reads.of_at {t w : Text} {n : Nat} {e : Cursor} (h : (Cursor.at t n).Reads w e) :
    e = Cursor.at t (n + w.length) := by
  have hdrop : t.drop n = w ++ e.rest := h.rest_eq
  refine h.unique ⟨?_, ?_⟩
  · show t.drop n = w ++ t.drop (n + w.length)
    rw [← List.drop_drop, hdrop, List.drop_left]
  · show (t.take (n + w.length)).reverse = w.reverse ++ (t.take n).reverse
    rw [List.take_add, hdrop, List.take_left, List.reverse_append]

/-- What is read stands between the two places. -/
theorem Cursor.Reads.slice {t w : Text} {n : Nat} {e : Cursor} (h : (Cursor.at t n).Reads w e) :
    (t.take (n + w.length)).drop n = w := by
  have hdrop : t.drop n = w ++ e.rest := h.rest_eq
  rw [List.drop_take, Nat.add_sub_cancel_left, hdrop, List.take_left]

theorem Cursor.Reads.upTo_eq {c e : Cursor} {w : Text} (h : c.Reads w e) : c.upTo e = w := by
  rw [upTo, h.length_eq, Nat.add_sub_cancel, h.rest_eq, List.take_left]

/-- The rule's best match, if it applies, reads a text of at least one character. -/
theorem Rule.reads_of_end? {r : Rule} {c e : Cursor} (h : r.end? c = some e) :
    ∃ w, c.Reads w e ∧ w ≠ [] ∧ ∀ x v, w = x :: v → r.matcher.opens x = true := by
  obtain ⟨hm, hlt⟩ := Option.filter_eq_some_iff.1 h
  obtain ⟨w, hw, hopens⟩ := r.matcher.reads hm
  exact ⟨w, hw, hw.shorter_iff.1 (by simpa using hlt), hopens⟩

/-- A rule whose pattern has one end at most, and none where it begins, applies at that end. -/
theorem Rule.end?_eq_some_iff_mem_ends {r : Rule} {p : Pattern} (hr : r.matcher = p) {c e : Cursor}
    (hunique : ∀ d ∈ p.ends c, ∀ e ∈ p.ends c, d = e)
    (hproper : ∀ e ∈ p.ends c, e.rest.length < c.rest.length) :
    r.end? c = some e ↔ e ∈ p.ends c := by
  have hmatch : r.matcher.match? c = (p.ends c).head? := by
    rw [hr]
    exact Pattern.match?_eq_head? p c
  rw [Rule.end?, hmatch]
  constructor
  · intro h
    exact List.mem_of_mem_head? (Option.filter_eq_some_iff.1 h).1
  · intro he
    obtain ⟨d, ds, hends⟩ := List.exists_cons_of_ne_nil (List.ne_nil_of_mem he)
    have hd : d = e := hunique d (by rw [hends]; exact List.mem_cons_self) e he
    rw [hends, List.head?_cons, hd, Option.filter_some, if_pos]
    simpa using hproper e he

namespace Lexer

variable {lx : Lexer} {n m k : Nat} {c d e : Cursor} {t : Token} {ts us : List Token}

/-! ## One step -/

theorem firstMatch?_append (rules more : List Rule) (c : Cursor) :
    firstMatch? (rules ++ more) c = (firstMatch? rules c).or (firstMatch? more c) :=
  List.findSome?_append

theorem firstMatch?_singleton (r : Rule) (c : Cursor) :
    firstMatch? [r] c = (r.end? c).map (r.kind, ·) :=
  List.findSome?_singleton

/-- The first rule that applies, and the rules before it that do not. -/
theorem firstMatch?_eq_some_iff {rules : List Rule} {kind : Kind} :
    firstMatch? rules c = some (kind, e) ↔
      ∃ earlier r later, rules = earlier ++ r :: later ∧ (∀ s ∈ earlier, s.end? c = none) ∧
        r.end? c = some e ∧ r.kind = kind := by
  rw [firstMatch?, List.findSome?_eq_some_iff]
  constructor
  · rintro ⟨earlier, r, later, hrules, hr, hearlier⟩
    obtain ⟨e', he, heq⟩ := Option.map_eq_some_iff.1 hr
    obtain ⟨hkind, rfl⟩ := Prod.mk.inj heq
    exact ⟨earlier, r, later, hrules, fun s hs => Option.map_eq_none_iff.1 (hearlier s hs), he,
      hkind⟩
  · rintro ⟨earlier, r, later, hrules, hearlier, he, rfl⟩
    exact ⟨earlier, r, later, hrules, by rw [he]; rfl, fun s hs => by rw [hearlier s hs]; rfl⟩

theorem firstMatch?_eq_none_iff {rules : List Rule} :
    firstMatch? rules c = none ↔ ∀ r ∈ rules, r.end? c = none := by
  rw [firstMatch?, List.findSome?_eq_none_iff]
  exact forall₂_congr fun r _ => Option.map_eq_none_iff

/-- What is matched is matched by some rule, of that rule's kind. -/
theorem exists_rule_of_firstMatch? {rules : List Rule} {kind : Kind}
    (h : firstMatch? rules c = some (kind, e)) :
    ∃ r ∈ rules, r.end? c = some e ∧ r.kind = kind := by
  obtain ⟨earlier, r, later, rfl, -, hr, hkind⟩ := firstMatch?_eq_some_iff.1 h
  exact ⟨r, by simp, hr, hkind⟩

theorem kind_mem_of_firstMatch? {rules : List Rule} {kind : Kind}
    (h : firstMatch? rules c = some (kind, e)) : kind ∈ rules.map (·.kind) := by
  obtain ⟨r, hrule, -, rfl⟩ := exists_rule_of_firstMatch? h
  exact List.mem_map_of_mem hrule

theorem reads_of_firstMatch? {rules : List Rule} {kind : Kind}
    (h : firstMatch? rules c = some (kind, e)) : c.Reads (c.upTo e) e ∧ c.upTo e ≠ [] := by
  obtain ⟨r, -, hr, -⟩ := exists_rule_of_firstMatch? h
  obtain ⟨w, hw, hne, -⟩ := r.reads_of_end? hr
  rw [hw.upTo_eq]
  exact ⟨hw, hne⟩

/-- A token is what the first rule that applies reads, unless the rule is of kind `unknown`. -/
theorem next_eq_token_iff :
    lx.next n c = .token t e ↔
      ∃ kind, firstMatch? lx.rules c = some (kind, e) ∧ kind ≠ .unknown ∧
        lx.resolve kind (c.upTo e) ≠ .useAsKeyword ∧
        t = ⟨lx.resolve kind (c.upTo e), c.upTo e, n⟩ := by
  unfold next
  cases hm : firstMatch? lx.rules c with
  | none => simp
  | some found =>
    obtain ⟨kind, e'⟩ := found
    by_cases hu : kind = .unknown
    · simp only [hu, if_true]
      constructor
      · intro h
        simp at h
      · rintro ⟨kind', h, hne, -⟩
        simp only [Option.some.injEq, Prod.mk.injEq] at h
        exact absurd h.1.symm hne
    · simp only [hu, if_false, Token.make]
      by_cases hr : lx.resolve kind (c.upTo e') = .useAsKeyword
      · simp only [hr, if_true]
        constructor
        · intro h
          simp at h
        · rintro ⟨kind', h, -, hne, -⟩
          simp only [Option.some.injEq, Prod.mk.injEq] at h
          obtain ⟨rfl, rfl⟩ := h
          exact absurd hr hne
      · simp only [hr, if_false]
        constructor
        · intro h
          obtain ⟨rfl, rfl⟩ := Found.token.inj h
          exact ⟨kind, rfl, hu, hr, rfl⟩
        · rintro ⟨kind', h, -, -, rfl⟩
          simp only [Option.some.injEq, Prod.mk.injEq] at h
          obtain ⟨rfl, rfl⟩ := h
          rfl

theorem next_eq_nothing_iff :
    lx.next n c = .nothing ↔
      firstMatch? lx.rules c = none ∨ ∃ e, firstMatch? lx.rules c = some (.unknown, e) := by
  unfold next
  cases hm : firstMatch? lx.rules c with
  | none => simp
  | some found =>
    obtain ⟨kind, e⟩ := found
    by_cases hu : kind = .unknown
    · simp [hu]
    · simp only [hu, if_false, Option.some.injEq, Prod.mk.injEq, false_and, exists_false, or_false,
        reduceCtorEq, iff_false]
      cases Token.make (lx.resolve kind (c.upTo e)) (c.upTo e) n <;> simp

theorem reads_of_next (h : lx.next n c = .token t e) :
    c.Reads t.value e ∧ t.value ≠ [] ∧ t.offset = n := by
  obtain ⟨kind, hm, -, -, rfl⟩ := next_eq_token_iff.1 h
  exact ⟨(reads_of_firstMatch? hm).1, (reads_of_firstMatch? hm).2, rfl⟩

/-! ## Many steps -/

/-- The tokens are cut one after another on the way from one place to another. -/
inductive Cuts (lx : Lexer) : Nat → Cursor → List Token → Nat → Cursor → Prop
  | done (n : Nat) (c : Cursor) : Cuts lx n c [] n c
  | step {n m : Nat} {c d e : Cursor} {t : Token} {ts : List Token}
      (cut : lx.next n c = .token t e) (more : Cuts lx (n + t.value.length) e ts m d) :
      Cuts lx n c (t :: ts) m d

/-- A scan that has come to this place stops there for this reason. -/
def Stops (lx : Lexer) (n : Nat) (c : Cursor) : Ending → Prop
  | .complete => c.rest = []
  | .noMatch k => k = n ∧ c.rest ≠ [] ∧ lx.next n c = .nothing
  | .unresolved => c.rest ≠ [] ∧ lx.next n c = .unresolved

/-- A scan cuts its tokens and stops at the place they lead to. -/
theorem cuts_scanFrom (lx : Lexer) (n : Nat) (c : Cursor) :
    ∃ m d, Cuts lx n c (lx.scanFrom n c).tokens m d ∧ Stops lx m d (lx.scanFrom n c).ending := by
  -- every token leaves less of the text
  induction hn : c.rest.length using Nat.strongRecOn generalizing n c with
  | ind len ih =>
    subst hn
    rw [scanFrom]
    by_cases hempty : c.rest.isEmpty = true
    · rw [if_pos hempty]
      exact ⟨n, c, .done n c, List.isEmpty_iff.1 hempty⟩
    · rw [if_neg hempty]
      have hne : c.rest ≠ [] := fun h => hempty (List.isEmpty_iff.2 h)
      split
      · next hnext => exact ⟨n, c, .done n c, rfl, hne, hnext⟩
      · next hnext => exact ⟨n, c, .done n c, hne, hnext⟩
      · next t e hnext =>
        have hr := (reads_of_next hnext).1
        rw [hr.upTo_eq]
        obtain ⟨m, d, hcuts, hstop⟩ :=
          ih _ (next_shorter hnext) (n + t.value.length) e rfl
        exact ⟨m, d, .step hnext hcuts, hstop⟩

/-- What is cut on the way to a stop is the scan. -/
theorem scanFrom_eq {ending : Ending} (hcuts : Cuts lx n c ts m d)
    (hstop : Stops lx m d ending) : lx.scanFrom n c = ⟨ts, ending⟩ := by
  induction hcuts with
  | done n c =>
    -- the reason of the stop tells which way the scan takes
    rw [scanFrom]
    cases ending with
    | complete =>
      have hrest : c.rest = [] := hstop
      simp [hrest]
    | noMatch k =>
      obtain ⟨rfl, hne, hnext⟩ := hstop
      rw [if_neg (by simpa using hne)]
      split <;> simp_all
    | unresolved =>
      obtain ⟨hne, hnext⟩ := hstop
      rw [if_neg (by simpa using hne)]
      split <;> simp_all
  | @step n m c d e t ts hnext hcuts ih =>
    have hr := (reads_of_next hnext).1
    have hne : c.rest ≠ [] := by
      intro hnil
      have := hr.shorter_iff.2 (reads_of_next hnext).2.1
      simp [hnil] at this
    rw [scanFrom, if_neg (by simpa using hne)]
    split
    · simp_all
    · simp_all
    · next t' e' hnext' =>
      obtain ⟨rfl, rfl⟩ := Found.token.inj (hnext.symm.trans hnext')
      rw [hr.upTo_eq, ih hstop]

/-- One way after another. -/
theorem Cuts.trans (h : Cuts lx n c ts m d) (h' : Cuts lx m d us k e) :
    Cuts lx n c (ts ++ us) k e := by
  induction h with
  | done n c => exact h'
  | step hnext _ ih => exact .step hnext (ih h')

/-- Nothing is cut at the end of the text. -/
theorem Cuts.eq_nil (h : Cuts lx n c ts m d) (hend : c.rest = []) : ts = [] := by
  cases h with
  | done n c => rfl
  | step hnext _ =>
    have hshorter := next_shorter hnext
    simp [hend] at hshorter

/-- Tokens that are cut up to the end of the text begin with the token that is found first. -/
theorem Cuts.exists_eq_cons (h : Cuts lx n c ts m d) (hend : d.rest = [])
    (hnext : lx.next n c = .token t e) :
    ∃ us, ts = t :: us ∧ Cuts lx (n + t.value.length) e us m d := by
  cases h with
  | done n c =>
    have hshorter := next_shorter hnext
    simp [hend] at hshorter
  | step hnext' hcuts =>
    obtain ⟨rfl, rfl⟩ := Found.token.inj (hnext.symm.trans hnext')
    exact ⟨_, rfl, hcuts⟩

/-- The tokens' texts are what is read on the way. -/
theorem Cuts.reads (h : Cuts lx n c ts m d) :
    c.Reads (ts.flatMap (·.value)) d ∧ m = n + (ts.flatMap (·.value)).length := by
  induction h with
  | done n c => exact ⟨.nil c, rfl⟩
  | step hnext _ ih =>
    obtain ⟨hr, hm⟩ := ih
    rw [List.flatMap_cons, List.length_append]
    exact ⟨(reads_of_next hnext).1.append hr, by omega⟩

/-- Something is cut exactly if the way is not empty. -/
theorem Cuts.ne_nil_iff (h : Cuts lx n c ts m d) : ts ≠ [] ↔ n < m := by
  obtain ⟨-, hm⟩ := h.reads
  cases h with
  | done n c => simp
  | step hnext _ =>
    have hpos := List.length_pos_iff.2 (reads_of_next hnext).2.1
    rw [List.flatMap_cons, List.length_append] at hm
    exact iff_of_true (by simp) (by omega)

/-- Each token is cut at its own offset of the whole text. -/
theorem Cuts.next_at {s : Text} (h : Cuts lx n (.at s n) ts m d) {t : Token} (ht : t ∈ ts) :
    ∃ k, n ≤ k ∧ t.offset = k ∧
      lx.next k (.at s k) = .token t (.at s (k + t.value.length)) := by
  generalize hc : Cursor.at s n = c at h
  induction h with
  | done n c => simp at ht
  | @step n m c d e u ts hnext hcuts ih =>
    subst hc
    obtain ⟨hr, -, hoff⟩ := reads_of_next hnext
    rcases List.mem_cons.1 ht with rfl | ht
    · exact ⟨n, Nat.le_refl n, hoff, by rw [← hr.of_at]; exact hnext⟩
    · obtain ⟨k, hk, hrest⟩ := ih ht hr.of_at.symm
      exact ⟨k, by omega, hrest⟩

end Lexer

end SqlLayout
