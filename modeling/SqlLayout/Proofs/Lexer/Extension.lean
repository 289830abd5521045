import SqlLayout.Proofs.Lexer.Starts

/-!
# Rules of a lower priority

A rule that is added comes after all others, so it is asked only where none of them applies. Every
token that was found is found as before (`Extends`), and a scan goes through the same tokens and
then, at the place where it used to stop, may go on (`tokenize_addRule`). It does so exactly if the
added rule applies there and cuts a token, and no rule of the kind `unknown` came first.
-/

namespace SqlLayout.Lexer

variable {lx lx' lx'' : Lexer} {n m : Nat} {c d : Cursor} {s : Text} {ts : List Token}

/-! ## Tables that find the same and more -/

/-- Every token that the first tables find is found by the others. -/
def Extends (lx lx' : Lexer) : Prop :=
  ∀ n c t e, lx.next n c = .token t e → lx'.next n c = .token t e

theorem Extends.refl (lx : Lexer) : Extends lx lx := fun _ _ _ _ h => h

theorem Extends.trans (h : Extends lx lx') (h' : Extends lx' lx'') : Extends lx lx'' :=
  fun n c t e hnext => h' n c t e (h n c t e hnext)

theorem Cuts.of_extends (h : Extends lx lx') (hcuts : Cuts lx n c ts m d) :
    Cuts lx' n c ts m d := by
  induction hcuts with
  | done n c => exact .done n c
  | step hnext _ ih => exact .step (h _ _ _ _ hnext) ih

/-- A scan under more tables goes through the tokens of the first scan and on from there. -/
theorem Cuts.scan_eq (h : Extends lx lx') (hcuts : Cuts lx 0 (.at s 0) ts m d) :
    (lx'.scan s).tokens = ts ++ (lx'.scanFrom m d).tokens := by
  obtain ⟨k, e, hmore, hstop⟩ := cuts_scanFrom lx' m d
  have hall := (hcuts.of_extends h).trans hmore
  rw [Cursor.at_zero] at hall
  rw [scan, scanFrom_eq hall hstop]

theorem Extends.isPrefix_tokens (h : Extends lx lx') (s : Text) :
    (lx.scan s).tokens <+: (lx'.scan s).tokens := by
  obtain ⟨m, d, hcuts, -⟩ := cuts_scan lx s
  rw [hcuts.scan_eq h]
  exact List.prefix_append _ _

theorem Stops.of_next_eq {ending : Ending} (hnext : lx'.next m d = lx.next m d)
    (hstop : Stops lx m d ending) : Stops lx' m d ending := by
  cases ending with
  | complete => exact hstop
  | noMatch k => exact ⟨hstop.1, hstop.2.1, hnext.trans hstop.2.2⟩
  | unresolved => exact ⟨hstop.1, hnext.trans hstop.2⟩

/-- Tables that find the same at every place cut every text alike. -/
theorem tokenize_eq_of_next (hnext : ∀ n c, lx'.next n c = lx.next n c) (s : Text)
    (strict : Bool) : lx'.tokenize s strict = lx.tokenize s strict := by
  have hextends : Extends lx lx' := fun n c t e hfound => (hnext n c).trans hfound
  obtain ⟨m, d, hcuts, hstop⟩ := cuts_scan lx s
  have hscan : lx'.scan s = lx.scan s := by
    rw [Cursor.at_zero] at hcuts
    exact scanFrom_eq (hcuts.of_extends hextends) (hstop.of_next_eq (hnext m d))
  unfold tokenize
  rw [hscan]

/-! ## Added rules -/

/-- Adds rules one after another, each with a lower priority than those before it. -/
def addRules (lx : Lexer) (added : List Rule) : Lexer :=
  added.foldl (fun lx rule => lx.addRule rule.matcher rule.kind) lx

theorem firstMatch?_addRule (lx : Lexer) (matcher : Matcher) (kind : Kind) (c : Cursor) :
    firstMatch? (lx.addRule matcher kind).rules c =
      (firstMatch? lx.rules c).or (((Rule.mk matcher kind).end? c).map (kind, ·)) := by
  show firstMatch? (lx.rules ++ [⟨matcher, kind⟩]) c = _
  rw [firstMatch?_append, firstMatch?_singleton]

theorem extends_addRule (lx : Lexer) (matcher : Matcher) (kind : Kind) :
    Extends lx (lx.addRule matcher kind) := by
  intro n c t e hnext
  obtain ⟨k, hmatch, hknown, hresolve, ht⟩ := next_eq_token_iff.1 hnext
  apply next_eq_token_iff.2
  refine ⟨k, ?_, hknown, hresolve, ht⟩
  rw [firstMatch?_addRule, hmatch, Option.some_or]

theorem extends_addRules (lx : Lexer) (added : List Rule) : Extends lx (lx.addRules added) := by
  induction added generalizing lx with
  | nil => exact .refl lx
  | cons rule added ih => exact (extends_addRule lx rule.matcher rule.kind).trans (ih _)

theorem Resolved.addRules (h : lx.Resolved) (added : List Rule) : (lx.addRules added).Resolved := by
  induction added generalizing lx with
  | nil => exact h
  | cons rule added ih =>
    have hfirst : (lx.addRule rule.matcher rule.kind).Resolved := h
    exact ih hfirst

/-- The first rule that applies ends the scan. -/
def EndsScan (lx : Lexer) (c : Cursor) : Prop :=
  ∃ rule e, lx.Decides rule c e ∧ rule.kind = .unknown

theorem endsScan_iff : lx.EndsScan c ↔ ∃ e, firstMatch? lx.rules c = some (.unknown, e) := by
  constructor
  · rintro ⟨rule, e, ⟨earlier, later, hrules, hearlier, hend⟩, hkind⟩
    exact ⟨e, firstMatch?_eq_some_iff.2 ⟨earlier, rule, later, hrules, hearlier, hend, hkind⟩⟩
  · rintro ⟨e, hmatch⟩
    obtain ⟨earlier, rule, later, hrules, hearlier, hend, hkind⟩ := firstMatch?_eq_some_iff.1 hmatch
    exact ⟨rule, e, ⟨earlier, later, hrules, hearlier, hend⟩, hkind⟩

/-- Where nothing was found nothing is found with one more rule, if the scan was ended there or the
rule finds nothing itself. -/
theorem next_addRule_eq_nothing_iff (h : lx.next n c = .nothing) (matcher : Matcher)
    (kind : Kind) :
    (lx.addRule matcher kind).next n c = .nothing ↔
      lx.EndsScan c ∨ (Rule.mk matcher kind).end? c = none ∨ kind = .unknown := by
  rw [next_eq_nothing_iff, firstMatch?_addRule, endsScan_iff]
  rcases next_eq_nothing_iff.1 h with hnone | ⟨e, hunknown⟩
  · -- the added rule is the first that may apply
    rw [hnone, Option.none_or]
    cases hend : (Rule.mk matcher kind).end? c with
    | none => simp
    | some e => simp
  · rw [hunknown, Option.some_or]
    exact iff_of_true (.inr ⟨e, rfl⟩) (.inl ⟨e, rfl⟩)

/-- Where the text ends nothing is found. -/
theorem next_eq_nothing_of_rest (h : c.rest = []) : lx.next n c = .nothing := by
  apply next_eq_nothing_iff.2
  left
  cases hmatch : firstMatch? lx.rules c with
  | none => rfl
  | some p =>
    have hshorter := firstMatch?_shorter hmatch
    rw [h] at hshorter
    exact absurd hshorter (Nat.not_lt_zero _)

/-- Under resolved tables nothing is found where a scan stops. -/
theorem Stops.next_eq_nothing {ending : Ending} (h : lx.Resolved) (hstop : Stops lx n c ending) :
    lx.next n c = .nothing :=
  (hstop.of_resolved h).2.elim next_eq_nothing_of_rest id

/-- A scan cuts no token exactly if nothing is found at the place it starts from. -/
theorem scanFrom_tokens_eq_nil_iff (h : lx.Resolved) :
    (lx.scanFrom n c).tokens = [] ↔ lx.next n c = .nothing := by
  obtain ⟨m, d, hcuts, hstop⟩ := cuts_scanFrom lx n c
  generalize (lx.scanFrom n c).tokens = ts at hcuts
  cases hcuts with
  | done => exact iff_of_true rfl (hstop.next_eq_nothing h)
  | step hnext _ =>
    apply iff_of_false (List.cons_ne_nil _ _)
    intro hnothing
    rw [hnext] at hnothing
    exact Found.noConfusion hnothing

/-- An added rule keeps the tokens of every text and goes on where they end. Nothing is added to
them exactly if they cover the text, or a rule ends the scan behind them, or the added rule does not
apply there or would end the scan itself. The tokens are kept by any further rules, too. -/
theorem tokenize_addRule (h : lx.Resolved) (matcher : Matcher) (kind : Kind) (s : Text) :
    ∃ ts more, lx.tokenize s false = .ok ts ∧
      (lx.addRule matcher kind).tokenize s false = .ok (ts ++ more) ∧
      (more = [] ↔ reach ts = s.length ∨ lx.EndsScan (.at s (reach ts)) ∨
        (Rule.mk matcher kind).end? (.at s (reach ts)) = none ∨ kind = .unknown) ∧
      ∀ added : List Rule, ∃ more, (lx.addRules added).tokenize s false = .ok (ts ++ more) := by
  obtain ⟨m, d, hcuts, hstop⟩ := cuts_scan lx s
  obtain rfl := hcuts.reach_eq
  obtain rfl := hcuts.place_eq
  have hadded : (lx.addRule matcher kind).Resolved := h
  have hrest : reach (lx.scan s).tokens = s.length →
      (Cursor.at s (reach (lx.scan s).tokens)).rest = [] := by
    intro hall
    show s.drop _ = []
    rw [hall, List.drop_length]
  refine ⟨(lx.scan s).tokens,
    ((lx.addRule matcher kind).scanFrom (reach (lx.scan s).tokens)
      (.at s (reach (lx.scan s).tokens))).tokens, tokenize_eq_ok h s, ?_, ?_, ?_⟩
  · rw [tokenize_eq_ok hadded, hcuts.scan_eq (extends_addRule lx matcher kind)]
  · rw [scanFrom_tokens_eq_nil_iff hadded]
    have hiff := next_addRule_eq_nothing_iff (hstop.next_eq_nothing h) matcher kind
    constructor
    · intro hnothing
      exact .inr (hiff.1 hnothing)
    · rintro (hall | hstays)
      · exact next_eq_nothing_of_rest (hrest hall)
      · exact hiff.2 hstays
  · intro added
    obtain ⟨more, hmore⟩ := (extends_addRules lx added).isPrefix_tokens s
    exact ⟨more, by rw [hmore, tokenize_eq_ok (h.addRules added)]⟩

/-- The tables end the scan at an exclamation mark, so a rule for it adds nothing there; one for
the dollar sign goes on. -/
theorem tokenize_addRule_dollar :
    signTables.Resolved ∧
      ∃ ts more, signTables.tokenize "go$x!$".toList false = .ok ts ∧
        (signTables.addRule (Sql.oneOf "$") .operator).tokenize "go$x!$".toList false =
          .ok (ts ++ more) ∧
        (more = [] ↔ reach ts = "go$x!$".toList.length ∨
          signTables.EndsScan (.at "go$x!$".toList (reach ts)) ∨
          (Rule.mk (Sql.oneOf "$") .operator).end? (.at "go$x!$".toList (reach ts)) = none ∨
          Kind.operator = .unknown) ∧
        ∀ added : List Rule, ∃ more,
          (signTables.addRules added).tokenize "go$x!$".toList false = .ok (ts ++ more) := by
  have hresolved := registered_signTables.resolved
  exact ⟨hresolved, tokenize_addRule hresolved (Sql.oneOf "$") .operator "go$x!$".toList⟩

end SqlLayout.Lexer
