import SqlLayout.CommandLine.Run
import SqlLayout.Layout.Scope
import SqlLayout.Proofs.Lexer.Strict

/-!
# A run of the program agrees with the library

Every exit of a run is decided before anything is written. Settings that do not go together are
refused; a query without characters other than blanks has failed, and so has one that a strict run
cannot cut to its end. What is written otherwise is what the library gives for the query: its layout
by options made of the flags, the document of its tokens, or a line for each of them.

A threshold that was left without a value is neither negative nor a threshold. Settings that are
refused for another reason are refused nonetheless; a run on any others has a fault.
-/

namespace SqlLayout.CommandLine

variable {s : Settings} {q stdin : Text} {arguments : List Text}

/-! ## Settings and queries that end a run -/

/-- The settings do not go together. -/
def Settings.Refused (s : Settings) : Prop :=
  s.query = [] ∨ (s.format = true ∧ s.json = true) ∨ ∃ n < 0, s.fromBreakCount = some n

/-- There is nothing to be written for the query: it holds blanks only, or it cannot be cut to its
end although it has to. -/
def Settings.Fails (s : Settings) (q : Text) : Prop :=
  (∀ c ∈ q, Text.isBlank c = true) ∨ (s.strict = true ∧ (Sql.tokens q).flatMap (·.value) ≠ q)

theorem Settings.check_of_refused (h : s.Refused) : ∃ e, s.check = .error (.usage e) := by
  unfold check
  split
  · exact ⟨_, rfl⟩
  · next hquery =>
    split
    · exact ⟨_, rfl⟩
    · next hmodes =>
      rcases h with h | h | ⟨n, hn, hcount⟩
      · exact absurd (List.isEmpty_iff.2 h) hquery
      · exact absurd (Bool.and_eq_true_iff.2 h) hmodes
      · rw [hcount]
        exact ⟨.negativeCount, if_pos hn⟩

theorem Settings.check_of_not_refused (h : ¬s.Refused) (hcount : s.fromBreakCount ≠ none) :
    s.check = .ok () := by
  obtain ⟨hquery, h⟩ := not_or.1 h
  obtain ⟨hmodes, hnegative⟩ := not_or.1 h
  obtain ⟨n, hn⟩ := Option.ne_none_iff_exists'.1 hcount
  have hle : ¬n < 0 := fun hlt => hnegative ⟨n, hlt, hn⟩
  rw [check, if_neg (by simpa using hquery), if_neg (by simpa using hmodes), hn]
  exact if_neg hle

/-! ## Runs on settings that go together -/

/-- A run fails with status 1 before it writes. -/
theorem Settings.run_of_fails (h : s.Fails (s.queryText stdin)) :
    (s.run stdin).status = 1 ∧ (s.run stdin).stdout = [] := by
  rw [run]
  split
  · exact ⟨rfl, rfl⟩
  · next hblank =>
    rcases h with h | ⟨hstrict, huncovered⟩
    · exact absurd (List.all_eq_true.2 h) hblank
    · have hne : (Sql.lexer.scan (s.queryText stdin)).tokens.flatMap (·.value) ≠
          s.queryText stdin := huncovered
      rw [hstrict, Lexer.tokenize_strict Lexer.Registered.sql.resolved, if_neg hne]
      exact ⟨rfl, rfl⟩

/-- Otherwise it writes what there is for the tokens of the query. -/
theorem Settings.run_of_not_fails (h : ¬s.Fails (s.queryText stdin)) :
    (s.run stdin).status = 0 ∧
      (s.run stdin).stdout = s.output (Sql.tokens (s.queryText stdin)) := by
  obtain ⟨hblank, hstrict⟩ := not_or.1 h
  have htokens : Sql.lexer.tokenize (s.queryText stdin) s.strict =
      .ok (Sql.tokens (s.queryText stdin)) := by
    cases hs : s.strict with
    | false => exact Lexer.tokenize_eq_ok Lexer.Registered.sql.resolved _
    | true =>
      have hall : (Sql.lexer.scan (s.queryText stdin)).tokens.flatMap (·.value) =
          s.queryText stdin := not_not.1 fun huncovered => hstrict ⟨hs, huncovered⟩
      rw [Lexer.tokenize_strict Lexer.Registered.sql.resolved, if_pos hall]
      rfl
  rw [run, if_neg (by simpa using hblank), htokens]
  exact ⟨rfl, rfl⟩

theorem Settings.queryText_eq (s : Settings) (stdin : Text) :
    s.queryText stdin =
      if s.query = [['-']] then stdin else [' '].intercalate s.query := by
  rw [queryText, readsInput]
  simp only [beq_iff_eq]

/-! ## The flags -/

/-- The flags that name layout options. -/
def Settings.flags (s : Settings) : List Setting :=
  [.reindent s.reindent, .removeComments s.removeComments,
    .uppercaseKeywords s.uppercaseKeywords] ++ s.fromBreakCount.toList.map .fromBreakCount

/-- Unless they are refused, the flags make options. -/
theorem Settings.ofSettings_flags (h : ¬s.Refused) : Options.ofSettings s.flags = .ok s.options := by
  have hnegative : ∀ n < 0, s.fromBreakCount ≠ some n := fun n hn hcount =>
    h (.inr (.inr ⟨n, hn, hcount⟩))
  rw [Options.ofSettings, flags, options]
  cases hcount : s.fromBreakCount with
  | none => rfl
  | some n =>
    cases n with
    | ofNat n => rfl
    | negSucc n => exact absurd hcount (hnegative _ (Int.negSucc_lt_zero n))

/-- With the flags as its options the library lays out alike in every scope. -/
theorem Settings.exec_format_flags (h : ¬s.Refused) (scope : Layout.Scope) (q : Text) :
    (scope.exec (.format (.query q) (some s.flags) [])).1 =
      .text (Layout.format s.options (Sql.tokens q)) := by
  have hlayOut : scope.layOut (.query q) (some s.flags) [] =
      .ok (Layout.format s.options (Sql.tokens q)) := by
    rw [Layout.Scope.layOut, Layout.Scope.request, s.ofSettings_flags h]
    rfl
  rw [Layout.Scope.exec, hlayOut]

/-! ## Agreement -/

/-- What a run on these settings and this query leaves behind, in the terms of the library. -/
structure Settings.Leaves (s : Settings) (q : Text) (outcome : Outcome) : Prop where
  /-- Settings that do not go together are refused. -/
  refused : s.Refused → outcome.status = 2
  /-- Of all others a run fails on a query that it cannot serve. -/
  failed : ¬s.Refused → s.Fails q → outcome.status = 1
  /-- Failures write nothing. -/
  silent : s.Refused ∨ s.Fails q → outcome.stdout = []
  /-- All other runs succeed. -/
  served : ¬s.Refused → ¬s.Fails q → outcome.status = 0
  /-- The layout is the library's by options made of the flags, whatever is in force. -/
  laidOut : ¬s.Refused → ¬s.Fails q → s.format = true → ∃ text, outcome.stdout = text ++ ['\n'] ∧
    ∀ scope : Layout.Scope, (scope.exec (.format (.query q) (some s.flags) [])).1 = .text text
  /-- The document is that of the tokens. -/
  document : ¬s.Refused → ¬s.Fails q → s.json = true →
    ∃ ts, Sql.lexer.tokenize q false = .ok ts ∧
      outcome.stdout =
        Token.toDocument .compact (Token.withoutComments s.removeComments ts) ++ ['\n']
  /-- The listing has a line for each token that is not left out. -/
  listed : ¬s.Refused → ¬s.Fails q → s.format = false → s.json = false →
    ∃ ts, Sql.lexer.tokenize q false = .ok ts ∧
      outcome.stdout =
        (ts.filter fun t => !(s.removeComments && t.kind == .comment)).flatMap fun t =>
          t.kind.title.toList ++ ": ".toList ++ t.value ++ ['\n']

theorem Settings.leaves_of_refused (h : s.Refused) {outcome : Outcome}
    (hstatus : outcome.status = 2) (hstdout : outcome.stdout = []) : s.Leaves q outcome where
  refused _ := hstatus
  failed hn := absurd h hn
  silent _ := hstdout
  served hn := absurd h hn
  laidOut hn := absurd h hn
  document hn := absurd h hn
  listed hn := absurd h hn

theorem Settings.leaves_run (h : ¬s.Refused) : s.Leaves (s.queryText stdin) (s.run stdin) where
  refused hr := absurd hr h
  failed _ hf := (run_of_fails hf).1
  silent hf := (run_of_fails (hf.resolve_left h)).2
  served _ hf := (run_of_not_fails hf).1
  laidOut _ hf hformat := by
    refine ⟨_, ?_, fun scope => s.exec_format_flags h scope _⟩
    rw [(run_of_not_fails hf).2, output, if_pos hformat]
  document _ hf hjson := by
    have hformat : ¬s.format = true := fun hformat => h (.inr (.inl ⟨hformat, hjson⟩))
    refine ⟨_, Lexer.tokenize_eq_ok Lexer.Registered.sql.resolved _, ?_⟩
    rw [(run_of_not_fails hf).2, output, if_neg hformat]
    exact if_pos hjson
  listed _ hf hformat hjson := by
    refine ⟨_, Lexer.tokenize_eq_ok Lexer.Registered.sql.resolved _, ?_⟩
    rw [(run_of_not_fails hf).2, output, hformat, hjson]
    rfl

theorem run_of_check_error {e : UsageError} (haccepted : parse arguments = .ok s)
    (hcheck : s.check = .error (.usage e)) (stdin : Text) :
    run arguments stdin = .ok
      { status := 2, stderr := usageText ++ "sqlscribe: error: ".toList ++ e.message ++ ['\n'] } := by
  have hsettings : settings arguments = .error (.usage e) := by
    rw [settings, haccepted]
    simp only [bind, Except.bind, hcheck]
  rw [run, hsettings]
  rfl

theorem run_of_check_ok (haccepted : parse arguments = .ok s) (hcheck : s.check = .ok ())
    (stdin : Text) : run arguments stdin = .ok (s.run stdin) := by
  have hsettings : settings arguments = .ok s := by
    rw [settings, haccepted]
    simp only [bind, Except.bind, hcheck]
    rfl
  rw [run, hsettings]

/-- A run on arguments that are accepted ends, and agrees with the library, if the threshold has a
value or the settings do not go together anyway. The query is the standard input for a single
hyphen, and else the words with a space in between. -/
theorem run_agrees (haccepted : parse arguments = .ok s)
    (hcount : s.fromBreakCount = none → s.Refused) (stdin : Text) :
    ∃ outcome, run arguments stdin = .ok outcome ∧
      s.Leaves (if s.query = [['-']] then stdin else [' '].intercalate s.query) outcome := by
  rw [← s.queryText_eq]
  by_cases hrefused : s.Refused
  · obtain ⟨e, he⟩ := Settings.check_of_refused hrefused
    exact ⟨_, run_of_check_error haccepted he stdin, Settings.leaves_of_refused hrefused rfl rfl⟩
  · have hchecked := Settings.check_of_not_refused hrefused (mt hcount hrefused)
    exact ⟨s.run stdin, run_of_check_ok haccepted hchecked stdin, Settings.leaves_run hrefused⟩

/-- A query with a comment is laid out without it. -/
def laidOutCall : List Text :=
  ["-fr".toList, "-cC".toList, "SELECT a --b\n".toList, "FROM c".toList]

theorem run_agrees_laidOutCall :
    ∃ s, parse laidOutCall = .ok s ∧ (s.fromBreakCount = none → s.Refused) ∧
      ∃ outcome, run laidOutCall [] = .ok outcome ∧
        s.Leaves (if s.query = [['-']] then [] else [' '].intercalate s.query) outcome := by
  have haccepted : parse laidOutCall = .ok
      { query := ["SELECT a --b\n".toList, "FROM c".toList], format := true, reindent := true,
        fromBreakCount := some 1, removeComments := true } := by decide +kernel
  exact ⟨_, haccepted, by simp, run_agrees haccepted (by simp) []⟩

/-- A value of two hyphens is dropped, and without a threshold the run has a fault. -/
theorem run_unvalued :
    ¬∀ s, parse ["--from-break-count=--".toList, "x".toList] = .ok s →
      ∃ outcome, run ["--from-break-count=--".toList, "x".toList] [] = .ok outcome ∧
        s.Leaves (if s.query = [['-']] then [] else [' '].intercalate s.query) outcome := by
  intro h
  have haccepted : parse ["--from-break-count=--".toList, "x".toList] =
      .ok { query := ["x".toList], fromBreakCount := none } := by decide +kernel
  have hfault : run ["--from-break-count=--".toList, "x".toList] [] = .error .compared := by
    decide +kernel
  obtain ⟨outcome, hrun, -⟩ := h _ haccepted
  rw [hfault] at hrun
  cases hrun

end SqlLayout.CommandLine
