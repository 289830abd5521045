import SqlLayout.Proofs.CommandLine.Agreement

/-!
# The threshold of a run

Two options write the same threshold: one sets it to a value, the other raises it by one. They are
taken from left to right, so that what counts is the value that was set last and how often it was
raised from there on (`Amounts`); a threshold below zero may be mended by a later option and is
looked at only when all arguments have been taken. The other options are flags, and a flag is set if
its option was given anywhere.

The options that arguments give are read off them by themselves (`given`). That the settings record
them is an invariant of the taking (`Records`): each option that is applied keeps it, and so do the
words of the query in between.
-/

namespace SqlLayout.CommandLine

variable {s s' : Settings} {os : List (Action × Text)} {a : Action} {value : Text}

/-! ## Options that are given -/

/-- The short options that the letters of a cluster stand for. -/
def letters (t : Text) : List (Action × Text) :=
  t.filterMap fun c => (spellings.lookup ['-', c]).map fun a => (a, [])

/-- The options among arguments, from left to right, each with its value. Options that take none have
an empty one. -/
def optionsOf : List Argument → List (Action × Text)
  | [] => []
  | .option a _ (some value) :: rest =>
    (if a.takesValue then [(a, value)] else (a, []) :: letters value) ++ optionsOf rest
  | .option a _ none :: rest =>
    if a.takesValue then
      match rest with
      | .word value :: rest => (a, value) :: optionsOf rest
      | _ => []
    else (a, []) :: optionsOf rest
  | _ :: rest => optionsOf rest

/-- The options that a call gives. -/
def given (arguments : List Text) : List (Action × Text) :=
  match classifyAll arguments with
  | .ok as => optionsOf as
  | .error _ => []

/-- The option is among those that are given. -/
def asks (a : Action) (os : List (Action × Text)) : Bool := os.any (·.1 == a)

/-- How often the threshold is to be raised. -/
def raises (os : List (Action × Text)) : Nat := os.countP (·.1 == .raiseCount)

/-- The threshold that options amount to: the value that was set last and one for each time it is
raised after that, or one for each time if no value is set. There is none if the value is not a
number. -/
inductive Amounts : List (Action × Text) → Option Int → Prop
  | counted {os : List (Action × Text)} (hunset : ∀ v, (.setCount, v) ∉ os) :
    Amounts os (some (raises os))
  | set (before : List (Action × Text)) (value : Text) {after : List (Action × Text)}
    (hlast : ∀ v, (.setCount, v) ∉ after) :
    Amounts (before ++ (.setCount, value) :: after) ((Text.toInt? value).map (· + raises after))

theorem notMem_concat (h : ∀ v, (.setCount, v) ∉ os) (ha : a ≠ .setCount) (value : Text) :
    ∀ v, (.setCount, v) ∉ os ++ [(a, value)] := by
  intro v hmem
  rcases List.mem_append.1 hmem with hmem | hmem
  · exact h v hmem
  · exact ha (Prod.mk.inj (List.mem_singleton.1 hmem)).1.symm

/-- An option that sets no value adds to the threshold what it raises it by. -/
theorem Amounts.concat {t : Option Int} (h : Amounts os t) (ha : a ≠ .setCount) (value : Text) :
    Amounts (os ++ [(a, value)]) (t.map (· + raises [(a, value)])) := by
  have hraises : ∀ os, raises (os ++ [(a, value)]) = raises os + raises [(a, value)] :=
    fun os => List.countP_append
  cases h with
  | counted hunset =>
    have hcounted := Amounts.counted (notMem_concat hunset ha value)
    rw [hraises, Int.natCast_add] at hcounted
    exact hcounted
  | @set before v after hlast =>
    have hset := Amounts.set before v (notMem_concat hlast ha value)
    have hsum : (Text.toInt? v).map (· + (raises (after ++ [(a, value)]) : Int)) =
        ((Text.toInt? v).map (· + (raises after : Int))).map (· + (raises [(a, value)] : Int)) := by
      rw [hraises, Option.map_map]
      congr 1
      funext n
      show n + ((_ + _ : Nat) : Int) = n + (raises after : Int) + _
      omega
    rw [List.append_assoc, List.cons_append, ← hsum]
    exact hset

/-- The option that sets the threshold last, and what comes after it, are unique. -/
theorem last_unique {before before' after after' : List (Action × Text)} {v v' : Text}
    (h : before ++ (.setCount, v) :: after = before' ++ (.setCount, v') :: after')
    (hlast : ∀ w, (.setCount, w) ∉ after) (hlast' : ∀ w, (.setCount, w) ∉ after') :
    v = v' ∧ after = after' := by
  -- of two places the one further on would be among what comes after the other
  rcases List.append_eq_append_iff.1 h with ⟨between, -, hrest⟩ | ⟨between, -, hrest⟩
  · cases between with
    | nil =>
      obtain ⟨hhead, rfl⟩ := List.cons.inj hrest
      exact ⟨(Prod.mk.inj hhead).2, rfl⟩
    | cons x between =>
      obtain ⟨-, rfl⟩ := List.cons.inj hrest
      exact absurd List.mem_append_cons_self (hlast v')
  · cases between with
    | nil =>
      obtain ⟨hhead, rfl⟩ := List.cons.inj hrest
      exact ⟨(Prod.mk.inj hhead).2.symm, rfl⟩
    | cons x between =>
      obtain ⟨-, rfl⟩ := List.cons.inj hrest
      exact absurd List.mem_append_cons_self (hlast' v)

/-- Options amount to one threshold. -/
theorem Amounts.unique {t t' : Option Int} (h : Amounts os t) (h' : Amounts os t') : t = t' := by
  generalize hos : os = os' at h'
  cases h with
  | counted hunset =>
    cases h' with
    | counted hunset' => rw [hos]
    | set before v hlast =>
      subst hos
      exact absurd List.mem_append_cons_self (hunset v)
  | set before v hlast =>
    cases h' with
    | counted hunset =>
      subst hos
      exact absurd List.mem_append_cons_self (hunset v)
    | set before' v' hlast' =>
      obtain ⟨rfl, rfl⟩ := last_unique hos hlast hlast'
      rfl

/-! ## One option -/

/-- The setting that stands for a flag. -/
def Settings.flag? (s : Settings) : Action → Option Bool
  | .format => some s.format
  | .reindent => some s.reindent
  | .removeComments => some s.removeComments
  | .uppercaseKeywords => some s.uppercaseKeywords
  | .json => some s.json
  | .strict => some s.strict
  | .debug => some s.debug
  | .help | .version | .raiseCount | .setCount => none

theorem Settings.flag?_withQuery (s : Settings) (words : List Text) (x : Action) :
    { s with query := words }.flag? x = s.flag? x := by
  cases x <;> rfl

theorem Settings.flag?_withCount (s : Settings) (t : Option Int) (x : Action) :
    { s with fromBreakCount := t }.flag? x = s.flag? x := by
  cases x <;> rfl

/-- An option that is no flag sets none. -/
theorem Settings.flag?_map (h : s.flag? a = none) (x : Action) :
    (s.flag? x).map (· || a == x) = s.flag? x := by
  by_cases hx : a = x
  · rw [← hx, h]
    rfl
  · rw [beq_false_of_ne hx]
    simp

/-- What an option does to settings. -/
structure Settings.Applies (a : Action) (value : Text) (s s' : Settings) : Prop where
  /-- A flag is set by its own option only. -/
  flags : ∀ x, s'.flag? x = (s.flag? x).map (· || a == x)
  raised : a ≠ .setCount → s'.fromBreakCount = s.fromBreakCount.map (· + (raises [(a, value)] : Int))
  /-- Two hyphens are no number, and are dropped. -/
  set : a = .setCount → (value = "--".toList ∨ (Text.toInt? value).isSome = true) ∧
    s'.fromBreakCount = Text.toInt? value

theorem Settings.applies (h : s.apply a value = .ok s') : s.Applies a value s' := by
  cases a with
  | help => cases h
  | version => cases h
  | raiseCount =>
    simp only [apply] at h
    cases hcount : s.fromBreakCount with
    | none =>
      rw [hcount] at h
      cases h
    | some n =>
      rw [hcount] at h
      obtain rfl := Except.ok.inj h
      refine ⟨fun x => ?_, fun _ => by rw [hcount]; rfl, nofun⟩
      rw [flag?_withCount, flag?_map rfl]
  | setCount =>
    have hset : ∀ t, (value = "--".toList ∨ (Text.toInt? value).isSome = true) →
        t = Text.toInt? value → s.Applies .setCount value { s with fromBreakCount := t } := by
      rintro t hvalue rfl
      refine ⟨fun x => ?_, fun hne => absurd rfl hne, fun _ => ⟨hvalue, rfl⟩⟩
      rw [flag?_withCount, flag?_map rfl]
    simp only [apply] at h
    by_cases hdropped : value = "--".toList
    · rw [if_pos hdropped] at h
      obtain rfl := Except.ok.inj h
      exact hset none (.inl hdropped) (by rw [hdropped]; rfl)
    · rw [if_neg hdropped] at h
      cases hvalue : Text.toInt? value with
      | none =>
        rw [hvalue] at h
        cases h
      | some n =>
        rw [hvalue] at h
        obtain rfl := Except.ok.inj h
        exact hset (some n) (.inr (by rw [hvalue]; rfl)) hvalue.symm
  | format | reindent | removeComments | uppercaseKeywords | json | strict | debug =>
    obtain rfl := Except.ok.inj h
    refine ⟨fun x => ?_, fun _ => ?_, nofun⟩
    · cases x <;> simp [flag?]
    · show s.fromBreakCount = s.fromBreakCount.map (· + 0)
      simp

/-! ## All options -/

/-- The settings record what options ask for. -/
structure Records (os : List (Action × Text)) (s : Settings) : Prop where
  flags : ∀ x on, s.flag? x = some on → on = asks x os
  amounts : Amounts os s.fromBreakCount
  /-- Every value was a number, or was dropped. -/
  valued : ∀ v, (.setCount, v) ∈ os → v = "--".toList ∨ (Text.toInt? v).isSome = true

/-- No option is given at first. -/
theorem Records.default : Records [] {} where
  flags x on h := by cases x <;> cases h <;> rfl
  amounts := .counted fun _ => List.not_mem_nil
  valued _ h := absurd h List.not_mem_nil

theorem Records.withQuery (h : Records os s) (words : List Text) :
    Records os { s with query := words } where
  flags x on hon := h.flags x on (s.flag?_withQuery words x ▸ hon)
  amounts := h.amounts
  valued := h.valued

/-- Settings that record options go on to record the option that is applied next. -/
theorem Records.apply (h : Records os s) (happly : s.apply a value = .ok s') :
    Records (os ++ [(a, value)]) s' := by
  have happlies := Settings.applies happly
  refine ⟨?_, ?_, ?_⟩
  · intro x on hon
    rw [happlies.flags, Option.map_eq_some_iff] at hon
    obtain ⟨before, hbefore, rfl⟩ := hon
    rw [h.flags x before hbefore]
    simp [asks]
  · by_cases ha : a = .setCount
    · subst ha
      rw [(happlies.set rfl).2]
      have hset := Amounts.set os value (fun v => List.not_mem_nil)
      simpa [raises] using hset
    · rw [happlies.raised ha]
      exact h.amounts.concat ha value
  · intro v hmem
    rcases List.mem_append.1 hmem with hmem | hmem
    · exact h.valued v hmem
    · obtain ⟨rfl, rfl⟩ := Prod.mk.inj (List.mem_singleton.1 hmem)
      exact (happlies.set rfl).1

theorem Records.applyAll {as : List Action} (h : Records os s) (hall : s.applyAll as = .ok s') :
    Records (os ++ as.map fun a => (a, [])) s' := by
  induction as generalizing s os with
  | nil =>
    obtain rfl := Except.ok.inj hall
    rw [List.map_nil, List.append_nil]
    exact h
  | cons a as ih =>
    unfold Settings.applyAll at hall
    rw [List.foldlM_cons] at hall
    cases happly : s.apply a [] with
    | error e =>
      rw [happly] at hall
      cases hall
    | ok next =>
      rw [happly] at hall
      rw [List.map_cons, List.append_cons]
      exact ih (h.apply happly) hall

/-! ## All arguments -/

/-- A cluster is its first option and those that its letters stand for. -/
theorem cluster_eq {t : Text} {as : List Action} (h : cluster a t = .ok as) :
    (as.map fun a => (a, [])) = (a, []) :: letters t := by
  induction t generalizing a as with
  | nil =>
    obtain rfl := Except.ok.inj h
    rfl
  | cons c rest ih =>
    unfold cluster at h
    split at h
    · next next hlookup =>
      cases hrest : cluster next rest with
      | error e =>
        rw [hrest] at h
        cases h
      | ok more =>
        rw [hrest] at h
        obtain rfl := Except.ok.inj h
        rw [List.map_cons, ih hrest]
        unfold letters
        rw [List.filterMap_cons_some (by rw [hlookup]; rfl)]
    · cases h

theorem Records.takeWithValue {spelling : Text} (h : Records os s)
    (htake : takeWithValue s a spelling value = .ok s') :
    Records (os ++ if a.takesValue then [(a, value)] else (a, []) :: letters value) s' := by
  unfold CommandLine.takeWithValue at htake
  split at htake
  · next hvalue =>
    rw [if_pos hvalue]
    exact h.apply htake
  · next hvalue =>
    rw [if_neg hvalue]
    split at htake
    · cases htake
    · split at htake
      · next as hcluster =>
        rw [← cluster_eq hcluster]
        exact h.applyAll htake
      · cases htake

theorem Records.takeWords {p : Progress} (h : Records os p.settings) (words : List Text) :
    Records os (p.takeWords words).settings := by
  unfold Progress.takeWords
  split
  · exact h
  · split
    · exact h
    · exact h.withQuery _

/-- Arguments that are taken one after another leave settings that record their options. -/
theorem Records.takeAll {p p' : Progress} {words : List Text} {as : List Argument}
    (h : Records os p.settings) (htake : takeAll p words as = .ok p') :
    Records (os ++ optionsOf as) p'.settings := by
  -- the words that came before an option are taken first, and change the query only
  fun_induction CommandLine.takeAll p words as generalizing os
  case case1 p words =>
    obtain rfl := Except.ok.inj htake
    rw [optionsOf, List.append_nil]
    exact h.takeWords words.reverse
  case case2 ih => exact ih h htake
  case case3 ih => exact ih h htake
  case case4 p words t rest taken ih => exact ih (h.takeWords words.reverse) htake
  case case5 p words a spelling value rest taken settings hvalue ih =>
    rw [optionsOf, ← List.append_assoc]
    exact ih ((h.takeWords words.reverse).takeWithValue hvalue) htake
  case case6 => cases htake
  case case7 p words a spelling taken htakes value rest settings happly ih =>
    rw [optionsOf, if_pos htakes, List.append_cons]
    exact ih ((h.takeWords words.reverse).apply happly) htake
  case case8 => cases htake
  case case9 => cases htake
  case case10 p words a spelling rest taken htakes settings happly ih =>
    unfold optionsOf
    rw [if_neg htakes, List.append_cons]
    exact ih ((h.takeWords words.reverse).apply happly) htake
  case case11 => cases htake

/-- Arguments that are accepted were classified and taken. -/
theorem exists_of_parse {arguments : List Text} (h : parse arguments = .ok s) :
    ∃ as p, classifyAll arguments = .ok as ∧ takeAll {} [] as = .ok p ∧ p.settings = s := by
  unfold parse at h
  cases hclassified : classifyAll arguments with
  | error e =>
    rw [hclassified] at h
    cases h
  | ok as =>
    rw [hclassified] at h
    cases htake : takeAll {} [] as with
    | error e =>
      simp only [Except.mapError, bind, Except.bind, htake] at h
      cases h
    | ok p =>
      simp only [Except.mapError, bind, Except.bind, htake] at h
      split at h
      · exact ⟨as, p, rfl, htake, Except.ok.inj h⟩
      · cases h

/-- The settings that arguments ask for record the options that are given. -/
theorem records_of_parse {arguments : List Text} (h : parse arguments = .ok s) :
    Records (given arguments) s := by
  obtain ⟨as, p, hclassified, htake, rfl⟩ := exists_of_parse h
  unfold given
  rw [hclassified]
  exact Records.default.takeAll htake

/-! ## The run -/

/-- A threshold is missing only if the value that was set last was dropped. -/
theorem Records.exists_count (h : Records os s)
    (hvalued : ∀ before after, os = before ++ (.setCount, "--".toList) :: after →
      ∃ v, (.setCount, v) ∈ after) :
    ∃ n, s.fromBreakCount = some n := by
  have hamounts := h.amounts
  generalize hcount : s.fromBreakCount = t at hamounts
  cases hamounts with
  | counted hunset => exact ⟨_, rfl⟩
  | set before v hlast =>
    rcases h.valued v List.mem_append_cons_self with rfl | hnumber
    · obtain ⟨w, hw⟩ := hvalued before _ rfl
      exact absurd hw (hlast w)
    · obtain ⟨m, hm⟩ := Option.isSome_iff_exists.1 hnumber
      exact ⟨_, by rw [hm]; rfl⟩

/-- Settings with a threshold are refused for the first of three reasons that applies. -/
theorem Settings.check_eq {n : Int} (hcount : s.fromBreakCount = some n) :
    s.check =
      if s.query = [] then .error (.usage .noQuery)
      else if s.format = true ∧ s.json = true then .error (.usage .formatWithJson)
      else if n < 0 then .error (.usage .negativeCount)
      else .ok () := by
  rw [check, hcount]
  simp only [List.isEmpty_iff, Bool.and_eq_true]

/-- How a call ends whose options amount to a threshold, for the words and the text of its query. -/
structure Answers (os : List (Action × Text)) (words : List Text) (q : Text) (n : Int)
    (ended : Except Fault Outcome) : Prop where
  ends : ∃ outcome, ended = .ok outcome
  /-- It is refused for the sign of the threshold if there is a query, the modes go together, and the
  threshold is negative. -/
  negative : ended = .ok
      { status := 2, stdout := [],
        stderr := usageText ++ "sqlscribe: error: ".toList ++ UsageError.negativeCount.message ++
          ['\n'] } ↔
    words ≠ [] ∧ ¬(asks .format os = true ∧ asks .json os = true) ∧ n < 0
  /-- It succeeds if it is not refused and can be served. -/
  accepted : (∃ outcome, ended = .ok outcome ∧ outcome.status = 0) ↔
    words ≠ [] ∧ ¬(asks .format os = true ∧ asks .json os = true) ∧ 0 ≤ n ∧
      (∃ c ∈ q, Text.isBlank c = false) ∧
      (asks .strict os = true → (Sql.tokens q).flatMap (·.value) = q)
  /-- The layout is that of the query, with this threshold and the flags that were given. -/
  laidOut : asks .format os = true → ∀ outcome, ended = .ok outcome → outcome.status = 0 →
    ∃ k : Nat, n = k ∧ outcome.stdout =
      Layout.formatQuery
        { reindent := asks .reindent os, fromBreakCount := k,
          removeComments := asks .removeComments os,
          uppercaseKeywords := asks .uppercaseKeywords os } q ++ ['\n']

variable {words : List Text} {q : Text} {n : Int} {ended : Except Fault Outcome}

/-- A refused call writes its message and nothing else. -/
theorem answers_of_refused {e : UsageError}
    (hended : ended = .ok
      { status := 2,
        stderr := usageText ++ "sqlscribe: error: ".toList ++ e.message ++ ['\n'] })
    (hnegative : e.message = UsageError.negativeCount.message ↔
      words ≠ [] ∧ ¬(asks .format os = true ∧ asks .json os = true) ∧ n < 0)
    (hrefused : ¬(words ≠ [] ∧ ¬(asks .format os = true ∧ asks .json os = true) ∧ 0 ≤ n)) :
    Answers os words q n ended where
  ends := ⟨_, hended⟩
  negative := by
    rw [hended, ← hnegative]
    constructor
    · intro heq
      obtain ⟨-, -, hstderr⟩ := Outcome.mk.inj (Except.ok.inj heq)
      exact List.append_cancel_left (List.append_cancel_right hstderr)
    · intro hmessage
      rw [hmessage]
  accepted := by
    refine iff_of_false ?_ fun h => hrefused ⟨h.1, h.2.1, h.2.2.1⟩
    rintro ⟨outcome, houtcome, hstatus⟩
    rw [hended] at houtcome
    obtain rfl := Except.ok.inj houtcome
    cases hstatus
  laidOut _ outcome houtcome hstatus := by
    rw [hended] at houtcome
    obtain rfl := Except.ok.inj houtcome
    cases hstatus

/-- A query can be served if it holds more than blanks, and is cut to its end if it has to. -/
theorem Settings.not_fails_iff : ¬s.Fails q ↔
    (∃ c ∈ q, Text.isBlank c = false) ∧
      (s.strict = true → (Sql.tokens q).flatMap (·.value) = q) := by
  unfold Fails
  rw [not_or, not_and, not_ne_iff]
  push Not
  simp only [Bool.not_eq_true]

theorem Settings.status_run_eq_zero_iff {stdin : Text} :
    (s.run stdin).status = 0 ↔ ¬s.Fails (s.queryText stdin) := by
  constructor
  · intro hstatus hfails
    rw [(run_of_fails hfails).1] at hstatus
    cases hstatus
  · exact fun hserved => (run_of_not_fails hserved).1

theorem Settings.status_run_ne_two (s : Settings) (stdin : Text) : (s.run stdin).status ≠ 2 := by
  by_cases hfails : s.Fails (s.queryText stdin)
  · rw [(run_of_fails hfails).1]
    decide
  · rw [(run_of_not_fails hfails).1]
    decide

/-- A call that is not refused fails on its query or is served. -/
theorem answers_of_run {stdin : Text} (h : Records os s) (hcount : s.fromBreakCount = some n)
    (hquery : s.query ≠ []) (hmodes : ¬(asks .format os = true ∧ asks .json os = true))
    (hsign : 0 ≤ n) :
    Answers os s.query (s.queryText stdin) n (.ok (s.run stdin)) where
  ends := ⟨_, rfl⟩
  negative := by
    refine iff_of_false ?_ fun hnegative => absurd hnegative.2.2 (Int.not_lt.2 hsign)
    intro heq
    exact s.status_run_ne_two stdin (congrArg Outcome.status (Except.ok.inj heq))
  accepted := by
    have hserved : (∃ outcome, (.ok (s.run stdin) : Except Fault Outcome) = .ok outcome ∧
        outcome.status = 0) ↔ ¬s.Fails (s.queryText stdin) := by
      rw [← Settings.status_run_eq_zero_iff]
      simp
    rw [hserved, Settings.not_fails_iff, ← h.flags .strict _ rfl]
    exact ⟨fun hq => ⟨hquery, hmodes, hsign, hq⟩, fun hall => hall.2.2.2⟩
  laidOut hformat outcome houtcome hstatus := by
    obtain rfl := Except.ok.inj houtcome
    have hoptions : s.options =
        { reindent := asks .reindent os, fromBreakCount := n.toNat,
          removeComments := asks .removeComments os,
          uppercaseKeywords := asks .uppercaseKeywords os } := by
      unfold Settings.options
      rw [hcount, h.flags .reindent _ rfl, h.flags .removeComments _ rfl,
        h.flags .uppercaseKeywords _ rfl]
      rfl
    refine ⟨n.toNat, (Int.toNat_of_nonneg hsign).symm, ?_⟩
    rw [(Settings.run_of_not_fails (Settings.status_run_eq_zero_iff.1 hstatus)).2, Settings.output,
      h.flags .format _ rfl, if_pos hformat, hoptions]
    rfl

/-- A call whose threshold has a value ends as it should. -/
theorem answers_run {arguments : List Text} (haccepted : parse arguments = .ok s)
    (hcount : s.fromBreakCount = some n) (stdin : Text) :
    Answers (given arguments) s.query (s.queryText stdin) n (run arguments stdin) := by
  have h := records_of_parse haccepted
  have hcheck := Settings.check_eq hcount
  have hmodes : s.format = true ∧ s.json = true ↔
      asks .format (given arguments) = true ∧ asks .json (given arguments) = true := by
    rw [h.flags .format _ rfl, h.flags .json _ rfl]
  by_cases hquery : s.query = []
  · rw [if_pos hquery] at hcheck
    apply answers_of_refused (run_of_check_error haccepted hcheck stdin)
    · exact iff_of_false (by decide) fun hall => hall.1 hquery
    · exact fun hall => hall.1 hquery
  rw [if_neg hquery] at hcheck
  by_cases hboth : s.format = true ∧ s.json = true
  · rw [if_pos hboth] at hcheck
    apply answers_of_refused (run_of_check_error haccepted hcheck stdin)
    · exact iff_of_false (by decide) fun hall => hall.2.1 (hmodes.1 hboth)
    · exact fun hall => hall.2.1 (hmodes.1 hboth)
  rw [if_neg hboth] at hcheck
  by_cases hsign : n < 0
  · rw [if_pos hsign] at hcheck
    apply answers_of_refused (run_of_check_error haccepted hcheck stdin)
    · exact iff_of_true rfl ⟨hquery, mt hmodes.2 hboth, hsign⟩
    · exact fun hall => absurd hsign (Int.not_lt.2 hall.2.2)
  · rw [if_neg hsign] at hcheck
    rw [run_of_check_ok haccepted hcheck stdin]
    exact answers_of_run h hcount hquery (mt hmodes.2 hboth) (Int.not_lt.1 hsign)

/-- The threshold of a call is the value that was set last and one for each time it is raised after
that, or one for each time if no value is set. Only if it is negative the call is refused for it, and
the query is laid out by it and by the flags that were given. The value that was set last must not be
one of two hyphens, which are dropped. -/
theorem run_counts {arguments : List Text} (haccepted : parse arguments = .ok s)
    (hvalued : ∀ before after, given arguments = before ++ (.setCount, "--".toList) :: after →
      ∃ v, (.setCount, v) ∈ after)
    (stdin : Text) :
    ∃ n : Int, s.fromBreakCount = some n ∧ (∀ t, Amounts (given arguments) t ↔ t = some n) ∧
      Answers (given arguments) s.query
        (if s.query = [['-']] then stdin else [' '].intercalate s.query) n (run arguments stdin) := by
  have h := records_of_parse haccepted
  obtain ⟨n, hcount⟩ := h.exists_count hvalued
  have hamounts : Amounts (given arguments) (some n) := hcount ▸ h.amounts
  refine ⟨n, hcount, fun t => ⟨fun ht => ht.unique hamounts, fun ht => ht ▸ hamounts⟩, ?_⟩
  rw [← s.queryText_eq]
  exact answers_run haccepted hcount stdin

/-- A call whose threshold is set below zero and raised to one. -/
def mendedCall : List Text :=
  ["-fcr".toList, "--from-break-count".toList, "-2".toList, "-cc".toList, "SELECT a".toList,
    "FROM b".toList, "-c".toList]

theorem run_counts_mendedCall :
    ∃ s, parse mendedCall = .ok s ∧
      (∀ before after, given mendedCall = before ++ (.setCount, "--".toList) :: after →
        ∃ v, (.setCount, v) ∈ after) ∧
      ∃ n : Int, s.fromBreakCount = some n ∧ (∀ t, Amounts (given mendedCall) t ↔ t = some n) ∧
        Answers (given mendedCall) s.query
          (if s.query = [['-']] then [] else [' '].intercalate s.query) n (run mendedCall []) := by
  have haccepted : parse mendedCall = .ok
      { query := ["SELECT a".toList, "FROM b".toList], format := true, reindent := true,
        fromBreakCount := some 1 } := by decide +kernel
  have hdropped : (.setCount, "--".toList) ∉ given mendedCall := by decide +kernel
  have hvalued : ∀ before after, given mendedCall = before ++ (.setCount, "--".toList) :: after →
      ∃ v, (.setCount, v) ∈ after :=
    fun before after heq => absurd (heq ▸ List.mem_append_cons_self) hdropped
  exact ⟨_, haccepted, hvalued, run_counts haccepted hvalued []⟩

/-- A value of two hyphens leaves a call without a threshold, and it has a fault. -/
theorem run_uncounted :
    ¬∀ s, parse ["-f".toList, "--from-break-count=--".toList, "x".toList] = .ok s →
      ∃ n : Int, s.fromBreakCount = some n ∧
        (∀ t, Amounts (given ["-f".toList, "--from-break-count=--".toList, "x".toList]) t ↔
          t = some n) ∧
        Answers (given ["-f".toList, "--from-break-count=--".toList, "x".toList]) s.query
          (if s.query = [['-']] then [] else [' '].intercalate s.query) n
          (run ["-f".toList, "--from-break-count=--".toList, "x".toList] []) := by
  intro h
  have haccepted : parse ["-f".toList, "--from-break-count=--".toList, "x".toList] =
      .ok { query := ["x".toList], format := true, fromBreakCount := none } := by decide +kernel
  have hfault : run ["-f".toList, "--from-break-count=--".toList, "x".toList] [] =
      .error .compared := by decide +kernel
  obtain ⟨n, -, -, hanswers⟩ := h _ haccepted
  obtain ⟨outcome, hended⟩ := hanswers.ends
  rw [hfault] at hended
  cases hended

end SqlLayout.CommandLine
