import Mathlib.Data.List.Infix
import Mathlib.Data.List.TakeDrop
import SqlLayout.Proofs.CommandLine.Threshold
import SqlLayout.Proofs.Log.Delivery

/-!
# Debugging

An option in front of all others sets its flag before anything else is taken, and nothing but the
scan of the query asks for this flag. So each function on the way from the arguments to the settings
commutes with setting it, mistakes and other ends included (`settings_cons_debug`), and a run with
it differs in what the scan reports (`run_cons_debug`): nothing if the scan comes to the end of the
query, and else one line that stands before whatever the run writes itself.

A call that asks for debugging anyway reports as much without the option. The flag is set by no
argument but the option and its beginnings (`debug_of_settings`).
-/

namespace SqlLayout.CommandLine

variable {s s' : Settings} {p p' : Progress} {a : Action} {t value spelling stdin q : Text}
  {words arguments : List Text} {as : List Argument}

/-! ## Debugging from the start -/

/-- The settings with debugging. -/
def Settings.withDebug (s : Settings) : Settings := { s with debug := true }

/-- The same progress with debugging. -/
def Progress.withDebug (p : Progress) : Progress := { p with settings := p.settings.withDebug }

theorem Settings.apply_withDebug (s : Settings) (a : Action) (value : Text) :
    s.withDebug.apply a value = (s.apply a value).map withDebug := by
  cases a with
  | raiseCount =>
    simp only [apply, withDebug]
    cases s.fromBreakCount <;> rfl
  | setCount =>
    simp only [apply, withDebug]
    split
    · rfl
    · cases Text.toInt? value <;> rfl
  | _ => rfl

theorem Settings.applyAll_withDebug (s : Settings) (l : List Action) :
    s.withDebug.applyAll l = (s.applyAll l).map withDebug := by
  unfold applyAll
  induction l generalizing s with
  | nil => rfl
  | cons a l ih =>
    rw [List.foldlM_cons, List.foldlM_cons, apply_withDebug]
    cases s.apply a [] with
    | error e => rfl
    | ok next => exact ih next

theorem takeWithValue_withDebug (s : Settings) (a : Action) (spelling value : Text) :
    takeWithValue s.withDebug a spelling value =
      (takeWithValue s a spelling value).map Settings.withDebug := by
  unfold takeWithValue
  split
  · exact s.apply_withDebug a value
  · split
    · rfl
    · cases cluster a value with
      | error e => rfl
      | ok l => exact s.applyAll_withDebug l

theorem Progress.takeWords_withDebug (p : Progress) (words : List Text) :
    p.withDebug.takeWords words = (p.takeWords words).withDebug := by
  unfold takeWords
  split
  · rfl
  · unfold withDebug
    split <;> rfl

@[simp] theorem Progress.settings_withDebug (p : Progress) :
    p.withDebug.settings = p.settings.withDebug := rfl

theorem takeAll_option_some (p : Progress) (words : List Text) (a : Action) (spelling value : Text)
    (as : List Argument) :
    takeAll p words (.option a spelling (some value) :: as) =
      (takeWithValue (p.takeWords words.reverse).settings a spelling value).bind fun settings =>
        takeAll { p.takeWords words.reverse with settings } [] as := by
  rw [takeAll]
  cases takeWithValue (p.takeWords words.reverse).settings a spelling value <;> rfl

theorem takeAll_option_word (ha : a.takesValue = true) (p : Progress) (words : List Text)
    (spelling value : Text) (as : List Argument) :
    takeAll p words (.option a spelling none :: .word value :: as) =
      ((p.takeWords words.reverse).settings.apply a value).bind fun settings =>
        takeAll { p.takeWords words.reverse with settings } [] as := by
  rw [takeAll, if_pos ha]
  cases (p.takeWords words.reverse).settings.apply a value <;> rfl

theorem takeAll_option_none (ha : ¬a.takesValue = true) (p : Progress) (words : List Text)
    (spelling : Text) (as : List Argument) :
    takeAll p words (.option a spelling none :: as) =
      ((p.takeWords words.reverse).settings.apply a []).bind fun settings =>
        takeAll { p.takeWords words.reverse with settings } [] as := by
  rw [takeAll.eq_def]
  dsimp only
  rw [if_neg ha]
  cases (p.takeWords words.reverse).settings.apply a [] <;> rfl

/-- Whatever is taken, it is taken in the same way with debugging. -/
theorem takeAll_withDebug (p : Progress) (words : List Text) (as : List Argument) :
    takeAll p.withDebug words as = (takeAll p words as).map Progress.withDebug := by
  -- the words before an option are taken first; then the option is, or is refused
  fun_induction takeAll p words as
  case case1 p words =>
    rw [takeAll, Progress.takeWords_withDebug]
    rfl
  case case2 ih => rw [takeAll, ih]
  case case3 ih => rw [takeAll, ih]
  case case4 p words t rest taken ih =>
    rw [takeAll, Progress.takeWords_withDebug]
    exact ih
  case case5 p words a spelling value rest taken settings hvalue ih =>
    rw [takeAll_option_some, p.takeWords_withDebug, Progress.settings_withDebug,
      takeWithValue_withDebug, hvalue]
    exact ih
  case case6 p words a spelling value rest taken e hvalue =>
    rw [takeAll_option_some, p.takeWords_withDebug, Progress.settings_withDebug,
      takeWithValue_withDebug, hvalue]
    rfl
  case case7 p words a spelling taken htakes value rest settings happly ih =>
    rw [takeAll_option_word htakes, p.takeWords_withDebug, Progress.settings_withDebug,
      Settings.apply_withDebug, happly]
    exact ih
  case case8 p words a spelling taken htakes value rest e happly =>
    rw [takeAll_option_word htakes, p.takeWords_withDebug, Progress.settings_withDebug,
      Settings.apply_withDebug, happly]
    rfl
  case case9 p words a spelling rest htakes hrest =>
    rw [takeAll, if_pos htakes]
    · rfl
    · exact hrest
  case case10 p words a spelling rest taken htakes settings happly ih =>
    rw [takeAll_option_none htakes, p.takeWords_withDebug, Progress.settings_withDebug,
      Settings.apply_withDebug, happly]
    exact ih
  case case11 p words a spelling rest taken htakes e happly =>
    rw [takeAll_option_none htakes, p.takeWords_withDebug, Progress.settings_withDebug,
      Settings.apply_withDebug, happly]
    rfl

/-! ## The option in front of others -/

theorem classifyAll_cons_debug (arguments : List Text) :
    classifyAll ("--debug".toList :: arguments) =
      (classifyAll arguments).map (.option .debug "--debug".toList none :: ·) := by
  have hclassify : classify "--debug".toList = .ok (.option .debug "--debug".toList none) := by
    decide +kernel
  rw [classifyAll, if_neg (by decide), hclassify]
  cases classifyAll arguments <;> rfl

theorem parse_cons_debug (arguments : List Text) :
    parse ("--debug".toList :: arguments) = (parse arguments).map Settings.withDebug := by
  unfold parse
  rw [classifyAll_cons_debug]
  cases classifyAll arguments with
  | error e => rfl
  | ok as =>
    have htake : takeAll {} [] (.option .debug "--debug".toList none :: as) =
        (takeAll {} [] as).map Progress.withDebug := by
      rw [takeAll_option_none (by decide)]
      exact takeAll_withDebug {} [] as
    simp only [Except.map, Except.mapError, bind, Except.bind, htake]
    cases takeAll {} [] as with
    | error e => rfl
    | ok p =>
      show (if p.extra.isEmpty then _ else _) = Except.map _ (if p.extra.isEmpty then _ else _)
      split <;> rfl

theorem settings_cons_debug (arguments : List Text) :
    settings ("--debug".toList :: arguments) = (settings arguments).map Settings.withDebug := by
  unfold settings
  rw [parse_cons_debug]
  cases parse arguments with
  | error e => rfl
  | ok s =>
    show (s.check >>= fun _ => _) = Except.map _ (s.check >>= fun _ => _)
    cases s.check <;> rfl

/-! ## The line of a scan -/

/-- Where the tokens of a query stop. -/
def stopMessage (q : Text) : Text :=
  "No pattern matches at offset ".toList ++
    Text.ofNat ((Sql.tokens q).flatMap (·.value)).length ++ "; stopping".toList

/-- The line that says so. -/
def stopLine (q : Text) : Text :=
  "DEBUG sqlscribe.lexer.core: ".toList ++ stopMessage q ++ ['\n']

theorem stopLine_ne_nil (q : Text) : stopLine q ≠ [] :=
  List.append_ne_nil_of_right_ne_nil _ (List.cons_ne_nil _ _)

theorem line_lexer (message : Text) :
    LogRecord.line ⟨"sqlscribe.lexer.core".toList, message⟩ =
      "DEBUG sqlscribe.lexer.core: ".toList ++ message ++ ['\n'] := by
  have hname : "DEBUG ".toList ++ "sqlscribe.lexer.core".toList ++ ": ".toList =
      "DEBUG sqlscribe.lexer.core: ".toList := rfl
  unfold LogRecord.line
  dsimp only
  rw [hname]

theorem lines_ofScan (q : Text) :
    (LogRecord.ofScan (Sql.scan q)).flatMap LogRecord.line =
      if (Sql.tokens q).flatMap (·.value) = q then [] else stopLine q := by
  rw [Log.ofScan_scan]
  split
  · rfl
  · rw [List.flatMap_singleton, line_lexer]
    rfl

/-- It is one line. -/
theorem notMem_stopMessage (q : Text) : '\n' ∉ stopMessage q := by
  unfold stopMessage
  have hdigits : '\n' ∉ Text.ofNat ((Sql.tokens q).flatMap (·.value)).length := by
    intro hmem
    exact absurd (Nat.isDigit_of_mem_toDigits (by decide) (by decide) hmem) (by decide)
  generalize Text.ofNat ((Sql.tokens q).flatMap (·.value)).length = digits at hdigits
  rw [List.mem_append, List.mem_append]
  rintro ((hmem | hmem) | hmem)
  · exact absurd hmem (by decide)
  · exact hdigits hmem
  · exact absurd hmem (by decide)

/-! ## A run with debugging -/

/-- The outcome if this was written on the standard error before. -/
def Outcome.after (trace : Text) (o : Outcome) : Outcome := { o with stderr := trace ++ o.stderr }

theorem map_after_nil (ended : Except Fault Outcome) : ended.map (Outcome.after []) = ended := by
  cases ended <;> rfl

/-- What debugging adds to a run on these settings. -/
def Settings.trace (s : Settings) (stdin : Text) : Text :=
  if s.debug || (s.queryText stdin).all Text.isBlank then []
  else (LogRecord.ofScan (Sql.scan (s.queryText stdin))).flatMap LogRecord.line

theorem Settings.run_withDebug (s : Settings) (stdin : Text) :
    s.withDebug.run stdin = (s.run stdin).after (s.trace stdin) := by
  cases hdebug : s.debug with
  | true =>
    have hsame : s.withDebug = s := by
      cases s
      exact congrArg _ hdebug.symm
    rw [hsame, trace, hdebug]
    rfl
  | false =>
    have hquery : s.withDebug.queryText stdin = s.queryText stdin := rfl
    have hstrict : s.withDebug.strict = s.strict := rfl
    unfold run trace
    rw [hquery, hstrict, hdebug, Bool.false_or]
    by_cases hblank : (s.queryText stdin).all Text.isBlank = true
    · rw [if_pos hblank, if_pos hblank, if_pos hblank]
      rfl
    · rw [if_neg hblank, if_neg hblank, if_neg hblank]
      -- the tokens are the same, and so is what is written for them
      have houtput : s.withDebug.output = s.output := rfl
      have hdebugging : s.withDebug.debug = true := rfl
      rw [houtput, hdebugging]
      cases Sql.lexer.tokenize (s.queryText stdin) s.strict with
      | ok ts => simp [Outcome.after]
      | error e => cases e <;> simp [Outcome.after]

/-- What debugging adds to a call. -/
def trace (arguments : List Text) (stdin : Text) : Text :=
  match settings arguments with
  | .ok s => s.trace stdin
  | .error _ => []

/-- The option in front of others changes what is written on the standard error only. -/
theorem run_cons_debug (arguments : List Text) (stdin : Text) :
    run ("--debug".toList :: arguments) stdin =
      (run arguments stdin).map (Outcome.after (trace arguments stdin)) := by
  unfold run trace
  rw [settings_cons_debug]
  cases settings arguments with
  | ok s => exact congrArg Except.ok (s.run_withDebug stdin)
  | error e => exact (map_after_nil e.outcome).symm

/-! ## Calls that ask for debugging anyway -/

/-- The option for debugging, or a beginning of it that no other option has. -/
def IsDebugFlag (t : Text) : Prop := "--d".toList <+: t ∧ t <+: "--debug".toList

theorem mem_spellings (h : spellings.lookup t = some a) : (t, a) ∈ spellings := by
  obtain ⟨earlier, later, hspellings, -⟩ := List.lookup_eq_some_iff.1 h
  rw [hspellings]
  exact List.mem_append_cons_self

theorem spelling_of_debug (h : (spelling, Action.debug) ∈ spellings) :
    spelling = "--debug".toList := by
  have hall : ∀ e ∈ spellings, e.2 = .debug → e.1 = "--debug".toList := by decide
  exact hall _ h rfl

/-- Without an equals sign the whole argument is to be found. -/
theorem splitValue_of_none (h : (splitValue t).2 = none) : (splitValue t).1 = t := by
  unfold splitValue at *
  rw [List.span_eq_takeWhile_dropWhile] at *
  cases hrest : t.dropWhile (· != '=') with
  | nil =>
    have hall := List.takeWhile_append_dropWhile (p := (· != '=')) (l := t)
    rw [hrest, List.append_nil] at hall
    exact hall
  | cons c rest =>
    have hc := List.head?_dropWhile_not (· != '=') t
    rw [hrest] at hc
    obtain rfl : c = '=' := by simpa using hc
    rw [hrest] at h
    exact nomatch h

/-- What an argument without a value may mean begins with it. -/
theorem mem_candidates {value : Option Text} (h : (spelling, a, value) ∈ candidates t) :
    (spelling, a) ∈ spellings ∧ (value = none → t <+: spelling) := by
  unfold candidates at h
  split at h
  · have hwhole := splitValue_of_none (t := t)
    generalize splitValue t = split at h hwhole
    obtain ⟨⟨x, b⟩, hentry, heq⟩ := List.mem_map.1 h
    obtain ⟨hmem, hprefix⟩ := List.mem_filter.1 hentry
    cases heq
    refine ⟨hmem, fun hnone => ?_⟩
    rw [hwhole hnone] at hprefix
    exact List.isPrefixOf_iff_prefix.1 hprefix
  · obtain ⟨⟨x, b⟩, hmem, heq⟩ := List.mem_filterMap.1 h
    dsimp only at heq
    split at heq
    · cases heq
      exact ⟨hmem, nofun⟩
    · split at heq
      · next hprefix =>
        cases heq
        exact ⟨hmem, fun _ => List.isPrefixOf_iff_prefix.1 hprefix⟩
      · exact nomatch heq

/-- So does what it means in the end. -/
theorem classify_option {value : Option Text} (h : classify t = .ok (.option a spelling value)) :
    (spelling, a) ∈ spellings ∧ (value = none → t <+: spelling) := by
  unfold classify at h
  split at h
  · cases h
  split at h
  · next hlookup =>
    cases h
    exact ⟨mem_spellings hlookup, fun _ => List.prefix_refl t⟩
  split at h
  · cases h
  dsimp only at h
  split at h
  · next hlookup _ =>
    cases h
    exact ⟨mem_spellings hlookup, nofun⟩
  · split at h
    · next hone =>
      cases h
      exact mem_candidates (by rw [hone]; exact List.mem_singleton_self _)
    · split at h
      · cases h
      · cases h
    · cases h

theorem isDebugFlag_of_classify (h : classify t = .ok (.option .debug spelling none)) :
    IsDebugFlag t := by
  obtain ⟨hmem, hprefix⟩ := classify_option h
  obtain rfl := spelling_of_debug hmem
  have ht := hprefix rfl
  refine ⟨?_, ht⟩
  -- shorter beginnings are words, or may mean other options too
  have hall : ∀ u ∈ "--debug".toList.inits,
      classify u = .ok (.option .debug "--debug".toList none) → "--d".toList <+: u := by
    decide +kernel
  exact hall t ((List.mem_inits _ _).2 ht) h

/-- The argument does not ask for debugging. With a value behind it the option is refused. -/
def Argument.IsQuiet : Argument → Prop
  | .option a spelling (some _) => (spelling, a) ∈ spellings
  | .option a _ none => a ≠ .debug
  | _ => True

theorem isQuiet_of_classify {x : Argument} (h : classify t = .ok x) (ht : ¬IsDebugFlag t) :
    x.IsQuiet := by
  cases x with
  | option a spelling value =>
    cases value with
    | some value => exact (classify_option h).1
    | none =>
      rintro rfl
      exact ht (isDebugFlag_of_classify h)
  | _ => trivial

theorem isQuiet_of_classifyAll (h : classifyAll arguments = .ok as)
    (hflag : ∀ t ∈ arguments, ¬IsDebugFlag t) : ∀ x ∈ as, x.IsQuiet := by
  induction arguments generalizing as with
  | nil =>
    obtain rfl := Except.ok.inj h
    exact fun x hx => absurd hx List.not_mem_nil
  | cons t rest ih =>
    obtain ⟨ht, hrest⟩ := List.forall_mem_cons.1 hflag
    unfold classifyAll at h
    split at h
    · -- all that follow the separator are words
      obtain rfl := Except.ok.inj h
      intro x hx
      rcases List.mem_cons.1 hx with rfl | hx
      · trivial
      · obtain ⟨u, -, rfl⟩ := List.mem_map.1 hx
        trivial
    · cases hclassify : classify t with
      | error e =>
        rw [hclassify] at h
        cases h
      | ok x =>
        cases hmore : classifyAll rest with
        | error e =>
          rw [hclassify, hmore] at h
          cases h
        | ok more =>
          rw [hclassify, hmore] at h
          obtain rfl := Except.ok.inj h
          exact List.forall_mem_cons.2 ⟨isQuiet_of_classify hclassify ht, ih hmore hrest⟩

/-! ### Settings without debugging -/

theorem Settings.debug_of_apply (h : s.apply a value = .ok s') (ha : a ≠ .debug) :
    s'.debug = s.debug := by
  have hflag := (applies h).flags .debug
  rw [beq_false_of_ne ha] at hflag
  simpa [flag?] using hflag

theorem Settings.debug_of_applyAll {l : List Action} (h : s.applyAll l = .ok s')
    (hl : .debug ∉ l) : s'.debug = s.debug := by
  induction l generalizing s with
  | nil =>
    obtain rfl := Except.ok.inj h
    rfl
  | cons a l ih =>
    obtain ⟨ha, hl⟩ := List.ne_and_not_mem_of_not_mem_cons hl
    unfold applyAll at h
    rw [List.foldlM_cons] at h
    cases happly : s.apply a [] with
    | error e =>
      rw [happly] at h
      cases h
    | ok next =>
      rw [happly] at h
      exact (ih h hl).trans (debug_of_apply happly ha.symm)

/-- No letter of a cluster stands for the option. -/
theorem cluster_debug {l : List Action} (h : cluster a t = .ok l) (ha : a ≠ .debug) :
    .debug ∉ l := by
  intro hmem
  have hoptions := List.mem_map_of_mem (f := fun a => (a, ([] : Text))) hmem
  rw [cluster_eq h] at hoptions
  rcases List.mem_cons.1 hoptions with heq | hletter
  · exact ha (Prod.mk.inj heq).1.symm
  · obtain ⟨c, -, hc⟩ := List.mem_filterMap.1 hletter
    obtain ⟨b, hlookup, hb⟩ := Option.map_eq_some_iff.1 hc
    obtain rfl := (Prod.mk.inj hb).1
    have hlength := congrArg List.length (spelling_of_debug (mem_spellings hlookup))
    have hlong : 2 ≠ "--debug".toList.length := by decide
    exact hlong hlength

/-- Nor does it take a value. -/
theorem debug_of_takeWithValue (h : takeWithValue s a spelling value = .ok s')
    (hspelled : (spelling, a) ∈ spellings) : s'.debug = s.debug := by
  unfold takeWithValue at h
  split at h
  · next hvalue =>
    refine Settings.debug_of_apply h ?_
    rintro rfl
    exact absurd hvalue (by decide)
  · split at h
    · cases h
    · next hlong =>
      split at h
      · next l hcluster =>
        refine Settings.debug_of_applyAll h (cluster_debug hcluster ?_)
        rintro rfl
        rw [spelling_of_debug hspelled] at hlong
        exact hlong rfl
      · cases h

theorem Progress.debug_takeWords (p : Progress) (words : List Text) :
    (p.takeWords words).settings.debug = p.settings.debug := by
  unfold takeWords
  split
  · rfl
  · split <;> rfl

/-- While no argument asks for debugging the flag stays as it is. -/
theorem debug_of_takeAll (h : takeAll p words as = .ok p') (hquiet : ∀ x ∈ as, x.IsQuiet) :
    p'.settings.debug = p.settings.debug := by
  fun_induction takeAll p words as
  case case1 p words =>
    obtain rfl := Except.ok.inj h
    exact p.debug_takeWords words.reverse
  case case2 ih => exact ih h (List.forall_mem_cons.1 hquiet).2
  case case3 ih => exact ih h (List.forall_mem_cons.1 hquiet).2
  case case4 p words t rest taken ih =>
    exact (ih h (List.forall_mem_cons.1 hquiet).2).trans (p.debug_takeWords words.reverse)
  case case5 p words a spelling value rest taken settings hvalue ih =>
    obtain ⟨hspelled, hrest⟩ := List.forall_mem_cons.1 hquiet
    calc p'.settings.debug = settings.debug := ih h hrest
      _ = taken.settings.debug := debug_of_takeWithValue hvalue hspelled
      _ = p.settings.debug := p.debug_takeWords words.reverse
  case case6 => cases h
  case case7 p words a spelling taken htakes value rest settings happly ih =>
    obtain ⟨hother, hrest⟩ := List.forall_mem_cons.1 hquiet
    calc p'.settings.debug = settings.debug := ih h (List.forall_mem_cons.1 hrest).2
      _ = taken.settings.debug := Settings.debug_of_apply happly hother
      _ = p.settings.debug := p.debug_takeWords words.reverse
  case case8 => cases h
  case case9 => cases h
  case case10 p words a spelling rest taken htakes settings happly ih =>
    obtain ⟨hother, hrest⟩ := List.forall_mem_cons.1 hquiet
    calc p'.settings.debug = settings.debug := ih h hrest
      _ = taken.settings.debug := Settings.debug_of_apply happly hother
      _ = p.settings.debug := p.debug_takeWords words.reverse
  case case11 => cases h

theorem parse_of_settings (h : settings arguments = .ok s) : parse arguments = .ok s := by
  unfold settings at h
  cases hparse : parse arguments with
  | error e =>
    rw [hparse] at h
    cases h
  | ok s₁ =>
    simp only [hparse, bind, Except.bind] at h
    split at h
    · cases h
    · exact h

theorem debug_of_settings (h : settings arguments = .ok s)
    (hflag : ∀ t ∈ arguments, ¬IsDebugFlag t) : s.debug = false := by
  obtain ⟨as, p, hclassified, htake, rfl⟩ := exists_of_parse (parse_of_settings h)
  exact debug_of_takeAll htake (isQuiet_of_classifyAll hclassified hflag)

/-! ## With and without the option -/

/-- The call comes to the tokens of this query: its arguments are accepted and go together, and the
query holds more than blanks. -/
def Reaches (arguments : List Text) (stdin q : Text) : Prop :=
  ∃ s, settings arguments = .ok s ∧
    q = (if s.query = [['-']] then stdin else [' '].intercalate s.query) ∧
    ∃ c ∈ q, Text.isBlank c = false

/-- The tokens of the query end before the query does. -/
def IsUncovered (q : Text) : Prop := (Sql.tokens q).flatMap (·.value) ≠ q

/-- The line is missing only for a reason. -/
theorem Settings.trace_eq_stopLine (hdebug : s.debug = false)
    (hblank : ∃ c ∈ s.queryText stdin, Text.isBlank c = false)
    (huncovered : IsUncovered (s.queryText stdin)) :
    s.trace stdin = stopLine (s.queryText stdin) := by
  have hall : (s.queryText stdin).all Text.isBlank = false := by
    simpa [List.all_eq_false] using hblank
  rw [trace, hdebug, hall, lines_ofScan, if_neg huncovered]
  rfl

/-- And nothing else is added. -/
theorem Settings.trace_ne_nil (h : s.trace stdin ≠ []) :
    s.debug = false ∧ (∃ c ∈ s.queryText stdin, Text.isBlank c = false) ∧
      IsUncovered (s.queryText stdin) := by
  rw [trace, lines_ofScan] at h
  split at h
  · exact absurd rfl h
  · next hnone =>
    obtain ⟨hdebug, hall⟩ := not_or.1 (mt Bool.or_eq_true_iff.2 hnone)
    split at h
    · exact absurd rfl h
    · next huncovered =>
      refine ⟨by simpa using hdebug, ?_, huncovered⟩
      simpa [List.all_eq_false] using hall

theorem exists_of_trace_ne_nil (h : trace arguments stdin ≠ []) :
    ∃ q, Reaches arguments stdin q ∧ IsUncovered q ∧ trace arguments stdin = stopLine q := by
  unfold trace at *
  cases hsettings : settings arguments with
  | error e =>
    rw [hsettings] at h
    exact absurd rfl h
  | ok s =>
    rw [hsettings] at h
    obtain ⟨hdebug, hblank, huncovered⟩ := Settings.trace_ne_nil h
    exact ⟨s.queryText stdin, ⟨s, hsettings, s.queryText_eq stdin, hblank⟩, huncovered,
      Settings.trace_eq_stopLine hdebug hblank huncovered⟩

theorem trace_eq_stopLine (hflag : ∀ t ∈ arguments, ¬IsDebugFlag t)
    (hq : Reaches arguments stdin q) (huncovered : IsUncovered q) :
    trace arguments stdin = stopLine q := by
  obtain ⟨s, hsettings, hquery, hblank⟩ := hq
  rw [← s.queryText_eq] at hquery
  subst hquery
  unfold trace
  rw [hsettings]
  exact Settings.trace_eq_stopLine (debug_of_settings hsettings hflag) hblank huncovered

/-- What is written before everything else with debugging. -/
structure Debugs (arguments : List Text) (stdin trace : Text) : Prop where
  /-- It is one line, or nothing. -/
  line : trace = [] ∨ ∃ message, '\n' ∉ message ∧
    trace = "DEBUG sqlscribe.lexer.core: ".toList ++ message ++ ['\n']
  /-- The line says where the tokens of the call's query end before the query does. -/
  stops : trace ≠ [] → ∃ q, Reaches arguments stdin q ∧ IsUncovered q ∧ trace = stopLine q
  /-- Unless the call asks for debugging anyway, it is there whenever they do so. -/
  present : (∀ t ∈ arguments, ¬IsDebugFlag t) →
    (trace ≠ [] ↔ ∃ q, Reaches arguments stdin q ∧ IsUncovered q)

theorem debugs_trace (arguments : List Text) (stdin : Text) :
    Debugs arguments stdin (trace arguments stdin) where
  line := by
    by_cases h : trace arguments stdin = []
    · exact .inl h
    · obtain ⟨q, -, -, htrace⟩ := exists_of_trace_ne_nil h
      exact .inr ⟨stopMessage q, notMem_stopMessage q, htrace⟩
  stops := exists_of_trace_ne_nil
  present hflag := by
    constructor
    · intro h
      obtain ⟨q, hq, huncovered, -⟩ := exists_of_trace_ne_nil h
      exact ⟨q, hq, huncovered⟩
    · rintro ⟨q, hq, huncovered⟩
      rw [trace_eq_stopLine hflag hq huncovered]
      exact stopLine_ne_nil q

/-- Debugging changes neither the status nor the output of a call, however it ends, and puts one
line at most before what the call writes on the standard error. -/
theorem run_debugs (arguments : List Text) (stdin : Text) :
    ∃ trace, run ("--debug".toList :: arguments) stdin =
        (run arguments stdin).map (Outcome.after trace) ∧ Debugs arguments stdin trace :=
  ⟨trace arguments stdin, run_cons_debug arguments stdin, debugs_trace arguments stdin⟩

/-- A strict run reports where it stops before it fails. -/
example : run ["--debug".toList, "--strict".toList, "a $".toList] [] =
    .ok { status := 1, stderr := ("DEBUG sqlscribe.lexer.core: No pattern matches at offset 2; " ++
      "stopping\nerror: 1:3 cannot tokenize '$'\n").toList } := by decide +kernel

end SqlLayout.CommandLine
