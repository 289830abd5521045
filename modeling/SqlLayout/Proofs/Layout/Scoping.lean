import Mathlib.Data.List.Induction
import SqlLayout.Layout.Scope

/-!
# Options are scoped by their blocks

A program of commands is run from a scope. `visits` lists the commands in the order in which they
are begun, those inside of blocks too, each with the scope that it finds. What is in force at a
command then follows from its own level alone: from the options that the level was entered with and
the commands before it in that level, and from no block among them (`active_of_mem_visitsAll`).
Formatters, on the other hand, are known from the command that names them on, wherever it stands
(`knows_visitsAll`).

A failure that is not caught ends its level: the commands after it are not begun (`ends_execAll`).
What was in force before a block is in force after it, wherever its body was left.
-/

namespace SqlLayout

/-! ## Refused options -/

namespace Options

variable {base o : Options} {settings : List Setting} {n : Int}

theorem lastCount?_concat (settings : List Setting) (x : Setting) :
    lastCount? (settings ++ [x]) =
      match x with
      | .fromBreakCount n => some n
      | _ => lastCount? settings := by
  cases x <;> simp [lastCount?]

/-- The last setting of the threshold is the one that counts. -/
theorem foldl_apply_fromBreakCount (settings : List Setting) (base : Options) :
    (settings.foldl apply base).fromBreakCount =
      ((lastCount? settings).map Int.toNat).getD base.fromBreakCount := by
  induction settings using List.reverseRecOn with
  | nil => rfl
  | append_singleton settings x ih =>
    rw [List.foldl_append, lastCount?_concat]
    cases x with
    | fromBreakCount n => rfl
    | _ => exact ih

/-- Options that are accepted have the threshold that was asked for, without rounding. -/
theorem fromBreakCount_of_change (h : change base settings = .ok o) :
    (o.fromBreakCount : Int) = (lastCount? settings).getD base.fromBreakCount := by
  unfold change at h
  split at h
  · simp at h
  · simp at h
  · next _ hnot =>
    rw [← Except.ok.inj h, foldl_apply_fromBreakCount]
    cases hcount : lastCount? settings with
    | none => rfl
    | some n =>
      cases n with
      | ofNat n => rfl
      | negSucc n => exact absurd hcount (hnot n)

theorem change_negative (hknown : firstUnknown? settings = none)
    (hcount : lastCount? settings = some n) (hn : n < 0) (base : Options) :
    change base settings = .error (.invalid (negativeCount n)) := by
  cases n with
  | ofNat n => exact absurd hn (Int.not_lt.2 (Int.natCast_nonneg n))
  | negSucc n => rw [change, hknown, hcount]

/-- A configuration is searched for the settings that it knows. -/
theorem ofConfiguration_negative (hcount : lastCount? settings = some n) (hn : n < 0) :
    ofConfiguration settings = .error (.invalid (negativeCount n)) := by
  refine change_negative ?_ ?_ hn {}
  · refine List.findSome?_eq_none_iff.2 fun x hx => ?_
    cases x <;> simp_all
  · rw [← hcount, lastCount?, lastCount?, ← List.filter_reverse]
    induction settings.reverse with
    | nil => rfl
    | cons x settings ih => cases x <;> simp [ih]

end Options

namespace Layout

/-! ## The commands of a run -/

namespace Command

/-- The options in force after the command, if `o` are in force before: those that it puts in force
itself. Options that are refused and blocks change nothing. -/
def putInForce (o : Options) : Command → Options
  | .set settings => (Options.ofSettings settings).toOption.getD o
  | .reset => {}
  | .uncaught c => c.putInForce o
  | _ => o

/-- The formatter that the command names, unless its options are refused. -/
def named : Command → List (Text × Option Options)
  | .formatter name settings =>
    match settings.mapM Options.ofSettings with
    | .ok options => [(name, options)]
    | .error _ => []
  | .uncaught c => c.named
  | _ => []

/-- The settings that the command makes options of before it does anything. -/
def settings? : Command → Option (List Setting)
  | .set settings | .block settings .. => some settings
  | .formatter _ settings => settings
  | .uncaught c => c.settings?
  | _ => none

/-- Commands that hold no others. -/
def isPlain : Command → Bool
  | .block .. | .uncaught _ => false
  | _ => true

end Command

/-- A command that is run: the options that its level was entered with, the commands of the level
before it, and the scope that it finds. -/
structure Visit where
  entered : Options
  earlier : List Command
  scope : Scope
  command : Command

namespace Visit

/-- What the command answers. -/
def answer (v : Visit) : Answer := (v.scope.exec v.command).1

/-- The scope that the command leaves. -/
def after (v : Visit) : Scope := (v.scope.exec v.command).2

end Visit

namespace Scope

mutual

/-- The commands that are begun in running one command. -/
def visits (s : Scope) (entered : Options) (earlier : List Command) : Command → List Visit
  | .block settings body raises =>
    ⟨entered, earlier, s, .block settings body raises⟩ ::
      match Options.ofSettings settings with
      | .ok o => visitsAll { s with active := o } o [] body
      | .error _ => []
  | .uncaught c => visits s entered earlier c
  | c => [⟨entered, earlier, s, c⟩]

/-- The commands that are begun in running the rest of a level. -/
def visitsAll (s : Scope) (entered : Options) (earlier : List Command) : List Command → List Visit
  | [] => []
  | c :: rest =>
    visits s entered earlier c ++
      if c.escapes (s.exec c).1 then [] else visitsAll (s.exec c).2 entered (earlier ++ [c]) rest

end

variable {s : Scope} {entered : Options} {earlier : List Command} {v : Visit}

/-- A command that holds no others is begun alone. -/
theorem visits_of_isPlain {c : Command} (h : c.isPlain) :
    s.visits entered earlier c = [⟨entered, earlier, s, c⟩] := by
  cases c with
  | block | uncaught => simp [Command.isPlain] at h
  | _ => rfl

/-! ## How a level ends -/

theorem execAll_cons (s : Scope) (c : Command) (cs : List Command) :
    s.execAll (c :: cs) =
      if c.escapes (s.exec c).1 then ⟨[(s.exec c).1], true, (s.exec c).2⟩
      else
        { (s.exec c).2.execAll cs with
          answers := (s.exec c).1 :: ((s.exec c).2.execAll cs).answers } := by
  rw [execAll]

/-- How the commands of a level end. -/
inductive Ends (s : Scope) (cs : List Command) (run : Run) : Prop where
  /-- All of them are run. -/
  | whole (unbroken : run.broken = false) (answered : run.answers.length = cs.length)
  /-- They are left at a command whose failure is not caught, the first such. -/
  | early (front : List Command) (c : Command) (rest : List Command) (split : cs = front ++ c :: rest)
      (unbroken : (s.execAll front).broken = false)
      (fails : c.escapes ((s.execAll front).scope.exec c).1 = true)
      (left : run = ⟨(s.execAll front).answers ++ [((s.execAll front).scope.exec c).1], true,
        ((s.execAll front).scope.exec c).2⟩)

theorem ends_execAll (s : Scope) (cs : List Command) : Ends s cs (s.execAll cs) := by
  induction cs generalizing s with
  | nil => exact .whole rfl rfl
  | cons c cs ih =>
    by_cases hfails : c.escapes (s.exec c).1 = true
    · exact .early [] c cs rfl rfl hfails (by rw [execAll_cons, if_pos hfails]; rfl)
    · have hfirst : ∀ ds, s.execAll (c :: ds) =
          { (s.exec c).2.execAll ds with
            answers := (s.exec c).1 :: ((s.exec c).2.execAll ds).answers } :=
        fun ds => by rw [execAll_cons, if_neg hfails]
      rcases ih (s.exec c).2 with ⟨hunbroken, hanswered⟩ | ⟨front, d, rest, rfl, hunbroken, hd, hleft⟩
      · rw [hfirst]
        exact .whole hunbroken (congrArg (· + 1) hanswered)
      · have hfront := hfirst front
        refine .early (c :: front) d rest rfl (by rw [hfront]; exact hunbroken) ?_ ?_
        · rw [hfront]
          exact hd
        · rw [hfirst, hleft, hfront]
          rfl

/-! ## What is in force -/

theorem exec_active (s : Scope) :
    ∀ c : Command, (s.exec c).2.active = c.putInForce s.active
  | .set settings => by
    rw [exec, Command.putInForce]
    cases Options.ofSettings settings <;> rfl
  | .reset | .get => rfl
  | .format .. | .formatter .. | .run .. | .block .. => by
    rw [exec]
    split <;> rfl
  | .uncaught c => by
    rw [exec, Command.putInForce]
    exact exec_active s c

mutual

theorem active_of_mem_visits {s : Scope} {entered : Options} {earlier : List Command}
    (h : s.active = earlier.foldl Command.putInForce entered) :
    ∀ c, ∀ v ∈ s.visits entered earlier c,
      v.scope.active = v.earlier.foldl Command.putInForce v.entered
  | .block settings body raises => by
    intro v hv
    rw [visits] at hv
    rcases List.mem_cons.1 hv with rfl | hv
    · exact h
    · split at hv
      · exact active_of_mem_visitsAll rfl body v hv
      · simp at hv
  | .uncaught c => by
    intro v hv
    rw [visits] at hv
    exact active_of_mem_visits h c v hv
  | .set _ | .reset | .get | .format .. | .formatter .. | .run .. => by
    intro v hv
    rw [visits_of_isPlain rfl] at hv
    rw [List.mem_singleton.1 hv]
    exact h

/-- The options in force at a command follow from its own level. -/
theorem active_of_mem_visitsAll {s : Scope} {entered : Options} {earlier : List Command}
    (h : s.active = earlier.foldl Command.putInForce entered) :
    ∀ cs, ∀ v ∈ s.visitsAll entered earlier cs,
      v.scope.active = v.earlier.foldl Command.putInForce v.entered
  | [] => by simp [visitsAll]
  | c :: cs => by
    intro v hv
    rw [visitsAll] at hv
    rcases List.mem_append.1 hv with hv | hv
    · exact active_of_mem_visits h c v hv
    · split at hv
      · simp at hv
      · refine active_of_mem_visitsAll ?_ cs v hv
        rw [exec_active, h, List.foldl_append]
        rfl

end

/-! ## Formatters -/

/-- The formatters that the commands name, the latest first. -/
def namedBy (vs : List Visit) : List (Text × Option Options) :=
  (vs.flatMap fun v => v.command.named).reverse

theorem namedBy_append (vs ws : List Visit) : namedBy (vs ++ ws) = namedBy ws ++ namedBy vs := by
  rw [namedBy, List.flatMap_append, List.reverse_append]
  rfl

/-- A command that holds no others makes known the formatter that it names. -/
theorem exec_formatters {c : Command} (h : c.isPlain) :
    (s.exec c).2.formatters = c.named.reverse ++ s.formatters := by
  cases c with
  | set settings =>
    rw [exec]
    split <;> rfl
  | reset | get => rfl
  | format source options changes =>
    rw [exec]
    split <;> rfl
  | formatter name settings =>
    rw [exec, Command.named]
    cases settings.mapM Options.ofSettings <;> rfl
  | run name query =>
    rw [exec]
    split <;> rfl
  | block | uncaught => simp [Command.isPlain] at h

/-- The commands find the formatters known at the start and those named by the commands before them;
at the end all that they name are known. -/
structure Knows (start : List (Text × Option Options)) (vs : List Visit)
    (finish : List (Text × Option Options)) : Prop where
  last : finish = namedBy vs ++ start
  each : ∀ front v back, vs = front ++ v :: back → v.scope.formatters = namedBy front ++ start

theorem Knows.nil (start : List (Text × Option Options)) : Knows start [] start :=
  ⟨rfl, by simp⟩

theorem Knows.single (v : Visit) :
    Knows v.scope.formatters [v] (v.command.named.reverse ++ v.scope.formatters) := by
  refine ⟨by rw [namedBy, List.flatMap_singleton], fun front w back hsplit => ?_⟩
  obtain ⟨rfl, rfl, rfl⟩ : front = [] ∧ w = v ∧ back = [] := by
    cases front <;> simp_all
  rfl

theorem Knows.append {start mid finish : List (Text × Option Options)} {vs ws : List Visit}
    (h : Knows start vs mid) (h' : Knows mid ws finish) : Knows start (vs ++ ws) finish := by
  have hlater : ∀ front v back, ws = front ++ v :: back →
      v.scope.formatters = namedBy (vs ++ front) ++ start := by
    intro front v back hws
    rw [h'.each front v back hws, h.last, namedBy_append, List.append_assoc]
  refine ⟨by rw [h'.last, h.last, namedBy_append, List.append_assoc], fun front v back hsplit => ?_⟩
  rcases List.append_eq_append_iff.1 hsplit with ⟨as, rfl, hws⟩ | ⟨bs, hvs, hback⟩
  · exact hlater as v back hws
  · cases bs with
    | nil =>
      have hfront := hlater [] v back hback.symm
      rwa [hvs, List.append_nil, List.append_nil] at hfront
    | cons w bs =>
      obtain ⟨rfl, -⟩ := List.cons.inj hback
      exact h.each front _ bs hvs

mutual

theorem knows_visits (s : Scope) (entered : Options) (earlier : List Command) :
    ∀ c, Knows s.formatters (s.visits entered earlier c) (s.exec c).2.formatters
  | .block settings body raises => by
    -- the block itself names nothing, its body goes on from what is known
    have hself : Knows s.formatters [⟨entered, earlier, s, .block settings body raises⟩]
        s.formatters := .single ⟨entered, earlier, s, .block settings body raises⟩
    cases ho : Options.ofSettings settings with
    | error e =>
      simp only [visits, exec, ho]
      exact hself
    | ok o =>
      simp only [visits, exec, ho]
      exact hself.append (knows_visitsAll { s with active := o } o [] body)
  | .uncaught c => by
    rw [visits, exec]
    exact knows_visits s entered earlier c
  | .set _ | .reset | .get | .format .. | .formatter .. | .run .. => by
    rw [visits_of_isPlain rfl, exec_formatters rfl]
    exact .single ⟨entered, earlier, s, _⟩

/-- A command finds the formatters that commands before it have named, in blocks or not. -/
theorem knows_visitsAll (s : Scope) (entered : Options) (earlier : List Command) :
    ∀ cs, Knows s.formatters (s.visitsAll entered earlier cs) (s.execAll cs).scope.formatters
  | [] => .nil _
  | c :: cs => by
    have hfirst := knows_visits s entered earlier c
    rw [visitsAll, execAll_cons]
    split
    · rwa [List.append_nil]
    · exact hfirst.append (knows_visitsAll _ entered _ cs)

end

/-! ## Answers -/

end Scope

mutual

/-- An answer, and for a block also those inside. -/
def Answer.all : Answer → List Answer
  | .block inside body raised after => .block inside body raised after :: allAnswers body
  | a => [a]

/-- The answers of some commands, and those inside of blocks. -/
def allAnswers : List Answer → List Answer
  | [] => []
  | a :: rest => a.all ++ allAnswers rest

end

theorem Answer.all_of_ne_block {a : Answer}
    (h : ∀ inside body raised after, a ≠ .block inside body raised after) : a.all = [a] := by
  cases a with
  | block inside body raised after => exact absurd rfl (h inside body raised after)
  | _ => rfl

namespace Scope

variable {s : Scope}

theorem exec_answer_ne_block {c : Command} (h : c.isPlain) :
    ∀ inside body raised after, (s.exec c).1 ≠ .block inside body raised after := by
  intro inside body raised after
  cases c with
  | block | uncaught => simp [Command.isPlain] at h
  | reset | get => rw [exec]; simp
  | _ => rw [exec]; split <;> simp

mutual

theorem answers_visits (s : Scope) (entered : Options) (earlier : List Command) :
    ∀ c, (s.visits entered earlier c).map Visit.answer = (s.exec c).1.all
  | .block settings body raises => by
    cases ho : Options.ofSettings settings with
    | error e => simp only [visits, exec, ho, List.map_cons, List.map_nil, Visit.answer, Answer.all]
    | ok o =>
      simp only [visits, exec, ho, List.map_cons, Visit.answer, Answer.all]
      rw [answers_visitsAll]
  | .uncaught c => by
    rw [visits, exec]
    exact answers_visits s entered earlier c
  | .set _ | .reset | .get | .format .. | .formatter .. | .run .. => by
    rw [visits_of_isPlain rfl, Answer.all_of_ne_block (exec_answer_ne_block rfl)]
    rfl

/-- The answers of the commands that are begun are those of the run. -/
theorem answers_visitsAll (s : Scope) (entered : Options) (earlier : List Command) :
    ∀ cs, (s.visitsAll entered earlier cs).map Visit.answer = allAnswers (s.execAll cs).answers
  | [] => rfl
  | c :: cs => by
    rw [visitsAll, List.map_append, answers_visits, execAll_cons]
    split
    · rfl
    · rw [answers_visitsAll]
      rfl

end

/-! ## Nesting -/

/-- A command whose options are refused fails, and changes nothing. -/
theorem exec_of_refused {settings : List Setting} {e : SettingError}
    (he : Options.ofSettings settings = .error e) :
    ∀ c : Command, c.settings? = some settings → s.exec c = (.failed (.settings e), s)
  | .set given, hsettings => by
    obtain rfl := Option.some.inj hsettings
    rw [exec, he]
  | .block given body raises, hsettings => by
    obtain rfl := Option.some.inj hsettings
    rw [exec, he]
  | .formatter name given, hsettings => by
    obtain rfl : given = some settings := hsettings
    rw [exec, Option.mapM_some, he]
    rfl
  | .uncaught c, hsettings => by
    rw [exec]
    exact exec_of_refused he c hsettings
  | .reset, hsettings | .get, hsettings | .format .., hsettings | .run .., hsettings => by
    simp [Command.settings?] at hsettings

/-- A layout whose changes are refused fails, and no layout changes what is in force. -/
theorem exec_format_of_refused {options : Option (List Setting)} {changes : List Setting}
    {e : SettingError} (he : s.request options changes = .error e) (source : Source) :
    ∃ f, s.exec (.format source options changes) = (.failed f, s) := by
  rw [exec, layOut]
  cases source.resolve with
  | error u => exact ⟨_, rfl⟩
  | ok ts => exact ⟨.settings e, by rw [he]; rfl⟩

/-- What is asked for with options of its own depends on no scope. -/
theorem exec_format_some (s t : Scope) (source : Source) (settings changes : List Setting) :
    (s.exec (.format source (some settings) changes)).1 =
      (t.exec (.format source (some settings) changes)).1 := by
  have hlayOut : s.layOut source (some settings) changes = t.layOut source (some settings) changes :=
    rfl
  rw [exec, exec, hlayOut]
  split <;> rfl

theorem exec_run {name query : Text} {options : Option Options}
    (hknown : s.formatters.lookup name = some options) :
    (s.exec (.run name query)).1 = .text (formatQuery (options.getD s.active) query) := by
  rw [exec, optionsOf?, hknown]
  rfl

/-- Of the commands that name a formatter, the last one is known. -/
theorem lookup_namedBy {mid : List Visit} {name : Text} {options : Option Options}
    (hv : v.command.named = [(name, options)])
    (hmid : ∀ u ∈ mid, ∀ p ∈ u.command.named, p.1 ≠ name) (front : List Visit)
    (start : List (Text × Option Options)) :
    (namedBy (front ++ v :: mid) ++ start).lookup name = some options := by
  have hlater : (namedBy mid).lookup name = none := by
    refine List.lookup_eq_none_iff.2 fun p hp => ?_
    obtain ⟨u, hu, hp⟩ := List.mem_flatMap.1 (List.mem_reverse.1 hp)
    exact bne_iff_ne.2 (hmid u hu p hp).symm
  have hsplit : namedBy (front ++ v :: mid) = namedBy mid ++ (name, options) :: namedBy front := by
    rw [show front ++ v :: mid = front ++ [v] ++ mid by simp, namedBy_append, namedBy_append]
    rw [show namedBy [v] = [(name, options)] by rw [namedBy, List.flatMap_singleton, hv]; rfl]
    rfl
  rw [hsplit, List.append_assoc, List.lookup_append, hlater, List.cons_append,
    List.lookup_cons_self]
  rfl

/-- Options are scoped by their blocks in running `cs` from `s`. -/
structure Nests (s : Scope) (cs : List Command) : Prop where
  /-- The commands that are begun answer what the run answers. -/
  answers : (s.visitsAll s.active [] cs).map Visit.answer = allAnswers (s.execAll cs).answers
  /-- All commands are run, or those up to the first whose failure is not caught. -/
  ends : Ends s cs (s.execAll cs)
  /-- The options in force at a command are those that its level was entered with, or that a command
  before it in this level put in force; what the blocks among these did is gone. -/
  lexical : ∀ v ∈ s.visitsAll s.active [] cs,
    v.scope.active = v.earlier.foldl Command.putInForce v.entered
  /-- The body of a block is run with the options of the block in force, to its end or up to the first
  command whose failure is not caught. The block ends in an exception if its body does. -/
  bodies : ∀ v ∈ s.visitsAll s.active [] cs, ∀ settings body raises o,
    v.command = .block settings body raises → Options.ofSettings settings = .ok o →
    ∃ run, Ends { v.scope with active := o } body run ∧
      v.answer = .block o run.answers (run.broken || raises) v.scope.active ∧
      v.after = { run.scope with active := v.scope.active }
  /-- A block leaves in force what was in force before it, whether or not its body raises, and
  wherever it is left. -/
  restored : ∀ v ∈ s.visitsAll s.active [] cs, ∀ settings body raises,
    v.command = .block settings body raises → v.after.active = v.scope.active
  /-- Options that are refused change nothing. -/
  refused : ∀ v ∈ s.visitsAll s.active [] cs, ∀ settings e, v.command.settings? = some settings →
    Options.ofSettings settings = .error e → v.answer = .failed (.settings e) ∧ v.after = v.scope
  /-- Changes of options that are refused change nothing either. -/
  unchanged : ∀ v ∈ s.visitsAll s.active [] cs, ∀ source options changes e,
    v.command = .format source options changes → v.scope.request options changes = .error e →
    (∃ f, v.answer = .failed f) ∧ v.after = v.scope
  /-- A formatter lays out by its own options, or by those in force where it is run. -/
  formatters : ∀ front v mid w back, s.visitsAll s.active [] cs = front ++ v :: (mid ++ w :: back) →
    ∀ name settings options query, v.command = .formatter name settings →
    settings.mapM Options.ofSettings = .ok options →
    (∀ u ∈ mid, ∀ p ∈ u.command.named, p.1 ≠ name) → w.command = .run name query →
    w.answer = .text (formatQuery (options.getD w.scope.active) query)
  /-- A layout with options of its own is the same in every scope. -/
  explicit : ∀ v ∈ s.visitsAll s.active [] cs, ∀ source settings changes,
    v.command = .format source (some settings) changes → ∀ t : Scope, (t.exec v.command).1 = v.answer

/-- Option scopes nest: a threshold below zero is refused however options are made of it, and one
that is accepted is the one in force; and every run of commands keeps to the nesting of its
blocks. -/
theorem scopes_nest (s : Scope) (cs : List Command) :
    (∀ settings n, Options.lastCount? settings = some n → n < 0 →
      Options.ofConfiguration settings = .error (.invalid (Options.negativeCount n)) ∧
      (∀ base, ∃ e, Options.change base settings = .error e) ∧
      (Options.firstUnknown? settings = none → ∀ base,
        Options.change base settings = .error (.invalid (Options.negativeCount n)))) ∧
    (∀ base settings o, Options.change base settings = .ok o →
      (o.fromBreakCount : Int) = (Options.lastCount? settings).getD base.fromBreakCount) ∧
    Nests s cs := by
  refine ⟨fun settings n hcount hn => ⟨Options.ofConfiguration_negative hcount hn, ?_, ?_⟩,
    fun base settings o h => Options.fromBreakCount_of_change h, ?_⟩
  · intro base
    cases h : Options.change base settings with
    | error e => exact ⟨e, rfl⟩
    | ok o =>
      have hasked := Options.fromBreakCount_of_change h
      rw [hcount, Option.getD_some] at hasked
      omega
  · exact fun hknown base => Options.change_negative hknown hcount hn base
  · have hknows := (knows_visitsAll s s.active [] cs).each
    refine
      { answers := answers_visitsAll s s.active [] cs
        ends := ends_execAll s cs
        lexical := active_of_mem_visitsAll rfl cs
        bodies := fun v _ settings body raises o hv ho =>
          ⟨_, ends_execAll _ body, ?_⟩
        restored := fun v _ settings body raises hv => ?_
        refused := fun v _ settings e hsettings he => ?_
        unchanged := fun v _ source options changes e hv he => ?_
        formatters := fun front v mid w back hsplit name settings options query hv hok hmid hw => ?_
        explicit := fun v _ source settings changes hv t => ?_ }
    · rw [Visit.answer, Visit.after, hv, exec, ho]
      exact ⟨rfl, rfl⟩
    · rw [Visit.after, exec_active, hv]
      rfl
    · have hrefused := exec_of_refused (s := v.scope) he v.command hsettings
      exact ⟨congrArg Prod.fst hrefused, congrArg Prod.snd hrefused⟩
    · obtain ⟨f, hf⟩ := exec_format_of_refused he source
      rw [← hv] at hf
      exact ⟨⟨f, congrArg Prod.fst hf⟩, congrArg Prod.snd hf⟩
    · have hnamed : v.command.named = [(name, options)] := by rw [hv, Command.named, hok]
      have hformatters := hknows (front ++ v :: mid) w back (by rw [hsplit, List.append_assoc]; rfl)
      have hknown := lookup_namedBy hnamed hmid front s.formatters
      rw [← hformatters] at hknown
      rw [Visit.answer, hw, exec_run hknown]
    · rw [Visit.answer, hv, exec_format_some]

/-- A failure that two blocks leave uncaught ends them both, and each restores what was in force. -/
example :
    let inner := Command.block [.uppercaseKeywords true] [.uncaught (.run [] []), .reset] false
    let run := execAll {} [.set [.reindent true],
      .uncaught (.block [] [.uncaught inner, .set []] false), .reset]
    run.broken = true ∧ run.scope.active = { reindent := true } := by
  decide

end Scope

end Layout

end SqlLayout
