import SqlLayout.Proofs.Lexer.Strict
import SqlLayout.Proofs.Log.Hierarchy

/-!
# Where debug records go

Whatever is enabled, reported and scanned in whatever order, the root has one handler for debugging
at most, that of the stream enabled last (`Routes`), so that a record that comes to the root is
written on that stream and on no other (`Holds`). What is written on a stream is collected from the
commands that came while it was the one enabled last: the lines of all their records (`received`), or
of those alone that the root hears (`heard`).

The root hears a record if the logger has found it and has not been refused before (`Heeds`). This
is so for all names but those that go on behind the root's by two dots. Such a logger may have found
another one, or none, and then its records are lost although a stream is enabled.
-/

namespace SqlLayout

/-! ## Names of loggers -/

namespace LogRecord

theorem isWithin_iff {name : Text} :
    isWithin name = true ↔ name = rootLogger ∨ rootLogger ++ ['.'] <+: name := by
  unfold isWithin
  rw [Bool.or_eq_true, beq_iff_eq, List.isPrefixOf_iff_prefix]

theorem isWithin_loggerName (name : Text) : isWithin (loggerName name) = true := by
  unfold loggerName
  split
  · assumption
  · apply isWithin_iff.2
    right
    exact ⟨name, by rw [List.append_assoc, List.singleton_append]⟩

theorem loggerName_of_isWithin {name : Text} (h : isWithin name = true) : loggerName name = name :=
  if_pos h

/-- A name within the hierarchy goes on behind the root's by one dot, or by two. -/
theorem continues_of_isWithin {name : Text} (h : isWithin name = true)
    (hdots : ¬Loggers.twoDots rootLogger <+: name) :
    name = rootLogger ∨ Loggers.Continues rootLogger name := by
  refine (isWithin_iff.1 h).imp_right ?_
  rintro ⟨rest, rfl⟩
  refine ⟨rest, by simp, ?_⟩
  intro hhead
  obtain ⟨more, rfl⟩ := List.head?_eq_some_iff.1 hhead
  exact hdots ⟨more, by simp [Loggers.twoDots]⟩

theorem logger_of_mem_ofScan {s : Lexer.Scan} {r : LogRecord} (h : r ∈ ofScan s) :
    r.logger = scanLogger := by
  unfold ofScan at h
  split at h
  · rw [List.mem_singleton.1 h]
  · exact absurd h List.not_mem_nil

end LogRecord

namespace Log

variable {log : Log} {stream : Text} {cs : List Command} {rs : List LogRecord}

/-! ## What is to be written -/

namespace Command

/-- The stream that a command enables. -/
def enables? : Command → Option Text
  | .enable stream => some stream
  | _ => none

/-- The records that a command leads to. -/
def records : Command → List LogRecord
  | .enable _ => []
  | .debug name message => [⟨LogRecord.loggerName name, message⟩]
  | .scan query => LogRecord.ofScan (Sql.scan query)

/-- Their lines. -/
def lines (c : Command) : Text := c.records.flatMap LogRecord.line

/-- A command leads to one record at most. -/
theorem records_cases (c : Command) : c.records = [] ∨ ∃ r, c.records = [r] := by
  cases c with
  | enable stream => exact .inl rfl
  | debug name message => exact .inr ⟨_, rfl⟩
  | scan query =>
    show LogRecord.ofScan (Sql.scan query) = [] ∨ ∃ r, LogRecord.ofScan (Sql.scan query) = [r]
    unfold LogRecord.ofScan
    split
    · exact .inr ⟨_, rfl⟩
    · exact .inl rfl

theorem isWithin_of_mem_records {c : Command} {r : LogRecord} (h : r ∈ c.records) :
    LogRecord.isWithin r.logger = true := by
  cases c with
  | enable stream => exact absurd h List.not_mem_nil
  | debug name message =>
    obtain rfl := List.mem_singleton.1 h
    exact LogRecord.isWithin_loggerName name
  | scan query =>
    rw [LogRecord.logger_of_mem_ofScan h]
    exact LogRecord.isWithin_loggerName "lexer.core".toList

end Command

/-- The stream that was enabled last. -/
def latest? (cs : List Command) : Option Text := cs.reverse.findSome? Command.enables?

/-- What commands lead to while a stream is the one enabled last; `text` tells it for a command after
those before it. -/
def collected (text : List Command → Command → Text) (stream : Text) (cs : List Command) : Text :=
  cs.zipIdx.flatMap fun x =>
    if latest? (cs.take x.2) = some stream then text (cs.take x.2) x.1 else []

/-- The lines of the commands that came while the stream was the one enabled last. -/
def received : Text → List Command → Text := collected fun _ c => c.lines

/-- The log once the logger of a command is there. -/
def prepared (log : Log) : Command → Log
  | .debug name _ => log.ask (LogRecord.loggerName name)
  | _ => log

/-- The lines of a command whose records come to the root. -/
def heardLines (log : Log) (c : Command) : Text :=
  c.records.flatMap fun r => if (log.prepared c).hears r.logger then r.line else []

/-- The lines of the records that came to the root while the stream was the one enabled last. -/
def heard : Text → List Command → Text := collected fun before c => (execAll {} before).heardLines c

theorem latest?_concat (cs : List Command) (c : Command) :
    latest? (cs ++ [c]) = c.enables?.or (latest? cs) := by
  unfold latest?
  rw [List.reverse_append, List.reverse_singleton, List.singleton_append, List.findSome?_cons]
  cases c.enables? with
  | none => rfl
  | some stream => rfl

theorem latest?_report {c : Command} (hc : c.enables? = none) :
    latest? (cs ++ [c]) = latest? cs := by
  rw [latest?_concat, hc, Option.none_or]

theorem latest?_eq_none_iff : latest? cs = none ↔ ∀ stream, .enable stream ∉ cs := by
  unfold latest?
  rw [List.findSome?_eq_none_iff]
  constructor
  · intro h stream hmem
    exact absurd (h _ (List.mem_reverse.2 hmem)) (Option.some_ne_none stream)
  · intro h c hc
    cases c with
    | enable stream => exact absurd (List.mem_reverse.1 hc) (h stream)
    | debug name message => rfl
    | scan query => rfl

theorem mem_of_latest? (h : latest? cs = some stream) : .enable stream ∈ cs := by
  obtain ⟨c, hc, henables⟩ := List.exists_of_findSome?_eq_some h
  cases c with
  | enable stream' =>
    obtain rfl := Option.some.inj henables
    exact List.mem_reverse.1 hc
  | debug name message => exact absurd henables (Option.some_ne_none stream).symm
  | scan query => exact absurd henables (Option.some_ne_none stream).symm

section Collecting

variable {text : List Command → Command → Text}

/-- Nothing is collected on a stream that was not enabled. -/
theorem collected_of_notMem (h : .enable stream ∉ cs) : collected text stream cs = [] := by
  unfold collected
  apply List.flatMap_eq_nil_iff.2
  intro x _
  apply if_neg
  intro hlatest
  exact h (List.mem_of_mem_take (mem_of_latest? hlatest))

theorem collected_concat (stream : Text) (cs : List Command) (c : Command) :
    collected text stream (cs ++ [c]) =
      collected text stream cs ++ if latest? cs = some stream then text cs c else [] := by
  unfold collected
  rw [List.zipIdx_append, List.flatMap_append]
  congr 1
  · -- an earlier command has the same commands before it
    apply List.flatMap_congr
    intro x hx
    have hlt : x.2 < cs.length := by simpa using (List.mem_zipIdx hx).2.1
    rw [List.take_append_of_le_length hlt.le]
  · simp

/-- Texts that are the same where a stream is enabled are collected to the same. -/
theorem collected_congr {text' : List Command → Command → Text}
    (h : ∀ before, ∀ c ∈ cs, (latest? before).isSome → text before c = text' before c) :
    collected text stream cs = collected text' stream cs := by
  unfold collected
  apply List.flatMap_congr
  rintro ⟨c, n⟩ hx
  have hc : c ∈ cs := by
    obtain ⟨-, -, heq⟩ := List.mem_zipIdx hx
    rw [heq]
    exact List.getElem_mem _
  by_cases hlatest : latest? (cs.take n) = some stream
  · rw [if_pos hlatest, if_pos hlatest, h _ c hc (by rw [hlatest]; rfl)]
  · rw [if_neg hlatest, if_neg hlatest]

end Collecting

/-- A command is heard with all its lines or with none. -/
theorem heardLines_cases (log : Log) (c : Command) :
    log.heardLines c = c.lines ∨ log.heardLines c = [] := by
  unfold heardLines Command.lines
  rcases c.records_cases with hnone | ⟨r, hone⟩
  · rw [hnone]
    exact .inl rfl
  · rw [hone, List.flatMap_singleton, List.flatMap_singleton]
    split
    · exact .inl rfl
    · exact .inr rfl

/-! ## One record -/

theorem write_nil (log : Log) (stream : Text) : log.write stream [] = log := by
  unfold write
  simp

/-- Handlers change nothing but the streams. -/
theorem foldl_write (hs : List Handler) (text : Text) (log : Log) :
    ∃ streams, hs.foldl (fun log h => log.write h.stream text) log = { log with streams } := by
  induction hs generalizing log with
  | nil => exact ⟨log.streams, rfl⟩
  | cons h hs ih =>
    obtain ⟨streams, heq⟩ := ih (log.write h.stream text)
    exact ⟨streams, heq⟩

/-- A record changes nothing but the streams, and what its logger keeps in mind. -/
theorem emit_eq (log : Log) (r : LogRecord) :
    ∃ streams, log.emit r =
      { log with streams, loggers := log.loggers.note r.logger (log.passes r.logger) } := by
  unfold emit
  dsimp only
  split
  · exact foldl_write _ _ _
  · exact ⟨log.streams, rfl⟩

theorem loggers_emit (log : Log) (r : LogRecord) :
    (log.emit r).loggers = log.loggers.note r.logger (log.passes r.logger) := by
  obtain ⟨streams, hemit⟩ := emit_eq log r
  rw [hemit]

/-- While there are no handlers records go nowhere. -/
theorem streams_emit_of_no_handlers (h : log.handlers = []) (r : LogRecord) :
    (log.emit r).streams = log.streams := by
  unfold emit
  dsimp only
  rw [h]
  split
  · rfl
  · rfl

/-- A single handler writes the line of a record that comes to the root on its stream. -/
theorem streams_emit_of_handler {name : Text} (h : log.handlers = [⟨name, stream⟩]) (r : LogRecord) :
    (log.emit r).streams =
      (log.write stream (if log.hears r.logger then r.line else [])).streams := by
  unfold emit
  dsimp only
  rw [h]
  split
  · rfl
  · rw [write_nil]

theorem exec_of_enables?_eq_none {c : Command} (h : c.enables? = none) (log : Log) :
    log.exec c = c.records.foldl emit (log.prepared c) := by
  cases c with
  | enable stream => exact absurd h (Option.some_ne_none stream)
  | debug name message => rfl
  | scan query => rfl

/-! ## The handler -/

/-- The only handler is that of the stream enabled last. -/
structure Routes (cs : List Command) (log : Log) : Prop where
  handlers : log.handlers = (latest? cs).toList.map fun stream => ⟨debugHandler, stream⟩
  debugging : log.debugging = (latest? cs).isSome

theorem Routes.enable (h : Routes cs log) (stream : Text) :
    Routes (cs ++ [.enable stream]) (log.enable stream) := by
  have hlatest : latest? (cs ++ [.enable stream]) = some stream := latest?_concat cs _
  -- the handler that was for debugging was the only one, and it is taken away
  have hothers : log.handlers.filter (·.name != debugHandler) = [] := by
    rw [h.handlers, List.filter_eq_nil_iff]
    intro handler hhandler
    obtain ⟨name, -, rfl⟩ := List.mem_map.1 hhandler
    simp
  constructor
  · show log.handlers.filter (·.name != debugHandler) ++ [⟨debugHandler, stream⟩] = _
    rw [hothers, hlatest]
    rfl
  · rw [hlatest]
    rfl

theorem handlers_prepared (log : Log) (c : Command) : (log.prepared c).handlers = log.handlers := by
  cases c <;> rfl

theorem debugging_prepared (log : Log) (c : Command) :
    (log.prepared c).debugging = log.debugging := by
  cases c <;> rfl

theorem streams_prepared (log : Log) (c : Command) : (log.prepared c).streams = log.streams := by
  cases c <;> rfl

theorem Routes.report (h : Routes cs log) {c : Command} (hc : c.enables? = none) :
    Routes (cs ++ [c]) (log.exec c) := by
  have hkept : (log.exec c).handlers = log.handlers ∧ (log.exec c).debugging = log.debugging := by
    rw [exec_of_enables?_eq_none hc]
    rcases c.records_cases with hnone | ⟨r, hone⟩
    · rw [hnone]
      exact ⟨handlers_prepared log c, debugging_prepared log c⟩
    · obtain ⟨streams, hemit⟩ := emit_eq (log.prepared c) r
      rw [hone, List.foldl_cons, List.foldl_nil, hemit]
      exact ⟨handlers_prepared log c, debugging_prepared log c⟩
  constructor
  · rw [latest?_report hc, hkept.1, h.handlers]
  · rw [latest?_report hc, hkept.2, h.debugging]

/-- The lines of a command that are heard are written on the stream enabled last. -/
theorem Routes.streams_exec (h : Routes cs log) {c : Command} (hc : c.enables? = none) :
    (log.exec c).streams =
      (latest? cs).elim log.streams fun stream => (log.write stream (log.heardLines c)).streams := by
  have hhandlers : (log.prepared c).handlers = _ := (handlers_prepared log c).trans h.handlers
  rw [exec_of_enables?_eq_none hc]
  unfold heardLines
  rcases c.records_cases with hnone | ⟨r, hone⟩
  · rw [hnone, List.foldl_nil, List.flatMap_nil, streams_prepared]
    cases latest? cs with
    | none => rfl
    | some stream => rw [Option.elim_some, write_nil]
  · rw [hone, List.foldl_cons, List.foldl_nil, List.flatMap_singleton]
    cases hlatest : latest? cs with
    | none =>
      rw [hlatest] at hhandlers
      rw [streams_emit_of_no_handlers hhandlers, streams_prepared]
      rfl
    | some stream =>
      rw [hlatest] at hhandlers
      rw [streams_emit_of_handler hhandlers]
      simp only [write, streams_prepared, Option.elim_some]

/-! ## The streams -/

/-- The streams are those that were enabled, each once, with what was heard on them. -/
structure Holds (cs : List Command) (log : Log) : Prop where
  distinct : (log.streams.map Prod.fst).Nodup
  enabled : ∀ stream, stream ∈ log.streams.map Prod.fst ↔ .enable stream ∈ cs
  contents : ∀ x ∈ log.streams, x.2 = heard x.1 cs

theorem enable_mem_concat {name : Text} {c : Command} :
    .enable name ∈ cs ++ [c] ↔ .enable name ∈ cs ∨ c = .enable name := by
  rw [List.mem_append, List.mem_singleton]
  exact or_congr_right eq_comm

/-- A stream is kept from when it is enabled first. -/
theorem streams_enable (log : Log) (stream : Text) :
    (log.enable stream).streams =
      if stream ∈ log.streams.map Prod.fst then log.streams else log.streams ++ [(stream, [])] := by
  have hkept : log.streams.any (·.1 == stream) = true ↔ stream ∈ log.streams.map Prod.fst := by
    rw [List.any_eq_true, List.mem_map]
    simp only [beq_iff_eq]
  unfold Log.enable
  simp only [hkept]

/-- Nothing is heard of a command that enables a stream. -/
theorem heard_enable (name : Text) (cs : List Command) (stream : Text) :
    heard name (cs ++ [.enable stream]) = heard name cs := by
  unfold heard
  rw [collected_concat]
  split
  · exact List.append_nil _
  · exact List.append_nil _

theorem Holds.enable (h : Holds cs log) (stream : Text) :
    Holds (cs ++ [.enable stream]) (log.enable stream) := by
  by_cases hknown : stream ∈ log.streams.map Prod.fst
  · have hstreams : (log.enable stream).streams = log.streams := by
      rw [streams_enable, if_pos hknown]
    refine ⟨hstreams ▸ h.distinct, ?_, ?_⟩
    · intro name
      rw [hstreams, enable_mem_concat, h.enabled]
      refine ⟨.inl, ?_⟩
      rintro (henabled | heq)
      · exact henabled
      · exact Command.enable.inj heq ▸ (h.enabled stream).1 hknown
    · intro x hx
      rw [hstreams] at hx
      rw [heard_enable, h.contents x hx]
  · have hstreams : (log.enable stream).streams = log.streams ++ [(stream, [])] := by
      rw [streams_enable, if_neg hknown]
    refine ⟨?_, ?_, ?_⟩
    · rw [hstreams, List.map_append, List.nodup_append]
      refine ⟨h.distinct, List.pairwise_singleton _ _, ?_⟩
      rintro name hname other hother rfl
      have hother : name = stream := List.mem_singleton.1 hother
      exact hknown (hother ▸ hname)
    · intro name
      rw [hstreams, enable_mem_concat, List.map_append, List.mem_append, h.enabled,
        List.map_singleton, List.mem_singleton, Command.enable.injEq]
      exact or_congr_right eq_comm
    · intro x hx
      rw [hstreams] at hx
      rw [heard_enable]
      rcases List.mem_append.1 hx with hx | hx
      · exact h.contents x hx
      · rw [List.mem_singleton.1 hx]
        exact (collected_of_notMem (mt (h.enabled stream).2 hknown)).symm

theorem Holds.report (h : Holds cs (execAll {} cs)) (hroutes : Routes cs (execAll {} cs))
    {c : Command} (hc : c.enables? = none) : Holds (cs ++ [c]) ((execAll {} cs).exec c) := by
  have henabled : ∀ name, .enable name ∈ cs ++ [c] ↔ .enable name ∈ cs := by
    intro name
    rw [enable_mem_concat]
    refine or_iff_left ?_
    rintro rfl
    exact absurd hc (Option.some_ne_none name)
  have hstreams := hroutes.streams_exec hc
  cases hlatest : latest? cs with
  | none =>
    rw [hlatest, Option.elim_none] at hstreams
    refine ⟨hstreams ▸ h.distinct, ?_, ?_⟩
    · intro name
      rw [hstreams, henabled]
      exact h.enabled name
    · intro x hx
      rw [hstreams] at hx
      rw [heard, collected_concat, hlatest, if_neg (Option.some_ne_none _).symm, List.append_nil]
      exact h.contents x hx
  | some stream =>
    rw [hlatest, Option.elim_some] at hstreams
    have hnames : ((execAll {} cs).exec c).streams.map Prod.fst =
        (execAll {} cs).streams.map Prod.fst := by
      rw [hstreams, write, List.map_map]
      rfl
    refine ⟨hnames ▸ h.distinct, ?_, ?_⟩
    · intro name
      rw [henabled]
      exact hnames ▸ h.enabled name
    · intro x hx
      rw [hstreams] at hx
      obtain ⟨y, hy, rfl⟩ := List.mem_map.1 hx
      show (if y.1 = stream then y.2 ++ (execAll {} cs).heardLines c else y.2) = heard y.1 (cs ++ [c])
      rw [heard, collected_concat, hlatest, h.contents y hy]
      by_cases hname : y.1 = stream
      · rw [if_pos hname, if_pos (congrArg some hname.symm)]
        rfl
      · have hne : some stream ≠ some y.1 := fun heq => hname (Option.some.inj heq).symm
        rw [if_neg hname, if_neg hne, List.append_nil]
        rfl

/-! ## The loggers -/

/-- The loggers are sound for the root, and that of scans is there. Once a stream is enabled the root
is there too, and no logger that finds it by its name keeps in mind that it lets nothing through. -/
structure Heeds (cs : List Command) (log : Log) : Prop where
  rooted : Loggers.Rooted LogRecord.rootLogger log.loggers
  scans : log.loggers.isLogger LogRecord.scanLogger = true
  root : (latest? cs).isSome → log.loggers.isLogger LogRecord.rootLogger = true
  passes : (latest? cs).isSome → ∀ {name}, LogRecord.isWithin name = true →
    ¬Loggers.twoDots LogRecord.rootLogger <+: name → log.loggers.passes? name ≠ some false

theorem rootLogger_ne_nil : LogRecord.rootLogger ≠ [] := by decide

theorem dot_notMem_rootLogger : '.' ∉ LogRecord.rootLogger := by decide

theorem Heeds.start : Heeds [] {} where
  rooted := (Loggers.Rooted.empty _).make rootLogger_ne_nil _
  scans := (Loggers.isLogger_make _ _ _).2 (.inl rfl)
  root h := by cases h
  passes h := by cases h

theorem Heeds.enable (h : Heeds cs log) (stream : Text) :
    Heeds (cs ++ [.enable stream]) (log.enable stream) where
  rooted := (h.rooted.make rootLogger_ne_nil _).forget
  scans := by
    rw [Log.enable, Loggers.isLogger_forget, Loggers.isLogger_make]
    exact .inr h.scans
  root _ := by
    rw [Log.enable, Loggers.isLogger_forget, Loggers.isLogger_make]
    exact .inl rfl
  passes _ _ _ _ := by
    rw [Log.enable, Loggers.passes?_forget]
    exact (Option.some_ne_none false).symm

theorem Heeds.ask (h : Heeds cs log) (name : Text) : Heeds cs (log.ask name) where
  rooted := h.rooted.make rootLogger_ne_nil name
  scans := (Loggers.isLogger_make _ _ _).2 (.inr h.scans)
  root hlatest := (Loggers.isLogger_make _ _ _).2 (.inr (h.root hlatest))
  passes hlatest name hwithin hdots := by
    rw [Log.ask, Loggers.passes?_make]
    exact h.passes hlatest hwithin hdots

/-- A record of such a logger comes to the root once a stream is enabled. -/
theorem Heeds.hears (h : Heeds cs log) (hlatest : (latest? cs).isSome)
    (hdebugging : log.debugging = true) {name : Text} (hlogger : log.loggers.isLogger name = true)
    (hwithin : LogRecord.isWithin name = true)
    (hdots : ¬Loggers.twoDots LogRecord.rootLogger <+: name) : log.hears name = true := by
  have hreaches : log.loggers.reaches LogRecord.rootLogger name = true :=
    h.rooted.reaches_root dot_notMem_rootLogger (h.root hlatest) hlogger
      (LogRecord.continues_of_isWithin hwithin hdots)
  have hpasses : log.passes name = true := by
    unfold Log.passes
    have hnot := h.passes hlatest hwithin hdots
    cases hknown : log.loggers.passes? name with
    | none => simp [hdebugging, hreaches]
    | some passes =>
      rw [hknown] at hnot
      simpa using hnot
  simp [Log.hears, hpasses, hreaches]

theorem Heeds.emit (h : Heeds cs log) (hroutes : (latest? cs).isSome → log.debugging = true)
    {r : LogRecord} (hlogger : log.loggers.isLogger r.logger = true) : Heeds cs (log.emit r) := by
  obtain ⟨streams, hemit⟩ := emit_eq log r
  rw [hemit]
  refine ⟨h.rooted.note _ _, ?_, ?_, ?_⟩
  · rw [Loggers.isLogger_note]
    exact h.scans
  · intro hlatest
    rw [Loggers.isLogger_note]
    exact h.root hlatest
  · intro hlatest name hwithin hdots
    rcases Loggers.passes?_note log.loggers r.logger (log.passes r.logger) name with
      hsame | ⟨rfl, hnoted⟩
    · rw [hsame]
      exact h.passes hlatest hwithin hdots
    · -- what the logger notes now is that the record has come to the root
      have hhears := h.hears hlatest (hroutes hlatest) hlogger hwithin hdots
      rw [hnoted, (Bool.and_eq_true_iff.1 hhears).1]
      decide

theorem Heeds.prepared (h : Heeds cs log) (c : Command) : Heeds cs (log.prepared c) := by
  cases c with
  | debug name message => exact h.ask _
  | enable stream => exact h
  | scan query => exact h

/-- The logger of a record is there when it is given the record. -/
theorem Heeds.isLogger_prepared (h : Heeds cs log) {c : Command} {r : LogRecord}
    (hr : r ∈ c.records) : (log.prepared c).loggers.isLogger r.logger = true := by
  cases c with
  | enable stream => exact absurd hr List.not_mem_nil
  | debug name message =>
    obtain rfl := List.mem_singleton.1 hr
    exact (Loggers.isLogger_make _ _ _).2 (.inl rfl)
  | scan query =>
    rw [LogRecord.logger_of_mem_ofScan hr]
    exact h.scans

theorem Heeds.report (h : Heeds cs log) (hroutes : Routes cs log) {c : Command}
    (hc : c.enables? = none) : Heeds (cs ++ [c]) (log.exec c) := by
  have hkept : Heeds cs (log.exec c) := by
    rw [exec_of_enables?_eq_none hc]
    rcases c.records_cases with hnone | ⟨r, hone⟩
    · rw [hnone]
      exact h.prepared c
    · rw [hone, List.foldl_cons, List.foldl_nil]
      refine (h.prepared c).emit ?_ (h.isLogger_prepared (hone ▸ List.mem_singleton_self r))
      intro hlatest
      rw [debugging_prepared, hroutes.debugging, hlatest]
  refine ⟨hkept.rooted, hkept.scans, ?_, ?_⟩
  · rw [latest?_report hc]
    exact hkept.root
  · rw [latest?_report hc]
    exact hkept.passes

/-! ## Many commands -/

theorem exec_delivers (hholds : Holds cs (execAll {} cs)) (hroutes : Routes cs (execAll {} cs))
    (hheeds : Heeds cs (execAll {} cs)) (c : Command) :
    Holds (cs ++ [c]) ((execAll {} cs).exec c) ∧ Routes (cs ++ [c]) ((execAll {} cs).exec c) ∧
      Heeds (cs ++ [c]) ((execAll {} cs).exec c) := by
  cases c with
  | enable stream => exact ⟨hholds.enable stream, hroutes.enable stream, hheeds.enable stream⟩
  | debug name message =>
    exact ⟨hholds.report hroutes rfl, hroutes.report rfl, hheeds.report hroutes rfl⟩
  | scan query => exact ⟨hholds.report hroutes rfl, hroutes.report rfl, hheeds.report hroutes rfl⟩

theorem execAll_concat (cs : List Command) (c : Command) :
    execAll {} (cs ++ [c]) = (execAll {} cs).exec c := by
  unfold execAll
  rw [List.foldl_append]
  rfl

theorem execAll_delivers (cs : List Command) :
    Holds cs (execAll {} cs) ∧ Routes cs (execAll {} cs) ∧ Heeds cs (execAll {} cs) := by
  induction cs using List.reverseRecOn with
  | nil =>
    refine ⟨⟨List.nodup_nil, ?_, ?_⟩, ⟨rfl, rfl⟩, Heeds.start⟩
    · exact fun _ => iff_of_false List.not_mem_nil List.not_mem_nil
    · exact fun x hx => absurd hx List.not_mem_nil
  | append_singleton cs c ih =>
    rw [execAll_concat]
    exact exec_delivers ih.1 ih.2.1 ih.2.2 c

/-! ## What is heard -/

/-- All lines are heard of a command whose loggers find the root by their names. -/
theorem heardLines_of_not_twoDots (hlatest : (latest? cs).isSome) {c : Command}
    (hc : ∀ r ∈ c.records, ¬Loggers.twoDots LogRecord.rootLogger <+: r.logger) :
    (execAll {} cs).heardLines c = c.lines := by
  obtain ⟨-, hroutes, hheeds⟩ := execAll_delivers cs
  apply List.flatMap_congr
  intro r hr
  refine if_pos ?_
  refine (hheeds.prepared c).hears hlatest ?_ (hheeds.isLogger_prepared hr)
    (Command.isWithin_of_mem_records hr) (hc r hr)
  rw [debugging_prepared, hroutes.debugging, hlatest]

theorem not_twoDots_scanLogger : ¬Loggers.twoDots LogRecord.rootLogger <+: LogRecord.scanLogger := by
  decide

/-- Before any other logger is made nothing goes astray. -/
theorem astray_enabled :
    Loggers.Astray LogRecord.rootLogger
      ((Loggers.make (Loggers.make {} LogRecord.scanLogger) LogRecord.rootLogger).forget) where
  oneDot := by decide
  above hname ha := by
    have hlogger := Loggers.isLogger_of_above? ha
    rw [Loggers.isLogger_forget, Loggers.isLogger_make, Loggers.isLogger_make] at hlogger
    rcases hlogger with rfl | rfl | hnone
    · exact absurd hname (by decide)
    · exact absurd hname not_twoDots_scanLogger
    · cases hnone

/-- A record of any other logger is lost once the logger of the two dots has been made. -/
theorem heardLines_of_twoDots (stream message : Text) {name : Text}
    (h : Loggers.twoDots LogRecord.rootLogger <+: LogRecord.loggerName name) :
    (execAll {} [.enable stream, .debug ['.'] []]).heardLines (.debug name message) = [] := by
  have hdots : LogRecord.loggerName ['.'] = Loggers.twoDots LogRecord.rootLogger := by decide
  have hloggers : ∃ passes, (execAll {} [.enable stream, .debug ['.'] []]).loggers =
      (((Loggers.make (Loggers.make {} LogRecord.scanLogger) LogRecord.rootLogger).forget).make
        (Loggers.twoDots LogRecord.rootLogger)).note (Loggers.twoDots LogRecord.rootLogger) passes := by
    rw [← hdots]
    exact ⟨_, loggers_emit ((Log.enable {} stream).ask (LogRecord.loggerName ['.']))
      ⟨LogRecord.loggerName ['.'], []⟩⟩
  obtain ⟨passes, hloggers⟩ := hloggers
  obtain ⟨-, -, hheeds⟩ := execAll_delivers [.enable stream, .debug ['.'] []]
  have hastray : Loggers.Astray LogRecord.rootLogger
      (execAll {} [.enable stream, .debug ['.'] []]).loggers := by
    rw [hloggers]
    refine (astray_enabled.make dot_notMem_rootLogger (List.prefix_refl _) ?_).note _ _
    exact fun hne => absurd rfl hne
  have hmade : (execAll {} [.enable stream, .debug ['.'] []]).loggers.isLogger
      (Loggers.twoDots LogRecord.rootLogger) = true := by
    rw [hloggers, Loggers.isLogger_note, Loggers.isLogger_make]
    exact .inl rfl
  have hreaches := (hastray.make dot_notMem_rootLogger h fun _ => hmade).reaches_root
    (hheeds.ask _).rooted.toSound h
  show (if Log.hears _ _ then _ else []) ++ [] = []
  rw [List.append_nil]
  refine if_neg ?_
  intro hhears
  have hcomes : ((execAll {} [.enable stream, .debug ['.'] []]).loggers.make _).reaches _ _ = true :=
    (Bool.and_eq_true_iff.1 hhears).2
  rw [hreaches] at hcomes
  cases hcomes

/-! ## Delivery -/

/-- What commands have left of a log. -/
structure Delivers (cs : List Command) (log : Log) : Prop where
  /-- No stream is there twice. -/
  distinct : (log.contents.map Prod.fst).Nodup
  /-- The streams are those that were enabled. Each holds the lines of the records that came to the
  root while it was the one enabled last, in their order, and nothing else. -/
  contents : ∀ stream text, (stream, text) ∈ log.contents ↔
    .enable stream ∈ cs ∧ text = heard stream cs
  /-- Before the first stream is enabled nothing is written. -/
  silent : (∀ stream, .enable stream ∉ cs) → log.contents = []
  /-- All records come to the root if no logger's name goes on behind its name by two dots. -/
  all : (∀ c ∈ cs, ∀ r ∈ c.records, ¬Loggers.twoDots LogRecord.rootLogger <+: r.logger) →
    ∀ stream, heard stream cs = received stream cs

theorem Holds.delivers (h : Holds cs (execAll {} cs)) : Delivers cs (execAll {} cs) := by
  have hperm : (execAll {} cs).contents.Perm (execAll {} cs).streams := List.mergeSort_perm _ _
  refine ⟨(hperm.map Prod.fst).nodup_iff.2 h.distinct, ?_, ?_, ?_⟩
  · intro stream text
    rw [hperm.mem_iff]
    constructor
    · intro hmem
      exact ⟨(h.enabled stream).1 (List.mem_map_of_mem hmem), h.contents _ hmem⟩
    · rintro ⟨henabled, rfl⟩
      obtain ⟨x, hx, rfl⟩ := List.mem_map.1 ((h.enabled stream).2 henabled)
      rw [← h.contents x hx]
      exact hx
  · intro hsilent
    apply List.eq_nil_iff_forall_not_mem.2
    intro x hx
    exact hsilent x.1 ((h.enabled x.1).1 (List.mem_map_of_mem (hperm.mem_iff.1 hx)))
  · intro hall stream
    exact collected_congr fun before c hc hlatest => heardLines_of_not_twoDots hlatest (hall c hc)

/-- A command is heard after every enabling exactly if its logger's name does not go on behind the
root's by two dots. -/
theorem heardLines_eq_iff (c : Command) :
    (∀ before stream, .enable stream ∈ before → (execAll {} before).heardLines c = c.lines) ↔
      ∀ r ∈ c.records, ¬Loggers.twoDots LogRecord.rootLogger <+: r.logger := by
  constructor
  · intro hheard r hr hdots
    cases c with
    | enable stream => exact absurd hr List.not_mem_nil
    | scan query =>
      rw [LogRecord.logger_of_mem_ofScan hr] at hdots
      exact not_twoDots_scanLogger hdots
    | debug name message =>
      obtain rfl := List.mem_singleton.1 hr
      have hall := hheard [.enable [], .debug ['.'] []] [] List.mem_cons_self
      rw [heardLines_of_twoDots [] message hdots] at hall
      exact List.cons_ne_nil _ _ hall.symm
  · intro hc before stream henabled
    refine heardLines_of_not_twoDots ?_ hc
    rw [Option.isSome_iff_ne_none]
    intro hnone
    exact latest?_eq_none_iff.1 hnone stream henabled

/-- A scan by the rules of SQL reports where it stops, once, if that is before the end. -/
theorem ofScan_scan (query : Text) :
    LogRecord.ofScan (Sql.scan query) =
      if (Sql.tokens query).flatMap (·.value) = query then []
      else [⟨"sqlscribe.lexer.core".toList, "No pattern matches at offset ".toList ++
        Text.ofNat ((Sql.tokens query).flatMap (·.value)).length ++ "; stopping".toList⟩] := by
  have hending : (Sql.scan query).ending =
      if (Sql.tokens query).flatMap (·.value) = query then .complete
      else .noMatch ((Sql.tokens query).flatMap (·.value)).length :=
    Lexer.ending_eq Lexer.Registered.sql.resolved query
  unfold LogRecord.ofScan
  by_cases hall : (Sql.tokens query).flatMap (·.value) = query
  · rw [hending, if_pos hall, if_pos hall]
  · rw [hending, if_neg hall, if_neg hall]
    rfl

/-- A debug record that comes to the root reaches one stream, once: that which was enabled last. Those
of a logger come to the root after every enabling exactly if its name does not go on behind the root's
by two dots; otherwise they may be lost. A scan reports once, with the length that its tokens cover,
if it stops before the end of the text. All loggers have names within the hierarchy, where names are
kept as they are. -/
theorem contents_heard (cs : List Command) :
    Delivers cs (execAll {} cs) ∧
      (∀ c : Command,
        (∀ before stream, .enable stream ∈ before → (execAll {} before).heardLines c = c.lines) ↔
          ∀ r ∈ c.records, ¬Loggers.twoDots LogRecord.rootLogger <+: r.logger) ∧
      (∀ log c, heardLines log c = c.lines ∨ heardLines log c = []) ∧
      (∀ query, ∃ ts, Sql.lexer.tokenize query false = .ok ts ∧
        (Command.scan query).records =
          if ts.flatMap (·.value) = query then []
          else [⟨"sqlscribe.lexer.core".toList, "No pattern matches at offset ".toList ++
            Text.ofNat (ts.flatMap (·.value)).length ++ "; stopping".toList⟩]) ∧
      (∀ c : Command, ∀ r ∈ c.records,
        r.logger = LogRecord.rootLogger ∨ LogRecord.rootLogger ++ ['.'] <+: r.logger) ∧
      ∀ name, name = LogRecord.rootLogger ∨ LogRecord.rootLogger ++ ['.'] <+: name →
        LogRecord.loggerName name = name := by
  refine ⟨(execAll_delivers cs).1.delivers, heardLines_eq_iff, heardLines_cases, ?_, ?_, ?_⟩
  · intro query
    exact ⟨_, Lexer.tokenize_eq_ok Lexer.Registered.sql.resolved query, ofScan_scan query⟩
  · intro c r hr
    exact LogRecord.isWithin_iff.1 (Command.isWithin_of_mem_records hr)
  · intro name hname
    exact LogRecord.loggerName_of_isWithin (LogRecord.isWithin_iff.2 hname)

/-- The logger of `.x` finds no root: its record is lost, although a stream is enabled. -/
theorem contents_heard_lost :
    (execAll {} [.enable "s".toList, .debug ".x".toList "m".toList]).contents = [("s".toList, [])] ∧
      received "s".toList [.enable "s".toList, .debug ".x".toList "m".toList] =
        "DEBUG sqlscribe..x: m\n".toList := by
  constructor
  · have hstreams : (execAll {} [.enable "s".toList, .debug ".x".toList "m".toList]).streams =
        [("s".toList, [])] := by decide +kernel
    rw [contents, hstreams, List.mergeSort_singleton]
  · decide +kernel

end Log

end SqlLayout
