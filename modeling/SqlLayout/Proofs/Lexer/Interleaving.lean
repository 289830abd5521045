import SqlLayout.Proofs.Lexer.Drawing

/-!
# Streams among registrations

Streams over several texts are pulled in any order, and in between their lexers are cleared and get
new rules and keywords. A stream sees nothing of the others: it answers what it would answer if it
were asked alone, with the tables that are in force at each request (`exists_replies`). So it lives
as `Lives` says, and a run without the pulls of the other streams gives the same
(`requests_filter`).
-/

namespace SqlLayout.Lexer

namespace Command

/-- The command gives a name to a new stream. -/
def opens (stream : Text) : Command → Bool
  | .openStream _ name _ => name == stream
  | _ => false

/-- The command pulls a stream. -/
def pulls (stream : Text) : Command → Bool
  | .pull name _ => name == stream
  | _ => false

/-- The command pulls another stream. -/
def pullsOther (stream : Text) : Command → Bool
  | .pull name _ => name != stream
  | _ => false

/-- The command changes the tables of a lexer. -/
def registers : Command → Bool
  | .clear _ | .addKeyword .. | .addRule .. | .addMatcher .. => true
  | _ => false

end Command

namespace Bench

variable {b b' : Bench} {stream : Text} {c : Command} {cs : List Command} {i : Nat} {s : Stream}

/-- The tables that a stream reads. -/
def tablesOf (b : Bench) (stream : Text) : Lexer :=
  (b.streams.lookup stream).elim .empty fun (i, _) => b.lexers.getD i .empty

/-- The requests to a stream among the commands of a run. -/
def requests (stream : Text) (b : Bench) : List Command → List Request
  | [] => []
  | c :: cs =>
    let more := requests stream (b.exec c).2 cs
    match c with
    | .pull name count =>
      if name = stream then ⟨b.tablesOf stream, count, (b.exec c).1⟩ :: more else more
    | _ => more

theorem eq_pull_of_pulls (h : c.pulls stream = true) : ∃ count, c = .pull stream count := by
  cases c with
  | pull name count => exact ⟨count, by rw [beq_iff_eq.1 h]⟩
  | _ => simp [Command.pulls] at h

theorem requests_cons_pull {count : Nat} :
    requests stream b (.pull stream count :: cs) =
      ⟨b.tablesOf stream, count, (b.exec (.pull stream count)).1⟩ ::
        requests stream (b.exec (.pull stream count)).2 cs := by
  rw [requests, if_pos rfl]

theorem requests_cons_other (h : c.pulls stream = false) :
    requests stream b (c :: cs) = requests stream (b.exec c).2 cs := by
  cases c with
  | pull name count => rw [requests, if_neg (by simpa [Command.pulls] using h)]
  | _ => rfl

/-! ## What a command does -/

/-- A pull asks the stream by the tables of its lexer. -/
theorem exec_pull (h : b.streams.lookup stream = some (i, s)) (count : Nat) :
    b.exec (.pull stream count) =
      (Stream.told (Stream.take (b.lexers.getD i .empty) count s).1,
        { b with streams :=
            (stream, i, (Stream.take (b.lexers.getD i .empty) count s).2) ::
              b.streams.filter (·.1 != stream) }) := by
  rw [exec, h]
  dsimp only
  split
  · next ts hfound => rw [hfound]; rfl
  · next e hfound => rw [hfound]; rfl

theorem exec_pull_unknown {name : Text} (h : b.streams.lookup name = none) (count : Nat) :
    b.exec (.pull name count) = (.failed (.unknownName name), b) := by
  rw [exec, h]

/-- A command leaves the lexers, adds one, or changes the tables of one. -/
theorem exec_lexers (b : Bench) (c : Command) :
    (b.exec c).2.lexers = b.lexers ∨ (∃ lx, (b.exec c).2.lexers = b.lexers ++ [lx]) ∨
      c.registers = true ∧ ∃ j lx, (b.exec c).2.lexers = b.lexers.set j lx := by
  cases c with
  | make name sql => exact .inr (.inl ⟨_, rfl⟩)
  | copy name newName =>
    rw [exec, withLexer]
    split
    · exact .inr (.inl ⟨_, rfl⟩)
    · exact .inl rfl
  | clear name | addKeyword name | addMatcher name =>
    rw [exec, change, withLexer]
    split
    · exact .inr (.inr ⟨rfl, _, _, rfl⟩)
    · exact .inl rfl
  | addRule name =>
    rw [exec, withLexer]
    split
    · split
      · exact .inr (.inr ⟨rfl, _, _, rfl⟩)
      · exact .inl rfl
    · exact .inl rfl
  | isKeyword name | keywordKind name | keywords name | ruleKinds name | tokenize name =>
    rw [exec, ask, withLexer]
    left
    split <;> rfl
  | openStream name =>
    rw [exec, withLexer]
    left
    split <;> rfl
  | pull name count =>
    left
    cases h : b.streams.lookup name with
    | none => rw [exec_pull_unknown h]
    | some x => rw [exec_pull h]

/-- A command leaves the streams, opens one, or pulls one. -/
theorem exec_streams (b : Bench) (c : Command) :
    (b.exec c).2.streams = b.streams ∨
      (∃ name x, c.opens name = true ∧ (b.exec c).2.streams = (name, x) :: b.streams) ∨
      ∃ name x, c.pulls name = true ∧
        (b.exec c).2.streams = (name, x) :: b.streams.filter (·.1 != name) := by
  cases c with
  | make name sql => exact .inl rfl
  | copy name newName =>
    rw [exec, withLexer]
    left
    split <;> rfl
  | clear name | addKeyword name | addMatcher name =>
    rw [exec, change, withLexer]
    left
    split <;> rfl
  | addRule name =>
    rw [exec, withLexer]
    left
    split
    · split <;> rfl
    · rfl
  | isKeyword name | keywordKind name | keywords name | ruleKinds name | tokenize name =>
    rw [exec, ask, withLexer]
    left
    split <;> rfl
  | openStream name stream =>
    rw [exec, withLexer]
    split
    · exact .inr (.inl ⟨stream, _, by simp [Command.opens], rfl⟩)
    · exact .inl rfl
  | pull name count =>
    cases h : b.streams.lookup name with
    | none => exact .inl (by rw [exec_pull_unknown h])
    | some x => exact .inr (.inr ⟨name, _, by simp [Command.pulls], by rw [exec_pull h]⟩)

/-! ## The other streams do not matter -/

theorem lookup_filter_of_ne {α : Type} {name : Text} (hne : stream ≠ name) (l : List (Text × α)) :
    (l.filter (·.1 != name)).lookup stream = l.lookup stream := by
  induction l with
  | nil => rfl
  | cons x l ih =>
    obtain ⟨key, value⟩ := x
    rw [List.filter_cons]
    by_cases hkey : key = name
    · have hstream : (stream == key) = false := by simpa [hkey] using hne
      rw [if_neg (by simp [hkey]), ih, List.lookup_cons, hstream]
    · rw [if_pos (by simpa using hkey), List.lookup_cons, List.lookup_cons, ih]

theorem lookup_exec (hopens : c.opens stream = false) (hpulls : c.pulls stream = false) :
    (b.exec c).2.streams.lookup stream = b.streams.lookup stream := by
  rcases exec_streams b c with h | ⟨name, x, hname, h⟩ | ⟨name, x, hname, h⟩
  · rw [h]
  · have hne : (stream == name) = false := by
      rw [beq_eq_false_iff_ne]
      rintro rfl
      exact Bool.false_ne_true (hopens.symm.trans hname)
    rw [h, List.lookup_cons, hne]
  · have hne : stream ≠ name := by
      rintro rfl
      exact Bool.false_ne_true (hpulls.symm.trans hname)
    rw [h, List.lookup_cons, beq_eq_false_iff_ne.2 hne]
    exact lookup_filter_of_ne hne b.streams

/-- Two benches with the same lexers where a stream stands at the same place. -/
structure Alike (stream : Text) (b b' : Bench) : Prop where
  lexers : b.lexers = b'.lexers
  names : b.names = b'.names
  place : b.streams.lookup stream = b'.streams.lookup stream

theorem Alike.symm (h : Alike stream b b') : Alike stream b' b :=
  ⟨h.lexers.symm, h.names.symm, h.place.symm⟩

theorem Alike.trans {d : Bench} (h : Alike stream b b') (h' : Alike stream b' d) :
    Alike stream b d :=
  ⟨h.lexers.trans h'.lexers, h.names.trans h'.names, h.place.trans h'.place⟩

theorem Alike.tablesOf_eq (h : Alike stream b b') : b.tablesOf stream = b'.tablesOf stream := by
  rw [tablesOf, tablesOf, h.place, h.lexers]

theorem Alike.withLexer (h : Alike stream b b') {name : Text}
    {use use' : Nat → Lexer → Answer × Bench}
    (huse : ∀ i lx, Alike stream (use i lx).2 (use' i lx).2) :
    Alike stream (b.withLexer name use).2 (b'.withLexer name use').2 := by
  have hfind : b.find? name = b'.find? name := by rw [find?, find?, h.names, h.lexers]
  unfold Bench.withLexer
  rw [hfind]
  split
  · exact huse _ _
  · exact h

theorem Alike.add (h : Alike stream b b') (name : Text) (lx : Lexer) :
    Alike stream (b.add name lx) (b'.add name lx) :=
  ⟨by rw [Bench.add, Bench.add, h.lexers], by rw [Bench.add, Bench.add, h.lexers, h.names], h.place⟩

theorem Alike.update (h : Alike stream b b') (i : Nat) (lx : Lexer) :
    Alike stream (b.update i lx) (b'.update i lx) :=
  ⟨by rw [Bench.update, Bench.update, h.lexers], h.names, h.place⟩

/-- A pull of another stream changes nothing for this one. -/
theorem alike_exec (h : c.pullsOther stream = true) : Alike stream (b.exec c).2 b := by
  cases c with
  | pull name count =>
    have hne : name ≠ stream := by simpa [Command.pullsOther] using h
    have hplace : (b.exec (.pull name count)).2.streams.lookup stream = b.streams.lookup stream :=
      lookup_exec rfl (by simpa [Command.pulls] using hne)
    cases hname : b.streams.lookup name with
    | none => rw [exec_pull_unknown hname]; exact ⟨rfl, rfl, rfl⟩
    | some x => rw [exec_pull hname] at hplace ⊢; exact ⟨rfl, rfl, hplace⟩
  | _ => simp [Command.pullsOther] at h

/-- The same command keeps them alike. -/
theorem Alike.exec (h : Alike stream b b') (c : Command) :
    Alike stream (b.exec c).2 (b'.exec c).2 := by
  cases c with
  | make name sql => exact h.add _ _
  | copy name newName =>
    rw [Bench.exec, Bench.exec]
    exact h.withLexer fun _ lx => h.add _ _
  | clear name | addKeyword name | addMatcher name =>
    rw [Bench.exec, Bench.exec]
    exact h.withLexer fun i lx => h.update _ _
  | addRule name =>
    rw [Bench.exec, Bench.exec]
    refine h.withLexer fun i lx => ?_
    split
    · exact h.update _ _
    · exact h
  | isKeyword name | keywordKind name | keywords name | ruleKinds name | tokenize name =>
    rw [Bench.exec, Bench.exec]
    exact h.withLexer fun _ _ => h
  | openStream name newStream text =>
    rw [Bench.exec, Bench.exec]
    refine h.withLexer fun i _ => ⟨h.lexers, h.names, ?_⟩
    rw [List.lookup_cons, List.lookup_cons, h.place]
  | pull name count =>
    by_cases hname : name = stream
    · subst hname
      cases hplace : b.streams.lookup name with
      | none =>
        rw [exec_pull_unknown hplace, exec_pull_unknown (h.place ▸ hplace)]
        exact h
      | some x =>
        rw [exec_pull hplace, exec_pull (h.place ▸ hplace), h.lexers]
        exact ⟨rfl, h.names, by rw [List.lookup_cons, List.lookup_cons]; simp⟩
    · have hother : (Command.pull name count).pullsOther stream = true := by
        simpa [Command.pullsOther] using hname
      exact ((alike_exec hother).trans h).trans (alike_exec hother).symm

/-- The stream answers the same. -/
theorem Alike.answer (h : Alike stream b b') (count : Nat) :
    (b.exec (.pull stream count)).1 = (b'.exec (.pull stream count)).1 := by
  cases hplace : b.streams.lookup stream with
  | none => rw [exec_pull_unknown hplace, exec_pull_unknown (h.place ▸ hplace)]
  | some x => rw [exec_pull hplace, exec_pull (h.place ▸ hplace), h.lexers]

/-- Without the pulls of other streams a run asks the stream the same. -/
theorem Alike.requests_filter (h : Alike stream b b') (cs : List Command) :
    b.requests stream (cs.filter fun c => !c.pullsOther stream) = b'.requests stream cs := by
  induction cs generalizing b b' with
  | nil => rfl
  | cons c cs ih =>
    rw [List.filter_cons]
    by_cases hother : c.pullsOther stream = true
    · have hpulls : c.pulls stream = false := by
        cases c <;> simp_all [Command.pulls, Command.pullsOther]
      rw [if_neg (by simp [hother]), requests_cons_other hpulls]
      exact ih (h.trans (alike_exec hother).symm)
    · rw [if_pos (by simpa using hother)]
      by_cases hpulls : c.pulls stream = true
      · obtain ⟨count, rfl⟩ := eq_pull_of_pulls hpulls
        rw [requests_cons_pull, requests_cons_pull, ih (h.exec _), h.answer, h.tablesOf_eq]
      · have hpulls : c.pulls stream = false := by simpa using hpulls
        rw [requests_cons_other hpulls, requests_cons_other hpulls, ih (h.exec _)]

/-! ## A stream among others is the stream alone -/

/-- A stream answers what it would answer alone, by the tables in force at each request. -/
theorem exists_replies (h : b.streams.lookup stream = some (i, s))
    (hopens : ∀ c ∈ cs, c.opens stream = false) :
    ∃ asks, b.requests stream cs = s.replies asks := by
  induction cs generalizing b s with
  | nil => exact ⟨[], rfl⟩
  | cons c cs ih =>
    have hmore : ∀ c ∈ cs, c.opens stream = false := fun c hc => hopens c (by simp [hc])
    by_cases hpulls : c.pulls stream = true
    · obtain ⟨count, rfl⟩ := eq_pull_of_pulls hpulls
      have hnext : ((b.exec (.pull stream count)).2).streams.lookup stream =
          some (i, (Stream.take (b.lexers.getD i .empty) count s).2) := by
        rw [exec_pull h]
        simp
      obtain ⟨asks, hasks⟩ := ih hnext hmore
      refine ⟨(b.lexers.getD i .empty, count) :: asks, ?_⟩
      rw [requests_cons_pull, hasks, exec_pull h, tablesOf, h]
      rfl
    · have hpulls : c.pulls stream = false := by simpa using hpulls
      rw [requests_cons_other hpulls]
      exact ih (by rwa [lookup_exec (hopens c List.mem_cons_self) hpulls]) hmore

/-- Only registrations change what a stream reads. -/
theorem tables_of_requests (h : b.streams.lookup stream = some (i, s)) (hi : i < b.lexers.length)
    (hopens : ∀ c ∈ cs, c.opens stream = false) (hkeep : ∀ c ∈ cs, c.registers = false) :
    ∀ r ∈ b.requests stream cs, r.tables = b.lexers.getD i .empty := by
  induction cs generalizing b s with
  | nil => simp [requests]
  | cons c cs ih =>
    have hmore : ∀ c ∈ cs, c.opens stream = false := fun c hc => hopens c (by simp [hc])
    have hlater : ∀ c ∈ cs, c.registers = false := fun c hc => hkeep c (by simp [hc])
    -- the lexer stays where it is, with its tables
    have hsame : i < (b.exec c).2.lexers.length ∧
        (b.exec c).2.lexers.getD i .empty = b.lexers.getD i .empty := by
      rcases exec_lexers b c with hl | ⟨lx, hl⟩ | ⟨hc, -⟩
      · rw [hl]
        exact ⟨hi, rfl⟩
      · rw [hl]
        refine ⟨by rw [List.length_append]; omega, ?_⟩
        rw [List.getD_eq_getElem?_getD, List.getElem?_append_left hi, List.getD_eq_getElem?_getD]
      · exact absurd ((hkeep c List.mem_cons_self).symm.trans hc) Bool.false_ne_true
    by_cases hpulls : c.pulls stream = true
    · obtain ⟨count, rfl⟩ := eq_pull_of_pulls hpulls
      have hnext : ((b.exec (.pull stream count)).2).streams.lookup stream =
          some (i, (Stream.take (b.lexers.getD i .empty) count s).2) := by
        rw [exec_pull h]
        simp
      intro r hr
      rw [requests_cons_pull] at hr
      rcases List.mem_cons.1 hr with rfl | hr
      · rw [tablesOf, h]
        rfl
      · exact (ih hnext hsame.1 hmore hlater r hr).trans hsame.2
    · have hpulls : c.pulls stream = false := by simpa using hpulls
      intro r hr
      rw [requests_cons_other hpulls] at hr
      have hnext := (lookup_exec (b := b) (hopens c List.mem_cons_self) hpulls).trans h
      exact (ih hnext hsame.1 hmore hlater r hr).trans hsame.2

/-! ## Whole runs -/

theorem execAll_cons (b : Bench) (c : Command) (cs : List Command) :
    b.execAll (c :: cs) =
      ((b.exec c).1 :: ((b.exec c).2.execAll cs).1, ((b.exec c).2.execAll cs).2) := rfl

theorem requests_append (b : Bench) (front back : List Command) :
    b.requests stream (front ++ back) =
      b.requests stream front ++ (b.execAll front).2.requests stream back := by
  induction front generalizing b with
  | nil => rfl
  | cons c front ih =>
    rw [List.cons_append, execAll_cons]
    by_cases hpulls : c.pulls stream = true
    · obtain ⟨count, rfl⟩ := eq_pull_of_pulls hpulls
      rw [requests_cons_pull, requests_cons_pull, ih, List.cons_append]
    · have hpulls : c.pulls stream = false := by simpa using hpulls
      rw [requests_cons_other hpulls, requests_cons_other hpulls, ih]

/-- The requests' answers are those that the run gives to the pulls of the stream. -/
theorem answers_requests (b : Bench) (stream : Text) (cs : List Command) :
    (b.requests stream cs).map (·.answer) =
      ((cs.zip (b.execAll cs).1).filter (·.1.pulls stream)).map (·.2) := by
  induction cs generalizing b with
  | nil => rfl
  | cons c cs ih =>
    rw [execAll_cons, List.zip_cons_cons, List.filter_cons]
    by_cases hpulls : c.pulls stream = true
    · rw [if_pos hpulls]
      obtain ⟨count, rfl⟩ := eq_pull_of_pulls hpulls
      rw [requests_cons_pull, List.map_cons, ih, List.map_cons]
    · rw [if_neg hpulls, requests_cons_other (by simpa using hpulls), ih]

/-- As long as a stream is neither pulled nor opened anew, it stands where it stood, on its lexer. -/
theorem lookup_execAll (hi : i < b.lexers.length) (h : b.streams.lookup stream = some (i, s))
    (hopens : ∀ c ∈ cs, c.opens stream = false) (hpulls : ∀ c ∈ cs, c.pulls stream = false) :
    i < (b.execAll cs).2.lexers.length ∧
      (b.execAll cs).2.streams.lookup stream = some (i, s) ∧ b.requests stream cs = [] := by
  induction cs generalizing b with
  | nil => exact ⟨hi, h, rfl⟩
  | cons c cs ih =>
    have hlength : b.lexers.length ≤ (b.exec c).2.lexers.length := by
      rcases exec_lexers b c with hl | ⟨lx, hl⟩ | ⟨-, j, lx, hl⟩ <;> simp [hl]
    have hpull := hpulls c List.mem_cons_self
    rw [execAll_cons, requests_cons_other hpull]
    exact ih (Nat.lt_of_lt_of_le hi hlength)
      (by rwa [lookup_exec (hopens c List.mem_cons_self) hpull])
      (fun c hc => hopens c (List.mem_cons_of_mem _ hc))
      fun c hc => hpulls c (List.mem_cons_of_mem _ hc)

/-- A stream that is opened on a lexer stands at the start of its text. -/
theorem lookup_openStream {name : Text} (h : (b.find? name).isSome) (stream text : Text) :
    ∃ i, i < (b.exec (.openStream name stream text)).2.lexers.length ∧
      (b.exec (.openStream name stream text)).2.streams.lookup stream =
        some (i, ⟨some (0, .at text 0)⟩) := by
  obtain ⟨⟨i, lx⟩, hfind⟩ := Option.isSome_iff_exists.1 h
  have hi : i < b.lexers.length := by
    rw [find?] at hfind
    simp only [Option.bind_eq_bind, Option.bind_eq_some_iff] at hfind
    obtain ⟨j, -, lx', hj, heq⟩ := hfind
    obtain ⟨rfl, -⟩ := Prod.mk.inj (Option.some.inj heq)
    exact (List.getElem?_eq_some_iff.1 hj).1
  refine ⟨i, ?_, ?_⟩
  · rw [exec, withLexer, hfind]
    exact hi
  · rw [exec, withLexer, hfind, Cursor.at_zero]
    simp [Stream.start]

/-- Where the tables stay as they are from the first pull of a stream to its end, it gives the
tokens of its text. -/
theorem tokenize_eq_outcome {text : Text} {front mid rest : List Command}
    (hi : i < b.lexers.length) (h : b.streams.lookup stream = some (i, ⟨some (0, .at text 0)⟩))
    (hopens : ∀ c ∈ front ++ mid ++ rest, c.opens stream = false)
    (hfront : ∀ c ∈ front, c.pulls stream = false) (hmid : ∀ c ∈ mid, c.registers = false)
    (hends : ∃ r ∈ (b.execAll front).2.requests stream mid, r.Ends) :
    ((b.execAll front).2.tablesOf stream).tokenize text false =
      outcome (b.requests stream (front ++ mid ++ rest)) := by
  obtain ⟨hi', h', hnone⟩ :=
    lookup_execAll hi h (fun c hc => hopens c (by simp [hc])) hfront
  have hopens' : ∀ c ∈ mid ++ rest, c.opens stream = false :=
    fun c hc => hopens c (by rw [List.append_assoc]; exact List.mem_append_right _ hc)
  obtain ⟨asks, hasks⟩ := exists_replies h' hopens'
  have hlives := lives_replies text 0 asks
  have htables := tables_of_requests h' hi'
    (fun c hc => hopens' c (List.mem_append_left _ hc)) hmid
  rw [List.append_assoc, requests_append, hnone, List.nil_append, tablesOf, h']
  rw [← hasks, requests_append] at hlives
  rw [requests_append]
  obtain ⟨before, r, after, hsplit, hr, hbefore⟩ := exists_first_end hends
  rw [hsplit] at hlives htables ⊢
  rw [List.append_assoc, List.cons_append] at hlives ⊢
  refine hlives.tokenize_eq hr hbefore fun q hq => htables q ?_
  rcases List.mem_append.1 hq with hq | hq
  · exact List.mem_append_left _ hq
  · rw [List.mem_singleton.1 hq]
    exact List.mem_append_right _ List.mem_cons_self

/-- Streams are lazy. In every run of commands, a stream that is opened on a lexer gives tokens that
tile the beginning of its text, each by the tables in force when it was pulled, and nothing after
its end; without the pulls of other streams it gives the same; and if nothing is registered from
its first pull to its end, it gives the tokens of its text. -/
theorem streams_interleaved {name text : Text} (hlexer : (b.find? name).isSome)
    (hopens : ∀ c ∈ cs, c.opens stream = false) :
    let opened := (b.exec (.openStream name stream text)).2
    Lazily text (opened.requests stream cs) ∧
      (opened.requests stream cs).map (·.answer) =
        ((cs.zip (opened.execAll cs).1).filter (·.1.pulls stream)).map (·.2) ∧
      opened.requests stream (cs.filter fun c => !c.pullsOther stream) =
        opened.requests stream cs ∧
      ∀ front mid rest, cs = front ++ mid ++ rest → (∀ c ∈ front, c.pulls stream = false) →
        (∀ c ∈ mid, c.registers = false) →
        (∃ r ∈ (opened.execAll front).2.requests stream mid, r.Ends) →
        ((opened.execAll front).2.tablesOf stream).tokenize text false =
          outcome (opened.requests stream cs) := by
  intro opened
  obtain ⟨i, hi, hplace⟩ := lookup_openStream hlexer stream text
  refine ⟨?_, answers_requests opened stream cs, Alike.requests_filter ⟨rfl, rfl, rfl⟩ cs, ?_⟩
  · obtain ⟨asks, hasks⟩ := exists_replies hplace hopens
    rw [hasks]
    exact (lives_replies text 0 asks).lazily
  · rintro front mid rest rfl hfront hmid hends
    exact tokenize_eq_outcome hi hplace hopens hfront hmid hends

/-- A bench with the lexer of SQL. -/
def sqlBench : Bench := (exec {} (.make "main".toList true)).2

/-- A stream is pulled before and after a word of its text becomes a keyword, and another one in
between. -/
def goNow : List Command :=
  [.pull "s".toList 2, .openStream "main".toList "t".toList "now".toList,
    .addKeyword "main".toList "now".toList .keyword, .pull "t".toList 2, .pull "s".toList 2]

theorem streams_interleaved_goNow :
    (sqlBench.find? "main".toList).isSome ∧ (∀ c ∈ goNow, c.opens "s".toList = false) ∧
      let opened := (sqlBench.exec (.openStream "main".toList "s".toList "go now".toList)).2
      Lazily "go now".toList (opened.requests "s".toList goNow) ∧
        (opened.requests "s".toList goNow).map (·.answer) =
          ((goNow.zip (opened.execAll goNow).1).filter (·.1.pulls "s".toList)).map (·.2) ∧
        opened.requests "s".toList (goNow.filter fun c => !c.pullsOther "s".toList) =
          opened.requests "s".toList goNow ∧
        ∀ front mid rest, goNow = front ++ mid ++ rest →
          (∀ c ∈ front, c.pulls "s".toList = false) → (∀ c ∈ mid, c.registers = false) →
          (∃ r ∈ (opened.execAll front).2.requests "s".toList mid, r.Ends) →
          ((opened.execAll front).2.tablesOf "s".toList).tokenize "go now".toList false =
            outcome (opened.requests "s".toList goNow) := by
  have hlexer : (sqlBench.find? "main".toList).isSome := rfl
  have hopens : ∀ c ∈ goNow, c.opens "s".toList = false := by decide
  exact ⟨hlexer, hopens, streams_interleaved hlexer hopens⟩

/-- The word that was registered after the first pull is a keyword. -/
example :
    let bench := (exec {} (.make "main".toList true)).2
    let opened := (bench.exec (.openStream "main".toList "s".toList "go now".toList)).2
    (opened.requests "s".toList [.pull "s".toList 2,
      .addKeyword "main".toList "now".toList .keyword, .pull "s".toList 2]).map
        (·.tokens.map (·.kind)) = [[.name, .whitespace], [.keyword]] := by decide +kernel

end Bench
end SqlLayout.Lexer
