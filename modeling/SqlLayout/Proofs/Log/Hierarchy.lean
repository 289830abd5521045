import SqlLayout.Proofs.Log.Table

/-!
# Which loggers find the root

The table of loggers is sound whatever loggers are made (`Loggers.Sound`): the logger above another
one is there and stands above it by name, and so it is with those that wait for a logger. Which
loggers come to the root depends on the dots of their names.

A name that goes on behind the root's by one dot and not by two is looked for at the root in the end.
Once the root is made, the records of all such loggers come to it (`Rooted.reaches_root`), whatever
other loggers there are. A name that goes on by two dots has no such right: after a logger was made
for the two dots themselves, none of them finds the root (`Astray.reaches_root`).
-/

namespace SqlLayout.Loggers

variable {ls : Loggers} {name above target m root : Text}

/-! ## Soundness -/

/-- The logger above another one is there, and stands above it by name. So do the loggers that are
waited for, and those that wait are there. -/
structure Sound (ls : Loggers) : Prop where
  above : ∀ {name above}, ls.above? name = some above →
    ls.isLogger above = true ∧ IsAbove above name
  waiting : ∀ {name child}, child ∈ ls.waiting name → ls.isLogger child = true ∧ IsAbove name child

theorem Sound.empty : Sound {} where
  above h := by cases h
  waiting h := absurd h List.not_mem_nil

theorem Sound.note (h : Sound ls) (name : Text) (passes : Bool) : Sound (ls.note name passes) where
  above ha := by
    rw [above?_note] at ha
    rw [isLogger_note]
    exact h.above ha
  waiting hc := by
    rw [waiting_note] at hc
    rw [isLogger_note]
    exact h.waiting hc

theorem Sound.forget (h : Sound ls) : Sound ls.forget where
  above ha := by
    rw [above?_forget] at ha
    rw [isLogger_forget]
    exact h.above ha
  waiting hc := by
    rw [waiting_forget] at hc
    rw [isLogger_forget]
    exact h.waiting hc

theorem isAbove_of_mem_passed (h : m ∈ ls.passed name) : IsAbove m name := by
  have habove := isAbove_of_mem_namesAbove ((List.takeWhile_prefix _).subset h)
  rwa [List.reverse_reverse] at habove

theorem Sound.make (h : Sound ls) (name : Text) : Sound (ls.make name) := by
  cases hname : ls.isLogger name with
  | true => rwa [make_of_isLogger hname]
  | false =>
    refine ⟨?_, ?_⟩
    · intro m above ha
      rw [isLogger_make]
      by_cases hm : m = name
      · subst hm
        have hfound : (namesAbove m.reverse).find? ls.isLogger = some above := by
          rwa [above?, elim_make_self hname] at ha
        have habove := isAbove_of_mem_namesAbove (List.mem_of_find?_eq_some hfound)
        rw [List.reverse_reverse] at habove
        exact ⟨.inr (List.find?_some hfound), habove⟩
      · have hlogger : ls.isLogger m = true :=
          ((isLogger_make ls name m).1 (isLogger_of_above? ha)).resolve_left hm
        rw [above?_make hname hlogger] at ha
        split at ha
        · next hwaits =>
          rcases LogNode.nearer_eq name (ls.above? m) with heq | heq
          · rw [heq] at ha
            exact ⟨.inr (h.above ha).1, (h.above ha).2⟩
          · obtain rfl := Option.some.inj (heq.symm.trans ha)
            exact ⟨.inl rfl, (h.waiting hwaits).2⟩
        · exact ⟨.inr (h.above ha).1, (h.above ha).2⟩
    · intro m child hc
      rw [isLogger_make]
      obtain ⟨-, hc | ⟨rfl, hpassed⟩⟩ := (mem_waiting_make hname).1 hc
      · exact ⟨.inr (h.waiting hc).1, (h.waiting hc).2⟩
      · exact ⟨.inl rfl, isAbove_of_mem_passed hpassed⟩

/-! ## The way of a record -/

/-- There are no more steps than characters, since the name of the logger above is shorter. -/
theorem Sound.reachesIn_eq (h : Sound ls) {n : Nat} (hn : name.length ≤ n) :
    ls.reachesIn target n name = ls.reaches target name := by
  have hstep : ∀ n name, name.length ≤ n →
      ls.reachesIn target (n + 1) name = ls.reachesIn target n name := by
    intro n
    induction n with
    | zero =>
      intro name hname
      have hnone : ls.above? name = none := by
        rw [Option.eq_none_iff_forall_ne_some]
        intro above ha
        have hlt := (h.above ha).2.length_lt
        omega
      show (name == target || (ls.above? name).any _) = (name == target)
      rw [hnone]
      exact Bool.or_false _
    | succ n ih =>
      intro name hname
      rw [reachesIn, reachesIn]
      congr 1
      cases ha : ls.above? name with
      | none => rfl
      | some above =>
        have hlt := (h.above ha).2.length_lt
        exact ih above (by omega)
  unfold reaches
  induction hn with
  | refl => rfl
  | step hn ih => exact (hstep _ name hn).trans ih

/-- A record comes to a logger from itself and from those below. -/
theorem Sound.reaches_eq (h : Sound ls) (target name : Text) :
    ls.reaches target name = (name == target || (ls.above? name).any (ls.reaches target)) := by
  rw [← h.reachesIn_eq (Nat.le_succ name.length), reachesIn]
  congr 1
  cases ha : ls.above? name with
  | none => rfl
  | some above => exact h.reachesIn_eq (Nat.le_of_lt (h.above ha).2.length_lt)

/-! ## The root -/

/-- The name goes on behind the root's by one dot and not by two. -/
def Continues (root name : Text) : Prop :=
  ∃ rest, name = root ++ '.' :: rest ∧ rest.head? ≠ some '.'

/-- A logger of such a name is looked for at the root in the end. -/
theorem Continues.mem_namesAbove (h : Continues root name) (hroot : root ≠ []) :
    root ∈ namesAbove name.reverse := by
  obtain ⟨rest, rfl, hrest⟩ := h
  have hu : rest.reverse.getLast? ≠ some '.' := by rwa [List.getLast?_reverse]
  have hmem := mem_namesAbove hu (v := root.reverse) (by simpa using hroot)
  simpa using hmem

/-- So are those above it, for the root has no dot in its name. -/
theorem Continues.of_isAbove (h : Continues root name) (hroot : '.' ∉ root)
    (habove : IsAbove above name) : above = root ∨ Continues root above := by
  obtain ⟨rest, hname, hrest⟩ := h
  obtain ⟨more, rfl⟩ := habove
  rcases List.append_eq_append_iff.1 hname with ⟨v, hv, hmore⟩ | ⟨v, rfl, hmore⟩
  · cases v with
    | nil => exact .inl (by simpa using hv.symm)
    | cons c v =>
      -- the dot behind the name above would lie within the root's
      obtain ⟨rfl, -⟩ := List.cons.inj hmore
      exact absurd (by rw [hv]; simp) hroot
  · cases v with
    | nil => exact .inl (List.append_nil root)
    | cons c v =>
      obtain ⟨rfl, rfl⟩ := List.cons.inj hmore
      refine .inr ⟨v, rfl, ?_⟩
      cases v with
      | nil => exact fun h => nomatch h
      | cons c v => exact hrest

/-- A logger whose name continues the root's is below another one, or the root finds it when it is
made. -/
structure Rooted (root : Text) (ls : Loggers) : Prop extends Sound ls where
  waits : ∀ {name}, ls.isLogger name = true → Continues root name → ls.above? name = none →
    name ∈ ls.waiting root

theorem Rooted.empty (root : Text) : Rooted root {} where
  toSound := .empty
  waits h := by cases h

theorem Rooted.note (h : Rooted root ls) (name : Text) (passes : Bool) :
    Rooted root (ls.note name passes) where
  toSound := h.toSound.note name passes
  waits hlogger hcontinues ha := by
    rw [isLogger_note] at hlogger
    rw [above?_note] at ha
    rw [waiting_note]
    exact h.waits hlogger hcontinues ha

theorem Rooted.forget (h : Rooted root ls) : Rooted root ls.forget where
  toSound := h.toSound.forget
  waits hlogger hcontinues ha := by
    rw [isLogger_forget] at hlogger
    rw [above?_forget] at ha
    rw [waiting_forget]
    exact h.waits hlogger hcontinues ha

theorem Rooted.make (h : Rooted root ls) (hroot : root ≠ []) (name : Text) :
    Rooted root (ls.make name) := by
  refine ⟨h.toSound.make name, ?_⟩
  intro m hlogger hcontinues ha
  cases hname : ls.isLogger name with
  | true =>
    rw [make_of_isLogger hname] at *
    exact h.waits hlogger hcontinues ha
  | false =>
    rw [mem_waiting_make hname]
    by_cases hm : m = name
    · -- the new logger found none above it, so it was looking for one at the root too
      subst hm
      obtain ⟨rest, hrest, -⟩ := id hcontinues
      have hne : root ≠ m := by
        intro heq
        have hlength := congrArg List.length (heq.trans hrest)
        simp at hlength
      have hnone : (namesAbove m.reverse).find? ls.isLogger = none := by
        rwa [above?, elim_make_self hname] at ha
      have hall : ls.passed m = namesAbove m.reverse := by
        rw [passed, List.takeWhile_eq_self_iff]
        intro p hp
        simpa using List.find?_eq_none.1 hnone p hp
      refine ⟨hne, .inr ⟨rfl, ?_⟩⟩
      rw [hall]
      exact hcontinues.mem_namesAbove hroot
    · have hlogger : ls.isLogger m = true := ((isLogger_make ls name m).1 hlogger).resolve_left hm
      rw [above?_make hname hlogger] at ha
      split at ha
      · exact absurd ha (LogNode.nearer_ne_none _ _)
      · next hnot =>
        have hwaits := h.waits hlogger hcontinues ha
        refine ⟨?_, .inl hwaits⟩
        rintro rfl
        exact hnot hwaits

/-- Once the root is there, it is above all loggers whose names continue its own. -/
theorem Rooted.reaches_root (h : Rooted root ls) (hroot : '.' ∉ root)
    (hmade : ls.isLogger root = true) (hlogger : ls.isLogger name = true)
    (hname : name = root ∨ Continues root name) : ls.reaches root name = true := by
  induction hn : name.length using Nat.strongRecOn generalizing name with
  | ind n ih =>
    subst hn
    rw [h.toSound.reaches_eq]
    rcases hname with rfl | hcontinues
    · simp
    · cases ha : ls.above? name with
      | none =>
        have hwaits := h.waits hlogger hcontinues ha
        rw [waiting_of_isLogger hmade] at hwaits
        exact absurd hwaits List.not_mem_nil
      | some above =>
        obtain ⟨habove, hbefore⟩ := h.above ha
        have hreaches := ih above.length hbefore.length_lt habove
          (hcontinues.of_isAbove hroot hbefore) rfl
        simp [hreaches]

/-! ## Loggers that go astray -/

/-- The root's name with two dots behind it. -/
def twoDots (root : Text) : Text := root ++ ['.', '.']

/-- Nothing leads from loggers whose names go on behind the root's by two dots to any others. -/
structure Astray (root : Text) (ls : Loggers) : Prop where
  /-- The one name at which such a logger could find a way to the root has no logger. -/
  oneDot : ls.isLogger (root ++ ['.']) = false
  above : ∀ {name above}, twoDots root <+: name → ls.above? name = some above →
    twoDots root <+: above

theorem Astray.note (h : Astray root ls) (name : Text) (passes : Bool) :
    Astray root (ls.note name passes) where
  oneDot := by rw [isLogger_note, h.oneDot]
  above hname ha := by
    rw [above?_note] at ha
    exact h.above hname ha

theorem namesAbove_of_notMem {r : Text} (h : '.' ∉ r) : namesAbove r = [] := by
  fun_induction namesAbove r with
  | case1 c rest => simp at h
  | case2 x rest _ ih => exact ih fun hmem => h (List.mem_cons_of_mem x hmem)
  | case3 => rfl

/-- A logger behind the two dots finds one behind them, or none: the root is passed over together
with the second dot, unless the search comes to the two dots themselves before. -/
theorem twoDots_of_find? (hroot : '.' ∉ root) (hone : ls.isLogger (root ++ ['.']) = false)
    {u : Text} (htwo : u ≠ [] → ls.isLogger (twoDots root) = true)
    (h : (namesAbove (u ++ '.' :: '.' :: root.reverse)).find? ls.isLogger = some above) :
    twoDots root <+: above := by
  induction hn : u.length using Nat.strongRecOn generalizing u with
  | ind n ih =>
    subst hn
    cases u with
    | nil =>
      have hnames : namesAbove ('.' :: '.' :: root.reverse) = [root ++ ['.']] := by
        rw [namesAbove, namesAbove_of_notMem (by simpa using hroot)]
        simp
      rw [List.nil_append, hnames] at h
      rw [List.mem_singleton.1 (List.mem_of_find?_eq_some h)] at *
      have hfound := List.find?_some h
      rw [hone] at hfound
      cases hfound
    | cons x u =>
      have hthere := htwo (List.cons_ne_nil x u)
      by_cases hx : x = '.'
      · subst hx
        cases u with
        | nil =>
          have hnear : ('.' :: '.' :: root.reverse).reverse = twoDots root := by simp [twoDots]
          rw [List.cons_append, List.nil_append, namesAbove, List.find?_cons, hnear, hthere] at h
          exact Option.some.inj h ▸ List.prefix_refl _
        | cons c u =>
          rw [List.cons_append, List.cons_append, namesAbove, List.find?_cons] at h
          split at h
          · rw [← Option.some.inj h]
            exact ⟨(c :: u).reverse, by simp [twoDots]⟩
          · exact ih u.length (by simp only [List.length_cons]; omega) (fun _ => hthere) h rfl
      · rw [List.cons_append, namesAbove] at h
        · exact ih u.length (by simp) (fun _ => hthere) h rfl
        · exact fun c rest heq => absurd heq hx

theorem Astray.make (h : Astray root ls) (hroot : '.' ∉ root) (hname : twoDots root <+: name)
    (htwo : name ≠ twoDots root → ls.isLogger (twoDots root) = true) :
    Astray root (ls.make name) := by
  cases hmade : ls.isLogger name with
  | true => rwa [make_of_isLogger hmade]
  | false =>
    have hne : root ++ ['.'] ≠ name := by
      rintro rfl
      have hlength := hname.length_le
      simp [twoDots] at hlength
    refine ⟨?_, ?_⟩
    · rw [← Bool.not_eq_true, isLogger_make, h.oneDot]
      simpa using hne
    · intro m above hm ha
      by_cases heq : m = name
      · subst heq
        obtain ⟨u, rfl⟩ := hm
        have hsearch : (namesAbove (u.reverse ++ '.' :: '.' :: root.reverse)).find? ls.isLogger =
            some above := by
          rw [above?, elim_make_self hmade] at ha
          rw [← ha]
          simp [twoDots, LogNode.above?]
        refine twoDots_of_find? hroot h.oneDot ?_ hsearch
        intro hu
        refine htwo ?_
        simpa using hu
      · have hlogger : ls.isLogger m = true :=
          ((isLogger_make ls name m).1 (isLogger_of_above? ha)).resolve_left heq
        rw [above?_make hmade hlogger] at ha
        split at ha
        · rcases LogNode.nearer_eq name (ls.above? m) with hsame | hnew
          · exact h.above hm (hsame ▸ ha)
          · obtain rfl := Option.some.inj (hnew.symm.trans ha)
            exact hname
        · exact h.above hm ha

/-- Their records never come to the root. -/
theorem Astray.reaches_root (h : Astray root ls) (hs : Sound ls) (hname : twoDots root <+: name) :
    ls.reaches root name = false := by
  induction hn : name.length using Nat.strongRecOn generalizing name with
  | ind n ih =>
    subst hn
    have hne : name ≠ root := by
      rintro rfl
      have hlength := hname.length_le
      simp only [twoDots, List.length_append, List.length_cons, List.length_nil] at hlength
      omega
    rw [hs.reaches_eq, beq_false_of_ne hne, Bool.false_or]
    cases ha : ls.above? name with
    | none => rfl
    | some above => exact ih above.length (hs.above ha).2.length_lt (h.above hname ha) rfl

end SqlLayout.Loggers
