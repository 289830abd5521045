import SqlLayout.Proofs.Layout.Alike
import SqlLayout.Proofs.Lexer.Sql.Tokens

/-!
# What reindentation reads of its tokens

The description of a layout reads the kinds of the tokens that are no blanks and their texts with
single spaces; blanks count only where two tokens stay on a line. So it is a function of the essence
of a token list, and of which neighbours have a blank between them (`Site.separator_eq`).
-/

namespace SqlLayout.Layout

variable {k : Nat} {t u : Token} {v w before following ts : List Token}

/-- Reindentation and nothing else. -/
def reindenting (k : Nat) : Options := { reindent := true, fromBreakCount := k }

theorem isWritten_reindenting (k : Nat) (t : Token) :
    isWritten (reindenting k) t = !t.kind.isBlank := by
  simp [isWritten, reindenting]

theorem isWritten_of_isBlank (h : t.kind.isBlank = true) : isWritten (reindenting k) t = false := by
  rw [isWritten_reindenting, h]
  rfl

theorem isWritten_of_not_isBlank (h : t.kind.isBlank = false) :
    isWritten (reindenting k) t = true := by
  rw [isWritten_reindenting, h]
  rfl

theorem shown_reindenting (k : Nat) (t : Token) : shown (reindenting k) t = t.settled := by
  rw [shown, Token.settled, reindenting]
  cases t.kind.isKeyword <;> rfl

/-- A token with its settled text, wherever it stands. -/
def bare (t : Token) : Token := ⟨t.kind, t.settled, 0⟩

/-- The tokens that are no blanks. -/
def essence (ts : List Token) : List Token := (ts.filter (!·.kind.isBlank)).map bare

/-! ## One more token -/

theorem lastWritten?_blank (h : t.kind.isBlank = true) (before : List Token) :
    lastWritten? (reindenting k) (before ++ [t]) = lastWritten? (reindenting k) before := by
  rw [lastWritten?_concat, isWritten_of_isBlank h, if_neg Bool.false_ne_true]

theorem blankSince_blank (h : t.kind.isBlank = true) (before : List Token) :
    blankSince (reindenting k) (before ++ [t]) = true := by
  rw [blankSince_concat, isWritten_of_isBlank h, if_neg Bool.false_ne_true, h, Bool.true_or]

theorem lastWritten?_written (h : t.kind.isBlank = false) (before : List Token) :
    lastWritten? (reindenting k) (before ++ [t]) = some t := by
  rw [lastWritten?_concat, if_pos (isWritten_of_not_isBlank h)]

theorem blankSince_written (h : t.kind.isBlank = false) (before : List Token) :
    blankSince (reindenting k) (before ++ [t]) = false := by
  rw [blankSince_concat, if_pos (isWritten_of_not_isBlank h)]

theorem describedFrom_blank (h : t.kind.isBlank = true) (before ts : List Token) :
    describedFrom (reindenting k) before (t :: ts) =
      describedFrom (reindenting k) (before ++ [t]) ts := by
  rw [describedFrom_cons, isWritten_of_isBlank h]
  rfl

theorem describedFrom_written (h : t.kind.isBlank = false) (before ts : List Token) :
    describedFrom (reindenting k) before (t :: ts) =
      (Site.mk before t ts).separator (reindenting k) ++
        (t.settled ++ describedFrom (reindenting k) (before ++ [t]) ts) := by
  rw [describedFrom_cons, if_pos (isWritten_of_not_isBlank h), shown_reindenting,
    List.append_assoc]

/-! ## Tokens -/

@[simp] theorem bare_kind (t : Token) : (bare t).kind = t.kind := rfl

@[simp] theorem bare_settled (t : Token) : (bare t).settled = t.settled := by
  rw [Token.settled, bare_kind]
  split
  · next hkey =>
    rw [bare, Token.settled, if_pos hkey]
    exact Text.collapse_collapse t.value
  · rfl

@[simp] theorem bare_isMark (t : Token) (c : Char) : (bare t).isMark c = t.isMark c := by
  rw [Token.isMark, Token.isMark, bare_kind]
  by_cases hmark : t.kind = .punctuation
  · have hvalue : (bare t).value = t.value := by
      rw [bare, Token.settled, if_neg (by rw [hmark]; decide)]
    rw [hvalue]
  · rw [beq_eq_false_iff_ne.2 hmark, Bool.false_and, Bool.false_and]

@[simp] theorem bare_isWord (t : Token) (w : String) : (bare t).isWord w = t.isWord w := by
  rw [Token.isWord, Token.isWord, bare_kind]
  by_cases hkey : t.kind.isKeyword = true
  · have hword : (bare t).word = t.word := by
      rw [Token.word, Token.word, bare_kind, if_pos hkey, if_pos hkey, bare, Token.settled,
        if_pos hkey, Text.collapse_collapse]
    rw [hword]
  · simp [hkey]

/-- A token that is settled already keeps its text. -/
theorem bare_eq_of_settled (hkind : u.kind = t.kind) (hvalue : u.value = t.settled) :
    bare u = bare t := by
  have hu : u.settled = (bare t).settled := by
    rw [Token.settled, Token.settled, hkind, hvalue]
    rfl
  rw [bare, hu, hkind, bare_settled]
  rfl

/-! ## Lists of tokens -/

theorem essence_cons (t : Token) (ts : List Token) :
    essence (t :: ts) = if t.kind.isBlank then essence ts else bare t :: essence ts := by
  rw [essence, List.filter_cons]
  cases t.kind.isBlank <;> rfl

theorem essence_append (v w : List Token) : essence (v ++ w) = essence v ++ essence w := by
  simp [essence]

theorem essence_concat (w : List Token) (t : Token) :
    essence (w ++ [t]) = essence w ++ if t.kind.isBlank then [] else [bare t] := by
  rw [essence_append, essence_cons]
  rfl

theorem essence_eq_nil (h : ∀ t ∈ w, t.kind.isBlank = true) : essence w = [] := by
  rw [essence, List.map_eq_nil_iff, List.filter_eq_nil_iff]
  intro t ht
  simp [h t ht]

theorem isKeyword_of_isBlank (h : t.kind.isBlank = true) : t.kind.isKeyword = false := by
  revert h
  cases t.kind <;> decide

/-! ## Reading the essence -/

/-- What a token leaves in the essence: a blank nothing, another one its settled text. -/
def bare? (t : Token) : Option Token := if t.kind.isBlank then none else some (bare t)

theorem bare?_of_isBlank (h : t.kind.isBlank = true) : bare? t = none := if_pos h

theorem bare?_of_not_isBlank (h : t.kind.isBlank = false) : bare? t = some (bare t) :=
  if_neg (by simp [h])

theorem essence_eq_filterMap (ts : List Token) : essence ts = ts.filterMap bare? := by
  induction ts with
  | nil => rfl
  | cons t ts ih =>
    rw [essence_cons, ih]
    by_cases hblank : t.kind.isBlank = true
    · rw [if_pos hblank, List.filterMap_cons_none (bare?_of_isBlank hblank)]
    · rw [if_neg hblank, List.filterMap_cons_some (bare?_of_not_isBlank (by simpa using hblank))]

theorem readsAlike_bare (t : Token) : ReadsAlike (fun t => some (bare t)) t :=
  .inr ⟨bare t, rfl, rfl, bare_isMark t, bare_isWord t⟩

theorem readsAlike_bare? (t : Token) : ReadsAlike bare? t := by
  by_cases hblank : t.kind.isBlank = true
  · refine .inl ⟨bare?_of_isBlank hblank, ?_, isKeyword_of_isBlank hblank⟩
    intro hkind
    rw [hkind] at hblank
    exact absurd hblank (by decide)
  · exact .inr ⟨bare t, if_neg hblank, rfl, bare_isMark t, bare_isWord t⟩

theorem keeps_bare? (k : Nat) (ts : List Token) :
    Keeps bare? (reindenting k) (reindenting k) ts where
  reads t _ := readsAlike_bare? t
  written t _ := by
    by_cases hblank : t.kind.isBlank = true
    · rw [isWritten_of_isBlank hblank, bare?_of_isBlank hblank]
      rfl
    · rw [Bool.not_eq_true] at hblank
      rw [bare?_of_not_isBlank hblank, Option.any_some, isWritten_of_not_isBlank hblank,
        isWritten_of_not_isBlank (t := bare t) hblank]
  count := rfl

theorem headsSubquery_essence (following : List Token) :
    headsSubquery (essence following) = headsSubquery following := by
  rw [essence, headsSubquery_map fun t _ => readsAlike_bare t, headsSubquery, headsSubquery,
    List.filter_filter]
  simp only [Bool.and_self]

theorem lastWritten?_essence (k : Nat) (before : List Token) :
    lastWritten? (reindenting k) (essence before) =
      (lastWritten? (reindenting k) before).map bare := by
  rw [essence_eq_filterMap, lastWritten?_filterMap (keeps_bare? k before)]
  cases hlast : lastWritten? (reindenting k) before with
  | none => rfl
  | some p =>
    have hwritten := (mem_of_lastWritten? hlast).2
    rw [isWritten_reindenting, Bool.not_eq_true'] at hwritten
    rw [Option.bind_some, bare?_of_not_isBlank hwritten, Option.map_some]

/-! ## Sites -/

namespace Site

/-- The site without blanks. -/
def bare (s : Site) : Site := ⟨essence s.before, Layout.bare s.token, essence s.after⟩

variable {s s' : Site}

theorem bare_eq_changed (s : Site) : s.bare = s.changed bare? (Layout.bare s.token) := by
  rw [bare, changed, essence_eq_filterMap, essence_eq_filterMap]

theorem indentation_bare (hblank : s.token.kind.isBlank = false) :
    s.bare.indentation = s.indentation := by
  rw [bare_eq_changed]
  exact indentation_changed (keeps_bare? 0 s.tokens) (bare?_of_not_isBlank hblank)

theorem breaks_bare (hblank : s.token.kind.isBlank = false) :
    s.bare.breaks (reindenting k) = s.breaks (reindenting k) := by
  rw [bare_eq_changed]
  refine breaks_changed (keeps_bare? k s.tokens) (bare?_of_not_isBlank hblank) fun _ => ?_
  rw [← essence_eq_filterMap, headsSubquery_essence]

/-- Sites without blanks that are the same have the same separator, if a blank stands before the one
token exactly if something is written before the other. -/
theorem separator_eq (h : s'.bare = s.bare) (hblank : s.token.kind.isBlank = false)
    (hgap : blankSince (reindenting k) s'.before = true ↔ s.separator (reindenting k) ≠ []) :
    s'.separator (reindenting k) = s.separator (reindenting k) := by
  have hkind : s'.token.kind = s.token.kind := congrArg (·.token.kind) h
  have hblank' : s'.token.kind.isBlank = false := by rw [hkind, hblank]
  have hlast : (lastWritten? (reindenting k) s'.before).map Layout.bare =
      (lastWritten? (reindenting k) s.before).map Layout.bare := by
    rw [← lastWritten?_essence, ← lastWritten?_essence]
    exact congrArg (fun s => lastWritten? (reindenting k) s.before) h
  have hindent : s'.indentation = s.indentation := by
    rw [← indentation_bare hblank', h, indentation_bare hblank]
  have hbreaks : s'.breaks (reindenting k) = s.breaks (reindenting k) := by
    rw [← breaks_bare hblank', h, breaks_bare hblank]
  -- only an owed space could tell the sites apart, and there the blanks agree with the separator
  unfold separator at hgap ⊢
  rw [hindent, hbreaks]
  cases hp : lastWritten? (reindenting k) s.before with
  | none =>
    rw [hp, Option.map_none, Option.map_eq_none_iff] at hlast
    rw [hlast]
  | some p =>
    rw [hp, Option.map_some, Option.map_eq_some_iff] at hlast
    obtain ⟨p', hp', hbare⟩ := hlast
    have hshown : shown (reindenting k) p' = shown (reindenting k) p := by
      rw [shown_reindenting, shown_reindenting]
      exact congrArg Token.value hbare
    rw [hp] at hgap
    rw [hp']
    dsimp only at hgap ⊢
    rw [hshown]
    by_cases hends : Page.endsLine (shown (reindenting k) p) = true
    · rw [if_pos hends, if_pos hends]
    · rw [if_neg hends] at hgap ⊢
      rw [if_neg hends]
      by_cases hbreak : s.breaks (reindenting k) = true
      · rw [if_pos hbreak, if_pos hbreak]
      · rw [if_neg hbreak] at hgap ⊢
        rw [if_neg hbreak]
        cases hsince : blankSince (reindenting k) s.before <;>
          cases hsince' : blankSince (reindenting k) s'.before <;> simp_all

end Site

end SqlLayout.Layout
