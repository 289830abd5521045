import Mathlib.Data.List.DropRight
import SqlLayout.Proofs.Layout.Nesting

/-!
# Reindentation as a description

Reindentation keeps a page, a stack, a flag for an owed space, the last token and a counter. The
layout can be described without them: what stands in front of a token follows from the tokens before
it and after it in the input (`Site.separator`). The two agree because each piece of the state is a
function of the tokens that were read (`Agrees`), and every step keeps it so (`Agrees.step`).
-/

namespace SqlLayout.Layout

variable {o : Options} {s : State} {t : Token} {before after : List Token}

/-! ## What the tokens before a place say -/

/-- The token is written: it is not blank, and no comment that is dropped. -/
def isWritten (o : Options) (t : Token) : Bool :=
  !t.kind.isBlank && !(o.removeComments && t.kind == .comment)

/-- The last of these tokens that is written. -/
def lastWritten? (o : Options) (before : List Token) : Option Token :=
  (before.filter (isWritten o)).getLast?

/-- A blank token stands after the last of these tokens that is written. -/
def blankSince (o : Options) (before : List Token) : Bool :=
  (before.rtakeWhile (!isWritten o ·)).any (·.kind.isBlank)

/-- How many of these tokens are written after the last `SELECT`, or at all if there is none. -/
def countSince (o : Options) (before : List Token) : Nat :=
  ((before.filter (isWritten o)).rtakeWhile (!·.isWord "SELECT")).length

theorem lastWritten?_concat :
    lastWritten? o (before ++ [t]) = if isWritten o t then some t else lastWritten? o before := by
  rw [lastWritten?, List.filter_append]
  by_cases ht : isWritten o t = true
  · simp [ht]
  · simp [ht, lastWritten?]

theorem blankSince_concat :
    blankSince o (before ++ [t]) =
      if isWritten o t then false else t.kind.isBlank || blankSince o before := by
  rw [blankSince]
  by_cases ht : isWritten o t = true
  · rw [List.rtakeWhile_concat_neg _ _ _ (by simp [ht]), if_pos ht]
    rfl
  · rw [List.rtakeWhile_concat_pos _ _ _ (by simp [ht]), if_neg ht, List.any_append, Bool.or_comm]
    simp [blankSince]

theorem countSince_concat :
    countSince o (before ++ [t]) =
      if isWritten o t then if t.isWord "SELECT" then 0 else countSince o before + 1
      else countSince o before := by
  rw [countSince, List.filter_append]
  by_cases ht : isWritten o t = true
  · have hfilter : [t].filter (isWritten o) = [t] := by simp [ht]
    rw [hfilter, if_pos ht]
    by_cases hselect : t.isWord "SELECT" = true
    · rw [List.rtakeWhile_concat_neg _ _ _ (by simp [hselect]), if_pos hselect]
      rfl
    · rw [List.rtakeWhile_concat_pos _ _ _ (by simp [hselect]), if_neg hselect, countSince,
        List.length_append, List.length_singleton]
  · have hfilter : [t].filter (isWritten o) = [] := by simp [ht]
    rw [hfilter, List.append_nil, if_neg ht, countSince]

/-! ## The description -/

/-- A token with the tokens before and after it. -/
structure Site where
  before : List Token
  token : Token
  after : List Token

/-- The sites of tokens that follow others. -/
def sitesFrom (before : List Token) : List Token → List Site
  | [] => []
  | t :: after => ⟨before, t, after⟩ :: sitesFrom (before ++ [t]) after

namespace Site

/-- The parentheses around the token, the innermost first: whether each holds a subquery. A closing
parenthesis stands within those that it closes. -/
def within (s : Site) : List Bool := unclosed s.before (s.token :: s.after)

/-- The parentheses that indent the token's line. A closing one stands outside what it closes. -/
def around (s : Site) : List Bool := if s.token.isMark ')' then s.within.tail else s.within

/-- Two spaces for each parenthesis around that holds a subquery. -/
def indentation (s : Site) : Text := (List.replicate (s.around.count true) indentUnit).flatten

/-- The token begins a line: it closes a subquery, is a comment, names a subquery, begins one,
follows the names of subqueries, or is a keyword that starts a clause. -/
def breaks (o : Options) (s : Site) : Bool :=
  s.token.isMark ')' && s.within.head? == some true ||
  s.token.kind == .comment ||
  s.token.kind == .name && headsSubquery s.after ||
  s.token.isWord "SELECT" &&
    (s.within.head? == some true ||
      s.within.isEmpty && (lastWritten? o s.before).any (·.isMark ')')) ||
  s.token.isWord "FROM" && o.fromBreakCount ≤ countSince o s.before ||
  breakingKeywords.any s.token.isWord

/-- What is written between the token and the one before it. -/
def separator (o : Options) (s : Site) : Text :=
  match lastWritten? o s.before with
  | none => []
  | some p =>
    if Page.endsLine (shown o p) then s.indentation
    else if s.breaks o then '\n' :: s.indentation
    else if blankSince o s.before then [' ']
    else []

end Site

/-- What is written for tokens that follow others. -/
def describedFrom (o : Options) (before ts : List Token) : Text :=
  ((sitesFrom before ts).filter fun s => isWritten o s.token).flatMap fun s =>
    s.separator o ++ shown o s.token

/-- The tokens that are written, each behind its separator. -/
def described (o : Options) (ts : List Token) : Text := describedFrom o [] ts

theorem describedFrom_cons (o : Options) (before : List Token) (t : Token) (after : List Token) :
    describedFrom o before (t :: after) =
      (if isWritten o t then (Site.mk before t after).separator o ++ shown o t else []) ++
        describedFrom o (before ++ [t]) after := by
  unfold describedFrom
  rw [sitesFrom, List.filter_cons]
  by_cases ht : isWritten o t = true
  · rw [if_pos ht, if_pos ht, List.flatMap_cons]
  · rw [if_neg ht, if_neg ht, List.nil_append]

/-! ## The state follows from the tokens before -/

/-- The state is the one that these tokens lead to, given the tokens after them. -/
structure Agrees (o : Options) (s : State) (before after : List Token) : Prop where
  levels : s.page.levels = unclosed before after
  last : s.last = lastWritten? o before
  line : s.page.lineHasContent = (lastWritten? o before).any fun p => !Page.endsLine (shown o p)
  owed : s.page.pendingSpace = blankSince o before
  count : s.sinceSelect = countSince o before

theorem Agrees.init (o : Options) (ts : List Token) : Agrees o {} [] ts :=
  ⟨rfl, rfl, rfl, rfl, rfl⟩

theorem isMark_of_kind {c : Char} (h : t.kind ≠ .punctuation) : t.isMark c = false := by
  simp [Token.isMark, h]

theorem kind_of_isMark {c : Char} (h : t.isMark c = true) : t.kind = .punctuation := by
  rw [Token.isMark, Bool.and_eq_true, beq_iff_eq] at h
  exact h.1

theorem ne_of_isKeyword {kind : Kind} (h : kind.isKeyword = true) :
    kind.isBlank = false ∧ (kind == .comment) = false ∧ (kind == .name) = false ∧
      (kind == .punctuation) = false := by
  revert h
  cases kind <;> decide

theorem isKeyword_of_isWord {v : String} (h : t.isWord v = true) : t.kind.isKeyword = true := by
  rw [Token.isWord, Bool.and_eq_true] at h
  exact h.1

theorem isWord_of_not_isKeyword {w : String} (h : t.kind.isKeyword = false) :
    t.isWord w = false := by
  rw [Token.isWord, h, Bool.false_and]

theorem isWord_eq_false {v w : String} (h : t.isWord v = true) (hne : v.toList ≠ w.toList) :
    t.isWord w = false := by
  rw [Token.isWord, Bool.and_eq_true, beq_iff_eq] at h
  rw [Token.isWord, h.2]
  simp [hne]

theorem any_breakingKeywords_eq_false {v : String} (h : t.isWord v = true)
    (hne : ∀ w ∈ breakingKeywords, v.toList ≠ w.toList) : breakingKeywords.any t.isWord = false :=
  List.any_eq_false.2 fun w hw => by simp [isWord_eq_false h (hne w hw)]

/-- The test that runs on the state is the one of the description. -/
theorem Agrees.beginsLine_eq (h : Agrees o s before (t :: after)) :
    beginsLine o s t after = (Site.mk before t after).breaks o := by
  have hnone : t.kind.isKeyword = false → breakingKeywords.any t.isWord = false := by
    intro hkey
    exact List.any_eq_false.2 fun w _ => by simp [isWord_of_not_isKeyword hkey]
  rw [beginsLine, Site.breaks, Site.within, h.levels, h.last, h.count]
  dsimp only
  generalize unclosed before (t :: after) = within
  -- the state is tested in turn, the description all at once: the sorts of tokens exclude each other
  by_cases hclose : t.isMark ')' = true
  · have hkey : t.kind.isKeyword = false := by rw [kind_of_isMark hclose]; rfl
    have hcomment : (t.kind == .comment) = false := by rw [kind_of_isMark hclose]; rfl
    have hname : (t.kind == .name) = false := by rw [kind_of_isMark hclose]; rfl
    rw [if_pos hclose, hnone hkey]
    cases within <;> simp [hclose, hcomment, hname, isWord_of_not_isKeyword hkey]
  · rw [if_neg hclose]
    by_cases hcomment : t.kind = .comment
    · simp [hcomment]
    · by_cases hname : t.kind = .name
      · have hkey : t.kind.isKeyword = false := by rw [hname]; rfl
        simp [hclose, hname, isWord_of_not_isKeyword hkey, hnone hkey]
      · by_cases hkey : t.kind.isKeyword = true
        · -- the three sorts of keywords exclude each other
          by_cases hselect : t.isWord "SELECT" = true
          · have hfrom := isWord_eq_false hselect (w := "FROM") (by decide)
            have hclause := any_breakingKeywords_eq_false hselect (by decide)
            cases within <;> simp [hclose, hcomment, hname, hkey, hselect, hfrom, hclause]
          · by_cases hfrom : t.isWord "FROM" = true
            · have hclause := any_breakingKeywords_eq_false hfrom (by decide)
              simp [hclose, hcomment, hname, hkey, hselect, hfrom, hclause]
            · simp [hclose, hcomment, hname, hkey, hselect, hfrom]
        · have hkey : t.kind.isKeyword = false := by simpa using hkey
          simp [hclose, hcomment, hname, hkey, isWord_of_not_isKeyword hkey, hnone hkey]

/-! ## What a step writes -/

theorem lineBreak_levels (p : Page) : p.lineBreak.levels = p.levels := by
  unfold Page.lineBreak
  split <;> rfl

/-- Before a text stands the indentation of a fresh line, or a space if one is owed. -/
theorem toText_write (p : Page) (x : Text) :
    (p.write x).out.toText =
      p.out.toText ++
        (if !p.lineHasContent then (List.replicate (p.levels.count true) indentUnit).flatten
          else if p.pendingSpace then [' '] else []) ++ x := by
  unfold Page.write Page.indentLevel
  dsimp only
  split
  · simp
  · split <;> simp

/-- On a new line it is the indentation, after a line feed unless the line was fresh already. -/
theorem toText_lineBreak_write (p : Page) (x : Text) :
    (p.lineBreak.write x).out.toText =
      p.out.toText ++
        ((if p.lineHasContent then ['\n'] else []) ++
          (List.replicate (p.levels.count true) indentUnit).flatten) ++ x := by
  rw [toText_write, lineBreak_levels, Page.lineBreak]
  by_cases hline : p.lineHasContent = true
  · simp [hline]
  · simp [hline]

/-- The page once a token's line is begun and its level, if it closes one, is left. -/
def readied (o : Options) (s : State) (t : Token) (following : List Token) : Page :=
  let page := if t.isMark ')' then s.page.pop else s.page
  if beginsLine o s t following then page.lineBreak else page

theorem place_eq (o : Options) (s : State) (t : Token) (following : List Token) :
    place o s t following =
      { page := if t.isMark '(' then
          ((readied o s t following).write (shown o t)).push (opensSubquery following)
          else (readied o s t following).write (shown o t)
        last := some t
        sinceSelect := if t.isWord "SELECT" then 0 else s.sinceSelect + 1 } := rfl

theorem readied_levels (o : Options) (s : State) (t : Token) (following : List Token) :
    (readied o s t following).levels =
      if t.isMark ')' then s.page.levels.tail else s.page.levels := by
  rw [readied]
  split
  · rw [lineBreak_levels]
    split <;> rfl
  · split <;> rfl

/-- The levels around a token: a closing parenthesis stands outside of what it closes. -/
def levelsAround (s : State) (t : Token) : List Bool :=
  if t.isMark ')' then s.page.levels.tail else s.page.levels

/-- The width of the indentation of a line that begins with the token. -/
def width (s : State) (t : Token) : Nat := 2 * (levelsAround s t).count true

/-- What stands between a token and the text before: a new line, the indentation of a fresh one,
or the space that is owed. -/
def gapBefore (o : Options) (s : State) (t : Token) (following : List Token) : Text :=
  if !s.page.lineHasContent then List.replicate (width s t) ' '
  else if beginsLine o s t following then '\n' :: List.replicate (width s t) ' '
  else if s.page.pendingSpace then [' '] else []

theorem flatten_replicate_indentUnit (n : Nat) :
    (List.replicate n indentUnit).flatten = List.replicate (2 * n) ' ' := by
  induction n with
  | zero => rfl
  | succ n ih =>
    rw [List.replicate_succ, List.flatten_cons, ih]
    rfl

theorem place_levels (o : Options) (s : State) (t : Token) (following : List Token) :
    (place o s t following).page.levels =
      if t.isMark '(' then holdsSelect following :: levelsAround s t else levelsAround s t := by
  have hlevels : ((readied o s t following).write (shown o t)).levels = levelsAround s t :=
    readied_levels o s t following
  rw [place_eq, ← opensSubquery_eq, ← hlevels]
  dsimp only
  split <;> rfl

theorem place_lineHasContent (o : Options) (s : State) (t : Token) (following : List Token) :
    (place o s t following).page.lineHasContent = !Page.endsLine (shown o t) := by
  rw [place_eq]
  dsimp only
  split <;> rfl

/-- A token is written behind its gap. -/
theorem toText_place (o : Options) (s : State) (t : Token) (following : List Token) :
    (place o s t following).page.out.toText =
      s.page.out.toText ++ gapBefore o s t following ++ shown o t := by
  have hpage : (place o s t following).page.out =
      ((readied o s t following).write (shown o t)).out := by
    rw [place_eq]
    dsimp only
    split <;> rfl
  obtain ⟨page, hready, hlevels, hline, howed, hout⟩ : ∃ page : Page,
      readied o s t following = (if beginsLine o s t following then page.lineBreak else page) ∧
        page.levels = levelsAround s t ∧ page.lineHasContent = s.page.lineHasContent ∧
        page.pendingSpace = s.page.pendingSpace ∧ page.out = s.page.out := by
    refine ⟨if t.isMark ')' then s.page.pop else s.page, rfl, ?_⟩
    rw [levelsAround]
    split <;> exact ⟨rfl, rfl, rfl, rfl⟩
  rw [hpage, hready, gapBefore, width, ← hlevels, ← hline, ← howed, ← hout]
  cases beginsLine o s t following with
  | true =>
    rw [if_pos rfl, toText_lineBreak_write, flatten_replicate_indentUnit]
    cases page.lineHasContent <;> rfl
  | false =>
    rw [if_neg Bool.false_ne_true, toText_write, flatten_replicate_indentUnit]
    cases page.lineHasContent <;> rfl

theorem unclosed_eq_nil {w following : List Token} (h : ∀ t ∈ w, t.isMark '(' = false) :
    unclosed w following = [] := by
  induction w with
  | nil => rfl
  | cons t w ih =>
    rw [unclosed, ih fun u hu => h u (by simp [hu]), h t (by simp)]
    simp

theorem isWritten_of_isMark {c : Char} (h : t.isMark c = true) : isWritten o t = true := by
  rw [isWritten, kind_of_isMark h]
  simp [Kind.isBlank]

/-- Nothing is open before the first token that is written. -/
theorem unclosed_of_lastWritten? (h : lastWritten? o before = none) (following : List Token) :
    unclosed before following = [] := by
  refine unclosed_eq_nil fun u hu => ?_
  rw [lastWritten?, List.getLast?_eq_none_iff, List.filter_eq_nil_iff] at h
  rw [← Bool.not_eq_true]
  intro hmark
  exact h u hu (isWritten_of_isMark hmark)

/-- The gap is the separator of the description. -/
theorem Agrees.gapBefore_eq (h : Agrees o s before (t :: after)) :
    gapBefore o s t after = (Site.mk before t after).separator o := by
  have hwidth : List.replicate (width s t) ' ' = (Site.mk before t after).indentation := by
    rw [Site.indentation, flatten_replicate_indentUnit, Site.around, Site.within, width,
      levelsAround, h.levels]
  rw [gapBefore, h.line, h.owed, h.beginsLine_eq, hwidth, Site.separator]
  dsimp only
  cases hlast : lastWritten? o before with
  | none =>
    -- the first token stands on a fresh line, and nothing is open around it
    rw [Option.any_none, Bool.not_false, if_pos rfl, Site.indentation, Site.around, Site.within,
      unclosed_of_lastWritten? hlast, List.tail_nil, ite_self]
    rfl
  | some p =>
    -- the line is fresh again if the last token ended it
    dsimp only
    rw [Option.any_some, Bool.not_not]

/-- A token is written behind its separator. -/
theorem Agrees.toText_place (h : Agrees o s before (t :: after)) :
    (place o s t after).page.out.toText =
      s.page.out.toText ++ ((Site.mk before t after).separator o ++ shown o t) := by
  rw [Layout.toText_place, h.gapBefore_eq, List.append_assoc]

/-- A token that is written leads to the state of one more token. -/
theorem Agrees.place (h : Agrees o s before (t :: after)) (ht : isWritten o t = true) :
    Agrees o (place o s t after) (before ++ [t]) after := by
  refine ⟨?_, ?_, ?_, ?_, ?_⟩
  · rw [place_levels, levelsAround, h.levels]
    by_cases hclose : t.isMark ')' = true
    · -- the innermost level is left, and none is entered
      rw [unclosed_concat_close hclose, isMark_eq_false hclose (d := '(') (by decide),
        if_neg Bool.false_ne_true, if_pos hclose]
    · have hclose : t.isMark ')' = false := by simpa using hclose
      rw [unclosed_concat_other hclose, hclose, if_neg Bool.false_ne_true]
      split <;> rfl
  · rw [lastWritten?_concat, if_pos ht]
    rfl
  · rw [lastWritten?_concat, if_pos ht, place_lineHasContent]
    rfl
  · rw [blankSince_concat, if_pos ht, place_eq]
    dsimp only
    split <;> rfl
  · rw [countSince_concat, if_pos ht, ← h.count]
    rfl

/-- A blank token leads to the state of one more token. -/
theorem Agrees.space (h : Agrees o s before (t :: after)) (ht : t.kind.isBlank = true) :
    Agrees o { s with page := s.page.space } (before ++ [t]) after := by
  have hwritten : isWritten o t = false := by rw [isWritten, ht]; rfl
  -- a blank is no parenthesis, so the levels stay
  have hmark : t.kind ≠ .punctuation := by
    intro hkind
    rw [hkind] at ht
    exact Bool.false_ne_true ht
  refine ⟨?_, ?_, ?_, ?_, ?_⟩
  · rw [unclosed_concat_other (isMark_of_kind hmark), isMark_of_kind hmark]
    exact h.levels
  · rw [lastWritten?_concat, hwritten]
    exact h.last
  · rw [lastWritten?_concat, hwritten]
    exact h.line
  · rw [blankSince_concat, hwritten, ht]
    rfl
  · rw [countSince_concat, hwritten]
    exact h.count

/-- A comment that is dropped leaves the state as it is. -/
theorem Agrees.drop (h : Agrees o s before (t :: after)) (hblank : t.kind.isBlank = false)
    (ht : isWritten o t = false) : Agrees o s (before ++ [t]) after := by
  have hmark : t.kind ≠ .punctuation := by
    intro hkind
    rw [isWritten, hkind] at ht
    simp [Kind.isBlank] at ht
  refine ⟨?_, ?_, ?_, ?_, ?_⟩
  · rw [unclosed_concat_other (isMark_of_kind hmark), isMark_of_kind hmark]
    exact h.levels
  · rw [lastWritten?_concat, ht]
    exact h.last
  · rw [lastWritten?_concat, ht]
    exact h.line
  · rw [blankSince_concat, ht, hblank]
    exact h.owed
  · rw [countSince_concat, ht]
    exact h.count

/-- One step of a reindenting run keeps the agreement and writes what is described. -/
theorem Agrees.step (h : Agrees o s before (t :: after)) (hreindent : o.reindent = true) :
    Agrees o (step o s t after) (before ++ [t]) after ∧
      (step o s t after).page.out.toText = s.page.out.toText ++
        if isWritten o t then (Site.mk before t after).separator o ++ shown o t else [] := by
  unfold Layout.step
  by_cases hdrop : (o.removeComments && t.kind == .comment) = true
  · have hwritten : isWritten o t = false := by rw [isWritten, hdrop]; simp
    have hblank : t.kind.isBlank = false := by
      rw [Bool.and_eq_true, beq_iff_eq] at hdrop
      rw [hdrop.2]
      rfl
    rw [if_pos hdrop, hwritten]
    exact ⟨h.drop hblank hwritten, by simp⟩
  · rw [if_neg hdrop, hreindent]
    by_cases hblank : t.kind.isBlank = true
    · have hwritten : isWritten o t = false := by rw [isWritten, hblank]; rfl
      rw [hblank, hwritten]
      refine ⟨h.space hblank, ?_⟩
      simp [Page.space]
    · have hwritten : isWritten o t = true := by
        rw [isWritten, Bool.not_eq_true] at *
        simp [hblank, hdrop]
      rw [hwritten, if_pos rfl]
      simp only [Bool.not_true, Bool.false_eq_true, if_false, hblank]
      exact ⟨h.place hwritten, h.toText_place⟩

/-! ## What a run writes -/

/-- So does a whole run. -/
theorem Agrees.toText_run {ts : List Token} (h : Agrees o s before ts)
    (hreindent : o.reindent = true) :
    (run o s ts).page.out.toText = s.page.out.toText ++ describedFrom o before ts := by
  induction ts generalizing s before with
  | nil => simp [run, describedFrom, sitesFrom]
  | cons t after ih =>
    obtain ⟨hagrees, hout⟩ := h.step hreindent
    rw [run, ih hagrees, hout, describedFrom_cons, List.append_assoc]

theorem format_eq_described (hreindent : o.reindent = true) (ts : List Token) :
    format o ts = described o ts :=
  (Agrees.init o ts).toText_run hreindent

/-- Reindentation writes each token behind the separator that its surroundings ask for. -/
theorem format_reindented (o : Options) (ts : List Token) :
    format { o with reindent := true } ts = described { o with reindent := true } ts :=
  format_eq_described rfl ts

end SqlLayout.Layout
