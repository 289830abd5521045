import SqlLayout.Proofs.Layout.Emitted
import SqlLayout.Proofs.Text.Lines

/-!
# A reindented page by its lines

A token that is written fills a part of one line, and may end it (`isStroke_shown`). So a step either
goes on with the current line of the page or begins a new one, which is indented by the levels then
open (`Shows.place`).

Tokens of the beginning of a run are taken with a view of the tokens behind them (`runBefore`).
-/

namespace SqlLayout

/-! ## Texts that fill a part of a line -/

namespace Text

theorem isOneLine_of_isSolid {w : Text} (h : IsSolid w) : IsOneLine w := by
  have hends : isBlank '\n' = true ∧ isBlank '\r' = true := by decide
  intro c hc
  have hsolid := h c hc
  constructor <;> rintro rfl
  · exact Bool.noConfusion (hsolid.symm.trans hends.1)
  · exact Bool.noConfusion (hsolid.symm.trans hends.2)

theorem isOneLine_intercalate {ws : List Text} (h : ∀ w ∈ ws, IsOneLine w) :
    IsOneLine ([' '].intercalate ws) := by
  induction ws with
  | nil => exact nofun
  | cons w ws ih =>
    obtain ⟨hw, hws⟩ := List.forall_mem_cons.1 h
    by_cases hnil : ws = []
    · rw [hnil, List.intercalate_singleton]
      exact hw
    · rw [List.intercalate_cons_of_ne_nil hnil]
      intro c hc
      rcases List.mem_append.1 hc with hc | hc
      · rcases List.mem_append.1 hc with hc | hc
        · exact hw c hc
        · rw [List.mem_singleton.1 hc]
          decide
      · exact ih hws c hc

theorem isOneLine_collapse (v : Text) : IsOneLine (collapse v) :=
  isOneLine_intercalate fun _ hw => isOneLine_of_isSolid (mem_words hw).2

/-- The text begins with no blank, and only its end may be that of a line. -/
def IsStroke (x : Text) : Prop :=
  ∃ c w term, x = c :: w ++ term ∧ isBlank c = false ∧ IsOneLine (c :: w) ∧
    (term = [] ∨ term ∈ lineEnds)

theorem isStroke_of_isOneLine {x : Text} (hne : x ≠ []) (hhead : x.head?.any isBlank = false)
    (h : IsOneLine x) : IsStroke x := by
  obtain ⟨c, w, rfl⟩ := List.exists_cons_of_ne_nil hne
  exact ⟨c, w, [], by simp, hhead, h, .inl rfl⟩

end Text

/-! ## Texts of tokens -/

namespace Sql

open Lexer Text

variable {b v r s : Text} {kind : Kind} {t : Token}

/-- Blank pieces and comments end lines, and quoted texts may hold ends; of keywords the blanks
between their words are left. -/
theorem Piece.isOneLine (h : Piece b v r kind) (hblank : kind.isBlank = false)
    (hcomment : kind ≠ .comment) (hkeyword : kind ≠ .keyword)
    (hstring : kind = .string → IsOneLine v) : IsOneLine v := by
  have hlisted : ∀ {l : Text}, (∀ x ∈ v, x ∈ l) → (∀ x ∈ l, x ≠ '\n' ∧ x ≠ '\r') → IsOneLine v :=
    fun hv hl x hx => hl x (hv x hx)
  cases h with
  | lineEnds => exact absurd hblank (by decide)
  | blanks => exact absurd hblank (by decide)
  | star => exact hlisted (fun _ hx => hx) (by decide)
  | point => exact hlisted (fun _ hx => hx) (by decide)
  | mark hx =>
    refine hlisted (l := ";()[],".toList) (fun y hy => ?_) (by decide)
    exact List.mem_singleton.1 hy ▸ fits_of_lead hx
  | comparison _ run => exact hlisted (fun x hx => of_decide_eq_true (run.all x hx)) (by decide)
  | sign _ run =>
    exact hlisted (l := "+/@#%^&|-".toList) (fun x hx => of_decide_eq_true (run.all x hx)) (by decide)
  | hyphen _ _ run =>
    exact hlisted (l := "+/@#%^&|-".toList) (fun x hx => of_decide_eq_true (run.all x hx)) (by decide)
  | comment => exact absurd rfl hcomment
  | number _ h => exact isOneLine_of_isSolid (untouched_of_numberRules h).2.2.solid
  | singleQuoted => exact hstring rfl
  | backQuoted => exact hstring rfl
  | phrase h => exact absurd (kind_of_phraseRules h) hkeyword
  | word _ _ run => exact isOneLine_of_isSolid run.isSolid
  | digits _ _ run => exact isOneLine_of_isSolid run.isSolid

theorem Cut.isOneLine_settled (h : Cut b t r) (hblank : t.kind.isBlank = false)
    (hcomment : t.kind ≠ .comment) (hstring : t.kind = .string → IsOneLine t.value) :
    IsOneLine t.settled := by
  rw [Token.settled]
  split
  · exact isOneLine_collapse t.value
  · next hkeyword =>
    obtain ⟨kind, hpiece, -, ⟨rfl, -⟩ | ⟨rfl, -, -⟩⟩ := h.exists_piece
    · refine hpiece.isOneLine hblank hcomment ?_ hstring
      intro hkind
      rw [hkind] at hkeyword
      exact hkeyword rfl
    · exact isOneLine_of_isSolid hpiece.isSolid_of_word

theorem IsComment.isStroke (h : IsComment v r) : IsStroke v := by
  obtain ⟨body, term, rfl, hbody, hterm⟩ := h
  refine ⟨'-', '-' :: body, term, rfl, by decide, ?_, ?_⟩
  · intro c hc
    have hall : ∀ x ∈ ['-', '-'], x ≠ '\n' ∧ x ≠ '\r' := by decide
    rcases List.mem_append.1 (show c ∈ ['-', '-'] ++ body from hc) with hc | hc
    · exact hall c hc
    · have hends := hbody c hc
      simp only [endsNoLine, Bool.not_eq_true', decide_eq_false_iff_not] at hends
      simp at hends
      exact ⟨hends.2, hends.1⟩
  · rcases hterm with rfl | ⟨rfl, -⟩ | rfl | ⟨rfl, -⟩
    · exact .inr (by decide)
    · exact .inr (by decide)
    · exact .inr (by decide)
    · exact .inl rfl

/-- Every token of a query is cut from it. -/
theorem exists_cut_of_mem_tokens (h : t ∈ tokens s) : ∃ b r, Cut b t r :=
  ⟨_, _, (cut_of_mem_tokens h).2⟩

end Sql

namespace Layout

open Text Sql

variable {o : Options} {s : State} {t : Token} {x b r : Text} {following before after : List Token}

theorem isOneLine_of_mem_upperKeywords :
    ∀ v ∈ upperKeywords, v ≠ [] ∧ v.head?.any isBlank = false ∧ v.getLast?.any isBlank = false ∧
      ∀ c ∈ v, c ≠ '\n' ∧ c ≠ '\r' := by
  decide +kernel

/-- With reindentation a token is written with single spaces, a keyword perhaps in upper case. -/
theorem shown_cases (hreindent : o.reindent = true) (h : Cut b t r) :
    shown o t ∈ upperKeywords ∨ shown o t = t.settled := by
  by_cases hupper : o.uppercaseKeywords = true ∧ t.kind = .keyword
  · left
    have hshown : shown o t = Text.upper (Text.collapse t.value) := by
      rw [shown, hupper.2, hupper.1, hreindent]
      rfl
    rw [hshown]
    exact mem_upperKeywords_of_cut h hupper.2
  · right
    rw [shown, Token.settled, hreindent]
    have hplain : (o.uppercaseKeywords && t.kind == .keyword) = false := by simpa using hupper
    rw [hplain]
    cases t.kind.isKeyword <;> rfl

theorem head_shown (hreindent : o.reindent = true) (h : Cut b t r)
    (hblank : t.kind.isBlank = false) :
    shown o t ≠ [] ∧ (shown o t).head?.any isBlank = false := by
  rcases shown_cases hreindent h with hupper | hshown
  · obtain ⟨hne, hhead, -⟩ := isOneLine_of_mem_upperKeywords _ hupper
    exact ⟨hne, hhead⟩
  · rw [hshown]
    refine ⟨h.settled_ne_nil, ?_⟩
    rw [h.head?_settled]
    exact (h.isEdged hblank).head

/-- All tokens but comments stay on one line and end with no blank. -/
theorem isOneLine_shown (hreindent : o.reindent = true) (h : Cut b t r)
    (hblank : t.kind.isBlank = false) (hcomment : t.kind ≠ .comment)
    (hstring : t.kind = .string → IsOneLine t.value) :
    IsOneLine (shown o t) ∧ (shown o t).getLast?.any isBlank = false := by
  rcases shown_cases hreindent h with hupper | hshown
  · obtain ⟨-, -, hlast, hline⟩ := isOneLine_of_mem_upperKeywords _ hupper
    exact ⟨hline, hlast⟩
  · rw [hshown]
    refine ⟨h.isOneLine_settled hblank hcomment hstring, ?_⟩
    rw [h.getLast?_settled]
    exact (h.isEdged hblank).last.resolve_left hcomment

theorem shown_of_comment (h : t.kind = .comment) : shown o t = t.value := by
  rw [shown, h]
  rfl

/-- With reindentation every token of a query fills a part of a line. -/
theorem isStroke_shown (hreindent : o.reindent = true) (h : Cut b t r)
    (hblank : t.kind.isBlank = false) (hstring : t.kind = .string → IsOneLine t.value) :
    IsStroke (shown o t) := by
  by_cases hcomment : t.kind = .comment
  · rw [shown_of_comment hcomment]
    exact (h.isComment hcomment).isStroke
  · obtain ⟨hne, hhead⟩ := head_shown hreindent h hblank
    exact isStroke_of_isOneLine hne hhead
      (isOneLine_shown hreindent h hblank hcomment hstring).1

theorem shown_of_isMark {c : Char} (h : t.isMark c = true) : shown o t = [c] := by
  rw [Token.isMark, Bool.and_eq_true, beq_iff_eq, beq_iff_eq] at h
  rw [shown, h.1, h.2]
  rfl

/-! ## The beginning of a run -/

/-- Takes the first tokens of a list, given the others. -/
def runBefore (o : Options) (s : State) : List Token → List Token → State
  | [], _ => s
  | t :: before, after => runBefore o (step o s t (before ++ after)) before after

theorem runBefore_append (o : Options) (s : State) (before mid after : List Token) :
    runBefore o s (before ++ mid) after =
      runBefore o (runBefore o s before (mid ++ after)) mid after := by
  induction before generalizing s with
  | nil => rfl
  | cons t before ih =>
    rw [List.cons_append, runBefore, runBefore, ih, List.append_assoc]

theorem runBefore_concat (o : Options) (s : State) (before : List Token) (t : Token)
    (after : List Token) :
    runBefore o s (before ++ [t]) after = step o (runBefore o s before (t :: after)) t after := by
  rw [runBefore_append]
  rfl

theorem run_append (o : Options) (s : State) (before after : List Token) :
    run o s (before ++ after) = run o (runBefore o s before after) after := by
  induction before generalizing s with
  | nil => rfl
  | cons t before ih => rw [List.cons_append, run, ih, runBefore]

theorem agrees_runBefore (hreindent : o.reindent = true) (before after : List Token) :
    Agrees o (runBefore o {} before after) before after := by
  induction before using List.reverseRecOn generalizing after with
  | nil => exact .init o after
  | append_singleton before t ih =>
    rw [runBefore_concat]
    exact ((ih (t :: after)).step hreindent).1

/-- The text of the page once the first tokens are taken, given the others. -/
def written (o : Options) (before after : List Token) : Text :=
  (runBefore o {} before after).page.out.toText

theorem prefix_written_concat (hreindent : o.reindent = true) (before : List Token) (t : Token)
    (after : List Token) : written o before (t :: after) <+: written o (before ++ [t]) after := by
  rw [written, written, runBefore_concat,
    ((agrees_runBefore hreindent before (t :: after)).step hreindent).2]
  exact List.prefix_append _ _

theorem prefix_written_append (hreindent : o.reindent = true) (before mid after : List Token) :
    written o before (mid ++ after) <+: written o (before ++ mid) after := by
  induction mid using List.reverseRecOn generalizing after with
  | nil => rw [List.append_nil, List.nil_append]
  | append_singleton mid t ih =>
    rw [← List.append_assoc, List.append_assoc mid]
    exact (ih ([t] ++ after)).trans (prefix_written_concat hreindent _ t after)

theorem written_all (o : Options) (ts : List Token) : written o ts [] = format o ts := by
  rw [written, format, ← List.append_nil ts, run_append, List.append_nil]
  rfl

/-! ## Tokens that are not written -/

/-- A token that is not written changes neither the text nor the line nor the levels. -/
theorem step_of_not_isWritten (hreindent : o.reindent = true) (ht : isWritten o t = false)
    (s : State) (following : List Token) :
    (step o s t following).page.out = s.page.out ∧
      (step o s t following).page.levels = s.page.levels ∧
      (step o s t following).page.lineHasContent = s.page.lineHasContent := by
  rw [step, hreindent]
  by_cases hdrop : (o.removeComments && t.kind == .comment) = true
  · rw [if_pos hdrop]
    exact ⟨rfl, rfl, rfl⟩
  · have hblank : t.kind.isBlank = true := by
      rw [isWritten, Bool.eq_false_iff.2 hdrop] at ht
      simpa using ht
    rw [if_neg hdrop, hblank]
    exact ⟨rfl, rfl, rfl⟩

theorem step_of_isWritten (hreindent : o.reindent = true) (ht : isWritten o t = true) (s : State)
    (following : List Token) : step o s t following = place o s t following := by
  rw [isWritten, Bool.and_eq_true, Bool.not_eq_true', Bool.not_eq_true'] at ht
  rw [step, ht.2, hreindent, ht.1]
  rfl

theorem isBlank_of_isWritten (h : isWritten o t = true) : t.kind.isBlank = false := by
  rw [isWritten, Bool.and_eq_true, Bool.not_eq_true'] at h
  exact h.1

/-! ## Tokens that are written -/

/-- What a token adds to the text. -/
theorem written_concat (hreindent : o.reindent = true) (ht : isWritten o t = true)
    (before following : List Token) :
    written o (before ++ [t]) following =
      written o before (t :: following) ++
        gapBefore o (runBefore o {} before (t :: following)) t following ++ shown o t := by
  rw [written, runBefore_concat, step_of_isWritten hreindent ht, toText_place, written]

theorem written_skip (hreindent : o.reindent = true) (ht : isWritten o t = false)
    (before following : List Token) :
    written o (before ++ [t]) following = written o before (t :: following) := by
  rw [written, runBefore_concat, (step_of_not_isWritten hreindent ht _ following).1, written]

theorem prefix_written_format (hreindent : o.reindent = true) (before after : List Token) :
    written o before after <+: format o (before ++ after) := by
  have hprefix := prefix_written_append hreindent before after []
  rwa [List.append_nil, written_all] at hprefix

/-- What was written before some tokens is in front of the token after them. -/
theorem prefix_of_written_concat (hreindent : o.reindent = true) (ht : isWritten o t = true)
    {mid : List Token} (h : written o (before ++ mid ++ [t]) after = x ++ shown o t) :
    written o before (mid ++ t :: after) <+: x := by
  rw [written_concat hreindent ht] at h
  rw [← List.append_cancel_right h]
  exact (prefix_written_append hreindent before mid (t :: after)).trans (List.prefix_append _ _)

/-! ## Steps by the line -/

/-- These are the lines of a text that ends like the page: the current one is empty if it has no
content. -/
structure Shows (s : State) (x : Text) (ls : List Text) (l : Text) : Prop where
  lines : Text.lines x = ls ++ [l]
  fresh : s.page.lineHasContent = false → l = []
  whole : s.page.lineHasContent = true → x.getLast? ≠ some '\r'

/-- A token begins a line, or it goes on with the current one. -/
inductive Turns (o : Options) (s : State) (t : Token) (following : List Token) (ls : List Text)
    (l : Text) : List Text → Text → Prop
  | stays (hcontent : s.page.lineHasContent = true) (hbegins : beginsLine o s t following = false)
      (gap : Text) : Turns o s t following ls l ls (l ++ gap)
  | ends (hcontent : s.page.lineHasContent = true) (hbegins : beginsLine o s t following = true) :
      Turns o s t following ls l (ls ++ [l]) (List.replicate (width s t) ' ')
  | fresh (hcontent : s.page.lineHasContent = false) :
      Turns o s t following ls l ls (List.replicate (width s t) ' ')

variable {ls : List Text} {l : Text}

theorem isOneLine_replicate (n : Nat) : IsOneLine (List.replicate n ' ') := by
  intro c hc
  rw [List.eq_of_mem_replicate hc]
  decide

/-- Lines in front of a token. -/
theorem Shows.turns (h : Shows s x ls l) (o : Options) (t : Token) (following : List Token) :
    ∃ ls' l', Turns o s t following ls l ls' l' ∧
      Text.lines (x ++ gapBefore o s t following) = ls' ++ [l'] := by
  rw [gapBefore]
  cases hcontent : s.page.lineHasContent with
  | false =>
    refine ⟨_, _, .fresh hcontent, ?_⟩
    have hl := h.fresh hcontent
    have hlines := lines_append_isOneLine h.lines (isOneLine_replicate (width s t))
    rwa [hl, List.nil_append] at hlines
  | true =>
    cases hbegins : beginsLine o s t following with
    | true =>
      refine ⟨_, _, .ends hcontent hbegins, ?_⟩
      have hend := lines_append_lineEnd h.lines (by decide : ['\n'] ∈ lineEnds) (h.whole hcontent)
      rw [show ls ++ [l, []] = ls ++ [l] ++ [[]] by simp] at hend
      have hlines := lines_append_isOneLine hend (isOneLine_replicate (width s t))
      rw [List.append_assoc] at hlines
      exact hlines
    | false =>
      have hspace : IsOneLine (if s.page.pendingSpace then [' '] else []) := by
        cases s.page.pendingSpace with
        | false => exact isOneLine_replicate 0
        | true => exact isOneLine_replicate 1
      exact ⟨_, _, .stays hcontent hbegins _, lines_append_isOneLine h.lines hspace⟩

theorem endsLine_append {w term : Text} {c : Char} (hline : IsOneLine (c :: w))
    (hterm : term = [] ∨ term ∈ lineEnds) :
    Page.endsLine (c :: w ++ term) = true ↔ term ∈ lineEnds := by
  rw [Page.endsLine]
  rcases hterm with rfl | hterm
  · refine iff_of_false ?_ (by decide)
    rw [List.append_nil]
    cases hlast : (c :: w).getLast? with
    | none => simp
    | some y =>
      obtain ⟨hfeed, hreturn⟩ := hline y (List.mem_of_getLast? hlast)
      simp [hfeed, hreturn]
  · refine iff_of_true ?_ hterm
    have hall : ∀ e ∈ lineEnds, e ≠ [] ∧ e.getLast?.any (fun c => c == '\n' || c == '\r') = true := by
      decide
    obtain ⟨hne, hlast⟩ := hall term hterm
    rwa [List.getLast?_append_of_ne_nil _ hne]

/-- Lines behind a token: it is added to a line, which it may end. -/
theorem Shows.place (h : Shows s x ls l) (hstroke : IsStroke (shown o t)) (following : List Token) :
    ∃ ls' l' c w, Turns o s t following ls l ls' l' ∧ isBlank c = false ∧
      let y := x ++ gapBefore o s t following ++ shown o t
      ((Layout.place o s t following).page.lineHasContent = true ∧
          Shows (Layout.place o s t following) y ls' (l' ++ c :: w) ∨
        (Layout.place o s t following).page.lineHasContent = false ∧
          Shows (Layout.place o s t following) y (ls' ++ [l' ++ c :: w]) []) := by
  obtain ⟨ls', l', hturns, hlines⟩ := h.turns o t following
  obtain ⟨c, w, term, hshown, hc, hline, hterm⟩ := hstroke
  refine ⟨ls', l', c, w, hturns, hc, ?_⟩
  have hstem := lines_append_isOneLine hlines hline
  have hwhole : (x ++ gapBefore o s t following ++ c :: w).getLast? ≠ some '\r' :=
    getLast?_ne_of_lines hstem (by simp)
  have hcontent := place_lineHasContent o s t following
  rw [hshown, ← List.append_assoc]
  by_cases hends : term ∈ lineEnds
  · rw [hshown, (endsLine_append hline hterm).2 hends] at hcontent
    refine .inr ⟨hcontent, ?_, fun _ => rfl, fun htrue => ?_⟩
    · rw [lines_append_lineEnd hstem hends hwhole, List.append_assoc]
      rfl
    · rw [hcontent] at htrue
      exact Bool.noConfusion htrue
  · rw [hshown, Bool.eq_false_iff.2 (mt (endsLine_append hline hterm).1 hends)] at hcontent
    obtain rfl := hterm.resolve_right hends
    rw [List.append_nil]
    refine .inl ⟨hcontent, hstem, fun hfalse => ?_, fun _ => hwhole⟩
    rw [hcontent] at hfalse
    exact Bool.noConfusion hfalse

end Layout

end SqlLayout
