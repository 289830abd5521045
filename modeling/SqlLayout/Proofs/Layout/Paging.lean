import Mathlib.Data.List.DropRight
import SqlLayout.Proofs.Layout.Declared

/-!
# A page in any use

Levels, spaces, texts and line ends may come to a page in any order. Whether its line has content is
kept beside the text, and so is the length of the text; both are facts of the text alone, whatever
was done before (`Keeps`). So what the next use writes is said by the text so far, the levels that
are open, and whether a space was asked for since the last text or line end (`execAll_accounts`).
-/

namespace SqlLayout

/-! ## The length of a text under construction -/

namespace Buffer

/-- The length that is kept is that of the text. -/
def IsMeasured (b : Buffer) : Prop := b.length = b.toText.length

theorem IsMeasured.append {b : Buffer} (h : b.IsMeasured) (t : Text) : (b.append t).IsMeasured := by
  unfold IsMeasured
  rw [length_append, toText_append, List.length_append, h]

theorem IsMeasured.appendRepeated {b : Buffer} (h : b.IsMeasured) (t : Text) (count : Int) :
    (b.appendRepeated t count).IsMeasured :=
  h.append _

end Buffer

namespace Page

/-! ## Uses -/

/-- What may be done to a page. -/
inductive Use where
  | push (indents : Bool)
  | pop
  | space
  /-- A text that is written is not empty. -/
  | write (text : Text) (filled : text ≠ [])
  | lineBreak

/-- Uses a page once. -/
def exec (p : Page) : Use → Page
  | .push indents => p.push indents
  | .pop => p.pop
  | .space => p.space
  | .write text _ => p.write text
  | .lineBreak => p.lineBreak

/-- Uses a page again and again. -/
def execAll (p : Page) (us : List Use) : Page := us.foldl exec p

namespace Use

/-- Asks for a space. -/
def asks : Use → Bool
  | .space => true
  | _ => false

/-- Leaves no space owed: a text or a line end. -/
def settles : Use → Bool
  | .write _ _ | .lineBreak => true
  | _ => false

/-- Opens or closes a level. -/
def turn (levels : List Bool) : Use → List Bool
  | .push indents => indents :: levels
  | .pop => levels.tail
  | _ => levels

end Use

/-- The levels that were opened and not closed, the innermost first. -/
def levelsOf (us : List Use) : List Bool := us.foldl Use.turn []

/-- A space was asked for since the last text or line end. -/
def spaceSince (us : List Use) : Bool := (us.rtakeWhile (!·.settles)).any Use.asks

/-- What is written next begins a line. -/
def isFresh (x : Text) : Bool := x.getLast?.all fun c => c == '\n' || c == '\r'

variable {us : List Use} {p : Page}

theorem levelsOf_concat (us : List Use) (u : Use) :
    levelsOf (us ++ [u]) = u.turn (levelsOf us) := by
  unfold levelsOf
  rw [List.foldl_append]
  rfl

theorem spaceSince_concat (us : List Use) (u : Use) :
    spaceSince (us ++ [u]) = if u.settles then false else u.asks || spaceSince us := by
  unfold spaceSince
  by_cases hu : u.settles = true
  · rw [List.rtakeWhile_concat_neg _ _ _ (by simp [hu]), if_pos hu]
    rfl
  · rw [List.rtakeWhile_concat_pos _ _ _ (by simp [hu]), if_neg hu, List.any_append, Bool.or_comm]
    simp

/-- The last text that is written says whether it ends a line. -/
theorem isFresh_append (x : Text) {t : Text} (ht : t ≠ []) : isFresh (x ++ t) = endsLine t := by
  obtain ⟨c, hc⟩ := Option.ne_none_iff_exists'.1 (mt List.getLast?_eq_none_iff.1 ht)
  unfold isFresh endsLine
  rw [List.getLast?_append, hc]
  rfl

theorem isFresh_eq_false_iff {x : Text} :
    isFresh x = false ↔ ∃ c, x.getLast? = some c ∧ c ≠ '\n' ∧ c ≠ '\r' := by
  unfold isFresh
  cases x.getLast? with
  | none => simp
  | some c => simp

/-! ## What a page keeps -/

/-- What the page keeps is what its uses and its text say. -/
structure Keeps (us : List Use) (p : Page) : Prop where
  levels : p.levels = levelsOf us
  line : p.lineHasContent = !isFresh p.out.toText
  owed : p.pendingSpace = spaceSince us
  measured : p.out.IsMeasured

theorem Keeps.init : Keeps [] {} := ⟨rfl, rfl, rfl, rfl⟩

/-- The buffer of a page after a text: what was there, what is put in front, and the text. -/
theorem Keeps.toText_write (h : Keeps us p) (t : Text) :
    (p.write t).out.toText = p.out.toText ++
      (if isFresh p.out.toText then List.replicate (2 * (levelsOf us).count true) ' '
        else if spaceSince us then [' '] else []) ++ t := by
  rw [Layout.toText_write, Layout.flatten_replicate_indentUnit, h.line, h.levels, h.owed,
    Bool.not_not]

theorem Keeps.toText_lineBreak (h : Keeps us p) :
    p.lineBreak.out.toText = p.out.toText ++ if isFresh p.out.toText then [] else ['\n'] := by
  unfold lineBreak
  rw [h.line]
  cases isFresh p.out.toText <;> simp

theorem Keeps.write (h : Keeps us p) {t : Text} (ht : t ≠ []) :
    Keeps (us ++ [.write t ht]) (p.write t) where
  levels := by
    rw [levelsOf_concat]
    exact h.levels
  line := by
    rw [h.toText_write, isFresh_append _ ht]
    rfl
  owed := by
    rw [spaceSince_concat]
    rfl
  measured := by
    unfold Page.write
    dsimp only
    split
    · exact (h.measured.appendRepeated _ _).append t
    · split
      · exact (h.measured.append _).append t
      · exact h.measured.append t

theorem Keeps.lineBreak (h : Keeps us p) : Keeps (us ++ [.lineBreak]) p.lineBreak where
  levels := by
    rw [levelsOf_concat, Layout.lineBreak_levels]
    exact h.levels
  line := by
    rw [h.toText_lineBreak]
    unfold Page.lineBreak
    by_cases hfresh : isFresh p.out.toText = true
    · have hline : p.lineHasContent = false := by rw [h.line, hfresh]; rfl
      simp [hline, hfresh]
    · have hline : p.lineHasContent = true := by rw [h.line]; simpa using hfresh
      rw [if_pos hline, if_neg hfresh, isFresh_append _ (List.cons_ne_nil _ _)]
      rfl
  owed := by
    rw [spaceSince_concat]
    unfold Page.lineBreak
    split
    · rfl
    · rfl
  measured := by
    unfold Page.lineBreak
    split
    · exact h.measured.append _
    · exact h.measured

/-- Every use keeps it so. -/
theorem Keeps.exec (h : Keeps us p) (u : Use) : Keeps (us ++ [u]) (p.exec u) := by
  cases u with
  | write t ht => exact h.write ht
  | lineBreak => exact h.lineBreak
  | push indents =>
    refine ⟨?_, h.line, ?_, h.measured⟩
    · rw [levelsOf_concat, ← h.levels]
      rfl
    · rw [spaceSince_concat, ← h.owed]
      rfl
  | pop =>
    refine ⟨?_, h.line, ?_, h.measured⟩
    · rw [levelsOf_concat, ← h.levels]
      rfl
    · rw [spaceSince_concat, ← h.owed]
      rfl
  | space =>
    refine ⟨?_, h.line, ?_, h.measured⟩
    · rw [levelsOf_concat]
      exact h.levels
    · rw [spaceSince_concat]
      rfl

theorem keeps_execAll (us : List Use) : Keeps us (execAll {} us) := by
  induction us using List.reverseRecOn with
  | nil => exact .init
  | append_singleton us u ih =>
    unfold execAll
    rw [List.foldl_append]
    exact ih.exec u

/-! ## What a use writes -/

/-- Levels and spaces write nothing at once. -/
theorem out_exec_of_not_settles {u : Use} (hu : u.settles = false) (p : Page) :
    (p.exec u).out = p.out := by
  cases u with
  | push indents => rfl
  | pop => rfl
  | space => rfl
  | write t ht => exact Bool.noConfusion hu
  | lineBreak => exact Bool.noConfusion hu

theorem Keeps.prefix_exec (h : Keeps us p) (u : Use) : p.out.toText <+: (p.exec u).out.toText := by
  cases u with
  | push indents => exact List.prefix_refl _
  | pop => exact List.prefix_refl _
  | space => exact List.prefix_refl _
  | write t ht =>
    show p.out.toText <+: (p.write t).out.toText
    rw [h.toText_write, List.append_assoc]
    exact List.prefix_append _ _
  | lineBreak => exact ⟨_, h.toText_lineBreak.symm⟩

/-- A page after these uses, and what the next use writes on it. -/
structure Accounts (us : List Use) (p : Page) : Prop where
  /-- The line has content exactly if there is a text, and its last character is no line end. -/
  line : p.lineHasContent = true ↔ ∃ c, p.out.toText.getLast? = some c ∧ c ≠ '\n' ∧ c ≠ '\r'
  length : p.out.length = p.out.toText.length
  grows : ∀ u, p.out.toText <+: (p.exec u).out.toText
  waits : ∀ u : Use, u.settles = false → (p.exec u).out.toText = p.out.toText
  /-- A line is ended once, and one that is fresh not at all. -/
  breaks : (p.exec .lineBreak).out.toText =
    p.out.toText ++ if isFresh p.out.toText then [] else ['\n']
  /-- A text on a fresh line stands behind two spaces for each open level that indents, and
  elsewhere behind the space that was asked for. -/
  writes : ∀ t ht, (p.exec (.write t ht)).out.toText = p.out.toText ++
    (if isFresh p.out.toText then List.replicate (2 * (levelsOf us).count true) ' '
      else if spaceSince us then [' '] else []) ++ t

/-- In whatever way a page was used, its flag and its length are those of its text, and the next use
adds to the text what the text, the open levels and the owed space ask for. -/
theorem execAll_accounts (us : List Use) : Accounts us (execAll {} us) := by
  have h := keeps_execAll us
  refine ⟨?_, h.measured, h.prefix_exec, fun u hu => ?_, h.toText_lineBreak,
    fun t _ => h.toText_write t⟩
  · rw [h.line, Bool.not_eq_true', isFresh_eq_false_iff]
  · rw [out_exec_of_not_settles hu]

/-- A space before a line end is forgotten, and an empty line is not ended again. -/
example : (execAll {} [.write "a".toList (by decide), .push true, .space, .lineBreak, .lineBreak,
    .write "b".toList (by decide), .space, .write "c".toList (by decide)]).out.toText =
      "a\n  b c".toList := by decide

end Page

end SqlLayout
