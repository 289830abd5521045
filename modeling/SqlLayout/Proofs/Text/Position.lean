import Mathlib.Algebra.GroupWithZero.Nat
import Mathlib.Data.List.Basic
import SqlLayout.Text.Basic

/-!
# Places by line and column

Splitting a text at its line feeds gives its lines. `IsPlace` says which line and which column an
offset has: the lines before it, each with its line feed, and the columns before it make up the
offset. Every offset has one such place (`isPlace_lineAt`) and no other (`IsPlace.unique`).
-/

namespace SqlLayout.Text

variable {t r w l : Text} {ls ms : List Text} {offset line column line' column' : Nat}

/-- How many characters these lines have together with the line feed behind each of them. -/
def extent (ls : List Text) : Nat := (ls.map fun l => l.length + 1).sum

/-- The character at this offset stands in this column of this line. The line feed stands behind the
last character of its line, and the end of the text behind that of its last line. -/
def IsPlace (t : Text) (offset line column : Nat) : Prop :=
  ∃ before row after, t.splitOn '\n' = before ++ row :: after ∧ line = before.length + 1 ∧
    offset = extent before + (column - 1) ∧ 1 ≤ column ∧ column ≤ row.length + 1

/-! ## Lines -/

@[simp] theorem extent_cons (l : Text) (ls : List Text) :
    extent (l :: ls) = l.length + 1 + extent ls := by
  unfold extent
  rw [List.map_cons, List.sum_cons]

theorem extent_append (ls ms : List Text) : extent (ls ++ ms) = extent ls + extent ms := by
  unfold extent
  rw [List.map_append, List.sum_append]

theorem splitOn_cons_feed (t : Text) : ('\n' :: t).splitOn '\n' = [] :: t.splitOn '\n' := by
  rw [List.splitOn_cons_eq_if_modifyHead, if_pos (beq_self_eq_true _)]

theorem splitOn_cons_other {c : Char} (hc : c ≠ '\n') (hr : r.splitOn '\n' = w :: ms) :
    (c :: r).splitOn '\n' = (c :: w) :: ms := by
  rw [List.splitOn_cons_eq_if_modifyHead, if_neg (by simpa using hc), hr]
  rfl

/-- There is one more line than there are line feeds, and the last line has none. -/
theorem splitOn_counts (t : Text) :
    (t.splitOn '\n').length = t.count '\n' + 1 ∧ extent (t.splitOn '\n') = t.length + 1 := by
  induction t with
  | nil => exact ⟨rfl, rfl⟩
  | cons c r ih =>
    obtain ⟨hlength, hextent⟩ := ih
    by_cases hc : c = '\n'
    · subst hc
      rw [splitOn_cons_feed, extent_cons, List.length_cons, List.length_cons,
        List.count_cons_self, List.length_nil]
      omega
    · obtain ⟨w, ms, hr⟩ := List.exists_cons_of_ne_nil (List.splitOn_ne_nil '\n' r)
      rw [splitOn_cons_other hc hr, List.count_cons_of_ne hc]
      rw [hr] at hlength hextent
      simp only [extent_cons, List.length_cons] at hlength hextent ⊢
      omega

/-- A beginning without line feeds belongs to the first line. -/
theorem splitOn_append_of_notMem (hl : '\n' ∉ l) (hr : r.splitOn '\n' = w :: ms) :
    (l ++ r).splitOn '\n' = (l ++ w) :: ms := by
  induction l with
  | nil => exact hr
  | cons c l ih =>
    obtain ⟨hc, hl⟩ := not_or.1 (mt List.mem_cons.2 hl)
    exact splitOn_cons_other (fun h => hc h.symm) (ih hl)

/-- A text is a line of its own, or it ends with a line behind a line feed. -/
theorem eq_or_exists_feed (t : Text) :
    ∃ l, '\n' ∉ l ∧ l.length = (t.reverse.takeWhile (· != '\n')).length ∧
      (t = l ∨ ∃ x, t = x ++ '\n' :: l) := by
  have hsplit : t.reverse.takeWhile (· != '\n') ++ t.reverse.dropWhile (· != '\n') = t.reverse :=
    List.takeWhile_append_dropWhile
  have htext : t = (t.reverse.dropWhile (· != '\n')).reverse ++
      (t.reverse.takeWhile (· != '\n')).reverse := by
    rw [← List.reverse_append, hsplit, List.reverse_reverse]
  refine ⟨(t.reverse.takeWhile (· != '\n')).reverse, ?_, List.length_reverse, ?_⟩
  · intro hmem
    have hne := List.all_eq_true.1 List.all_takeWhile _ (List.mem_reverse.1 hmem)
    simp at hne
  · cases hdrop : t.reverse.dropWhile (· != '\n') with
    | nil =>
      left
      rw [hdrop] at htext
      exact htext
    | cons c x =>
      right
      -- what stops the run of other characters is a line feed
      have hstop := List.head_dropWhile_not (· != '\n') (l := t.reverse) (by rw [hdrop]; simp)
      simp only [hdrop, List.head_cons, bne_eq_false_iff_eq] at hstop
      refine ⟨x.reverse, ?_⟩
      rw [hdrop, List.reverse_cons, List.append_assoc, hstop] at htext
      exact htext

/-! ## Places -/

theorem isPlace_lineAt (h : offset ≤ t.length) :
    IsPlace t offset (lineAt t offset) (columnAt t offset) := by
  obtain ⟨w, ms, hr⟩ := List.exists_cons_of_ne_nil (List.splitOn_ne_nil '\n' (t.drop offset))
  obtain ⟨l, hl, hcolumn, hfront⟩ := eq_or_exists_feed (t.take offset)
  have hlength : (t.take offset).length = offset := List.length_take_of_le h
  have hlast := splitOn_append_of_notMem hl hr
  have hcount : l.count '\n' = 0 := List.count_eq_zero.2 hl
  unfold lineAt columnAt
  rw [← hcolumn]
  rcases hfront with hfront | ⟨x, hfront⟩
  · -- the offset lies in the first line
    refine ⟨[], l ++ w, ms, ?_, ?_, ?_, ?_, ?_⟩
    · rw [← List.take_append_drop offset t, hfront, List.nil_append]
      exact hlast
    · rw [hfront, hcount]
      rfl
    · rw [← hlength, hfront]
      simp [extent]
    · omega
    · rw [List.length_append]
      omega
  · obtain ⟨hlines, hextent⟩ := splitOn_counts x
    refine ⟨x.splitOn '\n', l ++ w, ms, ?_, ?_, ?_, ?_, ?_⟩
    · rw [← List.take_append_drop offset t, hfront, List.append_assoc, List.cons_append,
        List.splitOn_append_cons_self, hlast]
    · rw [hfront, hlines, List.count_append, List.count_cons_self, hcount]
    · rw [hextent, ← hlength, hfront, List.length_append, List.length_cons]
      omega
    · omega
    · rw [List.length_append]
      omega

/-- A later line begins behind the line feed of an earlier one. -/
theorem extent_lt_of_earlier {before before' after after' : List Text} {row row' : Text}
    (h : before ++ row :: after = before' ++ row' :: after') (hlt : before.length < before'.length) :
    extent before + row.length < extent before' := by
  have hfirst : before ++ [row] <+: before' ++ row' :: after' :=
    ⟨after, by rw [List.append_assoc, List.singleton_append, h]⟩
  have hprefix : before ++ [row] <+: before' := by
    apply List.prefix_of_prefix_length_le hfirst (List.prefix_append _ _)
    rw [List.length_append, List.length_singleton]
    omega
  obtain ⟨between, rfl⟩ := hprefix
  rw [extent_append, extent_append, extent_cons]
  omega

theorem IsPlace.unique (h : IsPlace t offset line column) (h' : IsPlace t offset line' column') :
    line = line' ∧ column = column' := by
  obtain ⟨before, row, after, hsplit, rfl, hoffset, hpos, hle⟩ := h
  obtain ⟨before', row', after', hsplit', rfl, hoffset', hpos', hle'⟩ := h'
  have heq := hsplit.symm.trans hsplit'
  rcases Nat.lt_trichotomy before.length before'.length with hlt | hlines | hgt
  · have := extent_lt_of_earlier heq hlt
    omega
  · obtain ⟨rfl, -⟩ := List.append_inj heq hlines
    omega
  · have := extent_lt_of_earlier heq.symm hgt
    omega

end SqlLayout.Text
