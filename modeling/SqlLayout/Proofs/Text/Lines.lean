import Mathlib.Data.List.Basic
import SqlLayout.Text.Basic

/-!
# Lines

A line ends at a line feed or a carriage return, or at both in this order. A text without them is one
line, and what is added to a text goes on with its last line (`lines_append`).
-/

namespace SqlLayout.Text

variable {x y w l term : Text} {ls ms : List Text}

/-- The lines of a text; behind the last line end stands a line of its own. -/
def lines : Text → List Text
  | [] => [[]]
  | c :: r =>
    if c = '\n' ∨ c = '\r' ∧ r.head? ≠ some '\n' then [] :: lines r
    -- together with its line feed a carriage return ends one line
    else if c = '\r' then lines r
    else (lines r).modifyHead (c :: ·)

/-- The text holds no line end. -/
def IsOneLine (w : Text) : Prop := ∀ c ∈ w, c ≠ '\n' ∧ c ≠ '\r'

/-- What ends a line. -/
def lineEnds : List Text := [['\n'], ['\r'], ['\r', '\n']]

theorem lines_ne_nil (x : Text) : lines x ≠ [] := by
  induction x with
  | nil => simp [lines]
  | cons c r ih =>
    rw [lines]
    split
    · simp
    · split
      · exact ih
      · cases h : lines r with
        | nil => exact absurd h ih
        | cons l ls => simp

/-- Every text has a last line. -/
theorem exists_lines_eq (x : Text) : ∃ ls l, lines x = ls ++ [l] :=
  ⟨_, _, (List.dropLast_append_getLast (lines_ne_nil x)).symm⟩

/-- An added text goes on with the last line, unless a line end would be torn apart. -/
theorem lines_append (hx : lines x = ls ++ [l]) (hy : lines y = w :: ms)
    (hwhole : x.getLast? = some '\r' → y.head? ≠ some '\n') :
    lines (x ++ y) = ls ++ (l ++ w) :: ms := by
  induction x generalizing ls l with
  | nil =>
    obtain ⟨rfl, rfl⟩ : ls = [] ∧ l = [] := by
      cases ls with
      | nil => simpa [lines] using hx.symm
      | cons a as => simp [lines] at hx
    exact hy
  | cons c r ih =>
    obtain ⟨ks, k, hr⟩ := exists_lines_eq r
    have hwhole' : r.getLast? = some '\r' → y.head? ≠ some '\n' := by
      intro hlast
      refine hwhole ?_
      rw [List.getLast?_cons, hlast, Option.getD_some]
    have hry := ih hr hwhole'
    -- whether the character ends a line is not changed by what is added
    have hends : (c = '\n' ∨ c = '\r' ∧ (r ++ y).head? ≠ some '\n') ↔
        (c = '\n' ∨ c = '\r' ∧ r.head? ≠ some '\n') := by
      refine or_congr_right (and_congr_right fun hc => not_congr ?_)
      cases r with
      | nil => exact iff_of_false (hwhole (by rw [hc]; rfl)) (by simp)
      | cons d r => rfl
    rw [lines] at hx
    rw [List.cons_append, lines]
    simp only [hends]
    by_cases hend : c = '\n' ∨ c = '\r' ∧ r.head? ≠ some '\n'
    · rw [if_pos hend] at hx ⊢
      rw [hr, ← List.cons_append] at hx
      obtain ⟨rfl, hl⟩ := List.append_inj' hx rfl
      rw [hry, List.cons_append, List.singleton_inj.1 hl]
    · rw [if_neg hend] at hx ⊢
      by_cases hreturn : c = '\r'
      · rw [if_pos hreturn] at hx ⊢
        rw [hr] at hx
        obtain ⟨rfl, hl⟩ := List.append_inj' hx rfl
        rw [hry, List.singleton_inj.1 hl]
      · rw [if_neg hreturn] at hx ⊢
        rw [hry]
        rw [hr] at hx
        cases ks with
        | nil =>
          have hx : [] ++ [c :: k] = ls ++ [l] := hx
          obtain ⟨rfl, hl⟩ := List.append_inj' hx rfl
          rw [← List.singleton_inj.1 hl]
          rfl
        | cons a as =>
          have hx : ((c :: a) :: as) ++ [k] = ls ++ [l] := hx
          obtain ⟨rfl, hl⟩ := List.append_inj' hx rfl
          rw [← List.singleton_inj.1 hl]
          rfl

theorem lines_of_isOneLine (h : IsOneLine w) : lines w = [w] := by
  induction w with
  | nil => rfl
  | cons c r ih =>
    obtain ⟨⟨hfeed, hreturn⟩, hr⟩ := List.forall_mem_cons.1 h
    rw [lines, if_neg (by simp [hfeed, hreturn]), if_neg hreturn, ih hr]
    rfl

theorem lines_append_isOneLine (hx : lines x = ls ++ [l]) (hw : IsOneLine w) :
    lines (x ++ w) = ls ++ [l ++ w] := by
  refine lines_append hx (lines_of_isOneLine hw) fun _ hhead => ?_
  exact (hw _ (List.mem_of_mem_head? hhead)).1 rfl

theorem lines_append_lineEnd (hx : lines x = ls ++ [l]) (hterm : term ∈ lineEnds)
    (hwhole : x.getLast? ≠ some '\r') : lines (x ++ term) = ls ++ [l, []] := by
  have hy : lines term = [[], []] := by
    have hall : ∀ t ∈ lineEnds, lines t = [[], []] := by decide
    exact hall term hterm
  rw [lines_append hx hy fun h => absurd h hwhole, List.append_nil]

/-- A line with characters on it has not ended. -/
theorem getLast?_ne_of_lines (hx : lines x = ls ++ [l]) (hl : l ≠ []) : x.getLast? ≠ some '\r' := by
  intro hlast
  obtain ⟨r, rfl⟩ := List.getLast?_eq_some_iff.1 hlast
  obtain ⟨ks, k, hr⟩ := exists_lines_eq r
  have hreturn : lines ['\r'] = [[], []] := by decide
  rw [lines_append hr hreturn fun _ => by decide, List.append_nil] at hx
  have hsplit : (ks ++ [k]) ++ [[]] = ls ++ [l] := by rw [← hx, List.append_assoc]; rfl
  exact hl (List.singleton_inj.1 (List.append_inj' hsplit rfl).2).symm

/-! ## Indentation -/

/-- The number of spaces that a line begins with. -/
def indentation (l : Text) : Nat := (l.takeWhile (· == ' ')).length

theorem indentation_replicate_append {n : Nat} {c : Char} (hc : c ≠ ' ') (w : Text) :
    indentation (List.replicate n ' ' ++ c :: w) = n := by
  rw [indentation, List.takeWhile_append_of_pos (by simp), List.takeWhile_cons_of_neg (by simpa)]
  simp

theorem le_indentation_append (l w : Text) : indentation l ≤ indentation (l ++ w) := by
  rw [indentation, indentation, List.takeWhile_append]
  split
  · next hall =>
    rw [List.length_append]
    omega
  · exact Nat.le_refl _

theorem le_indentation_replicate_append (n : Nat) (w : Text) :
    n ≤ indentation (List.replicate n ' ' ++ w) := by
  refine le_of_eq_of_le ?_ (le_indentation_append _ w)
  simp [indentation]

end SqlLayout.Text
