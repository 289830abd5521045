import Mathlib.Data.List.Induction
import Mathlib.Data.List.Infix
import SqlLayout.Layout.Format

/-!
# Open parentheses without a stack

Whether a parenthesis is still open after some tokens can be told from these tokens alone: no
beginning of them closes more parentheses than it opens (`StaysOpen`). `unclosed` picks the
parentheses of a list that are open at its end by this test. A token at the end of the list changes
them as it changes a stack (`unclosed_concat_close`), so the levels of a page are those of
`unclosed`.
-/

namespace SqlLayout.Layout

variable {t : Token} {v w following : List Token}

theorem isMark_eq_false {c d : Char} (h : t.isMark c = true) (hne : c ≠ d) :
    t.isMark d = false := by
  rw [Token.isMark, Bool.and_eq_true, beq_iff_eq, beq_iff_eq] at h
  rw [Token.isMark, h.2]
  simp [hne]

/-! ## Counting parentheses -/

/-- The number of closing parentheses. -/
def closings (w : List Token) : Nat := w.countP (·.isMark ')')

/-- The number of opening parentheses. -/
def openings (w : List Token) : Nat := w.countP (·.isMark '(')

/-- A parenthesis with these tokens after it is still open at their end: no beginning of them closes
more than it opens. -/
def StaysOpen (w : List Token) : Prop := ∀ u, u <+: w → closings u ≤ openings u

/-- How many parentheses the tokens close that they do not open. -/
def excess : List Token → Nat
  | [] => 0
  | t :: w =>
    if t.isMark ')' then excess w + 1 else if t.isMark '(' then excess w - 1 else excess w

/-- The excess is the most by which a beginning closes more than it opens. -/
theorem excess_le_iff {k : Nat} :
    excess w ≤ k ↔ ∀ u, u <+: w → closings u ≤ openings u + k := by
  induction w generalizing k with
  | nil =>
    refine ⟨fun _ u hu => ?_, fun _ => Nat.zero_le k⟩
    rw [List.prefix_nil.1 hu]
    exact Nat.zero_le _
  | cons t w ih =>
    -- the empty beginning asks nothing, the others begin with `t`
    have hcons : (∀ u, u <+: t :: w → closings u ≤ openings u + k) ↔
        ∀ u, u <+: w → closings (t :: u) ≤ openings (t :: u) + k := by
      constructor
      · intro h u hu
        exact h (t :: u) ((List.prefix_cons_inj t).2 hu)
      · intro h u hu
        rcases List.prefix_cons_iff.1 hu with rfl | ⟨v, rfl, hv⟩
        · exact Nat.zero_le _
        · exact h v hv
    rw [hcons, excess]
    by_cases hclose : t.isMark ')' = true
    · have hopen := isMark_eq_false hclose (d := '(') (by decide)
      simp only [closings, openings, List.countP_cons, hclose, hopen, if_true,
        Bool.false_eq_true, if_false, Nat.add_zero]
      cases k with
      | zero =>
        -- the closing parenthesis alone is in excess already
        refine ⟨fun h => by omega, fun h => ?_⟩
        have := h [] List.nil_prefix
        simp at this
      | succ k =>
        rw [Nat.add_le_add_iff_right, ih]
        exact forall₂_congr fun u _ => by rw [closings, openings]; omega
    · by_cases hopen : t.isMark '(' = true
      · simp only [closings, openings, List.countP_cons, hclose, hopen, if_true,
          Bool.false_eq_true, if_false, Nat.add_zero]
        rw [Nat.sub_le_iff_le_add, ih]
        exact forall₂_congr fun u _ => by rw [closings, openings]; omega
      · simp only [closings, openings, List.countP_cons, hclose, hopen, Bool.false_eq_true,
          if_false, Nat.add_zero]
        exact ih

theorem excess_eq_zero_iff : excess w = 0 ↔ StaysOpen w := by
  rw [← Nat.le_zero, excess_le_iff]
  rfl

instance : DecidablePred StaysOpen := fun _ => decidable_of_iff _ excess_eq_zero_iff

theorem staysOpen_concat :
    StaysOpen (w ++ [t]) ↔ StaysOpen w ∧ closings (w ++ [t]) ≤ openings (w ++ [t]) := by
  constructor
  · intro h
    exact ⟨fun u hu => h u (hu.trans (List.prefix_append w [t])), h _ List.prefix_rfl⟩
  · rintro ⟨h, hall⟩ u hu
    rcases List.prefix_concat_iff.1 hu with rfl | hu
    · exact hall
    · exact h u hu

/-! ## The parentheses that stay open -/

/-- The first keyword of these tokens, before any punctuation, is `SELECT`. -/
def holdsSelect (following : List Token) : Bool :=
  ((following.takeWhile (·.kind != .punctuation)).find? (·.kind.isKeyword)).any (·.isWord "SELECT")

theorem opensSubquery_eq (following : List Token) :
    opensSubquery following = holdsSelect following := by
  induction following with
  | nil => rfl
  | cons t rest ih =>
    rw [opensSubquery, holdsSelect, List.takeWhile_cons]
    by_cases hmark : t.kind = .punctuation
    · simp [hmark]
    · by_cases hkey : t.kind.isKeyword = true
      · simp [hmark, hkey]
      · simp only [bne, beq_eq_false_iff_ne.2 hmark, Bool.false_eq_true, if_false, hkey, ih,
          holdsSelect, Bool.not_false, if_true]
        rw [List.find?_cons_of_neg (by simpa using hkey)]

/-- The parentheses among the tokens that are open after them, the innermost first: whether each
holds a subquery, given the tokens that follow. -/
def unclosed : List Token → List Token → List Bool
  | [], _ => []
  | t :: w, following =>
    unclosed w following ++
      if t.isMark '(' ∧ StaysOpen w then [holdsSelect (w ++ following)] else []

/-- What is opened is closed or stays open, and what is closed was opened or is in excess. -/
theorem excess_add_openings (w following : List Token) :
    excess w + openings w = (unclosed w following).length + closings w := by
  induction w with
  | nil => rfl
  | cons t w ih =>
    rw [excess, unclosed, List.length_append]
    unfold openings closings at ih ⊢
    simp only [List.countP_cons]
    by_cases hclose : t.isMark ')' = true
    · have hopen := isMark_eq_false hclose (d := '(') (by decide)
      simp only [hclose, hopen, if_true, Bool.false_eq_true, if_false, false_and, List.length_nil]
      omega
    · by_cases hopen : t.isMark '(' = true
      · -- it stays open, or it takes one off the excess of what follows
        simp only [hclose, hopen, if_true, Bool.false_eq_true, if_false, true_and]
        by_cases hstays : StaysOpen w
        · have hzero := excess_eq_zero_iff.2 hstays
          rw [if_pos hstays, List.length_singleton]
          omega
        · have hpos : excess w ≠ 0 := fun h => hstays (excess_eq_zero_iff.1 h)
          rw [if_neg hstays, List.length_nil]
          omega
      · simp only [hclose, hopen, Bool.false_eq_true, if_false, false_and, List.length_nil]
        omega

/-- After tokens that leave a parenthesis open, a further closing one closes it exactly if they leave
none of their own open. -/
theorem staysOpen_concat_close (hclose : t.isMark ')' = true) (following : List Token) :
    StaysOpen (w ++ [t]) ↔ StaysOpen w ∧ unclosed w following ≠ [] := by
  have hopen := isMark_eq_false hclose (d := '(') (by decide)
  rw [staysOpen_concat]
  refine and_congr_right fun hstays => ?_
  have hcount := excess_add_openings w following
  rw [excess_eq_zero_iff.2 hstays] at hcount
  have hcloses : closings (w ++ [t]) = closings w + 1 := by simp [closings, hclose]
  have hopens : openings (w ++ [t]) = openings w := by simp [openings, hopen]
  rw [← List.length_pos_iff, hcloses, hopens]
  omega

theorem staysOpen_concat_other (hclose : t.isMark ')' = false) :
    StaysOpen (w ++ [t]) ↔ StaysOpen w := by
  rw [staysOpen_concat]
  refine and_iff_left_of_imp fun hstays => ?_
  have hcloses : closings (w ++ [t]) = closings w := by simp [closings, hclose]
  have hopens : openings w ≤ openings (w ++ [t]) := by simp [openings]
  have hle := hstays w List.prefix_rfl
  omega

/-- A closing parenthesis closes the innermost one that is open, if there is one. -/
theorem unclosed_concat_close (hclose : t.isMark ')' = true) :
    unclosed (w ++ [t]) following = (unclosed w (t :: following)).tail := by
  induction w with
  | nil =>
    have hopen := isMark_eq_false hclose (d := '(') (by decide)
    simp [unclosed, hopen]
  | cons u w ih =>
    have happend : w ++ [t] ++ following = w ++ t :: following := by simp
    have hstays := staysOpen_concat_close (w := w) hclose (t :: following)
    rw [List.cons_append, unclosed, unclosed, ih, happend]
    simp only [hstays]
    cases hinner : unclosed w (t :: following) with
    | nil =>
      -- nothing is open inside, so `u` is what is closed, if it is a parenthesis at all
      simp only [ne_eq, not_true, and_false, if_false, List.tail_nil, List.append_nil,
        List.nil_append]
      split <;> rfl
    | cons b bs => simp

/-- Any other token leaves open what is open. -/
theorem unclosed_concat_other (hclose : t.isMark ')' = false) :
    unclosed (w ++ [t]) following =
      (if t.isMark '(' then [holdsSelect following] else []) ++ unclosed w (t :: following) := by
  induction w with
  | nil =>
    have hstays : StaysOpen [] := excess_eq_zero_iff.1 rfl
    simp [unclosed, hstays]
  | cons u w ih =>
    have happend : w ++ [t] ++ following = w ++ t :: following := by simp
    rw [List.cons_append, unclosed, unclosed, ih, happend, List.append_assoc]
    simp only [staysOpen_concat_other hclose]

/-- What is open inside of an open parenthesis comes before it. -/
theorem unclosed_within {before : List Token} {opened : Token} (hopened : opened.isMark '(' = true)
    (hstays : StaysOpen w) :
    unclosed (before ++ opened :: w) following =
      unclosed w following ++
        holdsSelect (w ++ following) :: unclosed before (opened :: (w ++ following)) := by
  induction w using List.reverseRecOn generalizing following with
  | nil =>
    rw [unclosed_concat_other (isMark_eq_false hopened (by decide)), if_pos hopened]
    rfl
  | append_singleton w t ih =>
    have hw : StaysOpen w := (staysOpen_concat.1 hstays).1
    have happend : before ++ opened :: (w ++ [t]) = before ++ opened :: w ++ [t] := by simp
    have hfollow : w ++ [t] ++ following = w ++ t :: following := by simp
    rw [happend, hfollow]
    by_cases hclose : t.isMark ')' = true
    · -- it closes a parenthesis inside
      have hinner := ((staysOpen_concat_close hclose (t :: following)).1 hstays).2
      rw [unclosed_concat_close hclose, unclosed_concat_close hclose, ih hw,
        List.tail_append_of_ne_nil hinner]
    · have hclose : t.isMark ')' = false := by simpa using hclose
      rw [unclosed_concat_other hclose, unclosed_concat_other hclose, ih hw, List.append_assoc]

end SqlLayout.Layout
