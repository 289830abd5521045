import SqlLayout.Proofs.Text.Respaced

/-!
# Words with single spaces

A text is a word, or a word, a gap and a further text, up to blanks at its ends. `collapse` follows
this: it leaves a word alone and shrinks each gap to one space.
-/

namespace SqlLayout.Text

/-- A text without blanks. -/
def IsSolid (w : Text) : Prop := ∀ x ∈ w, isBlank x = false

instance (w : Text) : Decidable (IsSolid w) :=
  inferInstanceAs (Decidable (∀ x ∈ w, isBlank x = false))

variable {w g t : Text}

/-- Words split at a blank. -/
theorem words_append_cons {x : Char} (hx : isBlank x = true) (s t : Text) :
    words (s ++ x :: t) = words s ++ words t := by
  rw [words, List.splitOnP_append_cons s t hx, List.filter_append]
  rfl

theorem words_gap_append (hg : IsGap g) (t : Text) : words (g ++ t) = words t := by
  induction g with
  | nil => rfl
  | cons x g ih =>
    have hsplit := words_append_cons (hg x List.mem_cons_self) [] (g ++ t)
    rw [List.nil_append] at hsplit
    rw [List.cons_append, hsplit, ih fun y hy => hg y (List.mem_cons_of_mem x hy)]
    rfl

theorem words_of_isSolid (hne : w ≠ []) (hw : IsSolid w) : words w = [w] := by
  rw [words, List.splitOnP_eq_singleton hw]
  simp [hne]

theorem collapse_of_isSolid (hne : w ≠ []) (hw : IsSolid w) : collapse w = w := by
  rw [collapse, words_of_isSolid hne hw, List.intercalate_singleton]

theorem words_append_gap (hne : w ≠ []) (hw : IsSolid w) (hgne : g ≠ []) (hg : IsGap g) (t : Text) :
    words (w ++ (g ++ t)) = w :: words t := by
  cases g with
  | nil => exact absurd rfl hgne
  | cons x g =>
    have hgap := words_gap_append (fun y hy => hg y (List.mem_cons_of_mem x hy)) t
    rw [List.cons_append, words_append_cons (hg x List.mem_cons_self), hgap,
      words_of_isSolid hne hw]
    rfl

/-- A gap between a word and a further text shrinks to one space. -/
theorem collapse_append_gap (hne : w ≠ []) (hw : IsSolid w) (hgne : g ≠ []) (hg : IsGap g)
    (ht : words t ≠ []) : collapse (w ++ (g ++ t)) = w ++ (" ".toList ++ collapse t) := by
  rw [collapse, words_append_gap hne hw hgne hg, List.intercalate_cons_of_ne_nil ht,
    List.append_assoc]
  rfl

theorem words_nil : words [] = [] := by
  rw [words, List.splitOnP_nil]
  rfl

/-- A text without blanks is its only word, if it is one at all. -/
theorem mem_words_of_isSolid {s : Text} (hs : IsSolid s) (h : w ∈ words s) : w ≠ [] ∧ IsSolid w := by
  by_cases hne : s = []
  · rw [hne, words_nil] at h
    exact absurd h List.not_mem_nil
  · rw [words_of_isSolid hne hs, List.mem_singleton] at h
    exact h ▸ ⟨hne, hs⟩

theorem mem_words {s : Text} (h : w ∈ words s) : w ≠ [] ∧ IsSolid w := by
  induction hn : s.length using Nat.strongRecOn generalizing s with
  | ind n ih =>
    subst hn
    have hsolid : IsSolid (s.takeWhile fun x => !isBlank x) := by
      intro x hx
      simpa using List.all_eq_true.1 List.all_takeWhile x hx
    have hsplit := (List.takeWhile_append_dropWhile (p := fun x => !isBlank x) (l := s)).symm
    have hstop := List.head?_dropWhile_not (fun x => !isBlank x) s
    cases hdrop : s.dropWhile fun x => !isBlank x with
    | nil =>
      rw [hdrop, List.append_nil] at hsplit
      exact mem_words_of_isSolid (hsplit ▸ hsolid) h
    | cons x u =>
      rw [hdrop] at hsplit hstop
      rw [hsplit, words_append_cons (by simpa using hstop)] at h
      rcases List.mem_append.1 h with h | h
      · exact mem_words_of_isSolid hsolid h
      · refine ih u.length ?_ h rfl
        rw [hsplit, List.length_append, List.length_cons]
        omega

theorem words_intercalate {ws : List Text} (h : ∀ w ∈ ws, w ≠ [] ∧ IsSolid w) :
    words ([' '].intercalate ws) = ws := by
  induction ws with
  | nil => exact words_nil
  | cons w ws ih =>
    obtain ⟨hne, hw⟩ := h w List.mem_cons_self
    have hws := ih fun v hv => h v (List.mem_cons_of_mem w hv)
    cases ws with
    | nil => rw [List.intercalate_singleton, words_of_isSolid hne hw]
    | cons v ws =>
      rw [List.intercalate_cons_of_ne_nil (by simp), List.append_assoc, List.singleton_append,
        words_append_cons (by decide), words_of_isSolid hne hw, hws]
      rfl

/-- Texts with single spaces stay as they are. -/
theorem collapse_collapse (s : Text) : collapse (collapse s) = collapse s := by
  rw [collapse, collapse, words_intercalate fun w hw => mem_words hw]

end SqlLayout.Text
