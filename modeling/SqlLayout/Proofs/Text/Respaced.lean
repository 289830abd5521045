import SqlLayout.Proofs.Text.Classes

/-!
# Texts that differ in their blanks

`Respaced` relates a text to one whose blanks were changed with care: every other character stays,
no two neighbours are joined, blanks at the end may go, and new blanks come only before a hyphen, a
closing parenthesis or a letter that no word character precedes. A relation on the whole rest of a
text serves every question about what follows a place: which character comes next
(`Respaced.head`), which word without blanks can be read (`Respaced.append_inv`) and which words
with blanks between them (`Respaced.gap_inv`).
-/

namespace SqlLayout.Text

/-- A text of blanks. -/
def IsGap (g : Text) : Prop := ∀ x ∈ g, isBlank x = true

/-- New blanks may stand before this character, after a word character or after another one. -/
def MayOpen (afterWord : Bool) (x : Char) : Prop :=
  x ∈ "-)".toList ∨ (afterWord = false ∧ isWord x = true ∧ isDigit x = false)

theorem MayOpen.isBlank {p : Bool} {x : Char} (h : MayOpen p x) : isBlank x = false := by
  rcases h with h | ⟨-, h, -⟩
  · have hall : ∀ y ∈ "-)".toList, Text.isBlank y = false := by decide
    exact hall x h
  · exact isBlank_eq_false_of_isWord h

/-- After a word character no other one may be set apart. -/
theorem MayOpen.isWord {x : Char} (h : MayOpen true x) : isWord x = false := by
  rcases h with h | ⟨h, -⟩
  · have hall : ∀ y ∈ "-)".toList, Text.isWord y = false := by decide
    exact hall x h
  · exact Bool.noConfusion h

/-- The second text is the first with other blanks. The flag tells whether a word character stands
before both. -/
inductive Respaced : Bool → Text → Text → Prop
  | finish {p : Bool} {g : Text} (hg : IsGap g) : Respaced p g []
  | keep {p : Bool} {x : Char} {t t' : Text} (more : Respaced (isWord x) t t') :
      Respaced p (x :: t) (x :: t')
  | gap {p : Bool} {g g' t t' : Text} (hne : g ≠ []) (hg : IsGap g) (hne' : g' ≠ [])
      (hg' : IsGap g') (more : Respaced false t t') : Respaced p (g ++ t) (g' ++ t')
  | insert {p : Bool} {g' : Text} {x : Char} {t t' : Text} (hne' : g' ≠ []) (hg' : IsGap g')
      (hx : MayOpen p x) (more : Respaced (isWord x) t t') : Respaced p (x :: t) (g' ++ x :: t')

namespace IsGap

theorem nil : IsGap [] := fun _ hx => absurd hx List.not_mem_nil

theorem reverse {g : Text} (hg : IsGap g) : IsGap g.reverse :=
  fun x hx => hg x (List.mem_reverse.1 hx)

theorem append {g h : Text} (hg : IsGap g) (hh : IsGap h) : IsGap (g ++ h) := by
  intro x hx
  rcases List.mem_append.1 hx with hx | hx
  · exact hg x hx
  · exact hh x hx

theorem cons {x : Char} {g : Text} (hx : isBlank x = true) (hg : IsGap g) : IsGap (x :: g) := by
  intro y hy
  rcases List.mem_cons.1 hy with rfl | hy
  · exact hx
  · exact hg y hy

/-- A text that begins with a gap begins with a blank. -/
theorem head {g t : Text} (hg : IsGap g) (hne : g ≠ []) : ∀ x ∈ (g ++ t).head?, isBlank x = true := by
  cases g with
  | nil => exact absurd rfl hne
  | cons y g =>
    intro x hx
    rw [List.cons_append, List.head?_cons, Option.mem_some_iff] at hx
    exact hx ▸ hg y List.mem_cons_self

/-- A character that is not blank ends a gap. -/
theorem append_eq_append {g h t u : Text} {x : Char} (hh : IsGap h) (hx : isBlank x = false)
    (heq : g ++ x :: t = h ++ u) : ∃ g₂, g = h ++ g₂ ∧ u = g₂ ++ x :: t := by
  rcases List.append_eq_append_iff.1 heq with ⟨g₂, rfl, hu⟩ | ⟨g₂, hg, hu⟩
  · cases g₂ with
    | nil => exact ⟨[], by simp, by simpa using hu.symm⟩
    | cons y g₂ =>
      rw [List.cons_append, List.cons.injEq] at hu
      rw [hu.1, hh y (by simp)] at hx
      exact Bool.noConfusion hx
  · exact ⟨g₂, hg, hu⟩

/-- Two readings of a gap up to such a character are the same. -/
theorem eq_of_append_eq {g h t u : Text} {x y : Char} (hg : IsGap g) (hh : IsGap h)
    (hx : isBlank x = false) (hy : isBlank y = false) (heq : g ++ x :: t = h ++ y :: u) :
    g = h ∧ x = y ∧ t = u := by
  obtain ⟨g₂, rfl, hu⟩ := hh.append_eq_append hx heq
  cases g₂ with
  | nil =>
    obtain ⟨rfl, rfl⟩ := List.cons.inj hu
    exact ⟨List.append_nil h, rfl, rfl⟩
  | cons z g₂ =>
    rw [List.cons_append, List.cons.injEq] at hu
    rw [hu.1, hg z (by simp)] at hy
    exact Bool.noConfusion hy

end IsGap

namespace Respaced

variable {p : Bool} {s s' t' : Text} {x : Char}

/-- A character that is not blank comes from the first text. -/
theorem cons_inv (h : Respaced p s (x :: t')) (hx : isBlank x = false) :
    ∃ t, s = x :: t ∧ Respaced (isWord x) t t' := by
  generalize hs' : x :: t' = s' at h
  cases h with
  | finish _ => simp at hs'
  | keep more =>
    obtain ⟨rfl, rfl⟩ := List.cons.inj hs'
    exact ⟨_, rfl, more⟩
  | gap _ _ hne' hg' _ =>
    rw [hg'.head hne' x (by rw [← hs']; rfl)] at hx
    exact Bool.noConfusion hx
  | insert hne' hg' _ _ =>
    rw [hg'.head hne' x (by rw [← hs']; rfl)] at hx
    exact Bool.noConfusion hx

/-- So does a word without blanks. -/
theorem append_inv {w : Text} (h : Respaced p s (w ++ t')) (hw : ∀ x ∈ w, isBlank x = false) :
    ∃ t, s = w ++ t ∧ Respaced (w.getLast?.elim p isWord) t t' := by
  induction w generalizing p s with
  | nil => exact ⟨s, rfl, h⟩
  | cons x w ih =>
    obtain ⟨t, rfl, more⟩ := h.cons_inv (hw x List.mem_cons_self)
    obtain ⟨u, rfl, hu⟩ := ih more fun y hy => hw y (List.mem_cons_of_mem x hy)
    refine ⟨u, rfl, ?_⟩
    rw [List.getLast?_cons]
    cases hlast : w.getLast? with
    | none => simpa [hlast] using hu
    | some y => simpa [hlast] using hu

/-- A word may be read in both texts. -/
theorem append {w t : Text} (h : Respaced (w.getLast?.elim p isWord) t t') :
    Respaced p (w ++ t) (w ++ t') := by
  induction w generalizing p with
  | nil => exact h
  | cons x w ih =>
    refine .keep (ih ?_)
    rw [List.getLast?_cons] at h
    cases hlast : w.getLast? with
    | none => simpa [hlast] using h
    | some y => simpa [hlast] using h

/-- Blanks may be put before both texts, or before the second one alone if they may stand there. -/
theorem prepend {g g' : Text} (hg : IsGap g) (hg' : IsGap g') (hne : g ≠ [] → g' ≠ [])
    (hopen : g = [] → g' ≠ [] → ∃ x ∈ s'.head?, MayOpen p x) (h : ∀ q, Respaced q s s') :
    Respaced p (g ++ s) (g' ++ s') := by
  by_cases hempty : g = []
  · subst hempty
    by_cases hempty' : g' = []
    · subst hempty'
      exact h p
    · obtain ⟨x, hx, hmay⟩ := hopen rfl hempty'
      cases s' with
      | nil => simp at hx
      | cons y t' =>
        obtain rfl : y = x := by simpa using hx
        obtain ⟨t, rfl, more⟩ := (h false).cons_inv hmay.isBlank
        exact .insert hempty' hg' hmay more
  · exact .gap hempty hg (hne hempty) hg' (h false)

/-- The next characters are the same, unless blanks make the difference. -/
theorem head (h : Respaced p s s') :
    s'.head? = s.head? ∨
      ((∀ x ∈ s'.head?, isBlank x = true) ∧ ∀ x ∈ s.head?, isBlank x = true ∨ MayOpen p x) := by
  cases h with
  | finish hg =>
    refine .inr ⟨by simp, fun x hx => .inl (hg x (List.mem_of_mem_head? hx))⟩
  | keep _ => exact .inl rfl
  | gap hne hg hne' hg' _ =>
    exact .inr ⟨hg'.head hne', fun x hx => .inl (hg.head hne x hx)⟩
  | insert hne' hg' hx _ =>
    refine .inr ⟨hg'.head hne', fun y hy => .inr ?_⟩
    rw [List.head?_cons, Option.mem_some_iff] at hy
    exact hy ▸ hx

/-- A test that fails for blanks fails for the next character of the second text if it fails for that
of the first one. -/
theorem stops {f : Char → Bool} (hf : ∀ x, isBlank x = true → f x = false) (h : Respaced p s s')
    (hs : s.head?.any f = false) : s'.head?.any f = false := by
  rcases h.head with heq | ⟨hblank, -⟩
  · rw [heq]
    exact hs
  · cases hhead : s'.head? with
    | none => rfl
    | some x => exact hf x (hblank x hhead)

/-- The other way round it must also fail for what blanks may be inserted before. -/
theorem stops_inv {f : Char → Bool} (hf : ∀ x, isBlank x = true → f x = false)
    (hopen : ∀ x ∈ s.head?, MayOpen p x → f x = false) (h : Respaced p s s')
    (hs : s'.head?.any f = false) : s.head?.any f = false := by
  rcases h.head with heq | ⟨-, hnext⟩
  · rw [← heq]
    exact hs
  · cases hhead : s.head? with
    | none => rfl
    | some x =>
      rcases hnext x hhead with hx | hx
      · exact hf x hx
      · exact hopen x hhead hx

/-- No character is new but blanks. -/
theorem mem (h : Respaced p s s') (hx : isBlank x = false) (hmem : x ∈ s') : x ∈ s := by
  have hnot : ∀ g : Text, IsGap g → x ∉ g := by
    intro g hg hin
    rw [hg x hin] at hx
    exact Bool.noConfusion hx
  induction h with
  | finish _ => simp at hmem
  | keep _ ih =>
    rcases List.mem_cons.1 hmem with rfl | hmem
    · exact List.mem_cons_self
    · exact List.mem_cons_of_mem _ (ih hmem)
  | gap _ _ _ hg' _ ih =>
    rcases List.mem_append.1 hmem with hmem | hmem
    · exact absurd hmem (hnot _ hg')
    · exact List.mem_append_right _ (ih hmem)
  | insert _ hg' _ _ ih =>
    rcases List.mem_append.1 hmem with hmem | hmem
    · exact absurd hmem (hnot _ hg')
    · rcases List.mem_cons.1 hmem with rfl | hmem
      · exact List.mem_cons_self
      · exact List.mem_cons_of_mem _ (ih hmem)

/-- Blanks between two words come from blanks between them. -/
theorem gap_inv {g' : Text} (h : Respaced p s (g' ++ x :: t')) (hg' : IsGap g')
    (hx : isWord x = true) :
    ∃ g t, s = g ++ x :: t ∧ IsGap g ∧ Respaced true t t' ∧ (p = true → g' ≠ [] → g ≠ []) := by
  have hnot := isBlank_eq_false_of_isWord hx
  generalize hs' : g' ++ x :: t' = s' at h
  induction h generalizing g' with
  | finish _ => simp at hs'
  | @keep p y u u' more ih =>
    cases g' with
    | nil =>
      obtain ⟨rfl, rfl⟩ := List.cons.inj hs'
      exact ⟨[], u, rfl, .nil, hx ▸ more, fun _ h => absurd rfl h⟩
    | cons z g' =>
      obtain ⟨rfl, hu'⟩ := List.cons.inj hs'
      obtain ⟨g, t, rfl, hg, ht, -⟩ := ih (fun y hy => hg' y (List.mem_cons_of_mem z hy)) hu'
      exact ⟨z :: g, t, rfl, .cons (hg' z List.mem_cons_self) hg, ht, fun _ _ => by simp⟩
  | @gap p g₁ g₁' u u' hne hg₁ hne' hg₁' more ih =>
    -- the gap may go on after this step
    obtain ⟨g₂, rfl, hu'⟩ := hg₁'.append_eq_append hnot hs'
    obtain ⟨g, t, rfl, hg, ht, -⟩ :=
      ih (fun y hy => hg' y (List.mem_append_right g₁' hy)) hu'.symm
    refine ⟨g₁ ++ g, t, by rw [List.append_assoc], hg₁.append hg, ht, fun _ _ => ?_⟩
    simp [hne]
  | @insert p g₁' y u u' hne' hg₁' hy more ih =>
    have hynot : isBlank y = false := hy.isBlank
    obtain ⟨rfl, rfl, rfl⟩ := hg'.eq_of_append_eq hg₁' hnot hynot hs'
    refine ⟨[], u, rfl, .nil, hx ▸ more, ?_⟩
    -- after a word character nothing is inserted before another one
    rintro rfl
    rw [hy.isWord] at hx
    exact Bool.noConfusion hx

end Respaced

end SqlLayout.Text
