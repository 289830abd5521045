import SqlLayout.Proofs.Lexer.Sql.Shapes

/-!
# No phrase across tokens

Two tokens join if the first one is a word and makes a phrase with the first words of the second
one. Where no word joins the next token, a phrase that is read at a word does not reach beyond it
(`Worded.no_row`): the second word of a longer phrase would be the next token or its beginning, and
what follows the first word is either all of that token or a phrase at a word again.
-/

namespace SqlLayout.Sql

open Lexer Text

variable {b r s v w : Text} {t u : Token} {us after gs : List Token} {ws : List Text}

/-! ## Words at the front of a token -/

theorem lead_of_mem_phraseRows : ∀ ws ∈ phraseRows, ∀ w ∈ ws, ∀ x ∈ w, lead x = .letter := by
  decide +kernel

/-- A word that is read at a token after which no word goes on is a part of the token. -/
theorem exists_of_word_append (hne : t.value ≠ [])
    (hedge : t.value.getLast?.any isWord = true → r.head?.any isWord = false)
    (hw : IsWordText w) (hs : s.head?.any isWord = false) (heq : t.value ++ r = w ++ s) :
    ∃ rest, t.value = w ++ rest ∧ s = rest ++ r ∧ rest.head?.any isWord = false := by
  rcases List.append_eq_append_iff.1 heq with ⟨x, hx, hr⟩ | ⟨rest, ht, rfl⟩
  · -- the word would go on after the token
    have hword : ∀ y ∈ t.value, isWord y = true := fun y hy => hw.2 y (by simp [hx, hy])
    have hlast : t.value.getLast?.any isWord = true := by
      rw [List.getLast?_eq_some_getLast hne]
      exact hword _ (List.getLast_mem hne)
    have hx' : x = [] := by
      cases x with
      | nil => rfl
      | cons y x =>
        have hstop := hedge hlast
        rw [hr, List.cons_append, List.head?_cons, Option.any_some,
          hw.2 y (by simp [hx])] at hstop
        exact Bool.noConfusion hstop
    subst hx'
    exact ⟨[], by simpa using hx.symm, by simpa using hr.symm, rfl⟩
  · refine ⟨rest, ht, rfl, ?_⟩
    cases rest with
    | nil => rfl
    | cons y rest => exact hs

/-- The first token is a word, and the first words of the second one make a phrase of it, which ends
at a word edge. -/
def Joins (t u : Token) : Prop :=
  ∃ ws w rest, t.value :: ws ∈ phraseRows ∧ Phrased ws w ∧ u.value = w ++ rest ∧
    rest.head?.any isWord = false

/-! ## Lists of tokens -/

/-- How a token that is no blank stands before others: if it begins with a letter, it is a word or a
phrase; after a word character no word goes on; and no word joins the next token across a gap. -/
structure Placed (t : Token) (after : List Token) : Prop where
  proper : t.value ≠ []
  head : t.value.head?.any isBlank = false
  shape : t.value.head?.any (lead · == .letter) = true →
    IsWordRun t ∨ ∃ ws ∈ phraseRows, Phrased ws t.value
  edge : t.value.getLast?.any isWord = true → (texts after).head?.any isWord = false
  parted : ∀ gs u more, after = gs ++ u :: more → gs ≠ [] → (∀ g ∈ gs, g.kind.isBlank = true) →
    u.kind.isBlank = false → ¬Joins t u

/-- Tokens that stand so, and gaps between some of them. -/
inductive Worded : List Token → Prop
  | nil : Worded []
  | gap {t : Token} {us : List Token} (hblank : t.kind.isBlank = true) (hgap : IsGap t.value)
      (more : Worded us) : Worded (t :: us)
  | token {t : Token} {us : List Token} (hblank : t.kind.isBlank = false) (ht : Placed t us)
      (more : Worded us) : Worded (t :: us)

theorem Worded.of_cons (h : Worded (t :: us)) : Worded us := by
  cases h with
  | gap _ _ more => exact more
  | token _ _ more => exact more

theorem Worded.placed (h : Worded (t :: us)) (hblank : t.kind.isBlank = false) : Placed t us := by
  cases h with
  | gap hblank' =>
    rw [hblank] at hblank'
    exact Bool.noConfusion hblank'
  | token _ ht => exact ht

/-- Where a gap and a solid text are read, blank tokens and another token stand. -/
theorem Worded.exists_next {g : Text} (h : Worded after) (hg : IsGap g) (hs : s ≠ [])
    (hsolid : s.head?.any isBlank = false) (heq : texts after = g ++ s) :
    ∃ gs u rest, after = gs ++ u :: rest ∧ texts gs = g ∧ (∀ g ∈ gs, g.kind.isBlank = true) ∧
      u.kind.isBlank = false ∧ Worded (u :: rest) ∧ s = u.value ++ texts rest := by
  induction h generalizing g with
  | nil => exact absurd (List.append_eq_nil_iff.1 heq.symm).2 hs
  | @gap t us hblank hgap _ ih =>
    -- the blank token is the beginning of the gap
    obtain ⟨x, s, rfl⟩ := List.exists_cons_of_ne_nil hs
    obtain ⟨g, rfl, hrest⟩ := hgap.append_eq_append hsolid heq.symm
    obtain ⟨gs, u, rest, rfl, rfl, hgs, hu⟩ :=
      ih (fun y hy => hg y (List.mem_append_right t.value hy)) hrest
    exact ⟨t :: gs, u, rest, rfl, rfl, List.forall_mem_cons.2 ⟨hblank, hgs⟩, hu⟩
  | @token t us hblank ht more =>
    have hhead : (t.value ++ texts us).head?.any isBlank = false := by
      rw [List.head?_append_of_ne_nil _ ht.proper]
      exact ht.head
    obtain ⟨rfl, hs⟩ := run_unique hg IsGap.nil hsolid hhead heq.symm
    exact ⟨[], t, us, rfl, rfl, by simp, hblank, .token hblank ht more, hs⟩

/-! ## Phrases at a word -/

/-- Of a phrase of several words that is read at a word, the first one is that word, and the others
begin at the next token, which the word does not join. -/
theorem Worded.exists_tail {w₁ : Text} (h : Worded (t :: after)) (hblank : t.kind.isBlank = false)
    (hrun : IsWordRun t) (hws : w₁ :: ws ∈ phraseRows) (hne : ws ≠ []) (hv : Phrased (w₁ :: ws) v)
    (heq : texts (t :: after) = v ++ r) :
    ∃ u rest v', u.kind.isBlank = false ∧ Worded (u :: rest) ∧ Phrased ws v' ∧
      texts (u :: rest) = v' ++ r ∧
      ∀ w rest', Phrased ws w → u.value = w ++ rest' → rest'.head?.any isWord = true := by
  have hwords := isWordText_of_mem_phraseRows _ hws
  cases hv with
  | single => exact absurd rfl hne
  | @cons _ g v _ hgne hg more =>
    have hplaced := h.placed hblank
    rw [texts_cons, List.append_assoc, List.append_assoc] at heq
    obtain ⟨rest, ht, hgap, -⟩ := exists_of_word_append hplaced.proper hplaced.edge
      (hwords w₁ List.mem_cons_self) (IsGap.head?_isWord hg hgne _) heq
    obtain rfl : rest = [] := by
      cases rest with
      | nil => rfl
      | cons y rest =>
        obtain ⟨z, g, rfl⟩ := List.exists_cons_of_ne_nil hgne
        obtain rfl := (List.cons.inj hgap).1
        have hpart := hrun z (by simp [ht])
        rw [isWordPart_of_isBlank z (hg z List.mem_cons_self)] at hpart
        exact Bool.noConfusion hpart
    rw [List.append_nil] at ht
    rw [List.nil_append] at hgap
    have htail : ∀ w ∈ ws, IsWordText w := fun w hw => hwords w (List.mem_cons_of_mem w₁ hw)
    obtain ⟨x, v', hv, w, hw, hx⟩ := more.exists_head htail
    have hsolid : isBlank x = false := isBlank_eq_false_of_isWord ((htail w hw).2 x hx)
    obtain ⟨gs, u, rest, hafter, hgs, hblanks, hu, hmore, hnext⟩ :=
      h.of_cons.exists_next hg (s := v ++ r) (by simp [hv]) (by simp [hv, hsolid]) hgap.symm
    refine ⟨u, rest, v, hu, hmore, more, hnext.symm, fun w rest' hw huw => ?_⟩
    rw [← Bool.not_eq_false]
    intro hrest'
    refine hplaced.parted gs u rest hafter ?_ hblanks hu ⟨ws, w, rest', ht ▸ hws, hw, huw, hrest'⟩
    rintro rfl
    exact hgne hgs.symm

/-- At a word no phrase of several words is read. -/
theorem Worded.no_row (h : Worded (t :: after)) (hblank : t.kind.isBlank = false)
    (hrun : IsWordRun t) (hws : ws ∈ phraseRows) (hlength : 2 ≤ ws.length) (hv : Phrased ws v)
    (hr : r.head?.any isWord = false) : texts (t :: after) ≠ v ++ r := by
  intro heq
  induction ws generalizing t after v with
  | nil => exact absurd hlength (by simp)
  | cons w₁ ws ih =>
    have hwords := isWordText_of_mem_phraseRows _ hws
    obtain ⟨u, rest, v', hu, hmore, hv', hnext, hparted⟩ := h.exists_tail hblank hrun hws
      (by rintro rfl; exact absurd hlength (by simp)) hv heq
    have hplaced := hmore.placed hu
    by_cases hthree : 2 < (w₁ :: ws).length
    · -- the other words make a phrase, so the next token is its first word or all of it
      have hrow : ws ∈ phraseRows := tail_mem_phraseRows _ hws hthree
      obtain ⟨x, v'', hx, w, hw, hmem⟩ :=
        hv'.exists_head fun w hw => hwords w (List.mem_cons_of_mem w₁ hw)
      have hhead : u.value.head?.any (lead · == .letter) = true := by
        obtain ⟨y, z, hy⟩ := List.exists_cons_of_ne_nil hplaced.proper
        rw [texts_cons, hx, hy, List.cons_append] at hnext
        rw [hy, List.head?_cons, Option.any_some, (List.cons.inj hnext).1,
          lead_of_mem_phraseRows _ hws w (by simp [hw]) x hmem]
        rfl
      rcases hplaced.shape hhead with hurun | ⟨ws', hws', hphrased⟩
      · refine ih hmore hu hurun hrow ?_ hv' hnext
        simp only [List.length_cons] at hthree
        omega
      · have hustops := hplaced.edge
          (hphrased.getLast?_any_isWord (isWordText_of_mem_phraseRows ws' hws'))
        have hsame := IsPhraseAt.unique ⟨⟨ws, hrow, hv'⟩, hr⟩ ⟨⟨ws', hws', hphrased⟩, hustops⟩
          hnext.symm
        exact Bool.false_ne_true (hparted _ [] hv' (by rw [← hsame, List.append_nil]))
    · obtain ⟨w₂, rfl⟩ : ∃ w₂, ws = [w₂] := by
        refine List.length_eq_one_iff.1 ?_
        simp only [List.length_cons] at hlength hthree
        omega
      cases hv' with
      | single =>
        obtain ⟨rest', hrest', -, hstop⟩ := exists_of_word_append hplaced.proper hplaced.edge
          (hwords _ (List.mem_cons_of_mem w₁ List.mem_cons_self)) hr hnext
        rw [hparted _ rest' (.single _) hrest'] at hstop
        exact Bool.noConfusion hstop
      | cons _ _ more => exact nomatch more

/-- The token does not begin with a phrase of one word. -/
def BeginsNoPhrase (t : Token) : Prop :=
  ∀ w rest, [w] ∈ phraseRows → t.value = w ++ rest → rest.head?.any isWord = true

/-- At a word that begins with none no phrase is read at all. -/
theorem Worded.not_isPhraseAt (h : Worded (t :: us)) (hblank : t.kind.isBlank = false)
    (hrun : IsWordRun t) (hsingle : BeginsNoPhrase t) (heq : texts (t :: us) = v ++ r) :
    ¬IsPhraseAt v r := by
  rintro ⟨⟨ws, hws, hv⟩, hstop⟩
  by_cases hlength : 2 ≤ ws.length
  · exact h.no_row hblank hrun hws hlength hv hstop heq
  · obtain ⟨w, more, rfl⟩ := List.exists_cons_of_ne_nil (l := ws) (by rintro rfl; exact nomatch hv)
    obtain rfl : more = [] := by
      rw [List.length_cons] at hlength
      exact List.length_eq_zero_iff.1 (by omega)
    cases hv with
    | cons _ _ more => exact nomatch more
    | single =>
      obtain ⟨rest, hvalue, -, hrest⟩ := exists_of_word_append (h.placed hblank).proper
        (h.placed hblank).edge (isWordText_of_mem_phraseRows _ hws v List.mem_cons_self) hstop heq
      rw [hsingle v rest hws hvalue] at hrest
      exact Bool.noConfusion hrest

/-- A token where no phrase is read begins with none. -/
theorem Cut.beginsNoPhrase (h : Cut b t r) (hblank : t.kind.isBlank = false)
    (hnone : ∀ v r', t.value ++ r = v ++ r' → ¬IsPhraseAt v r') : BeginsNoPhrase t := by
  intro w rest hw hvalue
  rw [← Bool.not_eq_false]
  intro hrest
  refine hnone w (rest ++ r) (by rw [hvalue, List.append_assoc]) ⟨⟨[w], hw, .single w⟩, ?_⟩
  by_cases hnil : rest = []
  · subst hnil
    obtain ⟨x, hx, hword⟩ := (isWordText_of_mem_phraseRows _ hw w List.mem_cons_self).getLast?
    rw [List.append_nil] at hvalue
    exact (h.isEdged hblank).stops (by rw [hvalue, hx, Option.any_some, hword])
  · rwa [List.head?_append_of_ne_nil _ hnil]

/-- Words that follow each other across blanks join only if they are one token. -/
theorem Stands.not_joins (h : Stands b (t :: (gs ++ u :: after))) (ht : t.kind.isBlank = false)
    (hu : u.kind.isBlank = false) (hne : gs ≠ []) (hgs : ∀ g ∈ gs, g.kind.isBlank = true) :
    ¬Joins t u := by
  rintro ⟨ws, v, rest, hrow, hv, hvalue, hrest⟩
  have hgaps : Stands _ (gs ++ u :: after) := h.of_cons
  have hustands : Stands _ (u :: after) := hgaps.of_append
  have hwords := isWordText_of_mem_phraseRows _ hrow
  have hg := hgaps.gap_texts hne hgs
  have hstop : (rest ++ texts after).head?.any isWord = false := by
    by_cases hnil : rest = []
    · subst hnil
      rw [List.append_nil] at hvalue
      refine ((hustands.cut hu).isEdged hu).stops ?_
      rw [hvalue]
      exact hv.getLast?_any_isWord fun w hw => hwords w (List.mem_cons_of_mem _ hw)
    · rwa [List.head?_append_of_ne_nil _ hnil]
  have hphrase : IsPhraseAt (t.value ++ (texts gs ++ v)) (rest ++ texts after) :=
    ⟨⟨_, hrow, .cons hg.2 hg.1 hv⟩, hstop⟩
  have heq := (h.cut ht).eq_of_isPhraseAt hphrase (by simp [hvalue])
  exact hg.2 (List.append_eq_nil_iff.1 (List.self_eq_append_right.1 heq)).1

end SqlLayout.Sql
