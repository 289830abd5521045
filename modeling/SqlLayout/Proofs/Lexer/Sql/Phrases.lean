import SqlLayout.Proofs.Lexer.Sql.Numbers
import SqlLayout.Proofs.Text.Collapse

/-!
# Keywords of several words

A phrase is a row of openers, each with a gap after it, and a last word that ends at a word edge.
The last word is none of the openers, so a place has at most one phrase of a rule. Its gaps may be
of any blanks: other blanks make the same phrase (`Opened.respaced`, `Opened.collapse`).
-/

namespace SqlLayout.Sql

open Lexer Text Pattern

/-! ## Rows of openers -/

/-- The words one after another, each with a gap after it. -/
inductive Opened : List Text → Text → Prop
  | nil : Opened [] []
  | cons {u g o : Text} {us : List Text} (hne : g ≠ []) (hg : IsGap g) (more : Opened us o) :
      Opened (u :: us) (u ++ (g ++ o))

/-- The texts of these rows of openers. -/
def openedIn (table : List (List Text)) : Language Char := {o | ∃ us ∈ table, Opened us o}

theorem Opened.append {us vs : List Text} {o p : Text} (h : Opened us o) (h' : Opened vs p) :
    Opened (us ++ vs) (o ++ p) := by
  induction h with
  | nil => exact h'
  | @cons u g o us hne hg more ih =>
    have happend : u ++ (g ++ o) ++ p = u ++ (g ++ (o ++ p)) := by simp
    rw [List.cons_append, happend]
    exact .cons hne hg ih

theorem Opened.append_inv {us vs : List Text} {t : Text} (h : Opened (us ++ vs) t) :
    ∃ o p, t = o ++ p ∧ Opened us o ∧ Opened vs p := by
  induction us generalizing t with
  | nil => exact ⟨[], t, rfl, .nil, h⟩
  | cons u us ih =>
    rw [List.cons_append] at h
    cases h with
    | cons hne hg more =>
      obtain ⟨o, p, rfl, ho, hp⟩ := ih more
      exact ⟨_, p, by simp, .cons hne hg ho, hp⟩

theorem openedIn_nil : openedIn [[]] = 1 := by
  ext o
  constructor
  · rintro ⟨us, hus, ho⟩
    obtain rfl : us = [] := List.mem_singleton.1 hus
    cases ho
    rfl
  · intro ho
    obtain rfl : o = [] := ho
    exact ⟨[], by simp, .nil⟩

theorem openedIn_append (s t : List (List Text)) : openedIn (s ++ t) = openedIn s + openedIn t := by
  ext o
  constructor
  · rintro ⟨us, hus, ho⟩
    rcases List.mem_append.1 hus with hus | hus
    · exact .inl ⟨us, hus, ho⟩
    · exact .inr ⟨us, hus, ho⟩
  · rintro (⟨us, hus, ho⟩ | ⟨us, hus, ho⟩)
    · exact ⟨us, List.mem_append_left t hus, ho⟩
    · exact ⟨us, List.mem_append_right s hus, ho⟩

/-- Rows of the first table, each continued by rows of the second. -/
def rowsOf (s t : List (List Text)) : List (List Text) := s.flatMap fun us => t.map (us ++ ·)

theorem openedIn_rowsOf (s t : List (List Text)) :
    openedIn (rowsOf s t) = openedIn s * openedIn t := by
  ext o
  constructor
  · rintro ⟨ws, hws, ho⟩
    obtain ⟨us, hus, hws⟩ := List.mem_flatMap.1 hws
    obtain ⟨vs, hvs, rfl⟩ := List.mem_map.1 hws
    obtain ⟨p, q, rfl, hp, hq⟩ := ho.append_inv
    exact ⟨p, ⟨us, hus, hp⟩, q, ⟨vs, hvs, hq⟩, rfl⟩
  · rintro ⟨p, ⟨us, hus, hp⟩, q, ⟨vs, hvs, hq⟩, rfl⟩
    refine ⟨us ++ vs, ?_, hp.append hq⟩
    exact List.mem_flatMap.2 ⟨us, hus, List.mem_map.2 ⟨vs, hvs, rfl⟩⟩

/-! ## The rules -/

theorem spells_gap : gap.Spells {g | g ≠ [] ∧ IsGap g} := by
  intro c e
  rw [gap, spells_plus_char]
  have hclass : (CharSet.ofClass .blank).contains = isBlank :=
    funext fun x => CharSet.contains_ofClass .blank x
  rw [hclass]
  rfl

theorem opened_singleton {u o : Text} :
    Opened [u] o ↔ ∃ g, g ≠ [] ∧ IsGap g ∧ o = u ++ g := by
  constructor
  · intro h
    cases h with
    | @cons _ g _ _ hne hg more =>
      cases more
      exact ⟨g, hne, hg, by simp⟩
  · rintro ⟨g, hne, hg, rfl⟩
    have h := Opened.cons (u := u) hne hg .nil
    rwa [List.append_nil] at h

theorem spells_opener (u : String) : (Pattern.seq (phrase u) gap).Spells (openedIn [[u.toList]]) := by
  intro c e
  refine Iff.trans (((spells_text u.toList).seq spells_gap) c e)
    (exists_congr fun w => and_congr_left fun _ => ?_)
  constructor
  · rintro ⟨_, rfl, g, ⟨hne, hg⟩, rfl⟩
    exact ⟨[u.toList], by simp, opened_singleton.2 ⟨g, hne, hg, rfl⟩⟩
  · rintro ⟨us, hus, ho⟩
    rw [List.mem_singleton.1 hus, opened_singleton] at ho
    obtain ⟨g, hne, hg, rfl⟩ := ho
    exact ⟨u.toList, rfl, g, ⟨hne, hg⟩, rfl⟩

/-- The rows of one of these words. -/
def singles (us : List String) : List (List Text) := us.map fun u => [u.toList]

theorem spells_openers {us : List String} (hne : us ≠ []) :
    (choice (us.map fun u => Pattern.seq (phrase u) gap)).Spells (openedIn (singles us)) := by
  induction us with
  | nil => exact absurd rfl hne
  | cons u us ih =>
    cases us with
    | nil => exact spells_opener u
    | cons v us =>
      have happend : singles (u :: v :: us) = [[u.toList]] ++ singles (v :: us) := rfl
      rw [happend, openedIn_append]
      exact (spells_opener u).alt (ih (by simp))

theorem spells_maybeWord {us : List String} (hne : us ≠ []) :
    (maybeWord us).Spells (openedIn (singles us ++ [[]])) := by
  rw [openedIn_append, openedIn_nil]
  exact (spells_openers hne).opt

/-- A text of word characters, at least one. -/
def IsWordText (w : Text) : Prop := w ≠ [] ∧ ∀ x ∈ w, isWord x = true

theorem IsWordText.isSolid {w : Text} (h : IsWordText w) : IsSolid w :=
  fun x hx => isBlank_eq_false_of_isWord (h.2 x hx)

theorem IsWordText.getLast? {w : Text} (h : IsWordText w) :
    ∃ x, w.getLast? = some x ∧ isWord x = true :=
  ⟨w.getLast h.1, List.getLast?_eq_some_getLast h.1, h.2 _ (List.getLast_mem h.1)⟩

/-- After a word character there is an edge exactly if no other one follows. -/
theorem atWordEdge_of_isWord {e : Cursor} (h : e.before.head?.any isWord = true) :
    e.atWordEdge = true ↔ e.rest.head?.any isWord = false := by
  rw [Cursor.atWordEdge, h]
  cases e.rest.head?.any isWord <;> simp

/-- Openers and a last word at whose end an edge is. -/
theorem mem_ends_phrase {p : Pattern} {table : List (List Text)} (hp : p.Spells (openedIn table))
    {last : String} (hlast : IsWordText last.toList) {c e : Cursor} :
    e ∈ (Pattern.seq p (Pattern.seq (phrase last) (anchor .wordEdge))).ends c ↔
      ∃ o ∈ openedIn table, c.Reads (o ++ last.toList) e ∧ e.rest.head?.any isWord = false := by
  have hanchor : ∀ d : Cursor, e ∈ (anchor .wordEdge).ends d ↔ e = d ∧ d.atWordEdge = true := by
    intro d
    rw [ends]
    show e ∈ (if d.atWordEdge then [d] else []) ↔ _
    split <;> simp_all
  have hedge : ∀ {o : Text}, c.Reads (o ++ last.toList) e →
      (e.atWordEdge = true ↔ e.rest.head?.any isWord = false) := by
    intro o hread
    obtain ⟨x, hx, hword⟩ := hlast.getLast?
    refine atWordEdge_of_isWord ?_
    rw [hread.before_eq, List.reverse_append, List.append_assoc, List.head?_append,
      List.head?_reverse, hx]
    exact hword
  rw [ends, List.mem_flatMap]
  constructor
  · rintro ⟨d, hd, he⟩
    obtain ⟨o, ho, hread⟩ := (hp c d).1 hd
    rw [ends] at he
    obtain ⟨d', hd', he⟩ := List.mem_flatMap.1 he
    obtain ⟨_, rfl, hread'⟩ := (spells_text last.toList d d').1 hd'
    obtain ⟨rfl, hat⟩ := (hanchor d').1 he
    exact ⟨o, ho, hread.append hread', (hedge (hread.append hread')).1 hat⟩
  · rintro ⟨o, ho, hread, hrest⟩
    have hcat := ((hp.seq (spells_text last.toList)) c e).2
      ⟨o ++ last.toList, ⟨o, ho, last.toList, rfl, rfl⟩, hread⟩
    rw [ends] at hcat
    obtain ⟨d, hd, hd'⟩ := List.mem_flatMap.1 hcat
    refine ⟨d, hd, ?_⟩
    rw [ends]
    exact List.mem_flatMap.2 ⟨e, hd', (hanchor e).2 ⟨rfl, (hedge hread).2 hrest⟩⟩

/-- The rows of openers are of words, and the last word is none of them. -/
structure IsPhraseTable (table : List (List Text)) (last : Text) : Prop where
  openers : ∀ us ∈ table, ∀ u ∈ us, IsWordText u ∧ u ≠ last
  last : IsWordText last

/-- The rule reads the phrases of a table. -/
structure ReadsPhrase (r : Rule) (table : List (List Text)) (last : Text) : Prop where
  isTable : IsPhraseTable table last
  pattern : ∃ p : Pattern, r.matcher = p ∧ ∀ c e, e ∈ p.ends c ↔
    ∃ o ∈ openedIn table, c.Reads (o ++ last) e ∧ e.rest.head?.any isWord = false

instance (w : Text) : Decidable (IsWordText w) := inferInstanceAs (Decidable (_ ∧ _))

theorem isPhraseTable_of_all {table : List (List Text)} {last : Text}
    (h : (∀ us ∈ table, ∀ u ∈ us, IsWordText u ∧ u ≠ last) ∧ IsWordText last) :
    IsPhraseTable table last :=
  ⟨h.1, h.2⟩

theorem readsPhrase_keywords {v w : String} {kind : Kind}
    (h : IsPhraseTable [[v.toList]] w.toList) :
    ReadsPhrase ⟨keywords [v, w], kind⟩ [[v.toList]] w.toList where
  isTable := h
  pattern := by
    refine ⟨_, rfl, fun c e => ?_⟩
    have hassoc : (keywords [v, w]).ends c =
        (Pattern.seq (Pattern.seq (phrase v) gap)
          (Pattern.seq (phrase w) (anchor .wordEdge))).ends c := by
      show (Pattern.seq (phrase v) (Pattern.seq gap
        (Pattern.seq (phrase w) (anchor .wordEdge)))).ends c = _
      rw [ends, ends, ends, List.flatMap_assoc]
      rfl
    rw [hassoc]
    exact mem_ends_phrase (spells_opener v) h.last

/-- The sides of a join, its manners, and the joins without either. -/
def joinOpeners : List (List Text) :=
  rowsOf (singles ["LEFT", "RIGHT", "FULL"] ++ [[]]) (singles ["INNER", "OUTER", "STRAIGHT"] ++ [[]])
    ++ (singles ["CROSS", "NATURAL"] ++ [[]]) ++ [[]]

theorem readsPhrase_join : ReadsPhrase join joinOpeners "JOIN".toList where
  isTable := isPhraseTable_of_all (by decide)
  pattern := by
    refine ⟨_, rfl, fun c e => mem_ends_phrase ?_ (by decide)⟩
    rw [joinOpeners, openedIn_append, openedIn_append, openedIn_nil, openedIn_rowsOf]
    exact (((spells_maybeWord (by simp)).seq (spells_maybeWord (by simp))).alt
      (spells_maybeWord (by simp))).opt

theorem readsPhrase_orderBy : ReadsPhrase orderBy [["ORDER".toList]] "BY".toList :=
  readsPhrase_keywords (isPhraseTable_of_all (by decide))

theorem readsPhrase_groupBy : ReadsPhrase groupBy [["GROUP".toList]] "BY".toList :=
  readsPhrase_keywords (isPhraseTable_of_all (by decide))

theorem readsPhrase_unionAll : ReadsPhrase unionAll [["UNION".toList]] "ALL".toList :=
  readsPhrase_keywords (isPhraseTable_of_all (by decide))

/-! ## One phrase at a place -/

variable {us us' : List Text} {o o' last r r' : Text}

theorem IsGap.head?_isWord {g : Text} (hg : IsGap g) (hne : g ≠ []) (t : Text) :
    (g ++ t).head?.any isWord = false := by
  cases g with
  | nil => exact absurd rfl hne
  | cons x g => exact isWord_eq_false_of_isBlank (hg x List.mem_cons_self)

/-- Openers and what follows them begin with a word character if that does. -/
theorem Opened.head (h : Opened us o) (hus : ∀ u ∈ us, IsWordText u) (hlast : IsWordText last)
    (r : Text) : ∃ x t, o ++ (last ++ r) = x :: t ∧ isWord x = true := by
  have hword : ∀ {w : Text}, IsWordText w → ∀ t, ∃ x u, w ++ t = x :: u ∧ isWord x = true := by
    intro w hw t
    obtain ⟨x, w, rfl⟩ := List.exists_cons_of_ne_nil hw.1
    exact ⟨x, w ++ t, rfl, hw.2 x List.mem_cons_self⟩
  cases h with
  | nil => exact hword hlast r
  | @cons u g o us hne hg more =>
    rw [List.append_assoc]
    exact hword (hus u List.mem_cons_self) _

/-- Texts of the same row begin with the same character. -/
theorem Opened.head?_eq (h : Opened us o) (h' : Opened us o') (hus : ∀ u ∈ us, IsWordText u) :
    (o ++ last).head? = (o' ++ last).head? := by
  cases h with
  | nil =>
    cases h'
    rfl
  | @cons u g o us hne hg more =>
    cases h' with
    | cons hne' hg' more' =>
      obtain ⟨x, u, rfl⟩ := List.exists_cons_of_ne_nil (hus u List.mem_cons_self).1
      rfl

/-- Openers are told by the text, as the last word is none of them. -/
theorem Opened.unique (h : Opened us o) (h' : Opened us' o')
    (hus : ∀ u ∈ us, IsWordText u ∧ u ≠ last) (hus' : ∀ u ∈ us', IsWordText u ∧ u ≠ last)
    (hlast : IsWordText last) (hr : r.head?.any isWord = false)
    (hr' : r'.head?.any isWord = false) (heq : o ++ (last ++ r) = o' ++ (last ++ r')) :
    o = o' := by
  induction h generalizing us' o' with
  | nil =>
    cases h' with
    | nil => rfl
    | @cons u g o' us' hne hg more =>
      -- the last word would be an opener
      obtain ⟨hu, hulast⟩ := hus' u List.mem_cons_self
      simp only [List.nil_append, List.append_assoc] at heq
      have hwords := run_unique hlast.2 hu.2 hr (IsGap.head?_isWord hg hne _) heq
      exact absurd hwords.1.symm hulast
  | @cons u g o us hne hg more ih =>
    obtain ⟨hu, hulast⟩ := hus u List.mem_cons_self
    cases h' with
    | nil =>
      simp only [List.nil_append, List.append_assoc] at heq
      have hwords := run_unique hu.2 hlast.2 (IsGap.head?_isWord hg hne _) hr' heq
      exact absurd hwords.1 hulast
    | @cons u' g' o' us' hne' hg' more' =>
      obtain ⟨hu', -⟩ := hus' u' List.mem_cons_self
      simp only [List.append_assoc] at heq
      obtain ⟨rfl, hgaps⟩ := run_unique hu.2 hu'.2 (IsGap.head?_isWord hg hne _)
        (IsGap.head?_isWord hg' hne' _) heq
      -- a gap ends where the next word begins
      have hstop : ∀ {vs : List Text} {p : Text} (s : Text), Opened vs p →
          (∀ v ∈ vs, IsWordText v ∧ v ≠ last) → (p ++ (last ++ s)).head?.any isBlank = false := by
        intro vs p s hp hvs
        obtain ⟨x, t, hcons, hx⟩ := hp.head (fun v hv => (hvs v hv).1) hlast s
        rw [hcons]
        exact isBlank_eq_false_of_isWord hx
      have htail : ∀ v ∈ us, IsWordText v ∧ v ≠ last :=
        fun v hv => hus v (List.mem_cons_of_mem u hv)
      have htail' : ∀ v ∈ us', IsWordText v ∧ v ≠ last :=
        fun v hv => hus' v (List.mem_cons_of_mem u hv)
      obtain ⟨rfl, hrest⟩ := run_unique hg hg' (hstop r more htail) (hstop r' more' htail') hgaps
      rw [ih more' htail htail' hrest]

/-- A rule for phrases applies exactly at its phrases. -/
theorem ReadsPhrase.end?_eq_some_iff {rule : Rule} {table : List (List Text)} {last : Text}
    (h : ReadsPhrase rule table last) {c e : Cursor} :
    rule.end? c = some e ↔
      ∃ o ∈ openedIn table, c.Reads (o ++ last) e ∧ e.rest.head?.any isWord = false := by
  obtain ⟨p, hr, hends⟩ := h.pattern
  rw [← hends]
  refine Rule.end?_eq_some_iff_mem_ends hr ?_ ?_
  · intro d hd e he
    obtain ⟨o, ⟨us, hus, ho⟩, hread, hafter⟩ := (hends c d).1 hd
    obtain ⟨o', ⟨us', hus', ho'⟩, hread', hafter'⟩ := (hends c e).1 he
    have heq : o = o' := by
      refine ho.unique ho' (h.isTable.openers us hus) (h.isTable.openers us' hus') h.isTable.last
        hafter hafter' ?_
      rw [← List.append_assoc, ← List.append_assoc, ← hread.rest_eq, hread'.rest_eq]
    exact hread.unique (heq ▸ hread')
  · intro e he
    obtain ⟨o, -, hread, -⟩ := (hends c e).1 he
    refine hread.shorter_iff.2 ?_
    simp [h.isTable.last.1]

/-! ## Phrases with other blanks -/

theorem IsWordText.respaced_inv {w t s : Text} {p : Bool} (hw : IsWordText w)
    (hs : Respaced p s (w ++ t)) : ∃ u, s = w ++ u ∧ Respaced true u t := by
  obtain ⟨u, rfl, hu⟩ := hs.append_inv hw.isSolid
  obtain ⟨x, hx, hword⟩ := hw.getLast?
  rw [hx, Option.elim_some, hword] at hu
  exact ⟨u, rfl, hu⟩

theorem IsWordText.respaced {w t t' : Text} (hw : IsWordText w) (p : Bool)
    (ht : Respaced true t t') : Respaced p (w ++ t) (w ++ t') := by
  obtain ⟨x, hx, hword⟩ := hw.getLast?
  refine .append ?_
  rw [hx, Option.elim_some, hword]
  exact ht

/-- Where blanks differ, the same words may be read. -/
theorem Opened.respaced_inv {p : Bool} {s : Text} (h : Opened us o')
    (hus : ∀ u ∈ us, IsWordText u) (hlast : IsWordText last)
    (hs : Respaced p s (o' ++ (last ++ r'))) :
    ∃ o r, s = o ++ (last ++ r) ∧ Opened us o ∧ Respaced true r r' := by
  induction h generalizing p s with
  | nil =>
    obtain ⟨r, rfl, hr⟩ := hlast.respaced_inv hs
    exact ⟨[], r, rfl, .nil, hr⟩
  | @cons u g' o' us hne hg' more ih =>
    have htail : ∀ v ∈ us, IsWordText v := fun v hv => hus v (List.mem_cons_of_mem u hv)
    simp only [List.append_assoc] at hs
    obtain ⟨s', rfl, hs'⟩ := (hus u List.mem_cons_self).respaced_inv hs
    obtain ⟨x, t', hcons, hx⟩ := more.head htail hlast r'
    rw [hcons] at hs'
    obtain ⟨g, t, rfl, hg, ht, hgne⟩ := hs'.gap_inv hg' hx
    have hnext : Respaced false (x :: t) (o' ++ (last ++ r')) := by
      rw [hcons]
      exact .keep (hx ▸ ht)
    obtain ⟨o, r, hxt, ho, hr⟩ := ih htail hnext
    refine ⟨u ++ (g ++ o), r, ?_, .cons (hgne rfl hne) hg ho, hr⟩
    rw [hxt]
    simp

theorem Opened.words (h : Opened us o) (hus : ∀ u ∈ us, IsWordText u) (hlast : IsWordText last) :
    Text.words (o ++ last) = us ++ [last] := by
  induction h with
  | nil => exact words_of_isSolid hlast.1 hlast.isSolid
  | @cons u g o us hne hg more ih =>
    have hu := hus u List.mem_cons_self
    rw [List.append_assoc, List.append_assoc, words_append_gap hu.1 hu.isSolid hne hg,
      ih fun v hv => hus v (List.mem_cons_of_mem u hv)]
    rfl

/-- A phrase with single spaces has the same words. -/
theorem Opened.collapse (h : Opened us o) (hus : ∀ u ∈ us, IsWordText u) (hlast : IsWordText last) :
    ∃ o', Text.collapse (o ++ last) = o' ++ last ∧ Opened us o' ∧
      ∀ p r r', Respaced true r r' → Respaced p (o ++ (last ++ r)) (o' ++ (last ++ r')) := by
  induction h with
  | nil =>
    exact ⟨[], collapse_of_isSolid hlast.1 hlast.isSolid, .nil, fun p r r' => hlast.respaced p⟩
  | @cons u g o us hne hg more ih =>
    have hu := hus u List.mem_cons_self
    have htail : ∀ v ∈ us, IsWordText v := fun v hv => hus v (List.mem_cons_of_mem u hv)
    obtain ⟨o', hcollapse, ho', hrespaced⟩ := ih htail
    have hspace : IsGap " ".toList := by
      intro x hx
      have hall : ∀ y ∈ " ".toList, isBlank y = true := by decide
      exact hall x hx
    refine ⟨u ++ (" ".toList ++ o'), ?_, .cons (by simp) hspace ho', ?_⟩
    · have hwords : Text.words (o ++ last) ≠ [] := by
        rw [more.words htail hlast]
        simp
      rw [List.append_assoc, List.append_assoc, collapse_append_gap hu.1 hu.isSolid hne hg hwords,
        hcollapse, List.append_assoc, List.append_assoc]
    · intro p r r' hr
      simp only [List.append_assoc]
      exact hu.respaced p (.gap hne hg (by simp) hspace (hrespaced false r r' hr))

end SqlLayout.Sql
