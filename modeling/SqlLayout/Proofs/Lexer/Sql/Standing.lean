import SqlLayout.Proofs.Lexer.Sql.Moving
import SqlLayout.Proofs.Lexer.Sql.Tokens

/-!
# Tokens that stand where they would be cut

In a list of tokens each one stands between the texts of those before and after it. If all tokens
that are no blanks would be cut just there, and the others are gaps, the scan of the whole text
finds these tokens again, with blanks of its own between them (`Stands.scan_texts`).
-/

namespace SqlLayout

/-- The texts of the tokens one after another. -/
def texts (ts : List Token) : Text := ts.flatMap (·.value)

@[simp] theorem texts_nil : texts [] = [] := rfl

@[simp] theorem texts_cons (t : Token) (ts : List Token) : texts (t :: ts) = t.value ++ texts ts :=
  List.flatMap_cons

@[simp] theorem texts_append (ts us : List Token) : texts (ts ++ us) = texts ts ++ texts us :=
  List.flatMap_append

/-- The tokens that are no blanks, by kind and text. -/
def solids (ts : List Token) : List (Kind × Text) :=
  (ts.filter (!·.kind.isBlank)).map fun t => (t.kind, t.value)

theorem solids_append (ts us : List Token) : solids (ts ++ us) = solids ts ++ solids us := by
  simp [solids]

theorem solids_of_isBlank {gs : List Token} (h : ∀ g ∈ gs, g.kind.isBlank = true) :
    solids gs = [] := by
  rw [solids, List.map_eq_nil_iff, List.filter_eq_nil_iff]
  intro g hg
  simp [h g hg]

theorem solids_cons_blank {t : Token} (h : t.kind.isBlank = true) (ts : List Token) :
    solids (t :: ts) = solids ts := by
  rw [solids, List.filter_cons_of_neg (by simp [h]), solids]

theorem solids_cons {t : Token} (h : t.kind.isBlank = false) (ts : List Token) :
    solids (t :: ts) = (t.kind, t.value) :: solids ts := by
  rw [solids, List.filter_cons_of_pos (by simp [h]), List.map_cons, solids]

namespace Sql

open Lexer Text

variable {b b' r r' s : Text} {t : Token} {ts us : List Token} {n m : Nat}

/-- A token that is no comment is cut between other texts that do not change its piece. -/
theorem Cut.moved (h : Cut b t r) (hblank : t.kind.isBlank = false) (hcomment : t.kind ≠ .comment)
    (hm : ∀ kind, Piece b t.value r kind → Moves t.value kind b r b' r') : Cut b' t r' := by
  obtain ⟨kind, hpiece, hkind⟩ := h
  refine ⟨kind, hpiece.moved ?_ ?_ (hm kind hpiece), hkind⟩
  · by_cases hword : kind = .useAsKeyword
    · rw [hword]
      rfl
    · rwa [hkind, resolve_of_ne hword] at hblank
  · rintro rfl
    rw [resolve_of_ne (by decide)] at hkind
    exact hcomment hkind

/-- After `b` the blank tokens are gaps, and the others would be cut where they stand. -/
inductive Stands : Text → List Token → Prop
  | nil (b : Text) : Stands b []
  | blank {b : Text} {t : Token} {ts : List Token} (hblank : t.kind.isBlank = true)
      (hgap : IsGap t.value) (hne : t.value ≠ []) (more : Stands (t.value.reverse ++ b) ts) :
      Stands b (t :: ts)
  | token {b : Text} {t : Token} {ts : List Token} (hblank : t.kind.isBlank = false)
      (hcut : Cut b t (texts ts)) (more : Stands (t.value.reverse ++ b) ts) : Stands b (t :: ts)

theorem Stands.of_cons (h : Stands b (t :: ts)) : Stands (t.value.reverse ++ b) ts := by
  cases h with
  | blank _ _ _ more => exact more
  | token _ _ more => exact more

theorem Stands.cut (h : Stands b (t :: ts)) (hblank : t.kind.isBlank = false) :
    Cut b t (texts ts) := by
  cases h with
  | blank hblank' =>
    rw [hblank] at hblank'
    exact Bool.noConfusion hblank'
  | token _ hcut _ => exact hcut

theorem Stands.gap (h : Stands b (t :: ts)) (hblank : t.kind.isBlank = true) :
    IsGap t.value ∧ t.value ≠ [] := by
  cases h with
  | blank _ hgap hne _ => exact ⟨hgap, hne⟩
  | token hblank' _ _ =>
    rw [hblank] at hblank'
    exact Bool.noConfusion hblank'

theorem Stands.value_ne_nil (h : Stands b (t :: ts)) : t.value ≠ [] := by
  cases h with
  | blank _ _ hne _ => exact hne
  | token _ hcut _ => exact hcut.ne_nil

theorem Stands.head?_texts (h : Stands b (t :: ts)) (r : Text) :
    (t.value ++ r).head? = t.value.head? :=
  List.head?_append_of_ne_nil _ h.value_ne_nil

theorem Stands.eq_nil (h : Stands b ts) (hnil : texts ts = []) : ts = [] := by
  cases ts with
  | nil => rfl
  | cons t ts => exact absurd (List.append_eq_nil_iff.1 hnil).1 h.value_ne_nil

theorem Stands.of_append {vs : List Token} (h : Stands b (vs ++ us)) :
    Stands ((texts vs).reverse ++ b) us := by
  induction vs generalizing b with
  | nil => exact h
  | cons v vs ih =>
    rw [texts_cons, List.reverse_append, List.append_assoc]
    exact ih h.of_cons

theorem Stands.of_mem (h : Stands b ts) (ht : t ∈ ts) : ∃ b after, Stands b (t :: after) := by
  obtain ⟨vs, after, rfl⟩ := List.append_of_mem ht
  exact ⟨_, after, h.of_append⟩

theorem Stands.gap_texts {gs : List Token} (h : Stands b (gs ++ us)) (hne : gs ≠ [])
    (hgs : ∀ g ∈ gs, g.kind.isBlank = true) : IsGap (texts gs) ∧ texts gs ≠ [] := by
  induction gs generalizing b with
  | nil => exact absurd rfl hne
  | cons g gs ih =>
    have hgap := h.gap (hgs g List.mem_cons_self)
    refine ⟨?_, by simp [hgap.2]⟩
    by_cases hnil : gs = []
    · rw [hnil, texts_cons, texts_nil, List.append_nil]
      exact hgap.1
    · rw [texts_cons]
      exact hgap.1.append (ih h.of_cons hnil fun u hu => hgs u (List.mem_cons_of_mem g hu)).1

/-- The tokens that are cut on the way to the end of a text stand where they are cut. -/
theorem stands_of_cuts {c d : Cursor} (h : Cuts lexer n c ts m d) (hend : d.rest = []) :
    c.rest = texts ts ∧ Stands c.before ts := by
  induction h with
  | done n c => exact ⟨hend, .nil _⟩
  | @step n m c d e t ts hnext _ ih =>
    obtain ⟨b, s⟩ := c
    obtain ⟨r, rfl, rfl, -, hcut⟩ := next_eq_token_iff_cut.1 hnext
    obtain ⟨hr, hstands⟩ := ih hend
    obtain rfl : r = texts ts := hr
    refine ⟨(texts_cons t ts).symm, ?_⟩
    by_cases hblank : t.kind.isBlank = true
    · exact .blank hblank (hcut.isGap hblank) hcut.ne_nil hstands
    · rw [Bool.not_eq_true] at hblank
      exact .token hblank hcut hstands

/-- The tokens of a complete scan stand where they are cut. -/
theorem stands_tokens (h : (scan s).ending = .complete) :
    s = texts (tokens s) ∧ Stands [] (tokens s) := by
  obtain ⟨m, d, hcuts, hstop⟩ := cuts_scanFrom lexer 0 (Cursor.start s)
  change Stops lexer m d (scan s).ending at hstop
  rw [h] at hstop
  exact stands_of_cuts hcuts hstop

/-- Behind a gap the tokens that stand are found again. -/
theorem Stands.exists_cuts_gap {g : Text} (h : Stands (g.reverse ++ b) us) (hg : IsGap g)
    (n : Nat) : ∃ ts m d, Cuts lexer n ⟨b, g ++ texts us⟩ ts m d ∧ d.rest = [] ∧
      solids ts = solids us := by
  -- neighbouring blanks are one gap for the scan, so it grows until a token comes
  generalize hb : g.reverse ++ b = b₀ at h
  induction h generalizing g b n with
  | nil =>
    obtain ⟨gs, hcuts, hgs⟩ := Sql.exists_cuts_gap (r := []) hg rfl b n
    exact ⟨gs, _, _, hcuts, rfl, solids_of_isBlank hgs⟩
  | @blank b₀ t us hblank hgap _ _ ih =>
    obtain ⟨ts, m, d, hcuts, hend, hsolids⟩ := ih (b := b) (hg.append hgap) n (by simp [← hb])
    refine ⟨ts, m, d, ?_, hend, ?_⟩
    · rw [texts_cons, ← List.append_assoc]
      exact hcuts
    · rw [hsolids, solids_cons_blank hblank]
  | @token b₀ t us hblank hcut _ ih =>
    subst hb
    have hhead : (t.value ++ texts us).head?.any isBlank = false := by
      rw [List.head?_append_of_ne_nil _ hcut.ne_nil]
      exact (hcut.isEdged hblank).head
    obtain ⟨gs, hgaps, hgs⟩ := Sql.exists_cuts_gap hg hhead b n
    obtain ⟨ts, m, d, hcuts, hend, hsolids⟩ := ih (g := [])
      (b := t.value.reverse ++ (g.reverse ++ b)) IsGap.nil (n + g.length + t.value.length) rfl
    have hnext : lexer.next (n + g.length) ⟨g.reverse ++ b, t.value ++ texts us⟩ =
        .token { t with offset := (n + g.length : Nat) }
          ⟨t.value.reverse ++ (g.reverse ++ b), texts us⟩ :=
      next_eq_token_iff_cut.2 ⟨texts us, rfl, rfl, rfl, hcut⟩
    refine ⟨gs ++ { t with offset := (n + g.length : Nat) } :: ts, m, d, ?_, hend, ?_⟩
    · rw [texts_cons]
      exact hgaps.trans (.step hnext hcuts)
    · rw [solids_append, solids_of_isBlank hgs, List.nil_append, solids_cons hblank, ← hsolids]
      exact solids_cons (t := { t with offset := (n + g.length : Nat) }) hblank ts

/-- The scan of tokens that stand is complete and finds them again. -/
theorem Stands.scan_texts (h : Stands [] us) :
    (scan (texts us)).ending = .complete ∧ solids (tokens (texts us)) = solids us := by
  obtain ⟨ts, m, d, hcuts, hend, hsolids⟩ := h.exists_cuts_gap (g := []) (b := []) IsGap.nil 0
  have hscan : scan (texts us) = ⟨ts, .complete⟩ := scanFrom_eq hcuts hend
  rw [tokens, hscan]
  exact ⟨rfl, hsolids⟩

/-! ## Tokens with the same texts -/

/-- A list of tokens has gaps for its blanks, and its other tokens begin with no blank. -/
def Gapped (us : List Token) : Prop :=
  ∀ u ∈ us, u.value ≠ [] ∧
    (u.kind.isBlank = true → IsGap u.value) ∧
    (u.kind.isBlank = false → u.value.head?.any isBlank = false)

theorem Stands.gapped (h : Stands b us) : Gapped us := by
  intro u hu
  obtain ⟨b, after, h⟩ := h.of_mem hu
  exact ⟨h.value_ne_nil, fun hblank => (h.gap hblank).1,
    fun hblank => ((h.cut hblank).isEdged hblank).head⟩

/-- Blanks stand before tokens that stand. -/
theorem Stands.blanks {gs : List Token} (hgs : ∀ g ∈ gs, g.kind.isBlank = true)
    (hgapped : Gapped gs) (h : Stands ((texts gs).reverse ++ b) us) : Stands b (gs ++ us) := by
  induction gs generalizing b with
  | nil => exact h
  | cons g gs ih =>
    have hblank := hgs g List.mem_cons_self
    obtain ⟨hne, hgap, -⟩ := hgapped g List.mem_cons_self
    refine .blank hblank (hgap hblank) hne (ih (fun u hu => hgs u (List.mem_cons_of_mem g hu))
      (fun u hu => hgapped u (List.mem_cons_of_mem g hu)) ?_)
    rwa [texts_cons, List.reverse_append, List.append_assoc] at h

/-- The first token of a list that is no blank stands behind blanks. -/
theorem exists_of_solids_eq_cons {k : Kind} {v : Text} {rest : List (Kind × Text)}
    (h : solids us = (k, v) :: rest) :
    ∃ gs u after, us = gs ++ u :: after ∧ (∀ g ∈ gs, g.kind.isBlank = true) ∧
      u.kind.isBlank = false ∧ u.kind = k ∧ u.value = v ∧ solids after = rest := by
  obtain ⟨u, after, hfilter, hu, hafter⟩ := List.map_eq_cons_iff.1 h
  obtain ⟨gs, after', rfl, hgs, hcode, rfl⟩ := List.filter_eq_cons_iff.1 hfilter
  obtain ⟨rfl, rfl⟩ := Prod.mk.inj hu
  exact ⟨gs, u, after', rfl, by simpa using hgs, by simpa using hcode, rfl, rfl, hafter⟩

/-- Tokens with the text and the solids of tokens that stand stand there, too. -/
theorem Stands.of_solids {vs : List Token} {g : Text} (h : Stands (g.reverse ++ b) vs)
    (hg : IsGap g) (hgapped : Gapped us) (htexts : texts us = g ++ texts vs)
    (hsolids : solids us = solids vs) : Stands b us := by
  -- the gap `g` is what blanks of `vs` have been passed
  generalize hb : g.reverse ++ b = b₀ at h
  induction h generalizing g b us with
  | nil =>
    have hblank : ∀ u ∈ us, u.kind.isBlank = true := by simpa [solids] using hsolids
    have hall : Stands b (us ++ []) := .blanks hblank hgapped (.nil _)
    rwa [List.append_nil] at hall
  | @blank b₀ v vs hblank hgap _ _ ih =>
    refine ih (g := g ++ v.value) (hg.append hgap) hgapped ?_ ?_ (by simp [← hb])
    · rw [htexts, texts_cons, List.append_assoc]
    · rw [hsolids, solids_cons_blank hblank]
  | @token b₀ v vs hblank hcut more ih =>
    subst hb
    rw [solids_cons hblank] at hsolids
    obtain ⟨gs, u, after, rfl, hgs, hu, hkind, hvalue, hafter⟩ := exists_of_solids_eq_cons hsolids
    have hhead : ∀ r, (v.value ++ r).head?.any isBlank = false := by
      intro r
      rw [List.head?_append_of_ne_nil _ hcut.ne_nil]
      exact (hcut.isEdged hblank).head
    have hgap : IsGap (texts gs) := by
      intro x hx
      obtain ⟨d, hd, hx⟩ := List.mem_flatMap.1 hx
      exact (hgapped d (by simp [hd])).2.1 (hgs d hd) x hx
    rw [texts_append, texts_cons, texts_cons, hvalue] at htexts
    obtain ⟨heq, hrest⟩ := run_unique hgap hg (hhead _) (hhead _) htexts
    have hrest := List.append_cancel_left hrest
    refine .blanks hgs (fun d hd => hgapped d (by simp [hd])) ?_
    rw [heq]
    have hcut' : Cut (g.reverse ++ b) u (texts after) := by
      obtain ⟨kind, hpiece, hresolve⟩ := hcut
      refine ⟨kind, ?_, ?_⟩
      · rw [hvalue, hrest]
        exact hpiece
      · rw [hkind, hvalue, hresolve]
    refine .token hu hcut' (ih (g := []) IsGap.nil (fun d hd => hgapped d (by simp [hd])) hrest
      hafter ?_)
    rw [hvalue]
    rfl

/-- A complete scan that finds certain tokens again says that they stand. -/
theorem stands_of_scan_texts (hgapped : Gapped us) (hcomplete : (scan (texts us)).ending = .complete)
    (hsolids : solids (tokens (texts us)) = solids us) : Stands [] us := by
  obtain ⟨htexts, hstands⟩ := stands_tokens hcomplete
  exact Stands.of_solids (g := []) hstands IsGap.nil hgapped htexts hsolids.symm

end Sql

end SqlLayout
