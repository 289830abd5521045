import SqlLayout.Proofs.Lexer.Sql.Shapes

/-!
# Where identifiers are split

A word takes all characters that may be part of it, and a number keeps off them. A phrase only ends
at a word edge, so a dollar or number sign may follow its last word. That is the one way to split an
identifier, since before a character of words nothing else than a phrase and a run of signs ends
with one (`Piece.isPhraseAt_or_signs`). From the split on number signs and words are cut until the
identifier ends or the scan stops at a dollar sign; nowhere else does a token start inside of a word
(`tokenize_splits`).
-/

namespace SqlLayout.Sql

open Lexer Text

variable {b r s v : Text} {t : Token} {kind : Kind} {n m k : Nat}

/-! ## Places inside of words -/

/-- From the first place up to the second one, and at it, stand characters of words. -/
def WordParts (s : Text) (n k : Nat) : Prop :=
  n ≤ k ∧ ∀ i, n ≤ i → i ≤ k → s[i]?.any isWordPart = true

/-- A word begins before the place and goes on up to it and at it. -/
def InsideWord (s : Text) (k : Nat) : Prop :=
  ∃ n, s[n]?.any isWord = true ∧ WordParts s (n + 1) k

/-- The token ends with a word character, and the text goes on with a character of words. -/
def Splits (s : Text) (t : Token) : Prop :=
  t.value.getLast?.any isWord = true ∧ s[t.stop.toNat]?.any isWordPart = true

theorem WordParts.trans (h : WordParts s n m) (h' : WordParts s m k) : WordParts s n k := by
  refine ⟨h.1.trans h'.1, fun i hni hik => ?_⟩
  rcases Nat.le_total i m with him | hmi
  · exact h.2 i hni him
  · exact h'.2 i hmi hik

theorem WordParts.mono_left (h : WordParts s n k) (hnm : n ≤ m) (hmk : m ≤ k) : WordParts s m k :=
  ⟨hmk, fun i hmi hik => h.2 i (hnm.trans hmi) hik⟩

theorem WordParts.mono_right (h : WordParts s n k) (hnm : n ≤ m) (hmk : m ≤ k) :
    WordParts s n m :=
  ⟨hnm, fun i hni him => h.2 i hni (him.trans hmk)⟩

/-- In front of a place inside of a word stands a character of words. -/
theorem InsideWord.before (h : InsideWord s k) : ∃ n, k = n + 1 ∧ s[n]?.any isWordPart = true := by
  obtain ⟨n, hword, hle, hparts⟩ := h
  obtain ⟨m, rfl⟩ : ∃ m, k = m + 1 := ⟨k - 1, by omega⟩
  refine ⟨m, rfl, ?_⟩
  rcases Nat.lt_or_ge n m with hnm | hmn
  · exact hparts m (by omega) (by omega)
  · obtain rfl : n = m := by omega
    exact any_isWordPart_of_any_isWord hword

/-! ## The last character of a token -/

theorem isBoundary_of_isWordPart {x : Char} (h : isWordPart x = true) : isBoundary x = true := by
  rw [isWordPart, Bool.or_eq_true] at h
  rcases h with hsign | hword
  · have hall : ∀ y ∈ "$#".toList, isBoundary y = true := by decide
    exact hall x (of_decide_eq_true hsign)
  · exact isBoundary_of_isWord hword

/-- Of the pieces that end with a character of words in front of another one, all but the phrases
are runs of signs. -/
theorem Piece.isPhraseAt_or_signs (h : Piece b v r kind) (hlast : v.getLast?.any isWordPart = true)
    (hnext : r.head?.any isWordPart = true) : IsPhraseAt v r ∨ ∀ x ∈ v, isArithmetic x = true := by
  -- a run of words does not end here
  have hword : ¬IsRun isWordPart v r := by
    intro run
    rw [run.stops] at hnext
    exact Bool.noConfusion hnext
  -- and a character that is no part of a word does not end the piece
  have hother : (∀ x ∈ v.getLast?, isWordPart x = false) → IsPhraseAt v r ∨
      ∀ x ∈ v, isArithmetic x = true := by
    intro hno
    rw [(Option.any_eq_false isWordPart v.getLast?).2 hno] at hlast
    exact Bool.noConfusion hlast
  have hlisted : ∀ l : Text, (∀ y ∈ l, isWordPart y = false) → (∀ x ∈ v, x ∈ l) →
      IsPhraseAt v r ∨ ∀ x ∈ v, isArithmetic x = true := by
    intro l hl hv
    exact hother fun x hx => hl x (hv x (List.mem_of_getLast? hx))
  have hquoted : ∀ {q : Char} {doubled : Bool} {w : Text}, isWordPart q = false → v = q :: w →
      close? q doubled (w ++ r) = some w → IsPhraseAt v r ∨ ∀ x ∈ v, isArithmetic x = true := by
    rintro q doubled w hq rfl hclose
    apply hother
    intro x hx
    obtain rfl : q = x := by simpa [List.getLast?_cons, getLast?_close? hclose] using hx
    exact hq
  cases h with
  | lineEnds _ run =>
    exact hlisted "\r\n".toList (by decide) fun x hx => of_decide_eq_true (run.all x hx)
  | blanks _ run =>
    apply hother
    intro x hx
    have hinner := run.all x (List.mem_of_getLast? hx)
    simp only [isInnerBlank, Bool.and_eq_true] at hinner
    exact isWordPart_of_isBlank x hinner.1.1
  | star | point => exact hlisted "*.".toList (by decide) (by decide)
  | mark hm =>
    refine hlisted ";()[],".toList (by decide) fun x hx => ?_
    obtain rfl := List.mem_singleton.1 hx
    exact fits_of_lead hm
  | comparison _ run =>
    exact hlisted "<>=~!".toList (by decide) fun x hx => of_decide_eq_true (run.all x hx)
  | sign _ run => exact .inr run.all
  | hyphen _ _ run => exact .inr run.all
  | comment h =>
    rcases h.ends with ⟨x, hx, heq⟩ | rfl
    · apply hother
      intro y hy
      obtain rfl : x = y := Option.some.inj (heq.symm.trans hy)
      exact isWordPart_of_isBlank x (isBlank_of_mem_lineEnds hx)
    · exact Bool.noConfusion hnext
  | number _ h =>
    obtain ⟨-, hr, -⟩ := untouched_of_numberRules h
    rw [any_eq_false_of_imp (fun _ => isBoundary_of_isWordPart) hr] at hnext
    exact Bool.noConfusion hnext
  | singleQuoted h => exact hquoted (by decide) rfl h
  | backQuoted h => exact hquoted (by decide) rfl h
  | phrase h => exact .inl (firstMatch?_phraseRules_iff.1 h).2
  | word _ _ run => exact absurd run hword
  | digits _ _ run => exact absurd run hword

theorem Cut.isPhraseAt_or_signs (h : Cut b t r) (hlast : t.value.getLast?.any isWordPart = true)
    (hnext : r.head?.any isWordPart = true) :
    IsPhraseAt t.value r ∨ ∀ x ∈ t.value, isArithmetic x = true :=
  let ⟨_, hpiece, _⟩ := h
  hpiece.isPhraseAt_or_signs hlast hnext

theorem getLast?_any_isWord_of_row (h : ∃ ws ∈ phraseRows, Phrased ws v) :
    v.getLast?.any isWord = true :=
  let ⟨ws, hws, hphrase⟩ := h
  hphrase.getLast?_any_isWord (isWordText_of_mem_phraseRows ws hws)

/-- A token splits a word exactly if it is a phrase before a dollar or number sign. -/
theorem splits_iff (ht : t ∈ tokens s) :
    Splits s t ↔ (∃ ws ∈ phraseRows, Phrased ws t.value) ∧
      s[t.stop.toNat]?.any (fun x => decide (x ∈ "$#".toList)) = true := by
  obtain ⟨-, hcut⟩ := cut_of_mem_tokens ht
  have hhead : (s.drop t.stop.toNat).head? = s[t.stop.toNat]? := List.head?_drop
  unfold Splits
  rw [← hhead]
  constructor
  · rintro ⟨hlast, hnext⟩
    rcases hcut.isPhraseAt_or_signs (any_isWordPart_of_any_isWord hlast) hnext with hphrase | hsigns
    · refine ⟨hphrase.row, ?_⟩
      -- no word character follows a phrase
      obtain ⟨x, hx, hpart⟩ := (Option.any_eq_true isWordPart _).1 hnext
      have hstops := hphrase.stops
      rw [hx, Option.any_some] at hstops
      rw [hx, Option.any_some]
      rwa [isWordPart, hstops, Bool.or_false] at hpart
    · -- signs are no word characters
      rw [getLast?_any_eq_false fun x hx => isWord_of_isArithmetic (hsigns x hx)] at hlast
      exact Bool.noConfusion hlast
  · rintro ⟨hrow, hsign⟩
    refine ⟨getLast?_any_isWord_of_row hrow, any_of_imp (fun x hx => ?_) hsign⟩
    rw [isWordPart, hx, Bool.true_or]

/-! ## Starts inside of words -/

/-- The character of the text at a place in a token. -/
theorem getElem?_of_mem_tokens (ht : t ∈ tokens s) {i : Nat} (hi : i < t.value.length) :
    s[t.offset.toNat + i]? = t.value[i]? := by
  obtain ⟨hdrop, -⟩ := cut_of_mem_tokens ht
  rw [← List.getElem?_drop, hdrop, List.getElem?_append_left hi]

/-- Where a token ends, its last character is the one before. -/
theorem getLast?_of_stop (ht : t ∈ tokens s) (hstop : t.stop = (n + 1 : Nat)) :
    t.value.getLast? = s[n]? ∧ t.offset.toNat ≤ n ∧ t.offset = t.offset.toNat := by
  obtain ⟨-, hcut⟩ := cut_of_mem_tokens ht
  have hoffset := (reads_of_next (next_of_mem_scan ht)).2.2
  have hpos := List.length_pos_iff.2 hcut.ne_nil
  unfold Token.stop at hstop
  have hn : t.offset.toNat + (t.value.length - 1) = n := by omega
  refine ⟨?_, by omega, hoffset⟩
  rw [List.getLast?_eq_getElem?, ← getElem?_of_mem_tokens ht (by omega), hn]

/-- A start inside of a word comes after a token that splits the word. -/
theorem exists_splits_of_insideWord (hk : IsStart (tokens s) k) (hinside : InsideWord s k) :
    ∃ t ∈ tokens s, Splits s t ∧ WordParts s t.stop.toNat k := by
  induction k using Nat.strong_induction_on with
  | _ k ih =>
    obtain ⟨m, rfl, hpart⟩ := hinside.before
    obtain ⟨n, hword, hparts⟩ := hinside
    obtain ⟨t, ht, hstop⟩ := hk.exists_stop (Nat.succ_ne_zero m)
    obtain ⟨hlast, hle, hoffset⟩ := getLast?_of_stop ht hstop
    obtain ⟨-, hcut⟩ := cut_of_mem_tokens ht
    have hplace : t.stop.toNat = m + 1 := by omega
    have hnext : s[m + 1]?.any isWordPart = true := hparts.2 (m + 1) hparts.1 (Nat.le_refl _)
    have hhead : (s.drop t.stop.toNat).head?.any isWordPart = true := by
      rw [List.head?_drop, hplace]
      exact hnext
    rcases hcut.isPhraseAt_or_signs (hlast ▸ hpart) hhead with hphrase | hsigns
    · refine ⟨t, ht, ⟨getLast?_any_isWord_of_row hphrase.row, hplace ▸ hnext⟩, ?_⟩
      rw [hplace]
      exact hparts.mono_left hparts.1 (Nat.le_refl _)
    · -- the word began before the signs
      have hbefore : n < t.offset.toNat := by
        by_contra hnot
        obtain ⟨i, rfl⟩ := Nat.exists_eq_add_of_le (Nat.le_of_not_lt hnot)
        have hi : i < t.value.length := by
          have hle := hparts.1
          unfold Token.stop at hstop
          omega
        obtain ⟨x, hx, hxword⟩ := (Option.any_eq_true isWord _).1 hword
        rw [getElem?_of_mem_tokens ht hi] at hx
        rw [isWord_of_isArithmetic (hsigns x (List.mem_of_getElem? hx))] at hxword
        exact Bool.noConfusion hxword
      have hstart : IsStart (tokens s) t.offset.toNat := .inr ⟨t, ht, hoffset⟩
      obtain ⟨u, hu, hsplits, hway⟩ := ih t.offset.toNat (by omega) hstart
        ⟨n, hword, hparts.mono_right hbefore (by omega)⟩
      exact ⟨u, hu, hsplits, hway.trans (hparts.mono_left hbefore (by omega))⟩

/-- And from such a token on the word goes on. -/
theorem insideWord_of_splits (ht : t ∈ tokens s) (hsplits : Splits s t)
    (hparts : WordParts s t.stop.toNat k) : InsideWord s k := by
  obtain ⟨-, hcut⟩ := cut_of_mem_tokens ht
  have hpos := List.length_pos_iff.2 hcut.ne_nil
  have hoffset := (reads_of_next (next_of_mem_scan ht)).2.2
  obtain ⟨n, hn⟩ : ∃ n : Nat, t.stop = (n + 1 : Nat) := by
    refine ⟨t.stop.toNat - 1, ?_⟩
    unfold Token.stop
    omega
  obtain ⟨hlast, -⟩ := getLast?_of_stop ht hn
  have hplace : t.stop.toNat = n + 1 := by omega
  exact ⟨n, hlast ▸ hsplits.1, hplace ▸ hparts⟩

/-- A token splits a word exactly if it is a phrase before a dollar or number sign, and a token
starts inside of a word, or the scan stops there, exactly if the word goes on up to that place from
such a token. -/
theorem tokenize_splits (s : Text) :
    ∃ ts, lexer.tokenize s false = .ok ts ∧
      (∀ t ∈ ts, Splits s t ↔ (∃ ws ∈ phraseRows, Phrased ws t.value) ∧
        s[t.stop.toNat]?.any (fun x => decide (x ∈ "$#".toList)) = true) ∧
      ∀ k, IsStart ts k →
        (InsideWord s k ↔ ∃ t ∈ ts, Splits s t ∧ WordParts s t.stop.toNat k) := by
  refine ⟨tokens s, tokenize_eq_ok resolved s, ?_, ?_⟩
  · intro t ht
    exact splits_iff ht
  · intro k hk
    constructor
    · intro hinside
      exact exists_splits_of_insideWord hk hinside
    · rintro ⟨t, ht, hsplits, hparts⟩
      exact insideWord_of_splits ht hsplits hparts

/-- A number sign splits the identifier it stands in, as a join may end before it. -/
theorem tokenize_splits_join :
    lexer.tokenize "JOIN#x".toList false =
        .ok [⟨.keyword, "JOIN".toList, 0⟩, ⟨.operator, "#".toList, 4⟩, ⟨.name, "x".toList, 5⟩] ∧
      ¬∀ s ts, lexer.tokenize s false = .ok ts →
        (∀ t ∈ ts, ¬Splits s t) ∧ ∀ k, IsStart ts k → ¬InsideWord s k := by
  have hok : lexer.tokenize "JOIN#x".toList false =
      .ok [⟨.keyword, "JOIN".toList, 0⟩, ⟨.operator, "#".toList, 4⟩,
        ⟨.name, "x".toList, 5⟩] := by
    rw [tokenize_eq_ok resolved]
    decide +kernel
  refine ⟨hok, fun h => ?_⟩
  obtain ⟨hnone, -⟩ := h _ _ hok
  apply hnone ⟨.keyword, "JOIN".toList, 0⟩ List.mem_cons_self
  unfold Splits
  decide

end SqlLayout.Sql
