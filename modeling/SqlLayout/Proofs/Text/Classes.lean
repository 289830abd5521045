import SqlLayout.Text.Basic
import SqlLayout.Text.Upper
import SqlLayout.Text.Word

/-!
# How the classes of characters lie to each other

Digits are word characters, blanks are not, and a digit is its own upper case. The tables are
compared range by range, so each fact about all characters rests on one comparison of two short
lists.
-/

namespace SqlLayout.Text

/-- What holds of all characters of a text is decided along the text, not along all characters. -/
instance (priority := high) decidableForallMem {p : Char → Prop} [DecidablePred p] (t : Text) :
    Decidable (∀ x ∈ t, p x) :=
  List.decidableBAll p t

/-! ## First and last characters -/

theorem any_of_imp {o : Option Char} {f g : Char → Bool} (hfg : ∀ x, f x = true → g x = true)
    (h : o.any f = true) : o.any g = true := by
  rw [Option.any_eq_true] at h ⊢
  obtain ⟨x, hx, hf⟩ := h
  exact ⟨x, hx, hfg x hf⟩

theorem any_eq_false_of_imp {o : Option Char} {f g : Char → Bool}
    (hfg : ∀ x, f x = true → g x = true) (h : o.any g = false) : o.any f = false := by
  rw [Option.any_eq_false] at h ⊢
  intro x hx
  rw [← Bool.not_eq_true]
  intro hf
  exact absurd (hfg x hf) (by rw [h x hx]; exact Bool.false_ne_true)

/-- What is assumed before a text does not matter after it. -/
theorem elim_getLast?_eq_any {v : Text} (hne : v ≠ []) (p : Bool) (f : Char → Bool) :
    v.getLast?.elim p f = v.getLast?.any f := by
  rw [List.getLast?_eq_some_getLast hne, Option.elim_some, Option.any_some]

/-! ## Ascending tables -/

/-- Checks that a table is ascending by looking at neighbours only. -/
def Ranges.ascends : Ranges → Bool
  | [] => true
  | [r] => r.1 ≤ r.2
  | r :: s :: rest => r.1 ≤ r.2 && r.2 < s.1 && Ranges.ascends (s :: rest)

theorem Ranges.ascending_of_ascends {t : Ranges} (h : t.ascends = true) : t.Ascending := by
  induction t with
  | nil => trivial
  | cons r rest ih =>
    cases rest with
    | nil =>
      simp only [Ranges.ascends, decide_eq_true_eq] at h
      exact ⟨h, by simp, trivial⟩
    | cons s rest =>
      simp only [Ranges.ascends, Bool.and_eq_true, decide_eq_true_eq] at h
      obtain ⟨⟨hr, hrs⟩, hrest⟩ := h
      have hasc := ih hrest
      refine ⟨hr, ?_, hasc⟩
      intro x hx
      rcases List.mem_cons.1 hx with rfl | hx
      · exact hrs
      · -- the neighbour lies in between
        have hs : s.1 ≤ s.2 := hasc.1
        have hsx : s.2 < x.1 := hasc.2.1 x hx
        omega

/-! ## The tables compared -/

/-- The zeros whose blocks of ten lie in none of the ranges, if both lists ascend: each range takes
the zeros at the front that it holds. -/
def Ranges.outside (t : Ranges) (zeros : List Nat) : List Nat :=
  t.foldl (fun zs r => zs.dropWhile fun z => Nat.ble r.1 z && Nat.ble (z + 9) r.2) zeros

theorem Ranges.exists_of_outside_eq_nil {t : Ranges} {zeros : List Nat}
    (h : t.outside zeros = []) : ∀ z ∈ zeros, ∃ r ∈ t, r.1 ≤ z ∧ z + 9 ≤ r.2 := by
  induction t generalizing zeros with
  | nil =>
    obtain rfl : zeros = [] := h
    simp
  | cons r t ih =>
    intro z hz
    rw [← List.takeWhile_append_dropWhile
      (p := fun z => Nat.ble r.1 z && Nat.ble (z + 9) r.2) (l := zeros), List.mem_append] at hz
    rcases hz with hz | hz
    · have hin := List.all_eq_true.1 List.all_takeWhile z hz
      simp only [Bool.and_eq_true, Nat.ble_eq] at hin
      exact ⟨r, List.mem_cons_self, hin⟩
    · obtain ⟨s, hs, hin⟩ := ih h z hz
      exact ⟨s, List.mem_cons_of_mem r hs, hin⟩

/-- Checks that no range of one table meets a range of the other. -/
def Ranges.apart (t t' : Ranges) : Bool :=
  t.all fun r => t'.all fun s => Nat.blt r.2 s.1 || Nat.blt s.2 r.1

theorem Ranges.lt_or_lt_of_apart {t t' : Ranges} {r s : Nat × Nat} (h : t.apart t' = true)
    (hr : r ∈ t) (hs : s ∈ t') : r.2 < s.1 ∨ s.2 < r.1 := by
  have hrs := List.all_eq_true.1 (List.all_eq_true.1 h r hr) s hs
  simpa only [Bool.or_eq_true, Nat.blt_eq] using hrs

/-- The digits as ranges, a block of ten for each zero. -/
def digitBlocks : Ranges := digitZeros.map fun z => (z, z + 9)

theorem wordRanges_checked : wordRanges.ascends = true ∧ wordRanges.outside digitZeros = [] := by
  decide +kernel

theorem tables_apart : blankRanges.apart wordRanges = true ∧
    digitBlocks.apart (upperRuns.map fun r => (r.first, r.last)) = true ∧
      digitBlocks.apart (upperExpansions.map fun x => (x.1, x.1)) = true := by
  decide +kernel

theorem isWord_iff {c : Char} :
    isWord c = true ↔ ∃ r ∈ wordRanges, r.1 ≤ c.toNat ∧ c.toNat ≤ r.2 :=
  Ranges.covers_iff (Ranges.ascending_of_ascends wordRanges_checked.1)

/-! ## Digits -/

/-- A digit stands in the block of ten that begins with some zero. -/
theorem exists_zero_of_digitValueFrom {zeros : List Nat} {n : Nat}
    (h : (digitValueFrom zeros n).isSome = true) : ∃ z ∈ zeros, z ≤ n ∧ n ≤ z + 9 := by
  induction zeros with
  | nil => simp [digitValueFrom] at h
  | cons z rest ih =>
    rw [digitValueFrom] at h
    split at h
    · simp at h
    · split at h
      · exact ⟨z, by simp, by omega, by omega⟩
      · obtain ⟨z', hz', hlo, hhi⟩ := ih h
        exact ⟨z', by simp [hz'], hlo, hhi⟩

theorem exists_zero_of_isDigit {c : Char} (h : isDigit c = true) :
    ∃ z ∈ digitZeros, z ≤ c.toNat ∧ c.toNat ≤ z + 9 :=
  exists_zero_of_digitValueFrom h

theorem isWord_of_isDigit {c : Char} (h : isDigit c = true) : isWord c = true := by
  obtain ⟨z, hz, hlo, hhi⟩ := exists_zero_of_isDigit h
  obtain ⟨r, hr, hin⟩ := Ranges.exists_of_outside_eq_nil wordRanges_checked.2 z hz
  exact isWord_iff.2 ⟨r, hr, by omega, by omega⟩

/-- Runs that end before or begin after a code point leave it alone. -/
theorem shiftCase_of_apart {runs : List CaseRun} {n : Nat}
    (h : ∀ r ∈ runs, r.last < n ∨ n < r.first) : shiftCase runs n = n := by
  induction runs with
  | nil => rfl
  | cons r rest ih =>
    rw [shiftCase]
    split
    · rfl
    · have hr := h r (by simp)
      have hmoves : r.moves n = false := by
        simp only [CaseRun.moves, Bool.and_eq_false_iff, decide_eq_false_iff_not]
        omega
      rw [hmoves, if_neg Bool.false_ne_true]
      exact ih fun s hs => h s (by simp [hs])

/-- A digit is its own upper case. -/
theorem upperChar_of_isDigit {c : Char} (h : isDigit c = true) : upperChar c = [c] := by
  obtain ⟨z, hz, hlo, hhi⟩ := exists_zero_of_isDigit h
  have hblock : (z, z + 9) ∈ digitBlocks := List.mem_map_of_mem hz
  have hexp : upperExpansions.lookup c.toNat = none := by
    rw [List.lookup_eq_none_iff]
    intro x hx
    have hapart : z + 9 < x.1 ∨ x.1 < z :=
      Ranges.lt_or_lt_of_apart tables_apart.2.2 hblock (List.mem_map_of_mem hx)
    simp only [bne_iff_ne, ne_eq]
    omega
  have hrun : shiftCase upperRuns c.toNat = c.toNat := by
    refine shiftCase_of_apart fun r hr => ?_
    have hapart : z + 9 < r.first ∨ r.last < z :=
      Ranges.lt_or_lt_of_apart tables_apart.2.1 hblock (List.mem_map_of_mem hr)
    omega
  rw [upperChar, mapCase, hexp]
  show [Char.ofNat (shiftCase upperRuns c.toNat)] = [c]
  rw [hrun, Char.ofNat_toNat]

/-! ## Blanks -/

theorem isWord_eq_false_of_isBlank {c : Char} (h : isBlank c = true) : isWord c = false := by
  obtain ⟨r, hr, hlo, hhi⟩ := Ranges.exists_of_covers h
  rw [← Bool.not_eq_true]
  intro hword
  obtain ⟨s, hs, hslo, hshi⟩ := isWord_iff.1 hword
  have hapart := Ranges.lt_or_lt_of_apart tables_apart.1 hr hs
  omega

theorem isBlank_eq_false_of_isWord {c : Char} (h : isWord c = true) : isBlank c = false := by
  rw [← Bool.not_eq_true]
  intro hblank
  rw [isWord_eq_false_of_isBlank hblank] at h
  exact Bool.false_ne_true h

end SqlLayout.Text
