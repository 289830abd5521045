/-!
# Texts and tables of code ranges

A text is a list of characters, so that a position in it is a number of characters. A property of
characters is a table of code ranges, listed from low to high; a lookup stops at the first range
that begins above the character.
-/

namespace SqlLayout

/-- Text as its characters in order. -/
abbrev Text := List Char

namespace Text

/-- Inclusive ranges of code points, from low to high. -/
abbrev Ranges := List (Nat × Nat)

namespace Ranges

/-- Looks a code point up in ranges that are listed from low to high. -/
def covers : Ranges → Nat → Bool
  | [], _ => false
  | (lo, hi) :: rest, n => if n < lo then false else if n ≤ hi then true else covers rest n

/-- No range is empty, and each begins above the end of the one before it. -/
def Ascending : Ranges → Prop
  | [] => True
  | (lo, hi) :: rest => lo ≤ hi ∧ (∀ r ∈ rest, hi < r.1) ∧ Ascending rest

/-- A covered code point lies in one of the ranges. -/
theorem exists_of_covers {t : Ranges} {n : Nat} (h : t.covers n = true) :
    ∃ r ∈ t, r.1 ≤ n ∧ n ≤ r.2 := by
  induction t with
  | nil => simp [covers] at h
  | cons r rest ih =>
    obtain ⟨lo, hi⟩ := r
    rw [covers] at h
    split at h
    · simp at h
    · split at h
      · exact ⟨(lo, hi), by simp, by omega, by omega⟩
      · obtain ⟨r, hr, hlo, hhi⟩ := ih h
        exact ⟨r, by simp [hr], hlo, hhi⟩

/-- In an ascending table a lookup answers exactly whether some range holds the code point. -/
theorem covers_iff {t : Ranges} (ht : t.Ascending) {n : Nat} :
    t.covers n = true ↔ ∃ r ∈ t, r.1 ≤ n ∧ n ≤ r.2 := by
  refine ⟨exists_of_covers, ?_⟩
  rintro ⟨r, hr, hlo, hhi⟩
  induction t with
  | nil => simp at hr
  | cons s rest ih =>
    obtain ⟨slo, shi⟩ := s
    obtain ⟨hs, hbelow, hrest⟩ := ht
    rw [covers]
    rcases List.mem_cons.1 hr with rfl | hr
    · simp only at hlo hhi
      rw [if_neg (by omega), if_pos hhi]
    · have := hbelow r hr
      rw [if_neg (by omega), if_neg (by omega)]
      exact ih hrest hr

end Ranges

end Text

end SqlLayout
