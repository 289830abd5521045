import SqlLayout.Proofs.Lexer.Tiling

/-!
# Where tokens start

The rules are asked at the offset of every token and once more where the scan stops (`IsStart`). At
such a place the scan has the token that the rules find there (`mem_scan_iff_next`), and it has none
only if it stops there (`scan_stops_of_nothing`). Every place before the stop lies in a token
(`exists_mem_scan_within`), so what is shown of the tokens at their starts accounts for the whole
text that was cut.
-/

namespace SqlLayout.Lexer

/-- A token starts at this place, or the scan stops there. -/
def IsStart (ts : List Token) (k : Nat) : Prop := k = reach ts ∨ ∃ t ∈ ts, t.offset = k

variable {lx : Lexer} {n m k : Nat} {c d e : Cursor} {s : Text} {ts : List Token} {t : Token}

/-- Between its ends the way lies in tokens. -/
theorem Cuts.exists_covering (h : Cuts lx n c ts m d) (hnk : n ≤ k) (hkm : k < m) :
    ∃ t ∈ ts, t.offset ≤ k ∧ k < t.stop := by
  induction h with
  | done n c => omega
  | @step n m c d e t ts hnext hcuts ih =>
    have hoffset := (reads_of_next hnext).2.2
    by_cases hk : k < n + t.value.length
    · refine ⟨t, List.mem_cons_self, ?_, ?_⟩
      · rw [hoffset]
        omega
      · rw [Token.stop, hoffset]
        omega
    · obtain ⟨u, hu, hcovers⟩ := ih (by omega) hkm
      exact ⟨u, List.mem_cons_of_mem t hu, hcovers⟩

/-- A start is the first place or the end of a token. -/
theorem Cuts.exists_stop (h : Cuts lx n c ts m d) (hk : k = m ∨ ∃ t ∈ ts, t.offset = k) :
    k = n ∨ ∃ t ∈ ts, t.stop = k := by
  induction h with
  | done n c => simpa using hk
  | @step n m c d e t ts hnext hcuts ih =>
    have hoffset := (reads_of_next hnext).2.2
    have hlater : (k = m ∨ ∃ u ∈ ts, u.offset = k) → ∃ u ∈ t :: ts, u.stop = k := by
      intro hu
      rcases ih hu with rfl | ⟨v, hv, hstop⟩
      · refine ⟨t, List.mem_cons_self, ?_⟩
        rw [Token.stop, hoffset, Int.natCast_add]
      · exact ⟨v, List.mem_cons_of_mem t hv, hstop⟩
    rcases hk with hm | ⟨u, hu, hplace⟩
    · exact .inr (hlater (.inl hm))
    · rcases List.mem_cons.1 hu with rfl | hu
      · exact .inl (by omega)
      · exact .inr (hlater (.inr ⟨u, hu, hplace⟩))

theorem IsStart.exists_stop (hk : IsStart (lx.scan s).tokens k) (hpos : k ≠ 0) :
    ∃ t ∈ (lx.scan s).tokens, t.stop = k := by
  obtain ⟨m, d, hcuts, -⟩ := cuts_scan lx s
  obtain rfl := hcuts.reach_eq
  exact (hcuts.exists_stop hk).resolve_left hpos

theorem next_of_mem_scan (ht : t ∈ (lx.scan s).tokens) :
    lx.next t.offset.toNat (.at s t.offset.toNat) = .token t (.at s t.stop.toNat) := by
  obtain ⟨m, d, hcuts, -⟩ := cuts_scan lx s
  exact hcuts.next_offset ht

/-- A place before the stop lies in a token: the rest of the token and what follows it are the text
from there. -/
theorem exists_mem_scan_within (hk : k < reach (lx.scan s).tokens) :
    ∃ t ∈ (lx.scan s).tokens, ∃ w u, t.value = w ++ u ∧ u ≠ [] ∧ (k : Int) = t.offset + w.length ∧
      s.drop k = u ++ s.drop t.stop.toNat := by
  obtain ⟨m, d, hcuts, -⟩ := cuts_scan lx s
  rw [hcuts.reach_eq] at hk
  obtain ⟨t, ht, hle, hlt⟩ := hcuts.exists_covering (Nat.zero_le k) hk
  obtain ⟨hread, -, hoffset⟩ := reads_of_next (next_of_mem_scan ht)
  have hdrop : s.drop t.offset.toNat = t.value ++ s.drop t.stop.toNat := hread.rest_eq
  obtain ⟨i, rfl⟩ : ∃ i, k = t.offset.toNat + i := Nat.exists_eq_add_of_le (by omega)
  rw [Token.stop] at hlt
  have hi : i < t.value.length := by omega
  refine ⟨t, ht, t.value.take i, t.value.drop i, ?_, ?_, ?_, ?_⟩
  · rw [List.take_append_drop]
  · exact fun hnil => absurd (List.drop_eq_nil_iff.1 hnil) (by omega)
  · rw [List.length_take_of_le (by omega)]
    omega
  · rw [← List.drop_drop, hdrop, List.drop_append_of_le_length (by omega)]

/-- Where the scan stops, the text ends or nothing is found. -/
theorem scan_stops (h : lx.Resolved) (s : Text) :
    s.length ≤ reach (lx.scan s).tokens ∧ (lx.scan s).ending = .complete ∨
      lx.next (reach (lx.scan s).tokens) (.at s (reach (lx.scan s).tokens)) = .nothing ∧
        (lx.scan s).ending = .noMatch (reach (lx.scan s).tokens) := by
  obtain ⟨m, d, hcuts, hstop⟩ := cuts_scan lx s
  obtain rfl := hcuts.reach_eq
  obtain rfl := hcuts.place_eq
  cases hending : (lx.scan s).ending with
  | complete =>
    rw [hending] at hstop
    exact .inl ⟨List.drop_eq_nil_iff.1 hstop, rfl⟩
  | noMatch k =>
    rw [hending] at hstop
    exact .inr ⟨hstop.2.2, by rw [hstop.1]⟩
  | unresolved => exact absurd hending (hstop.of_resolved h).1

/-- At a start the scan has the token that is found there. -/
theorem mem_scan_iff_next (h : lx.Resolved) (hk : IsStart (lx.scan s).tokens k) :
    t ∈ (lx.scan s).tokens ∧ t.offset = k ↔ ∃ e, lx.next k (.at s k) = .token t e := by
  constructor
  · rintro ⟨ht, hoffset⟩
    have hnext := next_of_mem_scan ht
    rw [hoffset, Int.toNat_natCast] at hnext
    exact ⟨_, hnext⟩
  · rintro ⟨e, hnext⟩
    rcases hk with rfl | ⟨u, hu, hoffset⟩
    · -- where the scan stops nothing is found
      exfalso
      rcases scan_stops h s with ⟨hle, -⟩ | ⟨hnothing, -⟩
      · have hshorter := next_shorter hnext
        have hend : (Cursor.at s (reach (lx.scan s).tokens)).rest = [] := List.drop_eq_nil_iff.2 hle
        rw [hend] at hshorter
        exact absurd hshorter (Nat.not_lt_zero _)
      · rw [hnothing] at hnext
        exact Found.noConfusion hnext
    · have hnext' := next_of_mem_scan hu
      rw [hoffset, Int.toNat_natCast, hnext] at hnext'
      obtain ⟨rfl, -⟩ := Found.token.inj hnext'
      exact ⟨hu, hoffset⟩

/-- A start in the text where nothing is found is the place where the scan stops. -/
theorem scan_stops_of_nothing (h : lx.Resolved) (hk : IsStart (lx.scan s).tokens k)
    (hlt : k < s.length) (hnext : lx.next k (.at s k) = .nothing) :
    k = reach (lx.scan s).tokens ∧ (lx.scan s).ending = .noMatch k := by
  have hreach : k = reach (lx.scan s).tokens := by
    refine hk.resolve_right ?_
    rintro ⟨t, ht, hoffset⟩
    have hfound := next_of_mem_scan ht
    rw [hoffset, Int.toNat_natCast, hnext] at hfound
    exact Found.noConfusion hfound
  subst hreach
  rcases scan_stops h s with ⟨hle, -⟩ | ⟨-, hending⟩
  · omega
  · exact ⟨rfl, hending⟩

end SqlLayout.Lexer
