import SqlLayout.Pattern.CharSet

/-!
# Membership in plain sets

A set that is listed, named or joined from such sets holds what one expects. A set that disregards
case is another matter; the rules of SQL have none.
-/

namespace SqlLayout.CharSet

theorem contains_ofChars (cs : List Char) (x : Char) :
    (ofChars cs).contains x = decide (x ∈ cs) := by
  show ((cs.map Member.char).any (·.names x) != false) = decide (x ∈ cs)
  rw [Bool.bne_false, List.any_map, Bool.eq_iff_iff, List.any_eq_true, decide_eq_true_iff]
  constructor
  · rintro ⟨y, hy, hxy⟩
    have hxy : x = y := beq_iff_eq.1 hxy
    exact hxy ▸ hy
  · intro hx
    exact ⟨x, hx, beq_self_eq_true x⟩

theorem contains_ofClass (k : CharClass) (x : Char) : (ofClass k).contains x = k.holds x := by
  show ((k.holds x || false) != false) = k.holds x
  rw [Bool.or_false, Bool.bne_false]

/-- A set lists its entries plainly: it is not turned around and minds case. -/
def IsPlain (s : CharSet) : Prop := s.negated = false ∧ s.ignoreCase = false

theorem contains_of_isPlain {s : CharSet} (h : s.IsPlain) (x : Char) :
    s.contains x = s.members.any (·.names x) := by
  rw [contains, lists, h.1, h.2, if_neg Bool.false_ne_true, Bool.bne_false]

theorem contains_union {s t : CharSet} (hs : s.IsPlain) (ht : t.IsPlain) (x : Char) :
    (s.union t).contains x = (s.contains x || t.contains x) := by
  have hunion : (s.union t).IsPlain := hs
  rw [contains_of_isPlain hunion, contains_of_isPlain hs, contains_of_isPlain ht, union,
    List.any_append]

end SqlLayout.CharSet
