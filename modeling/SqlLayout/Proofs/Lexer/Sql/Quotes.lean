import SqlLayout.Proofs.Lexer.Sql.Leads
import SqlLayout.Proofs.Pattern.Runs

/-!
# Quoted texts

A pair of quotes or a quote after a backslash stands for a quote inside, as long as a quote comes
later to close the text; otherwise the quote closes it. So a quoted text is read without going back
(`close?`), and it is read exactly if some quote follows the opening one (`close?_eq_none_iff`).
-/

namespace SqlLayout

namespace Pattern

/-- A repetition before another pattern: the best match takes a turn if the rest can then match, and
none otherwise. -/
theorem match?_star_seq (p r : Pattern) (c : Cursor) :
    (seq (star p) r).match? c =
      ((p.ends c).findSome? fun e =>
        if e.rest.length < c.rest.length then (seq (star p) r).match? e else r.match? e).or
        (r.match? c) := by
  simp only [match?_eq_head?]
  rw [ends, ends_star, List.flatMap_append, List.head?_append, List.flatMap_assoc,
    List.head?_flatMap, List.flatMap_singleton]
  congr 2
  funext e
  split
  · rfl
  · rw [List.flatMap_singleton]

theorem ends_pair (x y : Char) (b : Text) (c d : Char) (u : Text) :
    (text [x, y]).ends ⟨b, c :: d :: u⟩ = if c = x ∧ d = y then [⟨d :: c :: b, u⟩] else [] := by
  show ((char (.ofChars [x])).ends ⟨b, c :: d :: u⟩).flatMap (char (.ofChars [y])).ends = _
  rw [ends_char, CharSet.contains_ofChars]
  by_cases hc : c = x
  · simp only [hc, List.mem_singleton, decide_true, if_true, List.flatMap_singleton, true_and]
    rw [ends_char, CharSet.contains_ofChars]
    simp
  · simp [hc]

theorem ends_pair_of_short (x y : Char) (b t : Text) (h : t.length < 2) :
    (text [x, y]).ends ⟨b, t⟩ = [] := by
  match t, h with
  | [], _ => rfl
  | [c], _ =>
    show ((char (.ofChars [x])).ends ⟨b, [c]⟩).flatMap (char (.ofChars [y])).ends = []
    rw [ends_char]
    split <;> rfl

end Pattern

namespace Sql

open Lexer Pattern

/-! ## The pattern of a quoted text -/

/-- What may stand between two quotes; a pair of quotes only where `doubled` allows it. -/
def quotedItem (q : Char) (doubled : Bool) : Pattern :=
  choice ((if doubled then [text [q, q]] else []) ++
    [text ['\\', q], char (CharSet.ofChars [q]).complement])

/-- The rest of a quoted text. -/
def quotedRest (q : Char) (doubled : Bool) : Pattern :=
  seq (star (quotedItem q doubled)) (char (.ofChars [q]))

theorem singleQuoted_eq :
    singleQuoted = ⟨seq (char (.ofChars ['\''])) (quotedRest '\'' true), .string⟩ := rfl

theorem backQuoted_eq :
    backQuoted = ⟨seq (char (.ofChars ['`'])) (quotedRest '`' false), .string⟩ := rfl

/-- The rest of a quoted text, its closing quote included, if there is one. -/
def close? (q : Char) (doubled : Bool) : Text → Option Text
  | [] => none
  | [c] => if c = q then some [c] else none
  | c :: d :: u =>
    if d = q ∧ (c = '\\' ∨ doubled = true ∧ c = q) ∧ q ∈ u then
      (close? q doubled u).map (c :: d :: ·)
    else if c = q then some [c]
    else (close? q doubled (d :: u)).map (c :: ·)

variable {q : Char} {doubled : Bool}

theorem close?_eq_none_iff {t : Text} : close? q doubled t = none ↔ q ∉ t := by
  fun_induction close? q doubled t with
  | case1 => simp
  | case2 => simp
  | case3 c hc => simpa using Ne.symm hc
  | case4 c d u h ih =>
    rw [Option.map_eq_none_iff, ih]
    simp [h.2.2]
  | case5 d u _ => simp
  | case6 c d u _ hc ih =>
    rw [Option.map_eq_none_iff, ih]
    simp [Ne.symm hc]

/-! ## The pattern reads it -/

theorem ends_quotedItem (b : Text) (c d : Char) (u : Text) :
    (quotedItem q doubled).ends ⟨b, c :: d :: u⟩ =
      (if doubled = true ∧ c = q ∧ d = q then [⟨d :: c :: b, u⟩] else []) ++
        ((if c = '\\' ∧ d = q then [⟨d :: c :: b, u⟩] else []) ++
          if c = q then [] else [⟨c :: b, d :: u⟩]) := by
  have hother : (char (CharSet.ofChars [q]).complement).ends ⟨b, c :: d :: u⟩ =
      if c = q then [] else [⟨c :: b, d :: u⟩] := by
    rw [ends_char, CharSet.contains_complement, CharSet.contains_ofChars]
    by_cases hc : c = q <;> simp [hc]
  cases doubled with
  | false =>
    show (text ['\\', q]).ends _ ++ (char (CharSet.ofChars [q]).complement).ends _ = _
    rw [ends_pair, hother]
    simp
  | true =>
    show (text [q, q]).ends _ ++
      ((text ['\\', q]).ends _ ++ (char (CharSet.ofChars [q]).complement).ends _) = _
    rw [ends_pair, ends_pair, hother]
    simp

theorem ends_quotedItem_of_short (b : Text) (c : Char) :
    (quotedItem q doubled).ends ⟨b, [c]⟩ = if c = q then [] else [⟨c :: b, []⟩] := by
  have hother : (char (CharSet.ofChars [q]).complement).ends ⟨b, [c]⟩ =
      if c = q then [] else [⟨c :: b, []⟩] := by
    rw [ends_char, CharSet.contains_complement, CharSet.contains_ofChars]
    by_cases hc : c = q <;> simp [hc]
  have hpair : ∀ x y : Char, (text [x, y]).ends ⟨b, [c]⟩ = [] :=
    fun x y => ends_pair_of_short x y b [c] (by simp)
  cases doubled with
  | false =>
    show (text ['\\', q]).ends _ ++ (char (CharSet.ofChars [q]).complement).ends _ = _
    rw [hpair, hother, List.nil_append]
  | true =>
    show (text [q, q]).ends _ ++
      ((text ['\\', q]).ends _ ++ (char (CharSet.ofChars [q]).complement).ends _) = _
    rw [hpair, hpair, hother, List.nil_append, List.nil_append]

/-- Without a later quote nothing is read. -/
theorem match?_quotedRest_of_notMem {b t : Text} (h : q ∉ t) :
    (quotedRest q doubled).match? ⟨b, t⟩ = none := by
  rw [match?_eq_head?, List.head?_eq_none_iff, List.eq_nil_iff_forall_not_mem]
  intro e he
  rw [quotedRest, ends] at he
  obtain ⟨d, hd, he⟩ := List.mem_flatMap.1 he
  obtain ⟨w, hw⟩ := exists_reads_of_mem_ends hd
  obtain ⟨v, ⟨x, hx, rfl⟩, hv⟩ := (spells_char _ d e).1 he
  rw [CharSet.contains_ofChars, decide_eq_true_iff, List.mem_singleton] at hx
  have hread : t = w ++ d.rest := hw.rest_eq
  rw [hv.rest_eq, hx] at hread
  exact h (by rw [hread]; simp)

theorem match?_quote (b : Text) (c : Char) (u : Text) :
    (char (.ofChars [q])).match? ⟨b, c :: u⟩ = if c = q then some ⟨c :: b, u⟩ else none := by
  rw [match?_char, CharSet.contains_ofChars]
  by_cases hc : c = q <;> simp [hc]

theorem match?_quotedRest_singleton (b : Text) (c : Char) :
    (quotedRest q doubled).match? ⟨b, [c]⟩ = if c = q then some ⟨c :: b, []⟩ else none := by
  rw [quotedRest, match?_star_seq, ends_quotedItem_of_short, match?_quote]
  by_cases hc : c = q
  · simp [hc]
  · have hnone : (quotedRest q doubled).match? ⟨c :: b, []⟩ = none :=
      match?_quotedRest_of_notMem List.not_mem_nil
    rw [quotedRest] at hnone
    simp [hc, hnone]

/-- In order of preference a doubled quote, an escaped one and any other character are passed, and
only then the text is closed. -/
theorem match?_quotedRest_cons_cons (b : Text) (c d : Char) (u : Text) :
    (quotedRest q doubled).match? ⟨b, c :: d :: u⟩ =
      (((if doubled = true ∧ c = q ∧ d = q then (quotedRest q doubled).match? ⟨d :: c :: b, u⟩
          else none).or
        ((if c = '\\' ∧ d = q then (quotedRest q doubled).match? ⟨d :: c :: b, u⟩
          else none).or
          (if c = q then none else (quotedRest q doubled).match? ⟨c :: b, d :: u⟩))).or
        (if c = q then some ⟨c :: b, d :: u⟩ else none)) := by
  have hstep := match?_star_seq (quotedItem q doubled) (char (.ofChars [q])) ⟨b, c :: d :: u⟩
  rw [ends_quotedItem, List.findSome?_append, List.findSome?_append, match?_quote] at hstep
  have hpair : ∀ (p : Prop) [Decidable p] (e : Cursor), e.rest.length < u.length + 2 →
      ((if p then [e] else []).findSome? fun e =>
        if e.rest.length < (c :: d :: u).length then
          (seq (star (quotedItem q doubled)) (char (.ofChars [q]))).match? e
        else (char (.ofChars [q])).match? e) =
      if p then (quotedRest q doubled).match? e else none := by
    intro p _ e he
    have hshorter : e.rest.length < (c :: d :: u).length := he
    by_cases hp : p
    · rw [if_pos hp, if_pos hp, List.findSome?_singleton, if_pos hshorter, quotedRest]
    · rw [if_neg hp, if_neg hp, List.findSome?_nil]
  have hlast : ∀ e : Cursor, e.rest.length < u.length + 2 →
      ((if c = q then [] else [e]).findSome? fun e =>
        if e.rest.length < (c :: d :: u).length then
          (seq (star (quotedItem q doubled)) (char (.ofChars [q]))).match? e
        else (char (.ofChars [q])).match? e) =
      if c = q then none else (quotedRest q doubled).match? e := by
    intro e he
    have hshorter : e.rest.length < (c :: d :: u).length := he
    by_cases hc : c = q
    · rw [if_pos hc, if_pos hc, List.findSome?_nil]
    · rw [if_neg hc, if_neg hc, List.findSome?_singleton, if_pos hshorter, quotedRest]
  rw [hpair _ ⟨d :: c :: b, u⟩ (by simp), hpair _ ⟨d :: c :: b, u⟩ (by simp),
    hlast ⟨c :: b, d :: u⟩ (by simp)] at hstep
  exact hstep

/-- A quoted text is read without going back. -/
theorem match?_quotedRest (hq : q ≠ '\\') (b t : Text) :
    (quotedRest q doubled).match? ⟨b, t⟩ =
      (close? q doubled t).map fun w => ⟨w.reverse ++ b, t.drop w.length⟩ := by
  fun_induction close? q doubled t generalizing b with
  | case1 => exact match?_quotedRest_of_notMem List.not_mem_nil
  | case2 =>
    rw [match?_quotedRest_singleton, if_pos rfl]
    rfl
  | case3 c hc => exact match?_quotedRest_of_notMem (by simpa using Ne.symm hc)
  | case4 c d u h ih =>
    -- the pair is read, as the quote that comes later closes the text
    obtain ⟨rfl, hopen, hlater⟩ := h
    obtain ⟨w, hw⟩ := Option.ne_none_iff_exists'.1
      (fun hnone => close?_eq_none_iff.1 hnone hlater : close? d doubled u ≠ none)
    rw [match?_quotedRest_cons_cons, ih, hw]
    rcases hopen with rfl | ⟨hdoubled, rfl⟩
    · simp [Ne.symm hq]
    · simp [hdoubled]
  | case5 d u h =>
    -- no quote comes later, so this one closes the text
    rw [match?_quotedRest_cons_cons]
    by_cases hpair : doubled = true ∧ d = q
    · rw [match?_quotedRest_of_notMem fun hlater => h ⟨hpair.2, .inr ⟨hpair.1, rfl⟩, hlater⟩]
      simp [hq]
    · simp [hpair, hq]
  | case6 c d u h hc ih =>
    rw [match?_quotedRest_cons_cons, ih]
    by_cases hescape : c = '\\' ∧ d = q
    · rw [match?_quotedRest_of_notMem fun hlater => h ⟨hescape.2, .inl hescape.1, hlater⟩]
      simp [hc, Function.comp_def]
    · simp [hescape, hc, Function.comp_def]

/-! ## The rules of quoted texts -/

theorem end?_quoted (hq : q ≠ '\\') (kind : Kind) (b t : Text) :
    (Rule.mk (seq (char (.ofChars [q])) (quotedRest q doubled)) kind).end? ⟨b, q :: t⟩ =
      (close? q doubled t).map fun w => ⟨w.reverse ++ q :: b, t.drop w.length⟩ := by
  have hopen : (char (.ofChars [q])).ends ⟨b, q :: t⟩ = [⟨q :: b, t⟩] := by
    rw [ends_char, CharSet.contains_ofChars]
    simp
  have hmatch : (seq (char (.ofChars [q])) (quotedRest q doubled)).match? ⟨b, q :: t⟩ =
      (quotedRest q doubled).match? ⟨q :: b, t⟩ := by
    rw [match?_eq_head?, match?_eq_head?, ends, hopen, List.flatMap_singleton]
  rw [Rule.end?, match?_toMatcher, hmatch, match?_quotedRest hq]
  cases close? q doubled t with
  | none => rfl
  | some w =>
    have hshorter : (t.drop w.length).length < (q :: t).length := by
      rw [List.length_drop, List.length_cons]
      omega
    rw [Option.map_some, Option.filter_some, if_pos (decide_eq_true hshorter)]

theorem firstMatch?_singleQuote (b t : Text) :
    firstMatch? rules ⟨b, '\'' :: t⟩ =
      (close? '\'' true t).map fun w => (.string, ⟨w.reverse ++ '\'' :: b, t.drop w.length⟩) := by
  have hlead : lead '\'' = .quote := by decide
  rw [firstMatch?_lead, hlead]
  show (firstMatch? [singleQuoted] ⟨b, '\'' :: t⟩) = _
  rw [firstMatch?, List.findSome?_singleton, singleQuoted_eq, end?_quoted (by decide),
    Option.map_map]
  rfl

theorem firstMatch?_backQuote (b t : Text) :
    firstMatch? rules ⟨b, '`' :: t⟩ =
      (close? '`' false t).map fun w => (.string, ⟨w.reverse ++ '`' :: b, t.drop w.length⟩) := by
  have hlead : lead '`' = .backQuote := by decide
  rw [firstMatch?_lead, hlead]
  show (firstMatch? [backQuoted] ⟨b, '`' :: t⟩) = _
  rw [firstMatch?, List.findSome?_singleton, backQuoted_eq, end?_quoted (by decide),
    Option.map_map]
  rfl

end Sql

end SqlLayout
