import SqlLayout.Proofs.Lexer.Sql.Tokens

/-!
# Quoted texts in one pass

After an opening quote items are read one by one: a pair of quotes, a quote after a backslash, any
other character. The reading ends with a lone quote or with the text (`readItems`), and nothing is
read twice. What the rules of SQL cut is told by it: the quoted text goes up to the lone quote, or
else up to the first quote of the last item that has one (`close?_eq_closed?`). If there is no such
item either, the scan stops at the opening quote.
-/

namespace SqlLayout.Sql

open Lexer Text

/-! ## Items -/

/-- What stands between two quotes. -/
inductive Item
  /-- Two quotes. -/
  | pair
  /-- A quote after a backslash. -/
  | escape
  | other (x : Char)

/-- The characters of an item. -/
def Item.text (q : Char) : Item → Text
  | pair => [q, q]
  | escape => ['\\', q]
  | other x => [x]

/-- There is a quote in the item. -/
def Item.isQuoting : Item → Bool
  | other _ => false
  | _ => true

/-- The characters of an item up to its first quote. -/
def Item.opening (q : Char) : Item → Text
  | pair => [q]
  | escape => ['\\', q]
  | other x => [x]

/-- Items of a text, and whether a lone quote comes after them or the end of the text. -/
structure Reading where
  items : List Item
  lone : Bool

/-- The item stands in front of what is read. -/
def Reading.after (i : Item) (r : Reading) : Reading := { r with items := i :: r.items }

/-- Reads items up to a lone quote or to the end of the text; a pair of quotes is an item only where
`doubled` allows it. -/
def readItems (q : Char) (doubled : Bool) : Text → Reading
  | [] => ⟨[], false⟩
  | [c] => if c = q then ⟨[], true⟩ else ⟨[.other c], false⟩
  | c :: d :: u =>
    if doubled = true ∧ c = q ∧ d = q then (readItems q doubled u).after .pair
    else if c = '\\' ∧ d = q then (readItems q doubled u).after .escape
    else if c = q then ⟨[], true⟩
    else (readItems q doubled (d :: u)).after (.other c)

variable {q : Char} {doubled : Bool} {b s t u w : Text} {i : Item} {is before after : List Item}
  {n : Nat}

/-! ## Where a reading closes the text -/

/-- The text of the items up to the lone quote after them, or else up to the first quote of the last
item that has one. -/
def closed? (q : Char) (lone : Bool) : List Item → Option Text
  | [] => if lone then some [q] else none
  | i :: is =>
    match closed? q lone is with
    | some w => some (i.text q ++ w)
    | none => if i.isQuoting then some (i.opening q) else none

theorem closed?_lone (q : Char) (is : List Item) :
    closed? q true is = some (is.flatMap (·.text q) ++ [q]) := by
  induction is with
  | nil => rfl
  | cons i is ih => rw [closed?, ih, List.flatMap_cons, List.append_assoc]

theorem closed?_eq_none (h : ∀ i ∈ is, i.isQuoting = false) : closed? q false is = none := by
  induction is with
  | nil => rfl
  | cons i is ih =>
    rw [closed?, ih fun j hj => h j (List.mem_cons_of_mem i hj), h i List.mem_cons_self]
    rfl

theorem closed?_last (hi : i.isQuoting = true) (hafter : ∀ j ∈ after, j.isQuoting = false) :
    closed? q false (before ++ i :: after) = some (before.flatMap (·.text q) ++ i.opening q) := by
  induction before with
  | nil =>
    rw [List.nil_append, closed?, closed?_eq_none hafter, hi]
    rfl
  | cons j before ih => rw [List.cons_append, closed?, ih, List.flatMap_cons, List.append_assoc]

/-- A text is closed only by a quote. -/
theorem mem_of_close? (h : close? q doubled t = some w) : q ∈ t := by
  by_contra hnot
  rw [close?_eq_none_iff.2 hnot] at h
  exact nomatch h

/-- With no later quote a quote closes the text. -/
theorem close?_of_notMem (h : q ∉ u) : close? q doubled (q :: u) = some [q] := by
  refine close?_self fun v hv _ _ => h ?_
  rw [hv]
  exact List.mem_cons_self

/-- What is read without going back is what one pass over the items tells. -/
theorem close?_eq_closed? (hq : q ≠ '\\') (doubled : Bool) (t : Text) :
    close? q doubled t =
      closed? q (readItems q doubled t).lone (readItems q doubled t).items := by
  fun_induction readItems q doubled t with
  | case1 => rfl
  | case2 => rw [close?, if_pos rfl]; rfl
  | case3 c hc => rw [close?, if_neg hc]; rfl
  | case4 c d u h ih =>
    obtain ⟨hdoubled, rfl, rfl⟩ := h
    rw [Reading.after, close?, closed?, ← ih]
    cases hclose : close? d doubled u with
    | none =>
      -- no quote comes later, so the first one of the pair closes the text
      rw [if_neg fun hpair => close?_eq_none_iff.1 hclose hpair.2.2, if_pos rfl]
      rfl
    | some w =>
      rw [if_pos ⟨rfl, .inr ⟨hdoubled, rfl⟩, mem_of_close? hclose⟩]
      rfl
  | case5 c d u hpair h ih =>
    obtain ⟨rfl, rfl⟩ := h
    rw [Reading.after, close?, closed?, ← ih]
    cases hclose : close? d doubled u with
    | none =>
      -- no quote comes later, so the escaped one closes the text
      have hnot := close?_eq_none_iff.1 hclose
      rw [if_neg fun hescape => hnot hescape.2.2, if_neg hq.symm, close?_of_notMem hnot]
      rfl
    | some w =>
      rw [if_pos ⟨rfl, .inl rfl, mem_of_close? hclose⟩]
      rfl
  | case6 d u hpair hescape =>
    rw [close?, if_neg, if_pos rfl]
    · rfl
    · rintro ⟨rfl, hopen | hopen, -⟩
      · exact hq hopen
      · exact hpair ⟨hopen.1, rfl, rfl⟩
  | case7 c d u hpair hescape hc ih =>
    rw [Reading.after, close?, if_neg, if_neg hc, ih, closed?]
    · cases closed? q (readItems q doubled (d :: u)).lone (readItems q doubled (d :: u)).items <;> rfl
    · rintro ⟨rfl, hopen | hopen, -⟩
      · exact hescape ⟨hopen, rfl⟩
      · exact hc hopen.2

theorem close?_prefix (h : close? q doubled t = some w) : w <+: t := by
  fun_induction close? q doubled t generalizing w with
  | case1 => simp at h
  | case2 => simp [← Option.some.inj h]
  | case3 => simp at h
  | case4 c d u _ ih =>
    obtain ⟨v, hv, rfl⟩ := Option.map_eq_some_iff.1 h
    rw [List.prefix_cons_inj, List.prefix_cons_inj]
    exact ih hv
  | case5 d u _ => simp [← Option.some.inj h]
  | case6 c d u _ _ ih =>
    obtain ⟨v, hv, rfl⟩ := Option.map_eq_some_iff.1 h
    rw [List.prefix_cons_inj]
    exact ih hv

/-! ## The tokens -/

/-- The quotes of SQL; a single quote may be doubled. -/
def quotes : List (Char × Bool) := [('\'', true), ('`', false)]

/-- A quoted text is cut up to where it is closed. -/
theorem cut_of_close? {v r : Text} (hquote : (q, doubled) ∈ quotes)
    (h : close? q doubled (v ++ r) = some v) (b : Text) (k : Int) :
    Cut b ⟨.string, q :: v, k⟩ r := by
  simp only [quotes, List.mem_cons, Prod.mk.injEq, List.not_mem_nil, or_false] at hquote
  rcases hquote with ⟨rfl, rfl⟩ | ⟨rfl, rfl⟩
  · exact ⟨.string, .singleQuoted h, rfl⟩
  · exact ⟨.string, .backQuoted h, rfl⟩

theorem mem_tokens_of_close? (hquote : (q, doubled) ∈ quotes) (hn : IsStart (tokens s) n)
    (hdrop : s.drop n = q :: t) (h : close? q doubled t = some w) :
    (⟨.string, q :: w, n⟩ : Token) ∈ tokens s := by
  obtain ⟨r, rfl⟩ := close?_prefix h
  have hcut := cut_of_close? hquote h (s.take n).reverse n
  have hfound := (mem_tokens_iff_cut (t := ⟨.string, q :: w, n⟩) hn).2 ⟨rfl, r, hdrop, hcut⟩
  exact hfound.1

/-- At a quote that nothing closes no rule applies, and the scan stops. -/
theorem stops_of_close?_eq_none (hquote : (q, doubled) ∈ quotes) (hn : IsStart (tokens s) n)
    (hdrop : s.drop n = q :: t) (h : close? q doubled t = none) :
    (∀ rule ∈ lexer.rules, rule.end? (.at s n) = none) ∧ n = reach (tokens s) ∧
      (lexer.scan s).ending = .noMatch n := by
  have hmem : q = '\'' ∨ q = '`' := by
    simp only [quotes, List.mem_cons, Prod.mk.injEq, List.not_mem_nil, or_false] at hquote
    exact hquote.imp And.left And.left
  have hgives : GivesUp q t := by
    rw [GivesUp, if_pos hmem]
    exact close?_eq_none_iff.1 h
  have hlt : n < s.length := by
    have hlen := congrArg List.length hdrop
    rw [List.length_drop, List.length_cons] at hlen
    omega
  have hnothing : lexer.next n (.at s n) = .nothing :=
    (next_at_eq_nothing_iff hlt).2 ⟨q, t, hdrop, hgives⟩
  refine ⟨?_, scan_stops_of_nothing resolved hn hlt hnothing⟩
  rw [Cursor.at, hdrop]
  exact firstMatch?_eq_none_iff.1 (firstMatch?_rules_eq_none_iff.2 hgives)

/-- At a quote the tokens of a query are those that one pass over the items tells: a string up to
the lone quote, or else up to the first quote of the last item that has one, or else nothing. -/
theorem tokenize_quoted (s : Text) :
    ∃ ts, lexer.tokenize s false = .ok ts ∧
      ∀ p, IsStart ts p → ∀ q doubled, (q, doubled) ∈ quotes → ∀ later, s.drop p = q :: later →
        ((readItems q doubled later).lone = true →
          ⟨.string, q :: ((readItems q doubled later).items.flatMap (·.text q) ++ [q]), p⟩ ∈ ts) ∧
        ((readItems q doubled later).lone = false →
          (∀ before i after, (readItems q doubled later).items = before ++ i :: after →
            i.isQuoting = true → (∀ j ∈ after, j.isQuoting = false) →
              ⟨.string, q :: (before.flatMap (·.text q) ++ i.opening q), p⟩ ∈ ts) ∧
          ((∀ i ∈ (readItems q doubled later).items, i.isQuoting = false) →
            (∀ rule ∈ lexer.rules, rule.end? (.at s p) = none) ∧ p = reach ts ∧
              (lexer.scan s).ending = .noMatch p)) := by
  refine ⟨tokens s, tokenize_eq_ok resolved s, ?_⟩
  intro p hp q doubled hquote later hdrop
  have hq : q ≠ '\\' := by
    have hall : ∀ x ∈ quotes, x.1 ≠ '\\' := by decide
    exact hall _ hquote
  have hclose := close?_eq_closed? hq doubled later
  refine ⟨fun hlone => ?_, fun hlone => ⟨fun before i after hitems hi hafter => ?_, fun hnone => ?_⟩⟩
  · rw [hlone, closed?_lone] at hclose
    exact mem_tokens_of_close? hquote hp hdrop hclose
  · rw [hlone, hitems, closed?_last hi hafter] at hclose
    exact mem_tokens_of_close? hquote hp hdrop hclose
  · rw [hlone, closed?_eq_none hnone] at hclose
    exact stops_of_close?_eq_none hquote hp hdrop hclose

/-- The text ends before a lone quote comes, so the escaped one closes the string. -/
example : tokens "'it\\'s".toList =
    [⟨.string, "'it\\'".toList, 0⟩, ⟨.name, "s".toList, 5⟩] := by
  decide +kernel

end SqlLayout.Sql
