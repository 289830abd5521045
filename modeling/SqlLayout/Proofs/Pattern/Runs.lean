import Mathlib.Computability.Language
import SqlLayout.Pattern.Matcher

/-!
# Repetitions and the texts that patterns spell

Two views of a match are used. For the order of the ends, the best match of a sequence is the best
match of its second part after the best of its first, as long as that one exists
(`match?_seq`), and a greedy run of one set of characters ends after the longest one
(`match?_star_char`). For the ends as a set, a pattern without tests of its surroundings spells a
language: a place is an end exactly if a word of the language is read on the way to it (`Spells`).
-/

namespace SqlLayout

/-- The place after the longest run of characters that pass a test. -/
def Cursor.past (f : Char → Bool) (c : Cursor) : Cursor :=
  ⟨(c.rest.takeWhile f).reverse ++ c.before, c.rest.dropWhile f⟩

theorem Cursor.reads_past (f : Char → Bool) (c : Cursor) :
    c.Reads (c.rest.takeWhile f) (c.past f) :=
  ⟨List.takeWhile_append_dropWhile.symm, rfl⟩

theorem Cursor.past_cons_of_pos {f : Char → Bool} {b : Text} {x : Char} {r : Text}
    (hx : f x = true) : (⟨b, x :: r⟩ : Cursor).past f = (⟨x :: b, r⟩ : Cursor).past f := by
  simp [past, hx]

theorem Cursor.past_cons_of_neg {f : Char → Bool} {b : Text} {x : Char} {r : Text}
    (hx : f x = false) : (⟨b, x :: r⟩ : Cursor).past f = ⟨b, x :: r⟩ := by
  simp [past, hx]

/-- A run that something else follows is the longest. -/
theorem Cursor.past_append {f : Char → Bool} {b w r : Text} (hw : ∀ x ∈ w, f x = true)
    (hr : r.head?.any f = false) : (⟨b, w ++ r⟩ : Cursor).past f = ⟨w.reverse ++ b, r⟩ := by
  have htake : (w ++ r).takeWhile f = w := by
    rw [List.takeWhile_append_of_pos hw]
    cases r with
    | nil => simp
    | cons x r => simp_all
  have hdrop : (w ++ r).dropWhile f = r := by
    rw [List.dropWhile_append_of_pos hw]
    cases r with
    | nil => simp
    | cons x r => simp_all
  simp only [past, htake, hdrop]

/-- A text that begins with another one begins within it or goes on where it ends. -/
theorem append_cases {p q r t : Text} (h : p ++ q = t ++ r) :
    (∃ u, u ≠ [] ∧ t = p ++ u ∧ q = u ++ r) ∨ ∃ u, p = t ++ u ∧ r = u ++ q := by
  rcases List.append_eq_append_iff.1 h with ⟨u, rfl, rfl⟩ | ⟨u, rfl, rfl⟩
  · by_cases hu : u = []
    · subst hu
      exact .inr ⟨[], by simp, by simp⟩
    · exact .inl ⟨u, hu, rfl, rfl⟩
  · exact .inr ⟨u, rfl, rfl⟩

/-- Two runs of the same text are the same if both are the longest. -/
theorem run_unique {f : Char → Bool} {v w r u : Text} (hv : ∀ x ∈ v, f x = true)
    (hw : ∀ x ∈ w, f x = true) (hr : r.head?.any f = false) (hu : u.head?.any f = false)
    (h : v ++ r = w ++ u) : v = w ∧ r = u := by
  have hpast := Cursor.past_append (b := []) hv hr
  rw [h, Cursor.past_append hw hu] at hpast
  have hrest : u = r := congrArg Cursor.rest hpast
  subst hrest
  exact ⟨List.append_cancel_right h, rfl⟩

namespace Pattern

variable {p q : Pattern} {c d e : Cursor}

/-! ## Equations for the ends -/

theorem ends_char (s : CharSet) (b : Text) (x : Char) (r : Text) :
    (char s).ends ⟨b, x :: r⟩ = if s.contains x then [⟨x :: b, r⟩] else [] := rfl

theorem ends_opt (p : Pattern) (c : Cursor) : (opt p).ends c = p.ends c ++ [c] := by
  have hnone : ∀ e : Cursor, further p.ends true (some 0) e = [e] := by
    intro e
    rw [further]
    simp
  rw [opt, ends, exactly, List.flatMap_singleton, further]
  simp [hnone]

theorem ends_star (p : Pattern) (c : Cursor) :
    (star p).ends c =
      ((p.ends c).flatMap fun e =>
        if e.rest.length < c.rest.length then (star p).ends e else [e]) ++ [c] := by
  have hstar : ∀ e : Cursor, (star p).ends e = further p.ends true none e := by
    intro e
    rw [star, ends, exactly, List.flatMap_singleton]
    rfl
  rw [hstar, further]
  simp [hstar]

theorem ends_plus (p : Pattern) (c : Cursor) :
    (plus p).ends c = (p.ends c).flatMap (star p).ends := by
  have hturn : exactly p.ends 1 c = p.ends c := by
    simp [exactly]
  rw [plus, ends, hturn]
  refine List.flatMap_congr fun e _ => ?_
  rw [star, ends, exactly, List.flatMap_singleton]
  rfl

/-! ## The best match -/

/-- No choice is taken back where the second part matches after the best match of the first. -/
theorem match?_seq (hp : p.match? c = some d) (hq : q.match? d = some e) :
    (seq p q).match? c = some e := by
  rw [match?_eq_head?] at hp hq ⊢
  obtain ⟨ds, hds⟩ := List.head?_eq_some_iff.1 hp
  obtain ⟨es, hes⟩ := List.head?_eq_some_iff.1 hq
  rw [ends, hds, List.flatMap_cons, hes]
  rfl

theorem match?_char (s : CharSet) (b : Text) (x : Char) (r : Text) :
    (char s).match? ⟨b, x :: r⟩ = if s.contains x then some ⟨x :: b, r⟩ else none := by
  rw [match?_eq_head?, ends_char]
  split <;> rfl

/-- A greedy run of one set of characters is the longest run. -/
theorem match?_star_char (s : CharSet) (c : Cursor) :
    (star (char s)).match? c = some (c.past s.contains) := by
  rw [match?_eq_head?]
  obtain ⟨b, t⟩ := c
  induction t generalizing b with
  | nil =>
    rw [ends_star]
    rfl
  | cons x r ih =>
    rw [ends_star, ends_char]
    by_cases hx : s.contains x = true
    · obtain ⟨es, hes⟩ := List.head?_eq_some_iff.1 (ih (x :: b))
      rw [Cursor.past_cons_of_pos hx]
      simp [hx, hes]
    · rw [Cursor.past_cons_of_neg (by simpa using hx)]
      simp [hx]

theorem match?_plus_char_of_pos {s : CharSet} {b : Text} {x : Char} {r : Text}
    (hx : s.contains x = true) :
    (plus (char s)).match? ⟨b, x :: r⟩ = some ((⟨b, x :: r⟩ : Cursor).past s.contains) := by
  have hstar := match?_star_char s ⟨x :: b, r⟩
  rw [match?_eq_head?] at hstar ⊢
  rw [ends_plus, ends_char, if_pos hx, List.flatMap_singleton, hstar, Cursor.past_cons_of_pos hx]

/-! ## The language of a pattern -/

/-- The ends of the pattern are the places that are reached by reading a word of the language. -/
def Spells (p : Pattern) (L : Language Char) : Prop :=
  ∀ c e, e ∈ p.ends c ↔ ∃ w ∈ L, c.Reads w e

/-- The texts all of whose characters pass a test. -/
def runs (f : Char → Bool) : Language Char := {w | ∀ x ∈ w, f x = true}

/-- The texts of at least one character all of whose characters pass a test. -/
def properRuns (f : Char → Bool) : Language Char := {w | w ≠ [] ∧ ∀ x ∈ w, f x = true}

theorem mem_runs {f : Char → Bool} {w : Text} : w ∈ runs f ↔ ∀ x ∈ w, f x = true := Iff.rfl

variable {L M : Language Char}

theorem spells_char (s : CharSet) :
    (char s).Spells {w | ∃ x, s.contains x = true ∧ w = [x]} := by
  rintro ⟨b, t⟩ e
  cases t with
  | nil =>
    constructor
    · intro he
      simp [ends] at he
    · rintro ⟨_, ⟨x, -, rfl⟩, hr⟩
      simpa using hr.rest_eq
  | cons x r =>
    rw [ends_char]
    constructor
    · intro he
      by_cases hx : s.contains x = true
      · rw [if_pos hx, List.mem_singleton] at he
        exact ⟨[x], ⟨x, hx, rfl⟩, he ▸ .cons b x r⟩
      · simp [hx] at he
    · rintro ⟨_, ⟨y, hy, rfl⟩, hr⟩
      have hxy : x = y := by simpa using congrArg List.head? hr.rest_eq
      subst hxy
      rw [if_pos hy, List.mem_singleton]
      exact hr.unique (.cons b x r)

theorem Spells.seq (hp : p.Spells L) (hq : q.Spells M) : (seq p q).Spells (L * M) := by
  intro c e
  rw [ends, List.mem_flatMap]
  constructor
  · rintro ⟨d, hd, he⟩
    obtain ⟨v, hv, hcd⟩ := (hp c d).1 hd
    obtain ⟨w, hw, hde⟩ := (hq d e).1 he
    exact ⟨v ++ w, Language.append_mem_mul hv hw, hcd.append hde⟩
  · rintro ⟨_, ⟨v, hv, w, hw, rfl⟩, hr⟩
    -- the place between the two words
    let d : Cursor := ⟨v.reverse ++ c.before, w ++ e.rest⟩
    have hcd : c.Reads v d := ⟨by simpa using hr.rest_eq, rfl⟩
    have hde : d.Reads w e := ⟨rfl, by simpa [d] using hr.before_eq⟩
    exact ⟨d, (hp c d).2 ⟨v, hv, hcd⟩, (hq d e).2 ⟨w, hw, hde⟩⟩

theorem Spells.alt (hp : p.Spells L) (hq : q.Spells M) : (alt p q).Spells (L + M) := by
  intro c e
  rw [ends, List.mem_append, hp c e, hq c e]
  constructor
  · rintro (⟨w, hw, hr⟩ | ⟨w, hw, hr⟩)
    · exact ⟨w, .inl hw, hr⟩
    · exact ⟨w, .inr hw, hr⟩
  · rintro ⟨w, hw | hw, hr⟩
    · exact .inl ⟨w, hw, hr⟩
    · exact .inr ⟨w, hw, hr⟩

theorem Spells.opt (hp : p.Spells L) : (opt p).Spells (L + 1) := by
  intro c e
  rw [ends_opt, List.mem_append, hp c e, List.mem_singleton]
  constructor
  · rintro (⟨w, hw, hr⟩ | rfl)
    · exact ⟨w, .inl hw, hr⟩
    · exact ⟨[], .inr rfl, .nil e⟩
  · rintro ⟨w, hw | hw, hr⟩
    · exact .inl ⟨w, hw, hr⟩
    · obtain rfl : w = [] := hw
      exact .inr hr.eq_of_nil

theorem spells_empty : Pattern.empty.Spells 1 := by
  intro c e
  rw [ends, List.mem_singleton]
  constructor
  · rintro rfl
    exact ⟨[], rfl, .nil e⟩
  · rintro ⟨w, hw, hr⟩
    obtain rfl : w = [] := hw
    exact hr.eq_of_nil

theorem spells_star_char (s : CharSet) : (star (char s)).Spells (runs s.contains) := by
  rintro ⟨b, t⟩ e
  induction t generalizing b with
  | nil =>
    rw [ends_star]
    constructor
    · intro he
      have : e = ⟨b, []⟩ := by simpa [ends] using he
      exact ⟨[], by simp [mem_runs], this ▸ .nil e⟩
    · rintro ⟨w, -, hr⟩
      have hw : w = [] := (List.append_eq_nil_iff.1 hr.rest_eq.symm).1
      subst hw
      simp [ends, hr.eq_of_nil]
  | cons x r ih =>
    rw [ends_star, ends_char]
    by_cases hx : s.contains x = true
    · -- the star takes the character and goes on, or stops in front of it
      have hmem : e ∈ (star (char s)).ends ⟨x :: b, r⟩ ∨ e = ⟨b, x :: r⟩ ↔
          ∃ w ∈ runs s.contains, (⟨b, x :: r⟩ : Cursor).Reads w e := by
        rw [ih (x :: b)]
        constructor
        · rintro (⟨w, hw, hr⟩ | rfl)
          · refine ⟨x :: w, ?_, (Cursor.Reads.cons b x r).append hr⟩
            rw [mem_runs] at hw ⊢
            simpa [hx] using hw
          · exact ⟨[], by simp [mem_runs], .nil _⟩
        · rintro ⟨w, hw, hr⟩
          cases w with
          | nil => exact .inr hr.eq_of_nil
          | cons y w =>
            obtain ⟨r', hr', rfl⟩ := Cursor.reads_iff.1 hr
            rw [List.cons_append, List.cons.injEq] at hr'
            obtain ⟨rfl, rfl⟩ := hr'
            refine .inl ⟨w, fun z hz => hw z (by simp [hz]), ?_⟩
            simpa using Cursor.Reads.over (x :: b) w r'
      simpa [hx] using hmem
    · constructor
      · intro he
        have : e = ⟨b, x :: r⟩ := by simpa [hx] using he
        exact ⟨[], by simp [mem_runs], this ▸ .nil e⟩
      · rintro ⟨w, hw, hr⟩
        cases w with
        | nil => simp [hr.eq_of_nil, hx]
        | cons y w =>
          have hxy : x = y := by simpa using congrArg List.head? hr.rest_eq
          exact absurd (hxy ▸ hw y (by simp)) hx

theorem spells_plus_char (s : CharSet) : (plus (char s)).Spells (properRuns s.contains) := by
  have hseq := (spells_char s).seq (spells_star_char s)
  intro c e
  have hends : (plus (char s)).ends c = (Pattern.seq (char s) (star (char s))).ends c := by
    rw [ends_plus]
    rfl
  rw [hends, hseq c e]
  refine exists_congr fun w => and_congr_left fun _ => ?_
  constructor
  · rintro ⟨_, ⟨x, hx, rfl⟩, v, hv, rfl⟩
    refine ⟨by simp, ?_⟩
    intro y hy
    rcases List.mem_cons.1 hy with rfl | hy
    · exact hx
    · exact hv y hy
  · rintro ⟨hne, hall⟩
    cases w with
    | nil => exact absurd rfl hne
    | cons x v =>
      exact ⟨[x], ⟨x, hall x (by simp), rfl⟩, v, fun y hy => hall y (by simp [hy]), rfl⟩

theorem spells_text (t : Text) : (text t).Spells {t} := by
  have hone : ∀ x : Char, (char (.ofChars [x])).Spells {[x]} := by
    intro x c e
    rw [spells_char]
    refine exists_congr fun w => and_congr_left fun _ => ?_
    constructor
    · rintro ⟨y, hy, rfl⟩
      have : y = x := by simpa [CharSet.contains, CharSet.lists, CharSet.ofChars,
        CharSet.Member.names] using hy
      exact congrArg (fun z => [z]) this
    · intro hw
      exact ⟨x, by simp [CharSet.contains, CharSet.lists, CharSet.ofChars,
        CharSet.Member.names], hw⟩
  induction t with
  | nil => exact spells_empty
  | cons x t ih =>
    cases t with
    | nil => exact hone x
    | cons y t =>
      have hseq := (hone x).seq ih
      have hmul : ({[x]} : Language Char) * {y :: t} = {x :: y :: t} :=
        Set.image2_singleton
      rw [hmul] at hseq
      exact hseq

end Pattern

end SqlLayout
