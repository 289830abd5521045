import Mathlib.Data.List.Chain
import SqlLayout.Proofs.Layout.Plain
import SqlLayout.Proofs.Lexer.Cutting
import SqlLayout.Proofs.Lexer.Registration

/-!
# Tokens tile the text

Whatever tables registrations lead to, the tokens of a text lie side by side from its start, each is
decided by the first rule that applies at its offset, and the scan stops for one of three reasons.
Written one after another, the tokens give back what was cut.
-/

namespace SqlLayout.Lexer

/-- The end of the last token; the start of the text if there is none. -/
def reach (ts : List Token) : Nat := (ts.getLast?.elim 0 Token.stop).toNat

/-- At a place of the text this rule is the first of the table with a match of at least one
character, and the match ends there. -/
def Decides (lx : Lexer) (rule : Rule) (c e : Cursor) : Prop :=
  ∃ earlier later, lx.rules = earlier ++ rule :: later ∧ (∀ r ∈ earlier, r.end? c = none) ∧
    rule.end? c = some e

/-- The tokens lie side by side on the text, and the rules account for each of them and for the
place where they end. -/
structure Tiles (lx : Lexer) (s : Text) (ts : List Token) : Prop where
  proper : ∀ t ∈ ts, t.value ≠ []
  starts : ∀ t ∈ ts.head?, t.offset = 0
  adjoins : ts.IsChain fun t u => u.offset = t.stop
  slices : ∀ t ∈ ts, t.value = (s.take t.stop.toNat).drop t.offset.toNat
  decided : ∀ t ∈ ts, ∃ rule, lx.Decides rule (.at s t.offset.toNat) (.at s t.stop.toNat) ∧
    rule.kind ≠ .unknown ∧ t.kind = lx.resolve rule.kind t.value
  stopped : reach ts = s.length ∨ (∀ r ∈ lx.rules, r.end? (.at s (reach ts)) = none) ∨
    ∃ rule e, lx.Decides rule (.at s (reach ts)) e ∧ rule.kind = .unknown

variable {lx : Lexer} {n m : Nat} {c d : Cursor} {s : Text} {ts : List Token}

/-- On the way each token starts where the one before it ends, and the last one ends where the way
does. -/
theorem Cuts.adjoins (h : Cuts lx n c ts m d) :
    (∀ t ∈ ts.head?, t.offset = n) ∧ (ts.IsChain fun t u => u.offset = t.stop) ∧
      ts.getLast?.elim (n : Int) Token.stop = m := by
  induction h with
  | done n c => exact ⟨by simp, .nil, rfl⟩
  | @step n m c d e t ts hnext hcuts ih =>
    obtain ⟨hhead, hchain, hlast⟩ := ih
    have hstop : t.stop = (n + t.value.length : Nat) := by
      rw [Token.stop, (reads_of_next hnext).2.2]
      simp
    refine ⟨?_, ?_, ?_⟩
    · intro u hu
      rw [List.head?_cons, Option.mem_some_iff] at hu
      exact hu ▸ (reads_of_next hnext).2.2
    · refine List.isChain_cons.2 ⟨fun u hu => ?_, hchain⟩
      rw [hhead u hu, hstop]
    · cases ts with
      | nil => simpa [hstop] using hlast
      | cons u us =>
        rw [List.getLast?_cons_cons]
        rw [List.getLast?_cons] at hlast ⊢
        exact hlast

theorem Cuts.reach_eq (h : Cuts lx 0 c ts m d) : reach ts = m := by
  have hlast : ts.getLast?.elim 0 Token.stop = (m : Int) := h.adjoins.2.2
  rw [reach, hlast, Int.toNat_natCast]

/-- The way from the start of a text ends at the place that its tokens reach. -/
theorem Cuts.place_eq (h : Cuts lx 0 (.at s 0) ts m d) : d = .at s (reach ts) := by
  obtain ⟨hreads, hm⟩ := h.reads
  rw [hreads.of_at, h.reach_eq, hm]

/-- The texts of the tokens are the part of the text that they cover. -/
theorem Cuts.flatMap_value (h : Cuts lx 0 (.at s 0) ts m d) :
    ts.flatMap (·.value) = s.take m := by
  obtain ⟨hreads, hm⟩ := h.reads
  have hs : s = ts.flatMap (·.value) ++ d.rest := by simpa [Cursor.at] using hreads.rest_eq
  rw [Nat.zero_add] at hm
  rw [hs, hm, List.take_left]

theorem next_ne_unresolved (h : lx.Resolved) : lx.next n c ≠ .unresolved := by
  intro hnext
  unfold next at hnext
  split at hnext
  · simp at hnext
  · split at hnext
    · simp at hnext
    · rw [Token.make, if_neg (h.resolve_ne _ _)] at hnext
      simp at hnext

theorem cuts_scan (lx : Lexer) (s : Text) :
    ∃ m d, Cuts lx 0 (.at s 0) (lx.scan s).tokens m d ∧ Stops lx m d (lx.scan s).ending := by
  rw [Cursor.at_zero]
  exact cuts_scanFrom lx 0 (Cursor.start s)

/-- Under resolved tables a scan stops only for want of text or of a match. -/
theorem Stops.of_resolved {ending : Ending} (h : lx.Resolved) (hstop : Stops lx m d ending) :
    ending ≠ .unresolved ∧ (d.rest = [] ∨ lx.next m d = .nothing) := by
  cases ending with
  | complete => exact ⟨by simp, .inl hstop⟩
  | noMatch k => exact ⟨by simp, .inr hstop.2.2⟩
  | unresolved => exact absurd hstop.2 (next_ne_unresolved h)

/-- The tokens of a text exist under resolved tables: they are those of the scan. -/
theorem tokenize_eq_ok (h : lx.Resolved) (s : Text) :
    lx.tokenize s false = .ok (lx.scan s).tokens := by
  obtain ⟨m, d, -, hstop⟩ := cuts_scan lx s
  have hending := (hstop.of_resolved h).1
  unfold tokenize
  cases hscan : lx.scan s with
  | mk tokens ending =>
    rw [hscan] at hending
    cases ending with
    | complete => rfl
    | noMatch k => rfl
    | unresolved => exact absurd rfl hending

theorem Decides.of_next {t : Token} {e : Cursor} (h : lx.next n c = .token t e) :
    ∃ rule, lx.Decides rule c e ∧ rule.kind ≠ .unknown ∧ t.kind = lx.resolve rule.kind t.value := by
  obtain ⟨kind, hm, hne, -, rfl⟩ := next_eq_token_iff.1 h
  obtain ⟨earlier, rule, later, hrules, hearlier, hend, rfl⟩ := firstMatch?_eq_some_iff.1 hm
  exact ⟨rule, ⟨earlier, later, hrules, hearlier, hend⟩, hne, rfl⟩

theorem Decides.of_next_nothing (h : lx.next n c = .nothing) :
    (∀ r ∈ lx.rules, r.end? c = none) ∨ ∃ rule e, lx.Decides rule c e ∧ rule.kind = .unknown := by
  rcases next_eq_nothing_iff.1 h with hm | ⟨e, hm⟩
  · exact .inl (firstMatch?_eq_none_iff.1 hm)
  · obtain ⟨earlier, rule, later, hrules, hearlier, hend, hkind⟩ := firstMatch?_eq_some_iff.1 hm
    exact .inr ⟨rule, e, ⟨earlier, later, hrules, hearlier, hend⟩, hkind⟩

/-- Each token is what is found at its own offset of the text. -/
theorem Cuts.next_offset (h : Cuts lx n (.at s n) ts m d) {t : Token} (ht : t ∈ ts) :
    lx.next t.offset.toNat (.at s t.offset.toNat) = .token t (.at s t.stop.toNat) := by
  obtain ⟨k, -, hoff, hnext⟩ := h.next_at ht
  have hstart : t.offset.toNat = k := by omega
  have hstop : t.stop.toNat = k + t.value.length := by rw [Token.stop]; omega
  rwa [hstart, hstop]

/-- Its text is the part of the text between its ends. -/
theorem Cuts.slice (h : Cuts lx n (.at s n) ts m d) {t : Token} (ht : t ∈ ts) :
    t.value = (s.take t.stop.toNat).drop t.offset.toNat := by
  obtain ⟨k, -, hoff, hnext⟩ := h.next_at ht
  have hstart : t.offset.toNat = k := by omega
  have hstop : t.stop.toNat = k + t.value.length := by rw [Token.stop]; omega
  rw [hstart, hstop, (reads_of_next hnext).1.slice]

/-- Tokens that are cut from the start up to a place where nothing more is cut tile the text. -/
theorem Cuts.tiles (h : Cuts lx 0 (.at s 0) ts m d)
    (hstop : d.rest = [] ∨ lx.next m d = .nothing) : Tiles lx s ts := by
  obtain ⟨hstarts, hadjoins, -⟩ := h.adjoins
  obtain ⟨hreads, hm⟩ := h.reads
  refine ⟨?_, ?_, hadjoins, ?_, ?_, ?_⟩
  · intro t ht
    exact (reads_of_next (h.next_offset ht)).2.1
  · intro t ht
    simpa using hstarts t ht
  · intro t ht
    exact h.slice ht
  · intro t ht
    exact Decides.of_next (h.next_offset ht)
  · obtain rfl := h.reach_eq
    obtain rfl := h.place_eq
    rcases hstop with hrest | hnothing
    · -- the way has come to the end of the text
      left
      have hle : s.length ≤ reach ts := List.drop_eq_nil_iff.1 hrest
      have hlen := hreads.length_eq
      simp only [Cursor.at, List.drop_zero] at hlen
      omega
    · exact .inr (Decides.of_next_nothing hnothing)

/-- Every text has tokens under registered tables; they tile it, and the default layout gives back
the part of it that they cover. -/
theorem tokenize_tiles (h : Registered lx) (s : Text) :
    ∃ ts, lx.tokenize s false = .ok ts ∧ Tiles lx s ts ∧
      Layout.format {} ts = s.take (reach ts) := by
  obtain ⟨m, d, hcuts, hstop⟩ := cuts_scan lx s
  refine ⟨(lx.scan s).tokens, tokenize_eq_ok h.resolved s,
    hcuts.tiles (hstop.of_resolved h.resolved).2, ?_⟩
  rw [Layout.format_default, hcuts.flatMap_value, hcuts.reach_eq]

/-- Tables with a rule that may match nothing, words that are looked up, and a sign that ends the
scan. -/
def signTables : Lexer :=
  (((Lexer.empty.addRule (Pattern.star (Sql.oneOf "x")) .string).addRule
    Sql.word.matcher .useAsKeyword).addRule (Sql.oneOf "!") .unknown).addKeyword
      "go".toList .keyword

theorem registered_signTables : Registered signTables :=
  .addKeyword _ (by decide) (.addRule _ _ (.addRule _ _ (.addRule _ _ .empty)))

theorem tokenize_tiles_signTables :
    Registered signTables ∧
      ∃ ts, signTables.tokenize "xxGo!x".toList false = .ok ts ∧
        Tiles signTables "xxGo!x".toList ts ∧
        Layout.format {} ts = "xxGo!x".toList.take (reach ts) :=
  ⟨registered_signTables, tokenize_tiles registered_signTables _⟩

end SqlLayout.Lexer
