import SqlLayout.Proofs.Lexer.Extension

/-!
# Words that are registered

The rules alone say where a text is cut; keywords only name the kind of a word that a rule leaves to
their table. So two lexers with the same rules cut every text alike (`scan_recut`), and registrations
change the kind of a token at most. The table finds a word under its upper case and asks earlier
registrations first (`keywordKind?_addKeywords`): a word that was registered before keeps its kind,
and of several registrations with one upper case the first one stands. Registrations of different
upper cases do not meet in the table, so their order does not matter.
-/

namespace SqlLayout.Lexer

variable {lx lx' : Lexer} {n m : Nat} {c d e : Cursor} {s v : Text} {t u : Token} {ts : List Token}
  {k : Kind} {ws : List (Text × Kind)}

/-! ## The table after registrations -/

/-- Registers words one after another, each with its kind. -/
def addKeywords (lx : Lexer) (ws : List (Text × Kind)) : Lexer :=
  ws.foldl (fun lx w => lx.addKeyword w.1 w.2) lx

/-- The first of the registrations with the upper case of this word asks for this kind. -/
def FirstAsks (ws : List (Text × Kind)) (v : Text) (k : Kind) : Prop :=
  ∃ earlier w later, ws = earlier ++ (w, k) :: later ∧ Text.upper w = Text.upper v ∧
    ∀ x ∈ earlier, Text.upper x.1 ≠ Text.upper v

/-- The registrations as a table: the upper cases of the words with their kinds. -/
def keyed (ws : List (Text × Kind)) : List (Text × Kind) := ws.map fun w => (Text.upper w.1, w.2)

theorem rules_addKeyword (lx : Lexer) (w : Text) (k : Kind) : (lx.addKeyword w k).rules = lx.rules := by
  unfold addKeyword
  split
  · rfl
  · rfl

theorem rules_addKeywords (lx : Lexer) (ws : List (Text × Kind)) :
    (lx.addKeywords ws).rules = lx.rules := by
  induction ws generalizing lx with
  | nil => rfl
  | cons w ws ih => exact (ih _).trans (rules_addKeyword lx w.1 w.2)

theorem Resolved.addKeywords (h : lx.Resolved) (hws : ∀ w ∈ ws, w.2 ≠ .useAsKeyword) :
    (lx.addKeywords ws).Resolved := by
  induction ws generalizing lx with
  | nil => exact h
  | cons w ws ih =>
    obtain ⟨hw, hws⟩ := List.forall_mem_cons.1 hws
    exact ih (h.addKeyword w.1 hw) hws

/-- A registration counts where the word was not found before. -/
theorem keywordKind?_addKeyword (lx : Lexer) (w v : Text) (k : Kind) :
    (lx.addKeyword w k).keywordKind? v =
      (lx.keywordKind? v).or ([(Text.upper w, k)].lookup (Text.upper v)) := by
  unfold addKeyword
  split
  · next hknown =>
    -- the word is in the table already, so its upper case is found there
    by_cases hvw : Text.upper v = Text.upper w
    · have hfound : (lx.keywordKind? v).isSome = true := by
        unfold keywordKind?
        rw [hvw]
        exact hknown
      obtain ⟨kind, hkind⟩ := Option.isSome_iff_exists.1 hfound
      rw [hkind, Option.some_or]
    · rw [List.lookup_cons, beq_false_of_ne hvw, List.lookup_nil, Option.or_none]
  · exact List.lookup_append

theorem keywordKind?_addKeywords (lx : Lexer) (ws : List (Text × Kind)) (v : Text) :
    (lx.addKeywords ws).keywordKind? v =
      (lx.keywordKind? v).or ((keyed ws).lookup (Text.upper v)) := by
  induction ws generalizing lx with
  | nil => exact (Option.or_none).symm
  | cons w ws ih =>
    show ((lx.addKeyword w.1 w.2).addKeywords ws).keywordKind? v = _
    rw [ih, keywordKind?_addKeyword, Option.or_assoc, ← List.lookup_append]
    rfl

theorem lookup_keyed_eq_some_iff :
    (keyed ws).lookup (Text.upper v) = some k ↔ FirstAsks ws v k := by
  induction ws with
  | nil => simp [keyed, FirstAsks]
  | cons w ws ih =>
    obtain ⟨w, kind⟩ := w
    show ((Text.upper w, kind) :: keyed ws).lookup (Text.upper v) = some k ↔ _
    rw [List.lookup_cons]
    by_cases hvw : Text.upper v = Text.upper w
    · rw [beq_iff_eq.2 hvw]
      constructor
      · intro h
        obtain rfl := Option.some.inj h
        exact ⟨[], w, ws, rfl, hvw.symm, by simp⟩
      · rintro ⟨earlier, w', later, hsplit, -, hearlier⟩
        cases earlier with
        | nil =>
          obtain ⟨hw, -⟩ := List.cons.inj hsplit
          rw [(Prod.mk.inj hw).2]
        | cons x earlier =>
          obtain ⟨rfl, -⟩ := List.cons.inj hsplit
          exact absurd hvw.symm (hearlier _ List.mem_cons_self)
    · rw [beq_false_of_ne hvw]
      refine Iff.trans ih ⟨?_, ?_⟩
      · rintro ⟨earlier, w', later, rfl, hw', hearlier⟩
        exact ⟨(w, kind) :: earlier, w', later, rfl, hw',
          List.forall_mem_cons.2 ⟨fun h => hvw h.symm, hearlier⟩⟩
      · rintro ⟨earlier, w', later, hsplit, hw', hearlier⟩
        cases earlier with
        | nil =>
          obtain ⟨hw, -⟩ := List.cons.inj hsplit
          obtain ⟨rfl, -⟩ := Prod.mk.inj hw
          exact absurd hw'.symm hvw
        | cons x earlier =>
          obtain ⟨-, rfl⟩ := List.cons.inj hsplit
          exact ⟨earlier, w', later, rfl, hw', (List.forall_mem_cons.1 hearlier).2⟩

/-! ## Lexers with the same rules -/

/-- One piece of the text under two keyword tables: it is the same piece for both, and each table
names its kind for the rule that cut it. -/
structure Recut (lx lx' : Lexer) (s : Text) (t u : Token) : Prop where
  offset : u.offset = t.offset
  value : u.value = t.value
  named : ∃ rule, lx.Decides rule (.at s t.offset.toNat) (.at s t.stop.toNat) ∧
    t.kind = lx.resolve rule.kind t.value ∧ u.kind = lx'.resolve rule.kind t.value

/-- The same place is found, and what is found there is named by the other table. -/
theorem next_recut (hrules : lx'.rules = lx.rules) (h' : lx'.Resolved)
    (hnext : lx.next n (.at s n) = .token t e) :
    ∃ u, lx'.next n (.at s n) = .token u e ∧ Recut lx lx' s t u := by
  obtain ⟨kind, hmatch, hknown, -, ht⟩ := next_eq_token_iff.1 hnext
  obtain ⟨hread, -, hoffset⟩ := reads_of_next hnext
  refine ⟨⟨lx'.resolve kind t.value, t.value, n⟩, ?_, ?_⟩
  · apply next_eq_token_iff.2
    refine ⟨kind, by rw [hrules, hmatch], hknown, h'.resolve_ne _ _, ?_⟩
    rw [hread.upTo_eq]
  · obtain ⟨earlier, rule, later, hsplit, hearlier, hend, rfl⟩ := firstMatch?_eq_some_iff.1 hmatch
    have hplaces : Cursor.at s t.offset.toNat = .at s n ∧ Cursor.at s t.stop.toNat = e := by
      have hstart : t.offset.toNat = n := by omega
      have hstop : t.stop.toNat = n + t.value.length := by
        unfold Token.stop
        omega
      rw [hstart, hstop]
      exact ⟨rfl, hread.of_at.symm⟩
    refine ⟨hoffset.symm, rfl, rule, ?_, ?_, rfl⟩
    · rw [hplaces.1, hplaces.2]
      exact ⟨earlier, later, hsplit, hearlier, hend⟩
    · rw [ht]

theorem Cuts.recut (hrules : lx'.rules = lx.rules) (h' : lx'.Resolved)
    (h : Cuts lx n (.at s n) ts m d) :
    ∃ us, Cuts lx' n (.at s n) us m d ∧ ts.Forall₂ (Recut lx lx' s) us := by
  generalize hc : Cursor.at s n = c at h
  induction h with
  | done n c => exact ⟨[], .done n c, .nil⟩
  | @step n m c d e t ts hnext hcuts ih =>
    subst hc
    obtain ⟨u, hnext', hpiece⟩ := next_recut hrules h' hnext
    obtain ⟨us, hcuts', hpieces⟩ := ih (reads_of_next hnext).1.of_at.symm
    refine ⟨u :: us, .step hnext' ?_, .cons hpiece hpieces⟩
    rw [hpiece.value]
    exact hcuts'

/-- Whether nothing is found is said by the rules alone. -/
theorem Stops.of_rules {ending : Ending} (hrules : lx'.rules = lx.rules) (h : lx.Resolved)
    (hstop : Stops lx m d ending) : Stops lx' m d ending := by
  cases ending with
  | complete => exact hstop
  | noMatch k =>
    obtain ⟨hk, hrest, hnothing⟩ := hstop
    refine ⟨hk, hrest, ?_⟩
    rw [next_eq_nothing_iff, hrules]
    exact next_eq_nothing_iff.1 hnothing
  | unresolved => exact absurd rfl (hstop.of_resolved h).1

/-- Lexers with the same rules cut a text into the same pieces. -/
theorem scan_recut (hrules : lx'.rules = lx.rules) (h : lx.Resolved) (h' : lx'.Resolved) (s : Text) :
    (lx.scan s).tokens.Forall₂ (Recut lx lx' s) (lx'.scan s).tokens := by
  obtain ⟨m, d, hcuts, hstop⟩ := cuts_scan lx s
  obtain ⟨us, hcuts', hpieces⟩ := hcuts.recut hrules h'
  have hscan : lx'.scan s = ⟨us, (lx.scan s).ending⟩ := by
    rw [Cursor.at_zero] at hcuts'
    exact scanFrom_eq hcuts' (hstop.of_rules hrules h)
  rw [hscan]
  exact hpieces

/-- Nothing else of the keyword table counts than the kinds that are found in it. -/
theorem next_congr (hrules : lx'.rules = lx.rules)
    (hkinds : ∀ v, lx'.keywordKind? v = lx.keywordKind? v) (n : Nat) (c : Cursor) :
    lx'.next n c = lx.next n c := by
  have hresolve : ∀ kind v, lx'.resolve kind v = lx.resolve kind v := by
    intro kind v
    unfold resolve
    rw [hkinds]
  unfold next
  simp only [hrules, hresolve]

theorem tokenize_congr (hrules : lx'.rules = lx.rules)
    (hkinds : ∀ v, lx'.keywordKind? v = lx.keywordKind? v) (s : Text) (strict : Bool) :
    lx'.tokenize s strict = lx.tokenize s strict :=
  tokenize_eq_of_next (next_congr hrules hkinds) s strict

/-! ## Tokens before and after registrations -/

/-- The rule that decides on the token leaves its kind to the keyword table, and the table does not
hold the upper case of its text. -/
def IsUnregistered (lx : Lexer) (s : Text) (t : Token) : Prop :=
  (∃ rule, lx.Decides rule (.at s t.offset.toNat) (.at s t.stop.toNat) ∧
    rule.kind = .useAsKeyword) ∧ ∀ x ∈ lx.keywords, x.1 ≠ Text.upper t.value

/-- A token as it is found before and after registrations. -/
structure Relabels (lx : Lexer) (ws : List (Text × Kind)) (s : Text) (t u : Token) : Prop where
  offset : u.offset = t.offset
  value : u.value = t.value
  /-- The kind of a token changes only if its word was not registered and is now. -/
  changed : u.kind ≠ t.kind → lx.IsUnregistered s t ∧ ∃ k, FirstAsks ws t.value k
  /-- Such a word was a name; now it has the kind that was asked for first. -/
  asked : ∀ k, lx.IsUnregistered s t → FirstAsks ws t.value k → t.kind = .name ∧ u.kind = k

theorem keywordKind?_eq_none_iff :
    lx.keywordKind? v = none ↔ ∀ x ∈ lx.keywords, x.1 ≠ Text.upper v := by
  unfold keywordKind?
  rw [List.lookup_eq_none_iff]
  refine forall₂_congr fun x _ => ?_
  rw [bne_iff_ne]
  exact ne_comm

/-- Two rules that decide on one piece agree on its kind. -/
theorem Decides.kind_unique {rule rule' : Rule} (h : lx.Decides rule c d)
    (h' : lx.Decides rule' c e) : rule.kind = rule'.kind := by
  obtain ⟨earlier, later, hsplit, hearlier, hend⟩ := h
  obtain ⟨earlier', later', hsplit', hearlier', hend'⟩ := h'
  have hmatch := firstMatch?_eq_some_iff.2 ⟨earlier, rule, later, hsplit, hearlier, hend, rfl⟩
  have hmatch' := firstMatch?_eq_some_iff.2 ⟨earlier', rule', later', hsplit', hearlier', hend', rfl⟩
  rw [hmatch] at hmatch'
  exact (Prod.mk.inj (Option.some.inj hmatch')).1

theorem Recut.relabels (h : Recut lx (lx.addKeywords ws) s t u) : Relabels lx ws s t u := by
  obtain ⟨rule, hdecides, ht, hu⟩ := h.named
  refine ⟨h.offset, h.value, ?_, ?_⟩
  · intro hne
    rw [ht, hu] at hne
    unfold resolve at hne
    split at hne
    · next hword =>
      rw [keywordKind?_addKeywords] at hne
      cases hkind : lx.keywordKind? t.value with
      | some k =>
        rw [hkind, Option.some_or] at hne
        exact absurd rfl hne
      | none =>
        rw [hkind, Option.none_or] at hne
        refine ⟨⟨⟨rule, hdecides, hword⟩, keywordKind?_eq_none_iff.1 hkind⟩, ?_⟩
        obtain ⟨k, hk⟩ : ∃ k, (keyed ws).lookup (Text.upper t.value) = some k := by
          apply Option.ne_none_iff_exists'.1
          intro hnone
          rw [hnone] at hne
          exact hne rfl
        exact ⟨k, lookup_keyed_eq_some_iff.1 hk⟩
    · exact absurd rfl hne
  · rintro k ⟨⟨rule', hdecides', hword⟩, hunknown⟩ hfirst
    have hkind := keywordKind?_eq_none_iff.2 hunknown
    have hrule : rule.kind = .useAsKeyword := (hdecides.kind_unique hdecides').trans hword
    rw [ht, hu, hrule]
    unfold resolve
    rw [if_pos rfl, if_pos rfl, keywordKind?_addKeywords, hkind, Option.none_or,
      lookup_keyed_eq_some_iff.2 hfirst]
    exact ⟨rfl, rfl⟩

/-- Neighbours of different upper cases may change places in the table of registrations. -/
theorem lookup_keyed_swap {w w' : Text × Kind} (h : Text.upper w.1 ≠ Text.upper w'.1)
    (earlier later : List (Text × Kind)) (v : Text) :
    (keyed (earlier ++ w' :: w :: later)).lookup v = (keyed (earlier ++ w :: w' :: later)).lookup v := by
  unfold keyed
  simp only [List.map_append, List.map_cons, List.lookup_append, List.lookup_cons]
  by_cases hw : v = Text.upper w.1
  · have hw' : v ≠ Text.upper w'.1 := fun hv => h (hw.symm.trans hv)
    rw [beq_iff_eq.2 hw, beq_false_of_ne hw']
  · rw [beq_false_of_ne hw]

/-- Registrations leave the number, the places and the texts of all tokens as they are, and change
kinds of words that were not registered only: from a name to what the first registration of the
word asks for. Neighbouring registrations of different upper cases commute. -/
theorem tokenize_addKeywords (h : lx.Resolved) (hws : ∀ w ∈ ws, w.2 ≠ .useAsKeyword) (s : Text) :
    (∃ ts us, lx.tokenize s false = .ok ts ∧ (lx.addKeywords ws).tokenize s false = .ok us ∧
      ts.Forall₂ (Relabels lx ws s) us) ∧
    ∀ earlier w w' later, ws = earlier ++ w :: w' :: later → Text.upper w.1 ≠ Text.upper w'.1 →
      ∀ strict, (lx.addKeywords (earlier ++ w' :: w :: later)).tokenize s strict =
        (lx.addKeywords ws).tokenize s strict := by
  constructor
  · have h' := h.addKeywords hws
    have hpieces := scan_recut (rules_addKeywords lx ws) h h' s
    exact ⟨_, _, tokenize_eq_ok h s, tokenize_eq_ok h' s, hpieces.imp fun _ _ => Recut.relabels⟩
  · rintro earlier w w' later rfl hne strict
    apply tokenize_congr
    · rw [rules_addKeywords, rules_addKeywords]
    · intro v
      rw [keywordKind?_addKeywords, keywordKind?_addKeywords, lookup_keyed_swap hne]

/-- A word with a long s has the upper case of the word without it, so the second registration is in
vain; so is that of a word that the tables hold already. -/
def longSWords : List (Text × Kind) :=
  [("ſo".toList, .comment), ("SO".toList, .string), ("gO".toList, .string)]

theorem tokenize_addKeywords_longS :
    signTables.Resolved ∧ (∀ w ∈ longSWords, w.2 ≠ .useAsKeyword) ∧
      (∃ ts us, signTables.tokenize "so".toList false = .ok ts ∧
        (signTables.addKeywords longSWords).tokenize "so".toList false = .ok us ∧
        ts.Forall₂ (Relabels signTables longSWords "so".toList) us) ∧
      ∀ earlier w w' later, longSWords = earlier ++ w :: w' :: later →
        Text.upper w.1 ≠ Text.upper w'.1 → ∀ strict,
          (signTables.addKeywords (earlier ++ w' :: w :: later)).tokenize "so".toList strict =
            (signTables.addKeywords longSWords).tokenize "so".toList strict := by
  have hresolved := registered_signTables.resolved
  have hkinds : ∀ w ∈ longSWords, w.2 ≠ .useAsKeyword := by decide
  exact ⟨hresolved, hkinds, tokenize_addKeywords hresolved hkinds "so".toList⟩

end SqlLayout.Lexer
