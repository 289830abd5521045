import SqlLayout.Proofs.Layout.Declared

/-!
# Token lists that are laid out alike

Tokens may be left out of a list or replaced without a change to its layout: those that are left out
must be neither punctuation nor keywords, and those that are replaced must keep their kind and read
as the same marks and words (`ReadsAlike`). Then the same parentheses are open around a token, the
same ones hold a subquery, and the counts and the last token that is written correspond.
-/

namespace SqlLayout.Layout

variable {f : Token → Option Token} {o o' : Options} {t u : Token}
  {w before after following : List Token}

/-- The token is left out unseen, or replaced by one that reads the same. -/
def ReadsAlike (f : Token → Option Token) (t : Token) : Prop :=
  f t = none ∧ t.kind ≠ .punctuation ∧ t.kind.isKeyword = false ∨
    ∃ u, f t = some u ∧ u.kind = t.kind ∧ (∀ c, u.isMark c = t.isMark c) ∧
      ∀ v, u.isWord v = t.isWord v

/-- A token that stays is read the same. -/
theorem ReadsAlike.reads (h : ReadsAlike f t) (hu : f t = some u) :
    u.kind = t.kind ∧ (∀ c, u.isMark c = t.isMark c) ∧ ∀ v, u.isWord v = t.isWord v := by
  rcases h with ⟨hnone, -⟩ | ⟨u', hu', hreads⟩
  · rw [hnone] at hu
    exact nomatch hu
  · obtain rfl : u' = u := Option.some.inj (hu'.symm.trans hu)
    exact hreads

/-! ## Parentheses -/

theorem excess_filterMap (h : ∀ t ∈ w, ReadsAlike f t) : excess (w.filterMap f) = excess w := by
  induction w with
  | nil => rfl
  | cons t w ih =>
    have ih := ih fun u hu => h u (List.mem_cons_of_mem t hu)
    rcases h t List.mem_cons_self with ⟨hnone, hmark, -⟩ | ⟨u, hsome, -, hmarks, -⟩
    · rw [List.filterMap_cons_none hnone, excess, ih, isMark_of_kind hmark, isMark_of_kind hmark]
      rfl
    · rw [List.filterMap_cons_some hsome, excess, excess, ih, hmarks, hmarks]

theorem staysOpen_filterMap (h : ∀ t ∈ w, ReadsAlike f t) :
    StaysOpen (w.filterMap f) ↔ StaysOpen w := by
  rw [← excess_eq_zero_iff, excess_filterMap h, excess_eq_zero_iff]

theorem opensSubquery_filterMap (h : ∀ t ∈ following, ReadsAlike f t) :
    opensSubquery (following.filterMap f) = opensSubquery following := by
  induction following with
  | nil => rfl
  | cons t following ih =>
    have ih := ih fun u hu => h u (List.mem_cons_of_mem t hu)
    rcases h t List.mem_cons_self with ⟨hnone, hmark, hkey⟩ | ⟨u, hsome, hkind, -, hwords⟩
    · rw [List.filterMap_cons_none hnone, opensSubquery, ih, hkey, beq_eq_false_iff_ne.2 hmark]
      rfl
    · rw [List.filterMap_cons_some hsome, opensSubquery, opensSubquery, ih, hkind, hwords]

theorem holdsSelect_filterMap (h : ∀ t ∈ following, ReadsAlike f t) :
    holdsSelect (following.filterMap f) = holdsSelect following := by
  rw [← opensSubquery_eq, opensSubquery_filterMap h, opensSubquery_eq]

theorem unclosed_filterMap (h : ∀ t ∈ w ++ following, ReadsAlike f t) :
    unclosed (w.filterMap f) (following.filterMap f) = unclosed w following := by
  induction w with
  | nil => rfl
  | cons t w ih =>
    have hmore : ∀ u ∈ w ++ following, ReadsAlike f u :=
      fun u hu => h u (List.mem_cons_of_mem t hu)
    have hstays := staysOpen_filterMap fun u hu => hmore u (List.mem_append_left following hu)
    rw [unclosed, ← holdsSelect_filterMap hmore, List.filterMap_append]
    rcases h t List.mem_cons_self with ⟨hnone, hmark, -⟩ | ⟨u, hsome, -, hmarks, -⟩
    · rw [List.filterMap_cons_none hnone, ih hmore, isMark_of_kind hmark]
      simp
    · rw [List.filterMap_cons_some hsome, unclosed, ih hmore, hmarks]
      simp only [hstays]

/-- Tokens that all stay head the same subqueries. -/
theorem headsSubquery_map {g : Token → Token}
    (h : ∀ t ∈ following, ReadsAlike (fun t => some (g t)) t) :
    headsSubquery (following.map g) = headsSubquery following := by
  have hfilter : (following.map g).filter (!·.kind.isBlank) =
      (following.filter (!·.kind.isBlank)).map g := by
    rw [List.filter_map]
    refine congrArg (List.map g) (List.filter_congr fun t ht => ?_)
    rw [Function.comp_apply, ((h t ht).reads rfl).1]
  have hfirst : ∀ t ∈ (following.filter (!·.kind.isBlank)).take 3,
      ReadsAlike (fun t => some (g t)) t :=
    fun t ht => h t (List.mem_of_mem_filter (List.mem_of_mem_take ht))
  rw [headsSubquery, headsSubquery, hfilter, ← List.map_take]
  generalize (following.filter (!·.kind.isBlank)).take 3 = first at hfirst
  rcases first with _ | ⟨as, _ | ⟨paren, _ | ⟨select, _ | ⟨t, more⟩⟩⟩⟩
  · rfl
  · rfl
  · rfl
  · obtain ⟨-, -, has⟩ := (hfirst as (by simp)).reads rfl
    obtain ⟨-, hparen, -⟩ := (hfirst paren (by simp)).reads rfl
    obtain ⟨-, -, hselect⟩ := (hfirst select (by simp)).reads rfl
    simp only [List.map_cons, List.map_nil, has, hparen, hselect]
  · rfl

/-! ## Tokens that are written -/

/-- The change keeps the layout of these tokens under options that may change as well: they read
alike, are written if they were, and the threshold is the same. -/
structure Keeps (f : Token → Option Token) (o o' : Options) (ts : List Token) : Prop where
  reads : ∀ t ∈ ts, ReadsAlike f t
  written : ∀ t ∈ ts, isWritten o t = (f t).any (isWritten o')
  count : o'.fromBreakCount = o.fromBreakCount

theorem Keeps.mono (h : Keeps f o o' w) {v : List Token} (hsub : v ⊆ w) : Keeps f o o' v :=
  ⟨fun t ht => h.reads t (hsub ht), fun t ht => h.written t (hsub ht), h.count⟩

/-- What is written of one more token corresponds. -/
theorem Keeps.concat (h : Keeps f o o' (before ++ [t])) :
    Keeps f o o' before ∧
      (f t = none ∧ isWritten o t = false ∨
        ∃ u, f t = some u ∧ isWritten o' u = isWritten o t ∧ ∀ v, u.isWord v = t.isWord v) := by
  refine ⟨h.mono (List.subset_append_left before [t]), ?_⟩
  have ht : t ∈ before ++ [t] := by simp
  have hwritten := h.written t ht
  cases hf : f t with
  | none => exact .inl ⟨rfl, by simpa [hf] using hwritten⟩
  | some u =>
    rw [hf, Option.any_some] at hwritten
    exact .inr ⟨u, rfl, hwritten.symm, ((h.reads t ht).reads hf).2.2⟩

theorem mem_of_lastWritten? {p : Token} (h : lastWritten? o before = some p) :
    p ∈ before ∧ isWritten o p = true :=
  List.mem_filter.1 (List.mem_of_getLast? h)

theorem lastWritten?_filterMap (h : Keeps f o o' before) :
    lastWritten? o' (before.filterMap f) = (lastWritten? o before).bind f := by
  induction before using List.reverseRecOn with
  | nil => rfl
  | append_singleton before t ih =>
    obtain ⟨hbefore, ⟨hf, hwritten⟩ | ⟨u, hf, hwritten, -⟩⟩ := h.concat
    · rw [lastWritten?_concat, hwritten, List.filterMap_append, List.filterMap_cons_none hf]
      simpa using ih hbefore
    · rw [lastWritten?_concat, List.filterMap_append, List.filterMap_cons_some hf,
        List.filterMap_nil, lastWritten?_concat, hwritten, ih hbefore]
      split
      · rw [Option.bind_some, hf]
      · rfl

/-- The last token that is written stays. -/
theorem exists_lastWritten?_filterMap {p : Token} (h : Keeps f o o' before)
    (hp : lastWritten? o before = some p) :
    ∃ q, f p = some q ∧ lastWritten? o' (before.filterMap f) = some q := by
  obtain ⟨hmem, hwritten⟩ := mem_of_lastWritten? hp
  rw [h.written p hmem, Option.any_eq_true] at hwritten
  obtain ⟨q, hq, -⟩ := hwritten
  refine ⟨q, hq, ?_⟩
  rw [lastWritten?_filterMap h, hp, Option.bind_some, hq]

theorem lastWritten?_filterMap_eq_none (h : Keeps f o o' before)
    (hp : lastWritten? o before = none) : lastWritten? o' (before.filterMap f) = none := by
  rw [lastWritten?_filterMap h, hp, Option.bind_none]

theorem countSince_filterMap (h : Keeps f o o' before) :
    countSince o' (before.filterMap f) = countSince o before := by
  induction before using List.reverseRecOn with
  | nil => rfl
  | append_singleton before t ih =>
    obtain ⟨hbefore, ⟨hf, hwritten⟩ | ⟨u, hf, hwritten, hwords⟩⟩ := h.concat
    · rw [countSince_concat, hwritten, List.filterMap_append, List.filterMap_cons_none hf]
      simpa using ih hbefore
    · rw [countSince_concat, List.filterMap_append, List.filterMap_cons_some hf,
        List.filterMap_nil, countSince_concat, hwritten, hwords, ih hbefore]

/-- Blanks that stay are owed as before. -/
theorem blankSince_filterMap (h : Keeps f o o' before)
    (hblank : ∀ t ∈ before, (f t).any (·.kind.isBlank) = t.kind.isBlank) :
    blankSince o' (before.filterMap f) = blankSince o before := by
  induction before using List.reverseRecOn with
  | nil => rfl
  | append_singleton before t ih =>
    have hmore := ih h.concat.1 fun u hu => hblank u (List.mem_append_left [t] hu)
    have ht := hblank t (by simp)
    obtain ⟨-, ⟨hf, hwritten⟩ | ⟨u, hf, hwritten, -⟩⟩ := h.concat
    · rw [hf, Option.any_none] at ht
      rw [blankSince_concat, hwritten, ← ht, List.filterMap_append, List.filterMap_cons_none hf]
      simpa using hmore
    · rw [hf, Option.any_some] at ht
      rw [blankSince_concat, List.filterMap_append, List.filterMap_cons_some hf,
        List.filterMap_nil, blankSince_concat, hwritten, ht, hmore]

/-! ## Sites -/

namespace Site

variable {s : Site}

/-- The tokens of a site in their order. -/
def tokens (s : Site) : List Token := s.before ++ s.token :: s.after

/-- The site in the changed list, where its token is `u`. -/
def changed (f : Token → Option Token) (s : Site) (u : Token) : Site :=
  ⟨s.before.filterMap f, u, s.after.filterMap f⟩

@[simp] theorem changed_before : (s.changed f u).before = s.before.filterMap f := rfl

@[simp] theorem changed_token : (s.changed f u).token = u := rfl

@[simp] theorem changed_after : (s.changed f u).after = s.after.filterMap f := rfl

theorem keeps_before (h : Keeps f o o' s.tokens) : Keeps f o o' s.before :=
  h.mono (List.subset_append_left s.before (s.token :: s.after))

theorem reads_token (h : Keeps f o o' s.tokens) (hu : f s.token = some u) :
    u.kind = s.token.kind ∧ (∀ c, u.isMark c = s.token.isMark c) ∧
      ∀ v, u.isWord v = s.token.isWord v :=
  (h.reads s.token (by simp [tokens])).reads hu

theorem within_changed (h : Keeps f o o' s.tokens) (hu : f s.token = some u) :
    (s.changed f u).within = s.within := by
  rw [within, within, ← unclosed_filterMap h.reads, List.filterMap_cons_some hu]
  rfl

theorem indentation_changed (h : Keeps f o o' s.tokens) (hu : f s.token = some u) :
    (s.changed f u).indentation = s.indentation := by
  rw [indentation, indentation, around, around, within_changed h hu, changed_token,
    (reads_token h hu).2.1]

/-- The token begins a line as before, if it heads a subquery as before. -/
theorem breaks_changed (h : Keeps f o o' s.tokens) (hu : f s.token = some u)
    (hheads : s.token.kind = .name →
      headsSubquery (s.after.filterMap f) = headsSubquery s.after) :
    (s.changed f u).breaks o' = s.breaks o := by
  obtain ⟨hkind, hmarks, hwords⟩ := reads_token h hu
  have hlast : (lastWritten? o' (s.before.filterMap f)).any (·.isMark ')') =
      (lastWritten? o s.before).any (·.isMark ')') := by
    cases hp : lastWritten? o s.before with
    | none => rw [lastWritten?_filterMap_eq_none (keeps_before h) hp]
    | some p =>
      obtain ⟨q, hq, hlast⟩ := exists_lastWritten?_filterMap (keeps_before h) hp
      have hmem : p ∈ s.tokens := List.mem_append_left _ (mem_of_lastWritten? hp).1
      rw [hlast, Option.any_some, Option.any_some, ((h.reads p hmem).reads hq).2.1]
  have hname : (s.token.kind == .name && headsSubquery (s.after.filterMap f)) =
      (s.token.kind == .name && headsSubquery s.after) := by
    by_cases hk : s.token.kind = .name
    · rw [hheads hk]
    · rw [beq_eq_false_iff_ne.2 hk, Bool.false_and, Bool.false_and]
  have hwords' : u.isWord = s.token.isWord := funext hwords
  rw [breaks, breaks, within_changed h hu, changed_token, changed_before, changed_after, hkind,
    hname, hlast, countSince_filterMap (keeps_before h), hmarks, hwords', h.count]

/-- The token stands behind the same separator, if it begins a line as before, the last token ends
one as before and a space is owed as before. -/
theorem separator_changed (h : Keeps f o o' s.tokens) (hu : f s.token = some u)
    (hbreaks : (s.changed f u).breaks o' = s.breaks o)
    (hends : ∀ p ∈ s.before, ∀ q, f p = some q →
      Page.endsLine (shown o' q) = Page.endsLine (shown o p))
    (hblank : blankSince o' (s.before.filterMap f) = blankSince o s.before) :
    (s.changed f u).separator o' = s.separator o := by
  rw [separator, separator, changed_before]
  cases hp : lastWritten? o s.before with
  | none => rw [lastWritten?_filterMap_eq_none (keeps_before h) hp]
  | some p =>
    obtain ⟨q, hq, hlast⟩ := exists_lastWritten?_filterMap (keeps_before h) hp
    rw [hlast]
    dsimp only
    rw [hends p (mem_of_lastWritten? hp).1 q hq, indentation_changed h hu, hbreaks, hblank]

end Site

end SqlLayout.Layout
