import SqlLayout.Proofs.Layout.Essence

/-!
# Tokens of a layout

The tokens that a reindented text is cut into are those of the query with settled texts, and blank
tokens where the layout writes a separator. `Relaid` says so of two token lists. Reindenting such
tokens again finds the same essence around every site, so it writes the same separators
(`Relaid.describedFrom_eq`).
-/

namespace SqlLayout.Layout

variable {k : Nat} {t u : Token} {gs us before before' ts : List Token}

/-- The second tokens stand for the reindented first ones, which follow others: blank tokens stand
where a separator is written, and then the token with its settled text. -/
inductive Relaid (k : Nat) : List Token → List Token → List Token → Prop
  | done (before : List Token) : Relaid k before [] []
  | skip {before ts us : List Token} {t : Token} (hblank : t.kind.isBlank = true)
      (more : Relaid k (before ++ [t]) ts us) : Relaid k before (t :: ts) us
  | write {before ts gs us : List Token} {t u : Token} (hblank : t.kind.isBlank = false)
      (hgs : ∀ g ∈ gs, g.kind.isBlank = true)
      (hgap : gs ≠ [] ↔ (Site.mk before t ts).separator (reindenting k) ≠ [])
      (hkind : u.kind = t.kind) (hvalue : u.value = t.settled)
      (more : Relaid k (before ++ [t]) ts us) : Relaid k before (t :: ts) (gs ++ u :: us)

/-- But for blanks the tokens are the same, with settled texts. -/
theorem Relaid.map_settled (h : Relaid k before ts us) :
    (us.filter (!·.kind.isBlank)).map (fun u => (u.kind, u.value)) =
      (ts.filter (!·.kind.isBlank)).map fun t => (t.kind, t.settled) := by
  induction h with
  | done => rfl
  | skip hblank _ ih =>
    rw [List.filter_cons_of_neg (by simp [hblank])]
    exact ih
  | @write before ts gs us t u hblank hgs _ hkind hvalue _ ih =>
    have hgap : gs.filter (!·.kind.isBlank) = [] :=
      List.filter_eq_nil_iff.2 fun g hg => by simp [hgs g hg]
    rw [List.filter_append, hgap, List.nil_append, List.filter_cons_of_pos (by simp [hkind, hblank]),
      List.filter_cons_of_pos (by simp [hblank]), List.map_cons, List.map_cons, ih, hkind, hvalue]

theorem Relaid.essence_eq (h : Relaid k before ts us) : essence us = essence ts := by
  induction h with
  | done => rfl
  | skip hblank _ ih =>
    rw [essence_cons, if_pos hblank]
    exact ih
  | @write before ts gs us t u hblank hgs _ hkind hvalue _ ih =>
    rw [essence_append, essence_eq_nil hgs, List.nil_append, essence_cons, essence_cons, hkind,
      hblank, ih, bare_eq_of_settled hkind hvalue]

/-! ## Blanks -/

theorem describedFrom_gap (h : ∀ g ∈ gs, g.kind.isBlank = true) :
    describedFrom (reindenting k) before (gs ++ ts) =
      describedFrom (reindenting k) (before ++ gs) ts := by
  induction gs generalizing before with
  | nil => simp
  | cons g gs ih =>
    rw [List.cons_append, describedFrom_blank (h g List.mem_cons_self),
      ih fun u hu => h u (List.mem_cons_of_mem g hu), List.append_assoc]
    rfl

theorem blankSince_gap (h : ∀ g ∈ gs, g.kind.isBlank = true)
    (hbefore : blankSince (reindenting k) before = false) :
    blankSince (reindenting k) (before ++ gs) = true ↔ gs ≠ [] := by
  induction gs using List.reverseRecOn with
  | nil => simp [hbefore]
  | append_singleton gs g ih =>
    rw [← List.append_assoc, blankSince_blank (h g (by simp))]
    simp

/-! ## The layout of a layout -/

/-- Laid out again, the tokens give the same text. -/
theorem Relaid.describedFrom_eq (h : Relaid k before ts us) (hbefore : essence before' = essence before)
    (hsince : blankSince (reindenting k) before' = false) :
    describedFrom (reindenting k) before' us = describedFrom (reindenting k) before ts := by
  induction h generalizing before' with
  | done => rfl
  | @skip before ts us t hblank _ ih =>
    have hessence : essence before' = essence (before ++ [t]) := by
      rw [essence_concat, if_pos hblank, List.append_nil, hbefore]
    rw [describedFrom_blank hblank]
    exact ih hessence hsince
  | @write before ts gs us t u hblank hgs hgap hkind hvalue more ih =>
    have hblank' : u.kind.isBlank = false := by rw [hkind, hblank]
    have hbare := bare_eq_of_settled hkind hvalue
    have hessence : essence (before' ++ gs) = essence before := by
      rw [essence_append, essence_eq_nil hgs, List.append_nil, hbefore]
    have hsite : (Site.mk (before' ++ gs) u us).bare = (Site.mk before t ts).bare := by
      show Site.mk (essence (before' ++ gs)) (bare u) (essence us) = _
      rw [hessence, hbare, more.essence_eq]
      rfl
    have hseparator := Site.separator_eq hsite hblank ((blankSince_gap hgs hsince).trans hgap)
    have hsettled : u.settled = t.settled := congrArg Token.value hbare
    have hrest : describedFrom (reindenting k) (before' ++ gs ++ [u]) us =
        describedFrom (reindenting k) (before ++ [t]) ts := by
      refine ih ?_ (blankSince_written hblank' _)
      rw [essence_concat, essence_concat, hkind, hblank, hessence, hbare]
    rw [describedFrom_gap hgs, describedFrom_written hblank', describedFrom_written hblank,
      hseparator, hsettled, hrest]

end SqlLayout.Layout
