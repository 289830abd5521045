import Mathlib.Data.List.Forall2
import SqlLayout.Proofs.Json.Written
import SqlLayout.Proofs.Layout.Alike
import SqlLayout.Proofs.Layout.Plain

/-!
# Tokens exchanged as documents

A document of tokens gives back its tokens, but for the places where they stood. Where a token stood
does not count for a layout either: a run over tokens without places goes through the same pages, so
the restored tokens are laid out as the tokens that were written.
-/

namespace SqlLayout

/-- A label names its kind. -/
theorem Kind.ofLabel?_label (k : Kind) : Kind.ofLabel? k.label = some k := by
  cases k <;> decide

/-- A token that stands nowhere but at the start. -/
def Token.unplaced (t : Token) : Token := { t with offset := 0 }

/-! ## Layouts without places -/

namespace Layout

variable {o : Options}

theorem opensSubquery_unplaced (following : List Token) :
    opensSubquery (following.map Token.unplaced) = opensSubquery following := by
  induction following with
  | nil => rfl
  | cons t following ih =>
    rw [List.map_cons, opensSubquery, opensSubquery, ih]
    rfl

theorem headsSubquery_unplaced (following : List Token) :
    headsSubquery (following.map Token.unplaced) = headsSubquery following :=
  headsSubquery_map fun t _ => .inr ⟨t.unplaced, rfl, rfl, fun _ => rfl, fun _ => rfl⟩

/-- A state whose last token stands nowhere. -/
def State.unplaced (s : State) : State := { s with last := s.last.map Token.unplaced }

theorem beginsLine_unplaced (o : Options) (s : State) (t : Token) (following : List Token) :
    beginsLine o s.unplaced t.unplaced (following.map Token.unplaced) =
      beginsLine o s t following := by
  have hlast : (s.last.map Token.unplaced).any (·.isMark ')') = s.last.any (·.isMark ')') := by
    cases s.last <;> rfl
  unfold beginsLine
  rw [headsSubquery_unplaced, State.unplaced, hlast]
  rfl

theorem place_unplaced (o : Options) (s : State) (t : Token) (following : List Token) :
    place o s.unplaced t.unplaced (following.map Token.unplaced) =
      (place o s t following).unplaced := by
  unfold place
  rw [beginsLine_unplaced, opensSubquery_unplaced]
  rfl

theorem step_unplaced (o : Options) (s : State) (t : Token) (following : List Token) :
    step o s.unplaced t.unplaced (following.map Token.unplaced) =
      (step o s t following).unplaced := by
  have hkind : t.unplaced.kind = t.kind := rfl
  unfold step
  rw [place_unplaced, hkind]
  split
  · rfl
  · split
    · rfl
    · split <;> rfl

theorem run_unplaced (o : Options) (s : State) (ts : List Token) :
    run o s.unplaced (ts.map Token.unplaced) = (run o s ts).unplaced := by
  induction ts generalizing s with
  | nil => rfl
  | cons t ts ih => rw [List.map_cons, run, run, step_unplaced, ih]

/-- Where tokens stand does not count for their layout. -/
theorem format_unplaced (o : Options) (ts : List Token) :
    format o (ts.map Token.unplaced) = format o ts := by
  have hrun : run o {} (ts.map Token.unplaced) = (run o {} ts).unplaced := run_unplaced o {} ts
  rw [format, hrun]
  rfl

end Layout

/-! ## Records -/

namespace Token

theorem readBack_toRecord (style : Json.Style) (depth : Nat) (t : Token) :
    Json.ReadBack style depth t.toRecord := by
  refine Json.readBack_object rfl fun m hm => ?_
  simp only [List.mem_cons, List.not_mem_nil, or_false] at hm
  rcases hm with rfl | rfl
  · exact Json.readBack_string style _ _
  · exact Json.readBack_string style _ _

theorem read_toDocument (style : Json.Style) (ts : List Token) :
    Json.read (toDocument style ts) = .ok (.array (ts.map toRecord)) := by
  refine Json.read_write (Json.readBack_array fun v hv => ?_)
  obtain ⟨t, -, rfl⟩ := List.mem_map.1 hv
  exact readBack_toRecord style _ t

/-- The members of a token's record. -/
def members (t : Token) : List (Text × Json) :=
  [("type".toList, .string t.kind.label), ("value".toList, .string t.value)]

theorem ofRecord_members {t : Token} (h : t.kind ≠ .useAsKeyword) :
    ofRecord t.members = .ok t.unplaced := by
  have hlabel : field "type" t.members = .ok (.string t.kind.label) := rfl
  have hvalue : field "value" t.members = .ok (.string t.value) := rfl
  have hmake : make t.kind t.value 0 = .ok t.unplaced := if_neg h
  rw [ofRecord, hlabel, hvalue]
  simp only [Except.bind, bind, Kind.ofLabel?_label, hmake]

/-! ## Documents -/

section

variable {α β ε : Type} {f : α → Except ε β} {xs : List α} {ys : List β}

theorem mapM_of_forall₂ (h : List.Forall₂ (fun x y => f x = .ok y) xs ys) :
    xs.mapM f = .ok ys := by
  induction h with
  | nil => rfl
  | cons hx _ ih =>
    rw [List.mapM_cons, hx, ih]
    rfl

theorem mapM_eq_ok {g : α → β} (h : ∀ x ∈ xs, f x = .ok (g x)) :
    xs.mapM f = .ok (xs.map g) := by
  apply mapM_of_forall₂
  rw [List.forall₂_map_right_iff, List.forall₂_same]
  exact h

end

theorem ofDocument_toDocument (style : Json.Style) {ts : List Token}
    (h : ∀ t ∈ ts, t.kind ≠ .useAsKeyword) :
    ofDocument (toDocument style ts) = .ok (ts.map unplaced) := by
  have hmembers : (ts.map toRecord).mapM recordMembers = .ok (ts.map members) := by
    rw [List.mapM_map]
    exact mapM_eq_ok fun t _ => rfl
  have hrecords : (ts.map members).mapM ofRecord = .ok (ts.map unplaced) := by
    rw [List.mapM_map]
    exact mapM_eq_ok fun t ht => ofRecord_members (h t ht)
  rw [ofDocument, read_toDocument]
  simp only [hmembers, hrecords, Except.bind, bind]

/-- A document of tokens gives back the tokens it was written from, all of them or those that are no
comments, in every layout of the document. The restored tokens are laid out like the first ones. -/
theorem ofDocument_restores (indent : Option Int) (ts : List Token)
    (h : ∀ t ∈ ts, t.kind ≠ .useAsKeyword) :
    ofDocument (toDocument (.ofIndent indent) ts) = .ok (ts.map unplaced) ∧
      ofDocument (toDocument (.ofIndent indent) (withoutComments true ts)) =
        .ok ((ts.filter (·.kind != .comment)).map unplaced) ∧
      ∀ o, Layout.format o (ts.map unplaced) = Layout.format o ts := by
  have hkept : withoutComments true ts = ts.filter (·.kind != .comment) := by
    simp [withoutComments, bne]
  refine ⟨ofDocument_toDocument _ h, ?_, fun o => Layout.format_unplaced o ts⟩
  rw [hkept]
  exact ofDocument_toDocument _ fun t ht => h t (List.mem_filter.1 ht).1

/-- A string with a quote, a backslash and control characters, a comment, and an empty name. -/
def oddTokens : List Token :=
  [⟨.string, "'\"\\\x01\n'".toList, 4⟩, ⟨.comment, "--é".toList, 9⟩, ⟨.name, [], 12⟩]

theorem ofDocument_restores_oddTokens :
    (∀ t ∈ oddTokens, t.kind ≠ .useAsKeyword) ∧
      ofDocument (toDocument (.ofIndent (some (-1))) oddTokens) = .ok (oddTokens.map unplaced) ∧
      ofDocument (toDocument (.ofIndent (some (-1))) (withoutComments true oddTokens)) =
        .ok [⟨.string, "'\"\\\x01\n'".toList, 0⟩, ⟨.name, [], 0⟩] ∧
      ∀ o, Layout.format o (oddTokens.map unplaced) = Layout.format o oddTokens := by
  have hkinds : ∀ t ∈ oddTokens, t.kind ≠ .useAsKeyword := by decide
  exact ⟨hkinds, ofDocument_restores (some (-1)) oddTokens hkinds⟩

end Token

end SqlLayout
