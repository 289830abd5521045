import SqlLayout.Proofs.Json.Grammar
import SqlLayout.Proofs.Token.RoundTrip

/-!
# What is decoded, and what is refused

A document of tokens is an array of objects whose members `type` and `value`, where they are written
last, are the label of a kind in some letter case and a text. Every other document is refused, for
the first reason of a fixed order (`Refused`): it is not JSON, it is no array, an item is no object,
a record is bad. All items are looked at before the first record is read, so an item that is no
object counts more than a bad record before it.

Each way out is followed through the decoder by itself, and one of them is open to every document.
-/

namespace SqlLayout

open Json

/-! ## Labels -/

theorem Kind.label_inj {k k' : Kind} (h : k.label = k'.label) : k = k' := by
  have hfound := congrArg Kind.ofLabel? h
  rwa [Kind.ofLabel?_label, Kind.ofLabel?_label, Option.some.injEq] at hfound

theorem Kind.ofLabel?_eq_some_iff {t : Text} {k : Kind} :
    Kind.ofLabel? t = some k ↔ k.label = Text.lower t := by
  unfold Kind.ofLabel?
  constructor
  · intro h
    simpa using List.find?_some h
  · intro h
    cases hfound : Kind.values.find? fun k => k.label == Text.lower t with
    | none =>
      have hnone := List.find?_eq_none.1 hfound k (Kind.mem_values k)
      simp [h] at hnone
    | some k' =>
      have hk' : k'.label = Text.lower t := by simpa using List.find?_some hfound
      rw [Kind.label_inj (hk'.trans h.symm)]

theorem Kind.ofLabel?_eq_none_iff {t : Text} :
    Kind.ofLabel? t = none ↔ ∀ k : Kind, k.label ≠ Text.lower t := by
  rw [Option.eq_none_iff_forall_ne_some]
  exact forall_congr' fun k => not_congr Kind.ofLabel?_eq_some_iff

/-- The error is one of decoding, and not the one of a number that is too long. -/
def RecordError.isDecoding : RecordError → Bool
  | .tooManyDigits _ => false
  | _ => true

namespace Token

variable {pairs : List (Text × Json)} {records : List (List (Text × Json))} {t : Token}
  {ts : List Token} {e : RecordError} {document : Text} {item w : Json} {items after : List Json}

/-! ## Records -/

/-- The record is written with the label of the token's kind and with its text. -/
structure IsRecord (pairs : List (Text × Json)) (t : Token) : Prop where
  label : ∃ label, lastMember? "type".toList pairs = some (.string label) ∧
    t.kind.label = Text.lower label
  value : lastMember? "value".toList pairs = some (.string t.value)
  resolved : t.kind ≠ .useAsKeyword
  unplaced : t.offset = 0

/-- The first thing that is wrong with a record. -/
inductive IsBad (pairs : List (Text × Json)) : RecordError → Prop
  | noType (htype : lastMember? "type".toList pairs = none) :
      IsBad pairs (.missing "type".toList (mergeMembers pairs))
  | noValue {v : Json} (htype : lastMember? "type".toList pairs = some v)
      (hvalue : lastMember? "value".toList pairs = none) :
      IsBad pairs (.missing "value".toList (mergeMembers pairs))
  | notText {v w : Json} (htype : lastMember? "type".toList pairs = some v)
      (hvalue : lastMember? "value".toList pairs = some w)
      (htext : (∀ label, v ≠ .string label) ∨ ∀ value, w ≠ .string value) :
      IsBad pairs (.notText (mergeMembers pairs))
  | unknownLabel {label value : Text}
      (htype : lastMember? "type".toList pairs = some (.string label))
      (hvalue : lastMember? "value".toList pairs = some (.string value))
      (hlabel : ∀ k : Kind, k.label ≠ Text.lower label) : IsBad pairs (.unknownLabel label)
  | unresolvedLabel {label value : Text}
      (htype : lastMember? "type".toList pairs = some (.string label))
      (hvalue : lastMember? "value".toList pairs = some (.string value))
      (hlabel : Kind.useAsKeyword.label = Text.lower label) : IsBad pairs (.unresolvedLabel label)

theorem field_mergeMembers (name : String) (pairs : List (Text × Json)) :
    field name (mergeMembers pairs) =
      match lastMember? name.toList pairs with
      | some v => .ok (merge v)
      | none => .error (.missing name.toList (mergeMembers pairs)) := by
  rw [field, member?_mergeMembers]
  cases lastMember? name.toList pairs <;> rfl

theorem IsRecord.ofRecord (h : IsRecord pairs t) : ofRecord (mergeMembers pairs) = .ok t := by
  obtain ⟨⟨label, htype, hlabel⟩, hvalue, hresolved, hoffset⟩ := h
  have hmake : make t.kind t.value 0 = .ok t := by
    rw [make, if_neg hresolved, ← hoffset]
  rw [Token.ofRecord, field_mergeMembers, field_mergeMembers, htype, hvalue]
  simp only [bind, Except.bind, merge, Kind.ofLabel?_eq_some_iff.2 hlabel, hmake]

theorem IsBad.ofRecord (h : IsBad pairs e) : ofRecord (mergeMembers pairs) = .error e := by
  rw [Token.ofRecord, field_mergeMembers, field_mergeMembers]
  cases h with
  | noType htype =>
    rw [htype]
    rfl
  | noValue htype hvalue =>
    rw [htype, hvalue]
    rfl
  | notText htype hvalue htext =>
    rw [htype, hvalue]
    simp only [bind, Except.bind]
    split
    · next label value hlabel htext' =>
      rw [merge_eq_string_iff] at hlabel htext'
      exact (htext.elim (· label hlabel) (· value htext')).elim
    · rfl
  | unknownLabel htype hvalue hlabel =>
    rw [htype, hvalue]
    simp only [bind, Except.bind, merge, Kind.ofLabel?_eq_none_iff.2 hlabel]
  | unresolvedLabel htype hvalue hlabel =>
    rw [htype, hvalue]
    simp only [bind, Except.bind, merge, Kind.ofLabel?_eq_some_iff.2 hlabel]
    rfl

/-- Every record is good or bad. -/
theorem isRecord_or_isBad (pairs : List (Text × Json)) :
    (∃ t, IsRecord pairs t) ∨ ∃ e, IsBad pairs e := by
  cases htype : lastMember? "type".toList pairs with
  | none => exact .inr ⟨_, .noType htype⟩
  | some v =>
    cases hvalue : lastMember? "value".toList pairs with
    | none => exact .inr ⟨_, .noValue htype hvalue⟩
    | some w =>
      by_cases htext : (∃ label, v = .string label) ∧ ∃ value, w = .string value
      · obtain ⟨⟨label, rfl⟩, value, rfl⟩ := htext
        cases hkind : Kind.ofLabel? label with
        | none => exact .inr ⟨_, .unknownLabel htype hvalue (Kind.ofLabel?_eq_none_iff.1 hkind)⟩
        | some k =>
          rw [Kind.ofLabel?_eq_some_iff] at hkind
          by_cases hresolved : k = .useAsKeyword
          · exact .inr ⟨_, .unresolvedLabel htype hvalue (hresolved ▸ hkind)⟩
          · exact .inl ⟨⟨k, value, 0⟩, ⟨label, htype, hkind⟩, hvalue, hresolved, rfl⟩
      · rw [not_and_or, not_exists, not_exists] at htext
        exact .inr ⟨_, .notText htype hvalue htext⟩

/-! ## Lists that are gone through up to the first fault -/

theorem mapM_of_fault {α β ε : Type} {f : α → Except ε β} {x : α} {before : List α} {fault : ε}
    (hbefore : ∀ y ∈ before, ∃ z, f y = .ok z) (hx : f x = .error fault)
    (xs : List α) : (before ++ x :: xs).mapM f = .error fault := by
  induction before with
  | nil =>
    rw [List.nil_append, List.mapM_cons, hx]
    rfl
  | cons y before ih =>
    obtain ⟨⟨z, hz⟩, hbefore⟩ := List.forall_mem_cons.1 hbefore
    rw [List.cons_append, List.mapM_cons, hz, ih hbefore]
    rfl

/-- All items are objects, or there is a first one that is none. -/
theorem records_or_item (items : List Json) :
    (∃ records : List (List (Text × Json)), items = records.map .object) ∨
      ∃ (records : List (List (Text × Json))) (item : Json) (after : List Json),
        items = records.map .object ++ item :: after ∧ ∀ pairs, item ≠ .object pairs := by
  induction items with
  | nil => exact .inl ⟨[], rfl⟩
  | cons item items ih =>
    by_cases hitem : ∃ pairs, item = .object pairs
    · obtain ⟨pairs, rfl⟩ := hitem
      rcases ih with ⟨records, rfl⟩ | ⟨records, item, after, rfl, hother⟩
      · exact .inl ⟨pairs :: records, rfl⟩
      · exact .inr ⟨pairs :: records, item, after, rfl, hother⟩
    · exact .inr ⟨[], item, items, rfl, not_exists.1 hitem⟩

/-- All records are good, or there is a first one that is bad. -/
theorem tokens_or_bad (records : List (List (Text × Json))) :
    (∃ ts, List.Forall₂ IsRecord records ts) ∨
      ∃ before pairs after e, records = before ++ pairs :: after ∧
        (∀ p ∈ before, ∃ t, IsRecord p t) ∧ IsBad pairs e := by
  induction records with
  | nil => exact .inl ⟨[], .nil⟩
  | cons pairs records ih =>
    rcases isRecord_or_isBad pairs with ⟨t, ht⟩ | ⟨e, he⟩
    · rcases ih with ⟨ts, hts⟩ | ⟨before, bad, after, e, rfl, hbefore, he⟩
      · exact .inl ⟨t :: ts, .cons ht hts⟩
      · exact .inr ⟨pairs :: before, bad, after, e, rfl,
          List.forall_mem_cons.2 ⟨⟨t, ht⟩, hbefore⟩, he⟩
    · exact .inr ⟨[], pairs, records, e, rfl, nofun, he⟩

/-! ## Documents -/

/-- Why a document is refused. -/
inductive Refused (document : Text) : RecordError → Prop
  | malformed {stop : Stop} (hnone : ∀ w, ¬IsDocument document w)
      (hread : read document = .error stop) (hfault : ∀ count, stop.fault ≠ .tooManyDigits count) :
      Refused document (.malformed document stop)
  | tooManyDigits {count : Nat} {rest : Text} (hnone : ∀ w, ¬IsDocument document w)
      (hread : read document = .error ⟨.tooManyDigits count, rest⟩) :
      Refused document (.tooManyDigits count)
  | notArray {w : Json} (hdoc : IsDocument document w) (hw : ∀ items, w ≠ .array items) :
      Refused document .notArray
  | notRecord {records : List (List (Text × Json))} {item : Json} {after : List Json}
      (hdoc : IsDocument document (.array (records.map .object ++ item :: after)))
      (hitem : ∀ pairs, item ≠ .object pairs) : Refused document (.notRecord (merge item))
  | bad {before after : List (List (Text × Json))} {pairs : List (Text × Json)} {e : RecordError}
      (hdoc : IsDocument document (.array ((before ++ pairs :: after).map .object)))
      (hbefore : ∀ p ∈ before, ∃ t, IsRecord p t) (hbad : IsBad pairs e) : Refused document e

theorem recordMembers_merge (hitem : ∀ pairs, item ≠ .object pairs) :
    recordMembers (merge item) = .error (.notRecord (merge item)) := by
  cases item with
  | object pairs => exact absurd rfl (hitem pairs)
  | _ => rfl

/-- A document is decoded by its items. -/
theorem ofDocument_of_array (hdoc : IsDocument document (.array items)) :
    ofDocument document = (mergeItems items).mapM recordMembers >>= (·.mapM ofRecord) := by
  have hread := read_eq_ok_iff.2 ⟨_, hdoc, rfl⟩
  rw [ofDocument, hread, merge]

/-- If all of them are objects, it is decoded by its records. -/
theorem ofDocument_of_records (hdoc : IsDocument document (.array (records.map .object))) :
    ofDocument document = (records.map mergeMembers).mapM ofRecord := by
  have hmembers : ((records.map .object).map merge).mapM recordMembers =
      .ok (records.map mergeMembers) := by
    rw [List.map_map, List.mapM_map]
    exact mapM_eq_ok fun pairs _ => rfl
  rw [ofDocument_of_array hdoc, mergeItems_eq_map, hmembers]
  rfl

theorem ofDocument_of_tokens (hdoc : IsDocument document (.array (records.map .object)))
    (hrecords : List.Forall₂ IsRecord records ts) : ofDocument document = .ok ts := by
  rw [ofDocument_of_records hdoc]
  apply mapM_of_forall₂
  rw [List.forall₂_map_left_iff]
  exact hrecords.imp fun _ _ h => h.ofRecord

theorem Refused.ofDocument (h : Refused document e) : ofDocument document = .error e := by
  cases h with
  | malformed _ hread hfault =>
    rw [Token.ofDocument, hread]
    split
    · next heq =>
      obtain rfl := Except.error.inj heq
      exact absurd rfl (hfault _)
    · next heq => rw [Except.error.inj heq]
    · next heq => cases heq
    · next heq => cases heq
  | tooManyDigits _ hread => rw [Token.ofDocument, hread]
  | @notArray w hdoc hw =>
    rw [Token.ofDocument, read_eq_ok_iff.2 ⟨w, hdoc, rfl⟩]
    cases w with
    | array items => exact absurd rfl (hw items)
    | _ => rfl
  | notRecord hdoc hitem =>
    rw [ofDocument_of_array hdoc, mergeItems_eq_map, List.map_append, List.map_cons,
      mapM_of_fault _ (recordMembers_merge hitem)]
    · rfl
    · rw [List.map_map]
      intro y hy
      obtain ⟨pairs, -, rfl⟩ := List.mem_map.1 hy
      exact ⟨mergeMembers pairs, rfl⟩
  | bad hdoc hbefore hbad =>
    rw [ofDocument_of_records hdoc, List.map_append, List.map_cons,
      mapM_of_fault _ hbad.ofRecord]
    intro y hy
    obtain ⟨p, hp, rfl⟩ := List.mem_map.1 hy
    obtain ⟨t, ht⟩ := hbefore p hp
    exact ⟨t, ht.ofRecord⟩

/-- A document that cannot be read is refused. -/
theorem exists_refused_of_error {stop : Stop} (hread : read document = .error stop) :
    ∃ e, Refused document e := by
  have hnone := exists_read_eq_error_iff.1 ⟨stop, hread⟩
  by_cases hfault : ∃ count, stop.fault = .tooManyDigits count
  · obtain ⟨fault, rest⟩ := stop
    obtain ⟨count, rfl⟩ := hfault
    exact ⟨_, .tooManyDigits hnone hread⟩
  · exact ⟨_, .malformed hnone hread (not_exists.1 hfault)⟩

/-- Every document is one of records that are good, or is refused for one of the reasons. -/
theorem records_or_refused (document : Text) :
    (∃ records ts, IsDocument document (.array (records.map .object)) ∧
      List.Forall₂ IsRecord records ts) ∨ ∃ e, Refused document e := by
  cases hread : read document with
  | error stop => exact .inr (exists_refused_of_error hread)
  | ok v =>
    obtain ⟨w, hdoc, -⟩ := read_eq_ok_iff.1 hread
    by_cases harray : ∃ items, w = .array items
    · obtain ⟨items, rfl⟩ := harray
      rcases records_or_item items with ⟨records, rfl⟩ | ⟨records, item, after, rfl, hitem⟩
      · rcases tokens_or_bad records with ⟨ts, hts⟩ | ⟨before, pairs, after, e, rfl, hbefore, he⟩
        · exact .inl ⟨records, ts, hdoc, hts⟩
        · exact .inr ⟨e, .bad hdoc hbefore he⟩
      · exact .inr ⟨_, .notRecord hdoc hitem⟩
    · exact .inr ⟨_, .notArray hdoc (not_exists.1 harray)⟩

theorem IsBad.isDecoding (h : IsBad pairs e) : e.isDecoding = true := by
  cases h <;> rfl

/-- Only a number that is too long gives an error that is not one of decoding. -/
theorem Refused.isDecoding_eq_false_iff (h : Refused document e) :
    e.isDecoding = false ↔
      ∃ count rest, read document = .error ⟨.tooManyDigits count, rest⟩ := by
  have hheld : ∀ {w}, IsDocument document w →
      ¬∃ count rest, read document = .error ⟨.tooManyDigits count, rest⟩ := by
    rintro w hdoc ⟨count, rest, hread⟩
    exact exists_read_eq_error_iff.1 ⟨_, hread⟩ w hdoc
  cases h with
  | malformed _ hread hfault =>
    apply iff_of_false nofun
    rintro ⟨count, rest, hdigits⟩
    obtain rfl := Except.error.inj (hread.symm.trans hdigits)
    exact hfault count rfl
  | tooManyDigits _ hread => exact iff_of_true rfl ⟨_, _, hread⟩
  | notArray hdoc => exact iff_of_false nofun (hheld hdoc)
  | notRecord hdoc => exact iff_of_false nofun (hheld hdoc)
  | bad hdoc _ hbad =>
    rw [hbad.isDecoding]
    exact iff_of_false nofun (hheld hdoc)

/-- What becomes of a document: it gives the tokens of its records exactly if it is an array of
records that are good, and otherwise the error of the first reason to refuse it. The error is one of
decoding, unless the reader stops at a number that is too long. Where half of a pair of codes stands
alone in an escape, the strings in tokens and messages hold the replacement character for it
(`Json.charOfCode`); whether a document is refused, and for which reason, does not depend on that. -/
theorem ofDocument_decodes (document : Text) :
    (∀ ts, ofDocument document = .ok ts ↔
      ∃ records, IsDocument document (.array (records.map .object)) ∧
        List.Forall₂ IsRecord records ts) ∧
      (∀ e, ofDocument document = .error e ↔ Refused document e) ∧
      ∀ e, ofDocument document = .error e → (e.isDecoding = false ↔
        ∃ count rest, read document = .error ⟨.tooManyDigits count, rest⟩) := by
  have hrefused : ∀ e, ofDocument document = .error e → Refused document e := by
    intro e he
    rcases records_or_refused document with ⟨records, ts, hdoc, hts⟩ | ⟨e', he'⟩
    · rw [ofDocument_of_tokens hdoc hts] at he
      cases he
    · rw [he'.ofDocument] at he
      rwa [← Except.error.inj he]
  refine ⟨fun ts => ⟨fun hok => ?_, ?_⟩, fun e => ⟨hrefused e, Refused.ofDocument⟩,
    fun e he => (hrefused e he).isDecoding_eq_false_iff⟩
  · rcases records_or_refused document with ⟨records, ts', hdoc, hts⟩ | ⟨e, he⟩
    · rw [ofDocument_of_tokens hdoc hts] at hok
      rw [← Except.ok.inj hok]
      exact ⟨records, hdoc, hts⟩
    · rw [he.ofDocument] at hok
      cases hok
  · rintro ⟨records, hdoc, hts⟩
    exact ofDocument_of_tokens hdoc hts

/-- A number of one digit more than can be read is no array of records, but the error that it gives
is not one of decoding. -/
theorem ofDocument_longNumber :
    ofDocument (List.replicate 4301 '1') = .error (.tooManyDigits 4301) ∧
      ¬∀ document : Text, (∃ ts, ofDocument document = .ok ts) ∨
        ∃ e, ofDocument document = .error e ∧ e.isDecoding = true := by
  have hlong : ofDocument (List.replicate 4301 '1') = .error (.tooManyDigits 4301) := by
    rw [ofDocument, read_replicate (by decide)]
  refine ⟨hlong, fun hall => ?_⟩
  rcases hall (List.replicate 4301 '1') with ⟨ts, hok⟩ | ⟨e, herror, he⟩
  · rw [hlong] at hok
    cases hok
  · rw [hlong] at herror
    obtain rfl := Except.error.inj herror
    cases he

end Token

end SqlLayout
