import Mathlib.Data.List.Induction
import Mathlib.Data.List.TakeDrop
import SqlLayout.Proofs.Json.Written

/-!
# What a document holds

`IsValue t w r` says that the text `t` begins with what is written for the value `w`, and that `r`
follows it. There an object has its members as they are written, and a key may come again; `merge`
gives the value that is read, in which the last member of each key counts
(`member?_mergeMembers`). The reader answers with the merged values of what is written, and with
nothing else (`sound`, `complete`), so a document is read exactly if it holds a value
(`read_eq_ok_iff`).

Both directions are inductions on the steps of the reader. What is left of a text is no longer than
the text, so two steps for each character are enough.
-/

namespace SqlLayout.Json

variable {c : Char} {n : Nat} {s t r r₁ r₂ start back ds document key : Text} {v w : Json}
  {negative : Bool} {power : Int} {items before : List Json}
  {pairs members : List (Text × Json)}

/-! ## Texts that readers leave -/

theorem length_readString (h : readString start back t = .ok (s, r)) : r.length ≤ t.length := by
  fun_induction readString start back t with
  | case2 =>
    obtain ⟨-, rfl⟩ := Prod.mk.inj (Except.ok.inj h)
    exact Nat.le_succ _
  | case6 | case7 | case8 | case9 | case11 | case14 =>
    rename_i ih
    have hle := ih h
    simp only [List.length_cons] at hle ⊢
    omega
  | _ => cases h

theorem length_digits (t : Text) : (digits t).2.length ≤ t.length := by
  rw [digits, List.span_eq_takeWhile_dropWhile]
  exact (List.dropWhile_suffix _).length_le

theorem length_fraction? (h : fraction? t = some (ds, r)) : r.length ≤ t.length := by
  unfold fraction? at h
  split at h
  · next rest =>
    have hle := length_digits rest
    split at h
    · cases h
    · obtain rfl := congrArg Prod.snd (Option.some.inj h)
      exact Nat.le_succ_of_le hle
  · cases h

theorem length_exponent? (h : exponent? t = some (power, r)) : r.length ≤ t.length := by
  unfold exponent? at h
  split at h
  case h_1 rest | h_2 rest =>
    split at h
    next sign rest' hsign =>
    have hrest : rest'.length ≤ rest.length := by
      split at hsign <;> obtain ⟨-, rfl⟩ := Prod.mk.inj hsign <;> simp
    have hle := length_digits rest'
    split at h
    · cases h
    · next heq =>
      rw [heq] at hle
      obtain rfl := congrArg Prod.snd (Option.some.inj h)
      exact Nat.le_succ_of_le (Nat.le_trans hle hrest)
  · cases h

theorem length_getD {α : Type} {o : Option (α × Text)} {a b : α} (h : o.getD (a, t) = (b, r))
    (ho : ∀ p ∈ o, p.2.length ≤ t.length) : r.length ≤ t.length := by
  cases o with
  | none =>
    obtain ⟨-, rfl⟩ := Prod.mk.inj h
    exact Nat.le_refl _
  | some p =>
    obtain rfl : p = (b, r) := h
    exact ho _ rfl

/-- The value is no string and holds no others. -/
def isScalar : Json → Bool
  | .null | .bool _ | .int _ | .float _ => true
  | _ => false

theorem readUnsigned_ok (h : readUnsigned negative start t = .ok (v, r)) :
    r.length ≤ t.length ∧ v.isScalar = true := by
  unfold readUnsigned at h
  split at h
  next whole rest hwhole =>
  have hrest : rest.length ≤ t.length := by
    split at hwhole
    · obtain ⟨-, rfl⟩ := Prod.mk.inj hwhole
      exact Nat.le_succ _
    · have hle := length_digits t
      rwa [hwhole] at hle
  split at h
  · cases h
  · split at h
    next places rest' hplaces =>
    split at h
    next power rest'' hpower =>
    have hrest' := length_getD hplaces fun p hp => length_fraction? hp
    have hrest'' := length_getD hpower fun p hp => length_exponent? hp
    split at h
    · split at h
      · cases h
      · obtain ⟨rfl, rfl⟩ := Prod.mk.inj (Except.ok.inj h)
        exact ⟨hrest, rfl⟩
    · obtain ⟨rfl, rfl⟩ := Prod.mk.inj (Except.ok.inj h)
      exact ⟨Nat.le_trans hrest'' (Nat.le_trans hrest' hrest), rfl⟩

theorem readNumber_ok (h : readNumber t = .ok (v, r)) :
    r.length ≤ t.length ∧ v.isScalar = true := by
  unfold readNumber at h
  split at h
  · exact (readUnsigned_ok h).imp_left Nat.le_succ_of_le
  · exact readUnsigned_ok h

theorem readScalar_ok (h : readScalar t = .ok (v, r)) :
    r.length ≤ t.length ∧ v.isScalar = true := by
  unfold readScalar at h
  split at h
  case h_7 => exact readNumber_ok h
  all_goals
    obtain ⟨rfl, rfl⟩ := Prod.mk.inj (Except.ok.inj h)
    exact ⟨by simp only [List.length_cons]; omega, rfl⟩

/-- No scalar begins with a quote or a bracket. -/
theorem readScalar_bracket (hc : c ∈ ['"', '[', '\x7b', ']']) (t : Text) :
    readScalar (c :: t) = .error ⟨.valueExpected, c :: t⟩ := by
  simp only [List.mem_cons, List.not_mem_nil, or_false] at hc
  rcases hc with rfl | rfl | rfl | rfl <;> rfl

theorem readValue_scalar (h : readScalar t = .ok (v, r)) (n : Nat) :
    readValue (n + 1) t = .ok (v, r) := by
  have hne : ∀ c ∈ ['"', '[', '\x7b', ']'], ∀ rest, t ≠ c :: rest := by
    rintro c hc rest rfl
    rw [readScalar_bracket hc] at h
    cases h
  rw [readValue, h]
  · exact hne '"' (by decide)
  · exact hne '[' (by decide)
  · exact hne '\x7b' (by decide)

theorem length_readKey (h : readKey t = .ok (key, r)) : r.length ≤ t.length := by
  unfold readKey at h
  split at h
  · next rest =>
    split at h
    · cases h
    · next k r' hstring =>
      have hle := length_readString hstring
      split at h
      · next r'' hskip =>
        obtain ⟨-, rfl⟩ := Prod.mk.inj (Except.ok.inj h)
        have hlt := length_lt_of_skip hskip
        have hskip' := length_skip_le r''
        simp only [List.length_cons]
        omega
      · cases h
  · cases h

/-! ## What is written -/

mutual

/-- The first text begins with what is written for the value, and the second one follows. -/
inductive IsValue : Text → Json → Text → Prop
  | string {t s r : Text} (h : readString ('"' :: t) [] t = .ok (s, r)) :
      IsValue ('"' :: t) (.string s) r
  | scalar {t r : Text} {v : Json} (h : readScalar t = .ok (v, r)) : IsValue t v r
  | noItems {t r : Text} (h : skip t = ']' :: r) : IsValue ('[' :: t) (.array []) r
  | items {t r : Text} {items : List Json} (h : AreItems (skip t) items r) :
      IsValue ('[' :: t) (.array items) r
  | noMembers {t r : Text} (h : skip t = '\x7d' :: r) : IsValue ('\x7b' :: t) (.object []) r
  | members {t r : Text} {pairs : List (Text × Json)} (h : AreMembers (skip t) pairs r) :
      IsValue ('\x7b' :: t) (.object pairs) r

/-- The same of the items of an array, up to its end. -/
inductive AreItems : Text → List Json → Text → Prop
  | last {t r₁ r : Text} {v : Json} (hv : IsValue t v r₁) (hend : skip r₁ = ']' :: r) :
      AreItems t [v] r
  | more {t r₁ r₂ r : Text} {v : Json} {items : List Json} (hv : IsValue t v r₁)
      (hcomma : skip r₁ = ',' :: r₂) (hmore : AreItems (skip r₂) items r) :
      AreItems t (v :: items) r

/-- And of the members of an object, in their order. -/
inductive AreMembers : Text → List (Text × Json) → Text → Prop
  | last {t r₁ r₂ r key : Text} {v : Json} (hkey : readKey t = .ok (key, r₁))
      (hv : IsValue r₁ v r₂) (hend : skip r₂ = '\x7d' :: r) : AreMembers t [(key, v)] r
  | more {t r₁ r₂ r₃ r key : Text} {v : Json} {pairs : List (Text × Json)}
      (hkey : readKey t = .ok (key, r₁)) (hv : IsValue r₁ v r₂) (hcomma : skip r₂ = ',' :: r₃)
      (hmore : AreMembers (skip r₃) pairs r) : AreMembers t ((key, v) :: pairs) r

end

/-- The document holds this value, as it is written, with nothing but white space around it. -/
def IsDocument (document : Text) (w : Json) : Prop :=
  document.head? ≠ some '\ufeff' ∧ ∃ r, IsValue (skip document) w r ∧ skip r = []

/-! ## What is read for it -/

mutual

/-- The value that is read where this one is written. -/
def merge : Json → Json
  | .array items => .array (mergeItems items)
  | .object pairs => .object (membersOf (mergePairs pairs))
  | v => v

/-- The items that are read where these are written. -/
def mergeItems : List Json → List Json
  | [] => []
  | v :: items => merge v :: mergeItems items

/-- The members that are read one after another where these are written. -/
def mergePairs : List (Text × Json) → List (Text × Json)
  | [] => []
  | (key, v) :: pairs => (key, merge v) :: mergePairs pairs

end

theorem merge_of_isScalar (h : v.isScalar = true) : merge v = v := by
  cases v with
  | array => cases h
  | object => cases h
  | _ => rfl

theorem merge_eq_string_iff : merge v = .string s ↔ v = .string s := by
  cases v with
  | array => exact iff_of_false nofun nofun
  | object => exact iff_of_false nofun nofun
  | _ => exact Iff.rfl

theorem mergeItems_eq_map (items : List Json) : mergeItems items = items.map merge := by
  induction items with
  | nil => rfl
  | cons v items ih => rw [mergeItems, ih, List.map_cons]

theorem mergePairs_eq_map (pairs : List (Text × Json)) :
    mergePairs pairs = pairs.map fun p => (p.1, merge p.2) := by
  induction pairs with
  | nil => rfl
  | cons p pairs ih => rw [mergePairs, ih, List.map_cons]

/-- The members of the object that is read where these are written. -/
def mergeMembers (pairs : List (Text × Json)) : List (Text × Json) := membersOf (mergePairs pairs)

/-- The value that a key has where it is written last. -/
def lastMember? (key : Text) (pairs : List (Text × Json)) : Option Json := pairs.reverse.lookup key

/-- Of the members of a key the last one counts. -/
theorem member?_mergeMembers (key : Text) (pairs : List (Text × Json)) :
    member? key (mergeMembers pairs) = (lastMember? key pairs).map merge := by
  rw [mergeMembers, mergePairs_eq_map]
  induction pairs using List.reverseRecOn with
  | nil => rfl
  | append_singleton pairs p ih =>
    obtain ⟨k, v⟩ := p
    have hput : membersOf ((pairs ++ [(k, v)]).map fun p => (p.1, merge p.2)) =
        put k (merge v) (membersOf (pairs.map fun p => (p.1, merge p.2))) := by
      rw [membersOf, List.map_append, List.foldl_append]
      rfl
    rw [hput, lastMember?, List.reverse_append, List.reverse_singleton, List.singleton_append]
    by_cases hkey : key = k
    · subst hkey
      rw [member?_put_self, List.lookup_cons_self]
      rfl
    · have hne : (key == k) = false := by simpa using hkey
      rw [member?_put_of_ne hkey, ih, List.lookup_cons, hne]
      rfl

/-! ## The reader reads what is written -/

/-- What is read in so many steps is written there. -/
structure Sound (n : Nat) : Prop where
  value : ∀ {t r : Text} {v : Json}, readValue n t = .ok (v, r) →
    ∃ w, IsValue t w r ∧ v = merge w
  items : ∀ {t r : Text} {v : Json} {before : List Json}, readItems n before t = .ok (v, r) →
    ∃ items, AreItems t items r ∧ v = .array (before.reverse ++ mergeItems items)
  members : ∀ {t r : Text} {v : Json} {before : List (Text × Json)},
    readMembers n before t = .ok (v, r) → ∃ pairs, AreMembers t pairs r ∧
      v = .object ((mergePairs pairs).foldl (fun all (k, v) => put k v all) before)

theorem Sound.readValue (h : Sound n) (hread : readValue (n + 1) t = .ok (v, r)) :
    ∃ w, IsValue t w r ∧ v = merge w := by
  unfold Json.readValue at hread
  split at hread
  · next rest =>
    cases hstring : readString ('"' :: rest) [] rest with
    | error e =>
      rw [hstring] at hread
      cases hread
    | ok p =>
      obtain ⟨s, r'⟩ := p
      rw [hstring] at hread
      obtain ⟨rfl, rfl⟩ := Prod.mk.inj (Except.ok.inj hread)
      exact ⟨.string s, .string hstring, rfl⟩
  · split at hread
    · next hend =>
      obtain ⟨rfl, rfl⟩ := Prod.mk.inj (Except.ok.inj hread)
      exact ⟨.array [], .noItems hend, rfl⟩
    · obtain ⟨items, hitems, rfl⟩ := h.items hread
      exact ⟨.array items, .items hitems, rfl⟩
  · split at hread
    · next hend =>
      obtain ⟨rfl, rfl⟩ := Prod.mk.inj (Except.ok.inj hread)
      exact ⟨.object [], .noMembers hend, rfl⟩
    · obtain ⟨pairs, hpairs, rfl⟩ := h.members hread
      exact ⟨.object pairs, .members hpairs, rfl⟩
  · exact ⟨v, .scalar hread, (merge_of_isScalar (readScalar_ok hread).2).symm⟩

theorem Sound.readItems (h : Sound n) (hread : readItems (n + 1) before t = .ok (v, r)) :
    ∃ items, AreItems t items r ∧ v = .array (before.reverse ++ mergeItems items) := by
  rw [Json.readItems] at hread
  split at hread
  · cases hread
  · next u r₁ hfirst =>
    obtain ⟨w, hw, rfl⟩ := h.value hfirst
    split at hread
    · next hend =>
      obtain ⟨rfl, rfl⟩ := Prod.mk.inj (Except.ok.inj hread)
      exact ⟨[w], .last hw hend, by simp [mergeItems]⟩
    · next hcomma =>
      obtain ⟨items, hitems, rfl⟩ := h.items hread
      exact ⟨w :: items, .more hw hcomma hitems, by simp [mergeItems]⟩
    · cases hread

theorem Sound.readMembers (h : Sound n) (hread : readMembers (n + 1) members t = .ok (v, r)) :
    ∃ pairs, AreMembers t pairs r ∧
      v = .object ((mergePairs pairs).foldl (fun all (k, v) => put k v all) members) := by
  rw [Json.readMembers] at hread
  split at hread
  · cases hread
  · next key r₁ hkey =>
    split at hread
    · cases hread
    · next u r₂ hfirst =>
      obtain ⟨w, hw, rfl⟩ := h.value hfirst
      split at hread
      · next hend =>
        obtain ⟨rfl, rfl⟩ := Prod.mk.inj (Except.ok.inj hread)
        exact ⟨[(key, w)], .last hkey hw hend, rfl⟩
      · next hcomma =>
        obtain ⟨pairs, hpairs, rfl⟩ := h.members hread
        exact ⟨(key, w) :: pairs, .more hkey hw hcomma hpairs, rfl⟩
      · cases hread

theorem sound (n : Nat) : Sound n := by
  induction n with
  | zero => exact ⟨nofun, nofun, nofun⟩
  | succ n ih => exact ⟨ih.readValue, ih.readItems, ih.readMembers⟩

/-! ## What is written is read -/

/-- Steps for twice the characters of the texts are enough to read what is written there. -/
structure Complete (n : Nat) : Prop where
  value : ∀ {t r : Text} {w : Json}, IsValue t w r → 2 * t.length + 1 ≤ n →
    readValue n t = .ok (merge w, r) ∧ r.length ≤ t.length
  items : ∀ {t r : Text} {items : List Json}, AreItems t items r → 2 * t.length + 2 ≤ n →
    (∀ before, readItems n before t = .ok (.array (before.reverse ++ mergeItems items), r)) ∧
      r.length ≤ t.length
  members : ∀ {t r : Text} {pairs : List (Text × Json)}, AreMembers t pairs r →
    2 * t.length + 2 ≤ n →
    (∀ before, readMembers n before t =
      .ok (.object ((mergePairs pairs).foldl (fun all (k, v) => put k v all) before), r)) ∧
      r.length ≤ t.length

theorem AreItems.ne_bracket (h : AreItems t items r) (rest : Text) : t ≠ ']' :: rest := by
  have hvalue : ∀ {w r₁}, ¬IsValue (']' :: rest) w r₁ := by
    intro w r₁ hw
    cases hw with
    | scalar hscalar =>
      rw [readScalar_bracket (by decide)] at hscalar
      cases hscalar
  rintro rfl
  cases h with
  | last hv => exact hvalue hv
  | more hv => exact hvalue hv

theorem AreMembers.ne_bracket (h : AreMembers t pairs r) (rest : Text) : t ≠ '\x7d' :: rest := by
  rintro rfl
  cases h with
  | last hkey => cases hkey
  | more hkey => cases hkey

theorem Complete.readValue (h : Complete n) (hw : IsValue t w r)
    (hn : 2 * t.length + 1 ≤ n + 1) :
    readValue (n + 1) t = .ok (merge w, r) ∧ r.length ≤ t.length := by
  cases hw with
  | @string t s r hstring =>
    have hle := length_readString hstring
    rw [Json.readValue, hstring]
    exact ⟨rfl, Nat.le_succ_of_le hle⟩
  | scalar hscalar =>
    obtain ⟨hle, hkind⟩ := readScalar_ok hscalar
    rw [merge_of_isScalar hkind]
    exact ⟨readValue_scalar hscalar n, hle⟩
  | noItems hend =>
    have hlt := length_lt_of_skip hend
    simp only [Json.readValue, hend, List.length_cons]
    exact ⟨rfl, by omega⟩
  | @items t r items hitems =>
    have hskip := length_skip_le t
    rw [List.length_cons] at hn
    obtain ⟨hread, hle⟩ := h.items hitems (by omega)
    rw [Json.readValue]
    constructor
    · split
      · next heq => exact absurd heq (hitems.ne_bracket _)
      · exact hread []
    · rw [List.length_cons]
      omega
  | noMembers hend =>
    have hlt := length_lt_of_skip hend
    simp only [Json.readValue, hend, List.length_cons]
    exact ⟨rfl, by omega⟩
  | @members t r pairs hpairs =>
    have hskip := length_skip_le t
    rw [List.length_cons] at hn
    obtain ⟨hread, hle⟩ := h.members hpairs (by omega)
    rw [Json.readValue]
    constructor
    · split
      · next heq => exact absurd heq (hpairs.ne_bracket _)
      · exact hread []
    · rw [List.length_cons]
      omega

theorem Complete.readItems (h : Complete n) (hitems : AreItems t items r)
    (hn : 2 * t.length + 2 ≤ n + 1) :
    (∀ before, readItems (n + 1) before t =
      .ok (.array (before.reverse ++ mergeItems items), r)) ∧ r.length ≤ t.length := by
  cases hitems with
  | last hv hend =>
    obtain ⟨hread, hle⟩ := h.value hv (by omega)
    have hlt := length_lt_of_skip hend
    refine ⟨fun before => ?_, by omega⟩
    simp only [Json.readItems, hread, hend, List.reverse_cons]
    rfl
  | @more _ r₁ r₂ _ v items hv hcomma hmore =>
    obtain ⟨hread, hle⟩ := h.value hv (by omega)
    have hlt := length_lt_of_skip hcomma
    have hskip := length_skip_le r₂
    obtain ⟨hreads, hle'⟩ := h.items hmore (by omega)
    refine ⟨fun before => ?_, by omega⟩
    simp only [Json.readItems, hread, hcomma, hreads, List.reverse_cons, mergeItems]
    simp

theorem Complete.readMembers (h : Complete n) (hpairs : AreMembers t pairs r)
    (hn : 2 * t.length + 2 ≤ n + 1) :
    (∀ before, readMembers (n + 1) before t =
      .ok (.object ((mergePairs pairs).foldl (fun all (k, v) => put k v all) before), r)) ∧
      r.length ≤ t.length := by
  cases hpairs with
  | last hkey hv hend =>
    have hlekey := length_readKey hkey
    obtain ⟨hread, hle⟩ := h.value hv (by omega)
    have hlt := length_lt_of_skip hend
    refine ⟨fun before => ?_, by omega⟩
    simp only [Json.readMembers, hkey, hread, hend]
    rfl
  | @more _ r₁ r₂ r₃ _ key v pairs hkey hv hcomma hmore =>
    have hlekey := length_readKey hkey
    obtain ⟨hread, hle⟩ := h.value hv (by omega)
    have hlt := length_lt_of_skip hcomma
    have hskip := length_skip_le r₃
    obtain ⟨hreads, hle'⟩ := h.members hmore (by omega)
    refine ⟨fun before => ?_, by omega⟩
    simp only [Json.readMembers, hkey, hread, hcomma, hreads]
    rfl

theorem complete (n : Nat) : Complete n := by
  induction n with
  | zero => exact ⟨fun _ hn => by omega, fun _ hn => by omega, fun _ hn => by omega⟩
  | succ n ih => exact ⟨ih.readValue, ih.readItems, ih.readMembers⟩

/-! ## Documents -/

/-- A document is read exactly if it holds a value; the answer is the value with its members
merged. -/
theorem read_eq_ok_iff : read document = .ok v ↔ ∃ w, IsDocument document w ∧ v = merge w := by
  unfold read IsDocument
  constructor
  · intro hread
    split at hread
    · cases hread
    · next hmark =>
      split at hread
      · cases hread
      · next u r hvalue =>
        split at hread
        · next hrest =>
          obtain rfl := Except.ok.inj hread
          obtain ⟨w, hw, rfl⟩ := (sound _).value hvalue
          exact ⟨w, ⟨hmark, r, hw, List.isEmpty_iff.1 hrest⟩, rfl⟩
        · cases hread
  · rintro ⟨w, ⟨hmark, r, hw, hrest⟩, rfl⟩
    have hskip := length_skip_le document
    obtain ⟨hvalue, -⟩ := (complete (2 * document.length + 2)).value hw (by omega)
    rw [if_neg hmark, hvalue]
    simp only [hrest]
    rfl

/-- Where a document cannot be read it holds no value. -/
theorem exists_read_eq_error_iff :
    (∃ stop, read document = .error stop) ↔ ∀ w, ¬IsDocument document w := by
  cases hread : read document with
  | error stop =>
    refine iff_of_true ⟨stop, rfl⟩ fun w hw => ?_
    rw [read_eq_ok_iff.2 ⟨w, hw, rfl⟩] at hread
    cases hread
  | ok v =>
    obtain ⟨w, hw, -⟩ := read_eq_ok_iff.1 hread
    refine iff_of_false ?_ fun hnone => hnone w hw
    rintro ⟨stop, herror⟩
    cases herror

/-- A document that is one long number is read up to its end before its digits are too many. -/
theorem read_replicate {n : Nat} (h : Text.maxDigits < n) :
    read (List.replicate n '1') = .error ⟨.tooManyDigits n, List.replicate n '1'⟩ := by
  obtain ⟨m, rfl⟩ : ∃ m, n = m + 1 := ⟨n - 1, by omega⟩
  have hskip : skip (List.replicate (m + 1) '1') = List.replicate (m + 1) '1' :=
    skip_cons (by decide) _
  have hdigits : digits (List.replicate (m + 1) '1') = (List.replicate (m + 1) '1', []) := by
    rw [digits, List.span_eq_takeWhile_dropWhile]
    simp
  have hvalue : ∀ k, readValue (k + 1) (List.replicate (m + 1) '1') =
      readUnsigned false (List.replicate (m + 1) '1') (List.replicate (m + 1) '1') :=
    fun k => rfl
  have hunsigned : readUnsigned false (List.replicate (m + 1) '1') (List.replicate (m + 1) '1') =
      .error ⟨.tooManyDigits (m + 1), List.replicate (m + 1) '1'⟩ := by
    unfold readUnsigned
    split
    next whole rest hwhole =>
    obtain ⟨rfl, rfl⟩ : List.replicate (m + 1) '1' = whole ∧ [] = rest := by
      split at hwhole
      · next heq => cases heq
      · exact Prod.mk.inj (hdigits.symm.trans hwhole)
    simp only [fraction?, exponent?, List.length_replicate, if_pos h]
    rfl
  have hmark : (List.replicate (m + 1) '1').head? ≠ some '\ufeff' := by
    rw [List.replicate_succ, List.head?_cons]
    decide
  rw [read, hskip, hvalue, hunsigned, if_neg hmark]

end SqlLayout.Json
