import SqlLayout.Proofs.Json.Strings

/-!
# Documents read back

A value that is read back from what is written for it, whatever follows, is `ReadBack`. Strings are;
an array is if its items are, and an object if its members are and no key comes twice
(`readBack_array`, `readBack_object`). In both layouts the writer puts nothing but white space
between the parts, and the reader passes over it. A value takes no more steps than twice the
characters it is written with, so the steps of a document suffice.
-/

namespace SqlLayout.Json

variable {style : Style} {depth n : Nat} {v : Json} {rest : Text}

/-! ## What is written -/

theorem writeAt_string (style : Style) (depth : Nat) (t : Text) :
    writeAt style depth (.string t) = writeString t := rfl

theorem writeAt_array (style : Style) (depth : Nat) (items : List Json) :
    writeAt style depth (.array items) =
      bracketed style depth '[' ']' (writeItems style (depth + 1) items) := rfl

theorem writeAt_object (style : Style) (depth : Nat) (members : List (Text × Json)) :
    writeAt style depth (.object members) =
      bracketed style depth '\x7b' '\x7d' (writeMembers style (depth + 1) members) := rfl

theorem bracketed_opens (style : Style) (depth : Nat) (opening closing : Char)
    (parts : List Text) :
    ∃ t, bracketed style depth opening closing parts = opening :: t := by
  cases parts with
  | nil => exact ⟨_, rfl⟩
  | cons x parts => exact ⟨_, rfl⟩

/-! ## White space between the parts -/

theorem skip_break (style : Style) (depth : Nat) (t : Text) :
    skip (style.break depth ++ t) = skip t := by
  cases style with
  | compact => rfl
  | indented width =>
    have hspaces : ∀ k, skip (List.replicate k ' ' ++ t) = skip t := by
      intro k
      induction k with
      | zero => rfl
      | succ k ih => exact ih
    exact hspaces (depth * width)

theorem skip_colon (style : Style) (t : Text) :
    ∃ t', style.colon ++ t = ':' :: t' ∧ skip t' = skip t := by
  cases style with
  | compact => exact ⟨t, rfl, rfl⟩
  | indented width => exact ⟨' ' :: t, rfl, rfl⟩

/-- The character is no white space, no closing bracket and no byte order mark. -/
def isOpening (c : Char) : Bool := !(" \t\n\r]\x7d\ufeff".toList.contains c)

theorem skip_cons {c : Char} (h : isOpening c = true) (t : Text) : skip (c :: t) = c :: t := by
  have hsolid : (c == ' ' || c == '\t' || c == '\n' || c == '\r') = false := by
    simp [isOpening] at h
    simp [h]
  rw [skip, List.dropWhile_cons, hsolid, if_neg Bool.false_ne_true]

/-! ## Parts between brackets -/

/-- Parts after a first one, each behind a comma, and the text that closes them. -/
def trail (style : Style) (depth : Nat) (parts : List Text) (closing : Text) : Text :=
  parts.flatMap (',' :: style.break depth ++ ·) ++ closing

theorem trail_nil (style : Style) (depth : Nat) (closing : Text) :
    trail style depth [] closing = closing := rfl

theorem trail_cons (style : Style) (depth : Nat) (x : Text) (parts : List Text) (closing : Text) :
    trail style depth (x :: parts) closing =
      ',' :: (style.break depth ++ (x ++ trail style depth parts closing)) := by
  simp [trail]

theorem joined_append (style : Style) (depth : Nat) (x : Text) (parts : List Text)
    (closing : Text) :
    joined (',' :: style.break depth) (x :: parts) ++ closing =
      x ++ trail style depth parts closing := by
  induction parts generalizing x with
  | nil => simp [joined, trail]
  | cons y parts ih =>
    rw [trail_cons, ← ih, joined, joined, List.intercalate_cons_cons]
    simp

theorem bracketed_append (style : Style) (depth : Nat) (opening closing : Char) (x : Text)
    (parts : List Text) (rest : Text) :
    bracketed style depth opening closing (x :: parts) ++ rest =
      opening :: (style.break (depth + 1) ++
        (x ++ trail style (depth + 1) parts (style.break depth ++ closing :: rest))) := by
  rw [bracketed, ← joined_append]
  · simp
  · exact nofun

/-! ## Values that are read back -/

/-- The value is read back from what is written for it at a depth, whatever follows. -/
structure ReadBack (style : Style) (depth : Nat) (v : Json) : Prop where
  opens : ∃ c t, writeAt style depth v = c :: t ∧ isOpening c = true
  reads : ∀ n rest, 2 * (writeAt style depth v).length ≤ n →
    readValue n (writeAt style depth v ++ rest) = .ok (v, rest)

/-- White space before a written value is passed over. -/
theorem ReadBack.skip_eq (h : ReadBack style depth v) (rest : Text) :
    skip (writeAt style depth v ++ rest) = writeAt style depth v ++ rest := by
  obtain ⟨c, t, hwritten, hc⟩ := h.opens
  rw [hwritten]
  exact skip_cons hc (t ++ rest)

theorem length_skip_le (t : Text) : (skip t).length ≤ t.length :=
  (List.dropWhile_suffix _).length_le

theorem length_lt_of_skip {c : Char} {t : Text} (h : skip t = c :: rest) :
    rest.length < t.length := by
  have hle := length_skip_le t
  rw [h, List.length_cons] at hle
  exact hle

/-- Steps that suffice for a value and a text after it suffice for a step more than the value takes,
and for the text. -/
theorem ReadBack.exists_step (h : ReadBack style depth v) {t : Text}
    (ht : rest.length < t.length)
    (hn : 2 * (writeAt style depth v ++ t).length ≤ n + 2 * rest.length) :
    ∃ m, n = m + 1 ∧ 2 * (writeAt style depth v).length ≤ m ∧
      2 * t.length ≤ m + 2 * rest.length := by
  obtain ⟨c, w, hwritten, -⟩ := h.opens
  simp only [hwritten, List.length_append, List.length_cons] at hn ⊢
  exact ⟨n - 1, by omega⟩

theorem readBack_string (style : Style) (depth : Nat) (t : Text) :
    ReadBack style depth (.string t) where
  opens := ⟨'"', _, writeAt_string style depth t, by decide⟩
  reads n rest hn := by
    rw [writeAt_string] at hn ⊢
    obtain ⟨m, rfl⟩ : ∃ m, n = m + 1 := by
      refine ⟨n - 1, ?_⟩
      simp only [writeString, List.length_cons, List.length_append] at hn
      omega
    rw [writeString_append, readValue, readString_writeString]
    rfl

/-! ## Arrays -/

/-- The items of an array are read up to its end. -/
theorem readItems_written {items : List Json} {closing : Text} (hv : ReadBack style depth v)
    (hitems : ∀ w ∈ items, ReadBack style depth w) (before : List Json)
    (hclosing : skip closing = ']' :: rest)
    (hn : 2 * (writeAt style depth v ++
      trail style depth (writeItems style depth items) closing).length ≤ n + 2 * rest.length) :
    readItems n before (writeAt style depth v ++
        trail style depth (writeItems style depth items) closing) =
      .ok (.array (before.reverse ++ v :: items), rest) := by
  have hrest := length_lt_of_skip hclosing
  induction items generalizing before n v with
  | nil =>
    obtain ⟨m, rfl, hm, -⟩ := hv.exists_step hrest hn
    rw [readItems, hv.reads m _ hm, writeItems, trail_nil]
    simp [hclosing]
  | cons w items ih =>
    have hw := hitems w List.mem_cons_self
    rw [writeItems, trail_cons] at hn ⊢
    obtain ⟨m, rfl, hm, hmore⟩ := hv.exists_step (by simp [trail]; omega) hn
    have hmore : 2 * (writeAt style depth w ++
        trail style depth (writeItems style depth items) closing).length ≤
        m + 2 * rest.length := by
      simp only [List.length_cons, List.length_append] at hmore ⊢
      omega
    rw [readItems, hv.reads m _ hm]
    simp only [skip_cons (c := ',') (by decide), skip_break, hw.skip_eq]
    rw [ih hw (fun u hu => hitems u (List.mem_cons_of_mem w hu)) (v :: before) hmore]
    simp

/-- After an opening bracket a written value is read as the first item. -/
theorem ReadBack.readValue_eq (h : ReadBack style (depth + 1) v) (rest : Text) :
    readValue (n + 1) ('[' :: (style.break (depth + 1) ++ (writeAt style (depth + 1) v ++ rest))) =
      readItems n [] (writeAt style (depth + 1) v ++ rest) := by
  rw [readValue, skip_break, h.skip_eq]
  obtain ⟨c, t, hwritten, hc⟩ := h.opens
  rw [hwritten, List.cons_append]
  split
  · next heq =>
    obtain ⟨rfl, -⟩ := List.cons.inj heq
    exact absurd hc (by decide)
  · rfl

/-- The steps that suffice for bracketed parts suffice for the bracket and the parts. -/
theorem exists_step_bracketed {opening closing : Char} {x : Text} {parts : List Text}
    (hn : 2 * (bracketed style depth opening closing (x :: parts)).length ≤ n) :
    ∃ m, n = m + 1 ∧ 2 * (x ++ trail style (depth + 1) parts
      (style.break depth ++ closing :: rest)).length ≤ m + 2 * rest.length := by
  have hlength := congrArg List.length
    (bracketed_append style depth opening closing x parts rest)
  have hpos : 0 < (bracketed style depth opening closing (x :: parts)).length := by
    obtain ⟨t, ht⟩ := bracketed_opens style depth opening closing (x :: parts)
    simp [ht]
  simp only [List.length_append, List.length_cons] at hlength hn ⊢
  exact ⟨n - 1, by omega⟩

theorem readBack_array {items : List Json} (hitems : ∀ v ∈ items, ReadBack style (depth + 1) v) :
    ReadBack style depth (.array items) where
  opens := by
    obtain ⟨t, ht⟩ := bracketed_opens style depth '[' ']' (writeItems style (depth + 1) items)
    exact ⟨'[', t, (writeAt_array style depth items).trans ht, by decide⟩
  reads n rest hn := by
    rw [writeAt_array] at hn ⊢
    cases items with
    | nil =>
      obtain ⟨m, rfl⟩ : ∃ m, n = m + 1 := ⟨n - 1, by simp [writeItems, bracketed] at hn; omega⟩
      simp [writeItems, bracketed, readValue, skip]
    | cons v items =>
      have hv := hitems v List.mem_cons_self
      have hmore := fun u hu => hitems u (List.mem_cons_of_mem v hu)
      have hclosing : skip (style.break depth ++ ']' :: rest) = ']' :: rest := by
        rw [skip_break]
        rfl
      rw [writeItems] at hn ⊢
      obtain ⟨m, rfl, hm⟩ := exists_step_bracketed hn
      rw [bracketed_append, hv.readValue_eq, readItems_written hv hmore [] hclosing hm]
      rfl

/-! ## Objects -/

/-- The key of a member is read with the colon after it. -/
theorem readKey_written (style : Style) (key rest : Text) :
    readKey (writeString key ++ (style.colon ++ rest)) = .ok (key, skip rest) := by
  obtain ⟨t, hcolon, hskip⟩ := skip_colon style rest
  rw [writeString_append, readKey, readString_writeString]
  simp only [hcolon, skip_cons (c := ':') (by decide), hskip]

/-- What is written for a member. -/
def writeMember (style : Style) (depth : Nat) (m : Text × Json) : Text :=
  writeString m.1 ++ style.colon ++ writeAt style depth m.2

theorem writeMembers_cons (style : Style) (depth : Nat) (m : Text × Json)
    (members : List (Text × Json)) :
    writeMembers style depth (m :: members) =
      writeMember style depth m :: writeMembers style depth members := rfl

theorem readMembers_last {m : Text × Json} {t : Text} (hm : ReadBack style depth m.2)
    (before : List (Text × Json)) (hn : 2 * (writeAt style depth m.2).length ≤ n)
    (ht : skip t = '\x7d' :: rest) :
    readMembers (n + 1) before (writeMember style depth m ++ t) =
      .ok (.object (put m.1 m.2 before), rest) := by
  rw [writeMember, List.append_assoc, List.append_assoc, readMembers, readKey_written, hm.skip_eq]
  simp only [hm.reads n t hn, ht]

theorem readMembers_more {m : Text × Json} {t : Text} (hm : ReadBack style depth m.2)
    (before : List (Text × Json)) (hn : 2 * (writeAt style depth m.2).length ≤ n)
    (ht : skip t = ',' :: rest) :
    readMembers (n + 1) before (writeMember style depth m ++ t) =
      readMembers n (put m.1 m.2 before) (skip rest) := by
  rw [writeMember, List.append_assoc, List.append_assoc, readMembers, readKey_written, hm.skip_eq]
  simp only [hm.reads n t hn, ht]

theorem skip_writeMember (style : Style) (depth : Nat) (m : Text × Json) (t : Text) :
    skip (writeMember style depth m ++ t) = writeMember style depth m ++ t := by
  rw [writeMember, List.append_assoc, writeString_append]
  exact skip_cons (by decide) _

/-- The members of an object are read up to its end. -/
theorem readMembers_written {m : Text × Json} {members : List (Text × Json)} {closing : Text}
    (hm : ReadBack style depth m.2) (hmembers : ∀ u ∈ members, ReadBack style depth u.2)
    (before : List (Text × Json)) (hclosing : skip closing = '\x7d' :: rest)
    (hn : 2 * (writeMember style depth m ++
      trail style depth (writeMembers style depth members) closing).length ≤ n + 2 * rest.length) :
    readMembers n before (writeMember style depth m ++
        trail style depth (writeMembers style depth members) closing) =
      .ok (.object ((m :: members).foldl (fun all (k, v) => put k v all) before), rest) := by
  have hrest := length_lt_of_skip hclosing
  have hvalue : ∀ {m : Text × Json} {t : Text} {n : Nat},
      2 * (writeMember style depth m ++ t).length ≤ n + 2 * rest.length →
        2 * (writeAt style depth m.2 ++ t).length ≤ n + 2 * rest.length := by
    intro m t n h
    simp only [writeMember, List.length_append] at h ⊢
    omega
  induction members generalizing before n m with
  | nil =>
    obtain ⟨k, rfl, hk, -⟩ := hm.exists_step hrest (hvalue hn)
    exact readMembers_last hm before hk hclosing
  | cons u members ih =>
    have hu := hmembers u List.mem_cons_self
    rw [writeMembers_cons, trail_cons] at hn ⊢
    obtain ⟨k, rfl, hk, hmore⟩ := hm.exists_step (by simp [trail]; omega) (hvalue hn)
    have hmore : 2 * (writeMember style depth u ++
        trail style depth (writeMembers style depth members) closing).length ≤
        k + 2 * rest.length := by
      simp only [List.length_cons, List.length_append] at hmore ⊢
      omega
    rw [readMembers_more hm before hk (skip_cons (by decide) _), skip_break, skip_writeMember]
    exact ih hu (fun w hw => hmembers w (List.mem_cons_of_mem u hw)) (put m.1 m.2 before) hmore

/-- An object in which no key comes twice is read back if its members are. -/
theorem readBack_object {members : List (Text × Json)} (hkeys : membersOf members = members)
    (hmembers : ∀ u ∈ members, ReadBack style (depth + 1) u.2) :
    ReadBack style depth (.object members) where
  opens := by
    obtain ⟨t, ht⟩ := bracketed_opens style depth '\x7b' '\x7d'
      (writeMembers style (depth + 1) members)
    exact ⟨'\x7b', t, (writeAt_object style depth members).trans ht, by decide⟩
  reads n rest hn := by
    rw [writeAt_object] at hn ⊢
    cases members with
    | nil =>
      obtain ⟨m, rfl⟩ : ∃ m, n = m + 1 := ⟨n - 1, by simp [writeMembers, bracketed] at hn; omega⟩
      simp [writeMembers, bracketed, readValue, skip]
    | cons u members =>
      have hu := hmembers u List.mem_cons_self
      have hmore := fun w hw => hmembers w (List.mem_cons_of_mem u hw)
      have hclosing : skip (style.break depth ++ '\x7d' :: rest) = '\x7d' :: rest := by
        rw [skip_break]
        rfl
      rw [writeMembers_cons] at hn ⊢
      obtain ⟨m, rfl, hm⟩ := exists_step_bracketed hn
      have hread := readMembers_written hu hmore [] hclosing hm
      rw [← membersOf, hkeys] at hread
      rw [bracketed_append, readValue, skip_break, skip_writeMember, ← hread, writeMember,
        List.append_assoc, writeString_append]
      rfl

/-! ## Documents -/

/-- The document that is written for a value is read as that value. -/
theorem read_write (h : ReadBack style 0 v) : read (write style v) = .ok v := by
  have hmark : (writeAt style 0 v).head? ≠ some '\ufeff' := by
    obtain ⟨c, t, hwritten, hc⟩ := h.opens
    rw [hwritten, List.head?_cons]
    rintro ⟨⟩
    exact absurd hc (by decide)
  have hskip := h.skip_eq []
  have hreads := h.reads (2 * (writeAt style 0 v).length + 2) [] (by omega)
  rw [List.append_nil] at hskip hreads
  rw [read, write, if_neg hmark, hskip, hreads]
  rfl

end SqlLayout.Json
