import SqlLayout.Json.Reader
import SqlLayout.Json.Writer
import SqlLayout.Proofs.Text.Classes

/-!
# Strings read back

What is written for a character is read back as that character, if something follows it
(`readString_escaped`); in a string the closing quote always does. A control character is written as
a code in digits, which is below the codes that come in pairs, so the reader never takes two of them
together.
-/

namespace SqlLayout.Json

variable {start read rest : Text}

/-! ## Codes in digits -/

/-- The code of a control character is written in four digits and read from them. -/
theorem hexCode?_hexCode :
    ∀ n < 0x20, ∃ a b c d, Text.hexCode 4 n = [a, b, c, d] ∧ hexCode? a b c d = some n := by
  have hdigits : ∀ n < 0x20, (Text.hexCode 4 n).length = 4 ∧
      hexCode? ((Text.hexCode 4 n).getD 0 ' ') ((Text.hexCode 4 n).getD 1 ' ')
        ((Text.hexCode 4 n).getD 2 ' ') ((Text.hexCode 4 n).getD 3 ' ') = some n := by
    decide
  intro n hn
  obtain ⟨hlength, hcode⟩ := hdigits n hn
  match hwritten : Text.hexCode 4 n, hlength with
  | [a, b, c, d], _ =>
    rw [hwritten] at hcode
    exact ⟨a, b, c, d, rfl, hcode⟩

theorem charOfCode_toNat {c : Char} (h : c.toNat < 0x20) : charOfCode c.toNat = c := by
  have hhigh : isHighHalf c.toNat = false := by simp [isHighHalf]; omega
  have hlow : isLowHalf c.toNat = false := by simp [isLowHalf]; omega
  rw [charOfCode, hhigh, hlow]
  exact Char.ofNat_toNat c

/-- A code below those that come in pairs is read by itself, if something follows it. -/
theorem readString_code {a b c d : Char} {n : Nat} (hcode : hexCode? a b c d = some n)
    (hsingle : isHighHalf n = false) (hrest : rest ≠ []) :
    readString start read ('\\' :: 'u' :: a :: b :: c :: d :: rest) =
      readString start (charOfCode n :: read) rest := by
  have hempty : rest.isEmpty = false := by simpa using hrest
  rw [readString, hempty, if_neg Bool.false_ne_true, hcode]
  dsimp only
  split
  · rw [hsingle, if_neg Bool.false_ne_true]
  · rfl

/-! ## Characters -/

/-- The characters that are written as a backslash and one more character. -/
def ownEscapes : Text := "\"\\\n\r\t\x08\x0c".toList

theorem escaped_own :
    ∀ c ∈ ownEscapes, ∃ x ∈ "\"\\nrtbf".toList, escaped c = ['\\', x] ∧ unescaped? x = some c := by
  have hany : ∀ c ∈ ownEscapes, "\"\\nrtbf".toList.any
      (fun x => escaped c == ['\\', x] && unescaped? x == some c) = true := by decide
  intro c hc
  obtain ⟨x, hx, h⟩ := List.any_eq_true.1 (hany c hc)
  rw [Bool.and_eq_true, beq_iff_eq, beq_iff_eq] at h
  exact ⟨x, hx, h⟩

theorem escaped_other {c : Char} (h : c ∉ ownEscapes) :
    escaped c = if c.toNat < 0x20 then "\\u".toList ++ Text.hexCode 4 c.toNat else [c] := by
  have hne : ∀ d ∈ ownEscapes, c ≠ d := fun d hd hcd => h (hcd ▸ hd)
  rw [escaped, if_neg (hne _ (by decide)), if_neg (hne _ (by decide)), if_neg (hne _ (by decide)),
    if_neg (hne _ (by decide)), if_neg (hne _ (by decide)), if_neg (hne _ (by decide)),
    if_neg (hne _ (by decide))]

/-- A backslash and the character after it stand for another character. -/
theorem readString_unescaped {x c : Char} (h : unescaped? x = some c) :
    readString start read ('\\' :: x :: rest) = readString start (c :: read) rest := by
  have hcode : x ≠ 'u' := by
    rintro rfl
    exact nomatch h
  rw [readString, h]
  all_goals simp_all

/-- A character that is no quote, no backslash and no control character stands for itself. -/
theorem readString_plain {c : Char} (hown : c ∉ ownEscapes) (hcontrol : ¬c.toNat < 0x20) :
    readString start read (c :: rest) = readString start (c :: read) rest := by
  have hquote : c ≠ '"' := by
    rintro rfl
    exact hown (by decide)
  have hslash : c ≠ '\\' := by
    rintro rfl
    exact hown (by decide)
  rw [readString, if_neg hcontrol]
  all_goals simp_all

/-- What is written for a character is read back, if something follows it. -/
theorem readString_escaped (c : Char) (hrest : rest ≠ []) :
    readString start read (escaped c ++ rest) = readString start (c :: read) rest := by
  by_cases hown : c ∈ ownEscapes
  · obtain ⟨x, -, hwritten, hx⟩ := escaped_own c hown
    rw [hwritten]
    exact readString_unescaped hx
  · rw [escaped_other hown]
    by_cases hcontrol : c.toNat < 0x20
    · obtain ⟨x, y, z, w, hwritten, hcode⟩ := hexCode?_hexCode c.toNat hcontrol
      have hsingle : isHighHalf c.toNat = false := by simp [isHighHalf]; omega
      rw [if_pos hcontrol, hwritten]
      exact (readString_code hcode hsingle hrest).trans (by rw [charOfCode_toNat hcontrol])
    · rw [if_neg hcontrol]
      exact readString_plain hown hcontrol

/-! ## Strings -/

/-- The characters of a string are read up to its closing quote. -/
theorem readString_flatMap (t : Text) :
    readString start read (t.flatMap escaped ++ '"' :: rest) =
      .ok (read.reverse ++ t, rest) := by
  induction t generalizing read with
  | nil => simp [readString]
  | cons c t ih =>
    rw [List.flatMap_cons, List.append_assoc, readString_escaped c (by simp), ih]
    simp

theorem writeString_append (t rest : Text) :
    writeString t ++ rest = '"' :: (t.flatMap escaped ++ '"' :: rest) := by
  simp [writeString]

/-- A written string is read back. -/
theorem readString_writeString (t : Text) :
    readString start [] (t.flatMap escaped ++ '"' :: rest) = .ok (t, rest) :=
  readString_flatMap t

end SqlLayout.Json
