import SqlLayout.Layout.Format
import SqlLayout.Token.Record

/-!
# Layout without reindentation

Without reindentation the page is the texts of the tokens one after another. Nothing is written in
between, and the tokens that are not dropped do not influence each other.
-/

namespace SqlLayout.Layout

variable {o : Options}

theorem withoutComments_cons (remove : Bool) (t : Token) (ts : List Token) :
    Token.withoutComments remove (t :: ts) =
      if remove && t.kind == .comment then Token.withoutComments remove ts
      else t :: Token.withoutComments remove ts := by
  rw [Token.withoutComments, List.filter_cons]
  cases (remove && t.kind == .comment) <;> rfl

theorem toText_run_plain (h : o.reindent = false) (s : State) (ts : List Token) :
    (run o s ts).page.out.toText =
      s.page.out.toText ++ (Token.withoutComments o.removeComments ts).flatMap (shown o) := by
  induction ts generalizing s with
  | nil => simp [run, Token.withoutComments]
  | cons t ts ih =>
    rw [run, ih, step, withoutComments_cons]
    by_cases hdrop : (o.removeComments && t.kind == .comment) = true
    · rw [if_pos hdrop, if_pos hdrop]
    · rw [if_neg hdrop, if_neg hdrop, h, List.flatMap_cons]
      simp

theorem format_plain (h : o.reindent = false) (ts : List Token) :
    format o ts = (Token.withoutComments o.removeComments ts).flatMap (shown o) := by
  rw [format, toText_run_plain h]
  rfl

/-- A token is written as it stands unless keywords change. -/
theorem shown_plain (h : o.reindent = false) (hu : o.uppercaseKeywords = false) (t : Token) :
    shown o t = t.value := by
  unfold shown
  simp [h, hu]

/-- The default options write the tokens as they are. -/
theorem format_default (ts : List Token) : format {} ts = ts.flatMap (·.value) := by
  rw [format_plain rfl]
  have hkept : Token.withoutComments false ts = ts := by simp [Token.withoutComments]
  have hshown : shown {} = (·.value) := funext fun t => shown_plain rfl rfl t
  rw [hkept, hshown]

end SqlLayout.Layout
