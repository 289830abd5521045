import SqlLayout.Log
import Mathlib.Data.List.TakeWhile

/-!
# The table of loggers

What the functions that change the table of loggers leave of it: which names have loggers, what is
above a logger, which loggers wait for one, and what is kept in mind of them. Each of these is read
of a node and of the table's entry (`Option.elim`), so that one lemma for each change serves all that
it does not touch. Making a logger has four equations (`isLogger_make`, `above?_make`,
`mem_waiting_make`, `passes?_make`), and they are all that is used of it elsewhere.
-/

namespace SqlLayout

/-! ## What is read of a node -/

namespace LogNode

variable {name : Text} {passes : Option Bool} {node : LogNode}

@[simp] theorem isLogger_noted : (node.noted passes).isLogger = node.isLogger := by
  cases node <;> rfl

@[simp] theorem above?_noted : (node.noted passes).above? = node.above? := by
  cases node <;> rfl

@[simp] theorem waiting_noted : (node.noted passes).waiting = node.waiting := by
  cases node <;> rfl

@[simp] theorem passes?_noted_none : (node.noted none).passes? = none := by
  cases node <;> rfl

@[simp] theorem isLogger_adopted : (node.adopted name).isLogger = node.isLogger := by
  cases node <;> rfl

@[simp] theorem waiting_adopted : (node.adopted name).waiting = node.waiting := by
  cases node <;> rfl

@[simp] theorem passes?_adopted : (node.adopted name).passes? = node.passes? := by
  cases node <;> rfl

theorem above?_adopted (h : node.isLogger = true) :
    (node.adopted name).above? = nearer name node.above? := by
  cases node with
  | logger above passes => rfl
  | place below => cases h

theorem nearer_nearer (name : Text) (above : Option Text) :
    nearer name (nearer name above) = nearer name above := by
  unfold nearer
  by_cases h : above.any name.isPrefixOf = true
  · rw [if_pos h, if_pos h]
  · simp [h]

theorem nearer_ne_none (name : Text) (above : Option Text) : nearer name above ≠ none := by
  unfold nearer
  split
  · next h =>
    rintro rfl
    cases h
  · exact Option.some_ne_none name

/-- The logger above is as before, or the new one. -/
theorem nearer_eq (name : Text) (above : Option Text) :
    nearer name above = above ∨ nearer name above = some name := by
  unfold nearer
  split
  · exact .inl rfl
  · exact .inr rfl

end LogNode

namespace Loggers

/-! ## Names above a name -/

/-- A name stands before a dot of another one. -/
def IsAbove (above name : Text) : Prop := ∃ rest, name = above ++ '.' :: rest

variable {ls : Loggers} {name above target m : Text}

theorem IsAbove.length_lt (h : IsAbove above name) : above.length < name.length := by
  obtain ⟨rest, rfl⟩ := h
  simp

theorem isAbove_of_mem_namesAbove {r : Text} (h : above ∈ namesAbove r) :
    IsAbove above r.reverse := by
  fun_induction namesAbove r with
  | case1 c rest ih =>
    rcases List.mem_cons.1 h with rfl | h
    · exact ⟨[], by simp⟩
    · obtain ⟨more, hrest⟩ := ih h
      exact ⟨more ++ [c, '.'], by simp [hrest]⟩
  | case2 x rest _ ih =>
    obtain ⟨more, hrest⟩ := ih h
    exact ⟨more ++ [x], by simp [hrest]⟩
  | case3 => exact absurd h List.not_mem_nil

/-- A search comes to every name before a dot that has no other dot right behind it. -/
theorem mem_namesAbove {u v : Text} (hu : u.getLast? ≠ some '.') (hv : v ≠ []) :
    v.reverse ∈ namesAbove (u ++ '.' :: v) := by
  induction hn : u.length using Nat.strongRecOn generalizing u with
  | ind n ih =>
    subst hn
    cases u with
    | nil =>
      obtain ⟨c, rest, rfl⟩ := List.exists_cons_of_ne_nil hv
      exact List.mem_cons_self
    | cons x u =>
      by_cases hx : x = '.'
      · subst hx
        cases u with
        | nil => exact absurd rfl hu
        | cons c u =>
          -- the dot's own character is passed over together with it
          refine List.mem_cons_of_mem _ (ih u.length (by simp only [List.length_cons]; omega) ?_ rfl)
          intro hlast
          exact hu (by simp [List.getLast?_cons, hlast])
      · have hskip : namesAbove (x :: u ++ '.' :: v) = namesAbove (u ++ '.' :: v) := by
          rw [List.cons_append, namesAbove]
          exact fun c rest h => absurd h hx
        rw [hskip]
        refine ih u.length (by simp) ?_ rfl
        intro hlast
        exact hu (by simp [List.getLast?_cons, hlast])

/-! ## What is read of the table -/

section Reading

variable {β : Type} {d : β} {f : LogNode → β}

theorem elim_set (ls : Loggers) (name : Text) (node : LogNode) (m : Text) :
    ((ls.set name node).find? m).elim d f = if m = name then f node else (ls.find? m).elim d f := by
  unfold set find?
  rw [List.lookup_cons]
  by_cases h : m = name
  · simp [h]
  · simp [h, beq_false_of_ne h]

/-- What a change leaves as it is in a node is read as before. -/
theorem elim_update {g : LogNode → LogNode} (hg : ∀ node, f (g node) = f node) (ls : Loggers)
    (name m : Text) : ((ls.update name g).find? m).elim d f = (ls.find? m).elim d f := by
  unfold update
  cases hname : ls.find? name with
  | none => rfl
  | some node =>
    dsimp only
    rw [elim_set]
    split
    · next h => rw [h, hname, hg, Option.elim_some]
    · rfl

theorem elim_forget (hf : ∀ node, f (node.noted none) = f node) (ls : Loggers) (m : Text) :
    (ls.forget.find? m).elim d f = (ls.find? m).elim d f := by
  unfold forget find?
  generalize ls.nodes = nodes
  induction nodes with
  | nil => rfl
  | cons x nodes ih =>
    obtain ⟨name, node⟩ := x
    rw [List.map_cons, List.lookup_cons, List.lookup_cons]
    cases m == name with
    | true => exact hf node
    | false => exact ih

theorem elim_adopting (hf : ∀ node, f (node.adopted name) = f node) (ls : Loggers)
    (children : List Text) (m : Text) :
    ((children.foldl (adopt name) ls).find? m).elim d f = (ls.find? m).elim d f := by
  induction children generalizing ls with
  | nil => rfl
  | cons child children ih =>
    rw [List.foldl_cons, ih]
    exact elim_update hf ls child m

/-- Only a logger has what is not there by default in a place. -/
theorem elim_of_not_isLogger (hf : ∀ below, f (.place below) = d) (h : ls.isLogger m = false) :
    (ls.find? m).elim d f = d := by
  unfold isLogger at h
  cases hm : ls.find? m with
  | none => rfl
  | some node =>
    rw [hm] at h
    cases node with
    | logger above passes => cases h
    | place below => exact hf below

/-- Places that are kept where there was no logger change nothing of the loggers. -/
theorem elim_reserving (hf : ∀ below, f (.place below) = d) (name : Text) {names : List Text}
    (hnames : ∀ p ∈ names, (ls.find? p).elim d f = d) (m : Text) :
    ((names.foldl (reserve name) ls).find? m).elim d f = (ls.find? m).elim d f := by
  induction names generalizing ls with
  | nil => rfl
  | cons p names ih =>
    obtain ⟨hp, hnames⟩ := List.forall_mem_cons.1 hnames
    have hstep : ∀ m, ((reserve name ls p).find? m).elim d f = (ls.find? m).elim d f := by
      intro m
      unfold reserve
      rw [elim_set]
      split
      · next h => rw [h, hp, hf]
      · rfl
    rw [List.foldl_cons, ih fun q hq => (hstep q).trans (hnames q hq), hstep]

end Reading

theorem isLogger_of_above? (h : ls.above? name = some above) : ls.isLogger name = true := by
  by_contra hnot
  rw [Bool.not_eq_true] at hnot
  rw [above?, elim_of_not_isLogger (fun _ => rfl) hnot] at h
  cases h

/-- Nothing waits for a logger that is there. -/
theorem waiting_of_isLogger (h : ls.isLogger name = true) : ls.waiting name = [] := by
  unfold isLogger at h
  unfold waiting
  cases hname : ls.find? name with
  | none => rfl
  | some node =>
    rw [hname] at h
    cases node with
    | logger above passes => rfl
    | place below => cases h

theorem above?_adopting (hm : ls.isLogger m = true) (name : Text) (children : List Text) :
    (children.foldl (adopt name) ls).above? m =
      if m ∈ children then LogNode.nearer name (ls.above? m) else ls.above? m := by
  induction children generalizing ls with
  | nil => rfl
  | cons child children ih =>
    have hstep : (adopt name ls child).above? m =
        if m = child then LogNode.nearer name (ls.above? m) else ls.above? m := by
      unfold isLogger at hm
      unfold adopt update
      cases hchild : ls.find? child with
      | none =>
        refine (if_neg ?_).symm
        rintro rfl
        rw [hchild] at hm
        cases hm
      | some node =>
        dsimp only
        unfold above?
        rw [elim_set]
        split
        · next h =>
          subst h
          rw [hchild] at hm ⊢
          exact LogNode.above?_adopted hm
        · rfl
    have hkept : (adopt name ls child).isLogger m = true :=
      (elim_update (fun _ => LogNode.isLogger_adopted) ls child m).trans hm
    rw [List.foldl_cons, ih hkept, hstep]
    by_cases h : m = child
    · simp [h, LogNode.nearer_nearer]
    · simp [h]

theorem mem_waiting_reserving {c : Text} {names : List Text} :
    c ∈ (names.foldl (reserve name) ls).waiting m ↔ c ∈ ls.waiting m ∨ c = name ∧ m ∈ names := by
  induction names generalizing ls with
  | nil => simp
  | cons p names ih =>
    have hstep : c ∈ (reserve name ls p).waiting m ↔ c ∈ ls.waiting m ∨ c = name ∧ m = p := by
      unfold reserve waiting
      rw [elim_set]
      split
      · next h => simp [h, LogNode.waiting]
      · next h => simp [h]
    rw [List.foldl_cons, ih, hstep, List.mem_cons, or_assoc, ← and_or_left]

/-! ## Notes on loggers -/

theorem isLogger_note (ls : Loggers) (name : Text) (passes : Bool) (m : Text) :
    (ls.note name passes).isLogger m = ls.isLogger m :=
  elim_update (fun _ => LogNode.isLogger_noted) ls name m

theorem above?_note (ls : Loggers) (name : Text) (passes : Bool) (m : Text) :
    (ls.note name passes).above? m = ls.above? m :=
  elim_update (fun _ => LogNode.above?_noted) ls name m

theorem waiting_note (ls : Loggers) (name : Text) (passes : Bool) (m : Text) :
    (ls.note name passes).waiting m = ls.waiting m :=
  elim_update (fun _ => LogNode.waiting_noted) ls name m

/-- Only what is kept in mind of the logger itself changes. -/
theorem passes?_note (ls : Loggers) (name : Text) (passes : Bool) (m : Text) :
    (ls.note name passes).passes? m = ls.passes? m ∨
      m = name ∧ (ls.note name passes).passes? m = some passes := by
  unfold note update
  cases hname : ls.find? name with
  | none => exact .inl rfl
  | some node =>
    dsimp only
    unfold passes?
    rw [elim_set]
    split
    · next h =>
      subst h
      rw [hname]
      cases node with
      | logger above known => exact .inr ⟨rfl, rfl⟩
      | place below => exact .inl rfl
    · exact .inl rfl

theorem isLogger_forget (ls : Loggers) (m : Text) : ls.forget.isLogger m = ls.isLogger m :=
  elim_forget (fun _ => LogNode.isLogger_noted) ls m

theorem above?_forget (ls : Loggers) (m : Text) : ls.forget.above? m = ls.above? m :=
  elim_forget (fun _ => LogNode.above?_noted) ls m

theorem waiting_forget (ls : Loggers) (m : Text) : ls.forget.waiting m = ls.waiting m :=
  elim_forget (fun _ => LogNode.waiting_noted) ls m

theorem passes?_forget (ls : Loggers) (m : Text) : ls.forget.passes? m = none := by
  unfold passes? forget find?
  generalize ls.nodes = nodes
  induction nodes with
  | nil => rfl
  | cons x nodes ih =>
    obtain ⟨name, node⟩ := x
    rw [List.map_cons, List.lookup_cons]
    cases m == name with
    | true => exact LogNode.passes?_noted_none
    | false => exact ih

/-! ## A logger that is made -/

theorem make_of_isLogger (h : ls.isLogger name = true) : ls.make name = ls := by
  unfold make
  rw [if_pos h]

theorem isLogger_of_mem_passed (h : m ∈ ls.passed name) : ls.isLogger m = false := by
  have hpasses := List.all_takeWhile (p := (!ls.isLogger ·)) (l := namesAbove name.reverse)
  simpa using List.all_eq_true.1 hpasses m h

section Making

variable (hname : ls.isLogger name = false)

include hname

/-- A new logger is there, with the first logger above it that there was. -/
theorem elim_make_self {β : Type} {d : β} {f : LogNode → β} :
    ((ls.make name).find? name).elim d f =
      f (.logger ((namesAbove name.reverse).find? ls.isLogger) none) := by
  unfold make
  rw [hname, if_neg Bool.false_ne_true, elim_set, if_pos rfl]

theorem elim_make {β : Type} {d : β} {f : LogNode → β} (hplace : ∀ below, f (.place below) = d)
    (hf : ∀ node, f (node.adopted name) = f node) (hm : m ≠ name) :
    ((ls.make name).find? m).elim d f = (ls.find? m).elim d f := by
  unfold make
  rw [hname, if_neg Bool.false_ne_true, elim_set, if_neg hm]
  rw [elim_reserving hplace, elim_adopting hf]
  intro p hp
  rw [elim_adopting hf]
  exact elim_of_not_isLogger hplace (isLogger_of_mem_passed hp)

theorem above?_make (hm : ls.isLogger m = true) :
    (ls.make name).above? m =
      if m ∈ ls.waiting name then LogNode.nearer name (ls.above? m) else ls.above? m := by
  have hne : m ≠ name := by
    rintro rfl
    rw [hm] at hname
    cases hname
  rw [← above?_adopting hm]
  unfold make
  rw [hname, if_neg Bool.false_ne_true, above?, elim_set, if_neg hne]
  refine elim_reserving (fun _ => rfl) name ?_ m
  intro p hp
  refine elim_of_not_isLogger (fun _ => rfl) ?_
  exact (elim_adopting (fun _ => LogNode.isLogger_adopted) ls _ p).trans (isLogger_of_mem_passed hp)

theorem mem_waiting_make {c : Text} :
    c ∈ (ls.make name).waiting m ↔
      m ≠ name ∧ (c ∈ ls.waiting m ∨ c = name ∧ m ∈ ls.passed name) := by
  unfold make
  rw [hname, if_neg Bool.false_ne_true, waiting, elim_set]
  split
  · next h =>
    refine iff_of_false List.not_mem_nil ?_
    exact fun hm => hm.1 h
  · next h =>
    have hadopting : ((ls.waiting name).foldl (adopt name) ls).waiting m = ls.waiting m :=
      elim_adopting (fun _ => LogNode.waiting_adopted) ls (ls.waiting name) m
    rw [and_iff_right h, ← waiting, mem_waiting_reserving, hadopting]

end Making

theorem isLogger_make (ls : Loggers) (name m : Text) :
    (ls.make name).isLogger m = true ↔ m = name ∨ ls.isLogger m = true := by
  cases hname : ls.isLogger name with
  | true =>
    rw [make_of_isLogger hname]
    refine ⟨.inr, ?_⟩
    rintro (rfl | h)
    · exact hname
    · exact h
  | false =>
    by_cases hm : m = name
    · subst hm
      exact iff_of_true (elim_make_self hname) (.inl rfl)
    · have hkept : (ls.make name).isLogger m = ls.isLogger m :=
        elim_make hname (fun _ => rfl) (fun _ => LogNode.isLogger_adopted) hm
      rw [hkept, or_iff_right hm]

theorem passes?_make (ls : Loggers) (name m : Text) :
    (ls.make name).passes? m = ls.passes? m := by
  cases hname : ls.isLogger name with
  | true => rw [make_of_isLogger hname]
  | false =>
    by_cases hm : m = name
    · subst hm
      rw [passes?, elim_make_self hname]
      exact (elim_of_not_isLogger (fun _ => rfl) hname).symm
    · exact elim_make hname (fun _ => rfl) (fun _ => LogNode.passes?_adopted) hm

end Loggers

end SqlLayout
