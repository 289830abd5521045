import SqlLayout.Json.Binary64
import SqlLayout.Text.Printable

/-!
# Values of a data format

The values that a JSON document may hold. The members of an object stand in the order in which
their keys first came; a key that comes again replaces the value and keeps its place.
-/

namespace SqlLayout

/-- A value. -/
inductive Json where
  | null
  | bool (b : Bool)
  | int (n : Int)
  | float (x : Binary64)
  | string (t : Text)
  | array (items : List Json)
  | object (members : List (Text × Json))
deriving Inhabited, Repr

namespace Json

/-- Sets a member: in its old place if the key is there, else at the end. -/
def put (key : Text) (value : Json) : List (Text × Json) → List (Text × Json)
  | [] => [(key, value)]
  | (k, v) :: rest => if k = key then (key, value) :: rest else (k, v) :: put key value rest

/-- The members of an object whose keys are written in the given order. -/
def membersOf (pairs : List (Text × Json)) : List (Text × Json) :=
  pairs.foldl (fun members (k, v) => put k v members) []

/-- The value of a member. -/
def member? (key : Text) (members : List (Text × Json)) : Option Json := members.lookup key

/-- A member that was set has its new value. -/
theorem member?_put_self (key : Text) (value : Json) (members : List (Text × Json)) :
    member? key (put key value members) = some value := by
  induction members with
  | nil => simp [member?, put]
  | cons m rest ih =>
    obtain ⟨k, v⟩ := m
    by_cases h : k = key
    · simp [member?, put, h]
    · have hne : (key == k) = false := by simpa using fun e => h e.symm
      rw [put, if_neg h, member?, List.lookup_cons, hne]
      exact ih

/-- Setting a member leaves the others as they are. -/
theorem member?_put_of_ne {key other : Text} (h : other ≠ key) (value : Json)
    (members : List (Text × Json)) :
    member? other (put key value members) = member? other members := by
  have hne : (other == key) = false := by simpa using h
  induction members with
  | nil => simp [member?, put, h]
  | cons m rest ih =>
    obtain ⟨k, v⟩ := m
    by_cases hk : k = key
    · simp [member?, put, hk, List.lookup_cons, hne]
    · rw [put, if_neg hk, member?, member?, List.lookup_cons, List.lookup_cons]
      cases other == k
      · exact ih
      · rfl

/-- Texts joined by a separator. -/
def joined (separator : Text) (parts : List Text) : Text := separator.intercalate parts

/-! ## Values in diagnostics -/

mutual

/-- A value as diagnostics show it. -/
def diagnostic : Json → Text
  | .null => "None".toList
  | .bool true => "True".toList
  | .bool false => "False".toList
  | .int n => Text.ofInt n
  | .float x => x.toText
  | .string t => Text.quoted t
  | .array items => '[' :: joined ", ".toList (itemDiagnostics items) ++ [']']
  | .object members => '\x7b' :: joined ", ".toList (memberDiagnostics members) ++ ['\x7d']

/-- Values of an array as diagnostics show them. -/
def itemDiagnostics : List Json → List Text
  | [] => []
  | v :: rest => diagnostic v :: itemDiagnostics rest

/-- Members of an object as diagnostics show them. -/
def memberDiagnostics : List (Text × Json) → List Text
  | [] => []
  | (k, v) :: rest => (Text.quoted k ++ ": ".toList ++ diagnostic v) :: memberDiagnostics rest

end

end Json

end SqlLayout
