import SchemaRpc.Binary64

/-!
# JSON values

Objects keep their members in written order. `Members.set` replaces a member in place or appends it, so a
repeated key takes the last value at the first position; `Members.erase` takes one out.
-/

namespace SchemaRpc

namespace Json

/-- A number: an integer as written, or a double. Texts only give integers from `-2^63` to `2^64 - 1`; a larger
literal is a double. -/
inductive Number where
  | int (n : Int)
  | float (x : Binary64)
  deriving DecidableEq, Inhabited

end Json

inductive Json where
  | null
  | bool (b : Bool)
  | num (n : Json.Number)
  | str (s : String)
  | arr (items : List Json)
  | obj (members : List (String × Json))
  deriving Inhabited

namespace Json

abbrev Members := List (String × Json)

namespace Members

/-- Replaces the member with this key in place, or appends one. -/
def set (key : String) (value : Json) : Members → Members
  | [] => [(key, value)]
  | (k, v) :: rest => if k == key then (key, value) :: rest else (k, v) :: set key value rest

def get? (key : String) (members : Members) : Option Json :=
  members.lookup key

def ofPairs (pairs : List (String × Json)) : Members :=
  pairs.foldl (fun members (key, value) => members.set key value) []

@[simp]
theorem set_nil (key : String) (value : Json) : set key value [] = [(key, value)] := rfl

theorem get?_set_self (key : String) (value : Json) (members : Members) :
    get? key (set key value members) = some value := by
  induction members with
  | nil => simp [get?]
  | cons head tail inductionHypothesis =>
    obtain ⟨k, v⟩ := head
    by_cases same : k = key
    · simp [set, get?, same]
    · have different : (key == k) = false := by simpa using Ne.symm same
      simpa [set, get?, same, List.lookup_cons, different] using inductionHypothesis

theorem get?_set_of_ne {key other : String} (different : other ≠ key) (value : Json) (members : Members) :
    get? other (set key value members) = get? other members := by
  induction members with
  | nil => simp [get?, List.lookup_cons, beq_false_of_ne different]
  | cons head tail inductionHypothesis =>
    obtain ⟨k, v⟩ := head
    by_cases same : k = key
    · subst same
      simp [set, get?, List.lookup_cons, beq_false_of_ne different]
    · by_cases found : other = k
      · simp [set, get?, same, found]
      · simpa [set, get?, same, List.lookup_cons, beq_false_of_ne found] using inductionHypothesis

end Members

def kind : Json → String
  | null => "null"
  | bool _ => "boolean"
  | num _ => "number"
  | str _ => "string"
  | arr _ => "array"
  | obj _ => "object"

def ofInt (n : Int) : Json :=
  num (.int n)

def ofStrings (items : List String) : Json :=
  arr (items.map str)

end Json

end SchemaRpc
