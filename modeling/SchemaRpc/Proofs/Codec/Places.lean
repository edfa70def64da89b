import Mathlib.Data.List.Induction
import SchemaRpc.Codec.Error
import SchemaRpc.Proofs.Decimal.Digits
import SchemaRpc.Proofs.Json.Parts

/-!
# Places in JSON

The path of a complaint is a slash and the segments of a place joined by slashes (`foldl_childPath`). Where no segment
is empty or holds a slash, the path tells the segments (`pathSegments_placePath`), and they can be followed through the
JSON: a decimal index into an array, a key into an object.
-/

namespace SchemaRpc

/-- The text can stand between slashes. -/
def IsSegment (text : String) : Prop :=
  text ≠ "" ∧ '/' ∉ text.toList

instance (text : String) : Decidable (IsSegment text) :=
  inferInstanceAs (Decidable (_ ∧ _))

/-- The path of a place. -/
def placePath (segments : List String) : String :=
  "/" ++ "/".intercalate segments

/-- The segments that a path tells. -/
def pathSegments (path : String) : List String :=
  if path = rootPath then [] else ((path.toList.drop 1).splitOn '/').map String.ofList

section Paths

variable {segments : List String}

theorem toList_placePath (segments : List String) :
    (placePath segments).toList = '/' :: ['/'].intercalate (segments.map String.toList) := by
  simp [placePath, String.toList_append, String.toList_intercalate]

theorem placePath_eq_root_iff (legible : ∀ segment ∈ segments, IsSegment segment) :
    placePath segments = rootPath ↔ segments = [] := by
  constructor
  · intro same
    cases segments with
    | nil =>
        rfl
    | cons segment rest =>
        have texts := congrArg String.toList same
        rw [toList_placePath] at texts
        have filled : segment ≠ "" := (legible segment List.mem_cons_self).1
        cases rest <;> simp [rootPath, filled] at texts
  · rintro rfl
    rfl

theorem pathSegments_placePath (legible : ∀ segment ∈ segments, IsSegment segment) :
    pathSegments (placePath segments) = segments := by
  unfold pathSegments
  split
  · next root =>
    exact ((placePath_eq_root_iff legible).mp root).symm
  · next notRoot =>
    have filled : segments.map String.toList ≠ [] := by
      intro empty
      exact notRoot ((placePath_eq_root_iff legible).mpr (List.map_eq_nil_iff.mp empty))
    have apart : ∀ text ∈ segments.map String.toList, '/' ∉ text :=
      List.forall_mem_map.mpr fun segment member => (legible segment member).2
    rw [toList_placePath, List.drop_one, List.tail_cons, List.splitOn_intercalate '/' apart filled, List.map_map]
    exact (List.map_congr_left fun segment _ => String.ofList_toList).trans (List.map_id segments)

theorem childPath_placePath (legible : ∀ segment ∈ segments, IsSegment segment) (key : String) :
    childPath (placePath segments) key = placePath (segments ++ [key]) := by
  unfold childPath
  by_cases empty : segments = []
  · subst empty
    rw [List.nil_append, placePath, placePath, String.intercalate_singleton]
    rfl
  · have notRoot : (placePath segments == rootPath) = false :=
      beq_false_of_ne fun root => empty ((placePath_eq_root_iff legible).mp root)
    rw [notRoot, placePath, placePath, String.intercalate_append_of_ne_nil empty (List.cons_ne_nil key [])]
    simp [String.append_assoc]

/-- Going down from the root adds the segments one by one. -/
theorem foldl_childPath (legible : ∀ segment ∈ segments, IsSegment segment) :
    segments.foldl childPath rootPath = placePath segments := by
  induction segments using List.reverseRecOn with
  | nil =>
      rfl
  | append_singleton front key inductionHypothesis =>
      have legibleFront := fun segment member => legible segment (List.mem_append_left [key] member)
      rw [List.foldl_append, inductionHypothesis legibleFront, List.foldl_cons, List.foldl_nil,
        childPath_placePath legibleFront]

end Paths

theorem isSegment_index (index : Nat) : IsSegment (toString index) := by
  have digits : (toString index).toList = Nat.toDigits 10 index := Nat.toList_repr
  constructor
  · intro empty
    rw [empty] at digits
    exact Nat.toDigits_ne_nil digits.symm
  · rw [digits]
    intro slash
    exact absurd (Decimal.isDigit_toDigits slash) (by decide)

namespace Json

/-- The part at a segment. -/
def child? (segment : String) : Json → Option Json
  | arr items =>
      match Decimal.readInt? segment with
      | some (.ofNat index) => items[index]?
      | _ => none
  | obj members => Members.get? segment members
  | _ => none

/-- The part at the end of segments. -/
def follow? : List String → Json → Option Json
  | [], json => some json
  | segment :: rest, json => (json.child? segment).bind (follow? rest)

theorem child?_index (items : List Json) (index : Nat) : (arr items).child? (toString index) = items[index]? := by
  rw [child?, Decimal.readInt?_natural]

theorem follow?_append (front rest : List String) (json : Json) :
    json.follow? (front ++ rest) = (json.follow? front).bind (follow? rest) := by
  induction front generalizing json with
  | nil =>
      rfl
  | cons segment front inductionHypothesis =>
      rw [List.cons_append, follow?, follow?, Option.bind_assoc]
      exact Option.bind_congr fun part _ => inductionHypothesis part

/-- All keys can stand in paths. -/
def KeysLegible : Json → Prop
  | obj members => ∀ member ∈ members, IsSegment member.1
  | _ => True

/-- The value is an array or an object. -/
def IsContainer : Json → Prop
  | arr _ | obj _ => True
  | _ => False

end Json

end SchemaRpc
