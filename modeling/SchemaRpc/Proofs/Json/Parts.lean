import SchemaRpc.Proofs.Keyed

/-!
# The parts of a JSON value

An array holds its items and an object the values of its members: these are the parts of the value. `Json.induct` is the
induction over parts, and `depth` counts the containers around one another.
-/

namespace SchemaRpc.Json

/-- What a value holds directly. -/
def parts : Json → List Json
  | arr items => items
  | obj members => members.map Prod.snd
  | _ => []

theorem mem_parts_of_get? {key : String} {members : Members} {json : Json}
    (found : members.get? key = some json) : json ∈ (obj members).parts := by
  rw [Members.get?_eq_find?] at found
  exact List.mem_map_of_mem (Entries.mem_of_find? found)

/-- Induction over a value with its parts. -/
theorem induct {P : Json → Prop} (step : ∀ json : Json, (∀ part ∈ json.parts, P part) → P json)
    (json : Json) : P json :=
  @Json.rec P (fun items => ∀ part ∈ items, P part)
    (fun members => ∀ part ∈ members.map Prod.snd, P part) (fun member => P member.2)
    (step .null (List.forall_mem_nil _)) (fun b => step (.bool b) (List.forall_mem_nil _))
    (fun n => step (.num n) (List.forall_mem_nil _)) (fun s => step (.str s) (List.forall_mem_nil _))
    (fun items each => step (.arr items) each) (fun members each => step (.obj members) each)
    (List.forall_mem_nil _) (fun _ _ head tail => List.forall_mem_cons.2 ⟨head, tail⟩)
    (List.forall_mem_nil _) (fun _ _ head tail => List.forall_mem_cons.2 ⟨head, tail⟩)
    (fun _ _ held => held) json

/-- A statement that holds of a value, of its parts, and of theirs in turn. -/
inductive Everywhere (P : Json → Prop) : Json → Prop where
  | intro {json : Json} : P json → (∀ part ∈ json.parts, Everywhere P part) → Everywhere P json

theorem Everywhere.here {P : Json → Prop} {json : Json} : json.Everywhere P → P json
  | intro held _ => held

theorem Everywhere.parts {P : Json → Prop} {json : Json} : json.Everywhere P → ∀ part ∈ json.parts, part.Everywhere P
  | intro _ each => each

theorem Everywhere.mono {P Q : Json → Prop} {json : Json} (below : ∀ json, P json → Q json)
    (everywhere : json.Everywhere P) : json.Everywhere Q := by
  induction everywhere with
  | intro held _ inductionHypothesis =>
      exact .intro (below _ held) inductionHypothesis

/-- How JSON is kept: a number is an integer of sixty-four bits, signed or not, or a finite double, and an object has each
key once. -/
def Stored : Json → Prop
  | num (.int n) => -2 ^ 63 ≤ n ∧ n < 2 ^ 64
  | num (.float x) => x.isFinite = true
  | obj members => (members.map Prod.fst).Nodup
  | _ => True

mutual

/-- The most containers around one another. -/
def depth : Json → Nat
  | arr items => depthOfItems items + 1
  | obj members => depthOfMembers members + 1
  | _ => 0

/-- The greatest depth of items. -/
def depthOfItems : List Json → Nat
  | [] => 0
  | json :: rest => max json.depth (depthOfItems rest)

/-- The greatest depth of members. -/
def depthOfMembers : List (String × Json) → Nat
  | [] => 0
  | (_, json) :: rest => max json.depth (depthOfMembers rest)

end

theorem depthOfItems_le_iff {items : List Json} {bound : Nat} :
    depthOfItems items ≤ bound ↔ ∀ json ∈ items, json.depth ≤ bound := by
  induction items with
  | nil =>
      simp [depthOfItems]
  | cons json rest inductionHypothesis =>
      rw [depthOfItems, Nat.max_le, inductionHypothesis, List.forall_mem_cons]

theorem depthOfMembers_le_iff {members : Members} {bound : Nat} :
    depthOfMembers members ≤ bound ↔ ∀ json ∈ members.map Prod.snd, json.depth ≤ bound := by
  induction members with
  | nil =>
      simp [depthOfMembers]
  | cons member rest inductionHypothesis =>
      obtain ⟨key, json⟩ := member
      rw [depthOfMembers, Nat.max_le, inductionHypothesis, List.map_cons, List.forall_mem_cons]

theorem depth_le_depthOfItems {items : List Json} {json : Json} (member : json ∈ items) :
    json.depth ≤ depthOfItems items :=
  depthOfItems_le_iff.1 (Nat.le_refl _) json member

theorem depth_le_depthOfMembers {members : Members} {json : Json} (member : json ∈ members.map Prod.snd) :
    json.depth ≤ depthOfMembers members :=
  depthOfMembers_le_iff.1 (Nat.le_refl _) json member

theorem depth_of_mem_parts {json part : Json} (held : part ∈ json.parts) : part.depth + 1 ≤ json.depth := by
  cases json with
  | arr items =>
      rw [depth]
      exact Nat.succ_le_succ (depth_le_depthOfItems held)
  | obj members =>
      rw [depth]
      exact Nat.succ_le_succ (depth_le_depthOfMembers held)
  | null | bool | num | str =>
      cases held

end SchemaRpc.Json
