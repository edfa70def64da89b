import SchemaRpc.Proofs.Value.Nodes

/-!
# The depth of a value

Arrays, maps, objects and unions are containers. `Value.depth` counts the most of them around one another: an empty one
counts, and JSON that is carried untouched does not.
-/

namespace SchemaRpc.Value

mutual

/-- The most containers around one another. -/
def depth : Value → Nat
  | array items => depthOfItems items + 1
  | map entries => depthOfEntries entries + 1
  | object fields => depthOfEntries fields + 1
  | union _ fields => depthOfEntries fields + 1
  | _ => 0

/-- The greatest depth of items. -/
def depthOfItems : List Value → Nat
  | [] => 0
  | v :: rest => max v.depth (depthOfItems rest)

/-- The greatest depth of entries or fields. -/
def depthOfEntries : List (String × Value) → Nat
  | [] => 0
  | (_, v) :: rest => max v.depth (depthOfEntries rest)

end

theorem depth_of_isScalar {v : Value} (scalar : v.IsScalar) : v.depth = 0 := by
  cases v <;> first | exact scalar.elim | rfl

theorem depthOfItems_le_iff {items : List Value} {bound : Nat} :
    depthOfItems items ≤ bound ↔ ∀ v ∈ items, v.depth ≤ bound := by
  induction items with
  | nil =>
      simp [depthOfItems]
  | cons v rest inductionHypothesis =>
      rw [depthOfItems, Nat.max_le, inductionHypothesis, List.forall_mem_cons]

theorem depthOfEntries_le_iff {entries : List (String × Value)} {bound : Nat} :
    depthOfEntries entries ≤ bound ↔ ∀ entry ∈ entries, entry.2.depth ≤ bound := by
  induction entries with
  | nil =>
      simp [depthOfEntries]
  | cons entry rest inductionHypothesis =>
      obtain ⟨key, v⟩ := entry
      rw [depthOfEntries, Nat.max_le, inductionHypothesis, List.forall_mem_cons]

theorem depth_of_mem_items {items : List Value} {v : Value} (member : v ∈ items) :
    v.depth + 1 ≤ (array items).depth := by
  rw [depth]
  exact Nat.succ_le_succ (depthOfItems_le_iff.mp (Nat.le_refl _) v member)

theorem depth_le_depthOfEntries {entries : List (String × Value)} {entry : String × Value} (member : entry ∈ entries) :
    entry.2.depth ≤ depthOfEntries entries :=
  depthOfEntries_le_iff.mp (Nat.le_refl _) entry member

/-! ## Within a bound

A value inside so many containers is within a bound when no container of it is deeper. -/

section Within

variable {outer bound : Nat}

/-- One container more, and each of its parts inside it. -/
theorem array_le_iff {items : List Value} :
    outer + (array items).depth ≤ bound ↔ outer + 1 ≤ bound ∧ ∀ v ∈ items, outer + 1 + v.depth ≤ bound := by
  have parts := @depthOfItems_le_iff items (bound - (outer + 1))
  rw [depth]
  constructor
  · intro fits
    refine ⟨by omega, fun v item => ?_⟩
    have := parts.mp (by omega) v item
    omega
  · rintro ⟨room, each⟩
    have := parts.mpr fun v item => Nat.le_sub_of_add_le' (each v item)
    omega

theorem entries_le_iff {entries : List (String × Value)} :
    outer + (depthOfEntries entries + 1) ≤ bound ↔
      outer + 1 ≤ bound ∧ ∀ entry ∈ entries, outer + 1 + entry.2.depth ≤ bound := by
  have parts := @depthOfEntries_le_iff entries (bound - (outer + 1))
  constructor
  · intro fits
    refine ⟨by omega, fun entry listed => ?_⟩
    have := parts.mp (by omega) entry listed
    omega
  · rintro ⟨room, each⟩
    have := parts.mpr fun entry listed => Nat.le_sub_of_add_le' (each entry listed)
    omega

theorem map_le_iff {entries : List (String × Value)} :
    outer + (map entries).depth ≤ bound ↔
      outer + 1 ≤ bound ∧ ∀ entry ∈ entries, outer + 1 + entry.2.depth ≤ bound := by
  rw [depth, entries_le_iff]

theorem object_le_iff {fields : List (String × Value)} :
    outer + (object fields).depth ≤ bound ↔
      outer + 1 ≤ bound ∧ ∀ field ∈ fields, outer + 1 + field.2.depth ≤ bound := by
  rw [depth, entries_le_iff]

theorem union_le_iff {tag : String} {fields : List (String × Value)} :
    outer + (union tag fields).depth ≤ bound ↔
      outer + 1 ≤ bound ∧ ∀ field ∈ fields, outer + 1 + field.2.depth ≤ bound := by
  rw [depth, entries_le_iff]

end Within

end SchemaRpc.Value
