import SchemaRpc.Value

/-!
# The nodes of a value

A value holds others as items, entries and fields. `Value.induct` is the induction over that structure, `nodes` lists
all that a value holds, itself first, and `Everywhere` says something of each of them. `Stored` is how the runtime keeps
values: maps and fields in ascending key order, timestamps within two seconds of the second they name.
-/

namespace SchemaRpc

namespace Value

/-- The value is there and holds no other value. -/
def IsScalar : Value → Prop
  | bool _ | int _ | uint _ | float _ | str _ | timestamp _ | any _ => True
  | _ => False

theorem isScalar_any (json : Json) : (any json).IsScalar :=
  trivial

/-- Induction over a value with the items, entries and fields it holds. -/
theorem induct {P : Value → Prop} (absent : P absent) (null : P null)
    (scalar : ∀ v, IsScalar v → P v)
    (array : ∀ items, (∀ v ∈ items, P v) → P (array items))
    (map : ∀ entries, (∀ entry ∈ entries, P entry.2) → P (map entries))
    (object : ∀ fields, (∀ field ∈ fields, P field.2) → P (object fields))
    (union : ∀ tag fields, (∀ field ∈ fields, P field.2) → P (union tag fields))
    (v : Value) : P v :=
  @Value.rec P (fun items => ∀ v ∈ items, P v) (fun entries => ∀ entry ∈ entries, P entry.2)
    (fun entry => P entry.2) absent null
    (fun b => scalar (.bool b) trivial) (fun n => scalar (.int n) trivial)
    (fun n => scalar (.uint n) trivial) (fun x => scalar (.float x) trivial)
    (fun s => scalar (.str s) trivial) (fun t => scalar (.timestamp t) trivial)
    array map object union (fun json => scalar (.any json) trivial)
    (List.forall_mem_nil _) (fun _ _ head tail => List.forall_mem_cons.2 ⟨head, tail⟩)
    (List.forall_mem_nil _) (fun _ _ head tail => List.forall_mem_cons.2 ⟨head, tail⟩)
    (fun _ _ held => held) v

mutual

/-- A value and all that it holds. -/
def nodes : Value → List Value
  | array items => array items :: nodesOfItems items
  | map entries => map entries :: nodesOfEntries entries
  | object fields => object fields :: nodesOfEntries fields
  | union tag fields => union tag fields :: nodesOfEntries fields
  | v => [v]

/-- The nodes of items. -/
def nodesOfItems : List Value → List Value
  | [] => []
  | v :: rest => v.nodes ++ nodesOfItems rest

/-- The nodes of entries or fields. -/
def nodesOfEntries : List (String × Value) → List Value
  | [] => []
  | (_, v) :: rest => v.nodes ++ nodesOfEntries rest

end

theorem self_mem_nodes (v : Value) : v ∈ v.nodes := by
  cases v <;> simp [nodes]

theorem mem_nodesOfItems {items : List Value} {s : Value} :
    s ∈ nodesOfItems items ↔ ∃ v ∈ items, s ∈ v.nodes := by
  induction items with
  | nil =>
      simp [nodesOfItems]
  | cons head tail inductionHypothesis =>
      simp [nodesOfItems, inductionHypothesis]

theorem mem_nodesOfEntries {entries : List (String × Value)} {s : Value} :
    s ∈ nodesOfEntries entries ↔ ∃ entry ∈ entries, s ∈ entry.2.nodes := by
  induction entries with
  | nil =>
      simp [nodesOfEntries]
  | cons head tail inductionHypothesis =>
      obtain ⟨key, v⟩ := head
      simp [nodesOfEntries, inductionHypothesis]

/-! ## Statements about every node -/

/-- A statement that holds of a value and of all that it holds. -/
def Everywhere (P : Value → Prop) (v : Value) : Prop :=
  ∀ s ∈ v.nodes, P s

instance (P : Value → Prop) [DecidablePred P] (v : Value) : Decidable (v.Everywhere P) :=
  inferInstanceAs (Decidable (∀ s ∈ v.nodes, P s))

namespace Everywhere

variable {P : Value → Prop}

theorem here {v : Value} (everywhere : v.Everywhere P) : P v :=
  everywhere v (self_mem_nodes v)

theorem array {items : List Value} (everywhere : (Value.array items).Everywhere P) :
    ∀ v ∈ items, v.Everywhere P := by
  intro v item s member
  exact everywhere s (List.mem_cons_of_mem _ (mem_nodesOfItems.2 ⟨v, item, member⟩))

theorem map {entries : List (String × Value)} (everywhere : (Value.map entries).Everywhere P) :
    ∀ entry ∈ entries, entry.2.Everywhere P := by
  intro entry listed s member
  exact everywhere s (List.mem_cons_of_mem _ (mem_nodesOfEntries.2 ⟨entry, listed, member⟩))

theorem object {fields : List (String × Value)} (everywhere : (Value.object fields).Everywhere P) :
    ∀ field ∈ fields, field.2.Everywhere P := by
  intro field listed s member
  exact everywhere s (List.mem_cons_of_mem _ (mem_nodesOfEntries.2 ⟨field, listed, member⟩))

theorem union {tag : String} {fields : List (String × Value)}
    (everywhere : (Value.union tag fields).Everywhere P) :
    ∀ field ∈ fields, field.2.Everywhere P := by
  intro field listed s member
  exact everywhere s (List.mem_cons_of_mem _ (mem_nodesOfEntries.2 ⟨field, listed, member⟩))

end Everywhere

section Everywhere

variable {P : Value → Prop}

theorem everywhere_of_isScalar {v : Value} (scalar : v.IsScalar) : v.Everywhere P ↔ P v := by
  have alone : v.nodes = [v] := by
    cases v <;> first | exact scalar.elim | rfl
  rw [Everywhere, alone, List.forall_mem_singleton]

theorem everywhere_array {items : List Value} (here : P (.array items)) :
    (Value.array items).Everywhere P ↔ ∀ v ∈ items, v.Everywhere P := by
  refine ⟨Everywhere.array, fun each => List.forall_mem_cons.2 ⟨here, fun s inside => ?_⟩⟩
  obtain ⟨v, item, inside⟩ := mem_nodesOfItems.1 inside
  exact each v item s inside

theorem forall_mem_nodesOfEntries {entries : List (String × Value)} :
    (∀ s ∈ nodesOfEntries entries, P s) ↔ ∀ entry ∈ entries, entry.2.Everywhere P := by
  constructor
  · intro all entry listed s inside
    exact all s (mem_nodesOfEntries.2 ⟨entry, listed, inside⟩)
  · intro each s inside
    obtain ⟨entry, listed, inside⟩ := mem_nodesOfEntries.1 inside
    exact each entry listed s inside

theorem everywhere_map {entries : List (String × Value)} (here : P (.map entries)) :
    (Value.map entries).Everywhere P ↔ ∀ entry ∈ entries, entry.2.Everywhere P := by
  rw [Everywhere, nodes, List.forall_mem_cons, and_iff_right here, forall_mem_nodesOfEntries]

theorem everywhere_object {fields : List (String × Value)} (here : P (.object fields)) :
    (Value.object fields).Everywhere P ↔ ∀ field ∈ fields, field.2.Everywhere P := by
  rw [Everywhere, nodes, List.forall_mem_cons, and_iff_right here, forall_mem_nodesOfEntries]

theorem everywhere_union {tag : String} {fields : List (String × Value)} (here : P (.union tag fields)) :
    (Value.union tag fields).Everywhere P ↔ ∀ field ∈ fields, field.2.Everywhere P := by
  rw [Everywhere, nodes, List.forall_mem_cons, and_iff_right here, forall_mem_nodesOfEntries]

end Everywhere

/-- How the runtime keeps a value: the entries of a map and the fields of an object or of a union are in ascending key
order, each key once, and a timestamp counts less than two thousand million nanoseconds after its second, whichever
second that is. -/
def Stored : Value → Prop
  | timestamp t => t.nanos < 2 * Timestamp.second
  | map entries => Entries.Ascending entries
  | object fields => Entries.Ascending fields
  | union _ fields => Entries.Ascending fields
  | _ => True

instance : DecidablePred Stored
  | timestamp t => inferInstanceAs (Decidable (t.nanos < 2 * Timestamp.second))
  | map entries => inferInstanceAs (Decidable (List.Pairwise _ entries))
  | object fields => inferInstanceAs (Decidable (List.Pairwise _ fields))
  | union _ fields => inferInstanceAs (Decidable (List.Pairwise _ fields))
  | absent | null | bool _ | int _ | uint _ | float _ | str _ | array _ | any _ =>
      isTrue trivial

end Value

end SchemaRpc
