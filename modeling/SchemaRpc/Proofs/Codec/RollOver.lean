import SchemaRpc.Proofs.Codec.Scalars
import SchemaRpc.Proofs.Timestamp.RollOver

/-!
# Values whose leap counts roll over

The JSON of a value does not tell after which second a leap count stands. With every timestamp rolled over, a value has the
same JSON, and each of its timestamps is as its text tells it.
-/

namespace SchemaRpc

namespace Value

mutual

/-- The value with every timestamp rolled over. -/
def rollOver : Value → Value
  | timestamp t => timestamp t.rollOver
  | array items => array (rollOverItems items)
  | map entries => map (rollOverEntries entries)
  | object fields => object (rollOverEntries fields)
  | union tag fields => union tag (rollOverEntries fields)
  | v => v

/-- Items with every timestamp rolled over. -/
def rollOverItems : List Value → List Value
  | [] => []
  | v :: rest => v.rollOver :: rollOverItems rest

/-- Entries or fields with every timestamp rolled over. -/
def rollOverEntries : List (String × Value) → List (String × Value)
  | [] => []
  | (key, v) :: rest => (key, v.rollOver) :: rollOverEntries rest

end

@[simp] theorem isAbsent_rollOver (v : Value) : v.rollOver.isAbsent = v.isAbsent := by
  cases v <;> rfl

theorem keys_rollOverEntries (entries : List (String × Value)) :
    (rollOverEntries entries).map Prod.fst = entries.map Prod.fst := by
  induction entries with
  | nil =>
      rfl
  | cons head tail inductionHypothesis =>
      rw [rollOverEntries, List.map_cons, List.map_cons, inductionHypothesis]

theorem nodesOfItems_rollOverItems {items : List Value}
    (each : ∀ v ∈ items, v.rollOver.nodes = v.nodes.map rollOver) :
    nodesOfItems (rollOverItems items) = (nodesOfItems items).map rollOver := by
  induction items with
  | nil =>
      rfl
  | cons head tail inductionHypothesis =>
      obtain ⟨headNodes, tailNodes⟩ := List.forall_mem_cons.1 each
      rw [rollOverItems, nodesOfItems, nodesOfItems, List.map_append, headNodes, inductionHypothesis tailNodes]

theorem nodesOfEntries_rollOverEntries {entries : List (String × Value)}
    (each : ∀ entry ∈ entries, entry.2.rollOver.nodes = entry.2.nodes.map rollOver) :
    nodesOfEntries (rollOverEntries entries) = (nodesOfEntries entries).map rollOver := by
  induction entries with
  | nil =>
      rfl
  | cons head tail inductionHypothesis =>
      obtain ⟨headNodes, tailNodes⟩ := List.forall_mem_cons.1 each
      rw [rollOverEntries, nodesOfEntries, nodesOfEntries, List.map_append, headNodes, inductionHypothesis tailNodes]

/-- The nodes are rolled over one by one. -/
theorem nodes_rollOver (v : Value) : v.rollOver.nodes = v.nodes.map rollOver := by
  induction v using Value.induct with
  | absent | null =>
      rfl
  | scalar v scalar =>
      cases v <;> first | exact scalar.elim | rfl
  | array items each =>
      simp only [rollOver, nodes, List.map_cons, nodesOfItems_rollOverItems each]
  | map entries each =>
      simp only [rollOver, nodes, List.map_cons, nodesOfEntries_rollOverEntries each]
  | object fields each =>
      simp only [rollOver, nodes, List.map_cons, nodesOfEntries_rollOverEntries each]
  | union tag fields each =>
      simp only [rollOver, nodes, List.map_cons, nodesOfEntries_rollOverEntries each]

theorem everywhere_rollOver {P : Value → Prop} {v : Value} :
    v.rollOver.Everywhere P ↔ v.Everywhere fun s => P s.rollOver := by
  rw [Everywhere, nodes_rollOver, List.forall_mem_map]
  rfl

theorem ascending_rollOverEntries {entries : Entries Value} (ascending : Entries.Ascending entries) :
    Entries.Ascending (rollOverEntries entries) := by
  rw [Codec.ascending_iff_keys] at ascending ⊢
  rw [keys_rollOverEntries]
  exact ascending

theorem stored_rollOver {v : Value} (stored : v.Everywhere Stored) : v.rollOver.Everywhere Stored := by
  refine everywhere_rollOver.2 fun s inside => ?_
  have kept := stored s inside
  cases s with
  | timestamp t =>
      exact Nat.lt_of_le_of_lt (Timestamp.nanos_rollOver_le t) kept
  | map | object | union =>
      exact ascending_rollOverEntries kept
  | absent | null | bool | int | uint | float | str | array | any =>
      trivial

theorem hasProperTime_rollOver {v : Value} (stored : v.Everywhere Stored) (dated : v.Everywhere HasFourDigitYear) :
    v.rollOver.Everywhere HasProperTime := by
  refine everywhere_rollOver.2 fun s inside => ?_
  cases s with
  | timestamp t =>
      have kept : t.nanos < 2 * Timestamp.second := stored _ inside
      have fourDigits : t.HasFourDigitYear := dated _ inside
      exact ⟨Timestamp.proper_rollOver kept, Timestamp.hasFourDigitYear_rollOver fourDigits⟩
  | absent | null | bool | int | uint | float | str | array | map | object | union | any =>
      trivial

end Value

namespace Codec

open Value

variable {c : Codec}

theorem encodeScalar_rollOver {v : Value} (stored : v.Stored) (form : Form TypeDef) (path : String) (scalar : v.IsScalar) :
    encodeScalar v.rollOver form path = encodeScalar v form path := by
  cases v with
  | timestamp t =>
      have sameText := Timestamp.toText_rollOver (t := t) stored
      cases form with
      | primitive kind =>
          cases kind <;> first | rfl | exact congrArg (Except.ok ∘ Json.str) sameText
      | any | enumeration | elements | values | object | ref | union =>
          rfl
  | bool | int | uint | float | str | any =>
      rfl
  | absent | null | array | map | object | union =>
      exact scalar.elim

theorem encodeItems_rollOver {item : TypeDef} {path : String} {depth index : Nat} {items : List Value}
    (each : ∀ v ∈ items, encoder c v.rollOver = encoder c v) :
    encodeItems c item path depth index (rollOverItems items) = encodeItems c item path depth index items := by
  induction items generalizing index with
  | nil =>
      rfl
  | cons head tail inductionHypothesis =>
      obtain ⟨sameHead, sameTail⟩ := List.forall_mem_cons.1 each
      rw [rollOverItems, encodeItems, encodeItems, sameHead, inductionHypothesis sameTail]

theorem encodeEntries_rollOver {item : TypeDef} {path : String} {depth : Nat} {entries : List (String × Value)}
    (each : ∀ entry ∈ entries, encoder c entry.2.rollOver = encoder c entry.2) :
    encodeEntries c item path depth (rollOverEntries entries) = encodeEntries c item path depth entries := by
  induction entries with
  | nil =>
      rfl
  | cons head tail inductionHypothesis =>
      obtain ⟨sameHead, sameTail⟩ := List.forall_mem_cons.1 each
      rw [rollOverEntries, encodeEntries, encodeEntries, sameHead, inductionHypothesis sameTail]

theorem fieldEncoders_rollOver {fields : List (String × Value)}
    (each : ∀ field ∈ fields, encoder c field.2.rollOver = encoder c field.2) :
    fieldEncoders c (rollOverEntries fields) = fieldEncoders c fields := by
  induction fields with
  | nil =>
      rfl
  | cons head tail inductionHypothesis =>
      obtain ⟨sameHead, sameTail⟩ := List.forall_mem_cons.1 each
      rw [rollOverEntries, fieldEncoders, fieldEncoders, isAbsent_rollOver, sameHead, inductionHypothesis sameTail]

/-- What a value is written as, and what it is refused for, does not tell where its leap counts stand. -/
theorem encoder_rollOver {v : Value} : v.Everywhere Stored → encoder c v.rollOver = encoder c v := by
  induction v using Value.induct with
  | absent | null =>
      exact fun _ => rfl
  | scalar v scalar =>
      intro stored
      funext t path depth
      have scalarAgain : v.rollOver.IsScalar := by
        cases v <;> first | exact scalar.elim | trivial
      rw [encoder_scalar scalar, encoder_scalar scalarAgain]
      simp only [encodeScalar_rollOver stored.here _ _ scalar]
  | array items each =>
      intro stored
      funext t path depth
      have same := fun v item => each v item (stored.array v item)
      simp only [rollOver, encoder, encodeItems_rollOver same]
      rfl
  | map entries each =>
      intro stored
      funext t path depth
      have same := fun entry listed => each entry listed (stored.map entry listed)
      simp only [rollOver, encoder, encodeEntries_rollOver same]
      rfl
  | object fields each =>
      intro stored
      funext t path depth
      have same := fun field listed => each field listed (stored.object field listed)
      simp only [rollOver, encoder, fieldEncoders_rollOver same]
      rfl
  | union tag fields each =>
      intro stored
      funext t path depth
      have same := fun field listed => each field listed (stored.union field listed)
      simp only [rollOver, encoder, fieldEncoders_rollOver same]
      rfl

end Codec

end SchemaRpc
