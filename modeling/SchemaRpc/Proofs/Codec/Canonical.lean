import SchemaRpc.Proofs.Codec.Properties
import SchemaRpc.Proofs.Timestamp.Text

/-!
# Canonical values

Different values may have one encoding; decoding gives the canonical one of them. `canonical` drops fields that are
absent or not declared, gives integers the kind of their place, truncates timestamps to milliseconds, and tells null from
carried null by the definition: null where null is allowed by the flag, carried null elsewhere.
-/

namespace SchemaRpc.Codec

/-- An integer as the kind of its place holds it. -/
def canonicalInteger (n : Int) (kind : PrimitiveKind) : Value :=
  if kind.isFloat then .float (.ofInt n)
  else if kind.isUnsigned then .uint (UInt64.ofNat n.toNat)
  else .int (Int64.ofInt n)

/-- A scalar as its form, if there is one, holds it. -/
def canonicalScalar : Value → Option (Form TypeDef) → Value
  | .int n, some (.primitive kind) => canonicalInteger n.toInt kind
  | .uint n, some (.primitive kind) => canonicalInteger n.toNat kind
  | .timestamp t, _ => .timestamp t.truncate
  | v, _ => v

mutual

/-- The value that decoding gives back for a value that encodes. -/
def canonical (c : Codec) : Value → TypeDef → Value
  | .absent, _ => .absent
  | .null, t => if !t.nullable && isAny t then .any .null else .null
  | .any .null, t => if t.nullable then .null else .any .null
  | .array items, t =>
      match c.target t with
      | .ok (.elements item) => .array (canonicalItems c item items)
      | _ => .array items
  | .map entries, t =>
      match c.target t with
      | .ok (.values item) => .map (canonicalEntries c item entries)
      | _ => .map entries
  | .object fields, t =>
      match c.target t with
      | .ok (.object properties) => .object (canonicalFields c properties fields)
      | _ => .object fields
  | .union tag fields, t =>
      match c.target t with
      | .ok (.union _ mapping) => .union tag (canonicalFields c ((mapping.lookup tag).getD []) fields)
      | _ => .union tag fields
  | v, t => canonicalScalar v (c.target t).toOption

/-- The items of an array. -/
def canonicalItems (c : Codec) (item : TypeDef) : List Value → List Value
  | [] => []
  | v :: rest => canonical c v item :: canonicalItems c item rest

/-- The entries of a map. -/
def canonicalEntries (c : Codec) (item : TypeDef) : List (String × Value) → List (String × Value)
  | [] => []
  | (key, v) :: rest => (key, canonical c v item) :: canonicalEntries c item rest

/-- The declared fields that are present. -/
def canonicalFields (c : Codec) (properties : List (Property TypeDef)) :
    List (String × Value) → List (String × Value)
  | [] => []
  | (name, v) :: rest =>
      match findProperty? name properties with
      | some p =>
          if v.isAbsent then canonicalFields c properties rest
          else (name, canonical c v p.type) :: canonicalFields c properties rest
      | none => canonicalFields c properties rest

end

variable {c : Codec} {t : TypeDef} {properties : List (Property TypeDef)}

theorem canonical_scalar {v : Value} (scalar : v.IsScalar) (notNull : v ≠ .any .null) :
    canonical c v t = canonicalScalar v (c.target t).toOption := by
  cases v with
  | any json =>
      cases json <;> first | exact absurd rfl notNull | rfl
  | bool | int | uint | float | str | timestamp =>
      rfl
  | absent | null | array | map | object | union =>
      exact scalar.elim

theorem isScalar_canonicalInteger (n : Int) (kind : PrimitiveKind) : (canonicalInteger n kind).IsScalar := by
  unfold canonicalInteger
  split
  · trivial
  · split <;> trivial

theorem isScalar_canonicalScalar {v : Value} (scalar : v.IsScalar) (form : Option (Form TypeDef)) :
    (canonicalScalar v form).IsScalar := by
  unfold canonicalScalar
  split
  · exact isScalar_canonicalInteger _ _
  · exact isScalar_canonicalInteger _ _
  · trivial
  · exact scalar

theorem isAbsent_of_isScalar {v : Value} (scalar : v.IsScalar) : v.isAbsent = false := by
  cases v <;> first | exact scalar.elim | rfl

theorem isNull_of_isScalar {v : Value} (scalar : v.IsScalar) : v.isNull = false := by
  cases v <;> first | exact scalar.elim | rfl

/-- A value that is there stays there. -/
theorem isAbsent_canonical (v : Value) (t : TypeDef) : (canonical c v t).isAbsent = v.isAbsent := by
  have scalarCase : ∀ v : Value, v.IsScalar → v ≠ .any .null → (canonical c v t).isAbsent = v.isAbsent := by
    intro v scalar notNull
    rw [canonical_scalar scalar notNull, isAbsent_of_isScalar scalar]
    exact isAbsent_of_isScalar (isScalar_canonicalScalar scalar _)
  cases v with
  | bool | int | uint | float | str | timestamp =>
      exact scalarCase _ trivial nofun
  | any json =>
      by_cases isNull : json = .null
      · subst isNull
        unfold canonical
        split <;> rfl
      · exact scalarCase _ trivial fun equal => isNull (Value.any.inj equal)
  | absent =>
      rfl
  | null | array | map | object | union =>
      unfold canonical
      split <;> rfl

/-! ## The fields that stay -/

theorem findProperty?_of_mem (distinct : (properties.map Property.name).Nodup) {p : Property TypeDef}
    (member : p ∈ properties) : findProperty? p.name properties = some p := by
  induction properties with
  | nil =>
      cases member
  | cons head tail inductionHypothesis =>
      obtain ⟨fresh, distinct⟩ := List.nodup_cons.1 distinct
      rcases List.mem_cons.1 member with rfl | member
      · simp [findProperty?]
      · have different : (head.name == p.name) = false := by
          refine beq_false_of_ne fun same => ?_
          rw [same] at fresh
          exact fresh (List.mem_map_of_mem member)
        rw [findProperty?, List.find?_cons, different]
        exact inductionHypothesis distinct member

theorem keys_canonicalFields_sublist (fields : List (String × Value)) :
    ((canonicalFields c properties fields).map Prod.fst).Sublist (fields.map Prod.fst) := by
  induction fields with
  | nil =>
      exact .slnil
  | cons head tail inductionHypothesis =>
      obtain ⟨name, v⟩ := head
      unfold canonicalFields
      split
      · split
        · exact inductionHypothesis.cons name
        · exact inductionHypothesis.cons_cons name
      · exact inductionHypothesis.cons name

theorem ascending_iff_keys {α : Type} {entries : Entries α} :
    Entries.Ascending entries ↔ (entries.map Prod.fst).Pairwise (· < ·) := by
  rw [List.pairwise_map]
  rfl

theorem ascending_canonicalFields {fields : Entries Value} (ascending : Entries.Ascending fields) :
    Entries.Ascending (canonicalFields c properties fields) := by
  rw [ascending_iff_keys] at ascending ⊢
  exact ascending.sublist (keys_canonicalFields_sublist fields)

/-- A field stays when it is present and declared. -/
theorem find?_canonicalFields {fields : Entries Value} (ascending : Entries.Ascending fields) (name : String) :
    Entries.find? name (canonicalFields c properties fields) =
      (Value.present? name fields).bind fun v =>
        (findProperty? name properties).map fun p => canonical c v p.type := by
  induction fields with
  | nil =>
      rfl
  | cons head tail inductionHypothesis =>
      obtain ⟨k, v⟩ := head
      obtain ⟨first, rest⟩ := List.pairwise_cons.1 ascending
      have later := inductionHypothesis rest
      by_cases same : k = name
      · subst same
        have missing : Entries.find? k (canonicalFields c properties tail) = none := by
          rw [later, Value.present?, Entries.find?_eq_none first]
          rfl
        simp only [canonicalFields]
        cases declared : findProperty? k properties with
        | none =>
            simpa using missing
        | some p =>
            cases absent : v.isAbsent with
            | true =>
                simpa [absent, Value.present?, Option.filter] using missing
            | false =>
                simp [absent, Value.present?, Option.filter]
      · have skipped : Value.present? name ((k, v) :: tail) = Value.present? name tail := by
          rw [Value.present?, Entries.find?_cons, if_neg same, Value.present?]
        rw [skipped, ← later]
        simp only [canonicalFields]
        split
        · split
          · rfl
          · rw [Entries.find?_cons, if_neg same]
        · rfl

/-- A declared field that is present is present in canonical form. -/
theorem present?_canonicalFields {fields : Entries Value} (ascending : Entries.Ascending fields)
    (distinct : (properties.map Property.name).Nodup) {p : Property TypeDef} (member : p ∈ properties) :
    Value.present? p.name (canonicalFields c properties fields) =
      (Value.present? p.name fields).map fun v => canonical c v p.type := by
  rw [Value.present?, find?_canonicalFields ascending, findProperty?_of_mem distinct member]
  cases found : Value.present? p.name fields with
  | none =>
      rfl
  | some v =>
      have there : v.isAbsent = false := by
        have kept := (Option.filter_eq_some_iff.1 found).2
        simpa using kept
      simp [Option.filter, isAbsent_canonical, there]

end SchemaRpc.Codec
