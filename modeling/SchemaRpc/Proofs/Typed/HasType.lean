import SchemaRpc.Proofs.Keyed
import SchemaRpc.Proofs.Timestamp.Text
import SchemaRpc.Proofs.Typed.Reading
import SchemaRpc.Proofs.Typed.Stands

/-!
# Data of a type

`HasType` tells which data are those of a type, `Everywhere` says something of a datum and of all that it holds. A datum of a
type is absent as a value only where a wrapper takes what is missing, and then it is read back from nothing.
-/

namespace SchemaRpc

variable {n : Nat} {types : TypeCatalog n} {defs : Definitions}

namespace Datum

/-- A datum is one of a type. Floats of single precision are those that rounding leaves alone, and the keys of a map are in
ascending order. -/
inductive HasType (types : TypeCatalog n) : Datum → Ty n → Prop
  | bool {b : Bool} :
      HasType types (.bool b) .bool
  | signed {kind : IntKind} {i : Int64} :
      kind.toPrimitive.isUnsigned = false →
      kind.toPrimitive.inRange i.toInt = true →
      HasType types (.signed i) (.int kind)
  | unsigned {kind : IntKind} {u : UInt64} :
      kind.toPrimitive.isUnsigned = true →
      kind.toPrimitive.inRange u.toNat = true →
      HasType types (.unsigned u) (.int kind)
  | float32 {x : Binary64} :
      x.roundToSingle = x →
      HasType types (.float x) .float32
  | float64 {x : Binary64} :
      HasType types (.float x) .float64
  | string {s : String} :
      HasType types (.string s) .string
  | timestamp {t : Timestamp} :
      HasType types (.timestamp t) .timestamp
  | json {j : Json} :
      HasType types (.json j) .json
  | unit :
      HasType types .unit .unit
  | wide {kind : WideKind} {i : Int} :
      HasType types (.wide i) (.wide kind)
  | list {item : Ty n} {items : List Datum} :
      (∀ d ∈ items, HasType types d item) →
      HasType types (.list items) (.list item)
  | map {item : Ty n} {entries : List (String × Datum)} :
      Entries.Ascending entries →
      (∀ entry ∈ entries, HasType types entry.2 item) →
      HasType types (.map entries) (.map item)
  | optionNull {inner : Ty n} :
      HasType types .null (.option inner)
  | optionPresent {inner : Ty n} {d : Datum} :
      HasType types d inner →
      HasType types (.present d) (.option inner)
  | optionalAbsent {inner : Ty n} :
      HasType types .absent (.optional inner)
  | optionalPresent {inner : Ty n} {d : Datum} :
      HasType types d inner →
      HasType types (.present d) (.optional inner)
  | fieldAbsent {inner : Ty n} :
      HasType types .absent (.field inner)
  | fieldNull {inner : Ty n} :
      HasType types .null (.field inner)
  | fieldPresent {inner : Ty n} {d : Datum} :
      HasType types d inner →
      HasType types (.present d) (.field inner)
  | record {slot : Fin n} {declared : List (FieldDecl (Ty n))} {data : List (String × Datum)} :
      (types.get slot).members = .record declared →
      List.Forall₂ (fun field entry => entry.1 = field.name) declared data →
      (∀ pair ∈ declared.zip data, HasType types pair.2.2 pair.1.type) →
      HasType types (.record data) (.declared slot)
  | variant {slot : Fin n} {key tag : String} {variants : List (VariantDecl (Ty n))} {found : VariantDecl (Ty n)}
      {data : List (String × Datum)} :
      (types.get slot).members = .union key variants →
      variants.find? (fun variant => variant.tag == tag) = some found →
      List.Forall₂ (fun field entry => entry.1 = field.name) found.fields data →
      (∀ pair ∈ found.fields.zip data, HasType types pair.2.2 pair.1.type) →
      HasType types (.variant tag data) (.declared slot)
  | enumeration {slot : Fin n} {s : String} {listed : List String} :
      (types.get slot).members = .enumeration listed →
      s ∈ listed →
      HasType types (.enumeration s) (.declared slot)

/-- What a datum holds directly. -/
def parts : Datum → List Datum
  | list items => items
  | map entries => entries.map Prod.snd
  | present inner => [inner]
  | record fields => fields.map Prod.snd
  | variant _ fields => fields.map Prod.snd
  | _ => []

/-- A statement that holds of a datum, of its parts, and of theirs in turn. -/
inductive Everywhere (P : Datum → Prop) : Datum → Prop where
  | intro {d : Datum} : P d → (∀ part ∈ d.parts, Everywhere P part) → Everywhere P d

theorem Everywhere.here {P : Datum → Prop} {d : Datum} : d.Everywhere P → P d
  | intro held _ => held

theorem Everywhere.parts {P : Datum → Prop} {d : Datum} : d.Everywhere P → ∀ part ∈ d.parts, part.Everywhere P
  | intro _ each => each

theorem Everywhere.alone {P : Datum → Prop} {d : Datum} (simple : d.parts = []) (here : P d) : d.Everywhere P :=
  .intro here (by rw [simple]; exact List.forall_mem_nil _)

theorem Everywhere.and {P Q : Datum → Prop} {d : Datum} (left : d.Everywhere P) :
    d.Everywhere Q → d.Everywhere fun s => P s ∧ Q s := by
  induction left with
  | intro here _ inductionHypothesis =>
      intro right
      exact .intro ⟨here, right.here⟩ fun part member => inductionHypothesis part member (right.parts part member)

/-- A timestamp is a whole number of milliseconds in the years 0 to 9999, less than two seconds after the second it names. -/
def HasWholeTime : Datum → Prop
  | timestamp t => t.nanos < 2 * Timestamp.second ∧ t.HasFourDigitYear ∧ t.truncate = t
  | _ => True

instance : DecidablePred HasWholeTime
  | .timestamp t =>
      inferInstanceAs (Decidable (t.nanos < 2 * Timestamp.second ∧ t.HasFourDigitYear ∧ t.truncate = t))
  | .bool _ | .signed _ | .unsigned _ | .float _ | .string _ | .json _ | .unit | .wide _ | .list _ | .map _ | .null
  | .absent | .present _ | .record _ | .variant _ _ | .enumeration _ => isTrue trivial

/-- A timestamp counts past the end of a second only where a minute ends. -/
def HasLeapInPlace : Datum → Prop
  | timestamp t => Timestamp.second ≤ t.nanos → t.seconds % 60 = 59
  | _ => True

instance : DecidablePred HasLeapInPlace
  | .timestamp t => inferInstanceAs (Decidable (Timestamp.second ≤ t.nanos → t.seconds % 60 = 59))
  | .bool _ | .signed _ | .unsigned _ | .float _ | .string _ | .json _ | .unit | .wide _ | .list _ | .map _ | .null
  | .absent | .present _ | .record _ | .variant _ _ | .enumeration _ => isTrue trivial

theorem pairsToValues_eq_map (entries : List (String × Datum)) :
    pairsToValues entries = entries.map fun entry => (entry.1, entry.2.toValue) := by
  induction entries with
  | nil =>
      rfl
  | cons head tail inductionHypothesis =>
      obtain ⟨name, d⟩ := head
      rw [pairsToValues, List.map_cons, inductionHypothesis]

theorem keys_pairsToValues (entries : List (String × Datum)) :
    (pairsToValues entries).map Prod.fst = entries.map Prod.fst := by
  rw [pairsToValues_eq_map, List.map_map]
  rfl

/-- The value of each entry is found under its key. -/
theorem find?_pairsToValues {data : List (String × Datum)} (distinct : (data.map Prod.fst).Nodup)
    {entry : String × Datum} (member : entry ∈ data) :
    Entries.find? entry.1 (Entries.ofPairs (pairsToValues data)) = some entry.2.toValue := by
  have distinctKeys : ((pairsToValues data).map Prod.fst).Nodup := by
    rw [keys_pairsToValues]
    exact distinct
  rw [Entries.find?_ofPairs distinctKeys]
  refine lookup_of_mem distinctKeys ?_
  rw [pairsToValues_eq_map]
  exact List.mem_map_of_mem member

/-! ## Presence -/

/-- Where nothing may be missing, nothing is. -/
theorem isAbsent_toValue {d : Datum} {ty : Ty n} {form : Form TypeDef} (hasType : HasType types d ty)
    (hasForm : ty.HasForm types defs form) (always : ty.mayMiss = false) : d.toValue.isAbsent = false := by
  induction hasType with
  | unit | wide =>
      cases hasForm
  | optionalAbsent | fieldAbsent | optionalPresent | fieldPresent =>
      cases always
  | optionPresent _ inductionHypothesis =>
      exact inductionHypothesis hasForm.2 hasForm.1
  | _ =>
      rfl

/-- What is absent as a value is read back from nothing. -/
theorem reader_absent {d : Datum} {ty : Ty n} {form : Form TypeDef} (hasType : HasType types d ty)
    (hasForm : ty.HasForm types defs form) (absent : d.toValue.isAbsent = true) : reader types .absent ty = .ok d := by
  by_cases always : ty.mayMiss = false
  · have present := isAbsent_toValue hasType hasForm always
    rw [present] at absent
    cases absent
  · cases hasType with
    | optionalAbsent | fieldAbsent =>
        rfl
    | optionalPresent inside | fieldPresent inside =>
        have present := isAbsent_toValue inside hasForm.2 hasForm.1
        rw [toValue, present] at absent
        cases absent
    | fieldNull =>
        cases absent
    | _ =>
        exact absurd rfl always

end Datum

end SchemaRpc
