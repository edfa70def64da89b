import SchemaRpc.Decimal.Reading
import SchemaRpc.Proofs.Json.Parts
import SchemaRpc.Proofs.TypeDef.Nodes
import SchemaRpc.Timestamp.Basic

/-!
# What a form accepts

`Form.Accepts` is one layer of the meaning of a form: which JSON other than null it takes, given what the definitions
inside it take. The decoder and the schema document are two readings of this one layer.
-/

namespace SchemaRpc

theorem PrimitiveKind.label_injective {kind kind' : PrimitiveKind} (same : kind.label = kind'.label) :
    kind = kind' := by
  have found := PrimitiveKind.ofLabel?_label kind
  rw [same, PrimitiveKind.ofLabel?_label] at found
  exact (Option.some.inj found).symm

/-- The scalars of a kind. Integers of sixty-four bits may also be decimal strings. -/
def PrimitiveKind.Fits (kind : PrimitiveKind) : Json → Prop
  | .bool _ => kind = .boolean
  | .num n => kind.isFloat = true ∨ ∃ i, n = .int i ∧ kind.isInteger = true ∧ kind.inRange i = true
  | .str s =>
      kind = .string ∨ (kind = .timestamp ∧ (Timestamp.ofText? s).isSome = true) ∨
        (kind.isStringified = true ∧ ∃ i, Decimal.readInt? s = some i ∧ kind.inRange i = true)
  | _ => False

variable {τ : Type} {casing : Casing} {takes takes' : τ → Json → Prop}

/-- The member of a property is one its type takes, or is missing where it may be. -/
def Property.Accepts (casing : Casing) (takes : τ → Json → Prop) (members : Json.Members) (p : Property τ) : Prop :=
  match members.get? (casing.apply p.name) with
  | none => p.optional = true
  | some json => takes p.type json

namespace Property

variable {members : Json.Members} {p : Property τ}

theorem accepts_of_missing (missing : members.get? (casing.apply p.name) = none) :
    p.Accepts casing takes members ↔ p.optional = true := by
  simp only [Property.Accepts, missing]

theorem accepts_of_found {json : Json} (found : members.get? (casing.apply p.name) = some json) :
    p.Accepts casing takes members ↔ takes p.type json := by
  simp only [Property.Accepts, found]

theorem Accepts.mono
    (below : ∀ json, members.get? (casing.apply p.name) = some json → takes p.type json → takes' p.type json)
    (accepts : p.Accepts casing takes members) : p.Accepts casing takes' members := by
  cases found : members.get? (casing.apply p.name) with
  | none =>
      rw [accepts_of_missing found] at accepts ⊢
      exact accepts
  | some json =>
      rw [accepts_of_found found] at accepts ⊢
      exact below json found accepts

end Property

namespace Form

/-- The JSON other than null that a form takes when the definitions inside it take what `takes` says. A reference takes
nothing by itself. -/
def Accepts (casing : Casing) (takes : τ → Json → Prop) : Form τ → Json → Prop
  | any, _ => True
  | primitive kind, json => kind.Fits json
  | enumeration listed, json => ∃ s ∈ listed, json = .str s
  | elements item, json => ∃ items, json = .arr items ∧ ∀ part ∈ items, takes item part
  | values item, json => ∃ members, json = .obj members ∧ ∀ part ∈ members.map Prod.snd, takes item part
  | object properties, json =>
      ∃ members, json = .obj members ∧ ∀ p ∈ properties, p.Accepts casing takes members
  | ref _, _ => False
  | union key mapping, json =>
      ∃ members tag properties, json = .obj members ∧
        Json.Members.get? (casing.apply key) members = some (.str tag) ∧
        mapping.lookup tag = some properties ∧ ∀ p ∈ properties, p.Accepts casing takes members

/-- Only what is taken of the parts, by the definitions inside the form, matters to a form. -/
theorem Accepts.mono {form : Form τ} {json : Json}
    (below : ∀ s ∈ form.children, ∀ part ∈ json.parts, takes s part → takes' s part)
    (accepts : form.Accepts casing takes json) : form.Accepts casing takes' json := by
  have property : ∀ members : Json.Members, json = .obj members → ∀ p : Property τ, p.type ∈ form.children →
      p.Accepts casing takes members → p.Accepts casing takes' members := by
    intro members isObject p child
    apply Property.Accepts.mono
    intro part found
    have held : part ∈ json.parts := by
      rw [isObject]
      exact Json.mem_parts_of_get? found
    exact below p.type child part held
  cases form with
  | any =>
      trivial
  | primitive kind =>
      exact accepts
  | enumeration listed =>
      exact accepts
  | elements item =>
      obtain ⟨items, rfl, each⟩ := accepts
      exact ⟨items, rfl, fun part held => below item List.mem_cons_self part held (each part held)⟩
  | values item =>
      obtain ⟨members, rfl, each⟩ := accepts
      exact ⟨members, rfl, fun part held => below item List.mem_cons_self part held (each part held)⟩
  | object properties =>
      obtain ⟨members, isObject, each⟩ := accepts
      exact ⟨members, isObject, fun p declared =>
        property members isObject p (List.mem_map_of_mem declared) (each p declared)⟩
  | ref name =>
      exact accepts
  | union key mapping =>
      obtain ⟨members, tag, properties, isObject, tagged, listed, each⟩ := accepts
      refine ⟨members, tag, properties, isObject, tagged, listed, fun p declared => ?_⟩
      have child : p.type ∈ (union key mapping).children :=
        List.mem_flatMap.2 ⟨_, mem_of_lookup listed, List.mem_map_of_mem declared⟩
      exact property members isObject p child (each p declared)

end Form

end SchemaRpc
