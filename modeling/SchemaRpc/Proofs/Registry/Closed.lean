import SchemaRpc.Proofs.Codec.Settled
import SchemaRpc.Proofs.Definitions.Unresolved
import SchemaRpc.Proofs.Introspection.Root
import SchemaRpc.Proofs.Registry.Calls
import SchemaRpc.Proofs.Schema.Mentions

/-!
# Validated registries

Calls that were refused leave names without a body, and later calls take them for granted. `validate` sees all of them:
once it agrees, every name that the registry gives leads to the body of a record or union, in one step. Coding then comes
upon no open reference, and the schema mentions no name that it does not define.
-/

namespace SchemaRpc

open Definitions

namespace Definitions

variable {defs : Definitions} {name : String}

/-- A name has a body, that of a record or a union. -/
def HasBody (defs : Definitions) (name : String) : Prop :=
  ∃ body, defs.get? name = some body ∧ body.IsBody

/-- A reference to a name with a body leads to that body and no further. -/
theorem HasBody.leadsTo (hasBody : defs.HasBody name) : ∃ body, LeadsTo defs 1 (.ref name) body := by
  obtain ⟨body, found, isBody⟩ := hasBody
  exact ⟨body, .step rfl found (.here isBody.refName?_eq_none)⟩

theorem HasBody.grounded (hasBody : defs.HasBody name) : (Form.ref name).Grounded defs := by
  obtain ⟨body, leads⟩ := hasBody.leadsTo
  exact ⟨body, resolve_eq_ok_iff.2 ⟨1, leads⟩⟩

/-- In a finished table every name has a body. -/
theorem Sound.hasBody (sound : defs.Sound) (finished : defs.unresolvedRefs = []) (present : defs.contains name = true) :
    defs.HasBody name := by
  obtain ⟨entry, found⟩ := Option.isSome_iff_exists.1 present
  have stored := (unresolvedRefs_eq_nil_iff.1 finished).1 (name, entry) (Entries.mem_of_find? found)
  obtain ⟨body, isBody⟩ := Option.ne_none_iff_exists'.1 stored
  have got : defs.get? name = some body := Option.bind_eq_some_iff.2 ⟨entry, found, isBody⟩
  exact ⟨body, got, sound.bodies name body got⟩

theorem Sound.hasBody_of_mem_refs (sound : defs.Sound) (finished : defs.unresolvedRefs = [])
    {entry : String × TypeDef} (completed : entry ∈ defs.completed) (referred : name ∈ entry.2.refs) :
    defs.HasBody name :=
  sound.hasBody finished ((unresolvedRefs_eq_nil_iff.1 finished).2 entry completed name referred)

/-- All references of a finished table end. -/
theorem Sound.everywhere_grounded (sound : defs.Sound) (finished : defs.unresolvedRefs = []) :
    defs.Everywhere (Form.Grounded defs) := by
  intro entry completed t node
  cases form : t.form with
  | ref name =>
      exact (sound.hasBody_of_mem_refs finished completed (TypeDef.mem_refs_of_mem_nodes node form)).grounded
  | _ =>
      trivial

theorem HasBody.everywhere_grounded (hasBody : defs.HasBody name) : (TypeDef.ref name).Everywhere (Form.Grounded defs) :=
  TypeDef.everywhere_iff.2 ⟨hasBody.grounded, List.forall_mem_nil _⟩

end Definitions

namespace Registry

variable {r : Registry}

/-- The names that a registry gives all have bodies. References to the names of procedures end after one step, so that
coding at them ends, and it finds none of the references open that it meets. -/
structure Closed (r : Registry) : Prop where
  procedures : ∀ entry ∈ r.procedures, ∀ name, entry.2.Names name → r.definitions.HasBody name
  references : ∀ entry ∈ r.definitions.completed, ∀ t ∈ entry.2.nodes, ∀ name, t.form = .ref name →
    r.definitions.HasBody name
  ending : ∀ entry ∈ r.procedures, ∀ name, entry.2.Names name → ∃ body, LeadsTo r.definitions 1 (.ref name) body
  decoding : ∀ entry ∈ r.procedures, ∀ name, entry.2.Names name → ∀ casing maxDepth json missing,
    (r.codec casing maxDepth).decodeJson json (.ref name) ≠ .error (.unresolvedRef missing)
  encoding : ∀ entry ∈ r.procedures, ∀ name, entry.2.Names name → ∀ casing maxDepth v missing,
    (r.codec casing maxDepth).encodeJson v (.ref name) ≠ .error (.unresolvedRef missing)
  querying : ∀ entry ∈ r.procedures, ∀ name, entry.2.Names name → ∀ casing maxDepth pairs missing,
    (r.codec casing maxDepth).decodeQuery pairs (.ref name) ≠ .error (.unresolvedRef missing)
  mentions : ∀ info routePrefix casing name, Json.Mentions name (r.toSchema info routePrefix casing) →
    ∃ body : TypeDef, body.IsBody ∧
      Json.Members.get? name (Schema.definitionsOf (r.toSchema info routePrefix casing)) = some (body.toSchema casing)

/-- A registry that validates after calls of any kind, some of them refused, is closed. -/
theorem closed_of_validate (made : List Call) (valid : (calls {} made).validate = .ok ()) : (calls {} made).Closed := by
  have registrySound := sound_calls sound_empty made
  generalize calls {} made = r at *
  have sound : r.definitions.Sound := registrySound.definitions
  have finished : r.definitions.unresolvedRefs = [] := validate_eq_ok_iff.1 valid
  have bodies : r.definitions.Everywhere (Form.Grounded r.definitions) := sound.everywhere_grounded finished
  have named : ∀ entry ∈ r.procedures, ∀ name, entry.2.Names name → r.definitions.HasBody name :=
    fun entry member name names => sound.hasBody finished (registrySound.procedures entry member name names)
  constructor
  case procedures =>
    exact named
  case references =>
    intro entry completed t node name form
    exact sound.hasBody_of_mem_refs finished completed (TypeDef.mem_refs_of_mem_nodes node form)
  case ending =>
    exact fun entry member name names => (named entry member name names).leadsTo
  case decoding =>
    intro entry member name names casing maxDepth json missing
    have ends := (named entry member name names).everywhere_grounded
    exact @Codec.settles_decoder (r.codec casing maxDepth) bodies json _ _ _ ends missing
  case encoding =>
    intro entry member name names casing maxDepth v missing
    have ends := (named entry member name names).everywhere_grounded
    exact @Codec.settles_encoder (r.codec casing maxDepth) bodies v _ _ _ ends missing
  case querying =>
    intro entry member name names casing maxDepth pairs missing
    have ends := (named entry member name names).everywhere_grounded
    exact @Codec.settled_decodeQuery (r.codec casing maxDepth) _ bodies pairs ends missing
  case mentions =>
    intro info routePrefix casing name mentions
    have hasBody : r.definitions.HasBody name := by
      rcases names_of_mentions mentions with ⟨entry, member, names⟩ | ⟨entry, completed, referred⟩
      · exact named entry member name names
      · exact sound.hasBody_of_mem_refs finished completed referred
    obtain ⟨body, found, isBody⟩ := hasBody
    refine ⟨body, isBody, ?_⟩
    rw [get?_definitionsOf sound, found]
    rfl

section Grow

open Introspection

/-- A registration that fails at its response, after its params were entered, and one that takes up what was entered. -/
def growCalls : List Call :=
  [.register treeCatalog { name := "trees.count", path := "/trees/count" } (.declared 0) (.primitive .int32),
    .register treeCatalog { name := "trees.grow", path := "/trees/grow" } (.declared 0) .unit]

theorem closed_of_validate_growCalls :
    growCalls.head?.map (Call.outcome {}) = some (.error (.nonRecordRoot "trees.count" .response "int32")) ∧
      (calls {} growCalls).validate = .ok () ∧ (calls {} growCalls).Closed ∧
      Json.Mentions "Tree" ((calls {} growCalls).toSchema default "" .camel) := by
  have registered : ("trees.grow", { name := "trees.grow", path := "/trees/grow", params := some "Tree" }) ∈
      (calls {} growCalls).procedures := List.mem_singleton_self _
  exact ⟨rfl, rfl, closed_of_validate growCalls rfl, mentions_of_names registered (.inl rfl)⟩

end Grow

end Registry

end SchemaRpc
