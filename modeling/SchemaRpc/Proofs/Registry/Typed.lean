import SchemaRpc.Proofs.Definitions.Unresolved
import SchemaRpc.Proofs.Introspection.Refused
import SchemaRpc.Proofs.Introspection.Root
import SchemaRpc.Proofs.Registry.Calls
import SchemaRpc.Proofs.Registry.Invariant
import SchemaRpc.Typed.Basic

/-!
# Registries over the types of an application

An application registers procedures and models by their types. Whatever it registers, and whatever is refused on the way,
the table stays coherent with the types, and a type that was registered without error keeps the name it got.
-/

namespace SchemaRpc

open Introspection Catalog

variable {n : Nat}

/-! ## Calls over one catalog -/

namespace Registry

variable {catalog : Catalog n} {made : List Call}

/-- A call over this catalog. -/
inductive Call.Uses (catalog : Catalog n) : Call → Prop
  | register (p : Procedure) (params response : Shape n) : Uses catalog (.register catalog p params response)
  | define (shape : Shape n) : Uses catalog (.define catalog shape)

/-- What the walks of all roots keep holds of the table after all calls. -/
theorem invariant_calls {invariant : Definitions → Prop} (roots : RootsKeep invariant catalog)
    (empty : invariant .empty) (uses : ∀ call ∈ made, call.Uses catalog) : invariant (calls {} made).definitions := by
  refine @calls_induct {} (fun r => invariant r.definitions) made (fun call listed r kept => ?_) empty
  cases uses call listed with
  | register p params response =>
      exact invariant_register roots kept p params response
  | define shape =>
      exact invariant_define roots kept shape

theorem coherent_calls (types : catalog.OneTypeEach) (uses : ∀ call ∈ made, call.Uses catalog) :
    Coherent catalog (calls {} made).definitions :=
  invariant_calls (fun procedure role shape => keeps_coherent_root (w := ⟨catalog, procedure, role⟩) types shape)
    coherent_empty uses

theorem checked_calls (uses : ∀ call ∈ made, call.Uses catalog) :
    (calls {} made).definitions.Everywhere Form.Checked :=
  invariant_calls (rootsKeep_checked catalog) (List.forall_mem_nil _) uses

end Registry

/-! ## Registrations -/

/-- What is registered: a procedure with the types of its params and its response, or a type by itself. -/
inductive Registration (n : Nat) where
  | procedure (p : Procedure) (params response : Ty n)
  | model (type : Ty n)

def Registration.call (types : TypeCatalog n) : Registration n → Registry.Call
  | procedure p params response => .register types.shapes p params.shape response.shape
  | model type => .define types.shapes type.shape

namespace TypeCatalog

/-- The registry after registrations, any of which may have been refused. -/
def registry (types : TypeCatalog n) (made : List (Registration n)) : Registry :=
  Registry.calls {} (made.map (Registration.call types))

/-- A registration succeeds on a registry and gives one of its types a name. -/
inductive Registers (types : TypeCatalog n) (r : Registry) : Registration n → Ty n → String → Prop
  | params {p made : Procedure} {params response : Ty n} {name : String} :
      (r.register types.shapes p params.shape response.shape).1 = .ok made → made.params = some name →
      Registers types r (.procedure p params response) params name
  | response {p made : Procedure} {params response : Ty n} {name : String} :
      (r.register types.shapes p params.shape response.shape).1 = .ok made → made.response = some name →
      Registers types r (.procedure p params response) response name
  | model {type : Ty n} {name : String} :
      (r.define types.shapes type.shape).1 = .ok name →
      Registers types r (.model type) type name

variable {types : TypeCatalog n}

theorem uses_registrations (made : List (Registration n)) :
    ∀ call ∈ made.map (Registration.call types), call.Uses types.shapes := by
  refine List.forall_mem_map.2 fun registration _ => ?_
  cases registration with
  | procedure p params response =>
      exact .register p params.shape response.shape
  | model type =>
      exact .define type.shape

theorem coherent_registry (unique : types.shapes.OneTypeEach) (made : List (Registration n)) :
    Coherent types.shapes (types.registry made).definitions :=
  Registry.coherent_calls unique (uses_registrations made)

theorem checked_registry (made : List (Registration n)) :
    (types.registry made).definitions.Everywhere Form.Checked :=
  Registry.checked_calls (uses_registrations made)

/-! ## Names that were given -/

theorem registry_append (before after : List (Registration n)) (made : Registration n) :
    types.registry (before ++ made :: after) =
      Registry.calls ((made.call types).after (types.registry before)) (after.map (Registration.call types)) := by
  rw [registry, List.map_append]
  exact Registry.calls_append {} _ _ _

end TypeCatalog

namespace Registry

variable {catalog : Catalog n} {defs defs' : Definitions}

theorem runs_introspect {p made : Procedure} {params response : Shape n}
    (ran : Runs (introspect catalog p params response) defs made defs') :
    ∃ between, Runs (root ⟨catalog, p.name, .params⟩ params) defs made.params between ∧
      Runs (root ⟨catalog, p.name, .response⟩ response) between made.response defs' := by
  obtain ⟨given, between, ranParams, rest⟩ := runs_bind.1 ran
  obtain ⟨given', after, ranResponse, rest⟩ := runs_bind.1 rest
  obtain ⟨held, _, ranGet, rest⟩ := runs_bind.1 rest
  obtain ⟨rfl, rfl⟩ := runs_get.1 ranGet
  split at rest
  · exact absurd rest not_runs_throw
  · obtain ⟨rfl, rfl⟩ := runs_pure.1 rest
    exact ⟨between, ranParams, ranResponse⟩

theorem runs_of_register {r : Registry} {p made : Procedure} {params response : Shape n}
    (succeeded : (r.register catalog p params response).1 = .ok made) :
    Runs (introspect catalog p params response) r.definitions made
      (r.register catalog p params response).2.definitions := by
  unfold register at succeeded ⊢
  split at succeeded
  · cases succeeded
  · split at succeeded
    · next ran =>
      cases succeeded
      exact ran
    · cases succeeded

theorem runs_of_define {r : Registry} {shape : Shape n} {name : String}
    (succeeded : (r.define catalog shape).1 = .ok name) :
    ∃ given registered, definitionName catalog shape = .ok given ∧ registered.getD given = name ∧
      Runs (root ⟨catalog, given, .definition⟩ shape) r.definitions registered
        (r.define catalog shape).2.definitions := by
  unfold define at succeeded ⊢
  split at succeeded
  · cases succeeded
  · next given fitting =>
    dsimp only at succeeded ⊢
    cases ran : (root ⟨catalog, given, .definition⟩ shape).run.run r.definitions with
    | mk result defs =>
      rw [ran] at succeeded
      cases result with
      | error error =>
          cases succeeded
      | ok registered =>
          exact ⟨given, registered, fitting, Except.ok.inj succeeded, ran⟩

/-- Only a declared type has a name to be defined under. -/
theorem exists_slot_of_definitionName {shape : Shape n} {name : String}
    (fitting : definitionName catalog shape = .ok name) : ∃ slot, shape = .declared slot := by
  cases shape with
  | declared slot =>
      exact ⟨slot, rfl⟩
  | primitive | array | map | optional | nullable | any | unit | unsupported =>
      cases fitting

theorem finished_of_validate {r : Registry} (valid : r.validate = .ok ()) : Finished r.definitions := by
  intro name entry found
  exact (Definitions.unresolvedRefs_eq_nil_iff.1 (validate_eq_ok_iff.1 valid)).1 _ (Entries.mem_of_find? found)

/-- No later call takes a name away. -/
theorem nameOf?_calls {r : Registry} (sound : r.Sound) (made : List Call) {id : TypeId} {name : String}
    (named : r.definitions.nameOf? id = some name) : (calls r made).definitions.nameOf? id = some name := by
  induction made generalizing r with
  | nil =>
      exact named
  | cons call rest inductionHypothesis =>
      have ends := call.ends sound.definitions
      exact inductionHypothesis (ends.sound sound) (ends.extension.names id name named)

end Registry

namespace TypeCatalog

variable {types : TypeCatalog n}

theorem eq_declared_of_shape {type : Ty n} {slot : Fin n} (same : type.shape = .declared slot) :
    type = .declared slot := by
  cases type <;> cases same
  rfl

/-- A type that is registered has its name right after. -/
theorem named_after (unique : types.shapes.OneTypeEach) {r : Registry} (coherent : Coherent types.shapes r.definitions)
    {made : Registration n} {type : Ty n} {name : String} (registers : Registers types r made type name) :
    ∃ slot, type = .declared slot ∧ types.shapes.IsEntered slot ∧
      ((made.call types).after r).definitions.nameOf? (types.shapes.id slot) = some name := by
  cases registers with
  | @params p made params response _ succeeded named =>
      obtain ⟨between, ranParams, ranResponse⟩ := Registry.runs_introspect (Registry.runs_of_register succeeded)
      obtain ⟨stepParams, given⟩ := runs_root (w := ⟨types.shapes, p.name, .params⟩) unique coherent ranParams
      have stepResponse :=
        (runs_root (w := ⟨types.shapes, p.name, .response⟩) unique stepParams.coherent ranResponse).1
      obtain ⟨slot, declared, isEntered, namedBetween⟩ := given name named
      exact ⟨slot, eq_declared_of_shape declared, isEntered, stepResponse.grows.names _ name namedBetween⟩
  | @response p made params response _ succeeded named =>
      obtain ⟨between, ranParams, ranResponse⟩ := Registry.runs_introspect (Registry.runs_of_register succeeded)
      have stepParams := (runs_root (w := ⟨types.shapes, p.name, .params⟩) unique coherent ranParams).1
      obtain ⟨slot, declared, isEntered, namedAfter⟩ :=
        (runs_root (w := ⟨types.shapes, p.name, .response⟩) unique stepParams.coherent ranResponse).2 name named
      exact ⟨slot, eq_declared_of_shape declared, isEntered, namedAfter⟩
  | model succeeded =>
      obtain ⟨given, registered, fitting, rfl, ran⟩ := Registry.runs_of_define succeeded
      obtain ⟨slot, declared⟩ := Registry.exists_slot_of_definitionName fitting
      rw [declared] at ran
      obtain ⟨name, rfl⟩ := exists_name_of_root (w := ⟨types.shapes, given, .definition⟩) unique coherent ran
      obtain ⟨other, same, isEntered, namedAfter⟩ :=
        (runs_root (w := ⟨types.shapes, given, .definition⟩) unique coherent ran).2 name rfl
      cases same
      refine ⟨slot, eq_declared_of_shape declared, isEntered, ?_⟩
      rw [← declared] at namedAfter
      exact namedAfter

/-- A type that was registered keeps its name, whatever is registered afterwards. -/
theorem named_registry (unique : types.shapes.OneTypeEach) {before after : List (Registration n)}
    {made : Registration n} {type : Ty n} {name : String}
    (registers : Registers types (types.registry before) made type name) :
    ∃ slot, type = .declared slot ∧ types.shapes.IsEntered slot ∧
      (types.registry (before ++ made :: after)).definitions.nameOf? (types.shapes.id slot) = some name := by
  obtain ⟨slot, declared, isEntered, named⟩ := named_after unique (coherent_registry unique before) registers
  refine ⟨slot, declared, isEntered, ?_⟩
  rw [registry_append]
  have sound := Registry.sound_calls Registry.sound_empty (before.map (Registration.call types))
  have ends := (made.call types).ends sound.definitions
  exact Registry.nameOf?_calls (ends.sound sound) _ named

end TypeCatalog

end SchemaRpc
