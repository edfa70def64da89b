import SchemaRpc.Proofs.Introspection.Documented
import SchemaRpc.Proofs.Registry.Order
import SchemaRpc.Proofs.Registry.Typed

/-!
# Documentation in the exported schema

Calls over one catalog are made of a registry, some of them refused. Once the registry validates, the exported schema
has the documentation of all that the roots of the other calls lead to, where `Introspection.Documents` says
(`Registry.documents_of_answer`). A union has no place for what its variants say about themselves.
-/

namespace SchemaRpc

open Catalog Introspection

variable {n : Nat} {catalog : Catalog n}

theorem Schema.follow?_definitions {schema node : Json} {name : String}
    (found : Json.Members.get? name (definitionsOf schema) = some node) :
    schema.follow? ["definitions", name] = some node := by
  unfold definitionsOf at found
  split at found
  · split at found
    · next isMember =>
      rw [Json.follow?, Json.child?, isMember]
      exact (Json.follow?_key _ _).trans found
    · cases found
  · cases found

theorem Catalog.not_reaches_of_slots_eq_nil {shape : Shape n} (nothing : shape.slots = []) {slot : Fin n} :
    ¬ Reaches catalog shape slot := by
  intro reaches
  induction reaches with
  | mentioned member =>
      rw [nothing] at member
      cases member
  | field _ _ _ inductionHypothesis =>
      exact inductionHypothesis

namespace Registry

variable {r r' : Registry} {asked : Asked n} {given : Answer}

/-- The call that is made of a registry. -/
def Asked.call (catalog : Catalog n) : Asked n → Call
  | register p params response => .register catalog p params response
  | define shape => .define catalog shape

theorem answer_snd (r : Registry) (asked : Asked n) : (r.answer catalog asked).2 = (asked.call catalog).after r := by
  cases asked <;> rfl

/-- The registry after calls, refused or not. -/
def asking (catalog : Catalog n) (made : List (Asked n)) : Registry :=
  calls {} (made.map (Asked.call catalog))

theorem asking_append (before after : List (Asked n)) (asked : Asked n) :
    asking catalog (before ++ asked :: after) =
      calls ((asking catalog before).answer catalog asked).2 (after.map (Asked.call catalog)) := by
  rw [answer_snd, asking, List.map_append]
  exact calls_append {} _ _ _

/-! ## The table after calls -/

theorem uses_asked (made : List (Asked n)) : ∀ call ∈ made.map (Asked.call catalog), call.Uses catalog := by
  refine List.forall_mem_map.2 fun asked _ => ?_
  cases asked with
  | register p params response =>
      exact .register p params response
  | define shape =>
      exact .define shape

theorem coherent_asking (types : catalog.OneTypeEach) (made : List (Asked n)) :
    Coherent catalog (asking catalog made).definitions :=
  coherent_calls types (uses_asked made)

/-! ## Calls that succeed -/

/-- What the table is and knows after a call that succeeds. -/
structure Answered.Leaves (catalog : Catalog n) (asked : Asked n) (r r' : Registry) : Prop where
  coherent : Coherent catalog r'.definitions
  finished : Finished r.definitions → Finished r'.definitions
  rooted : ∀ shape ∈ asked.shapes, ∃ result, Rooted catalog r'.definitions shape result

theorem Answered.leaves (types : catalog.OneTypeEach) (answered : Answered catalog r asked given r')
    (coherent : Coherent catalog r.definitions) : Answered.Leaves catalog asked r r' := by
  cases answered with
  | @registered p params response _ _ _ _ _ ranParams ranResponse _ =>
      have first := (runs_root (w := ⟨catalog, p.name, .params⟩) types coherent ranParams).1
      have second := (runs_root (w := ⟨catalog, p.name, .response⟩) types first.coherent ranResponse).1
      have rootParams := rooted_of_runs (w := ⟨catalog, p.name, .params⟩) types coherent ranParams
      have rootResponse := rooted_of_runs (w := ⟨catalog, p.name, .response⟩) types first.coherent ranResponse
      refine ⟨second.coherent, fun finished => (finished.step first).step second, ?_⟩
      exact List.forall_mem_cons.2
        ⟨⟨_, rootParams.mono second.grows.names⟩, List.forall_mem_singleton.2 ⟨_, rootResponse⟩⟩
  | @defined shape name _ _ _ ran =>
      have step := (runs_root (w := ⟨catalog, name, .definition⟩) types coherent ran).1
      have root := rooted_of_runs (w := ⟨catalog, name, .definition⟩) types coherent ran
      exact ⟨step.coherent, fun finished => finished.step step, List.forall_mem_singleton.2 ⟨_, root⟩⟩

/-- Calls that all succeed leave nothing open. -/
theorem validate_of_answers (types : catalog.OneTypeEach) {made : List (Asked n)} {all : List Answer}
    (coherent : Coherent catalog r.definitions) (finished : Finished r.definitions)
    (ran : answers catalog r made = .ok (all, r')) :
    r' = calls r (made.map (Asked.call catalog)) ∧ r'.validate = .ok () := by
  induction made generalizing r all with
  | nil =>
      cases ran
      exact ⟨rfl, validate_eq_ok_iff.2 (unresolvedRefs_eq_nil coherent finished)⟩
  | cons asked rest inductionHypothesis =>
      obtain ⟨first, between, later, answered, ranRest, -⟩ := answers_cons_eq_ok_iff.1 ran
      have leaves := (answered_of_answer answered).leaves types coherent
      obtain ⟨rfl, valid⟩ := inductionHypothesis leaves.coherent (leaves.finished finished) ranRest
      have isAfter : between = (asked.call catalog).after r := by
        rw [← answer_snd, answered]
      refine ⟨?_, valid⟩
      rw [isAfter]
      rfl

/-- The records and unions that the root of a call leads to have names once the table is finished. -/
theorem named_of_answer (types : catalog.OneTypeEach) {before after : List (Asked n)}
    (finished : Finished (asking catalog (before ++ asked :: after)).definitions)
    (answered : (asking catalog before).answer catalog asked = (.ok given, r')) {shape : Shape n}
    (isRoot : shape ∈ asked.shapes) {slot : Fin n} (reaches : Reaches catalog shape slot)
    (isEntered : catalog.IsEntered slot) :
    ∃ name, (asking catalog (before ++ asked :: after)).definitions.nameOf? (catalog.id slot) = some name := by
  have leaves := (answered_of_answer answered).leaves types (coherent_asking types before)
  obtain ⟨result, rooted⟩ := leaves.rooted shape isRoot
  cases rooted with
  | unit =>
      exact absurd reaches (not_reaches_of_slots_eq_nil rfl)
  | @entered root name _ named =>
      have sound : r'.Sound := by
        have soundThen := sound_calls sound_empty ((before ++ [asked]).map (Asked.call catalog))
        rw [← asking, asking_append, answered] at soundThen
        exact soundThen
      have namedAfter : (asking catalog (before ++ asked :: after)).definitions.nameOf? (catalog.id root) = some name := by
        rw [asking_append, answered]
        exact nameOf?_calls sound _ named
      exact named_of_reaches (coherent_asking types _) finished namedAfter reaches isEntered

/-- If all calls succeed, the registry validates. If it validates, the schema has the documentation of every record and
union that the root of a call that succeeded leads to, and of their fields, in the nodes of these, and nothing of what
variants say about themselves. -/
theorem documents_of_answer (types : catalog.OneTypeEach) (before after : List (Asked n)) (asked : Asked n) :
    (∀ all r', answers catalog {} (before ++ asked :: after) = .ok (all, r') →
        r' = asking catalog (before ++ asked :: after) ∧ r'.validate = .ok ()) ∧
      ((asking catalog (before ++ asked :: after)).validate = .ok () →
        ∀ given r', (asking catalog before).answer catalog asked = (.ok given, r') →
          ∀ shape ∈ asked.shapes, ∀ slot, Reaches catalog shape slot → catalog.IsEntered slot →
            ∃ name, (asking catalog (before ++ asked :: after)).definitions.nameOf? (catalog.id slot) = some name ∧
              ∀ info routePrefix casing, ∃ node,
                Json.follow? ["definitions", name]
                    ((asking catalog (before ++ asked :: after)).toSchema info routePrefix casing) = some node ∧
                  Documents catalog casing slot node) := by
  refine ⟨fun all r' ran => validate_of_answers types coherent_empty nofun ran, ?_⟩
  intro valid given r' answered shape isRoot slot reaches isEntered
  have finished := finished_of_validate valid
  obtain ⟨name, named⟩ := named_of_answer types finished answered isRoot reaches isEntered
  obtain ⟨body, found, describes⟩ := entry_of_named (coherent_asking types _) finished named
  have got : Definitions.get? _ name = some body := Option.bind_eq_some_iff.2 ⟨_, found, rfl⟩
  have checked := ((checked_calls (uses_asked (before ++ asked :: after))).get? got).here
  refine ⟨name, named, fun info routePrefix casing => ⟨body.toSchema casing, ?_, .of_describesBody describes checked⟩⟩
  refine Schema.follow?_definitions ?_
  rw [get?_definitionsOf (coherent_asking types _).sound, got]
  rfl

section Example

/-- A record with documentation of all kinds, and a union one of whose variants says what it is. -/
def recipeCatalog : Catalog 3 :=
  #v[⟨{ id := 1, name := some "Recipe", description := some "A dish." },
      .record
        [{ name := "kind", type := .optional (.declared 1), deprecated := true },
          { name := "kinds", type := .array (.declared 1), description := some "All kinds." },
          { name := "steps", type := .array (.declared 2) }]⟩,
    ⟨{ id := 2, description := some "What it is eaten as." }, .enumeration ["soup", "dessert"]⟩,
    ⟨{ id := 3, name := some "Step", deprecated := true },
      .union "type"
        [⟨"WAIT", some "Nothing to do.",
          [{ name := "minutes", type := .primitive .uint8, description := some "At least." }]⟩]⟩]

def recipeCall : Asked 3 :=
  .define (.declared 0)

theorem reaches_step : Reaches recipeCatalog (.declared 0) 2 := by
  have isField : Shape.array (.declared 2) ∈ (recipeCatalog.get 0).members.types := by decide
  exact .field (.mentioned (List.mem_singleton_self _)) isField (List.mem_singleton_self _)

theorem documents_of_answer_recipe :
    ∃ node, Json.follow? ["definitions", "Step"]
        ((asking recipeCatalog [recipeCall]).toSchema default "" .camel) = some node ∧
      Documents recipeCatalog .camel 2 node := by
  have types : recipeCatalog.OneTypeEach := by decide
  obtain ⟨name, named, shown⟩ := (documents_of_answer types [] [] recipeCall).2 rfl _ _ rfl (.declared 0)
    (List.mem_singleton_self _) 2 reaches_step rfl
  cases named.symm.trans (by rfl : _ = some "Step")
  exact shown default "" .camel

/-- What the variant says about itself is not in the schema. -/
theorem variant_left_out :
    ¬ ∀ (n : Nat) (catalog : Catalog n), catalog.OneTypeEach →
        ∀ asked given r, ({} : Registry).answer catalog asked = (.ok given, r) →
          ∀ shape ∈ asked.shapes, ∀ slot, Reaches catalog shape slot →
            ∀ name, r.definitions.nameOf? (catalog.id slot) = some name →
              ∀ key variants, (catalog.get slot).members = .union key variants →
                ∀ variant ∈ variants,
                  Json.follow? ["definitions", name, "mapping", variant.tag, "metadata", "description"]
                    (r.toSchema default "" .camel) = variant.description.map .str := by
  intro documented
  have shown := documented 3 recipeCatalog (by decide) recipeCall _ _ rfl (.declared 0) (List.mem_singleton_self _) 2
    reaches_step "Step" rfl _ _ rfl _ (List.mem_singleton_self _)
  exact absurd (congrArg Option.isSome shown) (by decide)

end Example

end Registry

end SchemaRpc
