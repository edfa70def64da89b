import SchemaRpc.App.Basic
import SchemaRpc.Proofs.Codec.WireKeys
import SchemaRpc.Proofs.Registry.Invariant

/-!
# Wire keys of registered definitions

Every definition of an application came through the checked constructors, so its declared names are distinct. The keys
on the wire are cased names, and casing may take two names to one key: then one of two fields that are present is lost.
-/

namespace SchemaRpc

namespace App

variable {γ ω β : Type}

/-- The applications that any sequence of registrations gives, refused ones included. -/
inductive Built : App γ ω β → Prop
  | new (options : AppOptions) (hooks : Hooks γ) :
      Built { options, hooks }
  | register {app : App γ ω β} {n : Nat} (catalog : Catalog n) (name : String) (o : ProcedureOptions)
      (params response : Shape n) (endpoint : Endpoint γ ω β) :
      Built app →
      Built (app.register catalog name o params response endpoint).2
  | define {app : App γ ω β} {n : Nat} (catalog : Catalog n) (shape : Shape n) :
      Built app →
      Built (app.define catalog shape).2

theorem definitions_register {n : Nat} (app : App γ ω β) (catalog : Catalog n) (name : String) (o : ProcedureOptions)
    (params response : Shape n) (endpoint : Endpoint γ ω β) :
    (app.register catalog name o params response endpoint).2.registry = app.registry ∨
      ∃ p, (app.register catalog name o params response endpoint).2.registry =
        (app.registry.register catalog p params response).2 := by
  unfold register
  split
  · exact .inl rfl
  · next p _ =>
    refine .inr ⟨p, ?_⟩
    split <;> next registered => rw [registered]

theorem Built.checked {app : App γ ω β} (built : Built app) :
    app.registry.definitions.Everywhere Form.Checked := by
  induction built with
  | new options hooks =>
      exact List.forall_mem_nil _
  | @register app n catalog name o params response endpoint _ inductionHypothesis =>
      rcases definitions_register app catalog name o params response endpoint with same | ⟨p, same⟩
      · rw [same]
        exact inductionHypothesis
      · rw [same]
        exact Registry.invariant_register (Registry.rootsKeep_checked catalog) inductionHypothesis p params response
  | @define app n catalog shape _ inductionHypothesis =>
      exact Registry.invariant_define (Registry.rootsKeep_checked catalog) inductionHypothesis shape

theorem eq_of_dispatcher {app : App γ ω β} {d : Dispatcher γ ω β} (complete : app.dispatcher = .ok d) :
    d = ⟨app.options, app.registry, app.routes, app.hooks⟩ := by
  unfold dispatcher at complete
  cases valid : app.registry.validate with
  | error error =>
      rw [valid] at complete
      cases complete
  | ok _ =>
      rw [valid] at complete
      exact (Except.ok.inj complete).symm

theorem dispatcher_eq_ok {app : App γ ω β} {d : Dispatcher γ ω β} (complete : app.dispatcher = .ok d) :
    d.registry = app.registry ∧ d.options = app.options := by
  rw [eq_of_dispatcher complete]
  exact ⟨rfl, rfl⟩

/-- What is known of the wire keys at one node of a definition. -/
structure WireKeysAt (c : Codec) (s : TypeDef) : Prop where
  /-- Declared names are distinct, and none is that of the discriminator. -/
  checked : s.form.Checked
  /-- Keys are distinct on the wire exactly when casing tells the names apart. -/
  distinct_iff : s.form.WireDistinct c.casing ↔ s.form.CasedApart c.casing
  /-- Names that are written as declared are told apart. -/
  identity : c.casing = .identity → s.form.WireDistinct c.casing
  /-- Nothing that is present is lost exactly when the keys of what is present are distinct. -/
  kept : c.KeepsDistinct s

/-- In every definition of a complete application, two keys coincide on the wire only where casing takes two declared
names to one key, and encoding loses the tag or a present field exactly where that happens. Where casing tells the names
of every object apart, nothing is lost. -/
theorem wireKeys_of_dispatcher {app : App γ ω β} {d : Dispatcher γ ω β} (built : Built app)
    (complete : app.dispatcher = .ok d) :
    (∀ entry ∈ d.registry.definitions.completed, ∀ s ∈ entry.2.nodes, WireKeysAt d.codec s) ∧
      (d.registry.definitions.Everywhere (Form.CasedApart d.codec.casing) →
        ∀ entry ∈ d.registry.definitions.completed, ∀ s ∈ entry.2.nodes, d.codec.KeepsAll s) := by
  obtain ⟨sameRegistry, sameOptions⟩ := dispatcher_eq_ok complete
  have checked : d.registry.definitions.Everywhere Form.Checked := by
    rw [sameRegistry]
    exact built.checked
  constructor
  · intro entry listed s member
    have checkedHere : s.form.Checked := checked entry listed s member
    refine ⟨checkedHere, Form.wireDistinct_iff_casedApart checkedHere, fun identity => ?_, d.codec.keepsDistinct s⟩
    rw [identity]
    exact Form.wireDistinct_identity checkedHere
  · intro apart entry listed s member
    refine Codec.keepsAll_of_wireDistinct fun form reached => ?_
    obtain ⟨target, resolved, rfl⟩ := Codec.target_eq_ok_iff.1 reached
    refine Definitions.resolve_induct (P := fun t => t.form.WireDistinct d.codec.casing) resolved ?_ ?_
    · exact (Form.wireDistinct_iff_casedApart (checked entry listed s member)).2 (apart entry listed s member)
    · intro name body found
      -- a reference is followed into the table, whose bodies are checked as well
      exact (Form.wireDistinct_iff_casedApart (checked.get? found).here).2 (apart.get? found).here

/-! ## Two names for one key -/

/-- A record with two fields whose names differ in style only. -/
def pairCatalog : Catalog 1 :=
  #v[⟨{ id := 0, name := some "Pair" },
    .record [{ name := "user_id", type := .primitive .string }, { name := "userId", type := .primitive .string }]⟩]

/-- An application with one procedure that answers with such a record. -/
def pairApp (casing : Casing) : App Unit Unit Unit :=
  (App.register
    { options := { keyCasing := casing }, hooks := { createContext := fun _ _ => .ok () } }
    pairCatalog "pairs.get" {} .unit (.declared 0)
    (.unary fun _ _ state => (.entered (.returned (.object [])), state))).2

theorem built_pairApp (casing : Casing) : Built (pairApp casing) :=
  .register _ _ _ _ _ _ (.new _ _)

/-- With names as declared, both fields of a pair are kept. -/
theorem wireKeys_of_dispatcher_pair :
    ∃ d, (pairApp .identity).dispatcher = .ok d ∧
      ∀ entry ∈ d.registry.definitions.completed, ∀ s ∈ entry.2.nodes, d.codec.KeepsAll s :=
  ⟨_, rfl, (wireKeys_of_dispatcher (built_pairApp .identity) rfl).2 (by decide +kernel)⟩

/-- In camel case, the one field of a pair is written over the other. -/
theorem pair_field_lost :
    Built (pairApp .camel) ∧
      ∃ d, (pairApp .camel).dispatcher = .ok d ∧
        ¬ d.registry.definitions.Everywhere (Form.WireDistinct d.codec.casing) ∧
        d.codec.encodeJson (.object [("userId", .str "b"), ("user_id", .str "a")]) (.ref "Pair") =
          .ok (.obj [("userId", .str "b")]) :=
  ⟨built_pairApp .camel, _, rfl, by decide +kernel, rfl⟩

end App

end SchemaRpc
