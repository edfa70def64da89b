import SchemaRpc.Proofs.Introspection.Extends
import SchemaRpc.Proofs.Schema.Wire

/-!
# Registries in the making

A registry is made by calls that register procedures and define records and unions, over whatever catalogs, and any of
them may be refused on its way. `Call.ends` is what one call does to a registry, and `sound_calls` what holds after all of
them.
-/

namespace SchemaRpc

open Catalog Introspection Definitions

/-- The names that a procedure has for its params and its response. -/
def Procedure.Names (p : Procedure) (name : String) : Prop :=
  p.params = some name ∨ p.response = some name

namespace Registry

/-- What a registry is asked for while an application is built. -/
inductive Call where
  | register {n : Nat} (catalog : Catalog n) (p : Procedure) (params response : Shape n)
  | define {n : Nat} (catalog : Catalog n) (shape : Shape n)

namespace Call

/-- Whether the registry does as it is asked. -/
def outcome (r : Registry) : Call → Except RegistrationError Unit
  | register catalog p params response => (r.register catalog p params response).1.map fun _ => ()
  | define catalog shape => (r.define catalog shape).1.map fun _ => ()

/-- The registry after a call. -/
def after (r : Registry) : Call → Registry
  | register catalog p params response => (r.register catalog p params response).2
  | define catalog shape => (r.define catalog shape).2

/-- The records and unions that a call leads to, by identity. -/
def Enters : Call → TypeId → Prop
  | register catalog _ params response =>
      Introspection.Enters catalog fun slot => Reaches catalog params slot ∨ Reaches catalog response slot
  | define catalog shape => Introspection.Enters catalog (Reaches catalog shape)

/-- What keeps a call from walking any shape at all. -/
def fault? (r : Registry) : Call → Option RegistrationError
  | register _ p _ _ => r.conflict? p
  | define catalog shape =>
      match definitionName catalog shape with
      | .error error => some error
      | .ok _ => none

end Call

/-- The registry after calls, one after the other. -/
def calls (r : Registry) (made : List Call) : Registry :=
  made.foldl (fun r call => call.after r) r

theorem calls_append (r : Registry) (before later : List Call) (call : Call) :
    calls r (before ++ call :: later) = calls (call.after (calls r before)) later := by
  rw [calls, List.foldl_append]
  rfl

/-- What holds of every registry: the table is sound, and all names of procedures stand in it. -/
structure Sound (r : Registry) : Prop where
  definitions : r.definitions.Sound
  procedures : ∀ entry ∈ r.procedures, ∀ name, entry.2.Names name → r.definitions.contains name = true

theorem sound_empty : Sound {} where
  definitions := Definitions.sound_empty
  procedures := List.forall_mem_nil _

variable {n : Nat} {catalog : Catalog n} {defs : Definitions} {r : Registry} {call : Call}

/-! ## One call -/

theorem moves_introspect (sound : defs.Sound) (p : Procedure) (params response : Shape n) :
    Moves catalog (fun slot => Reaches catalog params slot ∨ Reaches catalog response slot)
      (introspect catalog p params response)
      (fun made defs' => ∀ name, made.Names name → defs'.contains name = true) defs := by
  unfold introspect
  refine ((moves_root ⟨catalog, p.name, .params⟩ sound params).widen ?_).bind fun given between sound _ stands => ?_
  · exact fun slot reaches => .inl reaches
  refine ((moves_root ⟨catalog, p.name, .response⟩ sound response).widen ?_).bind fun given' after sound later stands' => ?_
  · exact fun slot reaches => .inr reaches
  refine (Moves.get sound).bind fun _ _ sound same _ => ?_
  split
  · exact .throw sound
  · refine .pure sound fun name names => same.contains ?_
    rcases names with named | named
    · exact later.contains (stands name named)
    · exact stands' name named

/-- How a call can end. A table that was walked over is sound, and extends the one before by types that the call leads to. -/
inductive Call.Ends (r : Registry) (call : Call) : Except RegistrationError Unit → Registry → Prop
  | fault {error : RegistrationError} :
      call.fault? r = some error →
      Ends r call (.error error) r
  | refused {error : RegistrationError} {defs : Definitions} :
      call.fault? r = none →
      defs.Sound → Extends call.Enters r.definitions defs →
      Ends r call (.error error) ⟨defs, r.procedures⟩
  | registered {p : Procedure} {defs : Definitions} :
      call.fault? r = none →
      defs.Sound → Extends call.Enters r.definitions defs →
      (∀ name, p.Names name → defs.contains name = true) →
      Ends r call (.ok ()) ⟨defs, r.procedures.insert p.name p⟩
  | defined {defs : Definitions} :
      call.fault? r = none →
      defs.Sound → Extends call.Enters r.definitions defs →
      Ends r call (.ok ()) ⟨defs, r.procedures⟩

theorem ends_register (sound : r.definitions.Sound) (catalog : Catalog n) (p : Procedure) (params response : Shape n) :
    Call.Ends r (.register catalog p params response) ((r.register catalog p params response).1.map fun _ => ())
      (r.register catalog p params response).2 := by
  unfold register
  cases conflict : r.conflict? p with
  | some error =>
      exact .fault conflict
  | none =>
      have moves := @moves_introspect n catalog r.definitions sound p params response
      cases ran : (introspect catalog p params response).run.run r.definitions with
      | mk result defs =>
        have soundAfter := moves.sound
        have extension := moves.extension
        rw [ran] at soundAfter extension
        cases result with
        | error error =>
            exact .refused conflict soundAfter extension
        | ok made =>
            exact .registered conflict soundAfter extension (moves.given made defs ran)

theorem ends_define (sound : r.definitions.Sound) (catalog : Catalog n) (shape : Shape n) :
    Call.Ends r (.define catalog shape) ((r.define catalog shape).1.map fun _ => ()) (r.define catalog shape).2 := by
  unfold define
  cases named : definitionName catalog shape with
  | error error =>
      refine .fault ?_
      rw [Call.fault?, named]
  | ok name =>
      have noFault : Call.fault? r (.define catalog shape) = none := by
        rw [Call.fault?, named]
      have moves := moves_root ⟨catalog, name, .definition⟩ sound shape
      dsimp only
      cases ran : (root ⟨catalog, name, .definition⟩ shape).run.run r.definitions with
      | mk result defs =>
        have soundAfter := moves.sound
        have extension := moves.extension
        rw [ran] at soundAfter extension
        cases result with
        | error error =>
            exact .refused noFault soundAfter extension
        | ok made =>
            exact .defined noFault soundAfter extension

theorem Call.ends (sound : r.definitions.Sound) (call : Call) : Ends r call (call.outcome r) (call.after r) := by
  cases call with
  | register catalog p params response =>
      exact ends_register sound catalog p params response
  | define catalog shape =>
      exact ends_define sound catalog shape

theorem Call.Ends.extension {result : Except RegistrationError Unit} {r' : Registry} (ends : call.Ends r result r') :
    Extends call.Enters r.definitions r'.definitions := by
  cases ends with
  | fault =>
      exact .refl
  | refused _ _ extension | registered _ _ extension _ | defined _ _ extension =>
      exact extension

theorem Call.Ends.sound {result : Except RegistrationError Unit} {r' : Registry} (ends : call.Ends r result r')
    (sound : r.Sound) : r'.Sound := by
  have kept : ∀ entry ∈ r.procedures, ∀ name, entry.2.Names name → r'.definitions.contains name = true :=
    fun entry member name names => ends.extension.contains (sound.procedures entry member name names)
  cases ends with
  | fault =>
      exact sound
  | refused _ soundAfter _ | defined _ soundAfter _ =>
      exact ⟨soundAfter, kept⟩
  | registered _ soundAfter _ names =>
      refine ⟨soundAfter, fun entry member => ?_⟩
      rcases Entries.mem_insert member with rfl | member
      · exact names
      · exact kept entry member

/-! ## All calls -/

/-- What every call keeps holds after all of them. -/
theorem calls_induct {invariant : Registry → Prop} {made : List Call}
    (keeps : ∀ call ∈ made, ∀ r, invariant r → invariant (call.after r)) (start : invariant r) :
    invariant (r.calls made) := by
  induction made generalizing r with
  | nil =>
      exact start
  | cons call rest inductionHypothesis =>
      obtain ⟨here, there⟩ := List.forall_mem_cons.1 keeps
      exact inductionHypothesis there (here r start)

theorem sound_calls (sound : r.Sound) (made : List Call) : (r.calls made).Sound :=
  calls_induct (fun call _ _ sound => (call.ends sound.definitions).sound sound) sound

/-! ## What a registry shows -/

theorem validate_eq_ok_iff : r.validate = .ok () ↔ r.definitions.unresolvedRefs = [] := by
  unfold validate
  cases r.definitions.unresolvedRefs with
  | nil =>
      simp
  | cons name names =>
      simp

theorem get?_definitionsOf (sound : r.definitions.Sound) (info : AppInfo) (routePrefix : String) (casing : Casing)
    (name : String) :
    Json.Members.get? name (Schema.definitionsOf (r.toSchema info routePrefix casing)) =
      (r.definitions.get? name).map fun t => t.toSchema casing :=
  @names_toSchema r casing info routePrefix 0 sound.ascending name

end Registry

end SchemaRpc
