import SchemaRpc.Proofs.Definitions.Unresolved
import SchemaRpc.Proofs.Registry.Calls

/-!
# Refused calls

Nothing is taken back when a call is refused on its way. The procedures and all that is in the table stay as they are, but
entries may have been added for types that the call leads to: bodies of those that were finished, and bare reservations of
those that were not. A reservation without a body is never filled again, so that no registry with one ever validates.
-/

namespace SchemaRpc

open Definitions

namespace Registry

variable {r : Registry} {call : Call} {error : RegistrationError}

/-- The procedures in the schema of an application. -/
def proceduresOf : Json → Option Json
  | .obj members => Json.Members.get? "procedures" members
  | _ => none

theorem proceduresOf_toSchema (info : AppInfo) (routePrefix : String) (casing : Casing) :
    proceduresOf (r.toSchema info routePrefix casing) = some (.obj (r.procedures.map fun (name, p) => (name, p.toSchema))) := by
  unfold toSchema proceduresOf
  cases routePrefix.isEmpty <;> simp [Json.Members.get?, List.lookup_cons]

/-- What a refused call leaves of a registry. -/
structure Leaves (call : Call) (error : RegistrationError) (r r' : Registry) : Prop where
  procedures : r'.procedures = r.procedures
  extension : Extends call.Enters r.definitions r'.definitions
  bodies : ∀ name body, r'.definitions.get? name = some body → body.IsBody
  /-- A call at fault changes nothing, nor does one that leads to no type without a name. -/
  unchanged : (call.fault? r = some error ∨ ∀ id, call.Enters id → r.definitions.nameOf? id ≠ none) →
    r' = r ∧ call.outcome r' = .error error
  exportedProcedures : ∀ info routePrefix casing,
    proceduresOf (r'.toSchema info routePrefix casing) = proceduresOf (r.toSchema info routePrefix casing)
  exportedDefinitions : ∀ info routePrefix casing name document,
    Json.Members.get? name (Schema.definitionsOf (r.toSchema info routePrefix casing)) = some document →
      Json.Members.get? name (Schema.definitionsOf (r'.toSchema info routePrefix casing)) = some document
  /-- Documents are added for types that the call leads to and that had no name. -/
  exportedBesides : ∀ info routePrefix casing name document,
    Json.Members.get? name (Schema.definitionsOf (r'.toSchema info routePrefix casing)) = some document →
      Json.Members.get? name (Schema.definitionsOf (r.toSchema info routePrefix casing)) = none →
        ∃ id, call.Enters id ∧ r.definitions.nameOf? id = none ∧ r'.definitions.nameOf? id = some name
  /-- A reservation that is left without a body keeps the registry from validating, whatever is called later. -/
  blocked : ∀ name owner later, r'.definitions.entry? name = some ⟨none, owner⟩ → (calls r' later).validate ≠ .ok ()

/-- No later call touches an entry. -/
theorem entry?_calls (sound : r.Sound) (made : List Call) {name : String} {entry : Definitions.Entry}
    (found : r.definitions.entry? name = some entry) : (calls r made).definitions.entry? name = some entry := by
  induction made generalizing r with
  | nil =>
      exact found
  | cons call rest inductionHypothesis =>
      have ends := call.ends sound.definitions
      exact inductionHypothesis (ends.sound sound) (ends.extension.entries name entry found)

theorem validate_ne_ok (reserved : ∃ name owner, r.definitions.entry? name = some ⟨none, owner⟩) : r.validate ≠ .ok () := by
  intro valid
  obtain ⟨name, owner, found⟩ := reserved
  have finished := validate_eq_ok_iff.1 valid
  exact (unresolvedRefs_eq_nil_iff.1 finished).1 _ (Entries.mem_of_find? found) rfl

theorem Call.Ends.procedures_of_error {r' : Registry} (ends : call.Ends r (.error error) r') :
    r'.procedures = r.procedures := by
  cases ends with
  | fault | refused =>
      rfl

theorem Call.Ends.eq_of_fault {result : Except RegistrationError Unit} {r' : Registry} (ends : call.Ends r result r')
    (fault : call.fault? r = some error) : r' = r := by
  cases ends with
  | fault =>
      rfl
  | refused none | registered none | defined none =>
      rw [none] at fault
      cases fault

/-- A refused call leaves what `Leaves` says, in every registry that calls make. -/
theorem leaves_of_refused (made : List Call) (call : Call) (error : RegistrationError)
    (refused : call.outcome (calls {} made) = .error error) :
    Leaves call error (calls {} made) (call.after (calls {} made)) := by
  have sound := sound_calls sound_empty made
  generalize calls {} made = r at *
  have ends := call.ends sound.definitions
  have extension := ends.extension
  have soundAfter := ends.sound sound
  have procedures : (call.after r).procedures = r.procedures := by
    rw [refused] at ends
    exact ends.procedures_of_error
  constructor
  case procedures =>
    exact procedures
  case extension =>
    exact extension
  case bodies =>
    exact soundAfter.definitions.bodies
  case unchanged =>
    intro reason
    have same : call.after r = r := by
      rcases reason with fault | named
      · exact ends.eq_of_fault fault
      · exact congrArg₂ Registry.mk (extension.same named) procedures
    rw [same]
    exact ⟨rfl, refused⟩
  case exportedProcedures =>
    intro info routePrefix casing
    rw [proceduresOf_toSchema, proceduresOf_toSchema, procedures]
  case exportedDefinitions =>
    intro info routePrefix casing name document shown
    rw [get?_definitionsOf sound.definitions] at shown
    rw [get?_definitionsOf soundAfter.definitions]
    obtain ⟨body, found, shown⟩ := Option.map_eq_some_iff.1 shown
    rw [extension.get? found]
    exact congrArg some shown
  case exportedBesides =>
    intro info routePrefix casing name document shown missing
    rw [get?_definitionsOf soundAfter.definitions] at shown
    rw [get?_definitionsOf sound.definitions, Option.map_eq_none_iff] at missing
    obtain ⟨body, found, -⟩ := Option.map_eq_some_iff.1 shown
    obtain ⟨entry, present, stored⟩ := Option.bind_eq_some_iff.1 found
    have new : r.definitions.entry? name = none := by
      cases before : r.definitions.entry? name with
      | none =>
          rfl
      | some entry' =>
          -- an entry from before has its body from before
          have kept := extension.entries name entry' before
          rw [present] at kept
          cases kept
          have stored' : r.definitions.get? name = some body := Option.bind_eq_some_iff.2 ⟨entry, before, stored⟩
          rw [missing] at stored'
          cases stored'
    obtain ⟨id, enters, owned, unnamed⟩ := extension.added name entry present new
    obtain ⟨id', owned', named⟩ := soundAfter.definitions.owned name entry present
    rw [owned] at owned'
    cases owned'
    exact ⟨id, enters, unnamed, named⟩
  case blocked =>
    intro name owner later found
    exact validate_ne_ok ⟨name, owner, entry?_calls soundAfter later found⟩

/-- A record that cannot be entered for its second field, after its first one was. -/
def holderCatalog : Catalog 2 :=
  #v[⟨{ id := 0, name := some "Holder" },
      .record [{ name := "leaf", type := .declared 1 }, { name := "big", type := .unsupported "i128" }]⟩,
    ⟨{ id := 1, name := some "Leaf" }, .record [{ name := "text", type := .primitive .string }]⟩]

def holderCall : Call :=
  .define holderCatalog (.declared 0)

theorem leaves_of_refused_holder :
    holderCall.outcome (calls {} []) = .error (.unsupported "i128" "/big") ∧
      Leaves holderCall (.unsupported "i128" "/big") {} (holderCall.after {}) ∧
      (holderCall.after {}).definitions.entry? "Holder" = some ⟨none, some 0⟩ ∧
      (calls (holderCall.after {}) [holderCall]).validate ≠ .ok () := by
  have leaves := leaves_of_refused [] holderCall (.unsupported "i128" "/big") rfl
  exact ⟨rfl, leaves, rfl, leaves.blocked "Holder" (some 0) [holderCall] rfl⟩

/-- The refused definition of a record leaves its reservation and the body of what was entered before, so that the same
call succeeds when it is repeated. -/
theorem holder_left_behind :
    ¬ (∀ (made : List Call) (call : Call) (error : RegistrationError),
        call.outcome (calls {} made) = .error error → call.after (calls {} made) = calls {} made) ∧
      ¬ (∀ (made : List Call) (call : Call) (error : RegistrationError),
        call.outcome (calls {} made) = .error error → call.outcome (call.after (calls {} made)) = .error error) ∧
      ¬ (∀ (made : List Call) (call : Call) (error : RegistrationError),
        call.outcome (calls {} made) = .error error →
          Schema.definitionsOf ((call.after (calls {} made)).toSchema default "" .camel) =
            Schema.definitionsOf ((calls {} made).toSchema default "" .camel)) := by
  refine ⟨fun atomic => ?_, fun atomic => ?_, fun atomic => ?_⟩
  · have same := congrArg (fun r => r.definitions.size) (atomic [] holderCall _ rfl)
    cases same
  · have again : (Except.ok () : Except RegistrationError Unit) = .error (.unsupported "i128" "/big") :=
      atomic [] holderCall _ rfl
    cases again
  · have same := congrArg List.length (atomic [] holderCall _ rfl)
    cases same

end Registry

end SchemaRpc
