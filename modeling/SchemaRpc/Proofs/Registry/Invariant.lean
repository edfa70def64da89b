import SchemaRpc.Proofs.Introspection.Checked
import SchemaRpc.Registry.Basic

/-!
# Invariants of the table of a registry

An invariant of the table that survives the walk of every root survives every registration and every definition, whether
they succeed or not.
-/

namespace SchemaRpc.Registry

open Introspection (Keeps)

variable {n : Nat} {invariant : Definitions → Prop} {catalog : Catalog n} {r : Registry}

/-- The walks of all roots over a catalog keep an invariant of the table. -/
def RootsKeep (invariant : Definitions → Prop) (catalog : Catalog n) : Prop :=
  ∀ (procedure : String) (role : Role) (shape : Shape n),
    Keeps invariant (Introspection.root ⟨catalog, procedure, role⟩ shape) fun _ => True

/-- The bodies of the table keep the promises of the checked constructors. -/
theorem rootsKeep_checked (catalog : Catalog n) : RootsKeep (Definitions.Everywhere Form.Checked) catalog :=
  fun _ _ shape => Introspection.keeps_root TypeDef.closed_checked (Definitions.preserved_everywhere _) shape

theorem keeps_introspect (roots : RootsKeep invariant catalog) (p : Procedure) (params response : Shape n) :
    Keeps invariant (introspect catalog p params response) fun _ => True := by
  refine (roots _ _ params).bind fun _ _ => ?_
  refine (roots _ _ response).bind fun _ _ => ?_
  refine Keeps.get.bind fun defs _ => ?_
  split
  · exact .throw
  · exact .pure trivial

/-- A registration keeps an invariant of the table, whether it succeeds or not. -/
theorem invariant_register (roots : RootsKeep invariant catalog) (kept : invariant r.definitions) (p : Procedure)
    (params response : Shape n) : invariant (r.register catalog p params response).2.definitions := by
  have walked := (keeps_introspect roots p params response r.definitions kept).1
  unfold register
  split
  · exact kept
  · split
    · next ran =>
      rw [ran] at walked
      exact walked
    · next ran =>
      rw [ran] at walked
      exact walked

theorem invariant_define (roots : RootsKeep invariant catalog) (kept : invariant r.definitions) (shape : Shape n) :
    invariant (r.define catalog shape).2.definitions := by
  unfold define
  split
  · exact kept
  · exact (roots _ _ shape r.definitions kept).1

end SchemaRpc.Registry
