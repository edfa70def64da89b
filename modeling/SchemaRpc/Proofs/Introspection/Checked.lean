import SchemaRpc.Proofs.Definitions.Table
import SchemaRpc.Proofs.Introspection.Visit

/-!
# What introspection enters is checked

Every node of every definition that introspection enters keeps the promises of the checked constructors.
-/

namespace SchemaRpc

namespace TypeDef

/-- The promises of the checked constructors at every node are kept by all that introspection does. -/
theorem closed_checked : Closed (Everywhere Form.Checked) where
  any := everywhere_iff.2 ⟨trivial, List.forall_mem_nil _⟩
  primitive kind := everywhere_iff.2 ⟨trivial, List.forall_mem_nil _⟩
  ref name := everywhere_iff.2 ⟨trivial, List.forall_mem_nil _⟩
  elements t holds := everywhere_iff.2 ⟨trivial, holds⟩
  values t holds := everywhere_iff.2 ⟨trivial, holds⟩
  withNullable t nullable holds := holds.of_form rfl
  withMetadata t metadata holds := holds.of_form rfl
  enumeration listed t made := by
    obtain ⟨rfl, promised⟩ := enumeration_eq_ok made
    exact everywhere_iff.2 ⟨promised, List.forall_mem_nil _⟩
  object properties passed := everywhere_object passed.names passed.types
  union key mapping t made passed := by
    obtain ⟨rfl, tags, noCollision⟩ := unionOf_eq_ok made
    refine everywhere_union ⟨tags, fun variant listed => ?_⟩ fun variant listed => (passed variant listed).types
    exact List.nodup_cons.2 ⟨noCollision variant listed, (passed variant listed).names⟩

end TypeDef

namespace Definitions

variable {defs defs' : Definitions}

/-- A body of the table after an entry was put there is that of the entry or was there before. -/
theorem mem_completed_of_insert {name other : String} {entry : Entry} {body : TypeDef}
    {owners : List (TypeId × String)}
    (member : (other, body) ∈ completed ⟨defs.entries.insert name entry, owners⟩) :
    entry.body = some body ∨ (other, body) ∈ defs.completed := by
  obtain ⟨entry', listed, stored⟩ := mem_completed.1 member
  rcases Entries.mem_insert listed with same | listed
  · cases same
    exact .inl stored
  · exact .inr (mem_completed.2 ⟨entry', listed, stored⟩)

theorem preserved_everywhere (promise : Form TypeDef → Prop) :
    Introspection.Preserved (Definitions.Everywhere promise) (TypeDef.Everywhere promise) where
  reserve name owner defs defs' kept reserved := by
    rcases reserve_eq_ok_iff.1 reserved with ⟨_, _, _, rfl⟩ | ⟨_, rfl⟩
    · exact kept
    · rintro ⟨other, body⟩ member
      rcases mem_completed_of_insert member with stored | member
      · cases stored
      · exact kept _ member
  insert name owner body defs defs' holds kept inserted := by
    have changed : ∀ owners,
        Definitions.Everywhere promise ⟨defs.entries.insert name ⟨some body, some owner⟩, owners⟩ := by
      rintro owners ⟨other, body'⟩ member
      rcases mem_completed_of_insert member with stored | member
      · cases stored
        exact holds
      · exact kept _ member
    rcases insert_eq_ok_iff.1 inserted with ⟨_, rfl⟩ | ⟨_, rfl⟩ | ⟨_, _, rfl⟩
    · exact changed _
    · exact changed _
    · exact kept

end Definitions

end SchemaRpc
