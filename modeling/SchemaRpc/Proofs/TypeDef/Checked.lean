import SchemaRpc.Proofs.TypeDef.Nodes

/-!
# What the checked constructors check

A list that passes has no repetition, and a union that passes has neither a repeated tag nor a property named like its
discriminator.
-/

namespace SchemaRpc

theorem nodup_of_firstRepeat?_eq_none {seen items : List String} (unique : firstRepeat? seen items = none) :
    items.Nodup ∧ ∀ s ∈ items, s ∉ seen := by
  induction items generalizing seen with
  | nil =>
      exact ⟨List.nodup_nil, List.forall_mem_nil _⟩
  | cons head tail inductionHypothesis =>
      unfold firstRepeat? at unique
      split at unique
      · cases unique
      · next fresh =>
        obtain ⟨distinct, unseen⟩ := inductionHypothesis unique
        have headFresh : head ∉ tail := fun member => unseen head member List.mem_cons_self
        refine ⟨List.nodup_cons.2 ⟨headFresh, distinct⟩, List.forall_mem_cons.2 ⟨by simpa using fresh, ?_⟩⟩
        exact fun s member repeated => unseen s member (List.mem_cons_of_mem head repeated)

theorem firstRepeat?_eq_none_of_nodup {seen items : List String} (distinct : items.Nodup)
    (fresh : ∀ s ∈ items, s ∉ seen) : firstRepeat? seen items = none := by
  induction items generalizing seen with
  | nil =>
      rfl
  | cons head tail inductionHypothesis =>
      obtain ⟨headFresh, distinct⟩ := List.nodup_cons.1 distinct
      obtain ⟨unseen, fresh⟩ := List.forall_mem_cons.1 fresh
      unfold firstRepeat?
      rw [if_neg (by simpa using unseen)]
      refine inductionHypothesis distinct fun s member => ?_
      rw [List.mem_cons, not_or]
      exact ⟨fun same => headFresh (same ▸ member), fresh s member⟩

theorem TypeDef.checkProperties_eq_ok {properties checked : List (Property TypeDef)}
    (passed : TypeDef.checkProperties properties = .ok checked) :
    checked = properties ∧ (properties.map Property.name).Nodup := by
  unfold TypeDef.checkProperties at passed
  split at passed
  · cases passed
  · next unique =>
    cases passed
    exact ⟨rfl, (nodup_of_firstRepeat?_eq_none unique).1⟩

namespace TypeDef

theorem enumeration_eq_ok {listed : List String} {t : TypeDef} (made : enumeration listed = .ok t) :
    t = ofForm (.enumeration listed) ∧ listed ≠ [] ∧ listed.Nodup := by
  unfold enumeration at made
  split at made
  · cases made
  · next notEmpty =>
    split at made
    · cases made
    · next unique =>
      cases made
      refine ⟨rfl, ?_, (nodup_of_firstRepeat?_eq_none unique).1⟩
      rintro rfl
      exact notEmpty rfl

theorem nodup_of_unionFault?_eq_none {key : String} {mapping : List (String × List (Property TypeDef))}
    {seen : List String} (faultless : unionFault? key seen mapping = none) :
    (mapping.map Prod.fst).Nodup ∧ (∀ tag ∈ mapping.map Prod.fst, tag ∉ seen) ∧
      ∀ variant ∈ mapping, key ∉ variant.2.map Property.name := by
  induction mapping generalizing seen with
  | nil =>
      exact ⟨List.nodup_nil, List.forall_mem_nil _, List.forall_mem_nil _⟩
  | cons head tail inductionHypothesis =>
      obtain ⟨tag, properties⟩ := head
      unfold unionFault? at faultless
      split at faultless
      · cases faultless
      · next freshTag =>
        split at faultless
        · cases faultless
        · next noCollision =>
          obtain ⟨distinct, unseen, others⟩ := inductionHypothesis faultless
          have tagFresh : tag ∉ tail.map Prod.fst := fun member => unseen tag member List.mem_cons_self
          refine ⟨List.nodup_cons.2 ⟨tagFresh, distinct⟩, ?_, List.forall_mem_cons.2 ⟨?_, others⟩⟩
          · refine List.forall_mem_cons.2 ⟨by simpa using freshTag, fun other member repeated => ?_⟩
            exact unseen other member (List.mem_cons_of_mem tag repeated)
          · intro member
            obtain ⟨p, declared, sameName⟩ := List.mem_map.1 member
            apply noCollision
            rw [findProperty?, List.find?_isSome]
            exact ⟨p, declared, beq_iff_eq.2 sameName⟩

theorem unionOf_eq_ok {key : String} {mapping : List (String × List (Property TypeDef))} {t : TypeDef}
    (made : unionOf key mapping = .ok t) :
    t = ofForm (.union key mapping) ∧ (mapping.map Prod.fst).Nodup ∧
      ∀ variant ∈ mapping, key ∉ variant.2.map Property.name := by
  unfold unionOf at made
  split at made
  · cases made
  · next faultless =>
    cases made
    obtain ⟨distinct, _, noCollision⟩ := nodup_of_unionFault?_eq_none faultless
    exact ⟨rfl, distinct, noCollision⟩

/-! ## What passes -/

theorem checkProperties_of_nodup {properties : List (Property TypeDef)}
    (names : (properties.map Property.name).Nodup) : checkProperties properties = .ok properties := by
  unfold checkProperties
  rw [firstRepeat?_eq_none_of_nodup names fun _ _ => List.not_mem_nil]

theorem enumeration_of_checked {listed : List String} (checked : (Form.enumeration listed : Form TypeDef).Checked) :
    enumeration listed = .ok (ofForm (.enumeration listed)) := by
  obtain ⟨notEmpty, unique⟩ := checked
  have filled : listed.isEmpty = false := by
    cases listed with
    | nil => exact absurd rfl notEmpty
    | cons => rfl
  unfold enumeration
  rw [filled, firstRepeat?_eq_none_of_nodup unique fun _ _ => List.not_mem_nil]
  rfl

theorem unionFault?_eq_none {key : String} {mapping : List (String × List (Property TypeDef))} {seen : List String}
    (tags : (mapping.map Prod.fst).Nodup) (fresh : ∀ tag ∈ mapping.map Prod.fst, tag ∉ seen)
    (apart : ∀ variant ∈ mapping, key ∉ variant.2.map Property.name) : unionFault? key seen mapping = none := by
  induction mapping generalizing seen with
  | nil =>
      rfl
  | cons head tail inductionHypothesis =>
      obtain ⟨tag, properties⟩ := head
      obtain ⟨tagFresh, tags⟩ := List.nodup_cons.1 tags
      obtain ⟨unseen, fresh⟩ := List.forall_mem_cons.1 fresh
      obtain ⟨here, apart⟩ := List.forall_mem_cons.1 apart
      have noCollision : ¬ (findProperty? key properties).isSome := by
        rw [findProperty?, List.find?_isSome]
        rintro ⟨p, declared, named⟩
        exact here (List.mem_map.2 ⟨p, declared, beq_iff_eq.1 named⟩)
      unfold unionFault?
      rw [if_neg (by simpa using unseen), if_neg noCollision]
      refine inductionHypothesis tags (fun other listed => ?_) apart
      rw [List.mem_cons, not_or]
      exact ⟨fun same => tagFresh (same ▸ listed), fresh other listed⟩

theorem unionOf_of_checked {key : String} {mapping : List (String × List (Property TypeDef))}
    (checked : (Form.union key mapping : Form TypeDef).Checked) :
    unionOf key mapping = .ok (ofForm (.union key mapping)) := by
  obtain ⟨tags, distinct⟩ := checked
  unfold unionOf
  rw [unionFault?_eq_none tags (fun _ _ => List.not_mem_nil) fun variant listed =>
    (List.nodup_cons.1 (distinct variant listed)).1]

end TypeDef

end SchemaRpc
