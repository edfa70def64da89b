import Mathlib.Data.List.Nodup
import SchemaRpc.Proofs.Codec.Properties

/-!
# What encoding keeps of the fields

Members are set one after the other, so a wire key that comes up again takes the place of the earlier one.
An object should have one key for the tag, if it has one, and one for each declared field that is present. It has them
exactly when they are distinct, and then each holds what its own field encodes to (`KeepsDistinct`).
-/

namespace SchemaRpc

namespace Form

/-- Casing tells apart the declared names of an object of this form, its discriminator included. -/
def CasedApart {τ : Type} (casing : Casing) : Form τ → Prop
  | object properties =>
      ∀ p ∈ properties, ∀ q ∈ properties, casing.apply p.name = casing.apply q.name → p.name = q.name
  | union key mapping =>
      ∀ variant ∈ mapping,
        (∀ p ∈ variant.2, casing.apply p.name ≠ casing.apply key) ∧
          ∀ p ∈ variant.2, ∀ q ∈ variant.2, casing.apply p.name = casing.apply q.name → p.name = q.name
  | _ => True

instance {τ : Type} (casing : Casing) : (form : Form τ) → Decidable (form.CasedApart casing)
  | object properties =>
      inferInstanceAs
        (Decidable (∀ p ∈ properties, ∀ q ∈ properties, casing.apply p.name = casing.apply q.name → p.name = q.name))
  | union key mapping =>
      inferInstanceAs
        (Decidable (∀ variant ∈ mapping,
          (∀ p ∈ variant.2, casing.apply p.name ≠ casing.apply key) ∧
            ∀ p ∈ variant.2, ∀ q ∈ variant.2, casing.apply p.name = casing.apply q.name → p.name = q.name))
  | any | primitive _ | enumeration _ | elements _ | values _ | ref _ => isTrue trivial

variable {τ : Type} {casing : Casing}

theorem nodup_wireKeys_iff {properties : List (Property τ)} (names : (properties.map Property.name).Nodup) :
    (wireKeys casing properties).Nodup ↔
      ∀ p ∈ properties, ∀ q ∈ properties, casing.apply p.name = casing.apply q.name → p.name = q.name := by
  have keys : wireKeys casing properties = (properties.map Property.name).map casing.apply := by
    rw [List.map_map]
    rfl
  rw [keys, List.nodup_map_iff_inj_on names]
  constructor
  · intro apart p memberP q memberQ
    exact apart p.name (List.mem_map_of_mem memberP) q.name (List.mem_map_of_mem memberQ)
  · intro apart name memberName other memberOther sameKey
    obtain ⟨p, memberP, rfl⟩ := List.mem_map.1 memberName
    obtain ⟨q, memberQ, rfl⟩ := List.mem_map.1 memberOther
    exact apart p memberP q memberQ sameKey

/-- The checked constructors leave one way for wire keys to coincide: casing. -/
theorem wireDistinct_iff_casedApart {form : Form τ} (checked : form.Checked) :
    form.WireDistinct casing ↔ form.CasedApart casing := by
  cases form with
  | object properties =>
      exact nodup_wireKeys_iff checked
  | union key mapping =>
      refine forall_congr' fun variant => forall_congr' fun listed => ?_
      have names := (List.nodup_cons.1 (checked.2 variant listed)).2
      rw [List.nodup_cons, nodup_wireKeys_iff names]
      refine and_congr_left fun _ => ?_
      constructor
      · intro fresh p declared sameKey
        exact fresh (List.mem_map.2 ⟨p, declared, sameKey⟩)
      · intro fresh member
        obtain ⟨p, declared, sameKey⟩ := List.mem_map.1 member
        exact fresh p declared sameKey
  | any | primitive | enumeration | elements | values | ref =>
      exact Iff.rfl

theorem wireDistinct_identity {form : Form τ} (checked : form.Checked) : form.WireDistinct .identity := by
  rw [wireDistinct_iff_casedApart checked]
  cases form with
  | object properties =>
      exact fun p _ q _ sameKey => sameKey
  | union key mapping =>
      intro variant listed
      have fresh := (List.nodup_cons.1 (checked.2 variant listed)).1
      refine ⟨fun p declared sameKey => fresh ?_, fun p _ q _ sameKey => sameKey⟩
      exact List.mem_map.2 ⟨p, declared, sameKey⟩
  | any | primitive | enumeration | elements | values | ref =>
      trivial

end Form

namespace Json.Members

theorem nodup_keys_set (key : String) (value : Json) {members : Members} (distinct : (members.map Prod.fst).Nodup) :
    ((set key value members).map Prod.fst).Nodup := by
  by_cases present : key ∈ members.map Prod.fst
  · rw [keys_set_of_mem present]
    exact distinct
  · rw [set_of_not_mem present, List.map_append]
    refine List.nodup_append.2 ⟨distinct, List.nodup_singleton _, ?_⟩
    intro a memberA b memberB same
    rw [List.map_singleton, List.mem_singleton] at memberB
    rw [same, memberB] at memberA
    exact present memberA

theorem nodup_keys_foldl_set (pairs : List (String × Json)) {done : Members}
    (distinct : (done.map Prod.fst).Nodup) :
    ((pairs.foldl (fun members (key, value) => members.set key value) done).map Prod.fst).Nodup := by
  induction pairs generalizing done with
  | nil =>
      exact distinct
  | cons head tail inductionHypothesis =>
      exact inductionHypothesis (nodup_keys_set head.1 head.2 distinct)

/-- Members are filled without loss exactly when all keys are distinct. -/
theorem keys_foldl_set_eq_iff {pairs : List (String × Json)} {done : Members}
    (distinct : (done.map Prod.fst).Nodup) :
    (pairs.foldl (fun members (key, value) => members.set key value) done).map Prod.fst =
        (done ++ pairs).map Prod.fst ↔
      ((done ++ pairs).map Prod.fst).Nodup := by
  constructor
  · intro same
    rw [← same]
    exact nodup_keys_foldl_set pairs distinct
  · intro allDistinct
    rw [foldl_set_of_nodup pairs done allDistinct]

end Json.Members

namespace Codec

variable {c : Codec} {t : TypeDef} {path : String} {depth : Nat} {fields : Entries Value}
  {properties : List (Property TypeDef)}

/-- The wire keys of the properties whose field is present, in declared order. -/
def presentKeys (c : Codec) (fields : Entries Value) (properties : List (Property TypeDef)) : List String :=
  (properties.filter fun p => (Value.present? p.name fields).isSome).map fun p => c.key p.name

/-- Each declared field that is present is on the wire under its own key, as what it encodes to. -/
def KeepsFields (c : Codec) (fields : Entries Value) (properties : List (Property TypeDef)) (path : String)
    (depth : Nat) (members : Json.Members) : Prop :=
  ∀ p ∈ properties, ∀ v, Value.present? p.name fields = some v →
    ∃ json, encoder c v p.type (c.propertyPath path p) depth = .ok json ∧ members.get? (c.key p.name) = some json

theorem keys_writtenMembers (written : ∀ p ∈ properties, FieldWritten c fields path depth p) :
    (writtenMembers c fields path depth properties).map Prod.fst = c.presentKeys fields properties := by
  rw [writtenMembers, keys_collect, presentKeys]
  refine congrArg _ (List.filter_congr fun p member => ?_)
  cases found : Value.present? p.name fields with
  | none =>
      simp [writtenJson?, found]
  | some v =>
      obtain ⟨json, encoded⟩ := (fieldWritten_of_present found).1 (written p member)
      simp [writtenJson?, found, encoded, Except.toOption]

theorem keepsFields_of_subset {members : Json.Members} (written : ∀ p ∈ properties, FieldWritten c fields path depth p)
    (distinct : (members.map Prod.fst).Nodup)
    (subset : writtenMembers c fields path depth properties ⊆ members) :
    KeepsFields c fields properties path depth members := by
  intro p member v present
  obtain ⟨json, encoded⟩ := (fieldWritten_of_present present).1 (written p member)
  refine ⟨json, encoded, lookup_of_mem distinct (subset ?_)⟩
  refine List.mem_filterMap.2 ⟨p, member, ?_⟩
  simp [writtenJson?, present, encoded, Except.toOption]

/-- What is written at a definition has the keys that it should have exactly when they are distinct, and then it keeps
the tag and every declared field that is present. -/
structure KeepsDistinct (c : Codec) (t : TypeDef) : Prop where
  object : ∀ (fields : Entries Value) (properties : List (Property TypeDef)) (path : String) (depth : Nat)
    (members : Json.Members),
    c.target t = .ok (.object properties) →
    encoder c (.object fields) t path depth = .ok (.obj members) →
    (members.map Prod.fst = c.presentKeys fields properties ↔ (c.presentKeys fields properties).Nodup) ∧
      ((c.presentKeys fields properties).Nodup → c.KeepsFields fields properties path (depth + 1) members)
  union : ∀ (tag : String) (fields : Entries Value) (key : String) (mapping : List (String × List (Property TypeDef)))
    (properties : List (Property TypeDef)) (path : String) (depth : Nat) (members : Json.Members),
    c.target t = .ok (.union key mapping) → mapping.lookup tag = some properties →
    encoder c (.union tag fields) t path depth = .ok (.obj members) →
    (members.map Prod.fst = c.key key :: c.presentKeys fields properties ↔
        (c.key key :: c.presentKeys fields properties).Nodup) ∧
      ((c.key key :: c.presentKeys fields properties).Nodup →
        members.get? (c.key key) = some (.str tag) ∧ c.KeepsFields fields properties path (depth + 1) members)

theorem keepsDistinct (c : Codec) (t : TypeDef) : KeepsDistinct c t where
  object fields properties path depth members reached encoded := by
    obtain ⟨properties', reached', _, members', encodedFields, written⟩ := encoder_object_eq_ok_iff.1 encoded
    rw [reached] at reached'
    cases reached'
    cases written
    obtain ⟨each, rfl⟩ := encodeProperties_eq_ok_iff.1 encodedFields
    rw [← keys_writtenMembers each]
    refine ⟨Json.Members.keys_foldl_set_eq_iff List.nodup_nil, fun distinct => ?_⟩
    rw [Json.Members.foldl_set_of_nodup (c.writtenMembers fields path (depth + 1) properties) [] distinct]
    exact keepsFields_of_subset each distinct (List.Subset.refl _)
  union tag fields key mapping properties path depth members reached listed encoded := by
    obtain ⟨key', mapping', properties', reached', listed', _, members', encodedFields, written⟩ :=
      encoder_union_eq_ok_iff.1 encoded
    rw [reached] at reached'
    cases reached'
    rw [listed] at listed'
    cases listed'
    cases written
    obtain ⟨each, rfl⟩ := encodeProperties_eq_ok_iff.1 encodedFields
    rw [← keys_writtenMembers each]
    refine ⟨Json.Members.keys_foldl_set_eq_iff (List.nodup_singleton _), fun distinct => ?_⟩
    rw [Json.Members.foldl_set_of_nodup (c.writtenMembers fields path (depth + 1) properties)
      [(c.key key, .str tag)] distinct]
    exact ⟨List.lookup_cons_self, keepsFields_of_subset each distinct (List.subset_cons_self _ _)⟩

/-- Whatever is written at a definition keeps the tag and every declared field that is present. -/
structure KeepsAll (c : Codec) (t : TypeDef) : Prop where
  object : ∀ (fields : Entries Value) (properties : List (Property TypeDef)) (path : String) (depth : Nat)
    (members : Json.Members),
    c.target t = .ok (.object properties) →
    encoder c (.object fields) t path depth = .ok (.obj members) →
    c.KeepsFields fields properties path (depth + 1) members
  union : ∀ (tag : String) (fields : Entries Value) (key : String) (mapping : List (String × List (Property TypeDef)))
    (properties : List (Property TypeDef)) (path : String) (depth : Nat) (members : Json.Members),
    c.target t = .ok (.union key mapping) → mapping.lookup tag = some properties →
    encoder c (.union tag fields) t path depth = .ok (.obj members) →
    members.get? (c.key key) = some (.str tag) ∧ c.KeepsFields fields properties path (depth + 1) members

theorem presentKeys_sublist : (c.presentKeys fields properties).Sublist (Form.wireKeys c.casing properties) :=
  List.filter_sublist.map _

theorem keepsAll_of_wireDistinct (distinct : ∀ form, c.target t = .ok form → form.WireDistinct c.casing) :
    KeepsAll c t where
  object fields properties path depth members reached encoded := by
    have keys : (Form.wireKeys c.casing properties).Nodup := distinct _ reached
    exact ((keepsDistinct c t).object _ _ _ _ _ reached encoded).2 (presentKeys_sublist.nodup keys)
  union tag fields key mapping properties path depth members reached listed encoded := by
    have variant : (tag, properties) ∈ mapping := by
      obtain ⟨before, after, rfl, _⟩ := List.lookup_eq_some_iff.1 listed
      exact List.mem_append_right before List.mem_cons_self
    have keys : (c.key key :: Form.wireKeys c.casing properties).Nodup := distinct _ reached _ variant
    exact ((keepsDistinct c t).union _ _ _ _ _ _ _ _ reached listed encoded).2
      ((presentKeys_sublist.cons_cons (c.key key)).nodup keys)

end Codec

end SchemaRpc
