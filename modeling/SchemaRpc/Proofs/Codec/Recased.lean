import SchemaRpc.Proofs.Codec.Canonical
import SchemaRpc.Proofs.Codec.WireKeys

/-!
# Casing and the wire form

A casing changes the keys of records and unions on the wire and nothing else. `recased` is that change on JSON that is
written with declared names, read along its definition. Encoding under a casing is encoding with declared names followed
by `recased`; where one fails the other does, with the same complaint about the place by its own keys.
-/

namespace SchemaRpc

/-- The complaint without the place that it is about. -/
def CodecError.unplaced : CodecError → CodecError
  | missingField _ => missingField rootPath
  | nullNotAllowed _ => nullNotAllowed rootPath
  | typeMismatch _ expected actual => typeMismatch rootPath expected actual
  | depthExceeded _ max => depthExceeded rootPath max
  | unknownTag _ tag => unknownTag rootPath tag
  | unknownEnumValue _ value => unknownEnumValue rootPath value
  | unresolvedRef name => unresolvedRef name
  | invalidJson => invalidJson
  | invalidValue _ text => invalidValue rootPath text

theorem CodecError.kind_unplaced (error : CodecError) : error.unplaced.kind = error.kind := by
  cases error <;> rfl

namespace Codec

/-- The codec that writes keys as they are declared. -/
def uncased (c : Codec) : Codec :=
  { c with casing := .identity }

/-- The properties of the variant that the members of an object name by their tag. -/
def taggedProperties (key : String) (mapping : List (String × List (Property TypeDef))) (members : Json.Members) :
    List (Property TypeDef) :=
  match members.get? key with
  | some (.str tag) => (mapping.lookup tag).getD []
  | _ => []

mutual

/-- JSON with the keys of its records and unions in the casing of the codec. -/
def recased (c : Codec) : Json → TypeDef → Json
  | .arr items, t =>
      match c.target t with
      | .ok (.elements item) => .arr (recasedItems c item items)
      | _ => .arr items
  | .obj members, t =>
      match c.target t with
      | .ok (.values item) => .obj (recasedEntries c item members)
      | .ok (.object properties) => .obj (recasedMembers c properties members)
      | .ok (.union key mapping) => .obj (recasedMembers c (taggedProperties key mapping members) members)
      | _ => .obj members
  | json, _ => json

/-- The items of an array. -/
def recasedItems (c : Codec) (item : TypeDef) : List Json → List Json
  | [] => []
  | json :: rest => recased c json item :: recasedItems c item rest

/-- The entries of a map, under the keys that they have. -/
def recasedEntries (c : Codec) (item : TypeDef) : List (String × Json) → List (String × Json)
  | [] => []
  | (key, json) :: rest => (key, recased c json item) :: recasedEntries c item rest

/-- The members of a record or a variant, each in its place under its key on the wire. -/
def recasedMembers (c : Codec) (properties : List (Property TypeDef)) : List (String × Json) → List (String × Json)
  | [] => []
  | (key, json) :: rest =>
      match findProperty? key properties with
      | some p => (c.key key, recased c json p.type) :: recasedMembers c properties rest
      | none => (c.key key, json) :: recasedMembers c properties rest

end

variable {c : Codec} {t item : TypeDef} {path path' : String} {depth : Nat} {json : Json} {v : Value}

/-- Two results are alike: what the second gives is made from what the first gives, or both fail with one complaint. -/
def Alike {α β : Type} (f : α → β) : Except CodecError α → Except CodecError β → Prop
  | .ok a, .ok b => b = f a
  | .error error, .error error' => error'.unplaced = error.unplaced
  | _, _ => False

namespace Alike

variable {α β α' β' γ : Type} {f : α → β} {g : α' → β'} {x : Except CodecError α} {y : Except CodecError β}

theorem bind {k : α → Except CodecError α'} {k' : β → Except CodecError β'} (first : Alike f x y)
    (rest : ∀ a, x = .ok a → Alike g (k a) (k' (f a))) : Alike g (x >>= k) (y >>= k') := by
  cases x with
  | error error =>
      cases y with
      | error error' =>
          exact first
      | ok b =>
          exact first.elim
  | ok a =>
      cases y with
      | error error' =>
          exact first.elim
      | ok b =>
          cases first
          exact rest a rfl

theorem bind_same {z : Except CodecError γ} {k : γ → Except CodecError α'} {k' : γ → Except CodecError β'}
    (rest : ∀ a, z = .ok a → Alike g (k a) (k' a)) : Alike g (z >>= k) (z >>= k') := by
  cases z with
  | error error =>
      rfl
  | ok a =>
      exact rest a rfl

theorem congr {f' : α → β} (alike : Alike f x y) (same : ∀ a, x = .ok a → f a = f' a) : Alike f' x y := by
  cases x with
  | error error =>
      cases y with
      | error error' =>
          exact alike
      | ok b =>
          exact alike.elim
  | ok a =>
      cases y with
      | error error' =>
          exact alike.elim
      | ok b =>
          cases alike
          exact same a rfl

theorem ok_iff (alike : Alike f x y) {b : β} : y = .ok b ↔ ∃ a, x = .ok a ∧ b = f a := by
  cases x with
  | error error =>
      cases y with
      | error error' =>
          simp
      | ok b =>
          exact alike.elim
  | ok a =>
      cases y with
      | error error' =>
          exact alike.elim
      | ok b =>
          cases alike
          simp [eq_comm]

theorem exists_error (alike : Alike f x y) {error' : CodecError} (failed : y = .error error') :
    ∃ error, x = .error error ∧ error'.unplaced = error.unplaced := by
  subst failed
  cases x with
  | error error =>
      exact ⟨error, rfl, alike⟩
  | ok a =>
      exact alike.elim

end Alike

/-! ## Parts that casing does not touch -/

theorem alike_enter : Alike id (c.uncased.enter depth path) (c.enter depth path') := by
  have sameBound : c.uncased.maxDepth = c.maxDepth := rfl
  unfold enter
  rw [sameBound]
  split <;> rfl

theorem alike_encodeMismatch {form : Form TypeDef} {f : Json → Json} :
    Alike f (encodeMismatch form path v) (encodeMismatch form path' v) :=
  rfl

theorem alike_encodeFloat {x : Binary64} : Alike id (encodeFloat x path) (encodeFloat x path') := by
  unfold encodeFloat
  split <;> rfl

theorem alike_encodeIntegerAt {n : Int} {form : Form TypeDef} :
    Alike id (encodeIntegerAt v n form path) (encodeIntegerAt v n form path') := by
  cases form with
  | primitive kind =>
      simp only [encodeIntegerAt]
      split
      · exact alike_encodeFloat
      · split
        · unfold encodeInteger
          split
          · rfl
          · split <;> rfl
        · exact alike_encodeMismatch
  | any | enumeration | elements | values | object | ref | union =>
      exact alike_encodeMismatch

theorem alike_encodeScalar {form : Form TypeDef} :
    Alike id (encodeScalar v form path) (encodeScalar v form path') := by
  cases v with
  | int n =>
      exact alike_encodeIntegerAt
  | uint n =>
      exact alike_encodeIntegerAt
  | bool | float | timestamp =>
      cases form with
      | primitive kind =>
          cases kind <;> first | rfl | exact alike_encodeFloat
      | any | enumeration | elements | values | object | ref | union =>
          rfl
  | str s =>
      cases form with
      | enumeration listed =>
          simp only [encodeScalar]
          split <;> rfl
      | primitive kind =>
          cases kind <;> rfl
      | any | elements | values | object | ref | union =>
          rfl
  | any json =>
      cases form <;> rfl
  | absent | null | array | map | object | union =>
      cases form <;> rfl

/-- What a scalar is written as has no keys that casing could touch. -/
theorem recased_of_encodeScalar {form : Form TypeDef} (reached : c.target t = .ok form)
    (encoded : encodeScalar v form path = .ok json) : c.recased json t = json := by
  cases form with
  | any | primitive | enumeration | ref =>
      cases json with
      | arr items =>
          simp only [recased, reached]
      | obj members =>
          simp only [recased, reached]
      | null | bool | num | str =>
          rfl
  | elements | values | object | union =>
      cases v <;> cases encoded

/-! ## Items and entries -/

/-- Writing a value under the casing is writing it with declared names and casing the keys. -/
def Recases (c : Codec) (v : Value) : Prop :=
  ∀ (t : TypeDef) (path path' : String) (depth : Nat), t.Everywhere (Form.WireDistinct c.casing) →
    Alike (fun json => c.recased json t) (encoder c.uncased v t path depth) (encoder c v t path' depth)

theorem alike_encodeItems {items : List Value} {index index' : Nat} (each : ∀ v ∈ items, c.Recases v)
    (distinct : item.Everywhere (Form.WireDistinct c.casing)) :
    Alike (c.recasedItems item) (encodeItems c.uncased item path depth index items)
      (encodeItems c item path' depth index' items) := by
  induction items generalizing index index' with
  | nil =>
      rfl
  | cons head tail inductionHypothesis =>
      obtain ⟨recasesHead, recasesTail⟩ := List.forall_mem_cons.1 each
      refine Alike.bind (recasesHead item _ _ depth distinct) fun json _ => ?_
      refine Alike.bind (inductionHypothesis recasesTail) fun jsons _ => ?_
      rfl

theorem alike_encodeEntries {entries : List (String × Value)} (each : ∀ entry ∈ entries, c.Recases entry.2)
    (distinct : item.Everywhere (Form.WireDistinct c.casing)) :
    Alike (c.recasedEntries item) (encodeEntries c.uncased item path depth entries)
      (encodeEntries c item path' depth entries) := by
  induction entries with
  | nil =>
      rfl
  | cons head tail inductionHypothesis =>
      obtain ⟨key, v⟩ := head
      obtain ⟨recasesHead, recasesTail⟩ := List.forall_mem_cons.1 each
      refine Alike.bind (recasesHead item _ _ depth distinct) fun json _ => ?_
      refine Alike.bind (inductionHypothesis recasesTail) fun members _ => ?_
      rfl

/-! ## Members -/

section Members

variable {properties : List (Property TypeDef)}

theorem recasedMembers_append (before after : Json.Members) :
    c.recasedMembers properties (before ++ after) =
      c.recasedMembers properties before ++ c.recasedMembers properties after := by
  induction before with
  | nil =>
      rfl
  | cons head tail inductionHypothesis =>
      obtain ⟨key, json⟩ := head
      cases declared : findProperty? key properties <;>
        simp only [List.cons_append, recasedMembers, declared, inductionHypothesis]

theorem keys_recasedMembers (members : Json.Members) :
    (c.recasedMembers properties members).map Prod.fst = (members.map Prod.fst).map c.key := by
  induction members with
  | nil =>
      rfl
  | cons head tail inductionHypothesis =>
      obtain ⟨key, json⟩ := head
      cases declared : findProperty? key properties <;>
        simp only [recasedMembers, declared, List.map_cons, inductionHypothesis]

/-- A member under a new key is recased by itself. -/
theorem recasedMembers_set {p : Property TypeDef} {members : Json.Members}
    (declared : findProperty? p.name properties = some p) (fresh : c.key p.name ∉ (members.map Prod.fst).map c.key) :
    c.recasedMembers properties (members.set p.name json) =
      Json.Members.set (c.key p.name) (c.recased json p.type) (c.recasedMembers properties members) := by
  have freshName : p.name ∉ members.map Prod.fst := fun member => fresh (List.mem_map_of_mem member)
  have freshKey : c.key p.name ∉ (c.recasedMembers properties members).map Prod.fst := by
    rw [keys_recasedMembers]
    exact fresh
  rw [Json.Members.set_of_not_mem freshName, Json.Members.set_of_not_mem freshKey, recasedMembers_append]
  simp only [recasedMembers, declared]

section Steps

variable {head : Property TypeDef} {tail : List (Property TypeDef)} {fields : Entries Value} {done : Json.Members}

/-- A field that is missing is passed over, if it may be missing. -/
theorem encodeProperties_of_missing (missing : Value.present? head.name fields = none) :
    encodeProperties c (fieldEncoders c fields) path depth done (head :: tail) =
      if head.optional then encodeProperties c (fieldEncoders c fields) path depth done tail
      else .error (.missingField (c.propertyPath path head)) := by
  simp only [encodeProperties, find?_fieldEncoders_join, missing, Option.map_none, propertyPath]

theorem encodeProperties_of_present (present : Value.present? head.name fields = some v) :
    encodeProperties c (fieldEncoders c fields) path depth done (head :: tail) =
      encoder c v head.type (c.propertyPath path head) depth >>= fun json =>
        encodeProperties c (fieldEncoders c fields) path depth (done.set (c.key head.name) json) tail := by
  simp only [encodeProperties, find?_fieldEncoders_join, present, Option.map_some, propertyPath]
  cases encoder c v head.type (childPath path (c.key head.name)) depth with
  | error error =>
      rfl
  | ok json =>
      rfl

end Steps

/-- The properties that are still to be written have other keys on the wire than the members written already. -/
theorem alike_encodeProperties {rest : List (Property TypeDef)} {fields : Entries Value} {done : Json.Members}
    (each : ∀ field ∈ fields, c.Recases field.2) (declared : ∀ p ∈ rest, findProperty? p.name properties = some p)
    (types : ∀ p ∈ rest, p.type.Everywhere (Form.WireDistinct c.casing))
    (apart : ((done.map Prod.fst ++ rest.map Property.name).map c.key).Nodup) :
    Alike (c.recasedMembers properties)
      (encodeProperties c.uncased (fieldEncoders c.uncased fields) path depth done rest)
      (encodeProperties c (fieldEncoders c fields) path' depth (c.recasedMembers properties done) rest) := by
  induction rest generalizing done with
  | nil =>
      rfl
  | cons head tail inductionHypothesis =>
      obtain ⟨declaredHead, declaredTail⟩ := List.forall_mem_cons.1 declared
      obtain ⟨typeHead, typesTail⟩ := List.forall_mem_cons.1 types
      cases found : Value.present? head.name fields with
      | none =>
          rw [encodeProperties_of_missing found, encodeProperties_of_missing found]
          have apartTail : ((done.map Prod.fst ++ tail.map Property.name).map c.key).Nodup :=
            (((List.sublist_cons_self _ _).append_left _).map c.key).nodup apart
          cases head.optional with
          | true =>
              exact inductionHypothesis declaredTail typesTail apartTail
          | false =>
              rfl
      | some v =>
          rw [encodeProperties_of_present found, encodeProperties_of_present found]
          have held : (head.name, v) ∈ fields := Entries.mem_of_find? (Option.filter_eq_some_iff.1 found).1
          refine Alike.bind (each _ held head.type _ _ depth typeHead) fun json _ => ?_
          have fresh : c.key head.name ∉ (done.map Prod.fst).map c.key := by
            rw [List.map_append, List.nodup_append] at apart
            exact fun member => apart.2.2 _ member (c.key head.name) (by simp) rfl
          have freshName : head.name ∉ done.map Prod.fst := fun member => fresh (List.mem_map_of_mem member)
          have apartTail : (((done.set head.name json).map Prod.fst ++ tail.map Property.name).map c.key).Nodup := by
            rw [Json.Members.set_of_not_mem freshName]
            simpa using apart
          have later := inductionHypothesis declaredTail typesTail apartTail
          rw [recasedMembers_set declaredHead fresh] at later
          exact later

/-- The members of a record, written from the start. -/
theorem alike_encodeProperties_object {fields : Entries Value} (each : ∀ field ∈ fields, c.Recases field.2)
    (distinct : (Form.wireKeys c.casing properties).Nodup)
    (types : ∀ p ∈ properties, p.type.Everywhere (Form.WireDistinct c.casing)) :
    Alike (c.recasedMembers properties) (encodeProperties c.uncased (fieldEncoders c.uncased fields) path depth [] properties)
      (encodeProperties c (fieldEncoders c fields) path' depth [] properties) := by
  have names := nodup_names_of_nodup_wireKeys distinct
  have keys : (properties.map Property.name).map c.key = Form.wireKeys c.casing properties := List.map_map
  refine alike_encodeProperties each (fun p member => findProperty?_of_mem names member) types ?_
  rw [List.map_nil, List.nil_append, keys]
  exact distinct

/-- The members of a variant, written after its tag. -/
theorem alike_encodeProperties_union {key tag : String} {fields : Entries Value}
    (each : ∀ field ∈ fields, c.Recases field.2) (distinct : (c.key key :: Form.wireKeys c.casing properties).Nodup)
    (types : ∀ p ∈ properties, p.type.Everywhere (Form.WireDistinct c.casing)) :
    Alike (c.recasedMembers properties)
      (encodeProperties c.uncased (fieldEncoders c.uncased fields) path depth [(key, .str tag)] properties)
      (encodeProperties c (fieldEncoders c fields) path' depth [(c.key key, .str tag)] properties) := by
  obtain ⟨fresh, distinctRest⟩ := List.nodup_cons.1 distinct
  have names := nodup_names_of_nodup_wireKeys distinctRest
  have keys : (properties.map Property.name).map c.key = Form.wireKeys c.casing properties := List.map_map
  have apart : ((key :: properties.map Property.name).map c.key).Nodup := by
    rw [List.map_cons, keys]
    exact distinct
  have undeclared : findProperty? key properties = none := by
    refine List.find?_eq_none.2 fun p member same => fresh ?_
    rw [← eq_of_beq same]
    exact mem_wireKeys member
  have start : c.recasedMembers properties [(key, .str tag)] = [(c.key key, .str tag)] := by
    simp only [recasedMembers, undeclared]
  rw [← start]
  exact alike_encodeProperties each (fun p member => findProperty?_of_mem names member) types apart

/-- What is written of a variant names its properties again. -/
theorem taggedProperties_of_encodeProperties {key tag : String} {mapping : List (String × List (Property TypeDef))}
    {fields : Entries Value} {members : Json.Members} (listed : mapping.lookup tag = some properties)
    (distinct : (key :: properties.map Property.name).Nodup)
    (written : encodeProperties c.uncased (fieldEncoders c.uncased fields) path depth [(key, .str tag)] properties =
      .ok members) : taggedProperties key mapping members = properties := by
  obtain ⟨-, rfl⟩ := encodeProperties_eq_ok_iff.1 written
  have keys : (key :: (writtenMembers c.uncased fields path depth properties).map Prod.fst).Nodup :=
    nodup_keys_cons_writtenMembers distinct
  rw [Json.Members.foldl_set_of_nodup (c.uncased.writtenMembers fields path depth properties) [(key, .str tag)] keys]
  have tagged : Json.Members.get? key ([(key, .str tag)] ++ c.uncased.writtenMembers fields path depth properties) =
      some (.str tag) := List.lookup_cons_self
  simp only [taggedProperties, tagged, listed, Option.getD_some]

end Members

/-! ## Values -/

theorem recased_arr (reached : c.target t = .ok (.elements item)) (items : List Json) :
    c.recased (.arr items) t = .arr (c.recasedItems item items) := by
  simp only [recased, reached]

theorem recased_obj_values (reached : c.target t = .ok (.values item)) (members : Json.Members) :
    c.recased (.obj members) t = .obj (c.recasedEntries item members) := by
  simp only [recased, reached]

theorem recased_obj_object {properties : List (Property TypeDef)} (reached : c.target t = .ok (.object properties))
    (members : Json.Members) : c.recased (.obj members) t = .obj (c.recasedMembers properties members) := by
  simp only [recased, reached]

theorem recased_obj_union {key : String} {mapping : List (String × List (Property TypeDef))}
    (reached : c.target t = .ok (.union key mapping)) (members : Json.Members) :
    c.recased (.obj members) t = .obj (c.recasedMembers (taggedProperties key mapping members) members) := by
  simp only [recased, reached]

theorem recases_array {items : List Value} (bodies : c.definitions.Everywhere (Form.WireDistinct c.casing))
    (each : ∀ v ∈ items, c.Recases v) : c.Recases (.array items) := by
  intro t path path' depth distinct
  refine Alike.bind_same (z := c.target t) fun form reached => ?_
  cases form with
  | elements item =>
      obtain ⟨s, -, sameForm, everywhere⟩ := exists_everywhere_of_target reached distinct bodies
      refine Alike.bind alike_enter fun inner _ => ?_
      refine Alike.bind (alike_encodeItems each (everywhere.elements sameForm)) fun jsons _ => ?_
      exact (recased_arr reached jsons).symm
  | any | primitive | enumeration | values | object | ref | union =>
      exact alike_encodeMismatch

theorem recases_map {entries : List (String × Value)} (bodies : c.definitions.Everywhere (Form.WireDistinct c.casing))
    (each : ∀ entry ∈ entries, c.Recases entry.2) : c.Recases (.map entries) := by
  intro t path path' depth distinct
  refine Alike.bind_same (z := c.target t) fun form reached => ?_
  cases form with
  | values item =>
      obtain ⟨s, -, sameForm, everywhere⟩ := exists_everywhere_of_target reached distinct bodies
      refine Alike.bind alike_enter fun inner _ => ?_
      refine Alike.bind (alike_encodeEntries each (everywhere.values sameForm)) fun members _ => ?_
      exact (recased_obj_values reached members).symm
  | any | primitive | enumeration | elements | object | ref | union =>
      exact alike_encodeMismatch

theorem recases_object {fields : List (String × Value)} (bodies : c.definitions.Everywhere (Form.WireDistinct c.casing))
    (each : ∀ field ∈ fields, c.Recases field.2) : c.Recases (.object fields) := by
  intro t path path' depth distinct
  refine Alike.bind_same (z := c.target t) fun form reached => ?_
  cases form with
  | object properties =>
      obtain ⟨s, -, sameForm, everywhere⟩ := exists_everywhere_of_target reached distinct bodies
      have keys : (Form.wireKeys c.casing properties).Nodup := everywhere.here_of_form sameForm
      refine Alike.bind alike_enter fun inner _ => ?_
      refine Alike.bind (alike_encodeProperties_object each keys (everywhere.object sameForm)) fun members _ => ?_
      exact (recased_obj_object reached members).symm
  | any | primitive | enumeration | elements | values | ref | union =>
      exact alike_encodeMismatch

theorem recases_union {tag : String} {fields : List (String × Value)}
    (bodies : c.definitions.Everywhere (Form.WireDistinct c.casing)) (each : ∀ field ∈ fields, c.Recases field.2) :
    c.Recases (.union tag fields) := by
  intro t path path' depth distinct
  refine Alike.bind_same (z := c.target t) fun form reached => ?_
  cases form with
  | union key mapping =>
      obtain ⟨s, -, sameForm, everywhere⟩ := exists_everywhere_of_target reached distinct bodies
      cases listed : mapping.lookup tag with
      | none =>
          simp only [listed]
          exact rfl
      | some properties =>
          have variant : (tag, properties) ∈ mapping := mem_of_lookup listed
          have keys : (c.key key :: Form.wireKeys c.casing properties).Nodup :=
            everywhere.here_of_form sameForm _ variant
          have names : (key :: properties.map Property.name).Nodup := by
            refine List.Nodup.of_map c.key ?_
            rwa [List.map_cons, List.map_map]
          simp only [listed]
          refine Alike.bind alike_enter fun inner _ => ?_
          have types := everywhere.union sameForm _ variant
          refine Alike.bind (alike_encodeProperties_union each keys types) fun members written => ?_
          refine Eq.symm ((recased_obj_union reached members).trans ?_)
          rw [taggedProperties_of_encodeProperties listed names written]
  | any | primitive | enumeration | elements | values | object | ref =>
      exact alike_encodeMismatch

theorem recases (bodies : c.definitions.Everywhere (Form.WireDistinct c.casing)) (v : Value) : c.Recases v := by
  induction v using Value.induct with
  | absent =>
      exact fun _ _ _ _ _ => rfl
  | null =>
      intro t path path' depth _
      rw [encoder_null, encoder_null]
      split <;> rfl
  | scalar v isScalar =>
      intro t path path' depth _
      rw [encoder_scalar isScalar, encoder_scalar isScalar]
      refine Alike.bind_same (z := c.target t) fun form reached => ?_
      exact alike_encodeScalar.congr fun json encoded => (recased_of_encodeScalar reached encoded).symm
  | array items each =>
      exact recases_array bodies each
  | map entries each =>
      exact recases_map bodies each
  | object fields each =>
      exact recases_object bodies each
  | union tag fields each =>
      exact recases_union bodies each

/-- Where the wire keys of every object are distinct, a value encodes to what it encodes to with declared names, with the
keys of its records and variants cased. What does not encode has the same complaint under both, but for the keys in the
path. -/
theorem encodeJson_recased (distinct : t.Everywhere (Form.WireDistinct c.casing))
    (bodies : c.definitions.Everywhere (Form.WireDistinct c.casing)) (v : Value) :
    (∀ json', c.encodeJson v t = .ok json' ↔ ∃ json, c.uncased.encodeJson v t = .ok json ∧ json' = c.recased json t) ∧
      ∀ error', c.encodeJson v t = .error error' →
        ∃ error, c.uncased.encodeJson v t = .error error ∧ error'.kind = error.kind ∧
          error'.unplaced = error.unplaced := by
  have alike := recases bodies v t rootPath rootPath 0 distinct
  refine ⟨fun json' => alike.ok_iff, fun error' failed => ?_⟩
  obtain ⟨error, failedUncased, same⟩ := alike.exists_error failed
  have sameKind : error'.kind = error.kind := by
    rw [← CodecError.kind_unplaced, same, CodecError.kind_unplaced]
  exact ⟨error, failedUncased, sameKind, same⟩

/-- Shapes are given by a few sizes, or freely, with other shapes by name. -/
def shapeCodec : Codec where
  definitions :=
    { entries :=
        [("Shape", ⟨some (.ofForm (.union "shape_kind"
            [("round_dot", [⟨"outer_radius", .primitive .int32, false⟩]),
              ("free_form", [⟨"raw_data", .any, true⟩, ⟨"by_name", .values (.ref "Shape"), false⟩])])), none⟩)] }

/-- A shape around a round one. -/
def shapeAround (inner : Entries Value) : Value :=
  .union "free_form" [("by_name", .map [("inner_shape", .union "round_dot" inner)]),
    ("raw_data", .any (.obj [("shape_kind", .str "raw_kind"), ("outer_radius", .arr [.obj [("by_name", .null)]])]))]

theorem encodeJson_recased_shape :
    shapeCodec.encodeJson (shapeAround [("outer_radius", .int 3)]) (.ref "Shape") =
        .ok (.obj [("shapeKind", .str "free_form"),
          ("rawData", .obj [("shape_kind", .str "raw_kind"), ("outer_radius", .arr [.obj [("by_name", .null)]])]),
          ("byName", .obj [("inner_shape", .obj [("shapeKind", .str "round_dot"), ("outerRadius", .num (.int 3))])])]) ∧
      shapeCodec.encodeJson (shapeAround []) (.ref "Shape") = .error (.missingField "/byName/inner_shape/outerRadius") ∧
      ∃ error, shapeCodec.uncased.encodeJson (shapeAround []) (.ref "Shape") = .error error ∧
        error.kind = "MissingField" := by
  have recased := encodeJson_recased (c := shapeCodec) (t := .ref "Shape") (by decide) (by decide)
  have refused : shapeCodec.encodeJson (shapeAround []) (.ref "Shape") =
      .error (.missingField "/byName/inner_shape/outerRadius") := by rfl
  refine ⟨((recased _).1 _).2 ⟨_, by rfl, by rfl⟩, refused, ?_⟩
  obtain ⟨error, refusedUncased, sameKind, _⟩ := (recased _).2 _ refused
  exact ⟨error, refusedUncased, sameKind.symm⟩

end Codec

end SchemaRpc
