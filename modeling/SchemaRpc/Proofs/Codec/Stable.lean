import SchemaRpc.Proofs.Codec.Resent

/-!
# The wire form of decoded values is stable

The properties of objects and unions are sent on one by one, shadowed ones aside. With them every JSON value can be sent on
that a codec decodes, and `exists_encodeJson_of_decodeJson` says it of a whole value: the only text that is taken first and
refused when it is sent on is that of a timestamp whose offset takes it out of the years 0 to 9999.
-/

namespace SchemaRpc.Codec

variable {c : Codec} {t : TypeDef} {path : String} {depth : Nat} {json : Json} {v : Value}

section Fields

variable {properties : List (Property TypeDef)} {p : Property TypeDef} {taken : List String}
  {members : Json.Members} {decoders : Entries Decoder} {fields : Entries Value}

/-! ## One property -/

theorem isAbsent_of_readValue? (read : c.readValue? members path depth p = some v) : v.isAbsent = false := by
  obtain ⟨json, _, decoded⟩ := Option.bind_eq_some_iff.1 read
  cases result : decoder c json p.type (c.propertyPath path p) depth with
  | error error =>
      rw [result] at decoded
      cases decoded
  | ok v' =>
      rw [result] at decoded
      cases decoded
      exact isAbsent_of_decoder result

/-- The fields that were read are there. -/
theorem present?_readFields (names : (properties.map Property.name).Nodup) (member : p ∈ properties) :
    Value.present? p.name (Entries.ofPairs (readFields c members path depth properties)) =
      c.readValue? members path depth p := by
  have distinct : ((readFields c members path depth properties).map Prod.fst).Nodup := keys_collect_sublist.nodup names
  rw [Value.present?, Entries.find?_ofPairs distinct, readFields, lookup_collect names member]
  cases read : c.readValue? members path depth p with
  | none =>
      rfl
  | some v =>
      simp [Option.filter, isAbsent_of_readValue? read]

/-- Under other names no field was read. -/
theorem present?_readFields_of_not_mem {name : String} (names : (properties.map Property.name).Nodup)
    (fresh : name ∉ properties.map Property.name) :
    Value.present? name (Entries.ofPairs (readFields c members path depth properties)) = none := by
  have distinct : ((readFields c members path depth properties).map Prod.fst).Nodup := keys_collect_sublist.nodup names
  rw [Value.present?, Entries.find?_ofPairs distinct, readFields, lookup_collect_of_not_mem fresh]
  rfl

/-- A property of what was decoded: its field can be sent on, or is missing where it may be. -/
def FieldResends (c : Codec) (depth : Nat) (fields : Entries Value) (p : Property TypeDef) : Prop :=
  match Value.present? p.name fields with
  | none => p.optional = true
  | some v => ∃ json, Resends c depth p.type v json

/-- The timestamps in the field of a property have years from 0 to 9999. -/
def FieldDated (fields : Entries Value) (p : Property TypeDef) : Prop :=
  ∀ v, Value.present? p.name fields = some v → v.Everywhere Value.HasFourDigitYear

theorem fieldResends_of_fieldRead (names : (properties.map Property.name).Nodup) (member : p ∈ properties)
    (checked : p.type.Everywhere Form.Checked) (resendable : ∀ part ∈ (Json.obj members).parts, c.Resendable part)
    (read : FieldRead c members path depth p) :
    FieldResends c depth (Entries.ofPairs (readFields c members path depth properties)) p := by
  unfold FieldResends
  rw [present?_readFields names member, readValue?]
  cases found : members.get? (c.key p.name) with
  | none =>
      exact (fieldRead_of_missing found).1 read
  | some json =>
      obtain ⟨v, decoded⟩ := (fieldRead_of_found found).1 read
      rw [Option.bind_some, decoded]
      exact resendable json (Json.mem_parts_of_get? found) p.type _ depth v checked decoded

namespace FieldResends

theorem written (resends : FieldResends c depth fields p) (path path' : String) :
    FieldWritten c fields path depth p ∧
      c.writtenJson? fields path depth p = c.writtenJson? fields path' depth p := by
  unfold FieldResends at resends
  cases present : Value.present? p.name fields with
  | none =>
      rw [present] at resends
      refine ⟨(fieldWritten_of_missing present).2 resends, ?_⟩
      simp [writtenJson?, present]
  | some v =>
      rw [present] at resends
      obtain ⟨json, resends⟩ := resends
      refine ⟨(fieldWritten_of_present present).2 ⟨json, resends.encoded _⟩, ?_⟩
      simp [writtenJson?, present, resends.encoded]

/-- The member that is written for a property is read again exactly when its timestamps allow it. -/
theorem fieldRead_iff (resends : FieldResends c depth fields p)
    (agree : members.get? (c.key p.name) = c.writtenJson? fields path depth p) (path' : String) :
    FieldRead c members path' depth p ↔ FieldDated fields p := by
  unfold FieldResends at resends
  unfold FieldDated
  rw [writtenJson?] at agree
  cases present : Value.present? p.name fields with
  | none =>
      rw [present] at agree resends
      rw [fieldRead_of_missing agree]
      exact iff_of_true resends fun v same => by cases same
  | some v =>
      rw [present] at agree resends
      obtain ⟨json, resends⟩ := resends
      rw [Option.bind_some, resends.encoded] at agree
      rw [fieldRead_of_found agree]
      constructor
      · rintro ⟨v', decoded⟩ _ ⟨⟩
        exact resends.dated ⟨_, v', decoded⟩
      · exact fun dated => resends.taken (dated v rfl) _

/-- What is read from the member is written as the same member. -/
theorem resent {fields' : Entries Value} (resends : FieldResends c depth fields p)
    (agree : members.get? (c.key p.name) = c.writtenJson? fields path depth p) {path' : String}
    (read : FieldRead c members path' depth p)
    (same : Value.present? p.name fields' = c.readValue? members path' depth p) (path'' : String) :
    FieldWritten c fields' path'' depth p ∧
      c.writtenJson? fields' path'' depth p = c.writtenJson? fields path depth p := by
  unfold FieldResends at resends
  rw [readValue?] at same
  rw [← agree]
  rw [writtenJson?] at agree
  cases present : Value.present? p.name fields with
  | none =>
      rw [present] at agree resends
      rw [agree] at same ⊢
      refine ⟨(fieldWritten_of_missing same).2 resends, ?_⟩
      simp [writtenJson?, same]
  | some v =>
      rw [present] at agree resends
      obtain ⟨json, resends⟩ := resends
      rw [Option.bind_some, resends.encoded] at agree
      have found : members.get? (c.key p.name) = some json := agree
      obtain ⟨v', decoded⟩ := (fieldRead_of_found found).1 read
      rw [found] at same ⊢
      rw [Option.bind_some, decoded] at same
      have presentAgain : Value.present? p.name fields' = some v' := same
      have again := resends.fixed _ v' decoded (c.propertyPath path'' p)
      refine ⟨(fieldWritten_of_present presentAgain).2 ⟨json, again⟩, ?_⟩
      rw [writtenJson?, presentAgain, Option.bind_some, again]
      rfl

end FieldResends

/-! ## All properties -/

/-- How fields fare that are sent on. They are written behind the members `start`, whose keys are taken. -/
structure FieldsResend (c : Codec) (depth : Nat) (taken : List String) (properties : List (Property TypeDef))
    (fields : Entries Value) (start members : Json.Members) : Prop where
  encoded : ∀ path, encodeProperties c (fieldEncoders c fields) path depth start properties = .ok members
  once : (members.map Prod.fst).Nodup
  kept : ∀ key ∈ taken, members.get? key = start.get? key
  read : (∀ field ∈ fields, field.2.Everywhere Value.HasFourDigitYear) →
    ∀ path decoders, Remaining c taken members decoders →
      ∃ fields', decodeProperties c path depth decoders [] properties = .ok fields'
  dated : ∀ path decoders fields', Remaining c taken members decoders →
    decodeProperties c path depth decoders [] properties = .ok fields' →
      ∀ field ∈ fields, field.2.Everywhere Value.HasFourDigitYear
  fixed : ∀ path decoders fields', Remaining c taken members decoders →
    decodeProperties c path depth decoders [] properties = .ok fields' →
      ∀ path', encodeProperties c (fieldEncoders c fields') path' depth start properties = .ok members

theorem exists_property_of_mem (names : (properties.map Property.name).Nodup) {field : String × Value}
    (member : field ∈ Entries.ofPairs (readFields c members path depth properties)) :
    ∃ p ∈ properties,
      Value.present? p.name (Entries.ofPairs (readFields c members path depth properties)) = some field.2 := by
  obtain ⟨name, v⟩ := field
  have distinct : ((readFields c members path depth properties).map Prod.fst).Nodup := keys_collect_sublist.nodup names
  have found := Entries.find?_of_mem (Entries.ascending_ofPairs _) member
  rw [Entries.find?_ofPairs distinct] at found
  obtain ⟨p, declared, _, read⟩ := (lookup_collect_eq_some_iff names).1 found
  refine ⟨p, declared, ?_⟩
  rw [present?_readFields names declared]
  exact read

/-- A statement about the fields that were read is one about the properties. -/
theorem forall_fields_dated_iff (names : (properties.map Property.name).Nodup)
    (made : fields = Entries.ofPairs (readFields c members path depth properties)) :
    (∀ field ∈ fields, field.2.Everywhere Value.HasFourDigitYear) ↔ ∀ p ∈ properties, FieldDated fields p := by
  subst made
  constructor
  · intro all p _ v present
    exact all (p.name, v) (Entries.mem_of_find? (Option.filter_eq_some_iff.1 present).1)
  · intro all field member
    obtain ⟨p, declared, present⟩ := exists_property_of_mem names member
    exact all p declared field.2 present

/-- The members of the unshadowed properties stand behind those of the taken keys, each under its own key. -/
theorem get?_start_append {start : Json.Members} (startKeys : start.map Prod.fst = taken) (takenOnce : taken.Nodup) :
    let written := c.writtenMembers fields path depth (c.unshadowed taken properties)
    written.foldl (fun members (key, value) => members.set key value) start = start ++ written ∧
      ((start ++ written).map Prod.fst).Nodup ∧
      (∀ key ∈ taken, Json.Members.get? key (start ++ written) = start.get? key) ∧
      ∀ p ∈ c.unshadowed taken properties,
        Json.Members.get? (c.key p.name) (start ++ written) = c.writtenJson? fields path depth p := by
  intro written
  obtain ⟨distinct, free⟩ := @nodup_wireKeys_unshadowed c properties taken
  have keysOfWritten : (written.map Prod.fst).Sublist (Form.wireKeys c.casing (c.unshadowed taken properties)) :=
    keys_collect_sublist
  have once : ((start ++ written).map Prod.fst).Nodup := by
    rw [List.map_append, startKeys, List.nodup_append]
    refine ⟨takenOnce, keysOfWritten.nodup distinct, fun key isTaken other present same => ?_⟩
    subst same
    exact free key (keysOfWritten.subset present) isTaken
  refine ⟨Json.Members.foldl_set_of_nodup written start once, once, fun key isTaken => ?_, fun p member => ?_⟩
  · have missing : written.lookup key = none :=
      lookup_eq_none_of_not_mem fun present => free key (keysOfWritten.subset present) isTaken
    rw [Json.Members.get?, List.lookup_append, missing, Option.or_none]
    rfl
  · have missing : start.lookup (c.key p.name) = none := by
      refine lookup_eq_none_of_not_mem fun present => ?_
      rw [startKeys] at present
      exact free _ (mem_wireKeys member) present
    rw [Json.Members.get?, List.lookup_append, missing, Option.none_or]
    exact get?_writtenMembers distinct member

theorem exists_fieldsResend {start : Json.Members} (startKeys : start.map Prod.fst = taken) (takenOnce : taken.Nodup)
    (remaining : Remaining c taken members decoders) (names : (properties.map Property.name).Nodup)
    (checked : ∀ p ∈ properties, p.type.Everywhere Form.Checked)
    (resendable : ∀ part ∈ (Json.obj members).parts, c.Resendable part)
    (decoded : decodeProperties c path depth decoders [] properties = .ok fields) :
    ∃ members', FieldsResend c depth taken properties fields start members' := by
  obtain ⟨mayMiss, read, made⟩ := remaining.decodeProperties_eq_ok_iff.1 decoded
  obtain ⟨namesRead, apart⟩ := @nodup_names_unshadowed c properties taken names
  have resends : ∀ p ∈ c.unshadowed taken properties, FieldResends c depth fields p := by
    intro p member
    have declared : p ∈ properties := mem_iff_unshadowed_or_shadowed.2 (.inl member)
    rw [made]
    exact fieldResends_of_fieldRead namesRead member (checked p declared) resendable (read p member)
  have encodedAs : ∀ (fields' : Entries Value) (path' : String) (written : Json.Members),
      (∀ p ∈ c.shadowed taken properties, Value.present? p.name fields' = none) →
      (∀ p ∈ c.unshadowed taken properties, FieldWritten c fields' path' depth p) →
      writtenMembers c fields' path' depth (c.unshadowed taken properties) = written →
      encodeProperties c (fieldEncoders c fields') path' depth start properties =
        .ok (written.foldl (fun members (key, value) => members.set key value) start) := by
    rintro fields' path' written missing each rfl
    refine encodeProperties_eq_ok_iff.2 ⟨fun p declared => ?_, ?_⟩
    · rcases mem_iff_unshadowed_or_shadowed.1 declared with isRead | isShadowed
      · exact each p isRead
      · exact (fieldWritten_of_missing (missing p isShadowed)).2 (mayMiss p isShadowed)
    · rw [writtenMembers_unshadowed missing]
  obtain ⟨appended, once, kept, agree⟩ :=
    @get?_start_append c rootPath depth properties taken fields start startKeys takenOnce
  refine ⟨_, ?encoded, once, kept, ?read, ?dated, ?fixed⟩
  case encoded =>
    intro path'
    rw [← appended]
    refine encodedAs fields path' _ (fun p isShadowed => ?_) (fun p member => ((resends p member).written path' path').1) ?_
    · rw [made]
      exact present?_readFields_of_not_mem namesRead (apart p isShadowed)
    · exact writtenMembers_congr fun p member => ((resends p member).written path' rootPath).2
  case read =>
    intro dated path' decoders' remaining'
    have datedFields := (forall_fields_dated_iff namesRead made).1 dated
    refine ⟨_, remaining'.decodeProperties_eq_ok_iff.2 ⟨mayMiss, fun p member => ?_, rfl⟩⟩
    exact ((resends p member).fieldRead_iff (agree p member) path').2 (datedFields p member)
  case dated =>
    intro path' decoders' fields' remaining' decoded'
    obtain ⟨_, read', _⟩ := remaining'.decodeProperties_eq_ok_iff.1 decoded'
    refine (forall_fields_dated_iff namesRead made).2 fun p member => ?_
    exact ((resends p member).fieldRead_iff (agree p member) path').1 (read' p member)
  case fixed =>
    intro path' decoders' fields' remaining' decoded' path''
    obtain ⟨_, read', made'⟩ := remaining'.decodeProperties_eq_ok_iff.1 decoded'
    have again := fun p member => (resends p member).resent (agree p member) (read' p member)
      (made' ▸ present?_readFields namesRead member) path''
    rw [← appended]
    refine encodedAs fields' path'' _ (fun p isShadowed => ?_) (fun p member => (again p member).1) ?_
    · rw [made']
      exact present?_readFields_of_not_mem namesRead (apart p isShadowed)
    · exact writtenMembers_congr fun p member => (again p member).2

/-! ## Objects and unions -/

theorem exists_resends_object (reached : c.target t = .ok (.object properties))
    (names : (properties.map Property.name).Nodup) (checked : ∀ p ∈ properties, p.type.Everywhere Form.Checked)
    (once : (members.map Prod.fst).Nodup) (resendable : ∀ part ∈ (Json.obj members).parts, c.Resendable part)
    (allowed : depth + 1 ≤ c.maxDepth)
    (decoded : decodeProperties c path (depth + 1) (memberDecoders c members) [] properties = .ok fields) :
    ∃ json', Resends c depth t (.object fields) json' := by
  obtain ⟨members', resends⟩ :=
    @exists_fieldsResend c path (depth + 1) properties [] members _ fields [] rfl .nil (remaining_object once) names
      checked resendable decoded
  have remaining := @remaining_object c members' resends.once
  have notNull := Json.obj_ne_null members'
  refine ⟨.obj members', ?_⟩
  constructor
  case encoded =>
    exact fun path => encoder_object_eq_ok_iff.2 ⟨properties, reached, allowed, members', resends.encoded path, rfl⟩
  case taken =>
    intro dated path
    obtain ⟨fields', decodedAgain⟩ := resends.read ((Value.everywhere_object trivial).1 dated) path _ remaining
    exact ⟨_, (decoder_object_eq_ok_iff reached notNull).2 ⟨members', rfl, allowed, fields', decodedAgain, rfl⟩⟩
  case dated =>
    rintro ⟨path, v', decodedAgain⟩
    obtain ⟨_, same, _, fields', decodedFields, _⟩ := (decoder_object_eq_ok_iff reached notNull).1 decodedAgain
    cases same
    exact (Value.everywhere_object trivial).2 (resends.dated path _ fields' remaining decodedFields)
  case fixed =>
    intro path v' decodedAgain path'
    obtain ⟨_, same, _, fields', decodedFields, rfl⟩ := (decoder_object_eq_ok_iff reached notNull).1 decodedAgain
    cases same
    exact encoder_object_eq_ok_iff.2
      ⟨properties, reached, allowed, members', resends.fixed path _ fields' remaining decodedFields path', rfl⟩

theorem exists_resends_union {key tag : String} {mapping : List (String × List (Property TypeDef))}
    (reached : c.target t = .ok (.union key mapping)) (listed : mapping.lookup tag = some properties)
    (names : (properties.map Property.name).Nodup) (checked : ∀ p ∈ properties, p.type.Everywhere Form.Checked)
    (once : (members.map Prod.fst).Nodup) (resendable : ∀ part ∈ (Json.obj members).parts, c.Resendable part)
    (allowed : depth + 1 ≤ c.maxDepth)
    (decoded : decodeProperties c path (depth + 1) ((memberDecoders c members).erase (c.key key)) [] properties =
      .ok fields) :
    ∃ json', Resends c depth t (.union tag fields) json' := by
  obtain ⟨members', resends⟩ :=
    @exists_fieldsResend c path (depth + 1) properties [c.key key] members _ fields [(c.key key, .str tag)] rfl
      (List.pairwise_singleton _ _) (remaining_union once (c.key key)) names checked resendable decoded
  have remaining := @remaining_union c members' resends.once (c.key key)
  have tagged : members'.get? (c.key key) = some (.str tag) := by
    rw [resends.kept _ List.mem_cons_self]
    simp [Json.Members.get?]
  have notNull := Json.obj_ne_null members'
  -- the tag that is read is the one that was written
  have readAgain : ∀ path v', decoder c (.obj members') t path depth = .ok v' →
      ∃ fields', decodeProperties c path (depth + 1) ((memberDecoders c members').erase (c.key key)) [] properties =
        .ok fields' ∧ v' = .union tag fields' := by
    intro path v' decodedAgain
    obtain ⟨_, tag', properties', same, tagged', listed', _, fields', decodedFields, made⟩ :=
      (decoder_union_eq_ok_iff reached notNull).1 decodedAgain
    cases same
    rw [tagged] at tagged'
    cases tagged'
    rw [listed] at listed'
    cases listed'
    exact ⟨fields', decodedFields, made⟩
  refine ⟨.obj members', ?_⟩
  constructor
  case encoded =>
    exact fun path => encoder_union_eq_ok_iff.2
      ⟨key, mapping, properties, reached, listed, allowed, members', resends.encoded path, rfl⟩
  case taken =>
    intro dated path
    obtain ⟨fields', decodedAgain⟩ := resends.read ((Value.everywhere_union trivial).1 dated) path _ remaining
    exact ⟨_, (decoder_union_eq_ok_iff reached notNull).2
      ⟨members', tag, properties, rfl, tagged, listed, allowed, fields', decodedAgain, rfl⟩⟩
  case dated =>
    rintro ⟨path, v', decodedAgain⟩
    obtain ⟨fields', decodedFields, _⟩ := readAgain path v' decodedAgain
    exact (Value.everywhere_union trivial).2 (resends.dated path _ fields' remaining decodedFields)
  case fixed =>
    intro path v' decodedAgain path'
    obtain ⟨fields', decodedFields, rfl⟩ := readAgain path v' decodedAgain
    exact encoder_union_eq_ok_iff.2
      ⟨key, mapping, properties, reached, listed, allowed, members',
        resends.fixed path _ fields' remaining decodedFields path', rfl⟩

end Fields

/-! ## All JSON -/

theorem resendable_of_parts (bodies : c.definitions.Everywhere Form.Checked) (stored : json.Stored)
    (each : ∀ part ∈ json.parts, c.Resendable part) : c.Resendable json := by
  intro t path depth v checked decoded
  by_cases isNull : json = .null
  · subst isNull
    exact ⟨.null, resends_null decoded⟩
  obtain ⟨form, reached⟩ := exists_target_of_decoder isNull decoded
  obtain ⟨s, _, sameForm, checkedTarget⟩ := exists_everywhere_of_target reached checked bodies
  have checkedForm := checkedTarget.here_of_form sameForm
  cases form with
  | any =>
      cases (decoder_any_eq_ok_iff reached isNull).1 decoded
      exact ⟨json, resends_any reached isNull⟩
  | primitive kind =>
      have scalar := (decoder_scalar_eq_ok_iff reached (.inl ⟨kind, rfl⟩) isNull).1 decoded
      exact exists_resends_scalar reached (.inl ⟨kind, rfl⟩) (writable_of_decodeScalar stored scalar)
  | enumeration listed =>
      have scalar := (decoder_scalar_eq_ok_iff reached (.inr ⟨listed, rfl⟩) isNull).1 decoded
      exact exists_resends_scalar reached (.inr ⟨listed, rfl⟩) (writable_of_decodeScalar stored scalar)
  | elements item =>
      obtain ⟨items, rfl, allowed, vs, decodedItems, rfl⟩ := (decoder_elements_eq_ok_iff reached isNull).1 decoded
      exact exists_resends_array reached (checkedTarget.elements sameForm) each allowed decodedItems
  | values item =>
      obtain ⟨members, rfl, allowed, entries, decodedEntries, rfl⟩ :=
        (decoder_values_eq_ok_iff reached isNull).1 decoded
      exact exists_resends_map reached (checkedTarget.values sameForm) each allowed decodedEntries
  | object properties =>
      obtain ⟨members, rfl, allowed, fields, decodedFields, rfl⟩ :=
        (decoder_object_eq_ok_iff reached isNull).1 decoded
      exact exists_resends_object reached checkedForm (checkedTarget.object sameForm) stored each allowed decodedFields
  | ref name =>
      exact absurd reached target_ne_ref
  | union key mapping =>
      obtain ⟨members, tag, properties, rfl, tagged, listed, allowed, fields, decodedFields, rfl⟩ :=
        (decoder_union_eq_ok_iff reached isNull).1 decoded
      have variant : (tag, properties) ∈ mapping := mem_of_lookup listed
      have names := (List.nodup_cons.1 (checkedForm.2 _ variant)).2
      exact exists_resends_union reached listed names (checkedTarget.union sameForm _ variant) stored each allowed
        decodedFields

theorem resendable (bodies : c.definitions.Everywhere Form.Checked) (json : Json) :
    json.Everywhere Json.Stored → c.Resendable json := by
  induction json using Json.induct with
  | step json each =>
      intro stored
      exact resendable_of_parts bodies stored.here fun part held => each part held (stored.parts part held)

/-- A value that was decoded is written. What is written is decoded exactly when all timestamps of the value have years from 0 to
9999, and whatever is decoded from it is written as the same JSON. -/
theorem exists_encodeJson_of_decodeJson (checked : t.Everywhere Form.Checked)
    (checkedBodies : c.definitions.Everywhere Form.Checked) (stored : json.Everywhere Json.Stored)
    (decoded : c.decodeJson json t = .ok v) :
    ∃ json', c.encodeJson v t = .ok json' ∧
      ((∃ v', c.decodeJson json' t = .ok v') ↔ v.Everywhere Value.HasFourDigitYear) ∧
      ∀ v', c.decodeJson json' t = .ok v' → c.encodeJson v' t = .ok json' := by
  obtain ⟨json', resends⟩ := resendable checkedBodies json stored t rootPath 0 v checked decoded
  refine ⟨json', resends.encoded rootPath, ⟨?_, ?_⟩, ?_⟩
  · rintro ⟨v', decodedAgain⟩
    exact resends.dated ⟨rootPath, v', decodedAgain⟩
  · exact fun dated => resends.taken dated rootPath
  · exact fun v' decodedAgain => resends.fixed rootPath v' decodedAgain rootPath

/-- Events with two properties of one wire key: `userId` is shadowed by `user_id`. -/
def eventCodec : Codec where
  definitions :=
    { entries :=
        [("Event", ⟨some (.object [⟨"at", .primitive .timestamp, false⟩, ⟨"user_id", .primitive .int64, false⟩,
            ⟨"userId", .primitive .string, true⟩, ⟨"tags", .elements ((TypeDef.primitive .string).withNullable true), true⟩,
            ⟨"extra", .any, true⟩]), some 0⟩)] }

/-- A leap second with an offset and digits below the millisecond, an integer with a sign and leading zeros, nulls, and a
key that is not declared. -/
def leapEvent : Json :=
  .obj [("userId", .str "+007"), ("at", .str "2017-01-01 00:59:60.1234567+01:00"), ("extra", .null),
    ("tags", .arr [.null, .str "late"]), ("note", .num (.int 1))]

theorem stored_leapEvent : leapEvent.Everywhere Json.Stored := by
  have scalar : ∀ {json : Json}, json.parts = [] → json.Stored → json.Everywhere Json.Stored := fun none stored =>
    .intro stored (by rw [none]; exact List.forall_mem_nil _)
  have tags : (Json.arr [.null, .str "late"]).Everywhere Json.Stored :=
    .intro trivial (List.forall_mem_cons.2 ⟨scalar rfl trivial, List.forall_mem_singleton.2 (scalar rfl trivial)⟩)
  refine .intro (show List.Nodup _ by decide) ?_
  exact List.forall_mem_cons.2 ⟨scalar rfl trivial, List.forall_mem_cons.2 ⟨scalar rfl trivial,
    List.forall_mem_cons.2 ⟨scalar rfl trivial, List.forall_mem_cons.2 ⟨tags,
      List.forall_mem_singleton.2 (scalar rfl ⟨by decide, by decide⟩)⟩⟩⟩⟩

def leapEventValue : Value :=
  .object [("at", .timestamp ⟨1483228799, 1123456700⟩), ("extra", .any .null), ("tags", .array [.null, .str "late"]),
    ("user_id", .int 7)]

theorem decodeJson_leapEvent : eventCodec.decodeJson leapEvent (.ref "Event") = .ok leapEventValue := by
  have leap : Timestamp.ofText? "2017-01-01 00:59:60.1234567+01:00" = some ⟨1483228799, 1123456700⟩ := by
    decide +kernel
  have scalar : decodeScalar (.str "2017-01-01 00:59:60.1234567+01:00") (.primitive .timestamp) "/at" =
      .ok (.timestamp ⟨1483228799, 1123456700⟩) := by
    rw [decodeScalar_timestamp, decodeTimestamp, leap]
  have decodedLeap : decoder eventCodec (.str "2017-01-01 00:59:60.1234567+01:00") (.primitive .timestamp) "/at" 1 =
      .ok (.timestamp ⟨1483228799, 1123456700⟩) :=
    (decoder_scalar_eq_ok_iff (by rfl) (.inl ⟨_, rfl⟩) (by rintro ⟨⟩)).2 scalar
  refine (decoder_object_eq_ok_iff (by rfl) (Json.obj_ne_null _)).2 ⟨_, rfl, by decide, _, ?_, rfl⟩
  rw [decodeProperties_cons_some (p := ⟨"at", .primitive .timestamp, false⟩) (by rfl)]
  exact (Except.bind_of_eq_ok decodedLeap).trans (by rfl)

theorem exists_encodeJson_of_decodeJson_leapEvent :
    eventCodec.decodeJson leapEvent (.ref "Event") = .ok leapEventValue ∧
      ∃ json', eventCodec.encodeJson leapEventValue (.ref "Event") = .ok json' ∧
        ((∃ v', eventCodec.decodeJson json' (.ref "Event") = .ok v') ↔
          leapEventValue.Everywhere Value.HasFourDigitYear) ∧
        ∀ v', eventCodec.decodeJson json' (.ref "Event") = .ok v' →
          eventCodec.encodeJson v' (.ref "Event") = .ok json' :=
  ⟨decodeJson_leapEvent,
    exists_encodeJson_of_decodeJson (by decide) (by decide) stored_leapEvent decodeJson_leapEvent⟩

/-- An hour west of UTC the last second of the year 9999 lies in the year 10000: the text is read, but not the one that is
written for it. -/
theorem lastHour_not_resent :
    ¬ ∀ (c : Codec) (t : TypeDef) (json : Json) (v : Value), t.Everywhere Form.Checked →
        c.definitions.Everywhere Form.Checked → json.Everywhere Json.Stored → c.decodeJson json t = .ok v →
          ∃ json' v', c.encodeJson v t = .ok json' ∧ c.decodeJson json' t = .ok v' ∧ c.encodeJson v' t = .ok json' := by
  intro stable
  have stored : (Json.str "9999-12-31T23:59:59-01:00").Everywhere Json.Stored := .intro trivial (List.forall_mem_nil _)
  obtain ⟨json', v', encoded, decoded, _⟩ :=
    stable {} (.primitive .timestamp) _ (.timestamp ⟨253402304399, 0⟩) (by decide) (by decide) stored (by rfl)
  have written : json' = .str "+10000-01-01T00:59:59.000Z" :=
    Except.ok.inj (encoded.symm.trans (by rfl))
  rw [written] at decoded
  have refused : Codec.decodeJson {} (.str "+10000-01-01T00:59:59.000Z") (.primitive .timestamp) =
      .error (.typeMismatch "/" "timestamp" "string") := by rfl
  rw [refused] at decoded
  cases decoded

end SchemaRpc.Codec
