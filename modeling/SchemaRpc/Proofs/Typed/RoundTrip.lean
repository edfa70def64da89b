import SchemaRpc.Proofs.Codec.RoundTrip
import SchemaRpc.Proofs.Typed.Decoded
import SchemaRpc.Proofs.Typed.HasType

/-!
# Typed data there and back

A datum is written as its value and read back from what is decoded. Wrappers leave no trace of their own on the wire, so two
of them must not stand for the same: `Apart` is the condition on nested wrappers. The induction is on the datum with its type.
-/

namespace SchemaRpc

open Introspection Catalog

variable {n : Nat} {types : TypeCatalog n} {c : Codec}

namespace Ty

/-- Null is a datum of the type itself. -/
def holdsNull : Ty n → Bool
  | option _ | json => true
  | _ => false

/-- No wrapper that takes null stands directly around a type that holds null. -/
def Apart : Ty n → Prop
  | list item => item.Apart
  | map item => item.Apart
  | option inner => inner.holdsNull = false ∧ inner.Apart
  | optional inner => inner.Apart
  | field inner => inner.holdsNull = false ∧ inner.Apart
  | _ => True

instance : (ty : Ty n) → Decidable ty.Apart
  | list item => instDecidableApart item
  | map item => instDecidableApart item
  | option inner => @instDecidableAnd _ _ _ (instDecidableApart inner)
  | optional inner => instDecidableApart inner
  | field inner => @instDecidableAnd _ _ _ (instDecidableApart inner)
  | bool | int _ | float32 | float64 | string | timestamp | json | unit | wide _ | declared _ => isTrue trivial

end Ty

/-- No two keys of one object of these members coincide on the wire. -/
def Members.WireDistinct {τ : Type} (casing : Casing) : Members τ → Prop
  | record declared => (declared.map fun field => casing.apply field.name).Nodup
  | union key variants =>
      ∀ variant ∈ variants, (casing.apply key :: variant.fields.map fun field => casing.apply field.name).Nodup
  | enumeration _ => True

instance {τ : Type} (casing : Casing) : (members : Members τ) → Decidable (members.WireDistinct casing)
  | .record declared => inferInstanceAs (Decidable (declared.map fun field => casing.apply field.name).Nodup)
  | .union key variants =>
      inferInstanceAs
        (Decidable (∀ variant ∈ variants,
          (casing.apply key :: variant.fields.map fun field => casing.apply field.name).Nodup))
  | .enumeration _ => isTrue trivial

/-- Declared types whose data keep apart on the wire, with all that they lead to. -/
structure TypeCatalog.KeepApart (types : TypeCatalog n) (casing : Casing) (reached : Fin n → Prop) : Prop where
  distinct : ∀ slot, reached slot → (types.get slot).members.WireDistinct casing
  apart : ∀ slot, reached slot → ∀ type ∈ (types.get slot).members.types, type.Apart
  closed : ∀ slot, reached slot → ∀ type ∈ (types.get slot).members.types, ∀ other ∈ type.shape.slots, reached other

namespace Datum

variable {d : Datum} {ty inner item : Ty n} {t : TypeDef} {form : Form TypeDef}

/-- Whatever a datum is written as is read as the datum again. -/
def Returns (types : TypeCatalog n) (c : Codec) (d : Datum) (ty : Ty n) (t : TypeDef) : Prop :=
  ∀ path path' depth json, Codec.encoder c d.toValue t path depth = .ok json →
    ∃ v, Codec.decoder c json t path' depth = .ok v ∧ v.isAbsent = false ∧ reader types v ty = .ok d

/-- It is read again, and null plays no part in it. -/
def ReturnsNotNull (types : TypeCatalog n) (c : Codec) (d : Datum) (ty : Ty n) (t : TypeDef) : Prop :=
  ∀ path path' depth json, Codec.encoder c d.toValue t path depth = .ok json →
    ∃ v, Codec.decoder c json t path' depth = .ok v ∧ v.isAbsent = false ∧ v.isNull = false ∧ reader types v ty = .ok d

theorem ReturnsNotNull.returns (returns : ReturnsNotNull types c d ty t) : Returns types c d ty t := by
  intro path path' depth json encoded
  obtain ⟨v, decoded, present, _, read⟩ := returns path path' depth json encoded
  exact ⟨v, decoded, present, read⟩

/-! ## Wrappers -/

theorem returnsNotNull_option (returns : ReturnsNotNull types c d inner t) :
    ReturnsNotNull types c d.present (.option inner) t := by
  intro path path' depth json encoded
  obtain ⟨v, decoded, present, notNull, read⟩ := returns path path' depth json encoded
  refine ⟨v, decoded, present, notNull, ?_⟩
  rw [reader_option, notNull, present, read]
  rfl

theorem returnsNotNull_field (returns : ReturnsNotNull types c d inner t) :
    ReturnsNotNull types c d.present (.field inner) t := by
  intro path path' depth json encoded
  obtain ⟨v, decoded, present, notNull, read⟩ := returns path path' depth json encoded
  refine ⟨v, decoded, present, notNull, ?_⟩
  rw [reader_field, notNull, present, read]
  rfl

theorem returns_optional (returns : Returns types c d inner t) : Returns types c d.present (.optional inner) t := by
  intro path path' depth json encoded
  obtain ⟨v, decoded, present, read⟩ := returns path path' depth json encoded
  refine ⟨v, decoded, present, ?_⟩
  rw [reader_optional, present, read]
  rfl

/-- Where null is allowed it is read as null again. -/
theorem returns_null (nullable : t.nullable = true) (read : reader types .null ty = .ok .null) :
    Returns types c .null ty t := by
  intro path path' depth json encoded
  obtain ⟨_, rfl⟩ := Codec.encoder_null_eq_ok_iff.1 encoded
  exact ⟨.null, Codec.decoder_null_eq_ok_iff.2 (.inl ⟨nullable, rfl⟩), rfl, read⟩

/-! ## Scalars -/

theorem returns_json {j : Json} (carried : t.form = .any) (nullable : t.nullable = false) :
    Returns types c (.json j) .json t := by
  intro path path' depth json encoded
  have reached : c.target t = .ok .any := Codec.target_of_form carried nofun
  obtain ⟨form, reached', written⟩ := (Codec.encoder_scalar_eq_ok_iff (Value.isScalar_any j)).1 encoded
  rw [reached] at reached'
  cases reached'
  cases Codec.encodeScalar_any written
  by_cases isNull : j = .null
  · subst isNull
    exact ⟨.any .null, Codec.decoder_null_eq_ok_iff.2 (.inr ⟨nullable, Codec.isAny_iff.2 carried, rfl⟩), rfl, rfl⟩
  · exact ⟨.any j, (Codec.decoder_any_eq_ok_iff reached isNull).2 rfl, rfl, rfl⟩

/-- A scalar is read in its canonical form. -/
theorem returnsNotNull_scalar (scalar : d.toValue.IsScalar) (told : d.toValue.HasProperTime)
    (sameForm : t.form = form) (scalarForm : (∃ kind, form = .primitive kind) ∨ ∃ listed, form = .enumeration listed)
    (read : reader types (Codec.canonicalScalar d.toValue (some form)) ty = .ok d) : ReturnsNotNull types c d ty t := by
  intro path path' depth json encoded
  have plain : form ≠ .any ∧ ∀ name, form ≠ .ref name := by
    rcases scalarForm with ⟨kind, rfl⟩ | ⟨listed, rfl⟩
    · exact ⟨by rintro ⟨⟩, by rintro name ⟨⟩⟩
    · exact ⟨by rintro ⟨⟩, by rintro name ⟨⟩⟩
  have reached : c.target t = .ok form := Codec.target_of_form sameForm plain.2
  obtain ⟨form', reached', written⟩ := (Codec.encoder_scalar_eq_ok_iff scalar).1 encoded
  rw [reached] at reached'
  cases reached'
  obtain ⟨_, notNull, decoded, _⟩ := @Codec.roundTrip_scalar path path' json _ _ scalar plain.1 told written
  have scalarAgain := Codec.isScalar_canonicalScalar scalar (some form)
  exact ⟨_, (Codec.decoder_scalar_eq_ok_iff reached scalarForm notNull).2 decoded,
    Codec.isAbsent_of_isScalar scalarAgain, Codec.isNull_of_isScalar scalarAgain, read⟩

theorem returnsNotNull_signed {kind : IntKind} {i : Int64} (sameForm : t.form = .primitive kind.toPrimitive)
    (isSigned : kind.toPrimitive.isUnsigned = false) (inRange : kind.toPrimitive.inRange i.toInt = true) :
    ReturnsNotNull types c (.signed i) (.int kind) t := by
  refine returnsNotNull_scalar trivial trivial sameForm (.inl ⟨_, rfl⟩) ?_
  have same : integer kind i.toInt = .signed i := by
    simp [integer, isSigned]
  have read : reader types (Codec.canonicalInteger i.toInt kind.toPrimitive) (.int kind) = .ok (integer kind i.toInt) :=
    reader_canonicalInteger inRange
  rw [same] at read
  exact read

theorem returnsNotNull_unsigned {kind : IntKind} {u : UInt64} (sameForm : t.form = .primitive kind.toPrimitive)
    (isUnsigned : kind.toPrimitive.isUnsigned = true) (inRange : kind.toPrimitive.inRange u.toNat = true) :
    ReturnsNotNull types c (.unsigned u) (.int kind) t := by
  refine returnsNotNull_scalar trivial trivial sameForm (.inl ⟨_, rfl⟩) ?_
  have same : integer kind u.toNat = .unsigned u := by
    simp [integer, isUnsigned]
  have read : reader types (Codec.canonicalInteger u.toNat kind.toPrimitive) (.int kind) = .ok (integer kind u.toNat) :=
    reader_canonicalInteger inRange
  rw [same] at read
  exact read

theorem returnsNotNull_timestamp {at_ : Timestamp} (sameForm : t.form = .primitive .timestamp)
    (whole : (Datum.timestamp at_).HasWholeTime) (inPlace : (Datum.timestamp at_).HasLeapInPlace) :
    ReturnsNotNull types c (.timestamp at_) .timestamp t := by
  obtain ⟨nanos_lt, fourDigits, same⟩ := whole
  refine returnsNotNull_scalar trivial ⟨⟨nanos_lt, inPlace⟩, fourDigits⟩ sameForm (.inl ⟨_, rfl⟩) ?_
  rw [toValue, Codec.canonicalScalar, same]
  rfl

theorem returnsNotNull_float32 {x : Binary64} (sameForm : t.form = .primitive .float32) (single : x.roundToSingle = x) :
    ReturnsNotNull types c (.float x) .float32 t := by
  refine returnsNotNull_scalar trivial trivial sameForm (.inl ⟨_, rfl⟩) ?_
  have read : reader types (.float x) .float32 = .ok (.float x.roundToSingle) := rfl
  rw [single] at read
  exact read

/-! ## Items and entries -/

theorem exists_decodeItems_of_returns {s : TypeDef} {items : List Datum} {path path' : String} {depth index : Nat}
    {jsons : List Json} (index' : Nat) (each : ∀ d ∈ items, Returns types c d item s)
    (encoded : Codec.encodeItems c s path depth index (listToValues items) = .ok jsons) :
    ∃ vs, Codec.decodeItems c s path' depth index' jsons = .ok vs ∧
      List.Forall₂ (fun v d => reader types v item = .ok d) vs items := by
  induction items generalizing index index' jsons with
  | nil =>
      cases encoded
      exact ⟨[], rfl, .nil⟩
  | cons head tail inductionHypothesis =>
      obtain ⟨returnsHead, returnsTail⟩ := List.forall_mem_cons.1 each
      obtain ⟨json, encodedHead, rest⟩ := Except.bind_eq_ok_iff.1 encoded
      obtain ⟨others, encodedTail, written⟩ := Except.bind_eq_ok_iff.1 rest
      cases written
      obtain ⟨v, decodedHead, _, readHead⟩ :=
        returnsHead _ (childPath path' (toString index')) depth json encodedHead
      obtain ⟨vs, decodedTail, readTail⟩ := inductionHypothesis (index' + 1) returnsTail encodedTail
      refine ⟨v :: vs, ?_, .cons readHead readTail⟩
      exact Except.bind_eq_ok_iff.2 ⟨v, decodedHead, Except.bind_eq_ok_iff.2 ⟨vs, decodedTail, rfl⟩⟩

theorem returnsNotNull_list {s : TypeDef} {items : List Datum} (sameForm : t.form = .elements s)
    (each : ∀ d ∈ items, Returns types c d item s) : ReturnsNotNull types c (.list items) (.list item) t := by
  intro path path' depth json encoded
  have reached : c.target t = .ok (.elements s) := Codec.target_of_form sameForm nofun
  obtain ⟨s', reached', allowed, jsons, encodedItems, rfl⟩ := Codec.encoder_array_eq_ok_iff.1 encoded
  rw [reached] at reached'
  cases reached'
  obtain ⟨vs, decodedItems, read⟩ := @exists_decodeItems_of_returns n types c item s items path path' _ 0 jsons 0 each
    encodedItems
  refine ⟨.array vs, ?_, rfl, rfl, ?_⟩
  · exact (Codec.decoder_elements_eq_ok_iff reached (Json.arr_ne_null jsons)).2
      ⟨jsons, rfl, allowed, vs, decodedItems, rfl⟩
  · exact reader_list.trans (Except.map_eq_ok_iff.2 ⟨items, ofItems_eq_ok_iff.2 read, rfl⟩)

/-- Entries in ascending key order are read one after the other. -/
theorem exists_decodeEntries_of_returns {s : TypeDef} {entries : List (String × Datum)} {path path' : String}
    {depth : Nat} {members : Json.Members} (done : Entries Value)
    (each : ∀ entry ∈ entries, Returns types c entry.2 item s)
    (ascending : (done.map Prod.fst ++ entries.map Prod.fst).Pairwise (· < ·))
    (encoded : Codec.encodeEntries c s path depth (pairsToValues entries) = .ok members) :
    ∃ read, Codec.decodeEntries c s path' depth done members = .ok (done ++ read) ∧
      List.Forall₂ (fun found entry => entry.1 = found.1 ∧ reader types found.2 item = .ok entry.2) read entries := by
  induction entries generalizing done members with
  | nil =>
      cases encoded
      exact ⟨[], congrArg _ (List.append_nil done).symm, .nil⟩
  | cons head tail inductionHypothesis =>
      obtain ⟨key, d⟩ := head
      obtain ⟨returnsHead, returnsTail⟩ := List.forall_mem_cons.1 each
      obtain ⟨json, encodedHead, rest⟩ := Except.bind_eq_ok_iff.1 encoded
      obtain ⟨others, encodedTail, written⟩ := Except.bind_eq_ok_iff.1 rest
      cases written
      obtain ⟨v, decodedHead, _, readHead⟩ := returnsHead _ (childPath path' key) depth json encodedHead
      have last : done.insert key v = done ++ [(key, v)] := by
        refine Entries.insert_of_forall_lt fun entry member => ?_
        exact (List.pairwise_append.1 ascending).2.2 entry.1 (List.mem_map_of_mem member) key List.mem_cons_self
      have ascendingNext : ((done.insert key v).map Prod.fst ++ tail.map Prod.fst).Pairwise (· < ·) := by
        rw [last]
        simpa using ascending
      obtain ⟨read, decodedTail, readTail⟩ := inductionHypothesis _ returnsTail ascendingNext encodedTail
      refine ⟨(key, v) :: read, Except.bind_eq_ok_iff.2 ⟨v, decodedHead, ?_⟩, .cons ⟨rfl, readHead⟩ readTail⟩
      rw [decodedTail, last, List.append_assoc]
      rfl

theorem returnsNotNull_map {s : TypeDef} {entries : List (String × Datum)} (sameForm : t.form = .values s)
    (ascending : Entries.Ascending entries) (each : ∀ entry ∈ entries, Returns types c entry.2 item s) :
    ReturnsNotNull types c (.map entries) (.map item) t := by
  intro path path' depth json encoded
  have reached : c.target t = .ok (.values s) := Codec.target_of_form sameForm nofun
  have ascendingKeys : (entries.map Prod.fst).Pairwise (· < ·) := Codec.ascending_iff_keys.1 ascending
  have kept : Entries.ofPairs (pairsToValues entries) = pairsToValues entries := by
    refine Entries.ofPairs_of_ascending (Codec.ascending_iff_keys.2 ?_)
    rw [keys_pairsToValues]
    exact ascendingKeys
  rw [toValue, kept] at encoded
  obtain ⟨s', reached', allowed, members, encodedEntries, rfl⟩ := Codec.encoder_map_eq_ok_iff.1 encoded
  rw [reached] at reached'
  cases reached'
  obtain ⟨found, decodedEntries, read⟩ := @exists_decodeEntries_of_returns n types c item s entries path path' _ members []
    each ascendingKeys encodedEntries
  refine ⟨.map found, ?_, rfl, rfl, ?_⟩
  · exact (Codec.decoder_values_eq_ok_iff reached (Json.obj_ne_null members)).2
      ⟨members, rfl, allowed, found, decodedEntries, rfl⟩
  · exact reader_map.trans (Except.map_eq_ok_iff.2 ⟨entries, ofEntries_eq_ok_iff.2 read, rfl⟩)

/-! ## Fields -/

section Fields

variable {properties : List (Property TypeDef)} {declared : List (FieldDecl (Ty n))} {data : List (String × Datum)}
  {members : Json.Members} {path : String} {depth : Nat}

/-- A datum of a field is read again, be it missing or there. -/
structure FieldReturns (types : TypeCatalog n) (c : Codec) (field : FieldDecl (Ty n)) (entry : String × Datum) :
    Prop where
  name : entry.1 = field.name
  missing : ∀ t, field.type.Stands types c.definitions t → entry.2.toValue.isAbsent = true →
    reader types .absent field.type = .ok entry.2
  present : ∀ t, field.type.Stands types c.definitions t → Returns types c entry.2 field.type t

theorem present?_pairsToValues (distinct : (data.map Prod.fst).Nodup) {entry : String × Datum} (member : entry ∈ data) :
    Value.present? entry.1 (Entries.ofPairs (pairsToValues data)) =
      if entry.2.toValue.isAbsent then none else some entry.2.toValue := by
  rw [Value.present?, find?_pairsToValues distinct member]
  cases absent : entry.2.toValue.isAbsent <;> simp [Option.filter, absent]

theorem field_readFields (distinct : (properties.map Property.name).Nodup) {p : Property TypeDef}
    (member : p ∈ properties) :
    Value.field p.name (Entries.ofPairs (Codec.readFields c members path depth properties)) =
      (c.readValue? members path depth p).getD .absent := by
  have distinctKeys : ((Codec.readFields c members path depth properties).map Prod.fst).Nodup :=
    keys_collect_sublist.nodup distinct
  rw [Value.field, Entries.find?_ofPairs distinctKeys, Codec.readFields, lookup_collect distinct member]

theorem reader_field_of_written {field : FieldDecl (Ty n)} {p : Property TypeDef} {entry : String × Datum} (path' : String)
    (distinct : (data.map Prod.fst).Nodup) (member : entry ∈ data) (stands : field.Stands types c.definitions p)
    (returns : FieldReturns types c field entry)
    (written : Codec.FieldWritten c (Entries.ofPairs (pairsToValues data)) path depth p)
    (agree : members.get? (c.key p.name) = c.writtenJson? (Entries.ofPairs (pairsToValues data)) path depth p) :
    Codec.FieldRead c members path' depth p ∧
      reader types ((c.readValue? members path' depth p).getD .absent) field.type = .ok entry.2 := by
  have found := present?_pairsToValues distinct member
  rw [returns.name, ← stands.name] at found
  cases absent : entry.2.toValue.isAbsent with
  | true =>
      rw [absent, if_pos rfl] at found
      have nothing : c.writtenJson? (Entries.ofPairs (pairsToValues data)) path depth p = none := by
        simp [Codec.writtenJson?, found]
      rw [nothing] at agree
      refine ⟨(Codec.fieldRead_of_missing agree).2 ((Codec.fieldWritten_of_missing found).1 written), ?_⟩
      have unread : c.readValue? members path' depth p = none := by
        simp [Codec.readValue?, agree]
      rw [unread]
      exact returns.missing p.type stands.type absent
  | false =>
      rw [absent, if_neg Bool.false_ne_true] at found
      obtain ⟨json, encoded⟩ := (Codec.fieldWritten_of_present found).1 written
      have something : c.writtenJson? (Entries.ofPairs (pairsToValues data)) path depth p = some json := by
        simp [Codec.writtenJson?, found, encoded, Except.toOption]
      rw [something] at agree
      obtain ⟨v, decoded, _, read⟩ := returns.present p.type stands.type _ (c.propertyPath path' p) depth json encoded
      refine ⟨(Codec.fieldRead_of_found agree).2 ⟨v, decoded⟩, ?_⟩
      have readValue : c.readValue? members path' depth p = some v := by
        simp [Codec.readValue?, agree, decoded, Except.toOption]
      rw [readValue]
      exact read

theorem names_eq_of_returns (returns : List.Forall₂ (FieldReturns types c) declared data) :
    data.map Prod.fst = declared.map FieldDecl.name := by
  induction returns with
  | nil =>
      rfl
  | cons head _ inductionHypothesis =>
      rw [List.map_cons, List.map_cons, inductionHypothesis, head.name]

theorem fieldsRead_of_written (path' : String)
    (stands : List.Forall₂ (FieldDecl.Stands types c.definitions) declared properties)
    (returns : List.Forall₂ (FieldReturns types c) declared data) (distinct : (properties.map Property.name).Nodup)
    (written : ∀ p ∈ properties, Codec.FieldWritten c (Entries.ofPairs (pairsToValues data)) path depth p)
    (agree : ∀ p ∈ properties,
      members.get? (c.key p.name) = c.writtenJson? (Entries.ofPairs (pairsToValues data)) path depth p) :
    (∀ p ∈ properties, Codec.FieldRead c members path' depth p) ∧
      FieldsRead types (Entries.ofPairs (Codec.readFields c members path' depth properties)) declared data := by
  have distinctData : (data.map Prod.fst).Nodup := by
    rw [names_eq_of_returns returns, FieldDecl.names_eq_of_stands stands]
    exact distinct
  constructor
  · intro p listed
    obtain ⟨field, member, standsField⟩ := exists_mem_of_forall₂ stands.flip p listed
    obtain ⟨entry, here, returnsField⟩ := exists_mem_of_forall₂ returns field member
    exact (reader_field_of_written path' distinctData here standsField returnsField (written p listed) (agree p listed)).1
  · refine List.forall₂_iff_zip.2 ⟨returns.length_eq, fun {field entry} paired => ?_⟩
    have returnsField : FieldReturns types c field entry := (List.forall₂_iff_zip.1 returns).2 paired
    obtain ⟨member, here⟩ := List.of_mem_zip paired
    obtain ⟨p, listed, standsField⟩ := exists_mem_of_forall₂ stands field member
    refine ⟨returnsField.name, ?_⟩
    rw [← standsField.name, field_readFields distinct listed]
    exact (reader_field_of_written path' distinctData here standsField returnsField (written p listed) (agree p listed)).2

end Fields

/-! ## Declared types -/

section Declared

variable {slot : Fin n} {declared : List (FieldDecl (Ty n))} {data : List (String × Datum)}

theorem wireKeys_eq_of_stands {defs : Definitions} {properties : List (Property TypeDef)} (casing : Casing)
    (stands : List.Forall₂ (FieldDecl.Stands types defs) declared properties) :
    Form.wireKeys casing properties = declared.map fun field => casing.apply field.name := by
  have names := FieldDecl.names_eq_of_stands stands
  have mapped := congrArg (List.map casing.apply) names
  rw [List.map_map, List.map_map] at mapped
  exact mapped.symm

theorem returnsNotNull_record {properties : List (Property TypeDef)} (reached : c.target t = .ok (.object properties))
    (members : (types.get slot).members = .record declared)
    (stands : List.Forall₂ (FieldDecl.Stands types c.definitions) declared properties)
    (returns : List.Forall₂ (FieldReturns types c) declared data)
    (distinct : (declared.map fun field => c.casing.apply field.name).Nodup) :
    ReturnsNotNull types c (.record data) (.declared slot) t := by
  intro path path' depth json encoded
  obtain ⟨properties', reached', allowed, written, encodedFields, rfl⟩ := Codec.encoder_object_eq_ok_iff.1 encoded
  rw [reached] at reached'
  cases reached'
  rw [← wireKeys_eq_of_stands c.casing stands] at distinct
  have distinctNames := Codec.nodup_names_of_nodup_wireKeys distinct
  obtain ⟨fieldsWritten, collected⟩ := Codec.encodeProperties_eq_ok_iff.1 encodedFields
  have pairs := collected.trans (Json.Members.ofPairs_of_nodup (Codec.nodup_keys_writtenMembers distinct))
  subst pairs
  obtain ⟨fieldsRead, read⟩ := fieldsRead_of_written path' stands returns distinctNames fieldsWritten
    fun p member => Codec.get?_writtenMembers distinct member
  have decodedFields := (Codec.decodeProperties_object_eq_ok_iff distinct).2 ⟨fieldsRead, rfl⟩
  have decoded := (Codec.decoder_object_eq_ok_iff reached (Json.obj_ne_null _)).2 ⟨_, rfl, allowed, _, decodedFields, rfl⟩
  rw [← FieldDecl.names_eq_of_stands stands] at distinctNames
  exact ⟨_, decoded, rfl, rfl, reader_record members distinctNames read⟩

theorem returnsNotNull_variant {key tag : String} {variants : List (VariantDecl (Ty n))} {found : VariantDecl (Ty n)}
    {mapping : List (String × List (Property TypeDef))} (reached : c.target t = .ok (.union key mapping))
    (members : (types.get slot).members = .union key variants)
    (stands : List.Forall₂ (fun variant entry =>
      entry.1 = variant.tag ∧ List.Forall₂ (FieldDecl.Stands types c.definitions) variant.fields entry.2) variants mapping)
    (listed : variants.find? (fun variant => variant.tag == tag) = some found)
    (returns : List.Forall₂ (FieldReturns types c) found.fields data)
    (distinct : (c.key key :: found.fields.map fun field => c.casing.apply field.name).Nodup) :
    ReturnsNotNull types c (.variant tag data) (.declared slot) t := by
  intro path path' depth json encoded
  obtain ⟨key', mapping', properties, reached', mapped, allowed, written, encodedFields, rfl⟩ :=
    Codec.encoder_union_eq_ok_iff.1 encoded
  rw [reached] at reached'
  cases reached'
  obtain ⟨variant, listed', standsFields⟩ := VariantDecl.exists_of_lookup stands mapped
  rw [listed] at listed'
  cases listed'
  rw [← wireKeys_eq_of_stands c.casing standsFields] at distinct
  have distinctNames := Codec.nodup_names_of_nodup_wireKeys (List.nodup_cons.1 distinct).2
  obtain ⟨fieldsWritten, collected⟩ := Codec.encodeProperties_eq_ok_iff.1 encodedFields
  have pairs := collected.trans
    (Json.Members.foldl_set_of_nodup _ [(c.key key, .str tag)] (Codec.nodup_keys_cons_writtenMembers distinct))
  subst pairs
  obtain ⟨fieldsRead, read⟩ := fieldsRead_of_written path' standsFields returns distinctNames fieldsWritten
    fun p member => Codec.get?_cons_writtenMembers distinct member
  have decodedFields := (Codec.decodeProperties_union_eq_ok_iff distinct).2 ⟨fieldsRead, rfl⟩
  have decoded := (Codec.decoder_union_eq_ok_iff reached (Json.obj_ne_null _)).2
    ⟨_, tag, properties, rfl, List.lookup_cons_self, mapped, allowed, _, decodedFields, rfl⟩
  rw [← FieldDecl.names_eq_of_stands standsFields] at distinctNames
  exact ⟨_, decoded, rfl, rfl, reader_variant members listed distinctNames read⟩

end Declared

/-! ## All types -/

/-- A datum of a type comes back, from wherever a definition stands for the type. -/
structure Travels (types : TypeCatalog n) (c : Codec) (d : Datum) (ty : Ty n) : Prop where
  notNull : ∀ t, ty.HasForm types c.definitions t.form → ty.holdsNull = false → ty.mayMiss = false →
    ReturnsNotNull types c d ty t
  returns : ∀ t, ty.Stands types c.definitions t → Returns types c d ty t

theorem travels_of_notNull (each : ∀ t, ty.HasForm types c.definitions t.form → ReturnsNotNull types c d ty t) :
    Travels types c d ty where
  notNull t hasForm _ _ := each t hasForm
  returns t stands := (each t stands.form).returns

theorem returns_of_absent (absent : d.toValue = .absent) : Returns types c d ty t := by
  intro path path' depth json encoded
  rw [absent] at encoded
  exact absurd encoded Codec.encoder_absent_ne_ok

section Induction

variable {reached : Fin n → Prop} {slot : Fin n}

theorem forall₂_fieldReturns {declared : List (FieldDecl (Ty n))} {data : List (String × Datum)}
    (names : List.Forall₂ (fun field entry => entry.1 = field.name) declared data)
    (typed : ∀ pair ∈ declared.zip data, HasType types pair.2.2 pair.1.type)
    (travels : ∀ pair ∈ declared.zip data, Travels types c pair.2.2 pair.1.type) :
    List.Forall₂ (FieldReturns types c) declared data := by
  refine List.forall₂_iff_zip.2 ⟨names.length_eq, fun {field entry} paired => ?_⟩
  constructor
  case name =>
    exact (List.forall₂_iff_zip.1 names).2 paired
  case missing =>
    exact fun t stands absent => reader_absent (typed _ paired) stands.form absent
  case present =>
    exact (travels _ paired).returns

theorem travels_record (coherent : Coherent types.shapes c.definitions) {declared : List (FieldDecl (Ty n))}
    {data : List (String × Datum)} (members : (types.get slot).members = .record declared)
    (returns : List.Forall₂ (FieldReturns types c) declared data)
    (distinct : (declared.map fun field => c.casing.apply field.name).Nodup) :
    Travels types c (.record data) (.declared slot) := by
  refine travels_of_notNull fun t hasForm path path' depth json encoded => ?_
  rcases hasForm with ⟨listed, isEnumeration, _⟩ | ⟨_, name, named, isRef⟩
  · rw [members] at isEnumeration
    cases isEnumeration
  · obtain ⟨properties, target, _⟩ := Codec.encoder_object_eq_ok_iff.1 encoded
    obtain ⟨_, _, _, stands⟩ := TypeCatalog.exists_body_of_target coherent named isRef target
    rw [members] at stands
    cases stands with
    | record standsFields =>
        exact returnsNotNull_record target members standsFields returns distinct path path' depth json encoded

theorem travels_variant (coherent : Coherent types.shapes c.definitions) {key tag : String}
    {variants : List (VariantDecl (Ty n))} {found : VariantDecl (Ty n)} {data : List (String × Datum)}
    (members : (types.get slot).members = .union key variants)
    (listed : variants.find? (fun variant => variant.tag == tag) = some found)
    (returns : List.Forall₂ (FieldReturns types c) found.fields data)
    (distinct : (c.key key :: found.fields.map fun field => c.casing.apply field.name).Nodup) :
    Travels types c (.variant tag data) (.declared slot) := by
  refine travels_of_notNull fun t hasForm path path' depth json encoded => ?_
  rcases hasForm with ⟨_, isEnumeration, _⟩ | ⟨_, name, named, isRef⟩
  · rw [members] at isEnumeration
    cases isEnumeration
  · obtain ⟨key', mapping, properties, target, _⟩ := Codec.encoder_union_eq_ok_iff.1 encoded
    obtain ⟨_, _, _, stands⟩ := TypeCatalog.exists_body_of_target coherent named isRef target
    rw [members] at stands
    cases stands with
    | union standsVariants =>
        exact returnsNotNull_variant target members standsVariants listed returns distinct path path' depth json encoded

theorem travels_enumeration {s : String} {listed : List String} (members : (types.get slot).members = .enumeration listed)
    (member : s ∈ listed) : Travels types c (.enumeration s) (.declared slot) := by
  refine travels_of_notNull fun t hasForm => ?_
  rcases hasForm with ⟨listed', _, sameForm⟩ | ⟨entered, _⟩
  · exact returnsNotNull_scalar trivial trivial sameForm (.inr ⟨listed', rfl⟩) (reader_enumeration members member)
  · unfold Catalog.IsEntered at entered
    rw [TypeCatalog.get_shapes, Declaration.map, members] at entered
    cases entered

/-- Every datum of a type comes back. The induction is on what makes it a datum of the type. -/
theorem travels (coherent : Coherent types.shapes c.definitions) (keepApart : types.KeepApart c.casing reached)
    (hasType : HasType types d ty) (within : ∀ slot ∈ ty.shape.slots, reached slot) (apart : ty.Apart)
    (told : d.Everywhere fun s => s.HasWholeTime ∧ s.HasLeapInPlace) : Travels types c d ty := by
  induction hasType with
  | bool | float64 | string =>
      exact travels_of_notNull fun t hasForm => returnsNotNull_scalar trivial trivial hasForm (.inl ⟨_, rfl⟩) rfl
  | signed isSigned inRange =>
      exact travels_of_notNull fun t hasForm => returnsNotNull_signed hasForm isSigned inRange
  | unsigned isUnsigned inRange =>
      exact travels_of_notNull fun t hasForm => returnsNotNull_unsigned hasForm isUnsigned inRange
  | float32 single =>
      exact travels_of_notNull fun t hasForm => returnsNotNull_float32 hasForm single
  | timestamp =>
      exact travels_of_notNull fun t hasForm => returnsNotNull_timestamp hasForm told.here.1 told.here.2
  | json =>
      exact ⟨nofun, fun t stands => returns_json stands.form stands.nullable⟩
  | unit | wide =>
      exact travels_of_notNull fun t hasForm => hasForm.elim
  | list _ inductionHypothesis =>
      refine travels_of_notNull fun t hasForm => ?_
      obtain ⟨s, sameForm, _, itemForm, nullable⟩ := hasForm
      refine returnsNotNull_list sameForm fun d member => ?_
      exact (inductionHypothesis d member within apart (told.parts d member)).returns s ⟨itemForm, nullable⟩
  | map ascending _ inductionHypothesis =>
      refine travels_of_notNull fun t hasForm => ?_
      obtain ⟨s, sameForm, _, itemForm, nullable⟩ := hasForm
      refine returnsNotNull_map sameForm ascending fun entry member => ?_
      have toldEntry := told.parts entry.2 (List.mem_map_of_mem member)
      exact (inductionHypothesis entry member within apart toldEntry).returns s ⟨itemForm, nullable⟩
  | optionNull =>
      exact ⟨nofun, fun t stands => returns_null stands.nullable rfl⟩
  | optionPresent _ inductionHypothesis =>
      have travels := inductionHypothesis within apart.2 (told.parts _ List.mem_cons_self)
      refine ⟨nofun, fun t stands => ?_⟩
      exact (returnsNotNull_option (travels.notNull t stands.form.2 apart.1 stands.form.1)).returns
  | optionalAbsent | fieldAbsent =>
      exact ⟨fun _ _ _ => nofun, fun t _ => returns_of_absent rfl⟩
  | optionalPresent _ inductionHypothesis =>
      have travels := inductionHypothesis within apart (told.parts _ List.mem_cons_self)
      exact ⟨fun _ _ _ => nofun, fun t stands => returns_optional (travels.returns t ⟨stands.form.2, stands.nullable⟩)⟩
  | fieldNull =>
      exact ⟨fun _ _ _ => nofun, fun t stands => returns_null stands.nullable rfl⟩
  | fieldPresent _ inductionHypothesis =>
      have travels := inductionHypothesis within apart.2 (told.parts _ List.mem_cons_self)
      refine ⟨fun _ _ _ => nofun, fun t stands => ?_⟩
      exact (returnsNotNull_field (travels.notNull t stands.form.2 apart.1 stands.form.1)).returns
  | @record slot declared data members names typed inductionHypothesis =>
      have here : reached slot := within slot List.mem_cons_self
      have distinct := keepApart.distinct slot here
      rw [members] at distinct
      refine travels_record coherent members (forall₂_fieldReturns names typed fun pair paired => ?_) distinct
      obtain ⟨field, entry⟩ := pair
      obtain ⟨declaredField, present⟩ := List.of_mem_zip paired
      have listed : field.type ∈ (types.get slot).members.types := by
        rw [members]
        exact List.mem_map_of_mem declaredField
      exact inductionHypothesis _ paired (keepApart.closed slot here _ listed) (keepApart.apart slot here _ listed)
        (told.parts _ (List.mem_map_of_mem present))
  | @variant slot key tag variants found data members listed names typed inductionHypothesis =>
      have here : reached slot := within slot List.mem_cons_self
      have isVariant : found ∈ variants := List.mem_of_find?_eq_some listed
      have distinct := keepApart.distinct slot here
      rw [members] at distinct
      refine travels_variant coherent members listed (forall₂_fieldReturns names typed fun pair paired => ?_)
        (distinct found isVariant)
      obtain ⟨field, entry⟩ := pair
      obtain ⟨declaredField, present⟩ := List.of_mem_zip paired
      have listed : field.type ∈ (types.get slot).members.types := by
        rw [members]
        exact List.mem_flatMap.2 ⟨found, isVariant, List.mem_map_of_mem declaredField⟩
      exact inductionHypothesis _ paired (keepApart.closed slot here _ listed) (keepApart.apart slot here _ listed)
        (told.parts _ (List.mem_map_of_mem present))
  | enumeration members member =>
      exact travels_enumeration members member

end Induction

end Datum

/-! ## Registered types -/

namespace TypeCatalog

theorem types_shapes (slot : Fin n) :
    (types.shapes.get slot).members.types = (types.get slot).members.types.map Ty.shape := by
  rw [get_shapes, Declaration.map]
  cases (types.get slot).members with
  | record declared =>
      simp [Members.map, Members.types, FieldDecl.map]
  | union key variants =>
      simp only [Members.map, Members.types, VariantDecl.map, List.map_flatMap, List.flatMap_map, List.map_map]
      rfl
  | enumeration listed =>
      rfl

theorem keepApart_of_reaches {casing : Casing} {shape : Shape n}
    (distinct : ∀ slot, types.shapes.Reaches shape slot → (types.get slot).members.WireDistinct casing)
    (apart : ∀ slot, types.shapes.Reaches shape slot → ∀ type ∈ (types.get slot).members.types, type.Apart) :
    types.KeepApart casing (types.shapes.Reaches shape) where
  distinct := distinct
  apart := apart
  closed slot reaches type listed other inside := by
    refine reaches.field ?_ inside
    rw [types_shapes]
    exact List.mem_map_of_mem listed

/-- A datum of a registered type comes back over the wire, whatever its wrappers, where none that takes null stands directly
around a type that holds null, where the wire keys of each object are distinct, and where leap counts stand at the end of a
minute. -/
theorem ofValue_of_encodeJson (unique : types.shapes.OneTypeEach) {before after : List (Registration n)}
    {made : Registration n} {ty : Ty n} {name : String} (registers : Registers types (types.registry before) made ty name)
    {casing : Casing} {maxDepth : Nat}
    (distinct : ∀ slot, types.shapes.Reaches ty.shape slot → (types.get slot).members.WireDistinct casing)
    (apart : ∀ slot, types.shapes.Reaches ty.shape slot → ∀ type ∈ (types.get slot).members.types, type.Apart)
    {x : Datum} (hasType : x.HasType types ty) (whole : x.Everywhere Datum.HasWholeTime)
    (inPlace : x.Everywhere Datum.HasLeapInPlace) {json : Json}
    (encoded : ((types.registry (before ++ made :: after)).codec casing maxDepth).encodeJson x.toValue (.ref name) =
      .ok json) :
    ∃ v, ((types.registry (before ++ made :: after)).codec casing maxDepth).decodeJson json (.ref name) = .ok v ∧
      Datum.ofValue types v ty = .ok x := by
  obtain ⟨slot, rfl, entered, named⟩ := @named_registry n types unique before after made ty name registers
  have coherent := coherent_registry unique (before ++ made :: after)
  have keepApart := keepApart_of_reaches distinct apart
  generalize types.registry (before ++ made :: after) = r at *
  have travels : Datum.Travels types (r.codec casing maxDepth) x (.declared slot) :=
    Datum.travels coherent keepApart hasType (fun _ => .mentioned) trivial (whole.and inPlace)
  obtain ⟨v, decoded, _, read⟩ := travels.returns _ (Ty.stands_of_named entered named) _ rootPath 0 json encoded
  exact ⟨v, decoded, read⟩

/-- Letters that enclose letters, each with the time at which it was sent. -/
def letters : TypeCatalog 2 := #v[
  { info := { id := 0, name := some "Mood" }, members := .enumeration ["calm", "wild"] },
  { info := { id := 1, name := some "Letter" }
    members := .record [⟨"sent_at", .timestamp, none, false⟩, ⟨"title", .field .string, none, false⟩,
      ⟨"mood", .option (.declared 0), none, false⟩, ⟨"enclosed", .optional (.list (.declared 1)), none, false⟩] }]

def letterShapes : Catalog 2 := #v[
  { info := { id := 0, name := some "Mood" }, members := .enumeration ["calm", "wild"] },
  { info := { id := 1, name := some "Letter" }
    members := .record [⟨"sent_at", .primitive .timestamp, none, false⟩,
      ⟨"title", .optional (.nullable (.primitive .string)), none, false⟩, ⟨"mood", .nullable (.declared 0), none, false⟩,
      ⟨"enclosed", .optional (.array (.declared 1)), none, false⟩] }]

theorem shapes_letters : letters.shapes = letterShapes := by
  decide +kernel

theorem registry_letters :
    letters.registry postRegistrations =
        Registry.calls {} [.define letterShapes (.declared 0), .define letterShapes (.array (.declared 1))] ∧
      letters.registry (postRegistrations ++ [.model (.declared 1)]) =
        Registry.calls {} [.define letterShapes (.declared 0), .define letterShapes (.array (.declared 1)),
          .define letterShapes (.declared 1)] := by
  rw [← shapes_letters]
  exact ⟨rfl, rfl⟩

/-- A letter with nothing but its time. -/
def letterAt (t : Timestamp) : Datum :=
  .record [("sent_at", .timestamp t), ("title", .absent), ("mood", .null), ("enclosed", .absent)]

/-- A letter of a leap second, with one that was sent half a minute later. -/
def letter : Datum :=
  .record [("sent_at", .timestamp ⟨1483228799, 1500000000⟩), ("title", .null), ("mood", .present (.enumeration "wild")),
    ("enclosed", .present (.list [letterAt ⟨1483228830, 250000000⟩]))]

def sentLetter : Json :=
  .obj [("sentAt", .str "2016-12-31T23:59:60.500Z"), ("title", .null), ("mood", .str "wild"),
    ("enclosed", .arr [.obj [("sentAt", .str "2017-01-01T00:00:30.250Z"), ("mood", .null)]])]

theorem hasType_letterAt (t : Timestamp) : (letterAt t).HasType letters (.declared 1) := by
  refine .record rfl (.cons rfl (.cons rfl (.cons rfl (.cons rfl .nil)))) (List.forall_mem_cons.2 ⟨.timestamp, ?_⟩)
  exact List.forall_mem_cons.2 ⟨.fieldAbsent, List.forall_mem_cons.2 ⟨.optionNull,
    List.forall_mem_singleton.2 .optionalAbsent⟩⟩

theorem hasType_letter : letter.HasType letters (.declared 1) := by
  refine .record rfl (.cons rfl (.cons rfl (.cons rfl (.cons rfl .nil)))) (List.forall_mem_cons.2 ⟨.timestamp, ?_⟩)
  refine List.forall_mem_cons.2 ⟨.fieldNull, List.forall_mem_cons.2 ⟨.optionPresent (.enumeration rfl (by decide)), ?_⟩⟩
  exact List.forall_mem_singleton.2 (.optionalPresent (.list (List.forall_mem_singleton.2 (hasType_letterAt _))))

/-- What is said of times only, and of the one in it, holds everywhere in a letter. -/
theorem everywhere_letterAt {P : Datum → Prop} (untimed : ∀ d, (∀ t, d ≠ .timestamp t) → P d) {t : Timestamp}
    (timed : P (.timestamp t)) : (letterAt t).Everywhere P := by
  have absent : Datum.absent.Everywhere P := .alone rfl (untimed _ nofun)
  have null : Datum.null.Everywhere P := .alone rfl (untimed _ nofun)
  exact .intro (untimed _ nofun) (List.forall_mem_cons.2 ⟨.alone rfl timed, List.forall_mem_cons.2 ⟨absent,
    List.forall_mem_cons.2 ⟨null, List.forall_mem_singleton.2 absent⟩⟩⟩)

theorem everywhere_letter {P : Datum → Prop} (untimed : ∀ d, (∀ t, d ≠ .timestamp t) → P d)
    (timed : P (.timestamp ⟨1483228799, 1500000000⟩)) (later : P (.timestamp ⟨1483228830, 250000000⟩)) :
    letter.Everywhere P := by
  have null : Datum.null.Everywhere P := .alone rfl (untimed _ nofun)
  have wild : (Datum.enumeration "wild").Everywhere P := .alone rfl (untimed _ nofun)
  have enclosed : (Datum.list [letterAt ⟨1483228830, 250000000⟩]).Everywhere P :=
    .intro (untimed _ nofun) (List.forall_mem_singleton.2 (everywhere_letterAt untimed later))
  refine .intro (untimed _ nofun) (List.forall_mem_cons.2 ⟨.alone rfl timed, List.forall_mem_cons.2 ⟨null,
    List.forall_mem_cons.2 ⟨?_, List.forall_mem_singleton.2 ?_⟩⟩⟩)
  · exact .intro (untimed _ nofun) (List.forall_mem_singleton.2 wild)
  · exact .intro (untimed _ nofun) (List.forall_mem_singleton.2 enclosed)

theorem hasWholeTime_untimed (d : Datum) (untimed : ∀ t, d ≠ .timestamp t) : d.HasWholeTime := by
  cases d with
  | timestamp t =>
      exact absurd rfl (untimed t)
  | _ =>
      trivial

theorem hasLeapInPlace_untimed (d : Datum) (untimed : ∀ t, d ≠ .timestamp t) : d.HasLeapInPlace := by
  cases d with
  | timestamp t =>
      exact absurd rfl (untimed t)
  | _ =>
      trivial

theorem registers_letters :
    Registers letters (letters.registry postRegistrations) (.model (.declared 1)) (.declared 1) "Letter" :=
  .model (by rw [registry_letters.1, shapes_letters]; rfl)

theorem ofValue_of_encodeJson_letter :
    Registers letters (letters.registry postRegistrations) (.model (.declared 1)) (.declared 1) "Letter" ∧
    ((letters.registry (postRegistrations ++ [.model (.declared 1)])).codec .camel 64).encodeJson letter.toValue
        (.ref "Letter") = .ok sentLetter ∧
    ∃ v, ((letters.registry (postRegistrations ++ [.model (.declared 1)])).codec .camel 64).decodeJson sentLetter
        (.ref "Letter") = .ok v ∧ Datum.ofValue letters v (.declared 1) = .ok letter :=
  have unique : letters.shapes.OneTypeEach := by decide +kernel
  have distinct : ∀ slot, (letters.get slot).members.WireDistinct .camel := by decide +kernel
  have apart : ∀ slot, ∀ type ∈ (letters.get slot).members.types, type.Apart := by decide +kernel
  have encoded : ((letters.registry (postRegistrations ++ [.model (.declared 1)])).codec .camel 64).encodeJson letter.toValue
      (.ref "Letter") = .ok sentLetter := by
    rw [registry_letters.2]
    rfl
  have whole := everywhere_letter hasWholeTime_untimed (by decide) (by decide)
  have inPlace := everywhere_letter hasLeapInPlace_untimed (by decide) (by decide)
  ⟨registers_letters, encoded, @ofValue_of_encodeJson 2 letters unique _ [] _ _ _ registers_letters .camel 64
    (fun slot _ => distinct slot) (fun slot _ => apart slot) letter hasType_letter whole inPlace sentLetter encoded⟩

/-- A letter of the second 30 with a leap count comes back as one of the second 31. -/
theorem misplacedLeap_not_returned :
    ¬ ∀ (types : TypeCatalog 2) (before after : List (Registration 2)) (made : Registration 2) (ty : Ty 2) (name : String)
        (casing : Casing) (maxDepth : Nat) (x : Datum) (json : Json), types.shapes.OneTypeEach →
        Registers types (types.registry before) made ty name →
        (∀ slot, types.shapes.Reaches ty.shape slot → (types.get slot).members.WireDistinct casing) →
        (∀ slot, types.shapes.Reaches ty.shape slot → ∀ type ∈ (types.get slot).members.types, type.Apart) →
        x.HasType types ty → x.Everywhere Datum.HasWholeTime →
        ((types.registry (before ++ made :: after)).codec casing maxDepth).encodeJson x.toValue (.ref name) = .ok json →
          ∃ v, ((types.registry (before ++ made :: after)).codec casing maxDepth).decodeJson json (.ref name) = .ok v ∧
            Datum.ofValue types v ty = .ok x := by
  intro returned
  have distinct : ∀ slot, (letters.get slot).members.WireDistinct .camel := by decide +kernel
  have apart : ∀ slot, ∀ type ∈ (letters.get slot).members.types, type.Apart := by decide +kernel
  have written : ((letters.registry (postRegistrations ++ [.model (.declared 1)])).codec .camel 64).encodeJson
      (letterAt ⟨30, 1500000000⟩).toValue (.ref "Letter") =
        .ok (.obj [("sentAt", .str "1970-01-01T00:00:31.500Z"), ("mood", .null)]) := by
    rw [registry_letters.2]
    rfl
  have read : ((letters.registry (postRegistrations ++ [.model (.declared 1)])).codec .camel 64).decodeJson
      (.obj [("sentAt", .str "1970-01-01T00:00:31.500Z"), ("mood", .null)]) (.ref "Letter") =
        .ok (.object [("mood", .null), ("sent_at", .timestamp ⟨31, 500000000⟩)]) := by
    rw [registry_letters.2]
    rfl
  obtain ⟨v, decoded, same⟩ := returned letters postRegistrations [] (.model (.declared 1)) (.declared 1) "Letter" .camel 64
    (letterAt ⟨30, 1500000000⟩) _ (by decide +kernel) registers_letters (fun slot _ => distinct slot)
    (fun slot _ => apart slot) (hasType_letterAt _) (everywhere_letterAt hasWholeTime_untimed (by decide)) written
  rw [read] at decoded
  cases decoded
  have other : Datum.ofValue letters (.object [("mood", .null), ("sent_at", .timestamp ⟨31, 500000000⟩)]) (.declared 1) =
      .ok (letterAt ⟨31, 500000000⟩) := by rfl
  rw [other] at same
  cases same

end TypeCatalog

end SchemaRpc
