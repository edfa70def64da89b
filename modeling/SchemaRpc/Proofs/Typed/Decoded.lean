import SchemaRpc.Proofs.Binary64.Single
import SchemaRpc.Proofs.Codec.Resent
import SchemaRpc.Proofs.Registry.Typed
import SchemaRpc.Proofs.Typed.HasType
import SchemaRpc.Typed.Coding

/-!
# Decoded values can be read

Whatever the decoder makes of JSON at a definition that stands for a type is read as a datum of the type: no check of the
reader is left to fail. The induction is on the JSON, and within one JSON value on the wrappers of the type.
-/

namespace SchemaRpc

open Introspection Catalog

variable {n : Nat} {types : TypeCatalog n} {c : Codec} {json : Json} {v : Value} {ty inner item : Ty n} {t s : TypeDef}
  {path : String} {depth : Nat} {form : Form TypeDef}

namespace Datum

/-- A value is read as a datum of a type. -/
def Readable (types : TypeCatalog n) (v : Value) (ty : Ty n) : Prop :=
  ∃ d, reader types v ty = .ok d ∧ d.HasType types ty

theorem Readable.option (readable : Readable types v inner) : Readable types v (.option inner) := by
  obtain ⟨d, read, hasType⟩ := readable
  unfold Readable
  rw [reader_option, read]
  split
  · exact ⟨.null, rfl, .optionNull⟩
  · exact ⟨.present d, rfl, .optionPresent hasType⟩

theorem Readable.optional (readable : Readable types v inner) : Readable types v (.optional inner) := by
  obtain ⟨d, read, hasType⟩ := readable
  unfold Readable
  rw [reader_optional, read]
  split
  · exact ⟨.absent, rfl, .optionalAbsent⟩
  · exact ⟨.present d, rfl, .optionalPresent hasType⟩

theorem Readable.field (readable : Readable types v inner) : Readable types v (.field inner) := by
  obtain ⟨d, read, hasType⟩ := readable
  unfold Readable
  rw [reader_field, read]
  split
  · exact ⟨.absent, rfl, .fieldAbsent⟩
  · split
    · exact ⟨.null, rfl, .fieldNull⟩
    · exact ⟨.present d, rfl, .fieldPresent hasType⟩

theorem readable_absent (mayMiss : ty.mayMiss = true) : Readable types .absent ty := by
  cases ty with
  | optional =>
      exact ⟨.absent, rfl, .optionalAbsent⟩
  | field =>
      exact ⟨.absent, rfl, .fieldAbsent⟩
  | _ =>
      cases mayMiss

theorem readable_null (takesNull : ty.takesNull = true) : Readable types .null ty := by
  induction ty with
  | option =>
      exact ⟨.null, rfl, .optionNull⟩
  | field =>
      exact ⟨.null, rfl, .fieldNull⟩
  | optional inner inductionHypothesis =>
      exact (inductionHypothesis takesNull).optional
  | _ =>
      cases takesNull

/-! ## Scalars -/

/-- The datum of an integer in range is one of its kind, as it holds that integer. -/
theorem hasType_integer {kind : IntKind} {i : Int} (inRange : kind.toPrimitive.inRange i = true) :
    (integer kind i).HasType types (.int kind) := by
  cases isUnsigned : kind.toPrimitive.isUnsigned with
  | true =>
      have made : integer kind i = .unsigned (UInt64.ofNat i.toNat) := if_pos isUnsigned
      rw [made]
      refine .unsigned isUnsigned ?_
      rw [Codec.toNat_ofNat_of_inRange isUnsigned inRange]
      exact inRange
  | false =>
      have made : integer kind i = .signed (Int64.ofInt i) := if_neg (by simp [isUnsigned])
      obtain ⟨least, most⟩ := PrimitiveKind.bounds_of_signed (isInteger_toPrimitive kind) isUnsigned inRange
      rw [made]
      refine .signed isUnsigned ?_
      rw [Int64.toInt_ofInt_of_le least most]
      exact inRange

theorem readable_of_decodeScalar {kind : PrimitiveKind} (shape : ty.shape = .primitive kind)
    (decoded : Codec.decodeScalar json (.primitive kind) path = .ok v) : Readable types v ty := by
  cases ty with
  | int kind =>
      cases shape
      obtain ⟨i, inRange, rfl⟩ := Codec.exists_of_decodeScalar_integer (isInteger_toPrimitive kind) decoded
      exact ⟨_, reader_canonicalInteger inRange, hasType_integer inRange⟩
  | bool =>
      cases shape
      cases json <;> cases decoded
      exact ⟨_, rfl, .bool⟩
  | float32 =>
      cases shape
      cases json <;> cases decoded
      exact ⟨_, rfl, .float32 (Binary64.roundToSingle_roundToSingle _)⟩
  | float64 =>
      cases shape
      cases json <;> cases decoded
      exact ⟨_, rfl, .float64⟩
  | string =>
      cases shape
      cases json <;> cases decoded
      exact ⟨_, rfl, .string⟩
  | timestamp =>
      cases shape
      obtain ⟨at_, rfl⟩ := Codec.exists_timestamp_of_decodeScalar decoded
      exact ⟨_, rfl, .timestamp⟩
  | _ =>
      cases shape

/-- JSON that is carried untouched can be read wherever any is allowed. -/
theorem readable_any (hasForm : ty.HasForm types c.definitions .any) : Readable types (.any json) ty := by
  induction ty with
  | json =>
      exact ⟨.json json, rfl, .json⟩
  | option inner inductionHypothesis =>
      exact (inductionHypothesis hasForm.2).option
  | optional inner inductionHypothesis =>
      exact (inductionHypothesis hasForm.2).optional
  | field inner inductionHypothesis =>
      exact (inductionHypothesis hasForm.2).field
  | declared slot =>
      rcases hasForm with ⟨_, _, same⟩ | ⟨_, _, _, same⟩ <;> cases same
  | list | map =>
      obtain ⟨_, same, _⟩ := hasForm
      cases same
  | bool | int | float32 | float64 | string | timestamp | unit | wide =>
      cases hasForm

/-! ## Parts -/

/-- Whatever is decoded from the JSON at a definition that stands for a type can be read at the type. -/
def ReadableOnceDecoded (types : TypeCatalog n) (c : Codec) (json : Json) : Prop :=
  ∀ (ty : Ty n) (t : TypeDef) (path : String) (depth : Nat) (v : Value), ty.Stands types c.definitions t →
    Codec.decoder c json t path depth = .ok v → Readable types v ty

theorem readable_list {items : List Json} {index : Nat} {vs : List Value}
    (inside : ∀ part ∈ items, ReadableOnceDecoded types c part) (stands : item.Stands types c.definitions s)
    (decoded : Codec.decodeItems c s path depth index items = .ok vs) : Readable types (.array vs) (.list item) := by
  have each : ∃ data, List.Forall₂ (fun v d => reader types v item = .ok d) vs data ∧ ∀ d ∈ data, d.HasType types item := by
    induction items generalizing index vs with
    | nil =>
        cases decoded
        exact ⟨[], .nil, List.forall_mem_nil _⟩
    | cons head tail inductionHypothesis =>
        obtain ⟨insideHead, insideTail⟩ := List.forall_mem_cons.1 inside
        obtain ⟨v, decodedHead, rest⟩ := Except.bind_eq_ok_iff.1 decoded
        obtain ⟨others, decodedTail, made⟩ := Except.bind_eq_ok_iff.1 rest
        cases made
        obtain ⟨d, read, hasType⟩ := insideHead item s _ depth v stands decodedHead
        obtain ⟨data, readTail, typed⟩ := inductionHypothesis insideTail decodedTail
        exact ⟨d :: data, .cons read readTail, List.forall_mem_cons.2 ⟨hasType, typed⟩⟩
  obtain ⟨data, read, typed⟩ := each
  exact ⟨.list data, reader_list.trans (Except.map_eq_ok_iff.2 ⟨data, ofItems_eq_ok_iff.2 read, rfl⟩), .list typed⟩

theorem readable_map {members : Json.Members} {entries : Entries Value}
    (inside : ∀ part ∈ members.map Prod.snd, ReadableOnceDecoded types c part)
    (stands : item.Stands types c.definitions s)
    (decoded : Codec.decodeEntries c s path depth [] members = .ok entries) :
    Readable types (.map entries) (.map item) := by
  obtain ⟨ascending, origins⟩ := Codec.decodeEntries_sound .nil decoded
  have each : ∀ entry ∈ entries, ∃ pair : String × Datum,
      (pair.1 = entry.1 ∧ reader types entry.2 item = .ok pair.2) ∧ pair.2.HasType types item := by
    intro entry member
    rcases origins entry member with before | ⟨part, here, path', decodedPart⟩
    · cases before
    · obtain ⟨d, read, hasType⟩ := inside part here item s path' depth entry.2 stands decodedPart
      exact ⟨(entry.1, d), ⟨rfl, read⟩, hasType⟩
  obtain ⟨data, related⟩ := exists_forall₂ each
  have read := related.imp fun _ _ both => both.1
  have sameKeys : data.map Prod.fst = entries.map Prod.fst := map_eq_of_forall₂ (read.imp fun _ _ both => both.1)
  refine ⟨.map data, reader_map.trans (Except.map_eq_ok_iff.2 ⟨data, ofEntries_eq_ok_iff.2 read, rfl⟩), .map ?_ ?_⟩
  · rw [Codec.ascending_iff_keys, sameKeys]
    exact Codec.ascending_iff_keys.1 ascending
  · intro pair member
    obtain ⟨_, _, _, hasType⟩ := exists_mem_of_forall₂ related.flip pair member
    exact hasType

end Datum

/-! ## Declared types -/

namespace Datum

variable {slot : Fin n} {parts : List Json} {fields : Entries Value}

theorem readable_of_fieldDecoded {field : FieldDecl (Ty n)} {p : Property TypeDef}
    (inside : ∀ part ∈ parts, ReadableOnceDecoded types c part) (stands : field.Stands types c.definitions p)
    (decoded : c.FieldDecoded parts depth fields p) : Readable types (Value.field field.name fields) field.type := by
  unfold Codec.FieldDecoded at decoded
  rw [stands.name] at decoded
  unfold Value.field
  cases found : Entries.find? field.name fields with
  | none =>
      simp only [found] at decoded
      exact readable_absent (stands.optional.symm.trans decoded)
  | some v =>
      simp only [found] at decoded
      obtain ⟨part, here, path', decodedPart⟩ := decoded
      exact inside part here field.type p.type path' depth v stands.type decodedPart

theorem exists_fieldsRead {declared : List (FieldDecl (Ty n))} {properties : List (Property TypeDef)}
    (inside : ∀ part ∈ parts, ReadableOnceDecoded types c part)
    (stands : List.Forall₂ (FieldDecl.Stands types c.definitions) declared properties)
    (decoded : ∀ p ∈ properties, c.FieldDecoded parts depth fields p) :
    ∃ data, FieldsRead types fields declared data ∧ ∀ pair ∈ declared.zip data, pair.2.2.HasType types pair.1.type := by
  have each : ∀ field ∈ declared, ∃ entry : String × Datum,
      (entry.1 = field.name ∧ reader types (Value.field field.name fields) field.type = .ok entry.2) ∧
        entry.2.HasType types field.type := by
    intro field member
    obtain ⟨p, listed, standsField⟩ := exists_mem_of_forall₂ stands field member
    obtain ⟨d, read, hasType⟩ := readable_of_fieldDecoded inside standsField (decoded p listed)
    exact ⟨(field.name, d), ⟨rfl, read⟩, hasType⟩
  obtain ⟨data, related⟩ := exists_forall₂ each
  refine ⟨data, related.imp fun _ _ both => both.1, ?_⟩
  rintro ⟨field, entry⟩ paired
  exact ((List.forall₂_iff_zip.1 related).2 paired).2

/-- What is decoded at the body of a declared type can be read at the type. -/
theorem readable_of_body (inside : ∀ part ∈ json.parts, ReadableOnceDecoded types c part)
    (notNull : json ≠ .null) (stands : (types.get slot).members.Stands types c.definitions form)
    (checked : form.Checked) (reached : c.target t = .ok form)
    (decoded : Codec.decoder c json t path depth = .ok v) : Readable types v (.declared slot) := by
  generalize members : (types.get slot).members = declaredMembers at stands
  cases stands with
  | @record declared properties standsFields =>
      obtain ⟨jsonMembers, rfl, _, fields, decodedFields, rfl⟩ :=
        (Codec.decoder_object_eq_ok_iff reached notNull).1 decoded
      obtain ⟨_, each⟩ := Codec.fieldDecoded_of_decodeProperties Codec.decoders_made checked (fun _ _ => rfl) decodedFields
      obtain ⟨data, read, typed⟩ := exists_fieldsRead inside standsFields each
      have distinct : (declared.map FieldDecl.name).Nodup := by
        rw [FieldDecl.names_eq_of_stands standsFields]
        exact checked
      exact ⟨.record data, reader_record members distinct read, .record members (read.imp fun _ _ both => both.1) typed⟩
  | @union key variants mapping standsVariants =>
      obtain ⟨jsonMembers, tag, properties, rfl, _, listed, _, fields, decodedFields, rfl⟩ :=
        (Codec.decoder_union_eq_ok_iff reached notNull).1 decoded
      obtain ⟨variant, found, standsFields⟩ := VariantDecl.exists_of_lookup standsVariants listed
      have distinctNames : (properties.map Property.name).Nodup :=
        (List.nodup_cons.1 (checked.2 _ (mem_of_lookup listed))).2
      have made : ∀ entry ∈ (Codec.memberDecoders c jsonMembers).erase (c.key key),
          ∃ part ∈ jsonMembers.map Prod.snd, entry.2 = Codec.decoder c part :=
        fun entry member => Codec.decoders_made entry ((Entries.erase_sublist _ _).subset member)
      obtain ⟨_, each⟩ := Codec.fieldDecoded_of_decodeProperties made distinctNames (fun _ _ => rfl) decodedFields
      obtain ⟨data, read, typed⟩ := exists_fieldsRead inside standsFields each
      have distinct : (variant.fields.map FieldDecl.name).Nodup := by
        rw [FieldDecl.names_eq_of_stands standsFields]
        exact distinctNames
      exact ⟨.variant tag data, reader_variant members found distinct read,
        .variant members found (read.imp fun _ _ both => both.1) typed⟩

theorem readable_declared (coherent : Coherent types.shapes c.definitions)
    (checked : c.definitions.Everywhere Form.Checked) (inside : ∀ part ∈ json.parts, ReadableOnceDecoded types c part)
    (notNull : json ≠ .null) (hasForm : (Ty.declared slot).HasForm types c.definitions t.form)
    (decoded : Codec.decoder c json t path depth = .ok v) : Readable types v (.declared slot) := by
  rcases hasForm with ⟨listed, members, sameForm⟩ | ⟨_, name, named, sameForm⟩
  · have reached : c.target t = .ok (.enumeration listed) := Codec.target_of_form sameForm nofun
    have scalar := (Codec.decoder_scalar_eq_ok_iff reached (.inr ⟨listed, rfl⟩) notNull).1 decoded
    obtain ⟨s, member, rfl⟩ := Codec.exists_decodeScalar_enumeration_iff.1 ⟨v, scalar⟩
    simp only [Codec.decodeScalar, List.contains_iff_mem, member, if_true, Except.ok.injEq] at scalar
    subst scalar
    exact ⟨.enumeration s, reader_enumeration members member, .enumeration members member⟩
  · obtain ⟨form, reached⟩ := Codec.exists_target_of_decoder notNull decoded
    obtain ⟨body, found, same, stands⟩ := TypeCatalog.exists_body_of_target coherent named sameForm reached
    have checkedBody : form.Checked := (checked.get? found).here_of_form same
    exact readable_of_body inside notNull stands checkedBody reached decoded

/-- JSON other than null is read under the wrappers of a type. -/
theorem readable_of_notNull (coherent : Coherent types.shapes c.definitions)
    (checked : c.definitions.Everywhere Form.Checked) (inside : ∀ part ∈ json.parts, ReadableOnceDecoded types c part)
    (notNull : json ≠ .null) (hasForm : ty.HasForm types c.definitions t.form)
    (decoded : Codec.decoder c json t path depth = .ok v) : Readable types v ty := by
  have scalar : ∀ {ty : Ty n} {kind : PrimitiveKind}, ty.shape = .primitive kind → t.form = .primitive kind →
      Readable types v ty := by
    intro ty kind shape sameForm
    have reached : c.target t = .ok (.primitive kind) := Codec.target_of_form sameForm nofun
    exact readable_of_decodeScalar shape
      ((Codec.decoder_scalar_eq_ok_iff reached (.inl ⟨kind, rfl⟩) notNull).1 decoded)
  induction ty with
  | bool | int | float32 | float64 | string | timestamp =>
      exact scalar rfl hasForm
  | json =>
      have reached : c.target t = .ok .any := Codec.target_of_form hasForm nofun
      cases (Codec.decoder_any_eq_ok_iff reached notNull).1 decoded
      exact ⟨_, rfl, .json⟩
  | unit | wide =>
      cases hasForm
  | list item =>
      obtain ⟨s, sameForm, _, stands, nullable⟩ := hasForm
      have reached : c.target t = .ok (.elements s) := Codec.target_of_form sameForm nofun
      obtain ⟨items, rfl, _, vs, decodedItems, rfl⟩ := (Codec.decoder_elements_eq_ok_iff reached notNull).1 decoded
      exact readable_list inside ⟨stands, nullable⟩ decodedItems
  | map item =>
      obtain ⟨s, sameForm, _, stands, nullable⟩ := hasForm
      have reached : c.target t = .ok (.values s) := Codec.target_of_form sameForm nofun
      obtain ⟨members, rfl, _, entries, decodedEntries, rfl⟩ := (Codec.decoder_values_eq_ok_iff reached notNull).1 decoded
      exact readable_map inside ⟨stands, nullable⟩ decodedEntries
  | option inner inductionHypothesis =>
      exact (inductionHypothesis hasForm.2).option
  | optional inner inductionHypothesis =>
      exact (inductionHypothesis hasForm.2).optional
  | field inner inductionHypothesis =>
      exact (inductionHypothesis hasForm.2).field
  | declared slot =>
      exact readable_declared coherent checked inside notNull hasForm decoded

/-- Over a coherent table everything that is decoded is read. -/
theorem readableOnceDecoded (coherent : Coherent types.shapes c.definitions)
    (checked : c.definitions.Everywhere Form.Checked) (json : Json) : ReadableOnceDecoded types c json := by
  induction json using Json.induct with
  | step json inside =>
      intro ty t path depth v stands decoded
      by_cases isNull : json = .null
      · subst isNull
        rcases Codec.decoder_null_eq_ok_iff.1 decoded with ⟨nullable, rfl⟩ | ⟨_, carried, rfl⟩
        · exact readable_null (stands.nullable.symm.trans nullable)
        · have hasForm := stands.form
          rw [Codec.isAny_iff.1 carried] at hasForm
          exact readable_any hasForm
      · exact readable_of_notNull coherent checked inside isNull stands.form decoded

end Datum

/-! ## Registered types -/

/-- A reference to the name of a type stands for the type. -/
theorem Ty.stands_of_named {defs : Definitions} {slot : Fin n} {name : String} (entered : types.shapes.IsEntered slot)
    (named : defs.nameOf? (types.shapes.id slot) = some name) : (Ty.declared slot).Stands types defs (.ref name) :=
  ⟨.inr ⟨entered, name, named, rfl⟩, rfl⟩

theorem Codec.exists_decodeJson_of_decode {bytes : ByteArray} (decoded : c.decode bytes t = .ok v) :
    ∃ json, c.decodeJson json t = .ok v := by
  unfold Codec.decode at decoded
  split at decoded
  · exact ⟨_, decoded⟩
  · cases decoded

/-- Typed decoding fails with the decoder alone. -/
theorem Codec.decodeModel_eq_error_iff {bytes : ByteArray} {error : CodecError}
    (readable : ∀ json v, c.decodeJson json t = .ok v → Datum.Readable types v ty) :
    c.decodeModel types bytes t ty = .error error ↔ c.decode bytes t = .error error := by
  unfold decodeModel
  cases decoded : c.decode bytes t with
  | error other =>
      constructor <;> intro same <;> cases same <;> rfl
  | ok v =>
      obtain ⟨json, decodedJson⟩ := exists_decodeJson_of_decode decoded
      obtain ⟨d, read, _⟩ := readable json v decodedJson
      have typed : (Except.ok v >>= fun v => Datum.ofValue types v ty) = .ok d := read
      rw [typed]
      exact iff_of_false nofun nofun

namespace TypeCatalog

/-- Whatever is decoded at a registered type is read as a datum of the type, so that typed decoding fails exactly when the
decoder does, with the error of the decoder. -/
theorem ofValue_of_decodeJson (unique : types.shapes.OneTypeEach) {before after : List (Registration n)}
    {made : Registration n} {name : String} (registers : Registers types (types.registry before) made ty name)
    (casing : Casing) (maxDepth : Nat) :
    (∀ json v, ((types.registry (before ++ made :: after)).codec casing maxDepth).decodeJson json (.ref name) = .ok v →
      ∃ d, Datum.ofValue types v ty = .ok d ∧ d.HasType types ty) ∧
    ∀ bytes error,
      ((types.registry (before ++ made :: after)).codec casing maxDepth).decodeModel types bytes (.ref name) ty =
          .error error ↔
        ((types.registry (before ++ made :: after)).codec casing maxDepth).decode bytes (.ref name) = .error error := by
  obtain ⟨slot, rfl, entered, named⟩ := @named_registry n types unique before after made ty name registers
  have coherent := coherent_registry unique (before ++ made :: after)
  have checked := @checked_registry n types (before ++ made :: after)
  generalize types.registry (before ++ made :: after) = r at *
  have stands := Ty.stands_of_named entered named
  have readable : ∀ json v, (r.codec casing maxDepth).decodeJson json (.ref name) = .ok v →
      Datum.Readable types v (.declared slot) := fun json v decoded =>
    @Datum.readableOnceDecoded n types (r.codec casing maxDepth) coherent checked json _ _ _ _ v stands decoded
  exact ⟨readable, fun _ _ => Codec.decodeModel_eq_error_iff readable⟩

/-- Posts that hold posts, with an enumeration and wrappers. -/
def posts : TypeCatalog 2 := #v[
  { info := { id := 0, name := some "Mood" }, members := .enumeration ["calm", "wild"] },
  { info := { id := 1, name := some "Post" }
    members := .record [⟨"title", .field .string, none, false⟩, ⟨"mood", .option (.declared 0), none, false⟩,
      ⟨"replies", .optional (.list (.declared 1)), none, false⟩] }]

def postShapes : Catalog 2 := #v[
  { info := { id := 0, name := some "Mood" }, members := .enumeration ["calm", "wild"] },
  { info := { id := 1, name := some "Post" }
    members := .record [⟨"title", .optional (.nullable (.primitive .string)), none, false⟩,
      ⟨"mood", .nullable (.declared 0), none, false⟩, ⟨"replies", .optional (.array (.declared 1)), none, false⟩] }]

theorem shapes_posts : posts.shapes = postShapes := by
  decide +kernel

def postJson : Json :=
  .obj [("mood", .null), ("title", .null), ("replies", .arr [.obj [("mood", .str "wild"), ("by", .str "Bo")]])]

def postValue : Value :=
  .object [("mood", .null), ("replies", .array [.object [("mood", .str "wild")]]), ("title", .null)]

/-- What is registered here; the enumeration and the list are refused. -/
def postRegistrations : List (Registration 2) :=
  [.model (.declared 0), .model (.list (.declared 1))]

theorem registry_posts :
    posts.registry postRegistrations =
        Registry.calls {} [.define postShapes (.declared 0), .define postShapes (.array (.declared 1))] ∧
      posts.registry (postRegistrations ++ [.model (.declared 1)]) =
        Registry.calls {} [.define postShapes (.declared 0), .define postShapes (.array (.declared 1)),
          .define postShapes (.declared 1)] := by
  rw [← shapes_posts]
  exact ⟨rfl, rfl⟩

theorem ofValue_of_decodeJson_posts :
    posts.shapes.OneTypeEach ∧
    Registers posts (posts.registry postRegistrations) (.model (.declared 1)) (.declared 1) "Post" ∧
    ((posts.registry (postRegistrations ++ [.model (.declared 1)])).codec .camel 64).decodeJson postJson (.ref "Post") =
      .ok postValue ∧
    (∃ d, Datum.ofValue posts postValue (.declared 1) = .ok d ∧ d.HasType posts (.declared 1)) :=
  have unique : posts.shapes.OneTypeEach := by decide +kernel
  have registers : Registers posts (posts.registry postRegistrations) (.model (.declared 1)) (.declared 1) "Post" :=
    .model (by rw [registry_posts.1, shapes_posts]; rfl)
  have decoded : ((posts.registry (postRegistrations ++ [.model (.declared 1)])).codec .camel 64).decodeJson postJson
      (.ref "Post") = .ok postValue := by
    rw [registry_posts.2]
    rfl
  ⟨unique, registers, decoded, (@ofValue_of_decodeJson 2 posts (.declared 1) unique _ [] _ _ registers .camel 64).1 _ _
    decoded⟩

end TypeCatalog

end SchemaRpc
