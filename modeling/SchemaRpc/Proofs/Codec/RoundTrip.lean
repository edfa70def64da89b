import SchemaRpc.Proofs.Codec.RollOver

/-!
# Encoding and decoding undo each other

A value that encodes is decoded from its JSON as its canonical form, which has the same JSON. The induction is on the
value; references cost nothing, since both directions go to the same target.
-/

namespace SchemaRpc

/-- A reference of this form does not lead to a body of the form any. -/
def Form.AvoidsAny (defs : Definitions) : Form TypeDef → Prop
  | ref name => ∀ body, defs.get? name = some body → Codec.isAny body = false
  | _ => True

instance (defs : Definitions) : DecidablePred (Form.AvoidsAny defs)
  | .ref name =>
      match found : defs.get? name with
      | none => isTrue fun body found' => by rw [found] at found'; cases found'
      | some body =>
          decidable_of_iff (Codec.isAny body = false)
            ⟨fun notAny body' found' => by rw [found] at found'; cases found'; exact notAny,
              fun avoids => avoids body found⟩
  | .any | .primitive _ | .enumeration _ | .elements _ | .values _ | .object _ | .union _ _ => isTrue trivial

namespace Codec

/-- The promises on a form that let a codec read what it writes: its wire keys are distinct, and it is no reference to a
body of the form any. -/
def Clear (c : Codec) (form : Form TypeDef) : Prop :=
  form.WireDistinct c.casing ∧ form.AvoidsAny c.definitions

variable {c : Codec} {t item : TypeDef} {path path' : String} {depth : Nat} {json : Json}

theorem isAny_of_target (clear : t.Everywhere c.Clear) (bodies : c.definitions.Everywhere c.Clear)
    (reached : c.target t = .ok .any) : isAny t = true := by
  obtain ⟨target, resolved, form⟩ := target_eq_ok_iff.1 reached
  obtain ⟨count, leads⟩ := Definitions.resolve_eq_ok_iff.1 resolved
  induction leads with
  | here _ =>
      simp [isAny, form]
  | @step count t next target name isRef found rest inductionHypothesis =>
      have nextResolved := Definitions.resolve_eq_ok_iff.2 ⟨count, rest⟩
      have nextReached : c.target next = .ok .any := target_eq_ok_iff.2 ⟨target, nextResolved, form⟩
      have nextAny := inductionHypothesis (bodies.get? found) nextReached nextResolved form
      have formOfRef := TypeDef.refName?_eq_some_iff.1 isRef
      have avoids := (clear.here_of_form formOfRef).2
      rw [avoids next found] at nextAny
      cases nextAny

/-- Whatever a value encodes to is decoded as its canonical form, which encodes to the same. -/
def RoundTrips (c : Codec) (v : Value) : Prop :=
  ∀ (t : TypeDef) (path path' : String) (depth : Nat) (json : Json),
    t.Everywhere c.Clear → encoder c v t path depth = .ok json →
      decoder c json t path' depth = .ok (canonical c v t) ∧ encoder c (canonical c v t) t path' depth = .ok json

/-! ## Items and entries -/

theorem roundTrip_items {items : List Value} {jsons : List Json} {index : Nat} (path' : String) (index' : Nat)
    (each : ∀ v ∈ items, RoundTrips c v) (clear : item.Everywhere c.Clear)
    (encoded : encodeItems c item path depth index items = .ok jsons) :
    decodeItems c item path' depth index' jsons = .ok (canonicalItems c item items) ∧
      encodeItems c item path' depth index' (canonicalItems c item items) = .ok jsons := by
  induction items generalizing index index' jsons with
  | nil =>
      cases encoded
      exact ⟨rfl, rfl⟩
  | cons head tail inductionHypothesis =>
      obtain ⟨headTrips, tailTrips⟩ := List.forall_mem_cons.1 each
      obtain ⟨json, encodedHead, rest⟩ := Except.bind_eq_ok_iff.1 encoded
      obtain ⟨others, encodedTail, written⟩ := Except.bind_eq_ok_iff.1 rest
      cases written
      obtain ⟨decodedHead, againHead⟩ :=
        headTrips item _ (childPath path' (toString index')) depth json clear encodedHead
      obtain ⟨decodedTail, againTail⟩ := inductionHypothesis (index' + 1) tailTrips encodedTail
      constructor
      · refine Except.bind_eq_ok_iff.2 ⟨_, decodedHead, Except.bind_eq_ok_iff.2 ⟨_, decodedTail, rfl⟩⟩
      · refine Except.bind_eq_ok_iff.2 ⟨_, againHead, Except.bind_eq_ok_iff.2 ⟨_, againTail, rfl⟩⟩

theorem roundTrip_entries {entries : List (String × Value)} {members : Json.Members} (path' : String)
    (done : Entries Value)
    (each : ∀ entry ∈ entries, RoundTrips c entry.2) (clear : item.Everywhere c.Clear)
    (ascending : ((done ++ entries).map Prod.fst).Pairwise (· < ·))
    (encoded : encodeEntries c item path depth entries = .ok members) :
    decodeEntries c item path' depth done members = .ok (done ++ canonicalEntries c item entries) ∧
      encodeEntries c item path' depth (canonicalEntries c item entries) = .ok members := by
  induction entries generalizing done members with
  | nil =>
      cases encoded
      exact ⟨congrArg _ (List.append_nil done).symm, rfl⟩
  | cons head tail inductionHypothesis =>
      obtain ⟨key, v⟩ := head
      obtain ⟨headTrips, tailTrips⟩ := List.forall_mem_cons.1 each
      obtain ⟨json, encodedHead, rest⟩ := Except.bind_eq_ok_iff.1 encoded
      obtain ⟨others, encodedTail, written⟩ := Except.bind_eq_ok_iff.1 rest
      cases written
      obtain ⟨decodedHead, againHead⟩ := headTrips item _ (childPath path' key) depth json clear encodedHead
      have last : done.insert key (canonical c v item) = done ++ [(key, canonical c v item)] := by
        refine Entries.insert_of_forall_lt fun entry member => ?_
        rw [List.map_append, List.pairwise_append] at ascending
        exact ascending.2.2 entry.1 (List.mem_map_of_mem member) key (by simp)
      have ascendingNext : ((done ++ [(key, canonical c v item)] ++ tail).map Prod.fst).Pairwise (· < ·) := by
        simpa using ascending
      obtain ⟨decodedTail, againTail⟩ := inductionHypothesis _ tailTrips ascendingNext encodedTail
      constructor
      · refine Except.bind_eq_ok_iff.2 ⟨_, decodedHead, ?_⟩
        rw [last, decodedTail, canonicalEntries, List.append_assoc]
        rfl
      · refine Except.bind_eq_ok_iff.2 ⟨_, againHead, Except.bind_eq_ok_iff.2 ⟨_, againTail, rfl⟩⟩

/-! ## Fields -/

section Fields

variable {properties : List (Property TypeDef)} {fields : Entries Value} {members : Json.Members}

/-- What the round trip of the present fields says about one property: its member is read as the canonical field, and
the canonical field is written as the same member. -/
theorem roundTrip_property (path' : String) (each : ∀ field ∈ fields, RoundTrips c field.2)
    (ascending : Entries.Ascending fields) (names : (properties.map Property.name).Nodup)
    {p : Property TypeDef} (member : p ∈ properties) (clear : p.type.Everywhere c.Clear)
    (written : FieldWritten c fields path depth p)
    (agree : members.get? (c.key p.name) = c.writtenJson? fields path depth p) :
    (FieldRead c members path' depth p ∧
        c.readValue? members path' depth p =
          (Value.present? p.name fields).map fun v => canonical c v p.type) ∧
      FieldWritten c (canonicalFields c properties fields) path' depth p ∧
        c.writtenJson? (canonicalFields c properties fields) path' depth p = c.writtenJson? fields path depth p := by
  have canonicalField :
      Value.present? p.name (canonicalFields c properties fields) =
        (Value.present? p.name fields).map fun v => canonical c v p.type :=
    present?_canonicalFields ascending names member
  cases found : Value.present? p.name fields with
  | none =>
      rw [found, Option.map_none] at canonicalField
      have nothing : c.writtenJson? fields path depth p = none := by
        simp [writtenJson?, found]
      rw [nothing] at agree
      have mayMiss := (fieldWritten_of_missing found).1 written
      refine ⟨⟨(fieldRead_of_missing agree).2 mayMiss, ?_⟩, (fieldWritten_of_missing canonicalField).2 mayMiss, ?_⟩
      · simp [readValue?, agree]
      · simp [writtenJson?, canonicalField, found]
  | some v =>
      rw [found, Option.map_some] at canonicalField
      obtain ⟨json, encoded⟩ := (fieldWritten_of_present found).1 written
      have something : c.writtenJson? fields path depth p = some json := by
        simp [writtenJson?, found, encoded, Except.toOption]
      rw [something] at agree
      have field : (p.name, v) ∈ fields :=
        Entries.mem_of_find? (Option.filter_eq_some_iff.1 found).1
      obtain ⟨decoded, again⟩ := each _ field p.type _ (c.propertyPath path' p) depth json clear encoded
      refine ⟨⟨(fieldRead_of_found agree).2 ⟨_, decoded⟩, ?_⟩,
        (fieldWritten_of_present canonicalField).2 ⟨_, again⟩, ?_⟩
      · simp [readValue?, agree, decoded, Except.toOption]
      · rw [something]
        simp [writtenJson?, canonicalField, again, Except.toOption]

/-- The fields that are read are the canonical ones. -/
theorem ofPairs_readFields (ascending : Entries.Ascending fields) (names : (properties.map Property.name).Nodup)
    (read : ∀ p ∈ properties,
      c.readValue? members path depth p = (Value.present? p.name fields).map fun v => canonical c v p.type) :
    Entries.ofPairs (readFields c members path depth properties) = canonicalFields c properties fields := by
  refine Entries.ext (Entries.ascending_ofPairs _) (ascending_canonicalFields ascending) fun name => ?_
  have distinctNames : ((readFields c members path depth properties).map Prod.fst).Nodup :=
    keys_collect_sublist.nodup names
  rw [Entries.find?_ofPairs distinctNames, find?_canonicalFields ascending]
  by_cases declared : ∃ p ∈ properties, p.name = name
  · obtain ⟨p, member, rfl⟩ := declared
    rw [readFields, lookup_collect names member, read p member, findProperty?_of_mem names member]
    cases Value.present? p.name fields <;> rfl
  · have fresh : name ∉ properties.map Property.name := by
      simpa using declared
    have undeclared : findProperty? name properties = none := by
      simpa [findProperty?] using declared
    rw [readFields, lookup_collect_of_not_mem fresh, undeclared]
    cases Value.present? name fields <;> rfl

theorem roundTrip_fields (path' : String) (each : ∀ field ∈ fields, RoundTrips c field.2)
    (ascending : Entries.Ascending fields) (names : (properties.map Property.name).Nodup)
    (clear : ∀ p ∈ properties, p.type.Everywhere c.Clear)
    (written : ∀ p ∈ properties, FieldWritten c fields path depth p)
    (agree : ∀ p ∈ properties, members.get? (c.key p.name) = c.writtenJson? fields path depth p) :
    ((∀ p ∈ properties, FieldRead c members path' depth p) ∧
        canonicalFields c properties fields = Entries.ofPairs (readFields c members path' depth properties)) ∧
      (∀ p ∈ properties, FieldWritten c (canonicalFields c properties fields) path' depth p) ∧
        writtenMembers c (canonicalFields c properties fields) path' depth properties =
          writtenMembers c fields path depth properties := by
  have each := fun p member =>
    roundTrip_property path' each ascending names member (clear p member) (written p member) (agree p member)
  refine ⟨⟨fun p member => (each p member).1.1, ?_⟩, fun p member => (each p member).2.1, ?_⟩
  · exact (ofPairs_readFields ascending names fun p member => (each p member).1.2).symm
  · exact writtenMembers_congr fun p member => (each p member).2.2

end Fields

/-! ## All values -/

theorem target_of_isAny (carried : isAny t = true) : c.target t = .ok .any :=
  target_of_form (isAny_iff.1 carried) nofun

/-- Null is null where the flag allows it, and carried elsewhere. -/
theorem roundTrip_nullJson (allowed : t.nullable = true ∨ isAny t = true) :
    decoder c .null t path depth = .ok (if t.nullable then .null else .any .null) ∧
      encoder c (if t.nullable then .null else .any .null) t path depth = .ok .null := by
  cases nullable : t.nullable with
  | true =>
      exact ⟨decoder_null_eq_ok_iff.2 (.inl ⟨nullable, rfl⟩), encoder_null_eq_ok_iff.2 ⟨allowed, rfl⟩⟩
  | false =>
      have carried : isAny t = true := by
        simpa [nullable] using allowed
      have written : encodeScalar (.any .null) .any path = .ok .null := rfl
      exact ⟨decoder_null_eq_ok_iff.2 (.inr ⟨nullable, carried, rfl⟩),
        (encoder_scalar_eq_ok_iff (Value.isScalar_any _)).2 ⟨_, target_of_isAny carried, written⟩⟩

theorem roundTrips_null : RoundTrips c .null := by
  intro t path path' depth json clear encoded
  obtain ⟨allowed, rfl⟩ := encoder_null_eq_ok_iff.1 encoded
  have kept : canonical c .null t = if t.nullable then .null else .any .null := by
    cases nullable : t.nullable with
    | true =>
        simp [canonical, nullable]
    | false =>
        have carried : isAny t = true := by
          simpa [nullable] using allowed
        simp [canonical, nullable, carried]
  rw [kept]
  exact roundTrip_nullJson allowed

theorem roundTrips_scalar (bodies : c.definitions.Everywhere c.Clear) {v : Value} (scalar : v.IsScalar)
    (told : v.HasProperTime) : RoundTrips c v := by
  intro t path path' depth json clear encoded
  obtain ⟨form, reached, written⟩ := (encoder_scalar_eq_ok_iff scalar).1 encoded
  -- JSON at the form `any` is carried as it is, and null there is read like any other null
  by_cases carried : form = .any
  · subst carried
    cases encodeScalar_any written
    have isAny := isAny_of_target clear bodies reached
    by_cases isNull : json = .null
    · subst isNull
      exact roundTrip_nullJson (.inr isAny)
    · have kept : canonical c (.any json) t = .any json := by
        rw [canonical_scalar (Value.isScalar_any json) fun equal => isNull (Value.any.inj equal)]
        rfl
      rw [kept]
      exact ⟨(decoder_any_eq_ok_iff reached isNull).2 rfl,
        (encoder_scalar_eq_ok_iff (Value.isScalar_any _)).2 ⟨_, reached, rfl⟩⟩
  · obtain ⟨scalarForm, notNull, decoded, again⟩ := roundTrip_scalar scalar carried told written
    have notCarried : v ≠ .any .null := by
      rintro rfl
      rcases scalarForm with ⟨kind, rfl⟩ | ⟨listed, rfl⟩ <;> simp [encodeScalar, encodeMismatch] at written
    have kept : canonical c v t = canonicalScalar v (some form) := by
      rw [canonical_scalar scalar notCarried, reached]
      rfl
    rw [kept]
    exact ⟨(decoder_scalar_eq_ok_iff reached scalarForm notNull).2 decoded,
      (encoder_scalar_eq_ok_iff (isScalar_canonicalScalar scalar _)).2 ⟨_, reached, again⟩⟩

theorem roundTrips_array (bodies : c.definitions.Everywhere c.Clear) {items : List Value}
    (each : ∀ v ∈ items, RoundTrips c v) : RoundTrips c (.array items) := by
  intro t path path' depth json clear encoded
  obtain ⟨item, reached, allowed, jsons, encodedItems, rfl⟩ := encoder_array_eq_ok_iff.1 encoded
  obtain ⟨target, _, form, clearTarget⟩ := exists_everywhere_of_target reached clear bodies
  have kept : canonical c (.array items) t = .array (canonicalItems c item items) := by
    simp [canonical, reached]
  obtain ⟨decoded, again⟩ :=
    roundTrip_items path' 0 each (clearTarget.elements form) encodedItems
  have notNull := Json.arr_ne_null jsons
  rw [kept]
  exact ⟨(decoder_elements_eq_ok_iff reached notNull).2 ⟨jsons, rfl, allowed, _, decoded, rfl⟩,
    encoder_array_eq_ok_iff.2 ⟨item, reached, allowed, jsons, again, rfl⟩⟩

theorem roundTrips_map (bodies : c.definitions.Everywhere c.Clear) {entries : List (String × Value)}
    (ascending : Entries.Ascending entries) (each : ∀ entry ∈ entries, RoundTrips c entry.2) :
    RoundTrips c (.map entries) := by
  intro t path path' depth json clear encoded
  obtain ⟨item, reached, allowed, members, encodedEntries, rfl⟩ := encoder_map_eq_ok_iff.1 encoded
  obtain ⟨target, _, form, clearTarget⟩ := exists_everywhere_of_target reached clear bodies
  have kept : canonical c (.map entries) t = .map (canonicalEntries c item entries) := by
    simp [canonical, reached]
  obtain ⟨decoded, again⟩ :=
    roundTrip_entries path' [] each (clearTarget.values form) (ascending_iff_keys.1 ascending) encodedEntries
  have notNull := Json.obj_ne_null members
  rw [kept]
  exact ⟨(decoder_values_eq_ok_iff reached notNull).2 ⟨members, rfl, allowed, _, decoded, rfl⟩,
    encoder_map_eq_ok_iff.2 ⟨item, reached, allowed, members, again, rfl⟩⟩

theorem roundTrips_object (bodies : c.definitions.Everywhere c.Clear) {fields : List (String × Value)}
    (ascending : Entries.Ascending fields) (each : ∀ field ∈ fields, RoundTrips c field.2) :
    RoundTrips c (.object fields) := by
  intro t path path' depth json clear encoded
  obtain ⟨properties, reached, allowed, members, encodedFields, rfl⟩ := encoder_object_eq_ok_iff.1 encoded
  obtain ⟨target, _, form, clearTarget⟩ := exists_everywhere_of_target reached clear bodies
  have distinct : (Form.wireKeys c.casing properties).Nodup := (clearTarget.here_of_form form).1
  obtain ⟨written, collected⟩ := encodeProperties_eq_ok_iff.1 encodedFields
  have pairs : members = writtenMembers c fields path (depth + 1) properties :=
    collected.trans (Json.Members.ofPairs_of_nodup (nodup_keys_writtenMembers distinct))
  subst pairs
  obtain ⟨⟨read, canonicalized⟩, writtenAgain, sameMembers⟩ :=
    roundTrip_fields path' each ascending (nodup_names_of_nodup_wireKeys distinct) (clearTarget.object form) written
      fun p member => get?_writtenMembers distinct member
  have notNull := Json.obj_ne_null (writtenMembers c fields path (depth + 1) properties)
  have kept : canonical c (.object fields) t = .object (canonicalFields c properties fields) := by
    simp [canonical, reached]
  rw [kept]
  constructor
  · refine (decoder_object_eq_ok_iff reached notNull).2 ⟨_, rfl, allowed, _, ?_, rfl⟩
    exact (decodeProperties_object_eq_ok_iff distinct).2 ⟨read, canonicalized⟩
  · refine encoder_object_eq_ok_iff.2 ⟨properties, reached, allowed, _, ?_, rfl⟩
    refine encodeProperties_eq_ok_iff.2 ⟨writtenAgain, ?_⟩
    rw [sameMembers]
    exact collected

theorem roundTrips_union (bodies : c.definitions.Everywhere c.Clear) {tag : String}
    {fields : List (String × Value)} (ascending : Entries.Ascending fields)
    (each : ∀ field ∈ fields, RoundTrips c field.2) : RoundTrips c (.union tag fields) := by
  intro t path path' depth json clear encoded
  obtain ⟨key, mapping, properties, reached, listed, allowed, members, encodedFields, rfl⟩ :=
    encoder_union_eq_ok_iff.1 encoded
  obtain ⟨target, _, form, clearTarget⟩ := exists_everywhere_of_target reached clear bodies
  have variant : (tag, properties) ∈ mapping := mem_of_lookup listed
  have distinct : (c.key key :: Form.wireKeys c.casing properties).Nodup :=
    (clearTarget.here_of_form form).1 _ variant
  obtain ⟨_, distinctKeys⟩ := List.nodup_cons.1 distinct
  obtain ⟨written, collected⟩ := encodeProperties_eq_ok_iff.1 encodedFields
  have pairs : members = (c.key key, .str tag) :: writtenMembers c fields path (depth + 1) properties :=
    collected.trans
      (Json.Members.foldl_set_of_nodup _ [(c.key key, .str tag)] (nodup_keys_cons_writtenMembers distinct))
  subst pairs
  have tagged : Json.Members.get? (c.key key)
      ((c.key key, .str tag) :: writtenMembers c fields path (depth + 1) properties) = some (.str tag) := by
    simp [Json.Members.get?]
  obtain ⟨⟨read, canonicalized⟩, writtenAgain, sameMembers⟩ :=
    roundTrip_fields path' each ascending (nodup_names_of_nodup_wireKeys distinctKeys)
      (fun p member => clearTarget.union form _ variant p member) written
      fun p member => get?_cons_writtenMembers distinct member
  have notNull :=
    Json.obj_ne_null ((c.key key, .str tag) :: writtenMembers c fields path (depth + 1) properties)
  have kept : canonical c (.union tag fields) t = .union tag (canonicalFields c properties fields) := by
    simp [canonical, reached, listed]
  rw [kept]
  constructor
  · refine (decoder_union_eq_ok_iff reached notNull).2 ⟨_, tag, properties, rfl, tagged, listed, allowed, _, ?_, rfl⟩
    exact (decodeProperties_union_eq_ok_iff distinct).2 ⟨read, canonicalized⟩
  · refine encoder_union_eq_ok_iff.2 ⟨key, mapping, properties, reached, listed, allowed, _, ?_, rfl⟩
    refine encodeProperties_eq_ok_iff.2 ⟨writtenAgain, ?_⟩
    rw [sameMembers]
    exact collected

theorem roundTrips (bodies : c.definitions.Everywhere c.Clear) (v : Value) :
    v.Everywhere Value.Stored → v.Everywhere Value.HasProperTime → RoundTrips c v := by
  induction v using Value.induct with
  | absent =>
      intro _ _ t path path' depth json _ encoded
      exact absurd encoded encoder_absent_ne_ok
  | null =>
      exact fun _ _ => roundTrips_null
  | scalar v scalar =>
      exact fun _ told => roundTrips_scalar bodies scalar told.here
  | array items each =>
      intro stored told
      exact roundTrips_array bodies fun v item => each v item (stored.array v item) (told.array v item)
  | map entries each =>
      intro stored told
      exact roundTrips_map bodies stored.here fun entry listed =>
        each entry listed (stored.map entry listed) (told.map entry listed)
  | object fields each =>
      intro stored told
      exact roundTrips_object bodies stored.here fun field listed =>
        each field listed (stored.object field listed) (told.object field listed)
  | union tag fields each =>
      intro stored told
      exact roundTrips_union bodies stored.here fun field listed =>
        each field listed (stored.union field listed) (told.union field listed)

/-- Leap counts wherever they stand: the value that is read is the canonical form of the one in which they have rolled
over. -/
theorem decoder_encoder (bodies : c.definitions.Everywhere c.Clear) {v : Value} (path' : String) (clear : t.Everywhere c.Clear)
    (stored : v.Everywhere Value.Stored) (dated : v.Everywhere Value.HasFourDigitYear)
    (encoded : encoder c v t path depth = .ok json) :
    decoder c json t path' depth = .ok (canonical c v.rollOver t) ∧
      encoder c (canonical c v.rollOver t) t path' depth = .ok json := by
  rw [← encoder_rollOver stored] at encoded
  exact roundTrips bodies v.rollOver (Value.stored_rollOver stored) (Value.hasProperTime_rollOver stored dated) t path path'
    depth json clear encoded

/-- A value that encodes is decoded from its JSON as its canonical form, in which leap counts have rolled over, and that has
the same JSON. The depth bound and cycles of references need no hypothesis: a value that encodes has met both already. -/
theorem decodeJson_encodeJson {v : Value}
    (distinct : t.Everywhere (Form.WireDistinct c.casing))
    (distinctBodies : c.definitions.Everywhere (Form.WireDistinct c.casing))
    (avoids : t.Everywhere (Form.AvoidsAny c.definitions))
    (avoidsBodies : c.definitions.Everywhere (Form.AvoidsAny c.definitions))
    (stored : v.Everywhere Value.Stored) (dated : v.Everywhere Value.HasFourDigitYear)
    (encoded : c.encodeJson v t = .ok json) :
    c.decodeJson json t = .ok (canonical c v.rollOver t) ∧ c.encodeJson (canonical c v.rollOver t) t = .ok json := by
  have clear : t.Everywhere c.Clear := fun s member => ⟨distinct s member, avoids s member⟩
  have bodies : c.definitions.Everywhere c.Clear := fun entry listed s member =>
    ⟨distinctBodies entry listed s member, avoidsBodies entry listed s member⟩
  exact decoder_encoder bodies rootPath clear stored dated encoded

/-- Links of a chain: each may be followed by another, and tells when it was forged. -/
def chainCodec : Codec where
  definitions :=
    { entries :=
        [("Link", ⟨some (.object [⟨"next_link", (TypeDef.ref "Link").withNullable true, true⟩,
            ⟨"forged_at", .primitive .timestamp, true⟩, ⟨"number", .primitive .int64, false⟩]), some 0⟩)] }

theorem decodeJson_encodeJson_chain :
    chainCodec.decodeJson
        (.obj [("nextLink", .obj [("nextLink", .null), ("number", .str "7")]), ("forgedAt", .str "1970-01-01T00:00:31.500Z"),
          ("number", .str "-3")])
        (.ref "Link") =
      .ok (.object [("forged_at", .timestamp ⟨31, 500000000⟩),
        ("next_link", .object [("next_link", .null), ("number", .int 7)]), ("number", .int (-3))]) ∧
    chainCodec.encodeJson
        (.object [("forged_at", .timestamp ⟨31, 500000000⟩),
          ("next_link", .object [("next_link", .null), ("number", .int 7)]), ("number", .int (-3))])
        (.ref "Link") =
      .ok (.obj [("nextLink", .obj [("nextLink", .null), ("number", .str "7")]),
        ("forgedAt", .str "1970-01-01T00:00:31.500Z"), ("number", .str "-3")]) :=
  -- the number 7 is unsigned, one field is not declared and a leap count stands after the second 30: all are canonicalized
  decodeJson_encodeJson
    (v := .object [("forged_at", .timestamp ⟨30, 1500000123⟩),
      ("next_link", .object [("next_link", .null), ("number", .uint 7)]), ("note", .str "left out"), ("number", .int (-3))])
    (by decide) (by decide) (by decide) (by decide) (by decide) (by decide) (by rfl)

/-- A leap count after the second 30 is written as a part of the second 31, and read as one. -/
theorem leapCount_not_canonical :
    ¬ ∀ (c : Codec) (t : TypeDef) (v : Value) (json : Json), t.Everywhere (Form.WireDistinct c.casing) →
        c.definitions.Everywhere (Form.WireDistinct c.casing) → t.Everywhere (Form.AvoidsAny c.definitions) →
        c.definitions.Everywhere (Form.AvoidsAny c.definitions) → v.Everywhere Value.Stored →
        v.Everywhere Value.HasFourDigitYear → c.encodeJson v t = .ok json →
          c.decodeJson json t = .ok (canonical c v t) ∧ c.encodeJson (canonical c v t) t = .ok json := by
  intro returns
  obtain ⟨decoded, _⟩ :=
    returns {} (.primitive .timestamp) (.timestamp ⟨30, 1500000000⟩) (.str "1970-01-01T00:00:31.500Z") (by decide) (by decide)
      (by decide) (by decide) (by decide) (by decide) (by rfl)
  have read : Codec.decodeJson {} (.str "1970-01-01T00:00:31.500Z") (.primitive .timestamp) =
      .ok (.timestamp ⟨31, 500000000⟩) := by rfl
  rw [read] at decoded
  cases decoded

end Codec

end SchemaRpc
