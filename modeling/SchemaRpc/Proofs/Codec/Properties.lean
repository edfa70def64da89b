import SchemaRpc.Proofs.Codec.Success
import SchemaRpc.Proofs.Keyed
import SchemaRpc.Proofs.TypeDef.Nodes

/-!
# Coding properties

The encoder and the decoder go through the declared properties one after the other. What comes out says the same of
each property by itself: `FieldWritten` and `FieldRead` are the conditions under which a property passes, and the result
collects the parts `writtenJson?` and `readValue?` in declared order.
-/

namespace SchemaRpc

/-- The field of that name when it is there and not absent. -/
def Value.present? (name : String) (fields : Entries Value) : Option Value :=
  (Entries.find? name fields).filter fun v => !v.isAbsent

namespace Codec

variable {c : Codec} {path : String} {depth : Nat} {properties : List (Property TypeDef)}

/-- The place of a property below an object. -/
def propertyPath (c : Codec) (path : String) (p : Property TypeDef) : String :=
  childPath path (c.key p.name)

theorem mem_wireKeys {p : Property TypeDef} (member : p ∈ properties) :
    c.key p.name ∈ Form.wireKeys c.casing properties :=
  List.mem_map_of_mem member

theorem nodup_names_of_nodup_wireKeys (distinct : (Form.wireKeys c.casing properties).Nodup) :
    (properties.map Property.name).Nodup := by
  rw [List.nodup_iff_pairwise_ne, List.pairwise_map]
  rw [Form.wireKeys, List.nodup_iff_pairwise_ne, List.pairwise_map] at distinct
  refine distinct.imp fun different sameName => different ?_
  rw [sameName]

/-! ## Writing -/

section Writing

variable {fields : Entries Value}

/-- A property can be written: its field encodes, or is missing where it may be. -/
def FieldWritten (c : Codec) (fields : Entries Value) (path : String) (depth : Nat) (p : Property TypeDef) : Prop :=
  match Value.present? p.name fields with
  | none => p.optional = true
  | some v => ∃ json, encoder c v p.type (c.propertyPath path p) depth = .ok json

/-- What is written for a property. -/
def writtenJson? (c : Codec) (fields : Entries Value) (path : String) (depth : Nat) (p : Property TypeDef) :
    Option Json :=
  (Value.present? p.name fields).bind fun v => (encoder c v p.type (c.propertyPath path p) depth).toOption

/-- The members written for properties, in declared order. -/
def writtenMembers (c : Codec) (fields : Entries Value) (path : String) (depth : Nat)
    (properties : List (Property TypeDef)) : Json.Members :=
  collect (fun p => c.key p.name) (c.writtenJson? fields path depth) properties

theorem fieldWritten_of_missing {p : Property TypeDef} (missing : Value.present? p.name fields = none) :
    FieldWritten c fields path depth p ↔ p.optional = true := by
  simp only [FieldWritten, missing]

theorem fieldWritten_of_present {p : Property TypeDef} {v : Value}
    (present : Value.present? p.name fields = some v) :
    FieldWritten c fields path depth p ↔ ∃ json, encoder c v p.type (c.propertyPath path p) depth = .ok json := by
  simp only [FieldWritten, present]

theorem writtenMembers_cons (p : Property TypeDef) (rest : List (Property TypeDef)) :
    writtenMembers c fields path depth (p :: rest) =
      ((c.writtenJson? fields path depth p).map (c.key p.name, ·)).toList ++
        writtenMembers c fields path depth rest :=
  collect_cons p rest

theorem find?_fieldEncoders_join (name : String) :
    ((fieldEncoders c fields).find? name).join = (Value.present? name fields).map (encoder c) := by
  rw [find?_fieldEncoders, Value.present?]
  cases Entries.find? name fields with
  | none =>
      rfl
  | some v =>
      cases absent : v.isAbsent <;> simp [absent, Option.filter]

theorem encodeProperties_cons_none {encoders : Entries (Option Encoder)} {done : Json.Members} {p : Property TypeDef}
    {rest : List (Property TypeDef)} (missing : (encoders.find? p.name).join = none) :
    encodeProperties c encoders path depth done (p :: rest) =
      if p.optional then encodeProperties c encoders path depth done rest
      else .error (.missingField (childPath path (c.key p.name))) := by
  simp only [encodeProperties, missing]

theorem encodeProperties_cons_some {encoders : Entries (Option Encoder)} {done : Json.Members} {p : Property TypeDef}
    {rest : List (Property TypeDef)} {write : Encoder} (found : (encoders.find? p.name).join = some write) :
    encodeProperties c encoders path depth done (p :: rest) =
      (write p.type (childPath path (c.key p.name)) depth >>= fun json =>
        encodeProperties c encoders path depth (done.set (c.key p.name) json) rest) := by
  simp only [encodeProperties, found]
  cases write p.type (childPath path (c.key p.name)) depth <;> rfl

theorem encodeProperties_eq_ok_iff {done members : Json.Members} :
    encodeProperties c (fieldEncoders c fields) path depth done properties = .ok members ↔
      (∀ p ∈ properties, FieldWritten c fields path depth p) ∧
        members =
          (writtenMembers c fields path depth properties).foldl
            (fun members (key, value) => members.set key value) done := by
  induction properties generalizing done with
  | nil =>
      simp only [encodeProperties, List.not_mem_nil, false_implies, implies_true, true_and, Except.ok.injEq]
      exact eq_comm
  | cons head tail inductionHypothesis =>
      rw [List.forall_mem_cons, writtenMembers_cons]
      unfold encodeProperties
      rw [find?_fieldEncoders_join]
      cases found : Value.present? head.name fields with
      | none =>
          rw [fieldWritten_of_missing found]
          cases mayMiss : head.optional with
          | true =>
              simpa [writtenJson?, found] using inductionHypothesis
          | false =>
              simp
      | some v =>
          rw [fieldWritten_of_present found]
          cases encoded : encoder c v head.type (c.propertyPath path head) depth with
          | error error =>
              rw [propertyPath] at encoded
              simp [encoded]
          | ok json =>
              have written : c.writtenJson? fields path depth head = some json := by
                simp [writtenJson?, found, encoded, Except.toOption]
              rw [propertyPath] at encoded
              simpa [encoded, written] using inductionHypothesis

theorem exists_encodeProperties_iff {done : Json.Members} :
    (∃ members, encodeProperties c (fieldEncoders c fields) path depth done properties = .ok members) ↔
      ∀ p ∈ properties, FieldWritten c fields path depth p := by
  constructor
  · rintro ⟨members, encoded⟩
    exact (encodeProperties_eq_ok_iff.1 encoded).1
  · intro written
    exact ⟨_, encodeProperties_eq_ok_iff.2 ⟨written, rfl⟩⟩

/-- An object can be written when each of its declared fields can. -/
theorem exists_encoder_object_iff {t : TypeDef} (reached : c.target t = .ok (.object properties))
    (deep : depth + 1 ≤ c.maxDepth) :
    (∃ json, encoder c (.object fields) t path depth = .ok json) ↔
      ∀ p ∈ properties, FieldWritten c fields path (depth + 1) p := by
  rw [← exists_encodeProperties_iff]
  constructor
  · rintro ⟨json, encoded⟩
    obtain ⟨properties', reached', _, members, encodedFields, _⟩ := encoder_object_eq_ok_iff.1 encoded
    rw [reached] at reached'
    cases reached'
    exact ⟨members, encodedFields⟩
  · rintro ⟨members, encodedFields⟩
    exact ⟨_, encoder_object_eq_ok_iff.2 ⟨properties, reached, deep, members, encodedFields, rfl⟩⟩

theorem exists_encoder_union_iff {t : TypeDef} {key tag : String} {mapping : List (String × List (Property TypeDef))}
    (reached : c.target t = .ok (.union key mapping)) (mapped : mapping.lookup tag = some properties)
    (deep : depth + 1 ≤ c.maxDepth) :
    (∃ json, encoder c (.union tag fields) t path depth = .ok json) ↔
      ∀ p ∈ properties, FieldWritten c fields path (depth + 1) p := by
  rw [← exists_encodeProperties_iff]
  constructor
  · rintro ⟨json, encoded⟩
    obtain ⟨key', mapping', properties', reached', mapped', _, members, encodedFields, _⟩ :=
      encoder_union_eq_ok_iff.1 encoded
    rw [reached] at reached'
    cases reached'
    rw [mapped] at mapped'
    cases mapped'
    exact ⟨members, encodedFields⟩
  · rintro ⟨members, encodedFields⟩
    exact ⟨_, encoder_union_eq_ok_iff.2 ⟨key, mapping, properties, reached, mapped, deep, members, encodedFields, rfl⟩⟩

theorem writtenMembers_congr {fields' : Entries Value} {path' : String} {depth' : Nat}
    (same : ∀ p ∈ properties, c.writtenJson? fields path depth p = c.writtenJson? fields' path' depth' p) :
    writtenMembers c fields path depth properties = writtenMembers c fields' path' depth' properties :=
  collect_congr same

theorem nodup_keys_writtenMembers (distinct : (Form.wireKeys c.casing properties).Nodup) :
    ((writtenMembers c fields path depth properties).map Prod.fst).Nodup :=
  keys_collect_sublist.nodup distinct

theorem nodup_keys_cons_writtenMembers {key : String}
    (distinct : (key :: Form.wireKeys c.casing properties).Nodup) :
    (key :: (writtenMembers c fields path depth properties).map Prod.fst).Nodup :=
  (keys_collect_sublist.cons_cons key).nodup distinct

theorem get?_writtenMembers (distinct : (Form.wireKeys c.casing properties).Nodup) {p : Property TypeDef}
    (member : p ∈ properties) :
    (writtenMembers c fields path depth properties).get? (c.key p.name) = c.writtenJson? fields path depth p :=
  @lookup_collect (Property TypeDef) Json (fun p => c.key p.name) _ properties distinct p member

/-- The tag stands first, and no property is looked up under its key. -/
theorem get?_cons_writtenMembers {key : String} {tag : Json} (distinct : (c.key key :: Form.wireKeys c.casing properties).Nodup)
    {p : Property TypeDef} (member : p ∈ properties) :
    Json.Members.get? (c.key p.name) ((c.key key, tag) :: writtenMembers c fields path depth properties) =
      c.writtenJson? fields path depth p := by
  obtain ⟨freshTag, distinctKeys⟩ := List.nodup_cons.1 distinct
  have different : (c.key p.name == c.key key) = false :=
    beq_false_of_ne fun same => freshTag (same ▸ mem_wireKeys member)
  rw [Json.Members.get?, List.lookup_cons, different]
  exact get?_writtenMembers distinctKeys member

end Writing

/-! ## Reading -/

section Reading

variable {members : Json.Members}

/-- A property can be read: its member decodes, or is missing where it may be. -/
def FieldRead (c : Codec) (members : Json.Members) (path : String) (depth : Nat) (p : Property TypeDef) : Prop :=
  match members.get? (c.key p.name) with
  | none => p.optional = true
  | some json => ∃ v, decoder c json p.type (c.propertyPath path p) depth = .ok v

/-- What is read for a property. -/
def readValue? (c : Codec) (members : Json.Members) (path : String) (depth : Nat) (p : Property TypeDef) :
    Option Value :=
  (members.get? (c.key p.name)).bind fun json => (decoder c json p.type (c.propertyPath path p) depth).toOption

/-- The fields read for properties, in declared order. -/
def readFields (c : Codec) (members : Json.Members) (path : String) (depth : Nat)
    (properties : List (Property TypeDef)) : List (String × Value) :=
  collect Property.name (c.readValue? members path depth) properties

theorem fieldRead_of_missing {p : Property TypeDef} (missing : members.get? (c.key p.name) = none) :
    FieldRead c members path depth p ↔ p.optional = true := by
  simp only [FieldRead, missing]

theorem fieldRead_of_found {p : Property TypeDef} {json : Json}
    (found : members.get? (c.key p.name) = some json) :
    FieldRead c members path depth p ↔ ∃ v, decoder c json p.type (c.propertyPath path p) depth = .ok v := by
  simp only [FieldRead, found]

theorem readFields_cons (p : Property TypeDef) (rest : List (Property TypeDef)) :
    readFields c members path depth (p :: rest) =
      ((c.readValue? members path depth p).map (p.name, ·)).toList ++ readFields c members path depth rest :=
  collect_cons p rest

theorem find?_memberDecoders_eq (key : String) :
    (memberDecoders c members).find? key = (members.get? key).map (decoder c) := by
  rw [find?_memberDecoders, Json.Members.get?_eq_find?]

/-- Taking out a key leaves the decoders of properties with other wire keys. -/
theorem find?_erase_decoders {decoders : Entries Decoder} {key : String}
    (fresh : key ∉ Form.wireKeys c.casing properties) {p : Property TypeDef} (member : p ∈ properties) :
    (decoders.erase key).find? (c.key p.name) = decoders.find? (c.key p.name) := by
  refine Entries.find?_erase_of_ne ?_ decoders
  rintro rfl
  exact fresh (mem_wireKeys member)

/-- The tag is taken out, and no property is looked up under its key. -/
theorem find?_erase_memberDecoders {key : String} (fresh : key ∉ Form.wireKeys c.casing properties)
    {p : Property TypeDef} (member : p ∈ properties) :
    ((memberDecoders c members).erase key).find? (c.key p.name) = (members.get? (c.key p.name)).map (decoder c) := by
  rw [find?_erase_decoders fresh member]
  exact find?_memberDecoders_eq (c.key p.name)

theorem decodeProperties_cons_none {decoders : Entries Decoder} {done : Entries Value} {p : Property TypeDef}
    {rest : List (Property TypeDef)} (missing : decoders.find? (c.key p.name) = none) :
    decodeProperties c path depth decoders done (p :: rest) =
      if p.optional then decodeProperties c path depth decoders done rest
      else .error (.missingField (childPath path (c.key p.name))) := by
  simp only [decodeProperties, missing]

theorem decodeProperties_cons_some {decoders : Entries Decoder} {done : Entries Value} {p : Property TypeDef}
    {rest : List (Property TypeDef)} {read : Decoder} (found : decoders.find? (c.key p.name) = some read) :
    decodeProperties c path depth decoders done (p :: rest) =
      (read p.type (childPath path (c.key p.name)) depth >>= fun v =>
        decodeProperties c path depth (decoders.erase (c.key p.name)) (done.insert p.name v) rest) := by
  simp only [decodeProperties, found]
  cases read p.type (childPath path (c.key p.name)) depth <;> rfl

theorem decodeProperties_eq_ok_iff {decoders : Entries Decoder} {done fields : Entries Value}
    (distinct : (Form.wireKeys c.casing properties).Nodup)
    (agree : ∀ p ∈ properties, decoders.find? (c.key p.name) = (members.get? (c.key p.name)).map (decoder c)) :
    decodeProperties c path depth decoders done properties = .ok fields ↔
      (∀ p ∈ properties, FieldRead c members path depth p) ∧
        fields =
          (readFields c members path depth properties).foldl
            (fun entries (key, value) => entries.insert key value) done := by
  induction properties generalizing decoders done with
  | nil =>
      simp only [decodeProperties, List.not_mem_nil, false_implies, implies_true, true_and, Except.ok.injEq]
      exact eq_comm
  | cons head tail inductionHypothesis =>
      obtain ⟨agreeHead, agreeTail⟩ := List.forall_mem_cons.1 agree
      have freshHead : c.key head.name ∉ Form.wireKeys c.casing tail := (List.nodup_cons.1 distinct).1
      have distinctTail : (Form.wireKeys c.casing tail).Nodup := (List.nodup_cons.1 distinct).2
      rw [List.forall_mem_cons, readFields_cons]
      unfold decodeProperties
      simp only [agreeHead]
      cases found : members.get? (c.key head.name) with
      | none =>
          rw [fieldRead_of_missing found]
          cases mayMiss : head.optional with
          | true =>
              simpa [readValue?, found] using inductionHypothesis distinctTail agreeTail
          | false =>
              simp
      | some json =>
          rw [fieldRead_of_found found]
          cases decoded : decoder c json head.type (c.propertyPath path head) depth with
          | error error =>
              rw [propertyPath] at decoded
              simp [decoded]
          | ok v =>
              have read : c.readValue? members path depth head = some v := by
                simp [readValue?, found, decoded, Except.toOption]
              have agreeErased : ∀ p ∈ tail,
                  (decoders.erase (c.key head.name)).find? (c.key p.name) =
                    (members.get? (c.key p.name)).map (decoder c) := by
                intro p member
                rw [find?_erase_decoders freshHead member]
                exact agreeTail p member
              rw [propertyPath] at decoded
              simpa [decoded, read] using inductionHypothesis distinctTail agreeErased

theorem decodeProperties_object_eq_ok_iff {fields : Entries Value}
    (distinct : (Form.wireKeys c.casing properties).Nodup) :
    decodeProperties c path depth (memberDecoders c members) [] properties = .ok fields ↔
      (∀ p ∈ properties, FieldRead c members path depth p) ∧
        fields = Entries.ofPairs (readFields c members path depth properties) :=
  decodeProperties_eq_ok_iff distinct fun p _ => find?_memberDecoders_eq (c.key p.name)

theorem decodeProperties_union_eq_ok_iff {key : String} {fields : Entries Value}
    (distinct : (c.key key :: Form.wireKeys c.casing properties).Nodup) :
    decodeProperties c path depth ((memberDecoders c members).erase (c.key key)) [] properties = .ok fields ↔
      (∀ p ∈ properties, FieldRead c members path depth p) ∧
        fields = Entries.ofPairs (readFields c members path depth properties) := by
  obtain ⟨fresh, distinct⟩ := List.nodup_cons.1 distinct
  exact decodeProperties_eq_ok_iff distinct fun p member => find?_erase_memberDecoders fresh member

end Reading

end Codec

end SchemaRpc
