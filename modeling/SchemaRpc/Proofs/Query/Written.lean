import SchemaRpc.Proofs.Codec.Lenient
import SchemaRpc.Proofs.Query.Compatible

/-!
# Writing what query pairs gave

A record read from query pairs has no field that is missing, out of range or of another kind than declared: all of it
can be written against the same definition, its nulls perhaps excepted. Reading a text takes null where a definition or
the one that it leads to is nullable, writing where the definition itself is. The two differ at a reference that is not
nullable to a body that is.
-/

namespace SchemaRpc.Codec

variable {c : Codec} {t item : TypeDef} {path text : String} {depth : Nat} {pairs : QueryPairs}
  {properties : List (Property TypeDef)} {v : Value}

/-! ## One text -/

theorem isFinite_of_readFinite? {x : Binary64} (read : Decimal.readFinite? text = some x) : x.isFinite = true := by
  unfold Decimal.readFinite? at read
  split at read
  · cases read
  · dsimp only at read
    split at read
    · next finite =>
      cases read
      exact finite
    · cases read

theorem writable_of_coerce {kind : PrimitiveKind} (read : coerce text kind path = .ok v) :
    Writable (.primitive kind) v := by
  cases kind with
  | string =>
      exact @writable_of_decodeString .string path v text read
  | timestamp =>
      exact @writable_of_decodeString .timestamp path v text read
  | boolean =>
      simp only [coerce, beq_iff_eq] at read
      split at read
      · cases read
        exact ⟨trivial, fun _ => Value.noConfusion, _, fun _ => rfl⟩
      · split at read
        · cases read
          exact ⟨trivial, fun _ => Value.noConfusion, _, fun _ => rfl⟩
        · cases read
  | float32 | float64 =>
      simp only [coerce, PrimitiveKind.isFloat, if_true] at read
      split at read
      · next finite =>
        cases read
        exact writable_float rfl (isFinite_of_readFinite? finite)
      · cases read
  | int8 | uint8 | int16 | uint16 | int32 | uint32 | int64 | uint64 =>
      simp only [coerce, PrimitiveKind.isFloat, Bool.false_eq_true, if_false] at read
      split at read
      · exact writable_of_decodeInteger read rfl
      · cases read

/-- Null can be read at the definition, for its own flag or for that of the definition it leads to. -/
def TakesNull (c : Codec) (t : TypeDef) : Prop :=
  ∃ target, c.definitions.resolve t = .ok target ∧ isAny target = false ∧
    (t.nullable = true ∨ target.nullable = true)

/-- What one text gives: null, or a scalar that can be written at the form that the definition leads to. -/
def TextRead (c : Codec) (t : TypeDef) (v : Value) : Prop :=
  v = .null ∧ c.TakesNull t ∨ ∃ form, c.target t = .ok form ∧ Writable form v

/-- What the texts of a property give: what one text gives, or an array of that. -/
def TextsRead (c : Codec) (t : TypeDef) (v : Value) : Prop :=
  c.TextRead t v ∨ ∃ item vs, c.target t = .ok (.elements item) ∧ v = .array vs ∧ ∀ v ∈ vs, c.TextRead item v

theorem isAny_eq_false_of_isScalar (scalar : t.form.IsScalar) : isAny t = false := by
  unfold isAny
  cases form : t.form with
  | any =>
      rw [form] at scalar
      exact scalar.elim
  | primitive | enumeration | elements | values | object | ref | union =>
      rfl

theorem textRead_of_queryScalar (scalar : c.definitions.EndsInScalar t) (read : c.queryScalar text t path = .ok v) :
    c.TextRead t v := by
  obtain ⟨target, resolved, isScalar⟩ := scalar
  have reached : c.target t = .ok target.form := target_eq_ok_iff.2 ⟨target, resolved, rfl⟩
  unfold queryScalar at read
  rw [Except.bind_of_eq_ok (resolved_eq_ok_iff.2 resolved)] at read
  split at read
  · next null =>
    cases read
    have nullable : t.nullable = true ∨ target.nullable = true := by
      rw [Bool.and_eq_true, Bool.or_eq_true] at null
      exact null.2
    exact .inl ⟨rfl, target, resolved, isAny_eq_false_of_isScalar isScalar, nullable⟩
  · cases form : target.form with
    | primitive kind =>
        simp only [form] at read
        rw [form] at reached
        exact .inr ⟨_, reached, writable_of_coerce read⟩
    | enumeration listed =>
        simp only [form] at read
        rw [form] at reached
        split at read
        · next isListed =>
          cases read
          have writes : ∀ path, encodeScalar (.str text) (.enumeration listed) path = .ok (.str text) := by
            intro path
            simp only [encodeScalar, isListed, if_true]
          exact .inr ⟨_, reached, trivial, fun _ => Value.noConfusion, .str text, writes⟩
        · cases read
    | any | elements | values | object | ref | union =>
        rw [form] at isScalar
        exact isScalar.elim

theorem textRead_of_queryItems {texts : List String} {index : Nat} {vs : List Value}
    (scalar : c.definitions.EndsInScalar item) (read : c.queryItems item path index texts = .ok vs) :
    ∀ v ∈ vs, c.TextRead item v := by
  induction texts generalizing index vs with
  | nil =>
      cases read
      exact List.forall_mem_nil _
  | cons text texts inductionHypothesis =>
      obtain ⟨v, readHere, rest⟩ := Except.bind_eq_ok_iff.1 read
      obtain ⟨others, readLater, made⟩ := Except.bind_eq_ok_iff.1 rest
      cases made
      exact List.forall_mem_cons.2 ⟨textRead_of_queryScalar scalar readHere, inductionHypothesis readLater⟩

theorem textsRead_of_queryValue {first : String} {others : List String} (carries : c.definitions.Carries t)
    (read : c.queryValue first others t path = .ok v) : c.TextsRead t v := by
  obtain ⟨target, resolved, scalar | ⟨item, form, scalar⟩⟩ := carries
  · rw [queryValue_of_isScalar resolved scalar] at read
    exact .inl (textRead_of_queryScalar ⟨target, resolved, scalar⟩ read)
  · have reached : c.target t = .ok (.elements item) := target_eq_ok_iff.2 ⟨target, resolved, form⟩
    rw [queryValue_of_elements resolved form] at read
    split at read
    · next null =>
      cases read
      have nullable : t.nullable = true ∨ target.nullable = true := by
        rw [Bool.and_eq_true, Bool.and_eq_true, Bool.or_eq_true] at null
        exact null.1.1
      have notAny : isAny target = false := by
        rw [isAny, form]
      exact .inl (.inl ⟨rfl, target, resolved, notAny, nullable⟩)
    · obtain ⟨vs, readItems, made⟩ := Except.bind_eq_ok_iff.1 read
      cases made
      exact .inr ⟨item, vs, reached, rfl, textRead_of_queryItems scalar readItems⟩

/-! ## Writing it -/

/-- Null is read at no other definition than one that is nullable itself. -/
def NullsMarked (c : Codec) (t : TypeDef) (v : Value) : Prop :=
  (v = .null → t.nullable = true) ∧
    ∀ item vs, c.target t = .ok (.elements item) → v = .array vs → .null ∈ vs → item.nullable = true

theorem ne_null_of_writable {form : Form TypeDef} (writable : Writable form v) : v ≠ .null := by
  rintro rfl
  exact writable.1.elim

theorem isAny_eq_false_of_takesNull (takes : c.TakesNull t) : isAny t = false := by
  obtain ⟨target, resolved, notAny, _⟩ := takes
  cases here : isAny t with
  | false =>
      rfl
  | true =>
      have final : t.refName? = none := by
        simp [TypeDef.refName?, isAny_iff.1 here]
      rw [Definitions.resolve_of_refName?_eq_none final] at resolved
      cases resolved
      rw [here] at notAny
      exact notAny

theorem exists_encoder_iff_of_textRead (read : c.TextRead t v) :
    (∃ json, encoder c v t path depth = .ok json) ↔ (v = .null → t.nullable = true) := by
  rcases read with ⟨rfl, takes⟩ | ⟨form, reached, writable⟩
  · simp [encoder_null_eq_ok_iff, isAny_eq_false_of_takesNull takes]
  · have notNull : v ≠ .null := ne_null_of_writable writable
    obtain ⟨scalar, _, json, writes⟩ := writable
    have encoded : encoder c v t path depth = .ok json :=
      (encoder_scalar_eq_ok_iff scalar).2 ⟨form, reached, writes path⟩
    exact iff_of_true ⟨json, encoded⟩ fun isNull => absurd isNull notNull

theorem exists_encodeItems_iff {index : Nat} {vs : List Value} (read : ∀ v ∈ vs, c.TextRead item v) :
    (∃ jsons, encodeItems c item path depth index vs = .ok jsons) ↔ (.null ∈ vs → item.nullable = true) := by
  induction vs generalizing index with
  | nil =>
      simp [encodeItems]
  | cons head tail inductionHypothesis =>
      obtain ⟨readHead, readTail⟩ := List.forall_mem_cons.1 read
      have writesHead := @exists_encoder_iff_of_textRead c item (childPath path (toString index)) depth head readHead
      have writesTail := @inductionHypothesis (index + 1) readTail
      have both : (∃ jsons, encodeItems c item path depth index (head :: tail) = .ok jsons) ↔
          (∃ json, encoder c head item (childPath path (toString index)) depth = .ok json) ∧
            ∃ jsons, encodeItems c item path depth (index + 1) tail = .ok jsons := by
        constructor
        · rintro ⟨jsons, encoded⟩
          obtain ⟨json, encodedHead, rest⟩ := Except.bind_eq_ok_iff.1 encoded
          obtain ⟨others, encodedTail, _⟩ := Except.bind_eq_ok_iff.1 rest
          exact ⟨⟨json, encodedHead⟩, others, encodedTail⟩
        · rintro ⟨⟨json, encodedHead⟩, others, encodedTail⟩
          exact ⟨json :: others,
            Except.bind_eq_ok_iff.2 ⟨json, encodedHead, Except.bind_eq_ok_iff.2 ⟨others, encodedTail, rfl⟩⟩⟩
      rw [both, writesHead, writesTail, List.mem_cons, or_imp]
      exact and_congr_left fun _ => ⟨fun marked same => marked same.symm, fun marked same => marked same.symm⟩

theorem exists_encoder_iff_of_textsRead (deep : depth + 1 ≤ c.maxDepth) (read : c.TextsRead t v) :
    (∃ json, encoder c v t path depth = .ok json) ↔ c.NullsMarked t v := by
  rcases read with read | ⟨item, vs, reached, rfl, read⟩
  · have notArray : ∀ vs, v ≠ .array vs := by
      rintro vs rfl
      rcases read with ⟨null, _⟩ | ⟨form, _, writable⟩
      · cases null
      · exact writable.1.elim
    rw [exists_encoder_iff_of_textRead read, NullsMarked]
    exact (and_iff_left fun item vs _ same => absurd same (notArray vs)).symm
  · have written : (∃ json, encoder c (.array vs) t path depth = .ok json) ↔
        ∃ jsons, encodeItems c item path (depth + 1) 0 vs = .ok jsons := by
      constructor
      · rintro ⟨json, encoded⟩
        obtain ⟨item', reached', _, jsons, encodedItems, _⟩ := encoder_array_eq_ok_iff.1 encoded
        rw [reached] at reached'
        cases reached'
        exact ⟨jsons, encodedItems⟩
      · rintro ⟨jsons, encodedItems⟩
        exact ⟨.arr jsons, encoder_array_eq_ok_iff.2 ⟨item, reached, deep, jsons, encodedItems, rfl⟩⟩
    rw [written, exists_encodeItems_iff read]
    constructor
    · intro marked
      refine ⟨nofun, fun item' vs' reached' same => ?_⟩
      rw [reached] at reached'
      cases reached'
      cases same
      exact marked
    · exact fun marked => marked.2 item vs reached rfl

/-! ## Records -/

theorem isAbsent_of_textsRead (read : c.TextsRead t v) : v.isAbsent = false := by
  rcases read with (⟨rfl, _⟩ | ⟨form, _, writable⟩) | ⟨item, vs, _, rfl, _⟩
  · rfl
  · exact isAbsent_of_isScalar writable.1
  · rfl

/-- What there is for one property after reading: what its texts gave, or nothing where it may be missing. -/
def FieldGiven (c : Codec) (fields : Entries Value) (p : Property TypeDef) : Prop :=
  (Entries.find? p.name fields = none ∧ p.optional = true) ∨
    ∃ v, Entries.find? p.name fields = some v ∧ c.TextsRead p.type v

theorem fieldGiven_of_queryProperties {done fields : Entries Value}
    (names : (properties.map Property.name).Nodup) (carries : ∀ p ∈ properties, c.definitions.Carries p.type)
    (fresh : ∀ p ∈ properties, Entries.find? p.name done = none)
    (read : c.queryProperties pairs done properties = .ok fields) :
    (∀ name ∉ properties.map Property.name, Entries.find? name fields = Entries.find? name done) ∧
      ∀ p ∈ properties, c.FieldGiven fields p := by
  induction properties generalizing done with
  | nil =>
      cases read
      exact ⟨fun _ _ => rfl, List.forall_mem_nil _⟩
  | cons head tail inductionHypothesis =>
      obtain ⟨freshName, namesTail⟩ := List.nodup_cons.1 names
      obtain ⟨carriesHead, carriesTail⟩ := List.forall_mem_cons.1 carries
      obtain ⟨freshHead, freshTail⟩ := List.forall_mem_cons.1 fresh
      cases given : textsFor (c.key head.name) pairs with
      | nil =>
          rw [queryProperties_of_missing given] at read
          split at read
          · next mayMiss =>
            obtain ⟨others, each⟩ := inductionHypothesis namesTail carriesTail freshTail read
            refine ⟨fun name notListed => others name fun listed => notListed (List.mem_cons_of_mem _ listed), ?_⟩
            refine List.forall_mem_cons.2 ⟨.inl ⟨?_, mayMiss⟩, each⟩
            rw [others head.name freshName]
            exact freshHead
          · cases read
      | cons first texts =>
          rw [queryProperties_of_given given] at read
          obtain ⟨v, readHere, readLater⟩ := Except.bind_eq_ok_iff.1 read
          have freshLater : ∀ p ∈ tail, Entries.find? p.name (done.insert head.name v) = none := by
            intro p declared
            have different : p.name ≠ head.name := by
              intro same
              rw [← same] at freshName
              exact freshName (List.mem_map_of_mem declared)
            rw [Entries.find?_insert_of_ne different]
            exact freshTail p declared
          obtain ⟨others, each⟩ := inductionHypothesis namesTail carriesTail freshLater readLater
          refine ⟨fun name notListed => ?_, List.forall_mem_cons.2 ⟨.inr ⟨v, ?_, ?_⟩, each⟩⟩
          · rw [List.map_cons, List.mem_cons, not_or] at notListed
            rw [others name notListed.2, Entries.find?_insert_of_ne notListed.1]
          · rw [others head.name freshName, Entries.find?_insert_self]
          · exact textsRead_of_queryValue carriesHead readHere

/-- A field that was read can be written when its nulls are marked; a missing one may be missing. -/
theorem fieldWritten_iff_of_fieldGiven {fields : Entries Value} {p : Property TypeDef} (deep : depth + 1 ≤ c.maxDepth)
    (given : c.FieldGiven fields p) :
    FieldWritten c fields path depth p ↔ ∀ v, Entries.find? p.name fields = some v → c.NullsMarked p.type v := by
  rcases given with ⟨missing, mayMiss⟩ | ⟨v, found, read⟩
  · have notPresent : Value.present? p.name fields = none := by
      rw [Value.present?, missing, Option.filter_none]
    rw [fieldWritten_of_missing notPresent, missing]
    exact iff_of_true mayMiss fun v same => by cases same
  · have present : Value.present? p.name fields = some v := by
      rw [Value.present?, found, Option.filter_some, isAbsent_of_textsRead read]
      rfl
    rw [fieldWritten_of_present present, exists_encoder_iff_of_textsRead deep read, found]
    constructor
    · intro marked v' same
      cases same
      exact marked
    · exact fun marked => marked v rfl

/-- Every null that a record holds directly, or in an array, stands at a definition that is nullable itself. -/
def RecordNullsMarked (c : Codec) (t : TypeDef) (v : Value) : Prop :=
  ∀ properties fields, c.target t = .ok (.object properties) → v = .object fields →
    ∀ p ∈ properties, ∀ field, Entries.find? p.name fields = some field → c.NullsMarked p.type field

theorem nullable_of_takesNull (bodies : ∀ name body, c.definitions.get? name = some body → body.nullable = false)
    (takes : c.TakesNull t) : t.nullable = true := by
  obtain ⟨target, resolved, _, nullable⟩ := takes
  have sameOrBody : target = t ∨ ∃ name, c.definitions.get? name = some target :=
    Definitions.resolve_induct (P := fun s => s = t ∨ ∃ name, c.definitions.get? name = some s) resolved (.inl rfl)
      fun name body found => .inr ⟨name, found⟩
  rcases sameOrBody with rfl | ⟨name, found⟩
  · exact nullable.elim id id
  · rcases nullable with marked | marked
    · exact marked
    · rw [bodies name target found] at marked
      cases marked

theorem nullsMarked_of_textsRead (bodies : ∀ name body, c.definitions.get? name = some body → body.nullable = false)
    (read : c.TextsRead t v) : c.NullsMarked t v := by
  have marked : ∀ t, c.TextRead t .null → t.nullable = true := by
    rintro t (⟨_, takes⟩ | ⟨form, _, writable⟩)
    · exact nullable_of_takesNull bodies takes
    · exact absurd rfl (ne_null_of_writable writable)
  rcases read with read | ⟨item, vs, reached, rfl, read⟩
  · constructor
    · rintro rfl
      exact marked t read
    · rintro item vs _ rfl _
      rcases read with ⟨null, _⟩ | ⟨form, _, writable⟩
      · cases null
      · exact writable.1.elim
  · refine ⟨nofun, fun item' vs' reached' same null => ?_⟩
    rw [reached] at reached'
    cases reached'
    cases same
    exact marked item (read .null null)

/-- A record read from query pairs can be written exactly when its nulls stand where the definition itself is nullable;
nothing else in it is refused. Where no body of the table is nullable, all that is read can be written. -/
theorem exists_encodeJson_of_decodeQuery (passes : c.definitions.queryFault? t = none)
    (names : ∀ properties, c.target t = .ok (.object properties) → (properties.map Property.name).Nodup)
    (deep : 2 ≤ c.maxDepth) (read : c.decodeQuery pairs t = .ok v) :
    ((∃ json, c.encodeJson v t = .ok json) ↔ c.RecordNullsMarked t v) ∧
      ((∀ name body, c.definitions.get? name = some body → body.nullable = false) →
        ∃ json, c.encodeJson v t = .ok json) := by
  obtain ⟨properties, reached, carries⟩ := queryFault?_eq_none_iff.1 passes
  obtain ⟨_, fields, reached', rfl, readProperties⟩ := exists_object_of_decodeQuery read
  rw [reached] at reached'
  cases reached'
  have given : ∀ p ∈ properties, c.FieldGiven fields p :=
    (fieldGiven_of_queryProperties (names _ reached) carries (fun _ _ => rfl) readProperties).2
  have written : (∃ json, c.encodeJson (.object fields) t = .ok json) ↔ c.RecordNullsMarked t (.object fields) := by
    refine (exists_encoder_object_iff reached (Nat.le_of_succ_le deep)).trans ?_
    constructor
    · intro each properties' fields' reached' same p declared
      rw [reached] at reached'
      cases reached'
      cases same
      exact (fieldWritten_iff_of_fieldGiven deep (given p declared)).1 (each p declared)
    · intro marked p declared
      exact (fieldWritten_iff_of_fieldGiven deep (given p declared)).2 (marked properties fields reached rfl p declared)
  refine ⟨written, fun bodies => written.2 ?_⟩
  intro properties' fields' reached' same p declared field found
  rw [reached] at reached'
  cases reached'
  cases same
  rcases given p declared with ⟨missing, _⟩ | ⟨v, found', texts⟩
  · rw [missing] at found
    cases found
  · rw [found'] at found
    cases found
    exact nullsMarked_of_textsRead bodies texts

/-- Two enumerations, the second one nullable in its body. -/
def gradeCodec : Codec where
  definitions :=
    { entries :=
        [("Grade", ⟨some (.ofForm (.enumeration ["high", "low"])), none⟩),
          ("Level", ⟨some ((TypeDef.ofForm (.enumeration ["high", "low"])).withNullable true), none⟩)] }
  maxDepth := 2

def gradeProperties : List (Property TypeDef) :=
  [⟨"grade", (TypeDef.ref "Grade").withNullable true, false⟩,
    ⟨"page_sizes", .elements ((TypeDef.primitive .uint8).withNullable true), true⟩]

def gradeFields : Entries Value :=
  [("grade", .null), ("page_sizes", .array [.uint 20, .null])]

theorem exists_encodeJson_of_decodeQuery_grade :
    gradeCodec.definitions.queryFault? (.object gradeProperties) = none ∧
      gradeCodec.decodeQuery [("pageSizes", "20"), ("pageSizes[]", "null"), ("grade", "null")]
        (.object gradeProperties) = .ok (.object gradeFields) ∧
      ∃ json, gradeCodec.encodeJson (.object gradeFields) (.object gradeProperties) = .ok json := by
  have passes : gradeCodec.definitions.queryFault? (.object gradeProperties) = none := rfl
  have read : gradeCodec.decodeQuery [("pageSizes", "20"), ("pageSizes[]", "null"), ("grade", "null")]
      (.object gradeProperties) = .ok (.object gradeFields) := rfl
  have names : ∀ properties, gradeCodec.target (.object gradeProperties) = .ok (.object properties) →
      (properties.map Property.name).Nodup := by
    intro properties reached
    cases reached
    decide
  refine ⟨passes, read, (exists_encodeJson_of_decodeQuery passes names (Nat.le_refl 2) read).1.2 ?_⟩
  intro properties fields reached same
  cases reached
  cases same
  refine List.forall_mem_cons.2 ⟨fun field found => ?_, List.forall_mem_singleton.2 fun field found => ?_⟩
  · cases found
    exact ⟨fun _ => rfl, nofun⟩
  · cases found
    refine ⟨nofun, fun item vs reached _ _ => ?_⟩
    cases reached
    rfl

/-- Null is read for the flag of a body that a reference without it leads to; it is refused when it is written, and it is
refused when it is read from JSON. -/
theorem level_null_not_written :
    gradeCodec.definitions.unresolvedRefs = [] ∧
      (TypeDef.object [⟨"level", .ref "Level", false⟩]).Everywhere (Form.WireDistinct gradeCodec.casing) ∧
      gradeCodec.definitions.Everywhere (Form.WireDistinct gradeCodec.casing) ∧
      gradeCodec.definitions.queryFault? (.object [⟨"level", .ref "Level", false⟩]) = none ∧
      gradeCodec.decodeQuery [("level", "null")] (.object [⟨"level", .ref "Level", false⟩]) =
        .ok (.object [("level", .null)]) ∧
      gradeCodec.encodeJson (.object [("level", .null)]) (.object [⟨"level", .ref "Level", false⟩]) =
        .error (.nullNotAllowed "/level") ∧
      gradeCodec.decodeJson (.obj [("level", .null)]) (.object [⟨"level", .ref "Level", false⟩]) =
        .error (.nullNotAllowed "/level") :=
  ⟨rfl, by decide, by decide, rfl, rfl, rfl, rfl⟩

end SchemaRpc.Codec
