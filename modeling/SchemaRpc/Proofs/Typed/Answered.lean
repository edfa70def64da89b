import SchemaRpc.Proofs.Typed.RoundTrip

/-!
# Sending back what was received

A handler that reads its params as a datum and answers with the same datum. Reading rounds a number to single precision
where the type says so, and the decoder does not look at the range there: a number that is too large becomes infinite and
can no longer be written. `Overflows` tells the places where that happens; nothing else stands in the way of the answer.
-/

namespace SchemaRpc

open Introspection Catalog

variable {n : Nat} {types : TypeCatalog n} {c : Codec} {json : Json} {v : Value} {ty inner item : Ty n} {t s : TypeDef}
  {path : String} {depth : Nat} {d : Datum} {slot : Fin n}

namespace Datum

/-- Somewhere in the value stands a number beyond single precision at a type of single precision. -/
inductive Overflows (types : TypeCatalog n) : Value → Ty n → Prop
  | number {x : Binary64} :
      x.roundToSingle.isFinite = false →
      Overflows types (.float x) .float32
  | item {items : List Value} {v : Value} {item : Ty n} :
      v ∈ items →
      Overflows types v item →
      Overflows types (.array items) (.list item)
  | entry {entries : List (String × Value)} {entry : String × Value} {item : Ty n} :
      entry ∈ entries →
      Overflows types entry.2 item →
      Overflows types (.map entries) (.map item)
  | option {v : Value} {inner : Ty n} :
      Overflows types v inner →
      Overflows types v (.option inner)
  | optional {v : Value} {inner : Ty n} :
      Overflows types v inner →
      Overflows types v (.optional inner)
  | field {v : Value} {inner : Ty n} :
      Overflows types v inner →
      Overflows types v (.field inner)
  | record {slot : Fin n} {declared : List (FieldDecl (Ty n))} {fields : List (String × Value)}
      {field : FieldDecl (Ty n)} :
      (types.get slot).members = .record declared →
      field ∈ declared →
      Overflows types (Value.field field.name fields) field.type →
      Overflows types (.object fields) (.declared slot)
  | variant {slot : Fin n} {key tag : String} {variants : List (VariantDecl (Ty n))} {found : VariantDecl (Ty n)}
      {fields : List (String × Value)} {field : FieldDecl (Ty n)} :
      (types.get slot).members = .union key variants →
      variants.find? (fun variant => variant.tag == tag) = some found →
      field ∈ found.fields →
      Overflows types (Value.field field.name fields) field.type →
      Overflows types (.union tag fields) (.declared slot)

/-- A value holds a number, at the type itself or further in. -/
theorem not_overflows_of_nothing (nothing : v = .absent ∨ v = .null) : ¬ Overflows types v ty := by
  intro overflows
  induction overflows with
  | option _ inductionHypothesis | optional _ inductionHypothesis | field _ inductionHypothesis =>
      exact inductionHypothesis nothing
  | number | item | entry | record | variant =>
      rcases nothing with impossible | impossible <;> cases impossible

/-- Of the scalars only those of single precision overflow. -/
theorem not_overflows_of_shape {kind : PrimitiveKind} (shape : ty.shape = .primitive kind) (notSingle : kind ≠ .float32) :
    ¬ Overflows types v ty := by
  intro overflows
  cases overflows with
  | number =>
      cases shape
      exact notSingle rfl
  | item | entry | option | optional | field | record | variant =>
      cases shape

theorem not_overflows_json : ¬ Overflows types v .json := by
  intro overflows
  cases overflows

theorem overflows_option_iff : Overflows types v (.option inner) ↔ Overflows types v inner :=
  ⟨fun overflows => by cases overflows with | option inside => exact inside, .option⟩

theorem overflows_optional_iff : Overflows types v (.optional inner) ↔ Overflows types v inner :=
  ⟨fun overflows => by cases overflows with | optional inside => exact inside, .optional⟩

theorem overflows_field_iff : Overflows types v (.field inner) ↔ Overflows types v inner :=
  ⟨fun overflows => by cases overflows with | field inside => exact inside, .field⟩

theorem overflows_list_iff {items : List Value} :
    Overflows types (.array items) (.list item) ↔ ∃ v ∈ items, Overflows types v item := by
  constructor
  · intro overflows
    cases overflows with
    | item member inside =>
        exact ⟨_, member, inside⟩
  · rintro ⟨v, member, inside⟩
    exact .item member inside

theorem overflows_map_iff {entries : List (String × Value)} :
    Overflows types (.map entries) (.map item) ↔ ∃ entry ∈ entries, Overflows types entry.2 item := by
  constructor
  · intro overflows
    cases overflows with
    | entry member inside =>
        exact ⟨_, member, inside⟩
  · rintro ⟨entry, member, inside⟩
    exact .entry member inside

theorem overflows_record_iff {declared : List (FieldDecl (Ty n))} {fields : List (String × Value)}
    (members : (types.get slot).members = .record declared) :
    Overflows types (.object fields) (.declared slot) ↔
      ∃ field ∈ declared, Overflows types (Value.field field.name fields) field.type := by
  constructor
  · intro overflows
    cases overflows with
    | record members' member inside =>
        rw [members] at members'
        cases members'
        exact ⟨_, member, inside⟩
  · rintro ⟨field, member, inside⟩
    exact .record members member inside

theorem overflows_variant_iff {key tag : String} {variants : List (VariantDecl (Ty n))} {found : VariantDecl (Ty n)}
    {fields : List (String × Value)} (members : (types.get slot).members = .union key variants)
    (listed : variants.find? (fun variant => variant.tag == tag) = some found) :
    Overflows types (.union tag fields) (.declared slot) ↔
      ∃ field ∈ found.fields, Overflows types (Value.field field.name fields) field.type := by
  constructor
  · intro overflows
    cases overflows with
    | variant members' listed' member inside =>
        rw [members] at members'
        cases members'
        rw [listed] at listed'
        cases listed'
        exact ⟨_, member, inside⟩
  · rintro ⟨field, member, inside⟩
    exact .variant members listed member inside

/-! ## Writing a datum -/

/-- What is written of a datum, read from a value at a type, fails only where a number of the value overflows. -/
structure Answers (types : TypeCatalog n) (c : Codec) (v : Value) (ty : Ty n) (t : TypeDef) (depth : Nat) (d : Datum) :
    Prop where
  present : d.toValue.isAbsent = false
  written : ∀ path, (∃ json, Codec.encoder c d.toValue t path depth = .ok json) ↔ ¬ Overflows types v ty

/-- Whatever is decoded from the JSON at a definition that stands for a type, and read at the type, can be written again
unless a number in it overflows. -/
def AnsweredOnceRead (types : TypeCatalog n) (c : Codec) (json : Json) : Prop :=
  ∀ (ty : Ty n) (t : TypeDef) (path : String) (depth : Nat) (v : Value) (d : Datum), ty.Stands types c.definitions t →
    Codec.decoder c json t path depth = .ok v → reader types v ty = .ok d → Answers types c v ty t depth d

theorem answers_of_written (present : d.toValue.isAbsent = false)
    (written : ∀ path, ∃ json, Codec.encoder c d.toValue t path depth = .ok json) (fits : ¬ Overflows types v ty) :
    Answers types c v ty t depth d where
  present := present
  written path := iff_of_true (written path) fits

/-- Where null is read at a type that takes it, null is written. -/
theorem toValue_of_reader_null (takesNull : ty.takesNull = true) (read : reader types .null ty = .ok d) :
    d.toValue = .null := by
  induction ty generalizing d with
  | option | field =>
      cases read
      rfl
  | optional inner inductionHypothesis =>
      rw [reader_optional] at read
      obtain ⟨d', readInner, rfl⟩ := Except.map_eq_ok_iff.1 read
      have inside : d'.toValue = .null := inductionHypothesis takesNull readInner
      exact inside
  | _ =>
      cases takesNull

theorem answers_null (nullable : t.nullable = true) (takesNull : ty.takesNull = true)
    (read : reader types .null ty = .ok d) : Answers types c .null ty t depth d := by
  have same := toValue_of_reader_null takesNull read
  refine answers_of_written ?_ (fun path => ⟨.null, ?_⟩) (not_overflows_of_nothing (.inr rfl))
  · rw [same]
    rfl
  · rw [same]
    exact Codec.encoder_null_eq_ok_iff.2 ⟨.inl nullable, rfl⟩

/-! ## Wrappers -/

/-- The reading of a value that is there goes on inside the wrapper. -/
theorem exists_of_reader_option (present : v.isAbsent = false) (notNull : v.isNull = false)
    (read : reader types v (.option inner) = .ok d) : ∃ d', reader types v inner = .ok d' ∧ d = .present d' := by
  rw [reader_option, present, notNull] at read
  exact Except.map_eq_ok_iff.1 read

theorem exists_of_reader_optional (present : v.isAbsent = false) (read : reader types v (.optional inner) = .ok d) :
    ∃ d', reader types v inner = .ok d' ∧ d = .present d' := by
  rw [reader_optional, present] at read
  exact Except.map_eq_ok_iff.1 read

theorem exists_of_reader_field (present : v.isAbsent = false) (notNull : v.isNull = false)
    (read : reader types v (.field inner) = .ok d) : ∃ d', reader types v inner = .ok d' ∧ d = .present d' := by
  rw [reader_field, present, notNull] at read
  exact Except.map_eq_ok_iff.1 read

/-- What is answered inside of wrappers is answered by the whole type. -/
theorem answers_of_wrapped (present : v.isAbsent = false) (notNull : v.isNull = false)
    (bare : ∀ d, reader types v inner = .ok d → Answers types c v inner t depth d)
    (wrapper : ty = .option inner ∨ ty = .optional inner ∨ ty = .field inner) (read : reader types v ty = .ok d) :
    Answers types c v ty t depth d := by
  have inside : ∃ d', reader types v inner = .ok d' ∧ d = .present d' := by
    rcases wrapper with rfl | rfl | rfl
    · exact exists_of_reader_option present notNull read
    · exact exists_of_reader_optional present read
    · exact exists_of_reader_field present notNull read
  have same : Overflows types v ty ↔ Overflows types v inner := by
    rcases wrapper with rfl | rfl | rfl
    · exact overflows_option_iff
    · exact overflows_optional_iff
    · exact overflows_field_iff
  obtain ⟨d', readInner, rfl⟩ := inside
  obtain ⟨presentInner, writtenInner⟩ := bare d' readInner
  exact ⟨presentInner, fun path => (writtenInner path).trans (not_congr same).symm⟩

/-! ## Scalars -/

theorem toValue_integer {kind : IntKind} (i : Int) :
    (integer kind i).toValue = Codec.canonicalInteger i kind.toPrimitive := by
  have notFloat := PrimitiveKind.isFloat_eq_false_of_isInteger (isInteger_toPrimitive kind)
  unfold integer Codec.canonicalInteger
  rw [notFloat]
  cases kind.toPrimitive.isUnsigned <;> rfl

/-- A scalar is written at its form, whatever the place. -/
theorem exists_encoder_of_encodeScalar {v : Value} {form : Form TypeDef} (reached : c.target t = .ok form)
    (scalar : v.IsScalar) (encoded : ∀ path, ∃ json, Codec.encodeScalar v form path = .ok json) :
    ∀ path, ∃ json, Codec.encoder c v t path depth = .ok json := by
  intro path
  obtain ⟨json, written⟩ := encoded path
  exact ⟨json, (Codec.encoder_scalar_eq_ok_iff scalar).2 ⟨form, reached, written⟩⟩

theorem answers_float {x y : Binary64} {kind : PrimitiveKind} (reached : c.target t = .ok (.primitive kind))
    (isFloat : kind.isFloat = true) (same : y.isFinite = true ↔ ¬ Overflows types (.float x) ty) :
    Answers types c (.float x) ty t depth (.float y) where
  present := rfl
  written path := by
    have written : (∃ json, Codec.encoder c (.float y) t path depth = .ok json) ↔ y.isFinite = true := by
      constructor
      · rintro ⟨json, encoded⟩
        obtain ⟨form, reached', encodedScalar⟩ := (Codec.encoder_scalar_eq_ok_iff (v := .float y) trivial).1 encoded
        rw [reached] at reached'
        cases reached'
        rw [Codec.encodeScalar_float isFloat] at encodedScalar
        exact (Codec.encodeFloat_eq_ok_iff.1 encodedScalar).1
      · intro finite
        refine ⟨.num (.float y), (Codec.encoder_scalar_eq_ok_iff (v := .float y) trivial).2 ⟨_, reached, ?_⟩⟩
        rw [Codec.encodeScalar_float isFloat]
        exact Codec.encodeFloat_eq_ok_iff.2 ⟨finite, rfl⟩
    exact written.trans same

theorem answers_of_decodeScalar {kind : PrimitiveKind} (stored : json.Stored) (reached : c.target t = .ok (.primitive kind))
    (shape : ty.shape = .primitive kind) (decoded : Codec.decodeScalar json (.primitive kind) path = .ok v)
    (read : reader types v ty = .ok d) : Answers types c v ty t depth d := by
  cases ty with
  | int kind =>
      cases shape
      have isInteger := isInteger_toPrimitive kind
      obtain ⟨i, inRange, rfl⟩ := Codec.exists_of_decodeScalar_integer isInteger decoded
      rw [reader_canonicalInteger inRange] at read
      cases read
      have scalar := Codec.isScalar_canonicalInteger i kind.toPrimitive
      have notSingle : kind.toPrimitive ≠ .float32 := by
        cases kind <;> decide
      refine answers_of_written ?_ ?_ (not_overflows_of_shape rfl notSingle)
      · rw [toValue_integer]
        exact Codec.isAbsent_of_isScalar scalar
      · rw [toValue_integer]
        refine exists_encoder_of_encodeScalar reached scalar fun path => ?_
        rw [Codec.encodeScalar_canonicalInteger isInteger inRange]
        exact ⟨_, Codec.encodeInteger_eq_ok_iff.2 ⟨inRange, rfl⟩⟩
  | float32 =>
      cases shape
      cases json <;> cases decoded
      cases read
      refine answers_float reached rfl ?_
      constructor
      · intro finite overflows
        cases overflows with
        | number infinite =>
            rw [finite] at infinite
            cases infinite
      · intro fits
        rw [← Bool.not_eq_false]
        exact fun infinite => fits (.number infinite)
  | float64 =>
      cases shape
      cases json <;> cases decoded
      cases read
      exact answers_float reached rfl
        (iff_of_true (Codec.isFinite_numberToFloat stored) (not_overflows_of_shape rfl (by decide)))
  | bool | string =>
      cases shape
      cases json <;> cases decoded
      cases read
      exact answers_of_written rfl (exists_encoder_of_encodeScalar reached trivial fun _ => ⟨_, rfl⟩)
        (not_overflows_of_shape rfl (by decide))
  | timestamp =>
      cases shape
      obtain ⟨at_, rfl⟩ := Codec.exists_timestamp_of_decodeScalar decoded
      cases read
      exact answers_of_written rfl (exists_encoder_of_encodeScalar reached trivial fun _ => ⟨_, rfl⟩)
        (not_overflows_of_shape rfl (by decide))
  | _ =>
      cases shape

/-- JSON that is carried untouched is written untouched. -/
theorem answers_any (reached : c.target t = .ok .any) (hasForm : ty.HasForm types c.definitions .any)
    (read : reader types (.any json) ty = .ok d) : Answers types c (.any json) ty t depth d := by
  induction ty generalizing d with
  | json =>
      cases read
      exact answers_of_written rfl (exists_encoder_of_encodeScalar reached trivial fun _ => ⟨_, rfl⟩) not_overflows_json
  | option inner inductionHypothesis =>
      exact answers_of_wrapped rfl rfl (fun _ => inductionHypothesis hasForm.2) (.inl rfl) read
  | optional inner inductionHypothesis =>
      exact answers_of_wrapped rfl rfl (fun _ => inductionHypothesis hasForm.2) (.inr (.inl rfl)) read
  | field inner inductionHypothesis =>
      exact answers_of_wrapped rfl rfl (fun _ => inductionHypothesis hasForm.2) (.inr (.inr rfl)) read
  | declared slot =>
      rcases hasForm with ⟨_, _, same⟩ | ⟨_, _, _, same⟩ <;> cases same
  | list | map =>
      obtain ⟨_, same, _⟩ := hasForm
      cases same
  | bool | int | float32 | float64 | string | timestamp | unit | wide =>
      cases hasForm

/-! ## Items and entries -/

theorem exists_of_mem_decodeItems {items : List Json} {index : Nat} {vs : List Value}
    (decoded : Codec.decodeItems c s path depth index items = .ok vs) :
    ∀ v ∈ vs, ∃ part ∈ items, ∃ path', Codec.decoder c part s path' depth = .ok v := by
  induction items generalizing index vs with
  | nil =>
      cases decoded
      exact List.forall_mem_nil _
  | cons head tail inductionHypothesis =>
      obtain ⟨v, decodedHead, rest⟩ := Except.bind_eq_ok_iff.1 decoded
      obtain ⟨others, decodedTail, made⟩ := Except.bind_eq_ok_iff.1 rest
      cases made
      refine List.forall_mem_cons.2 ⟨⟨head, List.mem_cons_self, _, decodedHead⟩, fun v member => ?_⟩
      obtain ⟨part, later, decodedPart⟩ := inductionHypothesis decodedTail v member
      exact ⟨part, List.mem_cons_of_mem head later, decodedPart⟩

theorem exists_encodeItems_iff_fit {vs : List Value} {data : List Datum} {index : Nat}
    (answers : List.Forall₂ (fun v d => Answers types c v item s depth d) vs data) :
    (∃ jsons, Codec.encodeItems c s path depth index (listToValues data) = .ok jsons) ↔
      ∀ v ∈ vs, ¬ Overflows types v item := by
  induction answers generalizing index with
  | nil =>
      exact iff_of_true ⟨[], rfl⟩ (List.forall_mem_nil _)
  | @cons v d vs data answersHead _ inductionHypothesis =>
      rw [List.forall_mem_cons, ← answersHead.written (childPath path (toString index)),
        ← @inductionHypothesis (index + 1)]
      constructor
      · rintro ⟨jsons, encoded⟩
        obtain ⟨json, encodedHead, rest⟩ := Except.bind_eq_ok_iff.1 encoded
        obtain ⟨others, encodedTail, _⟩ := Except.bind_eq_ok_iff.1 rest
        exact ⟨⟨json, encodedHead⟩, others, encodedTail⟩
      · rintro ⟨⟨json, encodedHead⟩, others, encodedTail⟩
        exact ⟨json :: others,
          Except.bind_eq_ok_iff.2 ⟨json, encodedHead, Except.bind_eq_ok_iff.2 ⟨others, encodedTail, rfl⟩⟩⟩

theorem exists_encodeEntries_iff_fit {entries : List (String × Value)} {data : List (String × Datum)}
    (answers : List.Forall₂ (fun entry pair => Answers types c entry.2 item s depth pair.2) entries data) :
    (∃ members, Codec.encodeEntries c s path depth (pairsToValues data) = .ok members) ↔
      ∀ entry ∈ entries, ¬ Overflows types entry.2 item := by
  induction answers with
  | nil =>
      exact iff_of_true ⟨[], rfl⟩ (List.forall_mem_nil _)
  | @cons entry pair entries data answersHead _ inductionHypothesis =>
      obtain ⟨key, d⟩ := pair
      rw [List.forall_mem_cons, ← answersHead.written (childPath path key), ← inductionHypothesis]
      constructor
      · rintro ⟨members, encoded⟩
        obtain ⟨json, encodedHead, rest⟩ := Except.bind_eq_ok_iff.1 encoded
        obtain ⟨others, encodedTail, _⟩ := Except.bind_eq_ok_iff.1 rest
        exact ⟨⟨json, encodedHead⟩, others, encodedTail⟩
      · rintro ⟨⟨json, encodedHead⟩, others, encodedTail⟩
        exact ⟨(key, json) :: others,
          Except.bind_eq_ok_iff.2 ⟨json, encodedHead, Except.bind_eq_ok_iff.2 ⟨others, encodedTail, rfl⟩⟩⟩

theorem answers_list {items : List Json} {vs : List Value} (reached : c.target t = .ok (.elements s))
    (allowed : depth + 1 ≤ c.maxDepth) (inside : ∀ part ∈ items, AnsweredOnceRead types c part)
    (stands : item.Stands types c.definitions s)
    (decoded : Codec.decodeItems c s path (depth + 1) 0 items = .ok vs)
    (read : reader types (.array vs) (.list item) = .ok d) : Answers types c (.array vs) (.list item) t depth d := by
  obtain ⟨data, readItems, rfl⟩ := Except.map_eq_ok_iff.1 (reader_list.symm.trans read)
  have answers : List.Forall₂ (fun v d => Answers types c v item s (depth + 1) d) vs data := by
    refine forall₂_imp_of_mem (ofItems_eq_ok_iff.1 readItems) fun v member d readItem => ?_
    obtain ⟨part, here, path', decodedPart⟩ := exists_of_mem_decodeItems decoded v member
    exact inside part here item s path' (depth + 1) v d stands decodedPart readItem
  refine ⟨rfl, fun path => ?_⟩
  have fit : (¬ Overflows types (.array vs) (.list item)) ↔ ∀ v ∈ vs, ¬ Overflows types v item := by
    rw [overflows_list_iff]
    simp only [not_exists, not_and]
  rw [fit, ← @exists_encodeItems_iff_fit _ types c item s path (depth + 1) vs data 0 answers]
  constructor
  · rintro ⟨json, encoded⟩
    obtain ⟨s', reached', _, jsons, encodedItems, _⟩ := Codec.encoder_array_eq_ok_iff.1 encoded
    rw [reached] at reached'
    cases reached'
    exact ⟨jsons, encodedItems⟩
  · rintro ⟨jsons, encodedItems⟩
    exact ⟨_, Codec.encoder_array_eq_ok_iff.2 ⟨s, reached, allowed, jsons, encodedItems, rfl⟩⟩

theorem answers_map {members : Json.Members} {entries : Entries Value} (reached : c.target t = .ok (.values s))
    (allowed : depth + 1 ≤ c.maxDepth) (inside : ∀ part ∈ members.map Prod.snd, AnsweredOnceRead types c part)
    (stands : item.Stands types c.definitions s)
    (decoded : Codec.decodeEntries c s path (depth + 1) [] members = .ok entries)
    (read : reader types (.map entries) (.map item) = .ok d) : Answers types c (.map entries) (.map item) t depth d := by
  obtain ⟨data, readEntries, rfl⟩ := Except.map_eq_ok_iff.1 (reader_map.symm.trans read)
  have readEach := ofEntries_eq_ok_iff.1 readEntries
  obtain ⟨ascending, origins⟩ := Codec.decodeEntries_sound .nil decoded
  have answers : List.Forall₂ (fun entry pair => Answers types c entry.2 item s (depth + 1) pair.2) entries data := by
    refine forall₂_imp_of_mem readEach fun entry member pair readEntry => ?_
    obtain ⟨part, here, path', decodedPart⟩ := (origins entry member).resolve_left List.not_mem_nil
    exact inside part here item s path' (depth + 1) entry.2 pair.2 stands decodedPart readEntry.2
  have sameKeys : data.map Prod.fst = entries.map Prod.fst :=
    map_eq_of_forall₂ (readEach.imp fun _ _ readEntry => readEntry.1)
  have kept : Entries.ofPairs (pairsToValues data) = pairsToValues data := by
    refine Entries.ofPairs_of_ascending (Codec.ascending_iff_keys.2 ?_)
    rw [keys_pairsToValues, sameKeys]
    exact Codec.ascending_iff_keys.1 ascending
  refine ⟨rfl, fun path => ?_⟩
  have fit : (¬ Overflows types (.map entries) (.map item)) ↔ ∀ entry ∈ entries, ¬ Overflows types entry.2 item := by
    rw [overflows_map_iff]
    simp only [not_exists, not_and]
  rw [fit, ← @exists_encodeEntries_iff_fit _ types c item s path (depth + 1) entries data answers, toValue, kept]
  constructor
  · rintro ⟨json, encoded⟩
    obtain ⟨s', reached', _, members, encodedEntries, _⟩ := Codec.encoder_map_eq_ok_iff.1 encoded
    rw [reached] at reached'
    cases reached'
    exact ⟨members, encodedEntries⟩
  · rintro ⟨members, encodedEntries⟩
    exact ⟨_, Codec.encoder_map_eq_ok_iff.2 ⟨s, reached, allowed, members, encodedEntries, rfl⟩⟩

/-! ## Declared types -/

section Declared

variable {parts : List Json} {fields : Entries Value} {declared : List (FieldDecl (Ty n))}
  {properties : List (Property TypeDef)} {data : List (String × Datum)}

theorem eq_absent_of_reader_absent (mayMiss : ty.mayMiss = true) (read : reader types .absent ty = .ok d) :
    d = .absent := by
  cases ty with
  | optional | field =>
      cases read
      rfl
  | _ =>
      cases mayMiss

/-- A field is written unless its value overflows; one that is missing may be missing again. -/
theorem fieldWritten_iff_fits {field : FieldDecl (Ty n)} {p : Property TypeDef} {entry : String × Datum}
    (inside : ∀ part ∈ parts, AnsweredOnceRead types c part) (stands : field.Stands types c.definitions p)
    (decoded : c.FieldDecoded parts depth fields p) (distinct : (data.map Prod.fst).Nodup) (member : entry ∈ data)
    (name : entry.1 = field.name)
    (read : reader types (Value.field field.name fields) field.type = .ok entry.2) :
    Codec.FieldWritten c (Entries.ofPairs (pairsToValues data)) path depth p ↔
      ¬ Overflows types (Value.field field.name fields) field.type := by
  have written := present?_pairsToValues distinct member
  rw [name, ← stands.name] at written
  unfold Codec.FieldDecoded at decoded
  rw [stands.name] at decoded
  unfold Value.field at read ⊢
  cases found : Entries.find? field.name fields with
  | none =>
      simp only [found] at decoded read
      have nothing := eq_absent_of_reader_absent (stands.optional.symm.trans decoded) read
      rw [nothing] at written
      rw [Codec.fieldWritten_of_missing written]
      exact iff_of_true decoded (not_overflows_of_nothing (.inl rfl))
  | some v =>
      simp only [found] at decoded
      rw [found] at read
      obtain ⟨part, here, path', decodedPart⟩ := decoded
      have answers := inside part here field.type p.type path' depth v entry.2 stands.type decodedPart read
      rw [answers.present] at written
      rw [Codec.fieldWritten_of_present written]
      exact answers.written _

theorem fieldsWritten_iff_fit (inside : ∀ part ∈ parts, AnsweredOnceRead types c part)
    (stands : List.Forall₂ (FieldDecl.Stands types c.definitions) declared properties)
    (decoded : ∀ p ∈ properties, c.FieldDecoded parts depth fields p) (distinct : (declared.map FieldDecl.name).Nodup)
    (read : FieldsRead types fields declared data) :
    (∀ p ∈ properties, Codec.FieldWritten c (Entries.ofPairs (pairsToValues data)) path depth p) ↔
      ∀ field ∈ declared, ¬ Overflows types (Value.field field.name fields) field.type := by
  have distinctData : (data.map Prod.fst).Nodup := by
    rw [map_eq_of_forall₂ (read.imp fun _ _ readField => readField.1)]
    exact distinct
  have each : ∀ field p, field ∈ declared → p ∈ properties → field.Stands types c.definitions p →
      (Codec.FieldWritten c (Entries.ofPairs (pairsToValues data)) path depth p ↔
        ¬ Overflows types (Value.field field.name fields) field.type) := by
    intro field p member listed standsField
    obtain ⟨entry, here, name, readField⟩ := exists_mem_of_forall₂ read field member
    exact fieldWritten_iff_fits inside standsField (decoded p listed) distinctData here name readField
  constructor
  · intro written field member
    obtain ⟨p, listed, standsField⟩ := exists_mem_of_forall₂ stands field member
    exact (each field p member listed standsField).1 (written p listed)
  · intro fit p listed
    obtain ⟨field, member, standsField⟩ := exists_mem_of_forall₂ stands.flip p listed
    exact (each field p member listed standsField).2 (fit field member)

/-- What is read of the body of a declared type is answered. -/
theorem answers_of_body (coherent : Coherent types.shapes c.definitions) {form : Form TypeDef}
    (everywhere : c.definitions.Everywhere Form.Checked) (inside : ∀ part ∈ json.parts, AnsweredOnceRead types c part)
    (notNull : json ≠ .null) (stands : (types.get slot).members.Stands types c.definitions form) (checked : form.Checked)
    (reached : c.target t = .ok form) (decoded : Codec.decoder c json t path depth = .ok v)
    (read : reader types v (.declared slot) = .ok d) : Answers types c v (.declared slot) t depth d := by
  have readable : ∀ part ∈ json.parts, ReadableOnceDecoded types c part := fun part _ =>
    readableOnceDecoded coherent everywhere part
  generalize members : (types.get slot).members = declaredMembers at stands
  cases stands with
  | @record declared properties standsFields =>
      obtain ⟨jsonMembers, rfl, allowed, fields, decodedFields, rfl⟩ :=
        (Codec.decoder_object_eq_ok_iff reached notNull).1 decoded
      obtain ⟨_, each⟩ := Codec.fieldDecoded_of_decodeProperties Codec.decoders_made checked (fun _ _ => rfl) decodedFields
      have distinct : (declared.map FieldDecl.name).Nodup := by
        rw [FieldDecl.names_eq_of_stands standsFields]
        exact checked
      obtain ⟨data, readFields, _⟩ := exists_fieldsRead readable standsFields each
      rw [reader_record members distinct readFields] at read
      cases read
      refine ⟨rfl, fun path => ?_⟩
      have fit : (¬ Overflows types (.object fields) (.declared slot)) ↔
          ∀ field ∈ declared, ¬ Overflows types (Value.field field.name fields) field.type := by
        rw [overflows_record_iff members]
        simp only [not_exists, not_and]
      rw [fit, ← fieldsWritten_iff_fit inside standsFields each distinct readFields]
      exact Codec.exists_encoder_object_iff reached allowed
  | @union key variants mapping standsVariants =>
      obtain ⟨jsonMembers, tag, properties, rfl, _, mapped, allowed, fields, decodedFields, rfl⟩ :=
        (Codec.decoder_union_eq_ok_iff reached notNull).1 decoded
      obtain ⟨variant, listed, standsFields⟩ := VariantDecl.exists_of_lookup standsVariants mapped
      have distinctNames : (properties.map Property.name).Nodup :=
        (List.nodup_cons.1 (checked.2 _ (mem_of_lookup mapped))).2
      have made : ∀ entry ∈ (Codec.memberDecoders c jsonMembers).erase (c.key key),
          ∃ part ∈ jsonMembers.map Prod.snd, entry.2 = Codec.decoder c part :=
        fun entry member => Codec.decoders_made entry ((Entries.erase_sublist _ _).subset member)
      obtain ⟨_, each⟩ := Codec.fieldDecoded_of_decodeProperties made distinctNames (fun _ _ => rfl) decodedFields
      have distinct : (variant.fields.map FieldDecl.name).Nodup := by
        rw [FieldDecl.names_eq_of_stands standsFields]
        exact distinctNames
      obtain ⟨data, readFields, _⟩ := exists_fieldsRead readable standsFields each
      rw [reader_variant members listed distinct readFields] at read
      cases read
      refine ⟨rfl, fun path => ?_⟩
      have fit : (¬ Overflows types (.union tag fields) (.declared slot)) ↔
          ∀ field ∈ variant.fields, ¬ Overflows types (Value.field field.name fields) field.type := by
        rw [overflows_variant_iff members listed]
        simp only [not_exists, not_and]
      rw [fit, ← fieldsWritten_iff_fit inside standsFields each distinct readFields]
      exact Codec.exists_encoder_union_iff reached mapped allowed

theorem answers_declared (coherent : Coherent types.shapes c.definitions)
    (everywhere : c.definitions.Everywhere Form.Checked) (inside : ∀ part ∈ json.parts, AnsweredOnceRead types c part)
    (notNull : json ≠ .null) (hasForm : (Ty.declared slot).HasForm types c.definitions t.form)
    (decoded : Codec.decoder c json t path depth = .ok v) (read : reader types v (.declared slot) = .ok d) :
    Answers types c v (.declared slot) t depth d := by
  rcases hasForm with ⟨listed, members, sameForm⟩ | ⟨_, name, named, sameForm⟩
  · have reached : c.target t = .ok (.enumeration listed) := Codec.target_of_form sameForm nofun
    have scalar := (Codec.decoder_scalar_eq_ok_iff reached (.inr ⟨listed, rfl⟩) notNull).1 decoded
    obtain ⟨s, member, rfl⟩ := Codec.exists_decodeScalar_enumeration_iff.1 ⟨v, scalar⟩
    simp only [Codec.decodeScalar, List.contains_iff_mem, member, if_true, Except.ok.injEq] at scalar
    subst scalar
    rw [reader_enumeration members member] at read
    cases read
    refine answers_of_written rfl (exists_encoder_of_encodeScalar reached trivial fun path => ⟨.str s, ?_⟩) ?_
    · simp [Codec.encodeScalar, toValue, member]
    · intro overflows
      cases overflows
  · obtain ⟨form, reached⟩ := Codec.exists_target_of_decoder notNull decoded
    obtain ⟨body, found, same, stands⟩ := TypeCatalog.exists_body_of_target coherent named sameForm reached
    have checked : form.Checked := (everywhere.get? found).here_of_form same
    exact answers_of_body coherent everywhere inside notNull stands checked reached decoded read

end Declared

/-! ## All types -/

theorem answers_of_notNull (coherent : Coherent types.shapes c.definitions)
    (everywhere : c.definitions.Everywhere Form.Checked) (inside : ∀ part ∈ json.parts, AnsweredOnceRead types c part)
    (stored : json.Stored) (notNull : json ≠ .null) (hasForm : ty.HasForm types c.definitions t.form)
    (decoded : Codec.decoder c json t path depth = .ok v) (read : reader types v ty = .ok d) :
    Answers types c v ty t depth d := by
  obtain ⟨present, notNullRead⟩ := Codec.isThere_of_decoder notNull decoded
  have scalar : ∀ {ty : Ty n} {kind : PrimitiveKind} {d : Datum}, ty.shape = .primitive kind →
      t.form = .primitive kind → reader types v ty = .ok d → Answers types c v ty t depth d := by
    intro ty kind d shape sameForm read
    have reached : c.target t = .ok (.primitive kind) := Codec.target_of_form sameForm nofun
    exact answers_of_decodeScalar stored reached shape
      ((Codec.decoder_scalar_eq_ok_iff reached (.inl ⟨kind, rfl⟩) notNull).1 decoded) read
  induction ty generalizing d with
  | bool | int | float32 | float64 | string | timestamp =>
      exact scalar rfl hasForm read
  | json =>
      have reached : c.target t = .ok .any := Codec.target_of_form hasForm nofun
      cases (Codec.decoder_any_eq_ok_iff reached notNull).1 decoded
      exact answers_any reached rfl read
  | unit | wide =>
      cases hasForm
  | list item =>
      obtain ⟨s, sameForm, _, stands, nullable⟩ := hasForm
      have reached : c.target t = .ok (.elements s) := Codec.target_of_form sameForm nofun
      obtain ⟨items, rfl, allowed, vs, decodedItems, rfl⟩ := (Codec.decoder_elements_eq_ok_iff reached notNull).1 decoded
      exact answers_list reached allowed inside ⟨stands, nullable⟩ decodedItems read
  | map item =>
      obtain ⟨s, sameForm, _, stands, nullable⟩ := hasForm
      have reached : c.target t = .ok (.values s) := Codec.target_of_form sameForm nofun
      obtain ⟨members, rfl, allowed, entries, decodedEntries, rfl⟩ :=
        (Codec.decoder_values_eq_ok_iff reached notNull).1 decoded
      exact answers_map reached allowed inside ⟨stands, nullable⟩ decodedEntries read
  | option inner inductionHypothesis =>
      exact answers_of_wrapped present notNullRead (fun _ => inductionHypothesis hasForm.2) (.inl rfl) read
  | optional inner inductionHypothesis =>
      exact answers_of_wrapped present notNullRead (fun _ => inductionHypothesis hasForm.2) (.inr (.inl rfl)) read
  | field inner inductionHypothesis =>
      exact answers_of_wrapped present notNullRead (fun _ => inductionHypothesis hasForm.2) (.inr (.inr rfl)) read
  | declared slot =>
      exact answers_declared coherent everywhere inside notNull hasForm decoded read

/-- Whatever is decoded and read over a coherent table is answered, unless a number overflows. -/
theorem answeredOnceRead (coherent : Coherent types.shapes c.definitions)
    (everywhere : c.definitions.Everywhere Form.Checked) (stored : json.Everywhere Json.Stored) :
    AnsweredOnceRead types c json := by
  induction stored with
  | @intro json stored _ inside =>
      intro ty t path depth v d stands decoded read
      by_cases isNull : json = .null
      · subst isNull
        rcases Codec.decoder_null_eq_ok_iff.1 decoded with ⟨nullable, rfl⟩ | ⟨_, carried, rfl⟩
        · exact answers_null nullable (stands.nullable.symm.trans nullable) read
        · have hasForm := stands.form
          have isAny := Codec.isAny_iff.1 carried
          rw [isAny] at hasForm
          exact answers_any (Codec.target_of_form isAny nofun) hasForm read
      · exact answers_of_notNull coherent everywhere inside stored isNull stands.form decoded read

end Datum

/-! ## Registered types -/

/-- An integer out of the range of its kind is refused, as a number and as digits. -/
theorem Codec.exists_decoder_error_of_notInRange {kind : PrimitiveKind} {i : Int} (reached : c.target t = .ok (.primitive kind))
    (isInteger : kind.isInteger = true) (notInRange : kind.inRange i = false)
    (tells : json = .num (.int i) ∨ ∃ digits, Decimal.readInt128? digits = some i ∧ json = .str digits) :
    ∃ error, Codec.decoder c json t path depth = .error error := by
  refine Except.exists_error_of_ne_ok fun v decoded => ?_
  have notNull : json ≠ .null := by
    rintro rfl
    rcases tells with impossible | ⟨_, _, impossible⟩ <;> cases impossible
  have refused : ∀ v, Codec.decodeInteger i kind path ≠ .ok v := by
    intro v decoded
    rw [(Codec.decodeInteger_eq_ok decoded isInteger).1] at notInRange
    cases notInRange
  have scalar := (Codec.decoder_scalar_eq_ok_iff reached (.inl ⟨kind, rfl⟩) notNull).1 decoded
  rcases tells with rfl | ⟨digits, read, rfl⟩
  · have notFloat := PrimitiveKind.isFloat_eq_false_of_isInteger isInteger
    simp only [Codec.decodeScalar, Codec.decodeNumber, notFloat, isInteger, Bool.false_eq_true, if_false, if_true] at scalar
    split at scalar
    · exact refused v scalar
    · cases scalar
  · have notText : kind ≠ .string ∧ kind ≠ .timestamp := by
      constructor <;> rintro rfl <;> cases isInteger
    simp only [Codec.decodeScalar, Codec.decodeString, notText.1, notText.2, if_false, read] at scalar
    split at scalar
    · exact refused v scalar
    · cases scalar

namespace TypeCatalog

/-- Whatever a handler receives it can send back, unless a number in it is beyond the single precision of its place. An integer
out of the range of its kind is not received at all. -/
theorem exists_encodeJson_toValue_iff (unique : types.shapes.OneTypeEach) {before after : List (Registration n)}
    {made : Registration n} {ty : Ty n} {name : String} (registers : Registers types (types.registry before) made ty name)
    (casing : Casing) (maxDepth : Nat) :
    (∀ json v x, json.Everywhere Json.Stored →
      ((types.registry (before ++ made :: after)).codec casing maxDepth).decodeJson json (.ref name) = .ok v →
      Datum.ofValue types v ty = .ok x →
      ((∃ json', ((types.registry (before ++ made :: after)).codec casing maxDepth).encodeJson x.toValue (.ref name) =
          .ok json') ↔
        ¬ Datum.Overflows types v ty)) ∧
    ∀ t kind i json path depth,
      ((types.registry (before ++ made :: after)).codec casing maxDepth).target t = .ok (.primitive kind) →
      kind.isInteger = true → kind.inRange i = false →
      (json = .num (.int i) ∨ ∃ digits, Decimal.readInt128? digits = some i ∧ json = .str digits) →
      ∃ error, ((types.registry (before ++ made :: after)).codec casing maxDepth).decoder json t path depth =
        .error error := by
  obtain ⟨slot, rfl, entered, named⟩ := @named_registry n types unique before after made ty name registers
  have coherent := coherent_registry unique (before ++ made :: after)
  have checked := @checked_registry n types (before ++ made :: after)
  generalize types.registry (before ++ made :: after) = r at *
  constructor
  · intro json v x stored decoded read
    have answered : Datum.AnsweredOnceRead types (r.codec casing maxDepth) json :=
      Datum.answeredOnceRead coherent checked stored
    exact (answered _ _ rootPath 0 v x (Ty.stands_of_named entered named) decoded read).written rootPath
  · intro t kind i json path depth reached isInteger notInRange tells
    exact Codec.exists_decoder_error_of_notInRange reached isInteger notInRange tells

/-- Places on a map, in single precision. -/
def spots : TypeCatalog 1 := #v[
  { info := { id := 0, name := some "Spot" }
    members := .record [⟨"lat", .float32, none, false⟩, ⟨"lon", .option .float32, none, false⟩] }]

def spotShapes : Catalog 1 := #v[
  { info := { id := 0, name := some "Spot" }
    members := .record [⟨"lat", .primitive .float32, none, false⟩, ⟨"lon", .nullable (.primitive .float32), none, false⟩] }]

theorem shapes_spots : spots.shapes = spotShapes := by
  decide +kernel

theorem registry_spots : spots.registry [.model (.declared 0)] = Registry.calls {} [.define spotShapes (.declared 0)] := by
  rw [← shapes_spots]
  rfl

theorem registers_spots : Registers spots (spots.registry []) (.model (.declared 0)) (.declared 0) "Spot" :=
  .model (by rw [shapes_spots]; rfl)

/-- The double nearest to 10^39, three times the largest number of single precision. -/
def beyondSingle : Binary64 := ⟨5190260616003865117⟩

def farSpotJson : Json :=
  .obj [("lat", .num (.int 0)), ("lon", .num (.float beyondSingle))]

def farSpotValue : Value :=
  .object [("lat", .float ⟨0⟩), ("lon", .float beyondSingle)]

/-- Read in single precision the number is infinite. -/
def farSpot : Datum :=
  .record [("lat", .float ⟨0⟩), ("lon", .present (.float ⟨0x7FF0000000000000⟩))]

theorem stored_farSpotJson : farSpotJson.Everywhere Json.Stored := by
  have distinct : (["lat", "lon"] : List String).Nodup := by decide
  have small : -2 ^ 63 ≤ (0 : Int) ∧ (0 : Int) < 2 ^ 64 := by decide
  have finite : beyondSingle.isFinite = true := by decide
  refine .intro distinct (List.forall_mem_cons.2 ⟨?_, List.forall_mem_singleton.2 ?_⟩)
  · exact .intro small (List.forall_mem_nil _)
  · exact .intro finite (List.forall_mem_nil _)

theorem ofValue_farSpotValue : Datum.ofValue spots farSpotValue (.declared 0) = .ok farSpot := by
  have zero : (⟨0⟩ : Binary64).roundToSingle = ⟨0⟩ := by decide +kernel
  have infinite : beyondSingle.roundToSingle = ⟨0x7FF0000000000000⟩ := by decide +kernel
  refine Datum.reader_record rfl (by decide) (.cons ⟨rfl, ?_⟩ (.cons ⟨rfl, ?_⟩ .nil))
  · exact congrArg (fun x => Except.ok (Datum.float x)) zero
  · exact congrArg (fun x => Except.ok (Datum.present (.float x))) infinite

theorem decodeJson_farSpotJson :
    ((spots.registry [.model (.declared 0)]).codec .camel 64).decodeJson farSpotJson (.ref "Spot") = .ok farSpotValue := by
  rw [registry_spots]
  rfl

theorem exists_encodeJson_toValue_iff_farSpot :
    Registers spots (spots.registry []) (.model (.declared 0)) (.declared 0) "Spot" ∧
    ((spots.registry [.model (.declared 0)]).codec .camel 64).decodeJson farSpotJson (.ref "Spot") = .ok farSpotValue ∧
    Datum.ofValue spots farSpotValue (.declared 0) = .ok farSpot ∧
    ∀ json, ((spots.registry [.model (.declared 0)]).codec .camel 64).encodeJson farSpot.toValue (.ref "Spot") ≠ .ok json :=
  have unique : spots.shapes.OneTypeEach := by decide +kernel
  have infinite : beyondSingle.roundToSingle.isFinite = false := by decide +kernel
  have overflows : Datum.Overflows spots farSpotValue (.declared 0) :=
    .record rfl (List.mem_cons_of_mem _ List.mem_cons_self) (.option (.number infinite))
  ⟨registers_spots, decodeJson_farSpotJson, ofValue_farSpotValue, fun json encoded =>
    ((@exists_encodeJson_toValue_iff 1 spots unique [] [] _ _ _ registers_spots .camel 64).1 _ _ _ stored_farSpotJson
      decodeJson_farSpotJson ofValue_farSpotValue).1 ⟨json, encoded⟩ overflows⟩

/-- The number is taken by the decoder, but the encoder refuses what the handler got. -/
theorem farSpot_not_answered :
    ¬ ∀ (types : TypeCatalog 1) (made : Registration 1) (ty : Ty 1) (name : String) (json : Json) (v : Value) (x : Datum),
        types.shapes.OneTypeEach → Registers types (types.registry []) made ty name → json.Everywhere Json.Stored →
        ((types.registry [made]).codec .camel 64).decodeJson json (.ref name) = .ok v →
        Datum.ofValue types v ty = .ok x →
          ∃ json', ((types.registry [made]).codec .camel 64).encodeJson x.toValue (.ref name) = .ok json' := by
  intro answered
  obtain ⟨json', encoded⟩ := answered spots _ _ _ farSpotJson farSpotValue farSpot (by decide +kernel) registers_spots
    stored_farSpotJson decodeJson_farSpotJson ofValue_farSpotValue
  have refused : ((spots.registry [.model (.declared 0)]).codec .camel 64).encodeJson farSpot.toValue (.ref "Spot") =
      .error (.invalidValue "/lon" "inf is not a finite number") := by
    rw [registry_spots]
    rfl
  rw [refused] at encoded
  cases encoded

end TypeCatalog

end SchemaRpc
