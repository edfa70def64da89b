import SchemaRpc.Proofs.Codec.Properties
import SchemaRpc.Proofs.Codec.Scalars
import SchemaRpc.Proofs.Schema.Accepts

/-!
# What the decoder accepts

Where the references end at a form, the decoder takes what the form accepts, with its own verdict on the parts one
container further in. The depth is bounded by that of the JSON for the way back only.
-/

namespace SchemaRpc.Codec

variable {c : Codec} {t item : TypeDef} {form : Form TypeDef} {path : String} {depth : Nat} {json : Json}

/-! ## Scalars -/

theorem exists_decodeInteger_iff {n : Int} {kind : PrimitiveKind} :
    (∃ v, decodeInteger n kind path = .ok v) ↔ kind.inRange n = true := by
  unfold decodeInteger
  cases kind.inRange n with
  | true =>
      cases kind.isUnsigned <;> simp
  | false =>
      simp

/-- Integers too wide for a number on the wire are out of range anyhow. -/
theorem exists_decodeNumber_int_iff {i : Int} {kind : PrimitiveKind} (integer : kind.isInteger = true) :
    (∃ v, decodeNumber (.int i) kind path = .ok v) ↔ kind.inRange i = true := by
  have notFloat := PrimitiveKind.isFloat_eq_false_of_isInteger integer
  simp only [decodeNumber, notFloat, integer, Bool.false_eq_true, if_false, if_true]
  split
  · exact exists_decodeInteger_iff
  · next tooWide =>
    have outside : kind.inRange i ≠ true := by
      intro inRange
      have bounds := PrimitiveKind.bounds_of_inRange integer inRange
      apply tooWide
      rw [Bool.and_eq_true, decide_eq_true_eq, decide_eq_true_eq]
      exact bounds
    simp [outside]

theorem exists_decodeNumber_iff {n : Json.Number} {kind : PrimitiveKind} :
    (∃ v, decodeNumber n kind path = .ok v) ↔ kind.Fits (.num n) := by
  unfold PrimitiveKind.Fits
  cases float : kind.isFloat with
  | true =>
      simp [decodeNumber, float]
  | false =>
      cases integer : kind.isInteger with
      | false =>
          simp [decodeNumber, float, integer]
      | true =>
          cases n with
          | float x =>
              simp [decodeNumber, float, integer]
          | int i =>
              rw [exists_decodeNumber_int_iff integer]
              simp

/-- A decimal string of more than 128 bits is out of range anyhow. -/
theorem exists_readInt128?_iff {s : String} {kind : PrimitiveKind} (integer : kind.isInteger = true) :
    (∃ i, Decimal.readInt128? s = some i ∧ kind.inRange i = true) ↔
      ∃ i, Decimal.readInt? s = some i ∧ kind.inRange i = true := by
  refine exists_congr fun i => and_congr_left fun inRange => ?_
  have bounds := PrimitiveKind.bounds_of_inRange integer inRange
  have fits : (-(2 ^ 127 : Int) ≤ i && i < 2 ^ 127 : Bool) = true := by
    rw [Bool.and_eq_true, decide_eq_true_eq, decide_eq_true_eq]
    omega
  rw [Decimal.readInt128?, Option.filter_eq_some_iff]
  exact and_iff_left fits

theorem exists_decodeString_iff {s : String} {kind : PrimitiveKind} :
    (∃ v, decodeString s kind path = .ok v) ↔ kind.Fits (.str s) := by
  unfold decodeString PrimitiveKind.Fits
  by_cases isString : kind = .string
  · simp [isString]
  by_cases isTimestamp : kind = .timestamp
  · subst isTimestamp
    cases read : Timestamp.ofText? s <;> simp [decodeTimestamp, read, PrimitiveKind.isStringified]
  cases stringified : kind.isStringified with
  | false =>
      simp [isString, isTimestamp]
  | true =>
      have integer := PrimitiveKind.isInteger_of_isStringified stringified
      simp only [isString, isTimestamp, if_false, if_true, false_or, false_and, true_and]
      rw [← exists_readInt128?_iff integer]
      cases read : Decimal.readInt128? s with
      | none =>
          simp
      | some i =>
          simp only [Option.some.injEq, exists_eq_left']
          exact exists_decodeInteger_iff

theorem exists_decodeScalar_primitive_iff {kind : PrimitiveKind} :
    (∃ v, decodeScalar json (.primitive kind) path = .ok v) ↔ kind.Fits json := by
  cases json with
  | bool b =>
      cases kind <;> simp [decodeScalar, decodeMismatch, PrimitiveKind.Fits]
  | num n =>
      exact exists_decodeNumber_iff
  | str s =>
      exact exists_decodeString_iff
  | null | arr | obj =>
      simp [decodeScalar, decodeMismatch, PrimitiveKind.Fits]

theorem exists_decodeScalar_enumeration_iff {listed : List String} :
    (∃ v, decodeScalar json (.enumeration listed) path = .ok v) ↔ ∃ s ∈ listed, json = .str s := by
  cases json with
  | str s =>
      by_cases member : s ∈ listed <;> simp [decodeScalar, member]
  | null | bool | num | arr | obj =>
      simp [decodeScalar, decodeMismatch]

/-! ## Containers -/

/-- The JSON is decoded at this depth at some place. -/
def DecodesSomewhere (c : Codec) (depth : Nat) (t : TypeDef) (json : Json) : Prop :=
  ∃ path v, decoder c json t path depth = .ok v

/-- The JSON is decoded at this depth at every place. -/
def DecodesAnywhere (c : Codec) (depth : Nat) (t : TypeDef) (json : Json) : Prop :=
  ∀ path, ∃ v, decoder c json t path depth = .ok v

theorem decodesSomewhere_of_decodeItems {items : List Json} {index : Nat} {vs : List Value}
    (decoded : decodeItems c item path depth index items = .ok vs) :
    ∀ part ∈ items, c.DecodesSomewhere depth item part := by
  induction items generalizing index vs with
  | nil =>
      exact List.forall_mem_nil _
  | cons head tail inductionHypothesis =>
      obtain ⟨v, decodedHead, rest⟩ := Except.bind_eq_ok_iff.1 decoded
      obtain ⟨others, decodedTail, _⟩ := Except.bind_eq_ok_iff.1 rest
      have here : c.DecodesSomewhere depth item head := ⟨_, v, decodedHead⟩
      exact List.forall_mem_cons.2 ⟨here, inductionHypothesis decodedTail⟩

theorem exists_decodeItems {items : List Json} (index : Nat)
    (each : ∀ part ∈ items, c.DecodesAnywhere depth item part) :
    ∃ vs, decodeItems c item path depth index items = .ok vs := by
  induction items generalizing index with
  | nil =>
      exact ⟨[], rfl⟩
  | cons head tail inductionHypothesis =>
      obtain ⟨decodesHead, decodesTail⟩ := List.forall_mem_cons.1 each
      obtain ⟨v, decodedHead⟩ := decodesHead (childPath path (toString index))
      obtain ⟨others, decodedTail⟩ := inductionHypothesis (index + 1) decodesTail
      exact ⟨v :: others, Except.bind_eq_ok_iff.2 ⟨v, decodedHead, Except.bind_eq_ok_iff.2 ⟨others, decodedTail, rfl⟩⟩⟩

theorem decodesSomewhere_of_decodeEntries {members : Json.Members} {done entries : Entries Value}
    (decoded : decodeEntries c item path depth done members = .ok entries) :
    ∀ part ∈ members.map Prod.snd, c.DecodesSomewhere depth item part := by
  induction members generalizing done with
  | nil =>
      exact List.forall_mem_nil _
  | cons head tail inductionHypothesis =>
      obtain ⟨key, json⟩ := head
      obtain ⟨v, decodedHead, decodedTail⟩ := Except.bind_eq_ok_iff.1 decoded
      have here : c.DecodesSomewhere depth item json := ⟨_, v, decodedHead⟩
      exact List.forall_mem_cons.2 ⟨here, inductionHypothesis decodedTail⟩

theorem exists_decodeEntries {members : Json.Members} (done : Entries Value)
    (each : ∀ part ∈ members.map Prod.snd, c.DecodesAnywhere depth item part) :
    ∃ entries, decodeEntries c item path depth done members = .ok entries := by
  induction members generalizing done with
  | nil =>
      exact ⟨done, rfl⟩
  | cons head tail inductionHypothesis =>
      obtain ⟨key, json⟩ := head
      obtain ⟨decodesHead, decodesTail⟩ := List.forall_mem_cons.1 each
      obtain ⟨v, decodedHead⟩ := decodesHead (childPath path key)
      obtain ⟨entries, decodedTail⟩ := inductionHypothesis (done.insert key v) decodesTail
      exact ⟨entries, Except.bind_eq_ok_iff.2 ⟨v, decodedHead, decodedTail⟩⟩

theorem fieldRead_iff_accepts {members : Json.Members} {p : Property TypeDef} :
    FieldRead c members path depth p ↔
      p.Accepts c.casing (fun s json => ∃ v, decoder c json s (c.propertyPath path p) depth = .ok v) members := by
  cases found : members.get? (c.key p.name) with
  | none =>
      rw [fieldRead_of_missing found, Property.accepts_of_missing found]
  | some json =>
      rw [fieldRead_of_found found, Property.accepts_of_found found]

theorem accepts_of_fieldRead {members : Json.Members} {p : Property TypeDef}
    (read : FieldRead c members path depth p) : p.Accepts c.casing (c.DecodesSomewhere depth) members :=
  (fieldRead_iff_accepts.1 read).mono fun _ _ decoded => ⟨_, decoded⟩

theorem fieldRead_of_accepts {members : Json.Members} {p : Property TypeDef}
    (accepts : p.Accepts c.casing (c.DecodesAnywhere depth) members) : FieldRead c members path depth p :=
  fieldRead_iff_accepts.2 (accepts.mono fun _ _ decodes => decodes (c.propertyPath path p))

/-! ## All forms -/

theorem accepts_of_decoder {v : Value} (reached : c.target t = .ok form)
    (distinct : form.WireDistinct c.casing) (notNull : json ≠ .null)
    (decoded : decoder c json t path depth = .ok v) :
    form.Accepts c.casing (c.DecodesSomewhere (depth + 1)) json := by
  cases form with
  | any =>
      trivial
  | primitive kind =>
      have scalar := (decoder_scalar_eq_ok_iff reached (.inl ⟨kind, rfl⟩) notNull).1 decoded
      exact exists_decodeScalar_primitive_iff.1 ⟨v, scalar⟩
  | enumeration listed =>
      have scalar := (decoder_scalar_eq_ok_iff reached (.inr ⟨listed, rfl⟩) notNull).1 decoded
      exact exists_decodeScalar_enumeration_iff.1 ⟨v, scalar⟩
  | elements item =>
      obtain ⟨items, rfl, _, vs, decodedItems, _⟩ := (decoder_elements_eq_ok_iff reached notNull).1 decoded
      exact ⟨items, rfl, decodesSomewhere_of_decodeItems decodedItems⟩
  | values item =>
      obtain ⟨members, rfl, _, entries, decodedEntries, _⟩ := (decoder_values_eq_ok_iff reached notNull).1 decoded
      exact ⟨members, rfl, decodesSomewhere_of_decodeEntries decodedEntries⟩
  | object properties =>
      obtain ⟨members, rfl, _, fields, decodedFields, _⟩ := (decoder_object_eq_ok_iff reached notNull).1 decoded
      obtain ⟨read, _⟩ := (decodeProperties_object_eq_ok_iff distinct).1 decodedFields
      exact ⟨members, rfl, fun p declared => accepts_of_fieldRead (read p declared)⟩
  | ref name =>
      exact absurd reached target_ne_ref
  | union key mapping =>
      obtain ⟨members, tag, properties, rfl, tagged, listed, _, fields, decodedFields, _⟩ :=
        (decoder_union_eq_ok_iff reached notNull).1 decoded
      have distinctKeys := distinct (tag, properties) (mem_of_lookup listed)
      obtain ⟨read, _⟩ := (decodeProperties_union_eq_ok_iff distinctKeys).1 decodedFields
      exact ⟨members, tag, properties, rfl, tagged, listed, fun p declared => accepts_of_fieldRead (read p declared)⟩

theorem exists_decoder_of_accepts (reached : c.target t = .ok form)
    (distinct : form.WireDistinct c.casing) (notNull : json ≠ .null) (room : depth + json.depth ≤ c.maxDepth)
    (accepts : form.Accepts c.casing (c.DecodesAnywhere (depth + 1)) json) :
    ∃ v, decoder c json t path depth = .ok v := by
  cases form with
  | any =>
      exact ⟨_, (decoder_any_eq_ok_iff reached notNull).2 rfl⟩
  | primitive kind =>
      obtain ⟨v, scalar⟩ := exists_decodeScalar_primitive_iff.2 accepts
      exact ⟨v, (decoder_scalar_eq_ok_iff reached (.inl ⟨kind, rfl⟩) notNull).2 scalar⟩
  | enumeration listed =>
      obtain ⟨v, scalar⟩ := exists_decodeScalar_enumeration_iff.2 accepts
      exact ⟨v, (decoder_scalar_eq_ok_iff reached (.inr ⟨listed, rfl⟩) notNull).2 scalar⟩
  | elements item =>
      obtain ⟨items, rfl, each⟩ := accepts
      obtain ⟨vs, decodedItems⟩ := exists_decodeItems 0 each
      have allowed : depth + 1 ≤ c.maxDepth := by
        rw [Json.depth] at room
        omega
      exact ⟨_, (decoder_elements_eq_ok_iff reached notNull).2 ⟨items, rfl, allowed, vs, decodedItems, rfl⟩⟩
  | values item =>
      obtain ⟨members, rfl, each⟩ := accepts
      obtain ⟨entries, decodedEntries⟩ := exists_decodeEntries [] each
      have allowed : depth + 1 ≤ c.maxDepth := by
        rw [Json.depth] at room
        omega
      exact ⟨_, (decoder_values_eq_ok_iff reached notNull).2 ⟨members, rfl, allowed, entries, decodedEntries, rfl⟩⟩
  | object properties =>
      obtain ⟨members, rfl, each⟩ := accepts
      have allowed : depth + 1 ≤ c.maxDepth := by
        rw [Json.depth] at room
        omega
      have read : ∀ p ∈ properties, FieldRead c members path (depth + 1) p := fun p declared =>
        fieldRead_of_accepts (each p declared)
      have decodedFields := (decodeProperties_object_eq_ok_iff distinct).2 ⟨read, rfl⟩
      exact ⟨_, (decoder_object_eq_ok_iff reached notNull).2 ⟨members, rfl, allowed, _, decodedFields, rfl⟩⟩
  | ref name =>
      exact absurd reached target_ne_ref
  | union key mapping =>
      obtain ⟨members, tag, properties, rfl, tagged, listed, each⟩ := accepts
      have allowed : depth + 1 ≤ c.maxDepth := by
        rw [Json.depth] at room
        omega
      have distinctKeys := distinct (tag, properties) (mem_of_lookup listed)
      have read : ∀ p ∈ properties, FieldRead c members path (depth + 1) p := fun p declared =>
        fieldRead_of_accepts (each p declared)
      have decodedFields := (decodeProperties_union_eq_ok_iff distinctKeys).2 ⟨read, rfl⟩
      exact ⟨_, (decoder_union_eq_ok_iff reached notNull).2
        ⟨members, tag, properties, rfl, tagged, listed, allowed, _, decodedFields, rfl⟩⟩

end SchemaRpc.Codec
