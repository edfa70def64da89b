import SchemaRpc.Proofs.Codec.Resent
import SchemaRpc.Proofs.Query.Written

/-!
# Sending a record as query pairs

There is no encoder of query strings to be found here, yet there is something for it to write: one text for a scalar and one
for each item of an array, under the wire key of the property. A text does not tell whether it is null or a string, and an
array without items leaves no text at all; apart from these (`Expressible`), a record that survives the way through JSON is
read back from its pairs. Neither the order of pairs of different properties nor brackets after a key make a difference.
-/

namespace SchemaRpc.Codec

variable {c : Codec} {t item : TypeDef} {path : String} {depth : Nat} {properties : List (Property TypeDef)} {v : Value}
  {pairs sent : QueryPairs} {keys : List String}

/-! ## Pairs -/

/-- The text of a scalar. -/
def queryText : Value → String
  | .null => nullText
  | .bool true => "true"
  | .bool false => "false"
  | .int n => toString n.toInt
  | .uint n => toString (n.toNat : Int)
  | .str s => s
  | .timestamp t => t.toText
  | _ => ""

/-- The texts of a field: one for each item of an array. -/
def queryTexts : Value → List String
  | .array items => items.map queryText
  | v => [queryText v]

/-- The pairs of a record, property after property. -/
def queryPairs (c : Codec) (fields : Entries Value) (properties : List (Property TypeDef)) : QueryPairs :=
  properties.flatMap fun p =>
    ((Value.present? p.name fields).map queryTexts |>.getD []).map (c.key p.name, ·)

/-- The key of a pair is that of a property, plain or with brackets. -/
def Addresses (sentKey key : String) : Prop :=
  sentKey = key ∨ sentKey = key ++ "[]"

/-- The same pairs sent differently: neighbours that no property takes both of change places, and a plain key gets its
brackets. -/
inductive Rearranged (keys : List String) : QueryPairs → QueryPairs → Prop
  | refl (pairs : QueryPairs) :
      Rearranged keys pairs pairs
  | swap {before after : QueryPairs} {one other : String × String} :
      (∀ key ∈ keys, ¬ (Addresses one.1 key ∧ Addresses other.1 key)) →
      Rearranged keys (before ++ one :: other :: after) (before ++ other :: one :: after)
  | bracket {before after : QueryPairs} {key text : String} :
      key ∈ keys →
      Rearranged keys (before ++ (key, text) :: after) (before ++ (key ++ "[]", text) :: after)
  | trans {pairs between sent : QueryPairs} :
      Rearranged keys pairs between →
      Rearranged keys between sent →
      Rearranged keys pairs sent

/-- No key is another one with brackets. -/
def BracketFree (keys : List String) : Prop :=
  ∀ key ∈ keys, key ++ "[]" ∉ keys

theorem textsFor_append (key : String) (before after : QueryPairs) :
    textsFor key (before ++ after) = textsFor key before ++ textsFor key after := by
  simp [textsFor]

theorem textsFor_cons {key : String} {pair : String × String} :
    textsFor key (pair :: pairs) =
      if (pair.1 == key || pair.1 == key ++ "[]") then pair.2 :: textsFor key pairs else textsFor key pairs := by
  obtain ⟨sentKey, text⟩ := pair
  simp only [textsFor, List.filter_cons]
  split <;> rfl

theorem addresses_iff {sentKey key : String} :
    Addresses sentKey key ↔ (sentKey == key || sentKey == key ++ "[]") = true := by
  simp [Addresses]

theorem textsFor_cons_of_addresses {key : String} {pair : String × String} (addresses : Addresses pair.1 key) :
    textsFor key (pair :: pairs) = pair.2 :: textsFor key pairs := by
  rw [textsFor_cons, if_pos (addresses_iff.1 addresses)]

theorem textsFor_cons_of_not_addresses {key : String} {pair : String × String} (other : ¬ Addresses pair.1 key) :
    textsFor key (pair :: pairs) = textsFor key pairs := by
  rw [textsFor_cons, if_neg (mt addresses_iff.2 other)]

theorem eq_of_append_brackets {key other : String} (same : key ++ "[]" = other ++ "[]") : key = other :=
  String.append_left_inj "[]" |>.1 same

/-- A key of its own addresses no other property, plain or with brackets. -/
theorem eq_of_addresses {key other : String} (free : BracketFree keys) (member : key ∈ keys) (listed : other ∈ keys)
    (addresses : Addresses key other ∨ Addresses (key ++ "[]") other) : key = other := by
  rcases addresses with (same | same) | (same | same)
  · exact same
  · exact absurd (same ▸ member) (free other listed)
  · exact absurd (same ▸ listed) (free key member)
  · exact eq_of_append_brackets same

theorem Rearranged.textsFor_eq (free : BracketFree keys) (rearranged : Rearranged keys pairs sent) {key : String}
    (member : key ∈ keys) : textsFor key sent = textsFor key pairs := by
  induction rearranged with
  | refl =>
      rfl
  | @swap before after one other apart =>
      rw [textsFor_append, textsFor_append]
      refine congrArg _ ?_
      by_cases takesOne : Addresses one.1 key
      · have leavesOther : ¬ Addresses other.1 key := fun takesOther => apart key member ⟨takesOne, takesOther⟩
        rw [textsFor_cons_of_not_addresses leavesOther, textsFor_cons_of_addresses takesOne,
          textsFor_cons_of_addresses takesOne, textsFor_cons_of_not_addresses leavesOther]
      · rw [@textsFor_cons_of_not_addresses _ key one takesOne]
        by_cases takesOther : Addresses other.1 key
        · rw [textsFor_cons_of_addresses takesOther, textsFor_cons_of_addresses takesOther,
            textsFor_cons_of_not_addresses takesOne]
        · rw [textsFor_cons_of_not_addresses takesOther, textsFor_cons_of_not_addresses takesOther,
            textsFor_cons_of_not_addresses takesOne]
  | @bracket before after plain text listed =>
      rw [textsFor_append, textsFor_append]
      refine congrArg _ ?_
      by_cases same : plain = key
      · subst same
        rw [@textsFor_cons_of_addresses after plain (plain, text) (.inl rfl),
          @textsFor_cons_of_addresses after plain (plain ++ "[]", text) (.inr rfl)]
      · have plainOther : ¬ Addresses plain key := fun takes => same (eq_of_addresses free listed member (.inl takes))
        have bracketsOther : ¬ Addresses (plain ++ "[]") key := fun takes =>
          same (eq_of_addresses free listed member (.inr takes))
        rw [@textsFor_cons_of_not_addresses after key (plain, text) plainOther,
          @textsFor_cons_of_not_addresses after key (plain ++ "[]", text) bracketsOther]
  | trans _ _ inductionHypothesis inductionHypothesis' =>
      rw [inductionHypothesis', inductionHypothesis]

/-! ## One text -/

/-- A value is there again after the way through JSON. -/
def Survives (c : Codec) (depth : Nat) (t : TypeDef) (v : Value) : Prop :=
  ∃ path path' json, encoder c v t path depth = .ok json ∧ decoder c json t path' depth = .ok v

/-- A definition does not lead to a float. -/
def FloatFree (c : Codec) (t : TypeDef) : Prop :=
  ∀ kind, c.target t = .ok (.primitive kind) → kind.isFloat = false

/-- Where null is read, a string is not the text that stands for null. -/
def Unmistakable (c : Codec) (t : TypeDef) : Value → Prop
  | .str s => c.TakesNull t → s ≠ nullText
  | _ => True

theorem coerce_of_isInteger {kind : PrimitiveKind} {text : String} {n : Int} (isInteger : kind.isInteger = true)
    (read : Decimal.readInt128? text = some n) : coerce text kind path = decodeInteger n kind path := by
  cases kind with
  | boolean | string | timestamp | float32 | float64 =>
      cases isInteger
  | int8 | uint8 | int16 | uint16 | int32 | uint32 | int64 | uint64 =>
      simp [coerce, PrimitiveKind.isFloat, read]

theorem readInt128?_nullText : Decimal.readInt128? nullText = none := by
  decide

theorem ofText?_nullText : Timestamp.ofText? nullText = none := by
  decide

/-- The digits of an integer that is written at its kind are read as the integer. -/
theorem coerce_toString {kind : PrimitiveKind} {n : Int} {json : Json} {v : Value} {path' : String}
    (notFloat : kind.isFloat = false) (encoded : encodeIntegerAt v n (.primitive kind) path = .ok json)
    (decoded : decodeScalar json (.primitive kind) path' = .ok v) :
    (∀ path, coerce (toString n) kind path = .ok v) ∧ toString n ≠ nullText := by
  cases isInteger : kind.isInteger with
  | false =>
      simp [encodeIntegerAt, notFloat, isInteger, encodeMismatch] at encoded
  | true =>
      simp only [encodeIntegerAt, notFloat, isInteger, Bool.false_eq_true, if_false, if_true] at encoded
      obtain ⟨inRange, _⟩ := encodeInteger_eq_ok_iff.1 encoded
      obtain ⟨least, most⟩ := PrimitiveKind.bounds_of_inRange isInteger inRange
      have read : Decimal.readInt128? (toString n) = some n := Decimal.readInt128?_toString (by omega) (by omega)
      have same : v = canonicalInteger n kind := by
        have decodedAgain := (decodeScalar_encodeInteger path' isInteger encoded).2
        rw [decoded] at decodedAgain
        exact Except.ok.inj decodedAgain
      refine ⟨fun path => ?_, fun isNull => ?_⟩
      · rw [coerce_of_isInteger isInteger read, decodeInteger_of_inRange isInteger inRange, same]
      · rw [isNull, readInt128?_nullText] at read
        cases read

/-- The text of a scalar that survives at a kind other than float is read as the scalar. -/
theorem coerce_queryText {kind : PrimitiveKind} {json : Json} {path' : String} (notFloat : kind.isFloat = false)
    (encoded : encodeScalar v (.primitive kind) path = .ok json)
    (decoded : decodeScalar json (.primitive kind) path' = .ok v) :
    (∀ path, coerce (queryText v) kind path = .ok v) ∧ (queryText v = nullText → v = .str nullText) := by
  generalize form : Form.primitive kind = formed at encoded
  unfold encodeScalar at encoded
  split at encoded
  case h_1 b =>
    cases form
    have notNull : queryText (.bool b) ≠ nullText := by
      cases b <;> decide
    refine ⟨fun path => ?_, fun isNull => absurd isNull notNull⟩
    cases b <;> simp [coerce, queryText]
  case h_2 s =>
    cases form
    exact ⟨fun path => rfl, fun same => congrArg Value.str same⟩
  case h_3 =>
    cases form
  case h_4 t =>
    cases form
    cases encoded
    rw [decodeScalar_timestamp, decodeTimestamp] at decoded
    split at decoded
    · next read =>
      cases decoded
      refine ⟨fun path => ?_, fun isNull => ?_⟩
      · simp only [queryText, coerce, decodeTimestamp, read]
      · rw [queryText] at isNull
        rw [isNull, ofText?_nullText] at read
        cases read
    · cases decoded
  case h_5 =>
    cases form
    cases notFloat
  case h_6 =>
    cases form
    cases notFloat
  case h_7 n =>
    subst form
    obtain ⟨read, notNull⟩ := coerce_toString notFloat encoded decoded
    exact ⟨read, fun isNull => absurd isNull notNull⟩
  case h_8 n =>
    subst form
    obtain ⟨read, notNull⟩ := coerce_toString notFloat encoded decoded
    exact ⟨read, fun isNull => absurd isNull notNull⟩
  case h_9 =>
    cases form
  case h_10 =>
    exact absurd encoded encodeMismatch_ne_ok

theorem target_of_resolved {target : TypeDef} (resolved : c.definitions.resolve t = .ok target) :
    c.target t = .ok target.form :=
  target_eq_ok_iff.2 ⟨target, resolved, rfl⟩

/-- At a scalar form only null and scalars survive. -/
theorem exists_of_survives {target : TypeDef} (resolved : c.definitions.resolve t = .ok target)
    (isScalar : target.form.IsScalar) (survives : c.Survives depth t v) :
    v = .null ∧ t.nullable = true ∨
      v ≠ .null ∧ ∃ path path' json, encodeScalar v target.form path = .ok json ∧
        decodeScalar json target.form path' = .ok v := by
  obtain ⟨path, path', json, encoded, decoded⟩ := survives
  have reached := target_of_resolved resolved
  have scalarForm : (∃ kind, target.form = .primitive kind) ∨ ∃ listed, target.form = .enumeration listed := by
    cases form : target.form with
    | primitive kind =>
        exact .inl ⟨kind, rfl⟩
    | enumeration listed =>
        exact .inr ⟨listed, rfl⟩
    | any | elements | values | object | ref | union =>
        rw [form] at isScalar
        exact isScalar.elim
  by_cases isNull : json = .null
  · subst isNull
    rcases decoder_null_eq_ok_iff.1 decoded with ⟨nullable, rfl⟩ | ⟨_, isAny, _⟩
    · exact .inl ⟨rfl, nullable⟩
    · have carried : c.target t = .ok .any := target_of_form (isAny_iff.1 isAny) (by rintro name ⟨⟩)
      rw [carried] at reached
      rw [← Except.ok.inj reached] at isScalar
      exact isScalar.elim
  · have decodedScalar := (decoder_scalar_eq_ok_iff reached scalarForm isNull).1 decoded
    have scalar := isScalar_of_decodeScalar decodedScalar
    have notNull : v ≠ .null := by
      rintro rfl
      exact scalar
    obtain ⟨form, reached', encodedScalar⟩ := (encoder_scalar_eq_ok_iff scalar).1 encoded
    rw [reached] at reached'
    cases reached'
    exact .inr ⟨notNull, path, path', json, encodedScalar, decodedScalar⟩

theorem takesNull_of_nullable {target : TypeDef} (resolved : c.definitions.resolve t = .ok target)
    (isScalar : target.form.IsScalar) (nullable : (t.nullable || target.nullable) = true) : c.TakesNull t :=
  ⟨target, resolved, isAny_eq_false_of_isScalar isScalar, by rwa [Bool.or_eq_true] at nullable⟩

theorem queryScalar_of_ne_null {target : TypeDef} {text : String} (resolved : c.definitions.resolve t = .ok target)
    (isScalar : target.form.IsScalar) (notNull : c.TakesNull t → text ≠ nullText) :
    c.queryScalar text t path =
      match target.form with
      | .primitive kind => coerce text kind path
      | .enumeration values => if values.contains text then .ok (.str text) else .error (.unknownEnumValue path text)
      | _ => .error (.typeMismatch path target.kindName "string") := by
  have other : (text == nullText && (t.nullable || target.nullable)) = false := by
    cases nullable : t.nullable || target.nullable with
    | false =>
        exact Bool.and_false _
    | true =>
        rw [beq_false_of_ne (notNull (takesNull_of_nullable resolved isScalar nullable))]
        rfl
  unfold queryScalar
  rw [Except.bind_of_eq_ok (resolved_eq_ok_iff.2 resolved), other]
  rfl

/-- The text of a scalar that survives is read as the scalar. -/
theorem queryScalar_queryText (ends : c.definitions.EndsInScalar t) (floatFree : c.FloatFree t)
    (survives : c.Survives depth t v) (unmistakable : c.Unmistakable t v) :
    (∀ path, c.queryScalar (queryText v) t path = .ok v) ∧
      (queryText v = nullText → v = .null ∨ v = .str nullText) := by
  obtain ⟨target, resolved, isScalar⟩ := ends
  rcases exists_of_survives resolved isScalar survives with ⟨rfl, nullable⟩ | ⟨notNull, _, _, json, encoded, decoded⟩
  · refine ⟨fun path => ?_, fun _ => .inl rfl⟩
    unfold queryScalar
    rw [Except.bind_of_eq_ok (resolved_eq_ok_iff.2 resolved), nullable]
    rfl
  · -- a text that stands for null is that of a string
    have both : (∀ path, (c.TakesNull t → queryText v ≠ nullText) → c.queryScalar (queryText v) t path = .ok v) ∧
        (queryText v = nullText → v = .str nullText) := by
      cases form : target.form with
      | primitive kind =>
          rw [form] at encoded decoded
          have reached : c.target t = .ok (.primitive kind) := form ▸ target_of_resolved resolved
          obtain ⟨read, isString⟩ := coerce_queryText (floatFree kind reached) encoded decoded
          refine ⟨fun path apart => ?_, isString⟩
          rw [queryScalar_of_ne_null resolved isScalar apart, form]
          exact read path
      | enumeration listed =>
          rw [form] at encoded decoded
          obtain ⟨s, member, rfl⟩ := exists_decodeScalar_enumeration_iff.1 ⟨v, decoded⟩
          have same : v = .str s := by
            simp only [decodeScalar, List.contains_iff_mem, member, if_true, Except.ok.injEq] at decoded
            exact decoded.symm
          subst same
          refine ⟨fun path apart => ?_, fun isNull => congrArg Value.str isNull⟩
          rw [queryScalar_of_ne_null resolved isScalar apart, form]
          simp [queryText, member]
      | any | elements | values | object | ref | union =>
          rw [form] at isScalar
          exact isScalar.elim
    refine ⟨fun path => both.1 path fun takes isNull => ?_, fun isNull => .inr (both.2 isNull)⟩
    rw [both.2 isNull] at unmistakable
    exact unmistakable takes rfl

/-! ## The texts of a field -/

/-- A field can be told from its texts: an array has items, and where null is read neither a string nor an array with one
item looks like it. -/
def Expressible (c : Codec) (t : TypeDef) : Value → Prop
  | .array items =>
      items ≠ [] ∧ (c.TakesNull t → items ≠ [.null] ∧ items ≠ [.str nullText]) ∧
        ∀ item, c.target t = .ok (.elements item) → ∀ v ∈ items, c.Unmistakable item v
  | v => c.Unmistakable t v

theorem queryItems_queryText (ends : c.definitions.EndsInScalar item) (floatFree : c.FloatFree item) {vs : List Value}
    (survive : ∀ v ∈ vs, c.Survives depth item v) (unmistakable : ∀ v ∈ vs, c.Unmistakable item v) (index : Nat) :
    c.queryItems item path index (vs.map queryText) = .ok vs := by
  induction vs generalizing index with
  | nil =>
      rfl
  | cons head tail inductionHypothesis =>
      obtain ⟨survivesHead, surviveTail⟩ := List.forall_mem_cons.1 survive
      obtain ⟨unmistakableHead, unmistakableTail⟩ := List.forall_mem_cons.1 unmistakable
      obtain ⟨readHead, _⟩ := queryScalar_queryText ends floatFree survivesHead unmistakableHead
      exact Except.bind_eq_ok_iff.2 ⟨head, readHead _,
        Except.bind_eq_ok_iff.2 ⟨tail, inductionHypothesis surviveTail unmistakableTail (index + 1), rfl⟩⟩

/-- The items of an array that survives survive themselves. -/
theorem survives_of_items {vs : List Value} {path' : String} {index index' : Nat} {jsons : List Json}
    (encoded : encodeItems c item path depth index vs = .ok jsons)
    (decoded : decodeItems c item path' depth index' jsons = .ok vs) : ∀ v ∈ vs, c.Survives depth item v := by
  induction vs generalizing index index' jsons with
  | nil =>
      exact List.forall_mem_nil _
  | cons head tail inductionHypothesis =>
      obtain ⟨json, encodedHead, rest⟩ := Except.bind_eq_ok_iff.1 encoded
      obtain ⟨others, encodedTail, written⟩ := Except.bind_eq_ok_iff.1 rest
      cases written
      obtain ⟨v, decodedHead, rest⟩ := Except.bind_eq_ok_iff.1 decoded
      obtain ⟨vs, decodedTail, made⟩ := Except.bind_eq_ok_iff.1 rest
      cases made
      exact List.forall_mem_cons.2 ⟨⟨_, _, json, encodedHead, decodedHead⟩, inductionHypothesis encodedTail decodedTail⟩

/-- At an array form only null and arrays of what survives survive. -/
theorem exists_of_survives_elements (reached : c.target t = .ok (.elements item)) (survives : c.Survives depth t v) :
    v = .null ∧ t.nullable = true ∨ ∃ vs, v = .array vs ∧ ∀ v ∈ vs, c.Survives (depth + 1) item v := by
  obtain ⟨path, path', json, encoded, decoded⟩ := survives
  by_cases isNull : json = .null
  · subst isNull
    rcases decoder_null_eq_ok_iff.1 decoded with ⟨nullable, rfl⟩ | ⟨_, isAny, _⟩
    · exact .inl ⟨rfl, nullable⟩
    · have carried : c.target t = .ok .any := target_of_form (isAny_iff.1 isAny) (by rintro name ⟨⟩)
      rw [carried] at reached
      cases reached
  · obtain ⟨jsons, rfl, _, vs, decodedItems, rfl⟩ := (decoder_elements_eq_ok_iff reached isNull).1 decoded
    obtain ⟨item', reached', _, jsons', encodedItems, same⟩ := encoder_array_eq_ok_iff.1 encoded
    rw [reached] at reached'
    cases reached'
    cases same
    exact .inr ⟨vs, rfl, survives_of_items encodedItems decodedItems⟩

/-- The texts of a field are read as the field. -/
theorem exists_queryValue_queryTexts (carries : c.definitions.Carries t) (floatFree : c.FloatFree t)
    (floatFreeItems : ∀ item, c.target t = .ok (.elements item) → c.FloatFree item) (survives : c.Survives depth t v)
    (expressible : c.Expressible t v) :
    ∃ first others, queryTexts v = first :: others ∧ ∀ path, c.queryValue first others t path = .ok v := by
  obtain ⟨target, resolved, isScalar | ⟨item, form, ends⟩⟩ := carries
  · have plain : queryTexts v = [queryText v] ∧ c.Unmistakable t v := by
      cases v with
      | array items =>
          rcases exists_of_survives resolved isScalar survives with ⟨impossible, _⟩ | ⟨_, path, path', json, encoded, _⟩
          · cases impossible
          · cases formed : target.form <;> rw [formed] at encoded <;> cases encoded
      | absent | null | bool | int | uint | float | str | timestamp | map | object | union | any =>
          exact ⟨rfl, expressible⟩
    refine ⟨queryText v, [], plain.1, fun path => ?_⟩
    rw [queryValue_of_isScalar resolved isScalar]
    exact (queryScalar_queryText ⟨target, resolved, isScalar⟩ floatFree survives plain.2).1 path
  · have reached : c.target t = .ok (.elements item) := form ▸ target_of_resolved resolved
    rcases exists_of_survives_elements reached survives with ⟨rfl, nullable⟩ | ⟨vs, rfl, survive⟩
    · refine ⟨nullText, [], rfl, fun path => ?_⟩
      rw [queryValue_of_elements resolved form, nullable]
      rfl
    · obtain ⟨notEmpty, apart, unmistakable⟩ := expressible
      obtain ⟨first, rest, rfl⟩ := List.exists_cons_of_ne_nil notEmpty
      have readItems : ∀ path, c.queryItems item path 0 ((first :: rest).map queryText) = .ok (first :: rest) :=
        fun path => queryItems_queryText ends (floatFreeItems item reached) survive (unmistakable item reached) 0
      refine ⟨queryText first, rest.map queryText, rfl, fun path => ?_⟩
      have notNull : ((t.nullable || target.nullable) && queryText first == nullText && (rest.map queryText).isEmpty) =
          false := by
        by_contra looksNull
        rw [Bool.not_eq_false, Bool.and_eq_true, Bool.and_eq_true, Bool.or_eq_true, beq_iff_eq, List.isEmpty_iff,
          List.map_eq_nil_iff] at looksNull
        obtain ⟨⟨nullable, isNull⟩, rfl⟩ := looksNull
        have takes : c.TakesNull t := ⟨target, resolved, by rw [isAny, form], nullable⟩
        obtain ⟨notNull, notString⟩ := apart takes
        have looks := (queryScalar_queryText ends (floatFreeItems item reached) (survive first List.mem_cons_self)
          (unmistakable item reached first List.mem_cons_self)).2 isNull
        rcases looks with rfl | rfl
        · exact notNull rfl
        · exact notString rfl
      rw [queryValue_of_elements resolved form, notNull]
      exact Except.bind_eq_ok_iff.2 ⟨_, readItems path, rfl⟩

/-! ## Records -/

theorem textsFor_of_forall_not {key : String} (other : ∀ pair ∈ pairs, ¬ Addresses pair.1 key) :
    textsFor key pairs = [] := by
  induction pairs with
  | nil =>
      rfl
  | cons head tail inductionHypothesis =>
      obtain ⟨otherHead, otherTail⟩ := List.forall_mem_cons.1 other
      rw [textsFor_cons_of_not_addresses otherHead]
      exact inductionHypothesis otherTail

theorem textsFor_map {key : String} (texts : List String) : textsFor key (texts.map (key, ·)) = texts := by
  induction texts with
  | nil =>
      rfl
  | cons head tail inductionHypothesis =>
      rw [List.map_cons, @textsFor_cons_of_addresses _ key (key, head) (.inl rfl), inductionHypothesis]

/-- Every property finds its own texts among the pairs. -/
theorem textsFor_queryPairs {fields : Entries Value} (distinct : (Form.wireKeys c.casing properties).Nodup)
    (free : BracketFree (Form.wireKeys c.casing properties)) {p : Property TypeDef} (declared : p ∈ properties) :
    textsFor (c.key p.name) (c.queryPairs fields properties) =
      ((Value.present? p.name fields).map queryTexts).getD [] := by
  -- pairs of other properties are passed over
  have others : ∀ rest : List (Property TypeDef), (∀ q ∈ rest, q ∈ properties ∧ c.key q.name ≠ c.key p.name) →
      textsFor (c.key p.name) (c.queryPairs fields rest) = [] := by
    intro rest other
    refine textsFor_of_forall_not fun pair member takes => ?_
    obtain ⟨q, listed, inGroup⟩ := List.mem_flatMap.1 member
    obtain ⟨text, _, rfl⟩ := List.mem_map.1 inGroup
    obtain ⟨declaredOther, different⟩ := other q listed
    exact different (eq_of_addresses free (mem_wireKeys declaredOther) (mem_wireKeys declared) (.inl takes))
  obtain ⟨before, after, rfl⟩ := List.append_of_mem declared
  rw [Form.wireKeys, List.map_append, List.map_cons] at distinct
  obtain ⟨freshBefore, freshAfter⟩ : c.key p.name ∉ before.map (fun q => c.key q.name) ∧
      c.key p.name ∉ after.map (fun q => c.key q.name) := by
    obtain ⟨fresh, _⟩ := List.nodup_cons.1 (List.perm_middle.nodup_iff.1 distinct)
    rw [List.mem_append, not_or] at fresh
    exact fresh
  have split : c.queryPairs fields (before ++ p :: after) =
      c.queryPairs fields before ++ ((((Value.present? p.name fields).map queryTexts).getD []).map (c.key p.name, ·) ++
        c.queryPairs fields after) := by
    rw [queryPairs, List.flatMap_append, List.flatMap_cons]
    rfl
  rw [split, textsFor_append, textsFor_append, textsFor_map, others before fun q listed => ?_,
    others after fun q listed => ?_, List.nil_append, List.append_nil]
  · exact ⟨List.mem_append_right _ (List.mem_cons_of_mem _ listed),
      fun same => freshAfter (same ▸ List.mem_map_of_mem listed)⟩
  · exact ⟨List.mem_append_left _ listed, fun same => freshBefore (same ▸ List.mem_map_of_mem listed)⟩

/-- What there is for each property is read into the fields, when texts are given for it or it may be missing. -/
theorem queryProperties_eq_ok {part? : Property TypeDef → Option Value} {done : Entries Value}
    (each : ∀ p ∈ properties,
      part? p = none ∧ textsFor (c.key p.name) sent = [] ∧ p.optional = true ∨
        ∃ v first others, part? p = some v ∧ textsFor (c.key p.name) sent = first :: others ∧
          c.queryValue first others p.type (c.propertyPath rootPath p) = .ok v) :
    c.queryProperties sent done properties =
      .ok ((collect Property.name part? properties).foldl (fun entries (key, value) => entries.insert key value) done) := by
  induction properties generalizing done with
  | nil =>
      rfl
  | cons head tail inductionHypothesis =>
      obtain ⟨eachHead, eachTail⟩ := List.forall_mem_cons.1 each
      rw [collect_cons, List.foldl_append]
      rcases eachHead with ⟨nothing, given, optional⟩ | ⟨v, first, others, found, given, read⟩
      · rw [queryProperties_of_missing given, optional, if_pos rfl, nothing, inductionHypothesis eachTail]
        rfl
      · rw [queryProperties_of_given given, read, found]
        exact inductionHypothesis eachTail

/-- What is read of a record for a property is the field that was written for it; of nothing written, nothing is read. -/
theorem survives_of_fields {fields : Entries Value} {members : Json.Members} {path path' : String}
    (distinctNames : (properties.map Property.name).Nodup)
    (written : ∀ p ∈ properties, FieldWritten c fields path depth p)
    (agree : ∀ p ∈ properties, members.get? (c.key p.name) = c.writtenJson? fields path depth p)
    (read : ∀ p ∈ properties, FieldRead c members path' depth p)
    (same : fields = Entries.ofPairs (readFields c members path' depth properties)) :
    ∀ p ∈ properties, c.readValue? members path' depth p = none ∧ Value.present? p.name fields = none ∧ p.optional = true ∨
      ∃ v, c.readValue? members path' depth p = some v ∧ Value.present? p.name fields = some v ∧
        Entries.find? p.name fields = some v ∧ c.Survives depth p.type v := by
  intro p declared
  have distinctKeys : ((readFields c members path' depth properties).map Prod.fst).Nodup :=
    keys_collect_sublist.nodup distinctNames
  have stored : Entries.find? p.name fields = c.readValue? members path' depth p := by
    rw [same, Entries.find?_ofPairs distinctKeys, readFields, lookup_collect distinctNames declared]
  have writtenHere := written p declared
  have readHere := read p declared
  have agreeHere := agree p declared
  cases present : Value.present? p.name fields with
  | none =>
      have nothing : c.writtenJson? fields path depth p = none := by
        simp [writtenJson?, present]
      rw [nothing] at agreeHere
      refine .inl ⟨?_, rfl, (fieldWritten_of_missing present).1 writtenHere⟩
      simp [readValue?, agreeHere]
  | some v =>
      obtain ⟨json, encoded⟩ := (fieldWritten_of_present present).1 writtenHere
      have something : c.writtenJson? fields path depth p = some json := by
        simp [writtenJson?, present, encoded, Except.toOption]
      rw [something] at agreeHere
      obtain ⟨v', decoded⟩ := (fieldRead_of_found agreeHere).1 readHere
      have readValue : c.readValue? members path' depth p = some v' := by
        simp [readValue?, agreeHere, decoded, Except.toOption]
      rw [readValue] at stored
      have equal : v' = v := by
        rw [Value.present?, stored] at present
        exact Option.some.inj (Option.filter_eq_some_iff.1 present).1
      subst equal
      exact .inr ⟨v', readValue, rfl, stored, _, _, json, encoded, decoded⟩

/-- Every record that survives the way through JSON can be sent as query pairs, in any order of pairs of different properties
and with or without brackets, when texts can tell its fields. -/
theorem exists_decodeQuery_eq {fields : Entries Value} (passes : c.definitions.queryFault? t = none)
    (record : c.target t = .ok (.object properties)) (distinct : (Form.wireKeys c.casing properties).Nodup)
    (free : BracketFree (Form.wireKeys c.casing properties)) (floatFree : ∀ p ∈ properties, c.FloatFree p.type)
    (floatFreeItems : ∀ p ∈ properties, ∀ item, c.target p.type = .ok (.elements item) → c.FloatFree item)
    (canonical : ∃ json, c.encodeJson (.object fields) t = .ok json ∧ c.decodeJson json t = .ok (.object fields))
    (expressible : ∀ p ∈ properties, ∀ v, Entries.find? p.name fields = some v → c.Expressible p.type v) :
    ∃ pairs, ∀ sent, Rearranged (Form.wireKeys c.casing properties) pairs sent →
      c.decodeQuery sent t = .ok (.object fields) := by
  obtain ⟨properties', reached, carries⟩ := queryFault?_eq_none_iff.1 passes
  rw [record] at reached
  cases reached
  obtain ⟨json, encoded, decoded⟩ := canonical
  obtain ⟨_, reached, _, members, encodedFields, rfl⟩ := encoder_object_eq_ok_iff.1 encoded
  rw [record] at reached
  cases reached
  obtain ⟨_, sameMembers, _, _, decodedFields, sameFields⟩ :=
    (decoder_object_eq_ok_iff record (Json.obj_ne_null members)).1 decoded
  cases sameMembers
  cases sameFields
  obtain ⟨written, collected⟩ := encodeProperties_eq_ok_iff.1 encodedFields
  have made := collected.trans (Json.Members.ofPairs_of_nodup (nodup_keys_writtenMembers distinct))
  obtain ⟨read, same⟩ := (decodeProperties_object_eq_ok_iff distinct).1 decodedFields
  have agree : ∀ p ∈ properties, Json.Members.get? (c.key p.name) members = c.writtenJson? fields rootPath 1 p := by
    intro p declared
    rw [made]
    exact get?_writtenMembers distinct declared
  have survive := survives_of_fields (nodup_names_of_nodup_wireKeys distinct) written agree read same
  refine ⟨c.queryPairs fields properties, fun sent rearranged => ?_⟩
  have each : ∀ p ∈ properties,
      c.readValue? members rootPath 1 p = none ∧ textsFor (c.key p.name) sent = [] ∧ p.optional = true ∨
        ∃ v first others, c.readValue? members rootPath 1 p = some v ∧
          textsFor (c.key p.name) sent = first :: others ∧
          c.queryValue first others p.type (c.propertyPath rootPath p) = .ok v := by
    intro p declared
    have texts : textsFor (c.key p.name) sent = ((Value.present? p.name fields).map queryTexts).getD [] :=
      (rearranged.textsFor_eq free (mem_wireKeys declared)).trans (textsFor_queryPairs distinct free declared)
    rcases survive p declared with ⟨nothing, missing, optional⟩ | ⟨v, found, present, stored, survives⟩
    · rw [missing] at texts
      exact .inl ⟨nothing, texts, optional⟩
    · rw [present] at texts
      obtain ⟨first, others, textsOf, readTexts⟩ := exists_queryValue_queryTexts (carries p declared)
        (floatFree p declared) (floatFreeItems p declared) survives (expressible p declared v stored)
      exact .inr ⟨v, first, others, found, texts.trans textsOf, readTexts _⟩
  rw [decodeQuery_of_object record, queryProperties_eq_ok each]
  exact congrArg (fun entries => Except.ok (Value.object entries)) same.symm

def searchProperties : List (Property TypeDef) :=
  [⟨"min_level", (TypeDef.ref "Grade").withNullable true, false⟩, ⟨"seen_before", .primitive .timestamp, true⟩,
    ⟨"row_ids", .elements ((TypeDef.primitive .int64).withNullable true), true⟩]

def searchFields : Entries Value :=
  [("min_level", .null), ("row_ids", .array [.int (-9223372036854775808), .null, .int 7])]

def searchJson : Json :=
  .obj [("minLevel", .null), ("rowIds", .arr [.str "-9223372036854775808", .null, .str "7"])]

theorem exists_decodeQuery_eq_search :
    gradeCodec.definitions.queryFault? (.object searchProperties) = none ∧
      gradeCodec.encodeJson (.object searchFields) (.object searchProperties) = .ok searchJson ∧
      gradeCodec.decodeJson searchJson (.object searchProperties) = .ok (.object searchFields) ∧
      ∃ pairs, ∀ sent, Rearranged (Form.wireKeys gradeCodec.casing searchProperties) pairs sent →
        gradeCodec.decodeQuery sent (.object searchProperties) = .ok (.object searchFields) := by
  have passes : gradeCodec.definitions.queryFault? (.object searchProperties) = none := rfl
  have encoded : gradeCodec.encodeJson (.object searchFields) (.object searchProperties) = .ok searchJson := by rfl
  have decoded : gradeCodec.decodeJson searchJson (.object searchProperties) = .ok (.object searchFields) := by rfl
  refine ⟨passes, encoded, decoded, exists_decodeQuery_eq passes rfl (by decide) ?_ ?_ ?_ ⟨_, encoded, decoded⟩ ?_⟩
  · unfold BracketFree
    decide
  · refine List.forall_mem_cons.2 ⟨?_, List.forall_mem_cons.2 ⟨?_, List.forall_mem_singleton.2 ?_⟩⟩ <;>
      rintro kind reached <;> cases reached
    rfl
  · refine List.forall_mem_cons.2 ⟨?_, List.forall_mem_cons.2 ⟨?_, List.forall_mem_singleton.2 ?_⟩⟩ <;>
      rintro item reached <;> cases reached
    rintro kind reached
    cases reached
    rfl
  · refine List.forall_mem_cons.2 ⟨?_, List.forall_mem_cons.2 ⟨?_, List.forall_mem_singleton.2 ?_⟩⟩ <;>
      rintro v found <;> cases found
    · trivial
    · refine ⟨List.cons_ne_nil _ _, fun _ => ⟨?_, ?_⟩, fun item _ => ?_⟩
      · rintro ⟨⟩
      · rintro ⟨⟩
      · exact List.forall_mem_cons.2 ⟨trivial, List.forall_mem_cons.2 ⟨trivial, List.forall_mem_singleton.2 trivial⟩⟩

/-- The pairs of the search, the array first and in part with brackets. -/
example : Rearranged ["minLevel", "rowIds"] [("minLevel", "null"), ("rowIds", "7"), ("rowIds", "null")]
    [("rowIds", "7"), ("minLevel", "null"), ("rowIds[]", "null")] := by
  have apart : ∀ key ∈ ["minLevel", "rowIds"], ¬ (Addresses "minLevel" key ∧ Addresses "rowIds" key) := by
    unfold Addresses
    decide
  have moved : Rearranged ["minLevel", "rowIds"] [("minLevel", "null"), ("rowIds", "7"), ("rowIds", "null")]
      [("rowIds", "7"), ("minLevel", "null"), ("rowIds", "null")] :=
    @Rearranged.swap _ [] [("rowIds", "null")] ("minLevel", "null") ("rowIds", "7") apart
  have bracketed : Rearranged ["minLevel", "rowIds"] [("rowIds", "7"), ("minLevel", "null"), ("rowIds", "null")]
      [("rowIds", "7"), ("minLevel", "null"), ("rowIds[]", "null")] :=
    @Rearranged.bracket _ [("rowIds", "7"), ("minLevel", "null")] [] "rowIds" "null" (by decide)
  exact moved.trans bracketed

end SchemaRpc.Codec
