import Mathlib.Data.List.Forall2
import SchemaRpc.Proofs.Codec.Scalars
import SchemaRpc.Typed.Reading

/-!
# When reading succeeds

One equation for each kind of type: a wrapper looks at what is missing and hands the rest to the type inside, and what has
parts is read part by part. Fields are taken out one after the other; under different names each is read by itself.
-/

namespace SchemaRpc

/-- What is found for each element of a list is found for all of them. -/
theorem exists_forall₂ {α β : Type} {R : α → β → Prop} {as : List α} (each : ∀ a ∈ as, ∃ b, R a b) :
    ∃ bs, List.Forall₂ R as bs := by
  induction as with
  | nil =>
      exact ⟨[], .nil⟩
  | cons head tail inductionHypothesis =>
      obtain ⟨eachHead, eachTail⟩ := List.forall_mem_cons.1 each
      obtain ⟨b, related⟩ := eachHead
      obtain ⟨bs, others⟩ := inductionHypothesis eachTail
      exact ⟨b :: bs, .cons related others⟩

/-- Elements of two lists that are related are related by what that implies for each of the first. -/
theorem forall₂_imp_of_mem {α β : Type} {R S : α → β → Prop} {as : List α} {bs : List β}
    (related : List.Forall₂ R as bs) (implied : ∀ a ∈ as, ∀ b, R a b → S a b) : List.Forall₂ S as bs := by
  induction related with
  | nil =>
      exact .nil
  | cons head _ inductionHypothesis =>
      obtain ⟨impliedHead, impliedTail⟩ := List.forall_mem_cons.1 implied
      exact .cons (impliedHead _ head) (inductionHypothesis impliedTail)

theorem map_eq_of_forall₂ {α β γ : Type} {f : α → γ} {g : β → γ} {as : List α} {bs : List β}
    (related : List.Forall₂ (fun a b => g b = f a) as bs) : bs.map g = as.map f := by
  induction related with
  | nil =>
      rfl
  | cons head _ inductionHypothesis =>
      rw [List.map_cons, List.map_cons, head, inductionHypothesis]

namespace Datum

variable {n : Nat} {types : TypeCatalog n} {v : Value} {inner item : Ty n} {slot : Fin n}

/-! ## Wrappers -/

theorem reader_option :
    reader types v (.option inner) =
      if v.isNull || v.isAbsent then .ok .null else (reader types v inner).map .present := by
  cases v <;> rfl

theorem reader_optional :
    reader types v (.optional inner) = if v.isAbsent then .ok .absent else (reader types v inner).map .present := by
  cases v <;> rfl

theorem reader_field :
    reader types v (.field inner) =
      if v.isAbsent then .ok .absent
      else if v.isNull then .ok .null
      else (reader types v inner).map .present := by
  cases v <;> rfl

/-! ## Items and entries -/

theorem reader_list {items : List Value} :
    reader types (.array items) (.list item) = (ofItems types item 0 items).map .list :=
  rfl

theorem reader_map {entries : List (String × Value)} :
    reader types (.map entries) (.map item) = (ofEntries types item entries).map .map :=
  rfl

theorem ofItems_eq_ok_iff {items : List Value} {index : Nat} {data : List Datum} :
    ofItems types item index items = .ok data ↔
      List.Forall₂ (fun v d => reader types v item = .ok d) items data := by
  induction items generalizing index data with
  | nil =>
      simp [ofItems, eq_comm]
  | cons head tail inductionHypothesis =>
      rw [List.forall₂_cons_left_iff]
      cases read : reader types head item with
      | error error =>
          simp [ofItems, read]
      | ok d =>
          simp [ofItems, read, Except.map_eq_ok_iff, inductionHypothesis]

theorem ofEntries_eq_ok_iff {entries : List (String × Value)} {data : List (String × Datum)} :
    ofEntries types item entries = .ok data ↔
      List.Forall₂ (fun entry pair => pair.1 = entry.1 ∧ reader types entry.2 item = .ok pair.2) entries data := by
  induction entries generalizing data with
  | nil =>
      simp [ofEntries, eq_comm]
  | cons head tail inductionHypothesis =>
      obtain ⟨key, v⟩ := head
      rw [List.forall₂_cons_left_iff]
      cases read : reader types v item with
      | error error =>
          simp [ofEntries, read]
      | ok d =>
          simp [ofEntries, read, Except.map_eq_ok_iff, inductionHypothesis]

/-! ## Fields -/

/-- A field that is not there reads as one that is absent. -/
theorem getD_find?_fieldReaders (name : String) (fields : List (String × Value)) :
    ((fieldReaders types fields).find? name).getD (ofPlain types .absent) =
      reader types (Value.field name fields) := by
  induction fields with
  | nil =>
      rfl
  | cons head tail inductionHypothesis =>
      obtain ⟨key, v⟩ := head
      by_cases same : key = name
      · simp [fieldReaders, Value.field, same]
      · simpa [fieldReaders, Value.field, same] using inductionHypothesis

/-- The declared fields with what is read for each. -/
def FieldsRead (types : TypeCatalog n) (fields : Entries Value) (declared : List (FieldDecl (Ty n)))
    (data : List (String × Datum)) : Prop :=
  List.Forall₂ (fun field pair =>
    pair.1 = field.name ∧ reader types (Value.field field.name fields) field.type = .ok pair.2) declared data

theorem ofFields_eq_ok_iff {readers : Entries (Reader n)} {fields : Entries Value} {declared : List (FieldDecl (Ty n))}
    {data : List (String × Datum)} (distinct : (declared.map FieldDecl.name).Nodup)
    (agree : ∀ field ∈ declared,
      (readers.find? field.name).getD (ofPlain types .absent) = reader types (Value.field field.name fields)) :
    ofFields types readers declared = .ok data ↔ FieldsRead types fields declared data := by
  induction declared generalizing readers data with
  | nil =>
      simp [ofFields, FieldsRead, eq_comm]
  | cons head tail inductionHypothesis =>
      obtain ⟨fresh, distinct⟩ := List.nodup_cons.1 distinct
      obtain ⟨agreeHead, agreeTail⟩ := List.forall_mem_cons.1 agree
      -- what is taken out is no field further down
      have agreeErased : ∀ field ∈ tail,
          ((readers.erase head.name).find? field.name).getD (ofPlain types .absent) =
            reader types (Value.field field.name fields) := by
        intro field member
        have different : field.name ≠ head.name := fun same => fresh (same ▸ List.mem_map_of_mem member)
        rw [Entries.find?_erase_of_ne different]
        exact agreeTail field member
      rw [FieldsRead, List.forall₂_cons_left_iff, ofFields]
      simp only [agreeHead]
      cases read : reader types (Value.field head.name fields) head.type with
      | error error =>
          simp
      | ok d =>
          simp [Except.map_eq_ok_iff, inductionHypothesis distinct agreeErased, FieldsRead]

theorem reader_record {fields : List (String × Value)} {declared : List (FieldDecl (Ty n))}
    {data : List (String × Datum)} (members : (types.get slot).members = .record declared)
    (distinct : (declared.map FieldDecl.name).Nodup) (read : FieldsRead types fields declared data) :
    reader types (.object fields) (.declared slot) = .ok (.record data) := by
  have unfolded : reader types (.object fields) (.declared slot) =
      ofObject types (.object fields) (fieldReaders types fields) (.declared slot) := rfl
  have readFields := (ofFields_eq_ok_iff distinct fun field _ => getD_find?_fieldReaders field.name fields).2 read
  rw [unfolded, ofObject, members]
  simp only [readFields, Except.map]

theorem reader_variant {tag key : String} {fields : List (String × Value)} {variants : List (VariantDecl (Ty n))}
    {found : VariantDecl (Ty n)} {data : List (String × Datum)} (members : (types.get slot).members = .union key variants)
    (listed : variants.find? (fun variant => variant.tag == tag) = some found)
    (distinct : (found.fields.map FieldDecl.name).Nodup) (read : FieldsRead types fields found.fields data) :
    reader types (.union tag fields) (.declared slot) = .ok (.variant tag data) := by
  have unfolded : reader types (.union tag fields) (.declared slot) =
      ofVariant types (.union tag fields) tag (fieldReaders types fields) (.declared slot) := rfl
  have readFields := (ofFields_eq_ok_iff distinct fun field _ => getD_find?_fieldReaders field.name fields).2 read
  rw [unfolded, ofVariant, members]
  simp only [listed, readFields, Except.map]

theorem reader_enumeration {s : String} {listed : List String} (members : (types.get slot).members = .enumeration listed)
    (member : s ∈ listed) : reader types (.str s) (.declared slot) = .ok (.enumeration s) := by
  have unfolded : reader types (.str s) (.declared slot) = ofString types s (.declared slot) := rfl
  rw [unfolded, ofString, members]
  simp [member]

/-! ## Integers -/

/-- The datum of an integer at a kind. -/
def integer (kind : IntKind) (i : Int) : Datum :=
  if kind.toPrimitive.isUnsigned then .unsigned (UInt64.ofNat i.toNat) else .signed (Int64.ofInt i)

theorem isInteger_toPrimitive (kind : IntKind) : kind.toPrimitive.isInteger = true := by
  cases kind <;> rfl

theorem ofInt_of_inRange {kind : IntKind} {i : Int} (inRange : kind.toPrimitive.inRange i = true) :
    ofInt types v i (.int kind) = .ok (integer kind i) := by
  simp only [ofInt, inRange, Bool.not_true, Bool.false_eq_true, if_false, integer]
  cases kind.toPrimitive.isUnsigned <;> rfl

theorem reader_canonicalInteger {kind : IntKind} {i : Int} (inRange : kind.toPrimitive.inRange i = true) :
    reader types (Codec.canonicalInteger i kind.toPrimitive) (.int kind) = .ok (integer kind i) := by
  have isInteger := isInteger_toPrimitive kind
  have notFloat := PrimitiveKind.isFloat_eq_false_of_isInteger isInteger
  cases isUnsigned : kind.toPrimitive.isUnsigned with
  | true =>
      have same : ((UInt64.ofNat i.toNat).toNat : Int) = i :=
        Codec.toNat_ofNat_of_inRange isUnsigned inRange
      have canonicalized : Codec.canonicalInteger i kind.toPrimitive = .uint (UInt64.ofNat i.toNat) := by
        simp [Codec.canonicalInteger, notFloat, isUnsigned]
      have unfolded : reader types (.uint (UInt64.ofNat i.toNat)) (.int kind) =
          ofInt types (.uint (UInt64.ofNat i.toNat)) (UInt64.ofNat i.toNat).toNat (.int kind) := rfl
      rw [canonicalized, unfolded, same]
      exact ofInt_of_inRange inRange
  | false =>
      obtain ⟨least, most⟩ := PrimitiveKind.bounds_of_signed isInteger isUnsigned inRange
      have same : (Int64.ofInt i).toInt = i := Int64.toInt_ofInt_of_le least most
      have canonicalized : Codec.canonicalInteger i kind.toPrimitive = .int (Int64.ofInt i) := by
        simp [Codec.canonicalInteger, notFloat, isUnsigned]
      have unfolded : reader types (.int (Int64.ofInt i)) (.int kind) =
          ofInt types (.int (Int64.ofInt i)) (Int64.ofInt i).toInt (.int kind) := rfl
      rw [canonicalized, unfolded, same]
      exact ofInt_of_inRange inRange

end Datum

end SchemaRpc
