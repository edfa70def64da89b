import SchemaRpc.Proofs.Codec.Canonical
import SchemaRpc.Proofs.Decimal.Digits

/-!
# Scalars there and back

A scalar that encodes is read back in canonical form, and its canonical form has the same encoding.
-/

namespace SchemaRpc

namespace PrimitiveKind

variable {kind : PrimitiveKind} {n : Int}

theorem bounds_of_unsigned (unsigned : kind.isUnsigned = true) (inRange : kind.inRange n = true) :
    0 ≤ n ∧ n < 2 ^ 64 := by
  cases kind <;> simp_all [isUnsigned, PrimitiveKind.inRange, intRange?] <;> omega

theorem bounds_of_signed (integer : kind.isInteger = true) (signed : kind.isUnsigned = false)
    (inRange : kind.inRange n = true) : -2 ^ 63 ≤ n ∧ n < 2 ^ 63 := by
  cases kind <;> simp_all [isUnsigned, isInteger, PrimitiveKind.inRange, intRange?] <;> omega

theorem bounds_of_inRange (integer : kind.isInteger = true) (inRange : kind.inRange n = true) :
    -2 ^ 63 ≤ n ∧ n < 2 ^ 64 := by
  cases unsigned : kind.isUnsigned with
  | true =>
      have bounds := bounds_of_unsigned unsigned inRange
      omega
  | false =>
      have bounds := bounds_of_signed integer unsigned inRange
      omega

theorem isFloat_eq_false_of_isInteger (integer : kind.isInteger = true) : kind.isFloat = false := by
  cases kind <;> first | rfl | cases integer

theorem isInteger_of_isStringified (stringified : kind.isStringified = true) : kind.isInteger = true := by
  cases kind <;> first | rfl | cases stringified

theorem ne_of_isStringified (stringified : kind.isStringified = true) :
    kind ≠ .string ∧ kind ≠ .timestamp := by
  constructor <;> rintro rfl <;> cases stringified

end PrimitiveKind

/-- A timestamp is in the years 0 to 9999. -/
def Value.HasFourDigitYear : Value → Prop
  | timestamp t => t.HasFourDigitYear
  | _ => True

instance : DecidablePred Value.HasFourDigitYear
  | .timestamp t => inferInstanceAs (Decidable t.HasFourDigitYear)
  | .absent | .null | .bool _ | .int _ | .uint _ | .float _ | .str _ | .array _ | .map _ | .object _ | .union _ _
  | .any _ => isTrue trivial

/-- A timestamp is as its text tells it: in the years 0 to 9999, and past the end of a second only where a minute ends. -/
def Value.HasProperTime : Value → Prop
  | timestamp t => t.Proper ∧ t.HasFourDigitYear
  | _ => True

namespace Codec

variable {n : Int} {kind : PrimitiveKind} {path path' : String} {json : Json}

/-! ## Integers -/

theorem encodeInteger_eq_ok_iff :
    encodeInteger n kind path = .ok json ↔
      kind.inRange n = true ∧ json = if kind.isStringified then .str (toString n) else .num (.int n) := by
  unfold encodeInteger
  cases kind.inRange n with
  | true =>
      cases kind.isStringified <;> simp [eq_comm]
  | false =>
      simp

theorem decodeInteger_of_inRange (integer : kind.isInteger = true) (inRange : kind.inRange n = true) :
    decodeInteger n kind path = .ok (canonicalInteger n kind) := by
  rw [decodeInteger, inRange, canonicalInteger, PrimitiveKind.isFloat_eq_false_of_isInteger integer]
  cases kind.isUnsigned <;> rfl

theorem toNat_ofNat_of_inRange (unsigned : kind.isUnsigned = true) (inRange : kind.inRange n = true) :
    ((UInt64.ofNat n.toNat).toNat : Int) = n := by
  obtain ⟨least, most⟩ := PrimitiveKind.bounds_of_unsigned unsigned inRange
  rw [UInt64.toNat_ofNat_of_lt' (by simp only [UInt64.size]; omega)]
  exact Int.toNat_of_nonneg least

/-- The canonical integer is the same integer. -/
theorem encodeScalar_canonicalInteger (integer : kind.isInteger = true) (inRange : kind.inRange n = true) :
    encodeScalar (canonicalInteger n kind) (.primitive kind) path = encodeInteger n kind path := by
  have notFloat := PrimitiveKind.isFloat_eq_false_of_isInteger integer
  cases unsigned : kind.isUnsigned with
  | true =>
      have same := toNat_ofNat_of_inRange unsigned inRange
      have canonicalized : canonicalInteger n kind = .uint (UInt64.ofNat n.toNat) := by
        simp [canonicalInteger, notFloat, unsigned]
      rw [canonicalized, encodeScalar, encodeIntegerAt, same]
      simp [notFloat, integer]
  | false =>
      obtain ⟨least, most⟩ := PrimitiveKind.bounds_of_signed integer unsigned inRange
      have same : (Int64.ofInt n).toInt = n :=
        Int64.toInt_ofInt_of_le least most
      have canonicalized : canonicalInteger n kind = .int (Int64.ofInt n) := by
        simp [canonicalInteger, notFloat, unsigned]
      rw [canonicalized, encodeScalar, encodeIntegerAt, same]
      simp [notFloat, integer]

theorem decodeScalar_encodeInteger (path' : String) (integer : kind.isInteger = true)
    (encoded : encodeInteger n kind path = .ok json) :
    json ≠ .null ∧ decodeScalar json (.primitive kind) path' = .ok (canonicalInteger n kind) := by
  obtain ⟨inRange, rfl⟩ := encodeInteger_eq_ok_iff.1 encoded
  obtain ⟨least, most⟩ := PrimitiveKind.bounds_of_inRange integer inRange
  cases stringified : kind.isStringified with
  | true =>
      obtain ⟨notString, notTimestamp⟩ := PrimitiveKind.ne_of_isStringified stringified
      have read : Decimal.readInt128? (toString n) = some n :=
        Decimal.readInt128?_toString (by omega) (by omega)
      refine ⟨nofun, ?_⟩
      simp only [if_true, decodeScalar, decodeString, notString, notTimestamp, if_false, stringified, read]
      exact decodeInteger_of_inRange integer inRange
  | false =>
      refine ⟨nofun, ?_⟩
      simp only [Bool.false_eq_true, if_false, decodeScalar, decodeNumber,
        PrimitiveKind.isFloat_eq_false_of_isInteger integer, integer, if_true, least, most, decide_true,
        Bool.and_self]
      exact decodeInteger_of_inRange integer inRange

theorem encodeFloat_eq_ok_iff {x : Binary64} :
    encodeFloat x path = .ok json ↔ x.isFinite = true ∧ json = .num (.float x) := by
  unfold encodeFloat
  cases x.isFinite <;> simp [eq_comm]

theorem encodeScalar_float {x : Binary64} (float : kind.isFloat = true) :
    encodeScalar (.float x) (.primitive kind) path = encodeFloat x path := by
  cases kind <;> first | rfl | cases float

theorem decodeScalar_encodeFloat {x : Binary64} (float : kind.isFloat = true)
    (encoded : encodeFloat x path = .ok json) :
    json ≠ .null ∧ decodeScalar json (.primitive kind) path' = .ok (.float x) ∧
      encodeFloat x path' = .ok json := by
  obtain ⟨finite, rfl⟩ := encodeFloat_eq_ok_iff.1 encoded
  refine ⟨nofun, ?_, encodeFloat_eq_ok_iff.2 ⟨finite, rfl⟩⟩
  simp [decodeScalar, decodeNumber, float, numberToFloat]

/-- An integer at a number kind, whatever kind of value it is. -/
theorem roundTrip_integer {v : Value}
    (canonicalized : canonicalScalar v (some (.primitive kind)) = canonicalInteger n kind)
    (encoded : encodeIntegerAt v n (.primitive kind) path = .ok json) :
    json ≠ .null ∧ decodeScalar json (.primitive kind) path' = .ok (canonicalScalar v (some (.primitive kind))) ∧
      encodeScalar (canonicalScalar v (some (.primitive kind))) (.primitive kind) path' = .ok json := by
  rw [canonicalized]
  cases float : kind.isFloat with
  | true =>
      simp only [encodeIntegerAt, float, if_true] at encoded
      have asFloat : canonicalInteger n kind = .float (.ofInt n) := by
        simp [canonicalInteger, float]
      rw [asFloat, encodeScalar_float float]
      exact decodeScalar_encodeFloat float encoded
  | false =>
      cases integer : kind.isInteger with
      | true =>
          simp only [encodeIntegerAt, float, integer, Bool.false_eq_true, if_false, if_true] at encoded
          obtain ⟨notNull, decoded⟩ := decodeScalar_encodeInteger path' integer encoded
          obtain ⟨inRange, written⟩ := encodeInteger_eq_ok_iff.1 encoded
          refine ⟨notNull, decoded, ?_⟩
          rw [encodeScalar_canonicalInteger integer inRange]
          exact encodeInteger_eq_ok_iff.2 ⟨inRange, written⟩
      | false =>
          simp [encodeIntegerAt, float, integer, encodeMismatch] at encoded

/-! ## All scalars -/

/-- A scalar that encodes at a form other than any. -/
theorem roundTrip_scalar {v : Value} {form : Form TypeDef} (scalar : v.IsScalar) (notAny : form ≠ .any)
    (told : v.HasProperTime) (encoded : encodeScalar v form path = .ok json) :
    ((∃ kind, form = .primitive kind) ∨ ∃ listed, form = .enumeration listed) ∧ json ≠ .null ∧
      decodeScalar json form path' = .ok (canonicalScalar v (some form)) ∧
      encodeScalar (canonicalScalar v (some form)) form path' = .ok json := by
  unfold encodeScalar at encoded
  split at encoded
  case h_1 b =>
    cases encoded
    exact ⟨.inl ⟨_, rfl⟩, nofun, rfl, rfl⟩
  case h_2 s =>
    cases encoded
    exact ⟨.inl ⟨_, rfl⟩, nofun, rfl, rfl⟩
  case h_3 s listed =>
    by_cases member : s ∈ listed
    · simp only [List.contains_eq_mem, member, decide_true, if_true, Except.ok.injEq] at encoded
      subst encoded
      refine ⟨.inr ⟨_, rfl⟩, nofun, ?_, ?_⟩
      · simp [decodeScalar, member, canonicalScalar]
      · simp [encodeScalar, member, canonicalScalar]
    · simp [member] at encoded
  case h_4 t =>
    cases encoded
    obtain ⟨proper, fourDigits⟩ := told
    have read := Timestamp.ofText?_toText proper fourDigits
    refine ⟨.inl ⟨_, rfl⟩, nofun, ?_, ?_⟩
    · simp [decodeScalar, decodeString, decodeTimestamp, read, canonicalScalar]
    · simp [encodeScalar, canonicalScalar, Timestamp.toText_truncate]
  case h_5 x =>
    exact ⟨.inl ⟨_, rfl⟩, decodeScalar_encodeFloat rfl encoded⟩
  case h_6 x =>
    exact ⟨.inl ⟨_, rfl⟩, decodeScalar_encodeFloat rfl encoded⟩
  case h_7 n =>
    cases form with
    | primitive kind =>
        exact ⟨.inl ⟨_, rfl⟩, roundTrip_integer rfl encoded⟩
    | any | enumeration | elements | values | object | ref | union =>
        simp [encodeIntegerAt, encodeMismatch] at encoded
  case h_8 n =>
    cases form with
    | primitive kind =>
        exact ⟨.inl ⟨_, rfl⟩, roundTrip_integer rfl encoded⟩
    | any | enumeration | elements | values | object | ref | union =>
        simp [encodeIntegerAt, encodeMismatch] at encoded
  case h_9 json =>
    exact absurd rfl notAny
  case h_10 =>
    exact absurd encoded encodeMismatch_ne_ok

theorem decodeScalar_timestamp (text path : String) :
    decodeScalar (.str text) (.primitive .timestamp) path = decodeTimestamp text path :=
  rfl

theorem exists_timestamp_of_decodeScalar {v : Value} (decoded : decodeScalar json (.primitive .timestamp) path = .ok v) :
    ∃ at_, v = .timestamp at_ := by
  cases json with
  | str text =>
      rw [decodeScalar_timestamp, decodeTimestamp] at decoded
      split at decoded
      · cases decoded
        exact ⟨_, rfl⟩
      · cases decoded
  | null | bool | num | arr | obj =>
      cases decoded

/-- At the form any only carried JSON encodes, as itself. -/
theorem encodeScalar_any {v : Value} (encoded : encodeScalar v .any path = .ok json) : v = .any json := by
  cases v <;> simp [encodeScalar, encodeIntegerAt, encodeMismatch] at encoded
  exact congrArg _ encoded

end Codec

end SchemaRpc
