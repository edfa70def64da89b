import SchemaRpc.Proofs.Binary64.Finite
import SchemaRpc.Proofs.Codec.Scalars
import SchemaRpc.Proofs.Json.Parts
import SchemaRpc.Proofs.Timestamp.Read

/-!
# Decoded scalars are written again

The decoder is lenient with scalars: it takes integers as numbers and as strings with a sign and leading zeros, integers for
floats, and timestamps with any offset and precision. Each lands on a value that can be written, and what is written is
read again, timestamps outside the years 0 to 9999 excepted.
-/

namespace SchemaRpc

namespace Codec

variable {n : Int} {kind : PrimitiveKind} {form : Form TypeDef} {path : String} {json : Json} {v : Value}

theorem decodeInteger_eq_ok (decoded : decodeInteger n kind path = .ok v) (integer : kind.isInteger = true) :
    kind.inRange n = true ∧ v = canonicalInteger n kind := by
  cases inRange : kind.inRange n with
  | false =>
      simp [decodeInteger, inRange] at decoded
  | true =>
      rw [decodeInteger_of_inRange integer inRange] at decoded
      cases decoded
      exact ⟨rfl, rfl⟩

/-- What is decoded at a kind of integer is an integer in its range. -/
theorem exists_of_decodeScalar_integer (integer : kind.isInteger = true)
    (decoded : decodeScalar json (.primitive kind) path = .ok v) :
    ∃ i, kind.inRange i = true ∧ v = canonicalInteger i kind := by
  have notFloat := PrimitiveKind.isFloat_eq_false_of_isInteger integer
  cases json with
  | num number =>
      simp only [decodeScalar, decodeNumber, notFloat, integer, Bool.false_eq_true, if_false, if_true]
        at decoded
      split at decoded
      · split at decoded
        · exact ⟨_, decodeInteger_eq_ok decoded integer⟩
        · cases decoded
      · cases decoded
  | str s =>
      have notText : kind ≠ .string ∧ kind ≠ .timestamp := by
        constructor <;> rintro rfl <;> cases integer
      simp only [decodeScalar, decodeString, notText.1, notText.2, if_false] at decoded
      split at decoded
      · split at decoded
        · exact ⟨_, decodeInteger_eq_ok decoded integer⟩
        · cases decoded
      · cases decoded
  | bool b =>
      cases kind with
      | boolean =>
          cases integer
      | _ =>
          cases decoded
  | null | arr | obj =>
      cases decoded

/-! ## Writing what was decoded -/

/-- A scalar that can be written at a form, everywhere with the same result. -/
def Writable (form : Form TypeDef) (v : Value) : Prop :=
  v.IsScalar ∧ (∀ t, v = .timestamp t → t.Proper) ∧ ∃ json, ∀ path, encodeScalar v form path = .ok json

theorem writable_of_decodeInteger (decoded : decodeInteger n kind path = .ok v) (integer : kind.isInteger = true) :
    Writable (.primitive kind) v := by
  obtain ⟨inRange, rfl⟩ := decodeInteger_eq_ok decoded integer
  have scalar := isScalar_canonicalInteger n kind
  refine ⟨scalar, fun t same => ?_, if kind.isStringified then .str (toString n) else .num (.int n), fun path => ?_⟩
  · unfold canonicalInteger at same
    split at same
    · cases same
    · split at same <;> cases same
  · rw [encodeScalar_canonicalInteger integer inRange]
    exact encodeInteger_eq_ok_iff.2 ⟨inRange, rfl⟩

theorem writable_float {x : Binary64} (float : kind.isFloat = true) (finite : x.isFinite = true) :
    Writable (.primitive kind) (.float x) := by
  refine ⟨trivial, nofun, .num (.float x), fun path => ?_⟩
  rw [encodeScalar_float float]
  exact encodeFloat_eq_ok_iff.2 ⟨finite, rfl⟩

theorem isFinite_numberToFloat {number : Json.Number} (stored : (Json.num number).Stored) :
    (numberToFloat number).isFinite = true := by
  cases number with
  | int i =>
      obtain ⟨least, most⟩ : -2 ^ 63 ≤ i ∧ i < 2 ^ 64 := stored
      exact Binary64.isFinite_ofInt (by omega)
  | float x =>
      exact stored

theorem writable_of_decodeNumber {number : Json.Number} (stored : (Json.num number).Stored)
    (decoded : decodeNumber number kind path = .ok v) : Writable (.primitive kind) v := by
  unfold decodeNumber at decoded
  split at decoded
  · next float =>
    cases decoded
    exact writable_float float (isFinite_numberToFloat stored)
  · split at decoded
    · next integer =>
      split at decoded
      · split at decoded
        · exact writable_of_decodeInteger decoded integer
        · cases decoded
      · cases decoded
    · cases decoded

theorem writable_of_decodeString {s : String} (decoded : decodeString s kind path = .ok v) :
    Writable (.primitive kind) v := by
  unfold decodeString at decoded
  split at decoded
  · next isString =>
    cases decoded
    subst isString
    exact ⟨trivial, nofun, _, fun _ => rfl⟩
  · split at decoded
    · next isTimestamp =>
      subst isTimestamp
      unfold decodeTimestamp at decoded
      split at decoded
      · next t read =>
        cases decoded
        refine ⟨trivial, fun t same => ?_, _, fun _ => rfl⟩
        cases same
        exact Timestamp.proper_of_ofText? read
      · cases decoded
    · split at decoded
      · next stringified =>
        split at decoded
        · exact writable_of_decodeInteger decoded (PrimitiveKind.isInteger_of_isStringified stringified)
        · cases decoded
      · cases decoded

theorem writable_of_decodeScalar (stored : json.Stored) (decoded : decodeScalar json form path = .ok v) :
    Writable form v := by
  unfold decodeScalar at decoded
  split at decoded
  case h_1 b =>
    cases decoded
    exact ⟨trivial, nofun, _, fun _ => rfl⟩
  case h_2 number kind =>
    exact writable_of_decodeNumber stored decoded
  case h_3 s kind =>
    exact writable_of_decodeString decoded
  case h_4 s listed =>
    split at decoded
    · next member =>
      cases decoded
      refine ⟨trivial, nofun, .str s, fun path => ?_⟩
      simp only [encodeScalar, member, if_true]
    · cases decoded
  case h_5 =>
    cases decoded

/-! ## Reading it again -/

theorem hasProperTime_of_writable (writable : Writable form v) (fourDigits : v.HasFourDigitYear) :
    v.HasProperTime := by
  cases v with
  | timestamp t =>
      exact ⟨writable.2.1 t rfl, fourDigits⟩
  | absent | null | bool | int | uint | float | str | array | map | object | union | any =>
      trivial

theorem form_of_encodeScalar_timestamp {t : Timestamp} (encoded : encodeScalar (.timestamp t) form path = .ok json) :
    form = .primitive .timestamp ∧ json = .str t.toText := by
  cases form with
  | primitive kind =>
      cases kind <;> simp [encodeScalar, encodeMismatch] at encoded
      exact ⟨rfl, encoded.symm⟩
  | any | enumeration | elements | values | object | ref | union =>
      simp [encodeScalar, encodeMismatch] at encoded

/-- The text of a timestamp with a year of more than four digits, or before the year 0, is not read. -/
theorem decodeScalar_ne_ok_of_encodeScalar (outside : ¬ v.HasFourDigitYear) (encoded : encodeScalar v form path = .ok json) :
    json ≠ .null ∧ ∀ path' v', decodeScalar json form path' ≠ .ok v' := by
  cases v with
  | timestamp t =>
      obtain ⟨rfl, rfl⟩ := form_of_encodeScalar_timestamp encoded
      have unread : Timestamp.ofText? t.toText = none := Timestamp.ofText?_toText_eq_none outside
      refine ⟨nofun, fun path' v' decoded => ?_⟩
      simp [decodeScalar, decodeString, decodeTimestamp, unread] at decoded
  | absent | null | bool | int | uint | float | str | array | map | object | union | any =>
      exact absurd trivial outside

end Codec

end SchemaRpc
