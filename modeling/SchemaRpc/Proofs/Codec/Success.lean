import SchemaRpc.Codec.Decode
import SchemaRpc.Codec.Encode
import SchemaRpc.Proofs.Definitions.Resolve
import SchemaRpc.Proofs.Value.Nodes

/-!
# When coding succeeds

One equivalence for each kind of value that the encoder takes and for each kind of JSON that the decoder takes: the
result is there exactly when the references end at a fitting form, one more container is allowed, and the parts come
out. Everything else about the codec is proved from these.
-/

namespace SchemaRpc

theorem Except.bind_eq_ok_iff {ε α β : Type} {x : Except ε α} {f : α → Except ε β} {b : β} :
    (x >>= f) = .ok b ↔ ∃ a, x = .ok a ∧ f a = .ok b := by
  cases x with
  | error error =>
      simp [bind, Except.bind]
  | ok a =>
      simp [bind, Except.bind]

theorem Except.map_eq_ok_iff {ε α β : Type} {x : Except ε α} {f : α → β} {b : β} :
    x.map f = .ok b ↔ ∃ a, x = .ok a ∧ b = f a := by
  cases x with
  | error error =>
      simp [Except.map]
  | ok a =>
      simp [Except.map, eq_comm]

theorem Except.bind_of_eq_ok {ε α β : Type} {x : Except ε α} {f : α → Except ε β} {a : α} (made : x = .ok a) :
    (x >>= f) = f a := by
  rw [made]
  rfl

/-- What comes after matters for results only. -/
theorem Except.bind_congr_of_ok {ε α β : Type} {x : Except ε α} {f g : α → Except ε β}
    (same : ∀ a, x = .ok a → f a = g a) : (x >>= f) = (x >>= g) := by
  cases x with
  | error error =>
      rfl
  | ok a =>
      exact same a rfl

theorem Except.bind_eq_error_iff {ε α β : Type} {x : Except ε α} {f : α → Except ε β} {error : ε} :
    (x >>= f) = .error error ↔ x = .error error ∨ ∃ a, x = .ok a ∧ f a = .error error := by
  cases x with
  | error failure =>
      simp [bind, Except.bind]
  | ok a =>
      simp [bind, Except.bind]

theorem Except.exists_error_of_ne_ok {ε α : Type} {x : Except ε α} (fails : ∀ a, x ≠ .ok a) :
    ∃ error, x = .error error := by
  cases x with
  | error error =>
      exact ⟨error, rfl⟩
  | ok a =>
      exact absurd rfl (fails a)

namespace Codec

variable {c : Codec} {t : TypeDef} {path : String} {depth : Nat} {json : Json} {v : Value} {error : CodecError}

theorem target_eq_ok_iff {form : Form TypeDef} :
    c.target t = .ok form ↔ ∃ s, c.definitions.resolve t = .ok s ∧ s.form = form := by
  unfold target
  cases c.definitions.resolve t with
  | error error =>
      simp
  | ok s =>
      simp

theorem target_of_refName?_eq_none (final : t.refName? = none) : c.target t = .ok t.form :=
  target_eq_ok_iff.2 ⟨t, Definitions.resolve_of_refName?_eq_none final, rfl⟩

theorem target_of_form {form : Form TypeDef} (sameForm : t.form = form) (notRef : ∀ name, form ≠ .ref name) :
    c.target t = .ok form := by
  have final : t.refName? = none := by
    cases isRef : t.refName? with
    | none =>
        rfl
    | some name =>
        have refForm := TypeDef.refName?_eq_some_iff.1 isRef
        rw [sameForm] at refForm
        exact absurd refForm (notRef name)
  rw [target_of_refName?_eq_none final, sameForm]

theorem isAny_iff : isAny t = true ↔ t.form = .any := by
  unfold isAny
  cases t.form <;> simp

theorem target_ne_ref {name : String} : c.target t ≠ .ok (.ref name) := by
  intro reached
  obtain ⟨s, resolved, form⟩ := target_eq_ok_iff.1 reached
  have final := Definitions.refName?_of_resolve resolved
  simp [TypeDef.refName?, form] at final

theorem target_of_ref {name : String} {body : TypeDef} (isRef : t.form = .ref name)
    (found : c.definitions.get? name = some body) {form : Form TypeDef} :
    c.target t = .ok form ↔ c.target body = .ok form := by
  have refName := TypeDef.refName?_eq_some_iff.2 isRef
  rw [target_eq_ok_iff, target_eq_ok_iff]
  refine exists_congr fun s => and_congr_left fun _ => ?_
  exact Definitions.resolve_of_ref refName found

/-- Where a reference leads anywhere, its name has a body. -/
theorem exists_get?_of_target_ref {name : String} (isRef : t.form = .ref name) {form : Form TypeDef}
    (reached : c.target t = .ok form) : ∃ body, c.definitions.get? name = some body := by
  cases found : c.definitions.get? name with
  | some body =>
      exact ⟨body, rfl⟩
  | none =>
      have refName := TypeDef.refName?_eq_some_iff.2 isRef
      obtain ⟨s, resolved, _⟩ := target_eq_ok_iff.1 reached
      simp [Definitions.resolve, Definitions.follow, refName, found] at resolved

/-- What holds of every node of a definition and of every body holds of every node at the end of the references. -/
theorem exists_everywhere_of_target {promise : Form TypeDef → Prop} {form : Form TypeDef}
    (reached : c.target t = .ok form) (here : t.Everywhere promise)
    (bodies : c.definitions.Everywhere promise) :
    ∃ s, c.definitions.resolve t = .ok s ∧ s.form = form ∧ s.Everywhere promise := by
  obtain ⟨s, resolved, sameForm⟩ := target_eq_ok_iff.1 reached
  have everywhere : s.Everywhere promise :=
    Definitions.resolve_induct resolved here fun _ _ found => bodies.get? found
  exact ⟨s, resolved, sameForm, everywhere⟩

/-- What goes wrong with references is a name that leads nowhere. -/
theorem exists_of_target_error (failed : c.target t = .error error) : ∃ name, error = .unresolvedRef name := by
  unfold target at failed
  split at failed
  · cases failed
  · next failure unresolved =>
    cases failed
    obtain ⟨name, rfl⟩ := Definitions.exists_of_follow_error unresolved
    exact ⟨name, rfl⟩

/-- A scalar is refused for its kind, for what it says, or for a text that is not listed. -/
theorem exists_of_decodeScalar_error {form : Form TypeDef} (failed : decodeScalar json form path = .error error) :
    (∃ expected actual, error = .typeMismatch path expected actual) ∨ (∃ text, error = .invalidValue path text) ∨
      ∃ s, error = .unknownEnumValue path s := by
  unfold decodeScalar decodeNumber decodeString decodeTimestamp decodeInteger decodeMismatch CodecError.outOfRange at failed
  repeat' split at failed
  all_goals cases failed
  all_goals simp

theorem isScalar_of_decodeScalar {form : Form TypeDef} (decoded : decodeScalar json form path = .ok v) : v.IsScalar := by
  unfold decodeScalar decodeNumber decodeString decodeTimestamp decodeInteger decodeMismatch at decoded
  repeat' split at decoded
  all_goals cases decoded
  all_goals trivial

theorem enter_eq_ok_iff {inner : Nat} :
    c.enter depth path = .ok inner ↔ depth + 1 ≤ c.maxDepth ∧ inner = depth + 1 := by
  unfold enter
  by_cases tooDeep : depth + 1 > c.maxDepth
  · simp only [tooDeep, if_true, reduceCtorEq, false_iff, not_and]
    intro allowed
    exact absurd allowed (Nat.not_le_of_gt tooDeep)
  · simp only [tooDeep, if_false, Except.ok.injEq, Nat.le_of_not_gt tooDeep, true_and]
    exact eq_comm

theorem enter_eq_error_iff :
    c.enter depth path = .error error ↔ c.maxDepth < depth + 1 ∧ error = .depthExceeded path c.maxDepth := by
  unfold enter
  split
  · next tooDeep =>
    rw [Except.error.injEq, and_iff_right tooDeep]
    exact eq_comm
  · next allowed =>
    simp [allowed]

/-- What is made of the parts one container further in. -/
theorem inside_eq_ok_iff {α β : Type} {parts : Nat → Except CodecError α} {whole : α → β} {result : β} :
    (c.enter depth path >>= fun inner => parts inner >>= fun x => pure (whole x)) = .ok result ↔
      depth + 1 ≤ c.maxDepth ∧ ∃ x, parts (depth + 1) = .ok x ∧ result = whole x := by
  constructor
  · intro succeeded
    obtain ⟨inner, entered, rest⟩ := Except.bind_eq_ok_iff.1 succeeded
    obtain ⟨allowed, rfl⟩ := enter_eq_ok_iff.1 entered
    obtain ⟨x, made, wrapped⟩ := Except.bind_eq_ok_iff.1 rest
    cases wrapped
    exact ⟨allowed, x, made, rfl⟩
  · rintro ⟨allowed, x, made, rfl⟩
    refine Except.bind_eq_ok_iff.2 ⟨depth + 1, enter_eq_ok_iff.2 ⟨allowed, rfl⟩, ?_⟩
    exact Except.bind_eq_ok_iff.2 ⟨x, made, rfl⟩

/-! ## Encoding -/

section Encoding

theorem encodeMismatch_ne_ok {form : Form TypeDef} : encodeMismatch form path v ≠ .ok json := by
  simp [encodeMismatch]

theorem encoder_absent_ne_ok : encoder c .absent t path depth ≠ .ok json := by
  intro encoded
  cases encoded

theorem encoder_null :
    encoder c .null t path depth = if t.nullable || isAny t then .ok .null else .error (.nullNotAllowed path) :=
  rfl

theorem encoder_scalar (scalar : v.IsScalar) :
    encoder c v t path depth = (c.target t >>= fun form => encodeScalar v form path) := by
  cases v <;> first | exact scalar.elim | rfl

theorem encoder_null_eq_ok_iff :
    encoder c .null t path depth = .ok json ↔ (t.nullable = true ∨ isAny t = true) ∧ json = .null := by
  rw [encoder_null, ← Bool.or_eq_true]
  by_cases allowed : (t.nullable || isAny t) = true
  · simp only [allowed, if_true, Except.ok.injEq, true_and]
    exact eq_comm
  · simp only [allowed, Bool.false_eq_true, if_false, reduceCtorEq, false_and]

theorem encoder_scalar_eq_ok_iff (scalar : v.IsScalar) :
    encoder c v t path depth = .ok json ↔
      ∃ form, c.target t = .ok form ∧ encodeScalar v form path = .ok json := by
  rw [encoder_scalar scalar, Except.bind_eq_ok_iff]

theorem encoder_array_eq_ok_iff {items : List Value} :
    encoder c (.array items) t path depth = .ok json ↔
      ∃ item, c.target t = .ok (.elements item) ∧ depth + 1 ≤ c.maxDepth ∧
        ∃ jsons, encodeItems c item path (depth + 1) 0 items = .ok jsons ∧
          json = .arr jsons := by
  refine Except.bind_eq_ok_iff.trans ?_
  constructor
  · rintro ⟨form, reached, rest⟩
    cases form with
    | elements item =>
        exact ⟨item, reached, inside_eq_ok_iff.1 rest⟩
    | _ =>
        exact absurd rest encodeMismatch_ne_ok
  · rintro ⟨item, reached, rest⟩
    exact ⟨_, reached, inside_eq_ok_iff.2 rest⟩

theorem encoder_map_eq_ok_iff {entries : List (String × Value)} :
    encoder c (.map entries) t path depth = .ok json ↔
      ∃ item, c.target t = .ok (.values item) ∧ depth + 1 ≤ c.maxDepth ∧
        ∃ members, encodeEntries c item path (depth + 1) entries = .ok members ∧
          json = .obj members := by
  refine Except.bind_eq_ok_iff.trans ?_
  constructor
  · rintro ⟨form, reached, rest⟩
    cases form with
    | values item =>
        exact ⟨item, reached, inside_eq_ok_iff.1 rest⟩
    | _ =>
        exact absurd rest encodeMismatch_ne_ok
  · rintro ⟨item, reached, rest⟩
    exact ⟨_, reached, inside_eq_ok_iff.2 rest⟩

theorem encoder_object_eq_ok_iff {fields : List (String × Value)} :
    encoder c (.object fields) t path depth = .ok json ↔
      ∃ properties, c.target t = .ok (.object properties) ∧ depth + 1 ≤ c.maxDepth ∧
        ∃ members, encodeProperties c (fieldEncoders c fields) path (depth + 1) [] properties = .ok members ∧
          json = .obj members := by
  refine Except.bind_eq_ok_iff.trans ?_
  constructor
  · rintro ⟨form, reached, rest⟩
    cases form with
    | object properties =>
        exact ⟨properties, reached, inside_eq_ok_iff.1 rest⟩
    | _ =>
        exact absurd rest encodeMismatch_ne_ok
  · rintro ⟨properties, reached, rest⟩
    exact ⟨_, reached, inside_eq_ok_iff.2 rest⟩

theorem encoder_union_eq_ok_iff {tag : String} {fields : List (String × Value)} :
    encoder c (.union tag fields) t path depth = .ok json ↔
      ∃ key mapping properties, c.target t = .ok (.union key mapping) ∧
        mapping.lookup tag = some properties ∧ depth + 1 ≤ c.maxDepth ∧
        ∃ members,
          encodeProperties c (fieldEncoders c fields) path (depth + 1) [(c.key key, .str tag)] properties =
            .ok members ∧
          json = .obj members := by
  refine Except.bind_eq_ok_iff.trans ?_
  constructor
  · rintro ⟨form, reached, rest⟩
    cases form with
    | union key mapping =>
        cases listed : mapping.lookup tag with
        | none =>
            simp [listed] at rest
        | some properties =>
            simp only [listed] at rest
            exact ⟨key, mapping, properties, reached, listed, inside_eq_ok_iff.1 rest⟩
    | _ =>
        exact absurd rest encodeMismatch_ne_ok
  · rintro ⟨key, mapping, properties, reached, listed, rest⟩
    refine ⟨_, reached, ?_⟩
    simp only [listed]
    exact inside_eq_ok_iff.2 rest

end Encoding

/-! ## Decoding -/

section Decoding

theorem decodeMismatch_ne_ok {form : Form TypeDef} : decodeMismatch form path json ≠ .ok v := by
  simp [decodeMismatch]

theorem decodeTag_eq_ok_iff {key tag : String} {members : Json.Members} :
    decodeTag c path key members = .ok tag ↔ members.get? (c.key key) = some (.str tag) := by
  unfold decodeTag
  cases members.get? (c.key key) with
  | none =>
      simp
  | some found =>
      cases found <;> simp

theorem decoder_null :
    decoder c .null t path depth =
      if t.nullable then .ok .null
      else if isAny t then .ok (.any .null)
      else .error (.nullNotAllowed path) :=
  rfl

theorem decoder_null_eq_ok_iff :
    decoder c .null t path depth = .ok v ↔
      (t.nullable = true ∧ v = .null) ∨ (t.nullable = false ∧ isAny t = true ∧ v = .any .null) := by
  rw [decoder_null]
  cases t.nullable with
  | true =>
      simp only [if_true, Except.ok.injEq, true_and, Bool.true_eq_false, false_and, or_false]
      exact eq_comm
  | false =>
      cases isAny t with
      | true =>
          simp only [Bool.false_eq_true, if_false, if_true, Except.ok.injEq, false_and, true_and, false_or]
          exact eq_comm
      | false =>
          simp

theorem exists_target_of_decoder (notNull : json ≠ .null) (decoded : decoder c json t path depth = .ok v) :
    ∃ form, c.target t = .ok form := by
  cases json with
  | null =>
      exact absurd rfl notNull
  | bool | num | str | arr | obj =>
      obtain ⟨form, reached, _⟩ := Except.bind_eq_ok_iff.1 decoded
      exact ⟨form, reached⟩

/-- Other JSON than null is carried untouched where any is allowed. -/
theorem decoder_any_eq_ok_iff (reached : c.target t = .ok .any) (notNull : json ≠ .null) :
    decoder c json t path depth = .ok v ↔ v = .any json := by
  have carried : decoder c json t path depth = .ok (.any json) := by
    cases json with
    | null =>
        exact absurd rfl notNull
    | bool | num | str | arr | obj =>
        exact Except.bind_of_eq_ok reached
  rw [carried, Except.ok.injEq]
  exact eq_comm

/-- At a scalar form, other JSON than null is read by its kind. -/
theorem decoder_scalar_eq_ok_iff {form : Form TypeDef} (reached : c.target t = .ok form)
    (scalar : (∃ kind, form = .primitive kind) ∨ ∃ listed, form = .enumeration listed) (notNull : json ≠ .null) :
    decoder c json t path depth = .ok v ↔ decodeScalar json form path = .ok v := by
  have unfolded : decoder c json t path depth = decodeScalar json form path := by
    rcases scalar with ⟨kind, rfl⟩ | ⟨listed, rfl⟩ <;> cases json <;>
      first | exact absurd rfl notNull | exact Except.bind_of_eq_ok reached
  rw [unfolded]

theorem decoder_elements_eq_ok_iff {item : TypeDef} (reached : c.target t = .ok (.elements item))
    (notNull : json ≠ .null) :
    decoder c json t path depth = .ok v ↔
      ∃ items, json = .arr items ∧ depth + 1 ≤ c.maxDepth ∧
        ∃ vs, decodeItems c item path (depth + 1) 0 items = .ok vs ∧ v = .array vs := by
  cases json with
  | null =>
      exact absurd rfl notNull
  | arr items =>
      have unfolded : decoder c (.arr items) t path depth =
          (c.enter depth path >>= fun inner =>
            decodeItems c item path inner 0 items >>= fun vs => pure (.array vs)) :=
        Except.bind_of_eq_ok reached
      rw [unfolded, inside_eq_ok_iff]
      simp only [Json.arr.injEq, exists_eq_left']
  | bool | num | str | obj =>
      refine iff_of_false (fun decoded => ?_) (by simp)
      exact decodeMismatch_ne_ok ((Except.bind_of_eq_ok reached).symm.trans decoded)

theorem decoder_values_eq_ok_iff {item : TypeDef} (reached : c.target t = .ok (.values item))
    (notNull : json ≠ .null) :
    decoder c json t path depth = .ok v ↔
      ∃ members, json = .obj members ∧ depth + 1 ≤ c.maxDepth ∧
        ∃ entries, decodeEntries c item path (depth + 1) [] members = .ok entries ∧ v = .map entries := by
  cases json with
  | null =>
      exact absurd rfl notNull
  | obj members =>
      have unfolded : decoder c (.obj members) t path depth =
          (c.enter depth path >>= fun inner =>
            decodeEntries c item path inner [] members >>= fun entries => pure (.map entries)) :=
        Except.bind_of_eq_ok reached
      rw [unfolded, inside_eq_ok_iff]
      simp only [Json.obj.injEq, exists_eq_left']
  | bool | num | str | arr =>
      refine iff_of_false (fun decoded => ?_) (by simp)
      exact decodeMismatch_ne_ok ((Except.bind_of_eq_ok reached).symm.trans decoded)

theorem decoder_object_eq_ok_iff {properties : List (Property TypeDef)}
    (reached : c.target t = .ok (.object properties)) (notNull : json ≠ .null) :
    decoder c json t path depth = .ok v ↔
      ∃ members, json = .obj members ∧ depth + 1 ≤ c.maxDepth ∧
        ∃ fields,
          decodeProperties c path (depth + 1) (memberDecoders c members) [] properties = .ok fields ∧
          v = .object fields := by
  cases json with
  | null =>
      exact absurd rfl notNull
  | obj members =>
      have unfolded : decoder c (.obj members) t path depth =
          (c.enter depth path >>= fun inner =>
            decodeProperties c path inner (memberDecoders c members) [] properties >>= fun fields =>
              pure (.object fields)) :=
        Except.bind_of_eq_ok reached
      rw [unfolded, inside_eq_ok_iff]
      simp only [Json.obj.injEq, exists_eq_left']
  | bool | num | str | arr =>
      refine iff_of_false (fun decoded => ?_) (by simp)
      exact decodeMismatch_ne_ok ((Except.bind_of_eq_ok reached).symm.trans decoded)

theorem decoder_union_eq_ok_iff {key : String} {mapping : List (String × List (Property TypeDef))}
    (reached : c.target t = .ok (.union key mapping)) (notNull : json ≠ .null) :
    decoder c json t path depth = .ok v ↔
      ∃ members tag properties, json = .obj members ∧
        Json.Members.get? (c.key key) members = some (.str tag) ∧
        mapping.lookup tag = some properties ∧ depth + 1 ≤ c.maxDepth ∧
        ∃ fields,
          decodeProperties c path (depth + 1) ((memberDecoders c members).erase (c.key key)) [] properties =
            .ok fields ∧
          v = .union tag fields := by
  cases json with
  | null =>
      exact absurd rfl notNull
  | obj members =>
      constructor
      · intro succeeded
        obtain ⟨form, same, rest⟩ := Except.bind_eq_ok_iff.1 succeeded
        rw [reached] at same
        cases same
        obtain ⟨tag, tagged, rest⟩ := Except.bind_eq_ok_iff.1 rest
        cases listed : mapping.lookup tag with
        | none =>
            simp [listed] at rest
        | some properties =>
            simp only [listed] at rest
            exact ⟨members, tag, properties, rfl, decodeTag_eq_ok_iff.1 tagged, listed, inside_eq_ok_iff.1 rest⟩
      · rintro ⟨members', tag, properties, equal, found, listed, rest⟩
        cases equal
        refine Except.bind_eq_ok_iff.2 ⟨_, reached, ?_⟩
        refine Except.bind_eq_ok_iff.2 ⟨tag, decodeTag_eq_ok_iff.2 found, ?_⟩
        simp only [listed]
        exact inside_eq_ok_iff.2 rest
  | bool | num | str | arr =>
      refine iff_of_false (fun decoded => ?_) (by simp)
      exact decodeMismatch_ne_ok ((Except.bind_of_eq_ok reached).symm.trans decoded)

end Decoding

end Codec

end SchemaRpc
