import SchemaRpc.Options.Basic
import SchemaRpc.Proofs.Codec.Present
import SchemaRpc.Proofs.Codec.Scalars
import SchemaRpc.Proofs.EventStream.Reader
import SchemaRpc.Proofs.Json.Reread

/-!
# Bytes under two bounds on nesting

Decoding bytes is reading JSON and decoding what is read. The codec has a bound on nesting that can be set, the reader of
JSON one of its own that cannot. What the codec has written is never too deep for itself, and it is refused as invalid
JSON exactly when it is deeper than the reader goes.
-/

namespace SchemaRpc

/-- The value is no JSON that is carried untouched. -/
def Value.IsTyped : Value → Prop
  | any _ => False
  | _ => True

instance : DecidablePred Value.IsTyped
  | .any _ => isFalse id
  | .absent | .null | .bool _ | .int _ | .uint _ | .float _ | .str _ | .timestamp _ | .array _ | .map _ | .object _
  | .union _ _ => isTrue trivial

namespace Codec

variable {c : Codec} {json : Json} {v : Value} {t item : TypeDef} {path : String} {depth : Nat}

/-! ## Reading with room -/

/-- The result is no complaint about nesting, neither the codec's own nor that of the reader. -/
def Unhindered {α : Type} (result : Except CodecError α) : Prop :=
  ∀ error, result = .error error → error.isTooDeep = false ∧ error ≠ .invalidJson

namespace Unhindered

variable {α β : Type} {x : Except CodecError α}

theorem ok {a : α} : Unhindered (.ok a : Except CodecError α) := by
  rintro error ⟨⟩

theorem error {error : CodecError} (other : error.isTooDeep = false) (valid : error ≠ .invalidJson) :
    Unhindered (.error error : Except CodecError α) := by
  rintro _ ⟨⟩
  exact ⟨other, valid⟩

theorem bind {f : α → Except CodecError β} (first : Unhindered x) (rest : ∀ a, x = .ok a → Unhindered (f a)) :
    Unhindered (x >>= f) := by
  intro failure failed
  rcases Except.bind_eq_error_iff.mp failed with early | ⟨a, made, late⟩
  · exact first failure early
  · exact rest a made failure late

end Unhindered

theorem unhindered_target : Unhindered (c.target t) := by
  intro error failed
  obtain ⟨name, rfl⟩ := exists_of_target_error failed
  exact ⟨rfl, by simp⟩

/-- What is made of the parts one container further in. -/
theorem Unhindered.inside {α β : Type} {parts : Nat → Except CodecError α} {whole : α → β}
    (room : depth + 1 ≤ c.maxDepth) (each : Unhindered (parts (depth + 1))) :
    Unhindered (c.enter depth path >>= fun inner => parts inner >>= fun x => pure (whole x)) := by
  rw [Except.bind_of_eq_ok (enter_eq_ok_iff.mpr ⟨room, rfl⟩)]
  exact each.bind fun x _ => .ok

theorem unhindered_decodeScalar {form : Form TypeDef} : Unhindered (decodeScalar json form path) := by
  intro error failed
  rcases exists_of_decodeScalar_error failed with ⟨_, _, rfl⟩ | ⟨_, rfl⟩ | ⟨_, rfl⟩ <;> exact ⟨rfl, by simp⟩

theorem unhindered_decodeTag {key : String} {members : Json.Members} : Unhindered (decodeTag c path key members) := by
  unfold decodeTag
  split
  · exact .error rfl (by simp)
  · exact .ok
  · exact .error rfl (by simp)

/-- What is decoded at this depth is not refused for its nesting, whatever the definition. -/
def Fits (depth : Nat) (read : Decoder) : Prop :=
  ∀ t path, Unhindered (read t path depth)

theorem unhindered_decodeItems {items : List Json} {index : Nat} (each : ∀ json ∈ items, Fits depth (decoder c json)) :
    Unhindered (decodeItems c item path depth index items) := by
  induction items generalizing index with
  | nil =>
      exact .ok
  | cons json rest inductionHypothesis =>
      obtain ⟨head, tail⟩ := List.forall_mem_cons.mp each
      exact (head _ _).bind fun v _ => (inductionHypothesis tail).bind fun vs _ => .ok

theorem unhindered_decodeEntries {members : Json.Members} {done : Entries Value}
    (each : ∀ json ∈ members.map Prod.snd, Fits depth (decoder c json)) :
    Unhindered (decodeEntries c item path depth done members) := by
  induction members generalizing done with
  | nil =>
      exact .ok
  | cons member rest inductionHypothesis =>
      obtain ⟨head, tail⟩ := List.forall_mem_cons.mp each
      exact (head _ _).bind fun v _ => inductionHypothesis tail

theorem fits_memberDecoders {members : Json.Members}
    (each : ∀ json ∈ members.map Prod.snd, Fits depth (decoder c json)) :
    ∀ entry ∈ memberDecoders c members, Fits depth entry.2 := by
  induction members with
  | nil =>
      exact List.forall_mem_nil _
  | cons member rest inductionHypothesis =>
      obtain ⟨head, tail⟩ := List.forall_mem_cons.mp each
      exact List.forall_mem_cons.mpr ⟨head, inductionHypothesis tail⟩

theorem unhindered_decodeProperties {decoders : Entries Decoder} {done : Entries Value}
    {properties : List (Property TypeDef)} (each : ∀ entry ∈ decoders, Fits depth entry.2) :
    Unhindered (decodeProperties c path depth decoders done properties) := by
  induction properties generalizing decoders done with
  | nil =>
      exact .ok
  | cons p rest inductionHypothesis =>
      cases found : decoders.find? (c.key p.name) with
      | none =>
          rw [decodeProperties_cons_none found]
          split
          · exact inductionHypothesis each
          · exact .error rfl (by simp)
      | some read =>
          rw [decodeProperties_cons_some found]
          have left := fun entry listed => each entry ((Entries.erase_sublist (c.key p.name) decoders).subset listed)
          exact (each _ (Entries.mem_of_find? found) _ _).bind fun v _ => inductionHypothesis left

/-- Room for the containers of the JSON is all that the codec asks for. -/
theorem unhindered_decoder (room : depth + json.depth ≤ c.maxDepth) : Fits depth (decoder c json) := by
  induction json using Json.induct generalizing depth with
  | step json inductionHypothesis =>
    intro t path
    have parts : ∀ part ∈ json.parts, Fits (depth + 1) (decoder c part) := by
      intro part held
      have deeper := Json.depth_of_mem_parts held
      exact inductionHypothesis part held (by omega)
    cases json with
    | null =>
        rw [decoder_null]
        split
        · exact .ok
        split
        · exact .ok
        · exact .error rfl (by simp)
    | bool | num | str =>
        refine unhindered_target.bind fun form _ => ?_
        split
        · exact .ok
        · exact unhindered_decodeScalar
    | arr items =>
        have inner : depth + 1 ≤ c.maxDepth := by
          rw [Json.depth] at room
          omega
        refine unhindered_target.bind fun form _ => ?_
        cases form with
        | any =>
            exact .ok
        | elements item =>
            exact .inside inner (unhindered_decodeItems parts)
        | _ =>
            exact .error rfl (by simp)
    | obj members =>
        have inner : depth + 1 ≤ c.maxDepth := by
          rw [Json.depth] at room
          omega
        have decoders := fits_memberDecoders parts
        refine unhindered_target.bind fun form _ => ?_
        cases form with
        | any =>
            exact .ok
        | values item =>
            exact .inside inner (unhindered_decodeEntries parts)
        | object properties =>
            exact .inside inner (unhindered_decodeProperties decoders)
        | union key mapping =>
            refine unhindered_decodeTag.bind fun tag _ => ?_
            cases mapping.lookup tag with
            | none =>
                exact .error rfl (by simp)
            | some properties =>
                have left := fun entry listed =>
                  decoders entry ((Entries.erase_sublist (c.key key) (memberDecoders c members)).subset listed)
                exact .inside inner (unhindered_decodeProperties left)
        | _ =>
            exact .error rfl (by simp)

/-! ## What is written -/

/-- The numbers are kept as JSON keeps them, and no more than so many containers are around one another. -/
def KeptWithin (bound : Nat) (json : Json) : Prop :=
  json.Everywhere Json.KeepsNumber ∧ json.depth ≤ bound

namespace KeptWithin

variable {bound more : Nat}

theorem mono (kept : KeptWithin bound json) (le : bound ≤ more) : KeptWithin more json :=
  ⟨kept.1, Nat.le_trans kept.2 le⟩

theorem arr {items : List Json} (each : ∀ json ∈ items, KeptWithin bound json) : KeptWithin (bound + 1) (.arr items) := by
  refine ⟨.intro trivial fun json held => (each json held).1, ?_⟩
  rw [Json.depth]
  exact Nat.succ_le_succ (Json.depthOfItems_le_iff.mpr fun json held => (each json held).2)

theorem obj {members : Json.Members} (each : ∀ json ∈ members.map Prod.snd, KeptWithin bound json) :
    KeptWithin (bound + 1) (.obj members) := by
  refine ⟨.intro trivial fun json held => (each json held).1, ?_⟩
  rw [Json.depth]
  exact Nat.succ_le_succ (Json.depthOfMembers_le_iff.mpr fun json held => (each json held).2)

theorem str (s : String) : KeptWithin bound (.str s) :=
  ⟨.intro trivial (List.forall_mem_nil _), Nat.zero_le bound⟩

theorem num {n : Json.Number} (stored : (Json.num n).Stored) : KeptWithin bound (.num n) :=
  ⟨.intro stored (List.forall_mem_nil _), Nat.zero_le bound⟩

end KeptWithin

section Writing

variable {bound : Nat}

theorem keptWithin_encodeFloat {x : Binary64} (encoded : encodeFloat x path = .ok json) : KeptWithin bound json := by
  obtain ⟨finite, rfl⟩ := encodeFloat_eq_ok_iff.mp encoded
  exact .num finite

theorem keptWithin_encodeIntegerAt {n : Int} {form : Form TypeDef} (encoded : encodeIntegerAt v n form path = .ok json) :
    KeptWithin bound json := by
  unfold encodeIntegerAt at encoded
  split at encoded
  · next kind =>
    split at encoded
    · exact keptWithin_encodeFloat encoded
    split at encoded
    · next integer =>
      obtain ⟨inRange, rfl⟩ := encodeInteger_eq_ok_iff.mp encoded
      split
      · exact .str _
      · exact .num (kind.bounds_of_inRange integer inRange)
    · exact absurd encoded encodeMismatch_ne_ok
  · exact absurd encoded encodeMismatch_ne_ok

theorem keptWithin_encodeScalar {form : Form TypeDef} (typed : v.IsTyped) (encoded : encodeScalar v form path = .ok json) :
    KeptWithin bound json := by
  unfold encodeScalar at encoded
  split at encoded
  · cases encoded
    exact ⟨.intro trivial (List.forall_mem_nil _), Nat.zero_le bound⟩
  · cases encoded
    exact .str _
  · split at encoded
    · cases encoded
      exact .str _
    · cases encoded
  · cases encoded
    exact .str _
  · exact keptWithin_encodeFloat encoded
  · exact keptWithin_encodeFloat encoded
  · exact keptWithin_encodeIntegerAt encoded
  · exact keptWithin_encodeIntegerAt encoded
  · exact typed.elim
  · exact absurd encoded encodeMismatch_ne_ok

/-- Whatever the definition, what is written of a value is within the bound. -/
def WritesWithin (c : Codec) (bound : Nat) (v : Value) : Prop :=
  ∀ t path depth json, encoder c v t path depth = .ok json → KeptWithin bound json

theorem WritesWithin.mono {more : Nat} (writes : c.WritesWithin bound v) (le : bound ≤ more) : c.WritesWithin more v :=
  fun t path depth json encoded => (writes t path depth json encoded).mono le

theorem keptWithin_encodeItems {items : List Value} {index : Nat} {jsons : List Json}
    (each : ∀ v ∈ items, c.WritesWithin bound v) (encoded : encodeItems c item path depth index items = .ok jsons) :
    ∀ json ∈ jsons, KeptWithin bound json := by
  induction items generalizing index jsons with
  | nil =>
      cases encoded
      exact List.forall_mem_nil _
  | cons v rest inductionHypothesis =>
      obtain ⟨head, tail⟩ := List.forall_mem_cons.mp each
      obtain ⟨json, written, more⟩ := Except.bind_eq_ok_iff.mp encoded
      obtain ⟨others, writtenRest, made⟩ := Except.bind_eq_ok_iff.mp more
      cases made
      exact List.forall_mem_cons.mpr ⟨head _ _ _ _ written, inductionHypothesis tail writtenRest⟩

theorem keptWithin_encodeEntries {entries : List (String × Value)} {members : Json.Members}
    (each : ∀ entry ∈ entries, c.WritesWithin bound entry.2)
    (encoded : encodeEntries c item path depth entries = .ok members) :
    ∀ json ∈ members.map Prod.snd, KeptWithin bound json := by
  induction entries generalizing members with
  | nil =>
      cases encoded
      exact List.forall_mem_nil _
  | cons entry rest inductionHypothesis =>
      obtain ⟨key, v⟩ := entry
      obtain ⟨head, tail⟩ := List.forall_mem_cons.mp each
      obtain ⟨json, written, more⟩ := Except.bind_eq_ok_iff.mp encoded
      obtain ⟨others, writtenRest, made⟩ := Except.bind_eq_ok_iff.mp more
      cases made
      exact List.forall_mem_cons.mpr ⟨head _ _ _ _ written, inductionHypothesis tail writtenRest⟩

theorem keptWithin_encodeProperties {fields : List (String × Value)} {done members : Json.Members}
    {properties : List (Property TypeDef)} (each : ∀ field ∈ fields, c.WritesWithin bound field.2)
    (keptDone : ∀ json ∈ done.map Prod.snd, KeptWithin bound json)
    (encoded : encodeProperties c (fieldEncoders c fields) path depth done properties = .ok members) :
    ∀ json ∈ members.map Prod.snd, KeptWithin bound json := by
  induction properties generalizing done with
  | nil =>
      cases encoded
      exact keptDone
  | cons p rest inductionHypothesis =>
      have write := @find?_fieldEncoders_join c fields p.name
      cases found : Value.present? p.name fields with
      | none =>
          rw [found] at write
          rw [encodeProperties_cons_none write] at encoded
          split at encoded
          · exact inductionHypothesis keptDone encoded
          · cases encoded
      | some v =>
          rw [found] at write
          rw [encodeProperties_cons_some write] at encoded
          obtain ⟨json, written, encoded⟩ := Except.bind_eq_ok_iff.mp encoded
          have listed : (p.name, v) ∈ fields := Entries.mem_of_find? (Option.filter_eq_some_iff.mp found).1
          refine inductionHypothesis (List.forall_mem_map.mpr fun member new => ?_) encoded
          rcases Json.Members.mem_set new with rfl | before
          · exact each _ listed _ _ _ _ written
          · exact keptDone _ (List.mem_map_of_mem before)

/-- What is written nests no deeper than the value, and its numbers are those of JSON. -/
theorem writesWithin_depth (typed : v.Everywhere Value.IsTyped) : c.WritesWithin v.depth v := by
  induction v using Value.induct with
  | absent =>
      intro t path depth json encoded
      cases encoded
  | null =>
      intro t path depth json encoded
      obtain ⟨-, rfl⟩ := encoder_null_eq_ok_iff.mp encoded
      exact ⟨.intro trivial (List.forall_mem_nil _), Nat.zero_le _⟩
  | scalar v isScalar =>
      intro t path depth json encoded
      obtain ⟨form, -, written⟩ := (encoder_scalar_eq_ok_iff isScalar).mp encoded
      exact keptWithin_encodeScalar typed.here written
  | array items inductionHypothesis =>
      intro t path depth json encoded
      obtain ⟨item, -, -, jsons, parts, rfl⟩ := encoder_array_eq_ok_iff.mp encoded
      rw [Value.depth]
      refine .arr (keptWithin_encodeItems (fun v member => ?_) parts)
      exact (inductionHypothesis v member (typed.array v member)).mono
        (Value.depthOfItems_le_iff.mp (Nat.le_refl _) v member)
  | map entries inductionHypothesis =>
      intro t path depth json encoded
      obtain ⟨item, -, -, members, parts, rfl⟩ := encoder_map_eq_ok_iff.mp encoded
      rw [Value.depth]
      refine .obj (keptWithin_encodeEntries (fun entry member => ?_) parts)
      exact (inductionHypothesis entry member (typed.map entry member)).mono (Value.depth_le_depthOfEntries member)
  | object fields inductionHypothesis =>
      intro t path depth json encoded
      obtain ⟨properties, -, -, members, parts, rfl⟩ := encoder_object_eq_ok_iff.mp encoded
      rw [Value.depth]
      refine .obj (keptWithin_encodeProperties (fun field member => ?_) (List.forall_mem_nil _) parts)
      exact (inductionHypothesis field member (typed.object field member)).mono (Value.depth_le_depthOfEntries member)
  | union tag fields inductionHypothesis =>
      intro t path depth json encoded
      obtain ⟨key, mapping, properties, -, -, -, members, parts, rfl⟩ := encoder_union_eq_ok_iff.mp encoded
      have tagKept : ∀ json ∈ ([(c.key key, .str tag)] : Json.Members).map Prod.snd,
          KeptWithin (Value.depthOfEntries fields) json :=
        List.forall_mem_singleton.mpr (.str tag)
      rw [Value.depth]
      refine .obj (keptWithin_encodeProperties (fun field member => ?_) tagKept parts)
      exact (inductionHypothesis field member (typed.union field member)).mono (Value.depth_le_depthOfEntries member)

end Writing

/-! ## Bytes -/

/-- The text of JSON is decoded as what is read of it, or is no JSON to the reader. -/
theorem decode_toUTF8_compress (kept : json.Everywhere Json.KeepsNumber) :
    c.decode json.compress.toUTF8 t =
      if json.depth ≤ Json.maxNesting then c.decodeJson json.reread t else .error .invalidJson := by
  rw [decode, Json.parseBytes?, Frame.fromUTF8?_toUTF8, Option.bind_some, Json.parse?_compress kept]
  by_cases shallow : json.depth ≤ Json.maxNesting <;> simp [shallow]

/-- What a codec has written from typed values within its bound is never too deep for it. It is refused as invalid JSON
exactly when it is deeper than the reader of JSON goes, which takes a value that is, and a bound that allows it. -/
theorem decode_encode_nesting (o : AppOptions) (defs : Definitions) (v : Value) (t : TypeDef) (text : String)
    (typed : v.Everywhere Value.IsTyped) (fits : v.depth ≤ o.maxDepth) (encoded : (o.codec defs).encode v t = .ok text) :
    ∃ json, (o.codec defs).encodeJson v t = .ok json ∧ text = json.compress ∧ json.depth ≤ v.depth ∧
      (Unhindered ((o.codec defs).decode text.toUTF8 t) ↔ json.depth ≤ Json.maxNesting) ∧
      (∀ error, (o.codec defs).decode text.toUTF8 t = .error error →
        error.isTooDeep = false ∧ (error = .invalidJson ↔ Json.maxNesting < json.depth)) := by
  obtain ⟨json, written, rfl⟩ := Except.map_eq_ok_iff.mp encoded
  obtain ⟨kept, lower⟩ := writesWithin_depth typed _ _ _ _ written
  have room : 0 + json.reread.depth ≤ o.maxDepth := by
    have same := Json.depth_reread_le json
    omega
  have free : Unhindered ((o.codec defs).decodeJson json.reread t) := unhindered_decoder room t rootPath
  refine ⟨json, written, rfl, lower, ?_⟩
  rw [decode_toUTF8_compress kept]
  by_cases shallow : json.depth ≤ Json.maxNesting
  · rw [if_pos shallow]
    refine ⟨iff_of_true free shallow, fun error failed => ?_⟩
    obtain ⟨other, valid⟩ := free error failed
    exact ⟨other, iff_of_false valid (Nat.not_lt.mpr shallow)⟩
  · rw [if_neg shallow]
    refine ⟨iff_of_false (fun free => (free _ rfl).2 rfl) shallow, ?_⟩
    rintro _ ⟨⟩
    exact ⟨rfl, iff_of_true rfl (Nat.not_le.mp shallow)⟩

section Boxes

/-- A box holds boxes. -/
def boxes : Definitions where
  entries := [("Box", ⟨some ⟨.elements (.ref "Box"), false, {}⟩, none⟩)]

/-- An empty box with so many around it. -/
def boxed : Nat → Value
  | 0 => .array []
  | count + 1 => .array [boxed count]

def boxedJson : Nat → Json
  | 0 => .arr []
  | count + 1 => .arr [boxedJson count]

theorem depth_boxed {count : Nat} : (boxed count).depth = count + 1 := by
  induction count with
  | zero =>
      rfl
  | succ count inductionHypothesis =>
      simp [boxed, Value.depth, Value.depthOfItems, inductionHypothesis]

theorem depth_boxedJson {count : Nat} : (boxedJson count).depth = count + 1 := by
  induction count with
  | zero =>
      rfl
  | succ count inductionHypothesis =>
      simp [boxedJson, Json.depth, Json.depthOfItems, inductionHypothesis]

theorem typed_boxed {count : Nat} : (boxed count).Everywhere Value.IsTyped := by
  induction count with
  | zero =>
      decide
  | succ count inductionHypothesis =>
      exact (Value.everywhere_array trivial).mpr (List.forall_mem_singleton.mpr inductionHypothesis)

/-- Boxes can be written as long as the bound allows it. -/
theorem encoder_boxed {o : AppOptions} {count : Nat} (room : depth + (count + 1) ≤ o.maxDepth) :
    encoder (o.codec boxes) (boxed count) (.ref "Box") path depth = .ok (boxedJson count) := by
  have reached : (o.codec boxes).target (.ref "Box") = .ok (.elements (.ref "Box")) := rfl
  induction count generalizing path depth with
  | zero =>
      exact encoder_array_eq_ok_iff.mpr ⟨_, reached, room, [], rfl, rfl⟩
  | succ count inductionHypothesis =>
      have outer : depth + 1 ≤ o.maxDepth := by omega
      have inner : depth + 1 + (count + 1) ≤ o.maxDepth := by omega
      refine encoder_array_eq_ok_iff.mpr ⟨_, reached, outer, [boxedJson count], ?_, rfl⟩
      rw [encodeItems, inductionHypothesis inner]
      rfl

theorem encodeJson_boxed {o : AppOptions} {count : Nat} (room : count + 1 ≤ o.maxDepth) :
    (o.codec boxes).encodeJson (boxed count) (.ref "Box") = .ok (boxedJson count) :=
  encoder_boxed ((Nat.zero_add _).trans_le room)

theorem encode_boxed {o : AppOptions} {count : Nat} (room : count + 1 ≤ o.maxDepth) :
    (o.codec boxes).encode (boxed count) (.ref "Box") = .ok (boxedJson count).compress :=
  Except.map_eq_ok_iff.mpr ⟨_, encodeJson_boxed room, rfl⟩

/-- Too many boxes for the reader are no JSON to it, whatever the bound. -/
theorem decode_boxed {o : AppOptions} {count : Nat} (room : count + 1 ≤ o.maxDepth) (deep : Json.maxNesting ≤ count) :
    (o.codec boxes).decode (boxedJson count).compress.toUTF8 (.ref "Box") = .error .invalidJson := by
  have kept := (writesWithin_depth typed_boxed _ _ _ _ (encodeJson_boxed room)).1
  rw [decode_toUTF8_compress kept, depth_boxedJson, if_neg (Nat.not_le.mpr (Nat.lt_succ_of_le deep))]

/-- A bound that is one more than what the reader of JSON takes. -/
def generous : AppOptions :=
  { maxDepth := 128 }

theorem decode_encode_nesting_boxes :
    (boxed 127).depth ≤ generous.maxDepth ∧
      (generous.codec boxes).encode (boxed 126) (.ref "Box") = .ok (boxedJson 126).compress ∧
      Unhindered ((generous.codec boxes).decode (boxedJson 126).compress.toUTF8 (.ref "Box")) ∧
      (generous.codec boxes).encode (boxed 127) (.ref "Box") = .ok (boxedJson 127).compress ∧
      ¬ Unhindered ((generous.codec boxes).decode (boxedJson 127).compress.toUTF8 (.ref "Box")) := by
  have least (count : Nat) (room : count + 1 ≤ generous.maxDepth) :
      Unhindered ((generous.codec boxes).decode (boxedJson count).compress.toUTF8 (.ref "Box")) ↔
        count + 1 ≤ Json.maxNesting := by
    obtain ⟨json, written, -, -, free, -⟩ := decode_encode_nesting generous boxes (boxed count) (.ref "Box") _ typed_boxed
      (depth_boxed.trans_le room) (encode_boxed room)
    cases (encodeJson_boxed room).symm.trans written
    rw [free, depth_boxedJson]
  refine ⟨depth_boxed.le, encode_boxed (by decide), ?_, encode_boxed (by decide), ?_⟩
  · exact (least 126 (by decide)).mpr (by decide)
  · exact mt (least 127 (by decide)).mp (by decide)

/-- A bound over that of the reader is not the one that applies to bytes. -/
theorem generous_not_unhindered :
    ¬ ∀ (o : AppOptions) (defs : Definitions) (v : Value) (t : TypeDef) (text : String), o.validate = .ok () →
      defs.unresolvedRefs = [] → v.Everywhere Value.IsTyped → v.depth ≤ o.maxDepth →
      (o.codec defs).encode v t = .ok text → Unhindered ((o.codec defs).decode text.toUTF8 t) := by
  intro unhindered
  have noFault : generous.fault? = none := by decide +kernel
  have valid : generous.validate = .ok () := by rw [AppOptions.validate, noFault]
  have finished : boxes.unresolvedRefs = [] := by decide
  have free := unhindered generous boxes (boxed 127) (.ref "Box") _ valid finished typed_boxed depth_boxed.le
    (encode_boxed (Nat.le_refl _))
  exact (free _ (decode_boxed (Nat.le_refl _) (Nat.le_refl _))).2 rfl

end Boxes

end Codec

end SchemaRpc
