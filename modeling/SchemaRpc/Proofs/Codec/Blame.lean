import SchemaRpc.Proofs.Codec.Accepts
import SchemaRpc.Proofs.Codec.Places
import SchemaRpc.Proofs.Codec.Widened

/-!
# What decoding complains about

Every complaint of the decoder is about a part of the JSON that is reached along the definition (`Codec.Leads`), says
what is wrong there (`Codec.Fault`), and has the path of that part (`Codec.blamesParts`).
-/

namespace SchemaRpc

/-- The integer that a number or a string is. -/
def Json.integer? : Json → Option Int
  | num (.int n) => some n
  | str s => Decimal.readInt? s
  | _ => none

namespace PrimitiveKind

/-- The scalars of a kind, whatever its range. Decimal strings of more than 128 bits are no integers. -/
def Suits (kind : PrimitiveKind) : Json → Prop
  | .bool _ => kind = .boolean
  | .num n => kind.isFloat = true ∨ kind.isInteger = true ∧ ∃ i, n = .int i
  | .str s =>
      kind = .string ∨ (kind = .timestamp ∧ (Timestamp.ofText? s).isSome = true) ∨
        (kind.isStringified = true ∧ (Decimal.readInt128? s).isSome = true)
  | _ => False

/-- What fits a kind is of the kind and, where the kind has a range, in its range. -/
theorem fits_iff {kind : PrimitiveKind} {json : Json} :
    kind.Fits json ↔
      kind.Suits json ∧ ∀ n, kind.isInteger = true → json.integer? = some n → kind.inRange n = true := by
  cases json with
  | null | bool | arr | obj =>
      simp [Fits, Suits, Json.integer?]
  | num n =>
      cases integer : kind.isInteger with
      | false =>
          simp [Fits, Suits, integer]
      | true =>
          have notFloat := isFloat_eq_false_of_isInteger integer
          cases n <;> simp [Fits, Suits, Json.integer?, integer, notFloat]
  | str s =>
      constructor
      · rintro (rfl | ⟨rfl, read⟩ | ⟨stringified, n, read, inRange⟩)
        · exact ⟨.inl rfl, fun _ integer => absurd integer (by decide)⟩
        · exact ⟨.inr (.inl ⟨rfl, read⟩), fun _ integer => absurd integer (by decide)⟩
        · have integer := isInteger_of_isStringified stringified
          obtain ⟨i, wide, -⟩ := (Codec.exists_readInt128?_iff integer).mpr ⟨n, read, inRange⟩
          refine ⟨.inr (.inr ⟨stringified, Option.isSome_of_eq_some wide⟩), fun m _ same => ?_⟩
          cases read.symm.trans same
          exact inRange
      · rintro ⟨rfl | ⟨rfl, read⟩ | ⟨stringified, wide⟩, ranged⟩
        · exact .inl rfl
        · exact .inr (.inl ⟨rfl, read⟩)
        · obtain ⟨n, narrow⟩ := Option.isSome_iff_exists.mp wide
          have read : Decimal.readInt? s = some n := (Option.filter_eq_some_iff.mp narrow).1
          exact .inr (.inr ⟨stringified, n, read, ranged n (isInteger_of_isStringified stringified) read⟩)

end PrimitiveKind

/-- The JSON is of the kind that goes by this label in complaints. -/
def Json.IsOf (json : Json) (label : String) : Prop :=
  match PrimitiveKind.ofLabel? label with
  | some kind => kind.Suits json
  | none =>
      (label = "enum" ∧ ∃ s, json = .str s) ∨ (label = "array" ∧ ∃ items, json = .arr items) ∨
        ((label = "map" ∨ label = "object") ∧ ∃ members, json = .obj members)

namespace Json

variable {json : Json}

@[simp]
theorem isOf_label {kind : PrimitiveKind} : json.IsOf kind.label ↔ kind.Suits json := by
  rw [IsOf, PrimitiveKind.ofLabel?_label]

theorem isOf_string : json.IsOf "string" ↔ ∃ s, json = .str s := by
  have text : json.IsOf "string" ↔ PrimitiveKind.string.Suits json := @isOf_label json .string
  rw [text]
  cases json <;> simp [PrimitiveKind.Suits, PrimitiveKind.isFloat, PrimitiveKind.isInteger, PrimitiveKind.intRange?]

@[simp]
theorem isOf_enum : json.IsOf "enum" ↔ ∃ s, json = .str s := by
  have noScalar : PrimitiveKind.ofLabel? "enum" = none := by decide
  simp [IsOf, noScalar]

@[simp]
theorem isOf_array : json.IsOf "array" ↔ ∃ items, json = .arr items := by
  have noScalar : PrimitiveKind.ofLabel? "array" = none := by decide
  simp [IsOf, noScalar]

@[simp]
theorem isOf_map : json.IsOf "map" ↔ ∃ members, json = .obj members := by
  have noScalar : PrimitiveKind.ofLabel? "map" = none := by decide
  simp [IsOf, noScalar]

@[simp]
theorem isOf_object : json.IsOf "object" ↔ ∃ members, json = .obj members := by
  have noScalar : PrimitiveKind.ofLabel? "object" = none := by decide
  simp [IsOf, noScalar]

end Json

namespace Codec

/-- One container further in, along the definition and into the JSON, by one segment of a path. -/
inductive Step (c : Codec) : TypeDef → Json → String → TypeDef → Json → Prop where
  | item {t item : TypeDef} {items : List Json} {index : Nat} {json : Json} :
      c.target t = .ok (.elements item) → items[index]? = some json →
        Step c t (.arr items) (toString index) item json
  | entry {t item : TypeDef} {members : Json.Members} {key : String} {json : Json} :
      c.target t = .ok (.values item) → members.get? key = some json →
        Step c t (.obj members) key item json
  | field {t : TypeDef} {form : Form TypeDef} {members : Json.Members} {taken : List String}
      {properties : List (Property TypeDef)} {p : Property TypeDef} {json : Json} :
      c.target t = .ok form → c.Reads members form taken properties → p ∈ properties →
        members.get? (c.key p.name) = some json →
          Step c t (.obj members) (c.key p.name) p.type json

/-- Along the definition and into the JSON by segments. -/
inductive Leads (c : Codec) : TypeDef → Json → List String → TypeDef → Json → Prop where
  | here (t : TypeDef) (json : Json) : Leads c t json [] t json
  | step {t t' t'' : TypeDef} {json json' json'' : Json} {segment : String} {segments : List String} :
      c.Step t json segment t' json' → Leads c t' json' segments t'' json'' →
        Leads c t json (segment :: segments) t'' json''

/-- What is wrong with JSON at a definition, at a path and inside so many containers. -/
inductive Fault (c : Codec) (path : String) (depth : Nat) (t : TypeDef) : Json → CodecError → Prop where
  | null :
      t.nullable = false → isAny t = false → Fault c path depth t .null (.nullNotAllowed path)
  | mismatch {form : Form TypeDef} {json : Json} {actual : String} :
      c.target t = .ok form → ¬json.IsOf (expectedJson form) →
        Fault c path depth t json (.typeMismatch path (expectedJson form) actual)
  | outOfRange {kind : PrimitiveKind} {json : Json} {n : Int} :
      c.target t = .ok (.primitive kind) → json.integer? = some n → kind.inRange n = false →
        Fault c path depth t json (.outOfRange path n kind)
  | unlisted {listed : List String} {s : String} :
      c.target t = .ok (.enumeration listed) → s ∉ listed →
        Fault c path depth t (.str s) (.unknownEnumValue path s)
  | tooDeep {json : Json} :
      json.IsContainer → depth = c.maxDepth → Fault c path depth t json (.depthExceeded path c.maxDepth)
  | missing {form : Form TypeDef} {members : Json.Members} {taken : List String}
      {properties : List (Property TypeDef)} {p : Property TypeDef} :
      c.target t = .ok form → c.Reads members form taken properties → p ∈ properties → p.optional = false →
        members.get? (c.key p.name) = none →
          Fault c path depth t (.obj members) (.missingField (childPath path (c.key p.name)))
  | untagged {key : String} {mapping : List (String × List (Property TypeDef))} {members : Json.Members} :
      c.target t = .ok (.union key mapping) → members.get? (c.key key) = none →
        Fault c path depth t (.obj members) (.missingField (childPath path (c.key key)))
  | tagMismatch {key : String} {mapping : List (String × List (Property TypeDef))} {members : Json.Members}
      {tag : Json} :
      c.target t = .ok (.union key mapping) → members.get? (c.key key) = some tag → ¬tag.IsOf "string" →
        Fault c path depth t (.obj members) (.typeMismatch (childPath path (c.key key)) "string" tag.kind)
  | unknownTag {key tag : String} {mapping : List (String × List (Property TypeDef))} {members : Json.Members} :
      c.target t = .ok (.union key mapping) → members.get? (c.key key) = some (.str tag) →
        mapping.lookup tag = none →
          Fault c path depth t (.obj members) (.unknownTag (childPath path (c.key key)) tag)

/-- A complaint is about a part of the JSON, by the path of the part. -/
def Blames (c : Codec) (t : TypeDef) (json : Json) (path : String) (depth : Nat) (error : CodecError) : Prop :=
  ∃ segments t' json', c.Leads t json segments t' json' ∧
    c.Fault (segments.foldl childPath path) (depth + segments.length) t' json' error

variable {c : Codec} {t item : TypeDef} {path : String} {depth : Nat} {json : Json} {error : CodecError}

theorem Fault.blames (fault : c.Fault path depth t json error) : c.Blames t json path depth error :=
  ⟨[], t, json, .here t json, fault⟩

theorem Step.blames {t' : TypeDef} {json' : Json} {segment : String} (step : c.Step t json segment t' json')
    (blames : c.Blames t' json' (childPath path segment) (depth + 1) error) : c.Blames t json path depth error := by
  obtain ⟨segments, t'', json'', leads, fault⟩ := blames
  refine ⟨segment :: segments, t'', json'', .step step leads, ?_⟩
  rwa [List.foldl_cons, List.length_cons, Nat.add_comm segments.length, ← Nat.add_assoc]

/-! ## Where a complaint comes from -/

/-- References that do not end are no place. -/
theorem path?_of_target (failed : c.target t = .error error) : error.path? = none := by
  obtain ⟨name, rfl⟩ := exists_of_target_error failed
  rfl

/-- What goes wrong with the parts one container further in, where that container is allowed. -/
theorem inside_eq_error {α β : Type} {parts : Nat → Except CodecError α} {whole : α → β}
    (room : depth ≤ c.maxDepth)
    (failed : (c.enter depth path >>= fun inner => parts inner >>= fun x => pure (whole x)) = .error error) :
    (depth = c.maxDepth ∧ error = .depthExceeded path c.maxDepth) ∨
      (depth + 1 ≤ c.maxDepth ∧ parts (depth + 1) = .error error) := by
  rcases Except.bind_eq_error_iff.mp failed with tooDeep | ⟨inner, entered, rest⟩
  · obtain ⟨above, same⟩ := enter_eq_error_iff.mp tooDeep
    exact .inl ⟨by omega, same⟩
  · obtain ⟨inside, rfl⟩ := enter_eq_ok_iff.mp entered
    rcases Except.bind_eq_error_iff.mp rest with failed | ⟨x, -, wrapped⟩
    · exact .inr ⟨inside, failed⟩
    · cases wrapped

theorem decodeInteger_error {n : Int} {kind : PrimitiveKind} (failed : decodeInteger n kind path = .error error) :
    kind.inRange n = false ∧ error = .outOfRange path n kind := by
  unfold decodeInteger at failed
  split at failed
  · next outside =>
    cases failed
    exact ⟨by simpa using outside, rfl⟩
  · split at failed <;> cases failed

/-- A scalar kind complains of what is not of the kind, and of integers by their range. -/
theorem decodeScalar_primitive_error {kind : PrimitiveKind} (stored : json.Stored)
    (failed : decodeScalar json (.primitive kind) path = .error error) :
    (¬kind.Suits json ∧ ∃ actual, error = .typeMismatch path kind.label actual) ∨
      ∃ n, json.integer? = some n ∧ kind.inRange n = false ∧ error = .outOfRange path n kind := by
  cases json with
  | num n =>
      change decodeNumber n kind path = _ at failed
      unfold decodeNumber at failed
      split at failed
      · cases failed
      next notFloat =>
      split at failed
      · cases n with
        | int i =>
            have kept : (-2 ^ 63 ≤ i && i < 2 ^ 64 : Bool) = true := by
              rw [Bool.and_eq_true, decide_eq_true_eq, decide_eq_true_eq]
              exact stored
            dsimp only at failed
            rw [if_pos kept] at failed
            exact .inr ⟨i, rfl, decodeInteger_error failed⟩
        | float x =>
            cases failed
            exact .inl ⟨by simp [PrimitiveKind.Suits, notFloat], _, rfl⟩
      · next notInteger =>
        cases failed
        exact .inl ⟨by simp [PrimitiveKind.Suits, notFloat, notInteger], _, rfl⟩
  | str s =>
      change decodeString s kind path = _ at failed
      unfold decodeString at failed
      split at failed
      · cases failed
      next notString =>
      split at failed
      · next isTimestamp =>
        subst isTimestamp
        unfold decodeTimestamp at failed
        split at failed
        · cases failed
        · next unread =>
          cases failed
          exact .inl ⟨by simp [PrimitiveKind.Suits, unread, PrimitiveKind.isStringified], _, rfl⟩
      next notTimestamp =>
      split at failed
      · split at failed
        · next n read =>
          have integer : Decimal.readInt? s = some n := (Option.filter_eq_some_iff.mp read).1
          exact .inr ⟨n, integer, decodeInteger_error failed⟩
        · next unread =>
          cases failed
          exact .inl ⟨by simp [PrimitiveKind.Suits, notString, notTimestamp, unread], _, rfl⟩
      · next notStringified =>
        cases failed
        exact .inl ⟨by simp [PrimitiveKind.Suits, notString, notTimestamp, notStringified], _, rfl⟩
  | bool b =>
      cases kind <;> cases failed <;> exact .inl ⟨by simp [PrimitiveKind.Suits], _, rfl⟩
  | null | arr | obj =>
      cases failed
      exact .inl ⟨fun suits => suits, _, rfl⟩

theorem exists_of_decodeItems_error {items : List Json} {start : Nat}
    (failed : decodeItems c item path depth start items = .error error) :
    ∃ index json, items[index]? = some json ∧
      decoder c json item (childPath path (toString (start + index))) depth = .error error := by
  induction items generalizing start with
  | nil =>
      cases failed
  | cons head tail inductionHypothesis =>
      rcases Except.bind_eq_error_iff.mp failed with here | ⟨v, -, rest⟩
      · exact ⟨0, head, rfl, here⟩
      · rcases Except.bind_eq_error_iff.mp rest with later | ⟨vs, -, wrapped⟩
        · obtain ⟨index, json, found, failed⟩ := inductionHypothesis later
          refine ⟨index + 1, json, found, ?_⟩
          rwa [Nat.add_comm index, ← Nat.add_assoc]
        · cases wrapped

theorem exists_of_decodeEntries_error {members : Json.Members} {done : Entries Value}
    (failed : decodeEntries c item path depth done members = .error error) :
    ∃ member ∈ members, decoder c member.2 item (childPath path member.1) depth = .error error := by
  induction members generalizing done with
  | nil =>
      cases failed
  | cons head tail inductionHypothesis =>
      obtain ⟨key, json⟩ := head
      rcases Except.bind_eq_error_iff.mp failed with here | ⟨v, -, rest⟩
      · exact ⟨(key, json), List.mem_cons_self, here⟩
      · obtain ⟨member, later, failed⟩ := inductionHypothesis rest
        exact ⟨member, List.mem_cons_of_mem _ later, failed⟩

theorem exists_of_decodeProperties_error {members : Json.Members} {decoders : Entries Decoder} {done : Entries Value}
    {properties : List (Property TypeDef)} (distinct : (Form.wireKeys c.casing properties).Nodup)
    (agree : ∀ p ∈ properties, decoders.find? (c.key p.name) = (members.get? (c.key p.name)).map (decoder c))
    (failed : decodeProperties c path depth decoders done properties = .error error) :
    ∃ p ∈ properties,
      (members.get? (c.key p.name) = none ∧ p.optional = false ∧
          error = .missingField (childPath path (c.key p.name))) ∨
        ∃ json, members.get? (c.key p.name) = some json ∧
          decoder c json p.type (childPath path (c.key p.name)) depth = .error error := by
  induction properties generalizing decoders done with
  | nil =>
      cases failed
  | cons p rest inductionHypothesis =>
      have fresh : c.key p.name ∉ Form.wireKeys c.casing rest := (List.nodup_cons.mp distinct).1
      have distinctRest : (Form.wireKeys c.casing rest).Nodup := (List.nodup_cons.mp distinct).2
      obtain ⟨agreeHead, agreeTail⟩ := List.forall_mem_cons.mp agree
      cases found : members.get? (c.key p.name) with
      | none =>
          rw [found] at agreeHead
          rw [decodeProperties_cons_none agreeHead] at failed
          split at failed
          · obtain ⟨q, declared, fails⟩ := inductionHypothesis distinctRest agreeTail failed
            exact ⟨q, List.mem_cons_of_mem p declared, fails⟩
          · next required =>
            cases failed
            exact ⟨p, List.mem_cons_self, .inl ⟨found, by simpa using required, rfl⟩⟩
      | some json =>
          rw [found] at agreeHead
          rw [decodeProperties_cons_some agreeHead] at failed
          rcases Except.bind_eq_error_iff.mp failed with here | ⟨v, -, later⟩
          · exact ⟨p, List.mem_cons_self, .inr ⟨json, found, here⟩⟩
          · have agreeErased : ∀ q ∈ rest, (decoders.erase (c.key p.name)).find? (c.key q.name) =
                (members.get? (c.key q.name)).map (decoder c) := by
              intro q member
              rw [find?_erase_decoders fresh member]
              exact agreeTail q member
            obtain ⟨q, declared, fails⟩ := inductionHypothesis distinctRest agreeErased later
            exact ⟨q, List.mem_cons_of_mem p declared, fails⟩

/-! ## Every complaint is about a part -/

/-- What is decoded neither is null nor has parts. -/
theorem fault_of_decodeScalar {form : Form TypeDef} (reached : c.target t = .ok form) (notAny : form ≠ .any)
    (stored : json.Stored) (notNull : json ≠ .null) (single : ¬json.IsContainer)
    (failed : decodeScalar json form path = .error error) :
    c.Fault path depth t json error := by
  cases form with
  | any =>
      exact absurd rfl notAny
  | primitive kind =>
      rcases decodeScalar_primitive_error stored failed with
        ⟨unsuited, actual, rfl⟩ | ⟨n, integer, outside, rfl⟩
      · exact .mismatch reached fun isOf => unsuited (Json.isOf_label.mp isOf)
      · exact .outOfRange reached integer outside
  | enumeration listed =>
      cases json with
      | str s =>
          change (if listed.contains s then _ else _) = _ at failed
          split at failed
          · cases failed
          · next unlisted =>
            cases failed
            exact .unlisted reached (by simpa using unlisted)
      | null | bool | num | arr | obj =>
          cases failed
          exact .mismatch reached (by simp [expectedJson, expected])
  | ref name =>
      exact absurd reached target_ne_ref
  | elements | values | object | union =>
      cases json with
      | null =>
          exact absurd rfl notNull
      | arr | obj =>
          exact absurd trivial single
      | bool | num | str =>
          cases failed
          exact .mismatch reached (by simp [expectedJson, expected])

/-- Whatever goes wrong in decoding at a place is blamed on a part of what stands there. -/
def BlamesParts (c : Codec) (json : Json) : Prop :=
  ∀ (t : TypeDef) (path : String) (depth : Nat) (error : CodecError),
    t.Everywhere (Form.WireDistinct c.casing) → depth ≤ c.maxDepth →
      decoder c json t path depth = .error error → error.path? ≠ none → c.Blames t json path depth error

theorem fault_of_decodeTag {key : String} {mapping : List (String × List (Property TypeDef))}
    {members : Json.Members} (reached : c.target t = .ok (.union key mapping))
    (failed : decodeTag c path key members = .error error) : c.Fault path depth t (.obj members) error := by
  unfold decodeTag at failed
  split at failed
  · next missing =>
    cases failed
    exact .untagged reached missing
  · cases failed
  · next tag notText found =>
    cases failed
    refine .tagMismatch reached found ?_
    rw [Json.isOf_string]
    rintro ⟨text, same⟩
    exact notText text same

/-- An object that is read as a record or a variant. -/
theorem blames_of_decodeProperties {form : Form TypeDef} {members : Json.Members} {taken : List String}
    {properties : List (Property TypeDef)} {decoders : Entries Decoder} (reached : c.target t = .ok form)
    (reads : c.Reads members form taken properties) (distinct : (Form.wireKeys c.casing properties).Nodup)
    (types : ∀ p ∈ properties, p.type.Everywhere (Form.WireDistinct c.casing))
    (agree : ∀ p ∈ properties, decoders.find? (c.key p.name) = (members.get? (c.key p.name)).map (decoder c))
    (parts : ∀ part ∈ (Json.obj members).parts, c.BlamesParts part) (inside : depth + 1 ≤ c.maxDepth)
    (failed : decodeProperties c path (depth + 1) decoders [] properties = .error error)
    (placed : error.path? ≠ none) : c.Blames t (.obj members) path depth error := by
  obtain ⟨p, declared, ⟨missing, required, rfl⟩ | ⟨json, found, failed⟩⟩ :=
    exists_of_decodeProperties_error distinct agree failed
  · exact (Fault.missing reached reads declared required missing).blames
  · have held : json ∈ (Json.obj members).parts := Json.mem_parts_of_get? found
    have blames := parts json held p.type _ _ error (types p declared) inside failed placed
    exact (Step.field reached reads declared found).blames blames

theorem blamesParts_arr {items : List Json} (bodies : c.definitions.Everywhere (Form.WireDistinct c.casing))
    (parts : ∀ part ∈ (Json.arr items).parts, c.BlamesParts part) : c.BlamesParts (.arr items) := by
  intro t path depth error distinct room failed placed
  have container : (Json.arr items).IsContainer := trivial
  rcases Except.bind_eq_error_iff.mp failed with unresolved | ⟨form, reached, rest⟩
  · exact absurd (path?_of_target unresolved) placed
  cases form with
  | any =>
      cases rest
  | elements item =>
      obtain ⟨s, -, sameForm, everywhere⟩ := exists_everywhere_of_target reached distinct bodies
      rcases inside_eq_error room rest with ⟨bottom, rfl⟩ | ⟨inside, failed⟩
      · exact (Fault.tooDeep container bottom).blames
      · obtain ⟨index, json, found, failed⟩ := exists_of_decodeItems_error failed
        rw [Nat.zero_add] at failed
        have held : json ∈ (Json.arr items).parts := List.mem_of_getElem? found
        have blames := parts json held item _ _ error (everywhere.elements sameForm) inside failed placed
        exact (Step.item reached found).blames blames
  | ref name =>
      exact absurd reached target_ne_ref
  | primitive | enumeration | values | object | union =>
      cases rest
      exact (Fault.mismatch reached (by simp [expectedJson, expected, PrimitiveKind.Suits])).blames

theorem blamesParts_obj {members : Json.Members} (bodies : c.definitions.Everywhere (Form.WireDistinct c.casing))
    (once : (members.map Prod.fst).Nodup) (parts : ∀ part ∈ (Json.obj members).parts, c.BlamesParts part) :
    c.BlamesParts (.obj members) := by
  intro t path depth error distinct room failed placed
  have container : (Json.obj members).IsContainer := trivial
  rcases Except.bind_eq_error_iff.mp failed with unresolved | ⟨form, reached, rest⟩
  · exact absurd (path?_of_target unresolved) placed
  obtain ⟨s, -, sameForm, everywhere⟩ := exists_everywhere_of_target reached distinct bodies
  cases form with
  | any =>
      cases rest
  | values item =>
      rcases inside_eq_error room rest with ⟨bottom, rfl⟩ | ⟨inside, failed⟩
      · exact (Fault.tooDeep container bottom).blames
      · obtain ⟨⟨key, json⟩, member, failed⟩ := exists_of_decodeEntries_error failed
        have found : members.get? key = some json := lookup_of_mem once member
        have held : json ∈ (Json.obj members).parts := Json.mem_parts_of_get? found
        have blames := parts json held item _ _ error (everywhere.values sameForm) inside failed placed
        exact (Step.entry reached found).blames blames
  | object properties =>
      rcases inside_eq_error room rest with ⟨bottom, rfl⟩ | ⟨inside, failed⟩
      · exact (Fault.tooDeep container bottom).blames
      · exact blames_of_decodeProperties reached .record (everywhere.here_of_form sameForm)
          (everywhere.object sameForm) (fun p _ => find?_memberDecoders_eq (c.key p.name)) parts inside failed placed
  | union key mapping =>
      rcases Except.bind_eq_error_iff.mp rest with untagged | ⟨tag, tagged, rest⟩
      · exact (fault_of_decodeTag reached untagged).blames
      have tagged : members.get? (c.key key) = some (.str tag) := decodeTag_eq_ok_iff.mp tagged
      cases listed : mapping.lookup tag with
      | none =>
          rw [listed] at rest
          cases rest
          exact (Fault.unknownTag reached tagged listed).blames
      | some properties =>
          rw [listed] at rest
          rcases inside_eq_error room rest with ⟨bottom, rfl⟩ | ⟨inside, failed⟩
          · exact (Fault.tooDeep container bottom).blames
          · have variant := mem_of_lookup listed
            have keys : (c.key key :: Form.wireKeys c.casing properties).Nodup :=
              everywhere.here_of_form sameForm (tag, properties) variant
            obtain ⟨fresh, distinctKeys⟩ := List.nodup_cons.mp keys
            exact blames_of_decodeProperties reached (.variant tagged listed) distinctKeys
              (everywhere.union sameForm (tag, properties) variant)
              (fun p declared => find?_erase_memberDecoders fresh declared) parts inside failed placed
  | ref name =>
      exact absurd reached target_ne_ref
  | primitive | enumeration | elements =>
      cases rest
      exact (Fault.mismatch reached (by simp [expectedJson, expected, PrimitiveKind.Suits])).blames

/-- Every complaint with a path is about a part of the JSON that the definition leads to. -/
theorem blamesParts (bodies : c.definitions.Everywhere (Form.WireDistinct c.casing)) {json : Json}
    (stored : json.Everywhere Json.Stored) : c.BlamesParts json := by
  induction json using Json.induct with
  | step json inductionHypothesis =>
    have parts : ∀ part ∈ json.parts, c.BlamesParts part := fun part held =>
      inductionHypothesis part held (stored.parts part held)
    cases json with
    | null =>
        intro t path depth error _ _ failed _
        rw [decoder_null] at failed
        split at failed
        · cases failed
        split at failed
        · cases failed
        · next notNullable notAny =>
          cases failed
          exact (Fault.null (by simpa using notNullable) (by simpa using notAny)).blames
    | arr items =>
        exact blamesParts_arr bodies parts
    | obj members =>
        exact blamesParts_obj bodies stored.here parts
    | bool | num | str =>
        intro t path depth error _ _ failed placed
        rcases Except.bind_eq_error_iff.mp failed with unresolved | ⟨form, reached, rest⟩
        · exact absurd (path?_of_target unresolved) placed
        by_cases isAny : form = .any
        · subst isAny
          cases rest
        · refine (fault_of_decodeScalar reached isAny stored.here (by simp) (by simp [Json.IsContainer]) ?_).blames
          cases form <;> first | exact absurd rfl isAny | exact rest

end Codec

end SchemaRpc
