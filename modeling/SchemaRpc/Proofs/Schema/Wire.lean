import SchemaRpc.Proofs.Codec.Accepts
import SchemaRpc.Proofs.Codec.RoundTrip
import SchemaRpc.Proofs.Schema.Valid
import SchemaRpc.Registry.Basic

/-!
# Documents describe the wire

What is decoded is valid against the exported documents, and what is valid is decoded unless it is nested too deeply.
The induction is on the JSON: the decoder and the document of a definition agree on one layer of it by `Form.Accepts`,
and on its parts by the induction hypothesis.
-/

namespace SchemaRpc

namespace Schema

/-- The named documents of the schema of an application. -/
def definitionsOf : Json → Json.Members
  | .obj members =>
      match Json.Members.get? "definitions" members with
      | some (.obj definitions) => definitions
      | _ => []
  | _ => []

instance (casing : Casing) : DecidablePred (KeysApart casing) :=
  fun form => inferInstanceAs (Decidable (form.WireDistinct casing ∧ form.TagsDistinct))

variable {c : Codec} {definitions : Json.Members}

theorem valid_of_decoder (names : Names c definitions)
    (apartBodies : c.definitions.Everywhere (KeysApart c.casing)) (json : Json) :
    ∀ (t : TypeDef) (path : String) (depth : Nat) (v : Value), t.Everywhere (KeysApart c.casing) →
      Codec.decoder c json t path depth = .ok v → Valid definitions (t.toSchema c.casing) json := by
  induction json using Json.induct with
  | step json inductionHypothesis =>
      intro t path depth v apart decoded
      -- null is decided by the definition itself, anything else at the end of its references
      by_cases isNull : json = .null
      · subst isNull
        apply valid_null_iff.2
        rcases Codec.decoder_null_eq_ok_iff.1 decoded with ⟨nullable, _⟩ | ⟨_, carried, _⟩
        · exact .inl nullable
        · exact .inr carried
      · obtain ⟨form, reached⟩ := Codec.exists_target_of_decoder isNull decoded
        obtain ⟨s, resolved, sameForm, apartTarget⟩ := Codec.exists_everywhere_of_target reached apart apartBodies
        subst sameForm
        have decodes := Codec.accepts_of_decoder reached apartTarget.here.1 isNull decoded
        have accepts : s.form.Accepts c.casing (TakesValid definitions c.casing) json := by
          refine decodes.mono fun child inside part held ⟨path, v, decodedPart⟩ => ?_
          have apartChild := apartTarget.children child inside
          exact inductionHypothesis part held child path (depth + 1) v apartChild decodedPart
        exact valid_of_resolve names isNull resolved (valid_of_accepts rfl apartTarget.here isNull accepts)

theorem exists_decoder_of_valid (names : Names c definitions)
    (apartBodies : c.definitions.Everywhere (KeysApart c.casing)) (json : Json) :
    ∀ (t : TypeDef) (path : String) (depth : Nat), t.Everywhere (KeysApart c.casing) →
      depth + json.depth ≤ c.maxDepth → Valid definitions (t.toSchema c.casing) json →
        ∃ v, Codec.decoder c json t path depth = .ok v := by
  induction json using Json.induct with
  | step json inductionHypothesis =>
      intro t path depth apart room valid
      by_cases isNull : json = .null
      · subst isNull
        have allowed := valid_null_iff.1 valid
        cases nullable : t.nullable with
        | true =>
            exact ⟨.null, Codec.decoder_null_eq_ok_iff.2 (.inl ⟨nullable, rfl⟩)⟩
        | false =>
            rw [nullable] at allowed
            have carried := allowed.resolve_left nofun
            exact ⟨.any .null, Codec.decoder_null_eq_ok_iff.2 (.inr ⟨nullable, carried, rfl⟩)⟩
      · obtain ⟨form, reached, accepts⟩ := exists_accepts_of_valid names apartBodies valid t rfl apart isNull
        obtain ⟨s, _, sameForm, apartTarget⟩ := Codec.exists_everywhere_of_target reached apart apartBodies
        subst sameForm
        apply Codec.exists_decoder_of_accepts reached apartTarget.here.1 isNull room
        refine accepts.mono fun child inside part held validPart path => ?_
        -- a part is entered one level further down and is at least one level shallower
        have shallower := Json.depth_of_mem_parts held
        have roomPart : depth + 1 + part.depth ≤ c.maxDepth := by
          omega
        have apartChild := apartTarget.children child inside
        exact inductionHypothesis part held child path (depth + 1) apartChild roomPart validPart

end Schema

namespace Registry

/-- The codec over the table of a registry. -/
def codec (r : Registry) (casing : Casing) (maxDepth : Nat) : Codec :=
  ⟨r.definitions, casing, maxDepth⟩

variable {r : Registry} {casing : Casing}

theorem definitionsOf_toSchema (info : AppInfo) (routePrefix : String) :
    Schema.definitionsOf (r.toSchema info routePrefix casing) =
      r.definitions.completed.map fun entry => (entry.1, entry.2.toSchema casing) := by
  unfold toSchema Schema.definitionsOf
  cases routePrefix.isEmpty <;> simp [Json.Members.get?, List.lookup_cons]

/-- The exported documents go by the names of the table. -/
theorem names_toSchema (info : AppInfo) (routePrefix : String) (maxDepth : Nat)
    (ascending : Entries.Ascending r.definitions.entries) :
    Schema.Names (r.codec casing maxDepth) (Schema.definitionsOf (r.toSchema info routePrefix casing)) := by
  intro name
  rw [definitionsOf_toSchema, Json.Members.get?, lookup_map (fun body => TypeDef.toSchema casing body),
    Definitions.lookup_completed ascending]
  rfl

/-- The exported schema describes exactly what is decoded, and it covers what is encoded. Only the depth bound of the
decoder is not in the documents. An incomplete table needs no exception: nothing is decoded at a reference without a body,
and nothing but an allowed null is valid there. -/
theorem decodes_iff_valid {t : TypeDef} (info : AppInfo) (routePrefix : String) (maxDepth : Nat)
    (ascending : Entries.Ascending r.definitions.entries)
    (apart : t.Everywhere (Schema.KeysApart casing))
    (apartBodies : r.definitions.Everywhere (Schema.KeysApart casing)) :
    (∀ json : Json, json.depth ≤ maxDepth →
      ((∃ v, (r.codec casing maxDepth).decodeJson json t = .ok v) ↔
        Schema.Valid (Schema.definitionsOf (r.toSchema info routePrefix casing)) (t.toSchema casing) json)) ∧
    (t.Everywhere (Form.AvoidsAny r.definitions) → r.definitions.Everywhere (Form.AvoidsAny r.definitions) →
      ∀ (v : Value) (json : Json), v.Everywhere Value.Stored → v.Everywhere Value.HasFourDigitYear →
        (r.codec casing maxDepth).encodeJson v t = .ok json →
          Schema.Valid (Schema.definitionsOf (r.toSchema info routePrefix casing)) (t.toSchema casing) json) := by
  have names := @names_toSchema r casing info routePrefix maxDepth ascending
  constructor
  · intro json shallow
    constructor
    · rintro ⟨v, decoded⟩
      exact Schema.valid_of_decoder names apartBodies json t rootPath 0 v apart decoded
    · intro valid
      have room : 0 + json.depth ≤ maxDepth := by
        omega
      exact Schema.exists_decoder_of_valid names apartBodies json t rootPath 0 apart room valid
  · intro avoids avoidsBodies v json stored dated encoded
    have clear : t.Everywhere (r.codec casing maxDepth).Clear := fun s member =>
      ⟨(apart s member).1, avoids s member⟩
    have clearBodies : r.definitions.Everywhere (r.codec casing maxDepth).Clear := fun entry listed s member =>
      ⟨(apartBodies entry listed s member).1, avoidsBodies entry listed s member⟩
    obtain ⟨decoded, _⟩ := Codec.decoder_encoder clearBodies rootPath clear stored dated encoded
    exact Schema.valid_of_decoder names apartBodies json t rootPath 0 _ apart decoded

/-- Circles, and paths that may go on in another figure. -/
def figureRegistry : Registry where
  definitions :=
    { entries :=
        [("Figure", ⟨some (.ofForm (.union "figure_kind"
            [("circle", [⟨"radius", .primitive .float64, false⟩]),
              ("path", [⟨"next_figure", (TypeDef.ref "Figure").withNullable true, true⟩,
                ⟨"point_count", .primitive .int64, false⟩])])), some 0⟩)] }

theorem decodes_iff_valid_figures :
    Schema.Valid (Schema.definitionsOf (figureRegistry.toSchema default "" .camel))
        ((TypeDef.elements (.ref "Figure")).toSchema .camel)
        (.arr [.obj [("figureKind", .str "path"), ("more", .null), ("pointCount", .num (.int 12))]]) ∧
      Schema.Valid (Schema.definitionsOf (figureRegistry.toSchema default "" .camel))
        ((TypeDef.elements (.ref "Figure")).toSchema .camel)
        (.arr [.obj [("figureKind", .str "path"), ("nextFigure", .null), ("pointCount", .str "12")]]) := by
  obtain ⟨decoded, encoded⟩ :=
    @decodes_iff_valid figureRegistry .camel (.elements (.ref "Figure")) default "" 8
      (List.pairwise_singleton _ _) (by decide) (by decide)
  constructor
  · refine (decoded _ (by decide)).1 ⟨.array [.union "path" [("point_count", .int 12)]], ?_⟩
    rfl
  · refine encoded (by decide) (by decide)
      (.array [.union "path" [("next_figure", .null), ("point_count", .int 12)]]) _ (by decide) (by decide) ?_
    rfl

/-- Any JSON, with a description. -/
def describedAny : TypeDef :=
  TypeDef.any.withMetadata { description := some "d" }

/-- Two variants under one tag, as no checked constructor makes them. -/
def twinTags : TypeDef :=
  .ofForm (.union "kind" [("a", [⟨"x", .any, false⟩]), ("a", [])])

/-- Null is taken at a described definition of the form any, whose document neither sets the flag nor is empty. Of two
variants under one tag the decoder takes the first and the document keeps the last. Null carried at a reference to the
form any is written, though the reference does not allow it. -/
theorem describedAny_takes_null :
    ¬ ((∃ v, (codec {} .camel 64).decodeJson .null describedAny = .ok v) ↔
        describedAny.toSchema .camel = .obj [] ∨
          (describedAny.schemaMembers .camel).get? "nullable" = some (.bool true)) ∧
      ¬ ((∃ v, (codec {} .camel 64).decodeJson (.obj [("kind", .str "a")]) twinTags = .ok v) ↔
        Schema.Valid [] (twinTags.toSchema .camel) (.obj [("kind", .str "a")])) ∧
      (codec { definitions := { entries := [("Any", ⟨some .any, none⟩)] } } .camel 64).encodeJson (.any .null)
          (.ref "Any") = .ok .null ∧
        ¬ Schema.Valid [("Any", TypeDef.any.toSchema .camel)] ((TypeDef.ref "Any").toSchema .camel) .null := by
  refine ⟨?_, ?_, rfl, ?_⟩
  · intro exact
    rcases exact.1 ⟨.any .null, rfl⟩ with empty | flagged
    · cases empty
    · cases flagged
  · intro exact
    have kept : Schema.Valid [] (.obj [("properties", .obj [])]) (.obj [("kind", .str "a")]) :=
      .properties rfl nofun nofun nofun
    obtain ⟨v, decoded⟩ := exact.2 (.discriminator rfl rfl rfl rfl kept)
    cases decoded
  · rw [Schema.valid_null_iff]
    decide

end Registry

end SchemaRpc
