import SchemaRpc.Proofs.Codec.Blame

/-!
# Where complaints point

Where keys can stand in paths, the path of a complaint can be followed through the JSON to what the complaint is about
(`Codec.located_decodeJson`).
-/

namespace SchemaRpc

namespace Form

variable {τ : Type} {casing : Casing}

/-- The keys that are looked for in objects of a form. -/
def keys (casing : Casing) : Form τ → List String
  | object properties => wireKeys casing properties
  | union key mapping => casing.apply key :: mapping.flatMap fun variant => wireKeys casing variant.2
  | _ => []

/-- All keys that are looked for can stand in paths. -/
def WireLegible (casing : Casing) (form : Form τ) : Prop :=
  ∀ key ∈ form.keys casing, IsSegment key

instance (casing : Casing) (form : Form τ) : Decidable (form.WireLegible casing) :=
  inferInstanceAs (Decidable (∀ key ∈ form.keys casing, IsSegment key))

end Form

/-- What a complaint tells about JSON by the segments of its path, where so many containers may be around one
another. -/
def CodecError.Tells (bound : Nat) (json : Json) (segments : List String) : CodecError → Prop
  | missingField _ =>
      ∃ front key members, segments = front ++ [key] ∧ json.follow? front = some (.obj members) ∧
        Json.Members.get? key members = none
  | nullNotAllowed _ => json.follow? segments = some .null
  | typeMismatch _ expected _ => ∃ part, json.follow? segments = some part ∧ ¬part.IsOf expected
  | depthExceeded _ max =>
      max = bound ∧ segments.length = bound ∧ ∃ part, json.follow? segments = some part ∧ part.IsContainer
  | unknownTag _ tag => json.follow? segments = some (.str tag)
  | unknownEnumValue _ text => json.follow? segments = some (.str text)
  | invalidValue _ message =>
      ∃ part n kind, json.follow? segments = some part ∧ part.integer? = some n ∧
        PrimitiveKind.inRange kind n = false ∧ message = toString n ++ " is out of range for " ++ kind.label
  | unresolvedRef _ | invalidJson => False

theorem Json.follow?_of_obj {json : Json} {front : List String} {members : Json.Members}
    (followed : json.follow? front = some (.obj members)) (key : String) :
    json.follow? (front ++ [key]) = members.get? key := by
  rw [follow?_append, followed, Option.bind_some]
  exact Option.bind_fun_some _

namespace Codec

variable {c : Codec} {t t' : TypeDef} {json part : Json} {segment : String} {segments : List String}
  {error : CodecError}

theorem Reads.mem_keys {members : Json.Members} {form : Form TypeDef} {taken : List String}
    {properties : List (Property TypeDef)} {p : Property TypeDef} (reads : c.Reads members form taken properties)
    (declared : p ∈ properties) : c.key p.name ∈ form.keys c.casing := by
  cases reads with
  | record =>
      exact mem_wireKeys declared
  | variant _ listed =>
      exact List.mem_cons_of_mem _ (List.mem_flatMap.mpr ⟨_, mem_of_lookup listed, mem_wireKeys declared⟩)
  | untold _ =>
      cases declared

/-! ## Following a definition -/

theorem Step.child? (step : c.Step t json segment t' part) : json.child? segment = some part := by
  cases step with
  | item _ found =>
      rw [Json.child?_index, found]
  | entry _ found =>
      exact found
  | field _ _ _ found =>
      exact found

theorem Leads.follow? (leads : c.Leads t json segments t' part) : json.follow? segments = some part := by
  induction leads with
  | here _ _ =>
      rfl
  | step step _ inductionHypothesis =>
      rw [Json.follow?, step.child?, Option.bind_some, inductionHypothesis]

theorem Step.everywhere {promise : Form TypeDef → Prop} (step : c.Step t json segment t' part)
    (here : t.Everywhere promise) (bodies : c.definitions.Everywhere promise) : t'.Everywhere promise := by
  cases step with
  | item reached _ =>
      obtain ⟨s, -, sameForm, everywhere⟩ := exists_everywhere_of_target reached here bodies
      exact everywhere.elements sameForm
  | entry reached _ =>
      obtain ⟨s, -, sameForm, everywhere⟩ := exists_everywhere_of_target reached here bodies
      exact everywhere.values sameForm
  | field reached reads declared _ =>
      obtain ⟨s, -, sameForm, everywhere⟩ := exists_everywhere_of_target reached here bodies
      cases reads with
      | record =>
          exact everywhere.object sameForm _ declared
      | variant _ listed =>
          exact everywhere.union sameForm _ (mem_of_lookup listed) _ declared
      | untold _ =>
          cases declared

theorem Leads.everywhere {promise : Form TypeDef → Prop} (leads : c.Leads t json segments t' part)
    (here : t.Everywhere promise) (bodies : c.definitions.Everywhere promise) : t'.Everywhere promise := by
  induction leads with
  | here _ _ =>
      exact here
  | step step _ inductionHypothesis =>
      exact inductionHypothesis (step.everywhere here bodies)

theorem Step.isSegment (step : c.Step t json segment t' part) (keys : json.KeysLegible) : IsSegment segment := by
  have ofKey {members : Json.Members} {key : String} {part : Json} (keys : (Json.obj members).KeysLegible)
      (found : members.get? key = some part) : IsSegment key :=
    keys (key, part) (mem_of_lookup found)
  cases step with
  | item _ _ =>
      exact isSegment_index _
  | entry _ found =>
      exact ofKey keys found
  | field _ _ _ found =>
      exact ofKey keys found

theorem Step.mem_parts (step : c.Step t json segment t' part) : part ∈ json.parts := by
  cases step with
  | item _ found =>
      exact List.mem_of_getElem? found
  | entry _ found =>
      exact Json.mem_parts_of_get? found
  | field _ _ _ found =>
      exact Json.mem_parts_of_get? found

theorem Leads.isSegment (leads : c.Leads t json segments t' part) (keys : json.Everywhere Json.KeysLegible) :
    ∀ segment ∈ segments, IsSegment segment := by
  induction leads with
  | here _ _ =>
      exact List.forall_mem_nil _
  | step step _ inductionHypothesis =>
      exact List.forall_mem_cons.mpr ⟨step.isSegment keys.here, inductionHypothesis (keys.parts _ step.mem_parts)⟩

/-! ## The place of a complaint -/

/-- The segments are those of the place itself or lead on to a key that is looked for there. -/
def PointsInto (c : Codec) (t : TypeDef) (front segments : List String) : Prop :=
  segments = front ∨ ∃ form, c.target t = .ok form ∧ ∃ key ∈ form.keys c.casing, segments = front ++ [key]

/-- The path of a complaint is made of segments. What the complaint tells by them is so, and they lead along the
definition to what is wrong. -/
structure Located (c : Codec) (t : TypeDef) (json : Json) (path : String) (error : CodecError)
    (segments : List String) : Prop where
  path_eq : path = placePath segments
  segments_eq : pathSegments path = segments
  tells : error.Tells c.maxDepth json segments
  declared : ∃ front t' part, c.Leads t json front t' part ∧
    c.Fault (placePath front) front.length t' part error ∧ c.PointsInto t' front segments

/-- What is wrong at a place is told at the place or at a key that is looked for there. -/
theorem Fault.exists_tells {front : List String} (fault : c.Fault (placePath front) front.length t part error)
    (followed : json.follow? front = some part) (legible : ∀ segment ∈ front, IsSegment segment) :
    ∃ segments, error.path? = some (placePath segments) ∧ error.Tells c.maxDepth json segments ∧
      c.PointsInto t front segments := by
  have below (key : String) : childPath (placePath front) key = placePath (front ++ [key]) :=
    childPath_placePath legible key
  have lookedFor {form : Form TypeDef} {key : String} (reached : c.target t = .ok form)
      (declared : key ∈ form.keys c.casing) : c.PointsInto t front (front ++ [key]) :=
    .inr ⟨form, reached, key, declared, rfl⟩
  cases fault with
  | null _ _ =>
      exact ⟨front, rfl, followed, .inl rfl⟩
  | mismatch reached misfits =>
      exact ⟨front, rfl, ⟨part, followed, misfits⟩, .inl rfl⟩
  | outOfRange reached integer outside =>
      exact ⟨front, rfl, ⟨part, _, _, followed, integer, outside, rfl⟩, .inl rfl⟩
  | unlisted _ _ =>
      exact ⟨front, rfl, followed, .inl rfl⟩
  | tooDeep container bottom =>
      exact ⟨front, rfl, ⟨rfl, bottom, part, followed, container⟩, .inl rfl⟩
  | @missing form members taken properties p reached reads declared required missing =>
      refine ⟨front ++ [c.key p.name], ?_, ⟨front, c.key p.name, members, rfl, followed, missing⟩,
        lookedFor reached (reads.mem_keys declared)⟩
      rw [below]
      rfl
  | @untagged key mapping members reached missing =>
      refine ⟨front ++ [c.key key], ?_, ⟨front, c.key key, members, rfl, followed, missing⟩,
        lookedFor reached List.mem_cons_self⟩
      rw [below]
      rfl
  | @tagMismatch key mapping members tag reached found notText =>
      refine ⟨front ++ [c.key key], ?_, ⟨tag, ?_, notText⟩, lookedFor reached List.mem_cons_self⟩
      · rw [below]
        rfl
      · rw [Json.follow?_of_obj followed, found]
  | @unknownTag key tag mapping members reached found unlisted =>
      refine ⟨front ++ [c.key key], ?_, ?_, lookedFor reached List.mem_cons_self⟩
      · rw [below]
        rfl
      · exact (Json.follow?_of_obj followed (c.key key)).trans found

/-- The path of every complaint can be followed through the JSON to what the complaint is about. -/
theorem located_decodeJson {c : Codec} {t : TypeDef} {json : Json} {error : CodecError} {path : String}
    (distinct : t.Everywhere (Form.WireDistinct c.casing))
    (bodiesDistinct : c.definitions.Everywhere (Form.WireDistinct c.casing))
    (legible : t.Everywhere (Form.WireLegible c.casing))
    (bodiesLegible : c.definitions.Everywhere (Form.WireLegible c.casing))
    (stored : json.Everywhere Json.Stored) (keys : json.Everywhere Json.KeysLegible)
    (failed : c.decodeJson json t = .error error) (placed : error.path? = some path) :
    ∃ segments, c.Located t json path error segments := by
  have somewhere : error.path? ≠ none := by
    rw [placed]
    exact Option.some_ne_none path
  obtain ⟨front, t', part, leads, fault⟩ :=
    blamesParts bodiesDistinct stored t rootPath 0 error distinct (Nat.zero_le _) failed somewhere
  have legibleFront := leads.isSegment keys
  rw [foldl_childPath legibleFront, Nat.zero_add] at fault
  obtain ⟨segments, at_path, tells, pointsInto⟩ := fault.exists_tells leads.follow? legibleFront
  have legibleSegments : ∀ segment ∈ segments, IsSegment segment := by
    rcases pointsInto with rfl | ⟨form, reached, key, lookedFor, rfl⟩
    · exact legibleFront
    · obtain ⟨s, -, sameForm, everywhere⟩ :=
        exists_everywhere_of_target reached (leads.everywhere legible bodiesLegible) bodiesLegible
      have last : IsSegment key := everywhere.here_of_form sameForm key lookedFor
      exact List.forall_mem_append.mpr ⟨legibleFront, List.forall_mem_singleton.mpr last⟩
  have same : path = placePath segments := Option.some.inj (placed.symm.trans at_path)
  refine ⟨segments, same, ?_, tells, front, t', part, leads, fault, pointsInto⟩
  rw [same, pathSegments_placePath legibleSegments]

section Roster

/-- People with their names and years of birth. -/
def rosterCodec : Codec where
  definitions :=
    { entries :=
        [("Person", ⟨some (.object
          [⟨"name", .primitive .string, false⟩, ⟨"birth_year", .primitive .uint16, false⟩]), none⟩)] }

def roster : TypeDef :=
  .object [⟨"people", .elements (.ref "Person"), false⟩]

/-- The second year is none of sixteen bits. -/
def rosterText : Json :=
  .obj [("people", .arr [
    .obj [("name", .str "a"), ("birthYear", .num (.int 1990))],
    .obj [("name", .str "b"), ("birthYear", .num (.int 99999))]])]

theorem located_decodeJson_roster :
    rosterCodec.decodeJson rosterText roster = .error (.outOfRange "/people/1/birthYear" 99999 .uint16) ∧
      rosterCodec.Located roster rosterText "/people/1/birthYear" (.outOfRange "/people/1/birthYear" 99999 .uint16)
        ["people", "1", "birthYear"] := by
  have person (name : String) (year : Int) (kept : -2 ^ 63 ≤ year ∧ year < 2 ^ 64) :
      (Json.obj [("name", .str name), ("birthYear", .num (.int year))]).Everywhere
        fun json => json.Stored ∧ json.KeysLegible := by
    have keys : ∀ key ∈ ["name", "birthYear"], IsSegment key := by decide
    refine .intro ⟨by simp [Json.Stored], ?_⟩ (List.forall_mem_cons.mpr ⟨?_, List.forall_mem_singleton.mpr ?_⟩)
    · exact List.forall_mem_cons.mpr ⟨keys _ (by simp), List.forall_mem_singleton.mpr (keys _ (by simp))⟩
    · exact .intro ⟨trivial, trivial⟩ (List.forall_mem_nil _)
    · exact .intro ⟨kept, trivial⟩ (List.forall_mem_nil _)
  have people := List.forall_mem_cons.mpr
    ⟨person "a" 1990 (by decide), List.forall_mem_singleton.mpr (person "b" 99999 (by decide))⟩
  have kept : rosterText.Everywhere fun json => json.Stored ∧ json.KeysLegible :=
    .intro ⟨by simp [Json.Stored, rosterText], List.forall_mem_singleton.mpr (by decide)⟩
      (List.forall_mem_singleton.mpr (.intro ⟨trivial, trivial⟩ people))
  have failed : rosterCodec.decodeJson rosterText roster = .error (.outOfRange "/people/1/birthYear" 99999 .uint16) :=
    rfl
  obtain ⟨segments, located⟩ := located_decodeJson (by decide) (by decide) (by decide) (by decide)
    (kept.mono fun _ => And.left) (kept.mono fun _ => And.right) failed rfl
  have same : ["people", "1", "birthYear"] = segments := located.segments_eq
  rw [same]
  exact ⟨failed, located⟩

end Roster

end Codec

end SchemaRpc
