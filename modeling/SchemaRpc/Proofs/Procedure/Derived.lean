import Mathlib.Data.List.Chain
import SchemaRpc.Procedure.Route
import SchemaRpc.Proofs.Casing.Ordinary
import SchemaRpc.Proofs.Codec.Places

/-!
# Derived routes

A procedure without a path of its own has a route exactly when its name is a list of identifiers between dots. The route
shows one segment per identifier, in small letters, digits and single hyphens. The words of the identifiers can be read
off it, so that two names share a route only where their identifiers have the same words in small letters
(`route_derived`).
-/

namespace SchemaRpc.Procedure

/-- A letter, and then letters, digits and underscores, all of ASCII. -/
def Identifier (text : String) : Prop :=
  ∃ first rest, text = String.ofList (first :: rest) ∧ first.isAlpha = true ∧
    ∀ c ∈ rest, c.isAlphanum = true ∨ c = '_'

/-- A name is made of these identifiers, with dots between them. -/
structure Composed (name : String) (ids : List String) : Prop where
  filled : ids ≠ []
  each : ∀ id ∈ ids, Identifier id
  name_eq : name = ".".intercalate ids

/-- A segment of a route: small letters and digits, with single hyphens between them. -/
structure WellFormedSegment (cs : List Char) : Prop where
  filled : cs ≠ []
  chars : ∀ c ∈ cs, Casing.isSmall c = true ∨ c = '-'
  begins : ∀ c ∈ cs.head?, c ≠ '-'
  ends : ∀ c ∈ cs.getLast?, c ≠ '-'
  /-- Of two neighbours one at least is no hyphen. -/
  single : cs.IsChain fun c next => c ≠ '-' ∨ next ≠ '-'

/-- The words of an identifier in small letters. -/
def smallWords (id : String) : List String :=
  (Casing.words id).map fun word => String.ofList (Text.lowercaseWord word)

variable {name id id' : String} {ids ids' : List String} {c : Char} {cs cs' : List Char} {ws : List (List Char)}

/-! ## Names -/

theorem splitAtDots_eq (current rest : List Char) :
    splitAtDots current rest = (rest.splitOn '.').modifyHead (current.reverse ++ ·) := by
  induction rest generalizing current with
  | nil =>
      simp [splitAtDots]
  | cons c rest inductionHypothesis =>
      have unchanged : (rest.splitOn '.').modifyHead ([].reverse ++ ·) = rest.splitOn '.' := by
        cases rest.splitOn '.' <;> rfl
      have split : (c :: rest).splitOn '.' =
          if c == '.' then [] :: rest.splitOn '.' else (rest.splitOn '.').modifyHead (c :: ·) :=
        List.splitOnP_cons_eq_if_modifyHead c rest
      rw [splitAtDots, inductionHypothesis, inductionHypothesis, unchanged, split]
      by_cases dot : (c == '.') = true
      · simp [dot]
      · simp [dot, Function.comp_def]

theorem segments_eq (name : String) : segments name = name.toList.splitOn '.' := by
  rw [segments, splitAtDots_eq]
  cases name.toList.splitOn '.' <;> rfl

theorem isIdentifier_iff : isIdentifier cs = true ↔ Identifier (String.ofList cs) := by
  constructor
  · intro valid
    cases cs with
    | nil =>
        cases valid
    | cons first rest =>
        obtain ⟨letter, more⟩ := Bool.and_eq_true_iff.1 valid
        refine ⟨first, rest, rfl, letter, fun c member => ?_⟩
        simpa using List.all_eq_true.1 more c member
  · rintro ⟨first, rest, same, letter, more⟩
    cases String.ofList_injective same
    refine Bool.and_eq_true_iff.2 ⟨letter, List.all_eq_true.2 fun c member => ?_⟩
    simpa using more c member

theorem Identifier.no_dot (identifier : Identifier id) : '.' ∉ id.toList := by
  obtain ⟨first, rest, rfl, letter, more⟩ := identifier
  rw [String.toList_ofList, List.mem_cons, not_or]
  refine ⟨?_, fun member => ?_⟩
  · rintro rfl
    cases letter
  · rcases more '.' member with alphanumeric | same
    · cases alphanumeric
    · cases same

/-- The segments of a composed name are its identifiers. -/
theorem Composed.segments_eq (composed : Composed name ids) : segments name = ids.map String.toList := by
  have apart : ∀ cs ∈ ids.map String.toList, '.' ∉ cs :=
    List.forall_mem_map.2 fun id member => (composed.each id member).no_dot
  have filled : ids.map String.toList ≠ [] := fun empty => composed.filled (List.map_eq_nil_iff.1 empty)
  rw [Procedure.segments_eq, composed.name_eq, String.toList_intercalate]
  exact List.splitOn_intercalate '.' apart filled

theorem isValidName_iff : isValidName name = true ↔ ∃ ids, Composed name ids := by
  constructor
  · intro valid
    refine ⟨(segments name).map String.ofList, ?_, ?_, ?_⟩
    · rw [segments_eq]
      simp [List.splitOn]
    · exact List.forall_mem_map.2 fun cs member => isIdentifier_iff.1 (List.all_eq_true.1 valid cs member)
    · refine String.toList_injective ?_
      rw [String.toList_intercalate, segments_eq, List.map_map]
      simp [Function.comp_def, List.intercalate_splitOn]
  · rintro ⟨ids, composed⟩
    rw [isValidName, composed.segments_eq]
    refine List.all_eq_true.2 (List.forall_mem_map.2 fun id member => ?_)
    refine isIdentifier_iff.2 ?_
    rw [String.ofList_toList]
    exact composed.each id member

/-! ## Segments -/

theorem hyphen_ne_of_isSmall (small : Casing.isSmall c = true) : c ≠ '-' := by
  rintro rfl
  cases small

theorem wellFormed_word (filled : cs ≠ []) (small : ∀ c ∈ cs, Casing.isSmall c = true) : WellFormedSegment cs where
  filled := filled
  chars c member := .inl (small c member)
  begins c first := hyphen_ne_of_isSmall (small c (List.mem_of_mem_head? first))
  ends c last := hyphen_ne_of_isSmall (small c (List.mem_of_mem_getLast? last))
  single := by
    refine List.Pairwise.isChain (List.pairwise_of_forall_mem_list fun c member _ _ => ?_)
    exact .inl (hyphen_ne_of_isSmall (small c member))

/-- A hyphen joins two segments to one. -/
theorem WellFormedSegment.join (first : WellFormedSegment cs) (second : WellFormedSegment cs') :
    WellFormedSegment (cs ++ ['-'] ++ cs') where
  filled := by simp
  chars := by
    refine List.forall_mem_append.2 ⟨List.forall_mem_append.2 ⟨first.chars, ?_⟩, second.chars⟩
    exact List.forall_mem_singleton.2 (.inr rfl)
  begins c isFirst := by
    obtain ⟨before, rest, rfl⟩ := List.exists_cons_of_ne_nil first.filled
    exact first.begins c isFirst
  ends c isLast := by
    obtain ⟨front, last, rfl⟩ := (List.eq_nil_or_concat' cs').resolve_left second.filled
    rw [← List.append_assoc, List.getLast?_concat] at isLast
    refine second.ends c ?_
    rwa [List.getLast?_concat]
  single := by
    rw [List.append_assoc]
    refine List.isChain_append.2 ⟨first.single, ?_, fun c last _ _ => .inl (first.ends c last)⟩
    exact List.isChain_cons.2 ⟨fun c isFirst => .inr (second.begins c isFirst), second.single⟩

theorem wellFormed_intercalate (filled : ws ≠ []) (each : ∀ w ∈ ws, WellFormedSegment w) :
    WellFormedSegment (['-'].intercalate ws) := by
  induction ws with
  | nil =>
      exact absurd rfl filled
  | cons w ws inductionHypothesis =>
      obtain ⟨here, later⟩ := List.forall_mem_cons.1 each
      cases ws with
      | nil =>
          rwa [List.intercalate_singleton]
      | cons next ws =>
          rw [List.intercalate_cons_cons]
          exact here.join (inductionHypothesis (List.cons_ne_nil next ws) later)

/-! ## Words of identifiers -/

/-- Letters and digits belong to words, and are small letters and digits once they are put in small letters. -/
theorem isAlphanum_spec (alphanumeric : c.isAlphanum = true) :
    c.toNat < 128 ∧ Casing.isSeparator c = false ∧ Casing.isSmall c.toLower = true := by
  have ascii : c.toNat < 128 := by
    rcases Bool.or_eq_true_iff.1 alphanumeric with letter | digit
    · rcases Bool.or_eq_true_iff.1 letter with upper | lower
      · obtain ⟨-, most⟩ := of_decide_eq_true upper
        exact Nat.lt_of_le_of_lt (UInt32.le_iff_toNat_le.1 most) (by decide)
      · exact Casing.ascii_of_isSmall (Casing.isSmall_of_isLower lower)
    · exact Casing.ascii_of_isSmall (Bool.or_eq_true_iff.2 (.inr digit))
  refine ⟨ascii, ?_⟩
  exact Casing.forall_of_ascii (P := fun c => c.isAlphanum = true →
    Casing.isSeparator c = false ∧ Casing.isSmall c.toLower = true) (by decide) ascii alphanumeric

theorem Identifier.chars (identifier : Identifier id) : ∀ c ∈ id.toList, c.isAlphanum = true ∨ c = '_' := by
  obtain ⟨first, rest, rfl, letter, more⟩ := identifier
  rw [String.toList_ofList]
  exact List.forall_mem_cons.2 ⟨.inl (Bool.or_eq_true_iff.2 (.inl letter)), more⟩

theorem Identifier.words_ne_nil (identifier : Identifier id) : Casing.words id ≠ [] := by
  obtain ⟨first, rest, rfl, letter, -⟩ := identifier
  have member : first ∈ (String.ofList (first :: rest)).toList := by simp
  exact Casing.words_ne_nil member (isAlphanum_spec (Bool.or_eq_true_iff.2 (.inl letter))).2.1

/-- The words of an identifier hold letters and digits only. -/
theorem Identifier.wellFormed_word (identifier : Identifier id) {word : List Char} (listed : word ∈ Casing.words id) :
    (∀ c ∈ Text.lowercaseWord word, Casing.isSmall c = true) ∧ WellFormedSegment (Text.lowercaseWord word) := by
  have alphanumeric : ∀ c ∈ word, c.isAlphanum = true := by
    intro c inside
    obtain ⟨member, keeps⟩ := Casing.mem_of_mem_word listed inside
    refine (identifier.chars c member).resolve_right ?_
    rintro rfl
    exact absurd keeps (by decide)
  rw [Casing.lowercaseWord_of_ascii fun c inside => (isAlphanum_spec (alphanumeric c inside)).1]
  have small : ∀ c ∈ word.map Char.toLower, Casing.isSmall c = true :=
    List.forall_mem_map.2 fun c inside => (isAlphanum_spec (alphanumeric c inside)).2.2
  have filled : word.map Char.toLower ≠ [] := fun empty => Casing.ne_nil_of_mem_words listed (List.map_eq_nil_iff.1 empty)
  exact ⟨small, Procedure.wellFormed_word filled small⟩

theorem toList_kebabCase (id : String) :
    (Casing.kebabCase id).toList = ['-'].intercalate ((smallWords id).map String.toList) :=
  String.toList_intercalate

theorem map_toList_smallWords (id : String) :
    (smallWords id).map String.toList = (Casing.words id).map Text.lowercaseWord := by
  simp [smallWords, Function.comp_def]

theorem Identifier.wellFormed_kebabCase (identifier : Identifier id) :
    WellFormedSegment (Casing.kebabCase id).toList := by
  rw [toList_kebabCase, map_toList_smallWords]
  refine wellFormed_intercalate ?_ (List.forall_mem_map.2 fun word listed => (identifier.wellFormed_word listed).2)
  exact fun empty => identifier.words_ne_nil (List.map_eq_nil_iff.1 empty)

/-- The words that a segment tells. -/
def segmentWords (segment : String) : List String :=
  (segment.toList.splitOn '-').map String.ofList

theorem Identifier.segmentWords_kebabCase (identifier : Identifier id) :
    segmentWords (Casing.kebabCase id) = smallWords id := by
  have texts : (Casing.kebabCase id).toList.splitOn '-' = (Casing.words id).map Text.lowercaseWord := by
    rw [toList_kebabCase, map_toList_smallWords]
    refine List.splitOn_intercalate '-' (List.forall_mem_map.2 fun word listed hyphen => ?_) ?_
    · exact hyphen_ne_of_isSmall ((identifier.wellFormed_word listed).1 '-' hyphen) rfl
    · exact fun empty => identifier.words_ne_nil (List.map_eq_nil_iff.1 empty)
  rw [segmentWords, texts, List.map_map]
  rfl

/-! ## Routes -/

theorem isSegment_kebabCase (identifier : Identifier id) : IsSegment (Casing.kebabCase id) := by
  have wellFormed := identifier.wellFormed_kebabCase
  refine ⟨fun empty => wellFormed.filled (String.toList_eq_nil_iff.2 empty), fun slash => ?_⟩
  rcases wellFormed.chars '/' slash with small | hyphen
  · cases small
  · cases hyphen

/-- Segments that each follow a slash are joined by slashes. -/
theorem join_eq_placePath {segments : List String} (filled : segments ≠ []) :
    String.join (segments.map ("/" ++ ·)) = placePath segments := by
  induction segments with
  | nil =>
      exact absurd rfl filled
  | cons segment rest inductionHypothesis =>
      cases rest with
      | nil =>
          simp [placePath]
      | cons next rest =>
          rw [List.map_cons, String.join_cons, inductionHypothesis (List.cons_ne_nil next rest), placePath, placePath,
            String.intercalate_cons_cons]
          simp only [String.append_assoc]

theorem Composed.derivedPath_eq (composed : Composed name ids) :
    derivedPath name = String.join (ids.map fun id => "/" ++ Casing.kebabCase id) := by
  rw [derivedPath, composed.segments_eq, List.map_map]
  simp only [Function.comp_def, String.ofList_toList]

/-- The identifiers' segments can be read off a route. -/
theorem Composed.pathSegments_derivedPath (composed : Composed name ids) :
    pathSegments (derivedPath name) = ids.map Casing.kebabCase := by
  have filled : ids.map Casing.kebabCase ≠ [] := fun empty => composed.filled (List.map_eq_nil_iff.1 empty)
  have legible : ∀ segment ∈ ids.map Casing.kebabCase, IsSegment segment :=
    List.forall_mem_map.2 fun id member => isSegment_kebabCase (composed.each id member)
  have joined : derivedPath name = placePath (ids.map Casing.kebabCase) := by
    rw [composed.derivedPath_eq, ← join_eq_placePath filled, List.map_map]
    rfl
  rw [joined, pathSegments_placePath legible]

theorem derivedPath_eq_iff {other : String} (composed : Composed name ids) (composed' : Composed other ids') :
    derivedPath name = derivedPath other ↔ ids.map smallWords = ids'.map smallWords := by
  have told {name : String} {ids : List String} (composed : Composed name ids) :
      (pathSegments (derivedPath name)).map segmentWords = ids.map smallWords := by
    rw [composed.pathSegments_derivedPath, List.map_map]
    exact List.map_congr_left fun id member => (composed.each id member).segmentWords_kebabCase
  have made {name : String} {ids : List String} (composed : Composed name ids) :
      derivedPath name = String.join ((ids.map smallWords).map fun words => "/" ++ "-".intercalate words) := by
    rw [composed.derivedPath_eq, List.map_map]
    rfl
  constructor
  · intro same
    rw [← told composed, same, told composed']
  · intro same
    rw [made composed, same, made composed']

theorem route_of_valid (valid : isValidName name = true) (routePrefix : String) :
    route routePrefix name none = .ok (routePrefix ++ derivedPath name) := by
  rw [route, checkName, if_pos valid]
  rfl

theorem route_of_invalid (invalid : ¬isValidName name = true) (routePrefix : String) :
    route routePrefix name none = .error (.invalidName name) := by
  rw [route, checkName, if_neg invalid]
  rfl

/-- A route is derived for the names that are made of identifiers, and for no others. It is the prefix and then, for each
identifier, a slash and a well-formed segment. Names that share it have as many identifiers, each with the same words in
small letters. -/
theorem route_derived (routePrefix name : String) :
    ((∃ path, route routePrefix name none = .ok path) ↔ ∃ ids, Composed name ids) ∧
      ∀ ids, Composed name ids →
        route routePrefix name none =
            .ok (routePrefix ++ String.join (ids.map fun id => "/" ++ Casing.kebabCase id)) ∧
          (∀ id ∈ ids, WellFormedSegment (Casing.kebabCase id).toList) ∧
          ∀ other ids', Composed other ids' →
            (route routePrefix name none = route routePrefix other none ↔
              List.Forall₂ (fun id id' => smallWords id = smallWords id') ids ids') := by
  refine ⟨?_, fun ids composed => ?_⟩
  · rw [← isValidName_iff]
    by_cases valid : isValidName name = true
    · exact iff_of_true ⟨_, route_of_valid valid routePrefix⟩ valid
    · refine iff_of_false ?_ valid
      rintro ⟨path, given⟩
      rw [route_of_invalid valid] at given
      cases given
  · have given := route_of_valid (isValidName_iff.2 ⟨ids, composed⟩) routePrefix
    refine ⟨?_, fun id member => (composed.each id member).wellFormed_kebabCase, fun other ids' composed' => ?_⟩
    · rw [given, composed.derivedPath_eq]
    · rw [given, route_of_valid (isValidName_iff.2 ⟨ids', composed'⟩), Except.ok.injEq, String.append_right_inj,
        derivedPath_eq_iff composed composed', ← List.forall₂_eq_eq_eq, List.forall₂_map_left_iff,
        List.forall₂_map_right_iff]

/-- An acronym, a digit and idle underscores: two names for one route. -/
theorem route_derived_acronym :
    Composed "users.getHTTPPort2__" ["users", "getHTTPPort2__"] ∧
      Composed "Users.get_Http_port2" ["Users", "get_Http_port2"] ∧
      route "/rpc" "users.getHTTPPort2__" none = .ok "/rpc/users/get-http-port2" ∧
      route "/rpc" "users.getHTTPPort2__" none = route "/rpc" "Users.get_Http_port2" none ∧
      WellFormedSegment (Casing.kebabCase "getHTTPPort2__").toList := by
  have users : Identifier "users" := ⟨'u', ['s', 'e', 'r', 's'], rfl, rfl, by simp⟩
  have port : Identifier "getHTTPPort2__" :=
    ⟨'g', ['e', 't', 'H', 'T', 'T', 'P', 'P', 'o', 'r', 't', '2', '_', '_'], rfl, rfl, by simp⟩
  have composed : Composed "users.getHTTPPort2__" ["users", "getHTTPPort2__"] :=
    ⟨List.cons_ne_nil _ _, by simp [users, port], rfl⟩
  have users' : Identifier "Users" := ⟨'U', ['s', 'e', 'r', 's'], rfl, rfl, by simp⟩
  have port' : Identifier "get_Http_port2" :=
    ⟨'g', ['e', 't', '_', 'H', 't', 't', 'p', '_', 'p', 'o', 'r', 't', '2'], rfl, rfl, by simp⟩
  have composed' : Composed "Users.get_Http_port2" ["Users", "get_Http_port2"] :=
    ⟨List.cons_ne_nil _ _, by simp [users', port'], rfl⟩
  obtain ⟨given, wellFormed, alike⟩ := (route_derived "/rpc" "users.getHTTPPort2__").2 _ composed
  refine ⟨composed, composed', given, ?_, wellFormed "getHTTPPort2__" (by simp)⟩
  exact (alike "Users.get_Http_port2" _ composed').2 (.cons (by decide) (.cons (by decide) .nil))

end SchemaRpc.Procedure
