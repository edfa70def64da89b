import SchemaRpc.Proofs.Codec.Nesting

/-!
# The bound on nesting, in both directions

Of a value only the declared present part is written (`Codec.presentPart`). The bound on nesting cuts off writing by
the depth of this part, as it cuts off reading by the depth of the value that is read (`Codec.cutsOff_within`).
-/

namespace SchemaRpc.Codec

variable {c : Codec} {bound more : Nat} {t item : TypeDef} {path : String} {depth : Nat}

/-! ## The declared present part -/

/-- The fields of declared properties, where they are present. -/
def declaredFields (parts : Entries (Option (TypeDef → Value))) (properties : List (Property TypeDef)) :
    List (String × Value) :=
  collect Property.name (fun p => (parts.find? p.name).join.map fun part => part p.type) properties

mutual

/-- What is written of a value: the fields of its objects and unions that are declared and present. -/
def presentPart (c : Codec) : Value → TypeDef → Value
  | .array items, t =>
      match c.target t with
      | .ok (.elements item) => .array (presentItems c item items)
      | _ => .array items
  | .map entries, t =>
      match c.target t with
      | .ok (.values item) => .map (presentEntries c item entries)
      | _ => .map entries
  | .object fields, t =>
      match c.target t with
      | .ok (.object properties) => .object (declaredFields (presentFields c fields) properties)
      | _ => .object fields
  | .union tag fields, t =>
      match c.target t with
      | .ok (.union _ mapping) =>
          .union tag (declaredFields (presentFields c fields) ((mapping.lookup tag).getD []))
      | _ => .union tag fields
  | v, _ => v

/-- The items of an array. -/
def presentItems (c : Codec) (item : TypeDef) : List Value → List Value
  | [] => []
  | v :: rest => presentPart c v item :: presentItems c item rest

/-- The entries of a map. -/
def presentEntries (c : Codec) (item : TypeDef) : List (String × Value) → List (String × Value)
  | [] => []
  | (key, v) :: rest => (key, presentPart c v item) :: presentEntries c item rest

/-- The parts of the fields that are present. -/
def presentFields (c : Codec) : List (String × Value) → Entries (Option (TypeDef → Value))
  | [] => []
  | (name, v) :: rest => (name, if v.isAbsent then none else some (presentPart c v)) :: presentFields c rest

end

section Present

variable {fields : List (String × Value)} {properties : List (Property TypeDef)} {limit : Nat}

theorem presentItems_eq (items : List Value) : presentItems c item items = items.map fun v => presentPart c v item := by
  induction items with
  | nil =>
      rfl
  | cons v rest inductionHypothesis =>
      rw [presentItems, List.map_cons, inductionHypothesis]

theorem presentEntries_eq (entries : List (String × Value)) :
    presentEntries c item entries = entries.map fun entry => (entry.1, presentPart c entry.2 item) := by
  induction entries with
  | nil =>
      rfl
  | cons entry rest inductionHypothesis =>
      obtain ⟨key, v⟩ := entry
      rw [presentEntries, List.map_cons, inductionHypothesis]

theorem find?_presentFields_join (name : String) :
    ((presentFields c fields).find? name).join = (Value.present? name fields).map (presentPart c) := by
  rw [Value.present?]
  induction fields with
  | nil =>
      rfl
  | cons field rest inductionHypothesis =>
      obtain ⟨other, v⟩ := field
      by_cases same : other = name
      · cases absent : v.isAbsent <;> simp [presentFields, same, absent, Option.filter]
      · simpa [presentFields, same] using inductionHypothesis

/-- The declared fields are within a bound when each of them is. -/
theorem forall_declaredFields_iff :
    (∀ field ∈ declaredFields (presentFields c fields) properties, depth + field.2.depth ≤ limit) ↔
      ∀ p ∈ properties, ∀ v, Value.present? p.name fields = some v →
        depth + (presentPart c v p.type).depth ≤ limit := by
  unfold declaredFields collect
  simp only [find?_presentFields_join, List.mem_filterMap, Option.map_map]
  constructor
  · intro each p declared v present
    exact each (p.name, presentPart c v p.type) ⟨p, declared, by rw [present]; rfl⟩
  · rintro each ⟨name, part⟩ ⟨p, declared, made⟩
    obtain ⟨v, present, same⟩ := Option.map_eq_some_iff.mp made
    cases same
    exact each p declared v present

end Present

/-! ## Encoding -/

section Encoding

variable {low : Prop}

section Scalars

variable {fits : Prop} (room : fits)

include room

theorem cuts_encodeFloat {x : Binary64} : Cuts low (fun _ => fits) (encodeFloat x path) (encodeFloat x path) := by
  unfold encodeFloat
  split
  · exact .ok room
  · exact .error rfl

theorem cuts_encodeIntegerAt {v : Value} {n : Int} {form : Form TypeDef} :
    Cuts low (fun _ => fits) (encodeIntegerAt v n form path) (encodeIntegerAt v n form path) := by
  unfold encodeIntegerAt
  split
  · split
    · exact cuts_encodeFloat room
    split
    · unfold encodeInteger
      split
      · exact .error rfl
      · split <;> exact .ok room
    · exact .error rfl
  · exact .error rfl

theorem cuts_encodeScalar {v : Value} {form : Form TypeDef} :
    Cuts low (fun _ => fits) (encodeScalar v form path) (encodeScalar v form path) := by
  unfold encodeScalar
  split
  · exact .ok room
  · exact .ok room
  · split
    · exact .ok room
    · exact .error rfl
  · exact .ok room
  · exact cuts_encodeFloat room
  · exact cuts_encodeFloat room
  · exact cuts_encodeIntegerAt room
  · exact cuts_encodeIntegerAt room
  · exact .ok room
  · exact .error rfl

end Scalars

/-- The bound cuts off what one encoder writes by the depth of the part of the value that is written. -/
def CutsWriting (low : Prop) (bound depth : Nat) (part : TypeDef → Value) (bounded free : Encoder) : Prop :=
  ∀ t path, Cuts low (fun _ => depth + (part t).depth ≤ bound) (bounded t path depth) (free t path depth)

theorem cuts_encodeItems {items : List Value} {index : Nat}
    (each : ∀ v ∈ items,
      CutsWriting low bound depth (presentPart c v) (encoder (c.within bound) v) (encoder (c.within more) v)) :
    Cuts low (fun _ => ∀ v ∈ items, depth + (presentPart c v item).depth ≤ bound)
      (encodeItems (c.within bound) item path depth index items)
      (encodeItems (c.within more) item path depth index items) := by
  induction items generalizing index with
  | nil =>
      exact .ok (List.forall_mem_nil _)
  | cons v rest inductionHypothesis =>
      obtain ⟨head, tail⟩ := List.forall_mem_cons.mp each
      refine (head item _).bind (fun json _ fitsHead => ?_) fun _ _ _ _ fits => (List.forall_mem_cons.mp fits).1
      refine (inductionHypothesis tail).bind (fun jsons _ fitsTail => .ok ?_) fun _ _ _ _ fits => ?_
      · exact List.forall_mem_cons.mpr ⟨fitsHead, fitsTail⟩
      · exact (List.forall_mem_cons.mp fits).2

theorem cuts_encodeEntries {entries : List (String × Value)}
    (each : ∀ entry ∈ entries, CutsWriting low bound depth (presentPart c entry.2) (encoder (c.within bound) entry.2)
      (encoder (c.within more) entry.2)) :
    Cuts low (fun _ => ∀ entry ∈ entries, depth + (presentPart c entry.2 item).depth ≤ bound)
      (encodeEntries (c.within bound) item path depth entries)
      (encodeEntries (c.within more) item path depth entries) := by
  induction entries with
  | nil =>
      exact .ok (List.forall_mem_nil _)
  | cons entry rest inductionHypothesis =>
      obtain ⟨key, v⟩ := entry
      obtain ⟨head, tail⟩ := List.forall_mem_cons.mp each
      refine (head item _).bind (fun json _ fitsHead => ?_) fun _ _ _ _ fits => (List.forall_mem_cons.mp fits).1
      refine (inductionHypothesis tail).bind (fun members _ fitsTail => .ok ?_) fun _ _ _ _ fits => ?_
      · exact List.forall_mem_cons.mpr ⟨fitsHead, fitsTail⟩
      · exact (List.forall_mem_cons.mp fits).2

theorem cuts_encodeProperties {fields : List (String × Value)} {done : Json.Members}
    {properties : List (Property TypeDef)}
    (each : ∀ field ∈ fields, CutsWriting low bound depth (presentPart c field.2) (encoder (c.within bound) field.2)
      (encoder (c.within more) field.2)) :
    Cuts low (fun _ => ∀ field ∈ declaredFields (presentFields c fields) properties, depth + field.2.depth ≤ bound)
      (encodeProperties (c.within bound) (fieldEncoders (c.within bound) fields) path depth done properties)
      (encodeProperties (c.within more) (fieldEncoders (c.within more) fields) path depth done properties) := by
  simp only [forall_declaredFields_iff]
  induction properties generalizing done with
  | nil =>
      exact .ok (List.forall_mem_nil _)
  | cons p rest inductionHypothesis =>
      have writer (limit : Nat) : ((fieldEncoders (c.within limit) fields).find? p.name).join =
          (Value.present? p.name fields).map (encoder (c.within limit)) := find?_fieldEncoders_join p.name
      simp only [List.forall_mem_cons]
      cases found : Value.present? p.name fields with
      | none =>
          simp only [found, Option.map_none] at writer
          rw [encodeProperties_cons_none (writer bound), encodeProperties_cons_none (writer more)]
          split
          · refine inductionHypothesis.congr (fun _ => ?_) id
            simp
          · exact .error rfl
      | some v =>
          simp only [found, Option.map_some] at writer
          obtain ⟨entry, listed, rfl⟩ : ∃ field ∈ fields, field.2 = v :=
            ⟨_, Entries.mem_of_find? (Option.filter_eq_some_iff.mp found).1, rfl⟩
          rw [encodeProperties_cons_some (writer bound), encodeProperties_cons_some (writer more)]
          refine (each entry listed p.type _).bind (fun json _ fitsHead => ?_) fun _ _ _ _ fits => fits.1 _ rfl
          refine inductionHypothesis.congr (fun _ => ?_) id
          simp [fitsHead]

theorem CutsWriting.lower {low' : Prop} {part : TypeDef → Value} {bounded free : Encoder}
    (cuts : CutsWriting low bound depth part bounded free) (lower : low → low') :
    CutsWriting low' bound depth part bounded free :=
  fun t path => (cuts t path).congr (fun _ => Iff.rfl) lower

theorem low_of_entries {fields : List (String × Value)} (low : bound < depth + 1) :
    bound < depth + (Value.depthOfEntries fields + 1) := by
  omega

/-- The bound is low for all fields together where it is low for one. -/
theorem CutsWriting.fields {fields : List (String × Value)} {inner : Nat}
    (each : ∀ field ∈ fields, CutsWriting (bound < depth + 1 + field.2.depth) bound inner (presentPart c field.2)
      (encoder (c.within bound) field.2) (encoder (c.within more) field.2)) :
    ∀ field ∈ fields, CutsWriting (bound < depth + (Value.depthOfEntries fields + 1)) bound inner (presentPart c field.2)
      (encoder (c.within bound) field.2) (encoder (c.within more) field.2) := by
  intro field member
  have deeper := Value.depth_le_depthOfEntries member
  exact (each field member).lower (by omega)

theorem cuts_encoder (greater : bound ≤ more) {v : Value} (room : depth ≤ bound) :
    CutsWriting (bound < depth + v.depth) bound depth (presentPart c v) (encoder (c.within bound) v)
      (encoder (c.within more) v) := by
  induction v using Value.induct generalizing depth with
  | absent =>
      exact fun t path => .error rfl
  | null =>
      intro t path
      rw [encoder_null, encoder_null]
      split
      · exact .ok room
      · exact .error rfl
  | scalar v isScalar =>
      intro t path
      have fits : depth + (presentPart c v t).depth ≤ bound := by
        cases v <;> first | exact isScalar.elim | exact room
      rw [encoder_scalar isScalar, encoder_scalar isScalar]
      exact Cuts.target fun form _ => cuts_encodeScalar fits
  | array items inductionHypothesis =>
      intro t path
      have low : bound < depth + 1 → bound < depth + (Value.array items).depth := by
        rw [Value.depth]
        omega
      refine Cuts.target fun form reached => ?_
      cases form with
      | elements item =>
          have part : presentPart c (.array items) t = .array (items.map fun v => presentPart c v item) := by
            rw [presentPart, reached, ← presentItems_eq]
          refine .inside greater low (fun inside => cuts_encodeItems fun v member => ?_) fun jsons => ?_
          · have deeper := Value.depth_of_mem_items member
            exact (inductionHypothesis v member inside).lower (by omega)
          · rw [part, Value.array_le_iff, List.forall_mem_map]
      | _ =>
          exact .error rfl
  | map entries inductionHypothesis =>
      intro t path
      refine Cuts.target fun form reached => ?_
      cases form with
      | values item =>
          have part : presentPart c (.map entries) t =
              .map (entries.map fun entry => (entry.1, presentPart c entry.2 item)) := by
            rw [presentPart, reached, ← presentEntries_eq]
          refine .inside greater low_of_entries (fun inside => cuts_encodeEntries ?_) fun members => ?_
          · exact CutsWriting.fields fun entry member => inductionHypothesis entry member inside
          · rw [part, Value.map_le_iff, List.forall_mem_map]
      | _ =>
          exact .error rfl
  | object fields inductionHypothesis =>
      intro t path
      refine Cuts.target fun form reached => ?_
      cases form with
      | object properties =>
          have part : presentPart c (.object fields) t =
              .object (declaredFields (presentFields c fields) properties) := by
            rw [presentPart, reached]
          refine .inside greater low_of_entries (fun inside => cuts_encodeProperties ?_) fun members => ?_
          · exact CutsWriting.fields fun field member => inductionHypothesis field member inside
          · rw [part, Value.object_le_iff]
      | _ =>
          exact .error rfl
  | union tag fields inductionHypothesis =>
      intro t path
      refine Cuts.target fun form reached => ?_
      cases form with
      | union key mapping =>
          cases listed : mapping.lookup tag with
          | none =>
              simp only [listed]
              exact .error rfl
          | some properties =>
              have part : presentPart c (.union tag fields) t =
                  .union tag (declaredFields (presentFields c fields) properties) := by
                rw [presentPart, reached]
                simp only [listed, Option.getD_some]
              simp only [listed]
              refine .inside greater low_of_entries (fun inside => cuts_encodeProperties ?_) fun members => ?_
              · exact CutsWriting.fields fun field member => inductionHypothesis field member inside
              · rw [part, Value.union_le_iff]
      | _ =>
          exact .error rfl

end Encoding

/-! ## Both directions -/

/-- A bound cuts off a run by the depth of its result and does nothing else: from some bound on the result is one and
the same, which is no complaint about depth; a lower bound lets it through when it is not too deep; and a complaint
about anything else is the same under every greater bound. -/
structure CutsOff {α : Type} (run : Nat → Except CodecError α) (depth : α → Nat) : Prop where
  exists_free : ∃ free, Shallow free ∧ (∃ least, ∀ bound, least ≤ bound → run bound = free) ∧
    ∀ bound a, run bound = .ok a ↔ free = .ok a ∧ depth a ≤ bound
  same : ∀ bound more error, bound ≤ more → run bound = .error error → error.isTooDeep = false →
    run more = .error error

theorem cutsOff_of_cuts {α : Type} {run : Nat → Except CodecError α} {depth : α → Nat} (least : Nat)
    (cuts : ∀ bound more, bound ≤ more → Cuts (bound < least) (fun a => depth a ≤ bound) (run bound) (run more)) :
    CutsOff run depth where
  exists_free := by
    have shallow : Shallow (run least) := by
      intro error failed
      cases deep : error.isTooDeep with
      | false =>
          rfl
      | true =>
          exact absurd ((cuts least least (Nat.le_refl _)).low error failed deep) (Nat.lt_irrefl _)
    have settled : ∀ bound, least ≤ bound → run bound = run least := by
      intro bound enough
      have keeps := cuts least bound enough
      cases made : run least with
      | ok a =>
          exact ((keeps.ok_iff a).mp made).1
      | error error =>
          exact keeps.same error made (shallow error made)
    refine ⟨run least, shallow, ⟨least, settled⟩, fun bound a => ?_⟩
    rcases Nat.le_total bound least with lower | enough
    · exact (cuts bound least lower).ok_iff a
    · rw [settled bound enough, iff_self_and]
      intro made
      exact Nat.le_trans (((cuts least least (Nat.le_refl _)).ok_iff a).mp made).2 enough
  same bound more error greater failed other := (cuts bound more greater).same error failed other

/-- The bound on nesting is a bound on the containers of the value, of the one that is read and of the declared present
part of the one that is written. -/
theorem cutsOff_within (c : Codec) (json : Json) (v : Value) (t : TypeDef) (stored : json.Everywhere Json.Stored) :
    CutsOff (fun bound => (c.within bound).decodeJson json t) Value.depth ∧
      CutsOff (fun bound => (c.within bound).encodeJson v t) fun _ => (c.presentPart v t).depth := by
  constructor
  · refine cutsOff_of_cuts json.depth fun bound more greater => ?_
    simpa only [Nat.zero_add, decodeJson] using cuts_decoder greater stored (Nat.zero_le bound) t rootPath
  · refine cutsOff_of_cuts v.depth fun bound more greater => ?_
    simpa only [Nat.zero_add, encodeJson] using cuts_encoder greater (Nat.zero_le bound) t rootPath

section Nodes

/-- A node may have another one after it. -/
def nodes : Codec where
  definitions :=
    { entries :=
        [("Node", ⟨some ⟨.object [⟨"label", .primitive .string, false⟩, ⟨"next", .ref "Node", true⟩], false, {}⟩, none⟩)] }

/-- Two nodes, the second with a member that no property reads. -/
def pairText : Json :=
  .obj [("label", .str "a"), ("next", .obj [("label", .str "b"), ("more", .arr [.arr []])])]

def pair : Value :=
  .object [("label", .str "a"), ("next", .object [("label", .str "b")])]

/-- A node with a field that is not declared. -/
def overfull : Value :=
  .object [("label", .str "a"), ("more", .array [.array []])]

theorem cutsOff_within_nodes :
    pairText.Everywhere Json.Stored ∧
      CutsOff (fun bound => (nodes.within bound).decodeJson pairText (.ref "Node")) Value.depth ∧
      CutsOff (fun bound => (nodes.within bound).encodeJson overfull (.ref "Node"))
        (fun _ => (nodes.presentPart overfull (.ref "Node")).depth) ∧
      (nodes.within 1).decodeJson pairText (.ref "Node") = .error (.depthExceeded "/next" 1) ∧
      (nodes.within 2).decodeJson pairText (.ref "Node") = .ok pair ∧
      (nodes.within 1).encodeJson overfull (.ref "Node") = .ok (.obj [("label", .str "a")]) := by
  have label (s : String) : (Json.str s).Everywhere Json.Stored := .intro trivial (List.forall_mem_nil _)
  have empty : (Json.arr []).Everywhere Json.Stored := .intro trivial (List.forall_mem_nil _)
  have more : (Json.arr [.arr []]).Everywhere Json.Stored := .intro trivial (List.forall_mem_singleton.mpr empty)
  have second : (Json.obj [("label", .str "b"), ("more", .arr [.arr []])]).Everywhere Json.Stored :=
    .intro (by simp [Json.Stored]) (List.forall_mem_cons.mpr ⟨label "b", List.forall_mem_singleton.mpr more⟩)
  have stored : pairText.Everywhere Json.Stored :=
    .intro (by simp [Json.Stored, pairText]) (List.forall_mem_cons.mpr ⟨label "a", List.forall_mem_singleton.mpr second⟩)
  obtain ⟨reading, writing⟩ := cutsOff_within nodes pairText overfull (.ref "Node") stored
  exact ⟨stored, reading, writing, rfl, rfl, rfl⟩

end Nodes

end SchemaRpc.Codec
