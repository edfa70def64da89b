import SchemaRpc.Codec.Query
import SchemaRpc.Proofs.Codec.Properties

/-!
# What query pairs can carry

`queryFault?` tells before any request which definitions query pairs can carry: records whose properties lead to scalars
or to arrays of scalars (`Definitions.Carries`). Pairs are read against a definition that passes unless there is a
complaint about the pairs themselves (`Codec.Complaint`). Against one that does not pass, reading fails whatever is
supplied at the property at fault, null apart.
-/

namespace SchemaRpc

/-- One text can stand for a value of this form. -/
def Form.IsScalar {τ : Type} : Form τ → Prop
  | primitive _ => True
  | enumeration _ => True
  | _ => False

/-! ## The check -/

namespace Definitions

variable {defs : Definitions} {t : TypeDef} {path : String}

/-- The definition leads to a scalar. -/
def EndsInScalar (defs : Definitions) (t : TypeDef) : Prop :=
  ∃ target, defs.resolve t = .ok target ∧ target.form.IsScalar

/-- Texts can stand for a value at the definition: it leads to a scalar, or to an array whose items do. -/
def Carries (defs : Definitions) (t : TypeDef) : Prop :=
  ∃ target, defs.resolve t = .ok target ∧
    (target.form.IsScalar ∨ ∃ item, target.form = .elements item ∧ defs.EndsInScalar item)

theorem leadsToScalar_iff : defs.leadsToScalar t = true ↔ defs.EndsInScalar t := by
  unfold leadsToScalar EndsInScalar
  cases defs.resolve t with
  | error error =>
      simp
  | ok target =>
      obtain ⟨form, nullable, metadata⟩ := target
      cases form <;> simp [Form.IsScalar]

theorem isQueryParameter_iff : defs.isQueryParameter t = true ↔ defs.Carries t := by
  unfold isQueryParameter Carries
  cases defs.resolve t with
  | error error =>
      simp
  | ok target =>
      obtain ⟨form, nullable, metadata⟩ := target
      cases form <;> simp [Form.IsScalar, leadsToScalar_iff]

theorem queryFault?_of_object {target : TypeDef} {properties : List (Property TypeDef)}
    (resolved : defs.resolve t = .ok target) (form : target.form = .object properties) :
    defs.queryFault? t =
      (properties.find? fun p => !defs.isQueryParameter p.type).map fun p => childPath rootPath p.name := by
  obtain ⟨_, nullable, metadata⟩ := target
  cases form
  simp only [queryFault?, resolved]

theorem queryFault?_of_not_object
    (other : ∀ target properties, defs.resolve t = .ok target → target.form ≠ .object properties) :
    defs.queryFault? t = some rootPath := by
  unfold queryFault?
  cases resolved : defs.resolve t with
  | error error =>
      rfl
  | ok target =>
      obtain ⟨form, nullable, metadata⟩ := target
      cases form with
      | object properties =>
          exact absurd rfl (other _ properties resolved)
      | any | primitive | enumeration | elements | values | ref | union =>
          rfl

end Definitions

namespace Codec

variable {c : Codec} {t : TypeDef} {path text : String} {pairs : QueryPairs} {properties : List (Property TypeDef)}
  {error : CodecError}

theorem queryFault?_of_no_record (noRecord : ¬ ∃ properties, c.target t = .ok (.object properties)) :
    c.definitions.queryFault? t = some rootPath := by
  refine Definitions.queryFault?_of_not_object fun target properties resolved form => noRecord ?_
  exact ⟨properties, target_eq_ok_iff.2 ⟨target, resolved, form⟩⟩

/-- A definition passes exactly when it leads to a record that texts can stand for. -/
theorem queryFault?_eq_none_iff :
    c.definitions.queryFault? t = none ↔
      ∃ properties, c.target t = .ok (.object properties) ∧ ∀ p ∈ properties, c.definitions.Carries p.type := by
  constructor
  · intro passed
    by_cases record : ∃ properties, c.target t = .ok (.object properties)
    · obtain ⟨properties, reached⟩ := record
      obtain ⟨target, resolved, form⟩ := target_eq_ok_iff.1 reached
      rw [Definitions.queryFault?_of_object resolved form, Option.map_eq_none_iff, List.find?_eq_none] at passed
      refine ⟨properties, reached, fun p declared => Definitions.isQueryParameter_iff.1 ?_⟩
      simpa using passed p declared
    · rw [queryFault?_of_no_record record] at passed
      cases passed
  · rintro ⟨properties, reached, carries⟩
    obtain ⟨target, resolved, form⟩ := target_eq_ok_iff.1 reached
    rw [Definitions.queryFault?_of_object resolved form, Option.map_eq_none_iff, List.find?_eq_none]
    intro p declared
    simpa using Definitions.isQueryParameter_iff.2 (carries p declared)

/-- A definition that does not pass leads to no record, or to one with a first property that texts cannot stand for. -/
theorem exists_fault_of_queryFault? (failed : c.definitions.queryFault? t = some path) :
    ((∀ properties, c.target t ≠ .ok (.object properties)) ∧ path = rootPath) ∨
      ∃ before p after, c.target t = .ok (.object (before ++ p :: after)) ∧
        (∀ q ∈ before, c.definitions.Carries q.type) ∧ ¬ c.definitions.Carries p.type ∧
        path = childPath rootPath p.name := by
  by_cases record : ∃ properties, c.target t = .ok (.object properties)
  · obtain ⟨properties, reached⟩ := record
    obtain ⟨target, resolved, form⟩ := target_eq_ok_iff.1 reached
    rw [Definitions.queryFault?_of_object resolved form, Option.map_eq_some_iff] at failed
    obtain ⟨p, first, rfl⟩ := failed
    obtain ⟨atFault, before, after, rfl, passed⟩ := List.find?_eq_some_iff_append.1 first
    refine .inr ⟨before, p, after, reached, fun q listed => ?_, fun carries => ?_, rfl⟩
    · exact Definitions.isQueryParameter_iff.1 (by simpa using passed q listed)
    · rw [Definitions.isQueryParameter_iff.2 carries] at atFault
      cases atFault
  · rw [queryFault?_of_no_record record] at failed
    exact .inl ⟨fun properties reached => record ⟨properties, reached⟩, (Option.some.inj failed).symm⟩

/-! ## One property after the other -/

section Properties

variable {head : Property TypeDef} {tail : List (Property TypeDef)} {done : Entries Value}

/-- A property without a text is passed over, if it may be missing. -/
theorem queryProperties_of_missing (given : textsFor (c.key head.name) pairs = []) :
    c.queryProperties pairs done (head :: tail) =
      if head.optional then c.queryProperties pairs done tail
      else .error (.missingField (c.propertyPath rootPath head)) := by
  simp only [queryProperties, given, propertyPath]

theorem queryProperties_of_given {first : String} {others : List String}
    (given : textsFor (c.key head.name) pairs = first :: others) :
    c.queryProperties pairs done (head :: tail) =
      c.queryValue first others head.type (c.propertyPath rootPath head) >>= fun v =>
        c.queryProperties pairs (done.insert head.name v) tail := by
  simp only [queryProperties, given, propertyPath]
  cases c.queryValue first others head.type (childPath rootPath (c.key head.name)) with
  | error error =>
      rfl
  | ok v =>
      rfl

end Properties

/-! ## What the texts are read as -/

theorem resolved_eq_ok_iff {target : TypeDef} :
    c.resolved t = .ok target ↔ c.definitions.resolve t = .ok target := by
  unfold resolved
  cases c.definitions.resolve t with
  | error error =>
      simp
  | ok s =>
      simp

theorem queryValue_of_isScalar {target : TypeDef} {first : String} {others : List String}
    (resolved : c.definitions.resolve t = .ok target) (scalar : target.form.IsScalar) :
    c.queryValue first others t path = c.queryScalar first t path := by
  unfold queryValue
  rw [Except.bind_of_eq_ok (resolved_eq_ok_iff.2 resolved)]
  split
  · next item form =>
    rw [form] at scalar
    exact scalar.elim
  · rfl

theorem queryValue_of_elements {target item : TypeDef} {first : String} {others : List String}
    (resolved : c.definitions.resolve t = .ok target) (form : target.form = .elements item) :
    c.queryValue first others t path =
      if (t.nullable || target.nullable) && first == nullText && others.isEmpty then .ok .null
      else c.queryItems item path 0 (first :: others) >>= fun vs => pure (.array vs) := by
  unfold queryValue
  rw [Except.bind_of_eq_ok (resolved_eq_ok_iff.2 resolved)]
  simp only [form]
  rfl

theorem decodeQuery_of_object (reached : c.target t = .ok (.object properties)) :
    c.decodeQuery pairs t = c.queryProperties pairs [] properties >>= fun fields => pure (.object fields) := by
  obtain ⟨target, resolved, form⟩ := target_eq_ok_iff.1 reached
  unfold decodeQuery
  rw [Except.bind_of_eq_ok (resolved_eq_ok_iff.2 resolved)]
  simp only [form]

/-! ## Reasons in the pairs -/

/-- The text is in the notation of a kind. -/
def Spells (text : String) : PrimitiveKind → Prop
  | .string => True
  | .boolean => text = "true" ∨ text = "false"
  | .timestamp => (Timestamp.ofText? text).isSome
  | .float32 | .float64 => (Decimal.readFinite? text).isSome
  | _ => (Decimal.readInt128? text).isSome

/-- What is wrong with a text where a scalar is read. -/
inductive TextFault (text path : String) : Form TypeDef → CodecError → Prop
  | unlisted {listed : List String} :
      text ∉ listed →
      TextFault text path (.enumeration listed) (.unknownEnumValue path text)
  | misspelled {kind : PrimitiveKind} :
      ¬ Spells text kind →
      TextFault text path (.primitive kind) (.typeMismatch path kind.label "string")
  | outOfRange {kind : PrimitiveKind} {n : Int} :
      Decimal.readInt128? text = some n →
      kind.inRange n = false →
      TextFault text path (.primitive kind) (.outOfRange path n kind)

/-- The text stands for null at a definition that leads to the target. -/
def StandsForNull (text : String) (t target : TypeDef) : Prop :=
  text = nullText ∧ (t.nullable = true ∨ target.nullable = true)

/-- Where the texts of a property are read: the first one at the property, or each at its own item of an array. -/
inductive TextPlace (c : Codec) (p : Property TypeDef) (texts : List String) : TypeDef → String → String → Prop
  | whole {first : String} {others : List String} :
      texts = first :: others →
      TextPlace c p texts p.type (c.propertyPath rootPath p) first
  | item {item : TypeDef} {index : Nat} {text : String} :
      c.target p.type = .ok (.elements item) →
      texts[index]? = some text →
      TextPlace c p texts item (childPath (c.propertyPath rootPath p) (toString index)) text

/-- What can be wrong with pairs: a property that must be there has no text, or a text is at fault where it is read. -/
inductive Complaint (c : Codec) (properties : List (Property TypeDef)) (pairs : QueryPairs) : CodecError → Prop
  | missing {p : Property TypeDef} :
      p ∈ properties →
      p.optional = false →
      textsFor (c.key p.name) pairs = [] →
      Complaint c properties pairs (.missingField (c.propertyPath rootPath p))
  | text {p : Property TypeDef} {t target : TypeDef} {path text : String} {error : CodecError} :
      p ∈ properties →
      TextPlace c p (textsFor (c.key p.name) pairs) t path text →
      c.definitions.resolve t = .ok target →
      ¬ StandsForNull text t target →
      TextFault text path target.form error →
      Complaint c properties pairs error

theorem textFault_of_coerce {kind : PrimitiveKind} (failed : coerce text kind path = .error error) :
    TextFault text path (.primitive kind) error := by
  cases kind with
  | string =>
      cases failed
  | boolean =>
      simp only [coerce, beq_iff_eq] at failed
      split at failed
      · cases failed
      · next notTrue =>
        split at failed
        · cases failed
        · next notFalse =>
          cases failed
          exact .misspelled fun spelled => spelled.elim notTrue notFalse
  | timestamp =>
      simp only [coerce, decodeTimestamp] at failed
      split at failed
      · cases failed
      · next unread =>
        cases failed
        exact .misspelled fun spelled => by simp [Spells, unread] at spelled
  | float32 | float64 =>
      simp only [coerce, PrimitiveKind.isFloat, if_true] at failed
      split at failed
      · cases failed
      · next unread =>
        cases failed
        exact .misspelled fun spelled => by simp [Spells, unread] at spelled
  | int8 | uint8 | int16 | uint16 | int32 | uint32 | int64 | uint64 =>
      simp only [coerce, PrimitiveKind.isFloat, Bool.false_eq_true, if_false] at failed
      split at failed
      · next n read =>
        unfold decodeInteger at failed
        split at failed
        · next outside =>
          cases failed
          exact .outOfRange read (by simpa using outside)
        · split at failed <;> cases failed
      · next unread =>
        cases failed
        exact .misspelled fun spelled => by simp [Spells, unread] at spelled

theorem textFault_of_queryScalar {target : TypeDef} (resolved : c.definitions.resolve t = .ok target)
    (scalar : target.form.IsScalar) (failed : c.queryScalar text t path = .error error) :
    ¬ StandsForNull text t target ∧ TextFault text path target.form error := by
  unfold queryScalar at failed
  rw [Except.bind_of_eq_ok (resolved_eq_ok_iff.2 resolved)] at failed
  split at failed
  · cases failed
  · next notNull =>
    refine ⟨by simpa [StandsForNull] using notNull, ?_⟩
    cases form : target.form with
    | primitive kind =>
        simp only [form] at failed
        exact textFault_of_coerce failed
    | enumeration listed =>
        simp only [form, List.contains_eq_mem, decide_eq_true_eq] at failed
        split at failed
        · cases failed
        · next notListed =>
          cases failed
          exact .unlisted notListed
    | any | elements | values | object | ref | union =>
        rw [form] at scalar
        exact scalar.elim

/-- The items of an array are read one after the other, each at its own place. -/
theorem exists_textFault_of_queryItems {item target : TypeDef} {texts : List String} {index : Nat}
    (resolved : c.definitions.resolve item = .ok target) (scalar : target.form.IsScalar)
    (failed : c.queryItems item path index texts = .error error) :
    ∃ (i : Nat) (text : String), texts[i]? = some text ∧ ¬ StandsForNull text item target ∧
      TextFault text (childPath path (toString (index + i))) target.form error := by
  induction texts generalizing index with
  | nil =>
      cases failed
  | cons text texts inductionHypothesis =>
      rcases Except.bind_eq_error_iff.1 failed with failedHere | ⟨v, _, rest⟩
      · exact ⟨0, text, rfl, textFault_of_queryScalar resolved scalar failedHere⟩
      · rcases Except.bind_eq_error_iff.1 rest with failedLater | ⟨vs, _, made⟩
        · obtain ⟨i, other, found, notNull, fault⟩ := inductionHypothesis failedLater
          refine ⟨i + 1, other, found, notNull, ?_⟩
          rwa [Nat.add_assoc, Nat.add_comm 1 i] at fault
        · cases made

theorem complaint_of_queryValue {p : Property TypeDef} {first : String} {others : List String}
    (declared : p ∈ properties) (carries : c.definitions.Carries p.type)
    (given : textsFor (c.key p.name) pairs = first :: others)
    (failed : c.queryValue first others p.type (c.propertyPath rootPath p) = .error error) :
    Complaint c properties pairs error := by
  obtain ⟨target, resolved, scalar | ⟨item, form, inner, resolvedItem, scalar⟩⟩ := carries
  · rw [queryValue_of_isScalar resolved scalar] at failed
    obtain ⟨notNull, fault⟩ := textFault_of_queryScalar resolved scalar failed
    exact .text declared (.whole given) resolved notNull fault
  · have reached : c.target p.type = .ok (.elements item) := target_eq_ok_iff.2 ⟨target, resolved, form⟩
    rw [queryValue_of_elements resolved form] at failed
    split at failed
    · cases failed
    · rcases Except.bind_eq_error_iff.1 failed with failedItems | ⟨vs, _, made⟩
      · obtain ⟨i, text, found, notNull, fault⟩ := exists_textFault_of_queryItems resolvedItem scalar failedItems
        rw [← given] at found
        rw [Nat.zero_add] at fault
        exact .text declared (.item reached found) resolvedItem notNull fault
      · cases made

theorem complaint_of_queryProperties {rest : List (Property TypeDef)} {done : Entries Value}
    (declared : ∀ p ∈ rest, p ∈ properties) (carries : ∀ p ∈ rest, c.definitions.Carries p.type)
    (failed : c.queryProperties pairs done rest = .error error) : Complaint c properties pairs error := by
  induction rest generalizing done with
  | nil =>
      cases failed
  | cons head tail inductionHypothesis =>
      obtain ⟨declaredHead, declaredTail⟩ := List.forall_mem_cons.1 declared
      obtain ⟨carriesHead, carriesTail⟩ := List.forall_mem_cons.1 carries
      cases given : textsFor (c.key head.name) pairs with
      | nil =>
          rw [queryProperties_of_missing given] at failed
          split at failed
          · exact inductionHypothesis declaredTail carriesTail failed
          · next required =>
            cases failed
            exact .missing declaredHead (by simpa using required) given
      | cons first others =>
          rw [queryProperties_of_given given] at failed
          rcases Except.bind_eq_error_iff.1 failed with failedHere | ⟨v, _, failedLater⟩
          · exact complaint_of_queryValue declaredHead carriesHead given failedHere
          · exact inductionHypothesis declaredTail carriesTail failedLater

theorem complaint_of_decodeQuery (reached : c.target t = .ok (.object properties))
    (carries : ∀ p ∈ properties, c.definitions.Carries p.type) (failed : c.decodeQuery pairs t = .error error) :
    Complaint c properties pairs error := by
  rw [decodeQuery_of_object reached] at failed
  rcases Except.bind_eq_error_iff.1 failed with failedProperties | ⟨fields, _, made⟩
  · exact complaint_of_queryProperties (fun p member => member) carries failedProperties
  · cases made

/-! ## Definitions that cannot be read -/

theorem queryScalar_ne_ok {v : Value} (other : ¬ c.definitions.EndsInScalar t) (notNull : text ≠ nullText) :
    c.queryScalar text t path ≠ .ok v := by
  intro read
  obtain ⟨target, resolved, read⟩ := Except.bind_eq_ok_iff.1 read
  have notScalar : ¬ target.form.IsScalar := fun scalar => other ⟨target, resolved_eq_ok_iff.1 resolved, scalar⟩
  have different : (text == nullText) = false := beq_false_of_ne notNull
  rw [different, Bool.false_and] at read
  cases form : target.form with
  | primitive | enumeration =>
      rw [form] at notScalar
      exact notScalar trivial
  | any | elements | values | object | ref | union =>
      simp [form] at read

theorem queryValue_ne_ok {first : String} {others : List String} {v : Value} (other : ¬ c.definitions.Carries t)
    (notNull : first ≠ nullText) : c.queryValue first others t path ≠ .ok v := by
  intro read
  obtain ⟨target, resolved, read⟩ := Except.bind_eq_ok_iff.1 read
  have resolves := resolved_eq_ok_iff.1 resolved
  split at read
  · next item form =>
    have otherItem : ¬ c.definitions.EndsInScalar item := fun scalar =>
      other ⟨target, resolves, .inr ⟨item, form, scalar⟩⟩
    have different : (first == nullText) = false := beq_false_of_ne notNull
    rw [different, Bool.and_false, Bool.false_and] at read
    obtain ⟨vs, readItems, _⟩ := Except.bind_eq_ok_iff.1 read
    obtain ⟨v, readFirst, _⟩ := Except.bind_eq_ok_iff.1 readItems
    exact queryScalar_ne_ok otherItem notNull readFirst
  · refine queryScalar_ne_ok (fun scalar => other ?_) notNull read
    obtain ⟨target', resolves', scalar⟩ := scalar
    exact ⟨target', resolves', .inl scalar⟩

theorem queryProperties_ne_ok {p : Property TypeDef} {first : String} {others : List String}
    {done fields : Entries Value} (declared : p ∈ properties) (other : ¬ c.definitions.Carries p.type)
    (given : textsFor (c.key p.name) pairs = first :: others) (notNull : first ≠ nullText) :
    c.queryProperties pairs done properties ≠ .ok fields := by
  induction properties generalizing done with
  | nil =>
      cases declared
  | cons head tail inductionHypothesis =>
      intro read
      rcases List.mem_cons.1 declared with rfl | later
      · rw [queryProperties_of_given given] at read
        obtain ⟨v, readHere, _⟩ := Except.bind_eq_ok_iff.1 read
        exact queryValue_ne_ok other notNull readHere
      · cases headGiven : textsFor (c.key head.name) pairs with
        | nil =>
            rw [queryProperties_of_missing headGiven] at read
            split at read
            · exact inductionHypothesis later read
            · cases read
        | cons headFirst headOthers =>
            rw [queryProperties_of_given headGiven] at read
            obtain ⟨v, _, readLater⟩ := Except.bind_eq_ok_iff.1 read
            exact inductionHypothesis later readLater

theorem decodeQuery_ne_ok {p : Property TypeDef} {first : String} {others : List String} {v : Value}
    (reached : c.target t = .ok (.object properties)) (declared : p ∈ properties)
    (other : ¬ c.definitions.Carries p.type) (given : textsFor (c.key p.name) pairs = first :: others)
    (notNull : first ≠ nullText) : c.decodeQuery pairs t ≠ .ok v := by
  intro read
  rw [decodeQuery_of_object reached] at read
  obtain ⟨fields, readProperties, _⟩ := Except.bind_eq_ok_iff.1 read
  exact queryProperties_ne_ok declared other given notNull readProperties

theorem exists_object_of_decodeQuery {v : Value} (read : c.decodeQuery pairs t = .ok v) :
    ∃ properties fields, c.target t = .ok (.object properties) ∧ v = .object fields ∧
      c.queryProperties pairs [] properties = .ok fields := by
  obtain ⟨target, resolved, read⟩ := Except.bind_eq_ok_iff.1 read
  cases form : target.form with
  | object properties =>
      simp only [form] at read
      obtain ⟨fields, readProperties, made⟩ := Except.bind_eq_ok_iff.1 read
      cases made
      exact ⟨properties, fields, target_eq_ok_iff.2 ⟨target, resolved_eq_ok_iff.1 resolved, form⟩, rfl, readProperties⟩
  | any | primitive | enumeration | elements | values | ref | union =>
      simp [form] at read

/-- The check is exactly right about a definition. If it passes, pairs are read against it or there is a complaint about
the pairs. If it does not lead to a record, no pairs are read against it; and if its first property at fault has texts,
no pairs are read unless the first of them is the one that stands for null. -/
theorem queryFault?_exact (c : Codec) (t : TypeDef) :
    (c.definitions.queryFault? t = none →
      ∃ properties, c.target t = .ok (.object properties) ∧
        ∀ pairs, (∃ fields, c.decodeQuery pairs t = .ok (.object fields)) ∨
          ∃ error, c.decodeQuery pairs t = .error error ∧ Complaint c properties pairs error) ∧
    ∀ path, c.definitions.queryFault? t = some path →
      ((∀ properties, c.target t ≠ .ok (.object properties)) ∧ path = rootPath ∧
        ∀ pairs, ∃ error, c.decodeQuery pairs t = .error error) ∨
      ∃ before p after, c.target t = .ok (.object (before ++ p :: after)) ∧
        (∀ q ∈ before, c.definitions.Carries q.type) ∧ ¬ c.definitions.Carries p.type ∧
        path = childPath rootPath p.name ∧
        ∀ pairs first others, textsFor (c.key p.name) pairs = first :: others → first ≠ nullText →
          ∃ error, c.decodeQuery pairs t = .error error := by
  constructor
  · intro passed
    obtain ⟨properties, reached, carries⟩ := queryFault?_eq_none_iff.1 passed
    refine ⟨properties, reached, fun pairs => ?_⟩
    cases read : c.decodeQuery pairs t with
    | error error =>
        exact .inr ⟨error, rfl, complaint_of_decodeQuery reached carries read⟩
    | ok v =>
        obtain ⟨_, fields, _, rfl, _⟩ := exists_object_of_decodeQuery read
        exact .inl ⟨fields, rfl⟩
  · intro path failed
    rcases exists_fault_of_queryFault? failed with ⟨notRecord, atRoot⟩ | ⟨before, p, after, reached, passed, other, named⟩
    · refine .inl ⟨notRecord, atRoot, fun pairs => Except.exists_error_of_ne_ok fun v read => ?_⟩
      obtain ⟨properties, _, reached, _⟩ := exists_object_of_decodeQuery read
      exact notRecord properties reached
    · refine .inr ⟨before, p, after, reached, passed, other, named, fun pairs first others given notNull => ?_⟩
      have declared : p ∈ before ++ p :: after := List.mem_append_right before List.mem_cons_self
      exact Except.exists_error_of_ne_ok fun v => decodeQuery_ne_ok reached declared other given notNull

/-- Levels, and a reference that leads nowhere. -/
def filterCodec : Codec where
  definitions :=
    { entries :=
        [("Level", ⟨some (.ofForm (.enumeration ["high", "low"])), some 0⟩), ("Loop", ⟨some (.ref "Loop"), some 1⟩)] }

def filterProperties : List (Property TypeDef) :=
  [⟨"min_level", (TypeDef.ref "Level").withNullable true, false⟩, ⟨"page_sizes", .elements (.primitive .uint8), true⟩]

def filterPairs : QueryPairs :=
  [("minLevel", "null"), ("pageSizes[]", "20"), ("page", "3"), ("pageSizes", "300")]

theorem queryFault?_exact_filters :
    filterCodec.definitions.queryFault? (.object filterProperties) = none ∧
      filterCodec.decodeQuery filterPairs (.object filterProperties) = .error (.outOfRange "/pageSizes/1" 300 .uint8) ∧
      Complaint filterCodec filterProperties filterPairs (.outOfRange "/pageSizes/1" 300 .uint8) ∧
      filterCodec.definitions.queryFault? (.object [⟨"next_loop", .ref "Loop", true⟩]) = some "/next_loop" ∧
      ∃ error, filterCodec.decodeQuery [("nextLoop", "x")] (.object [⟨"next_loop", .ref "Loop", true⟩]) =
        .error error := by
  have passes : filterCodec.definitions.queryFault? (.object filterProperties) = none := rfl
  have refuses : filterCodec.definitions.queryFault? (.object [⟨"next_loop", .ref "Loop", true⟩]) =
      some "/next_loop" := rfl
  have outside : filterCodec.decodeQuery filterPairs (.object filterProperties) =
      .error (.outOfRange "/pageSizes/1" 300 .uint8) := rfl
  refine ⟨passes, outside, ?_, refuses, ?_⟩
  · obtain ⟨_, reached, read⟩ := (queryFault?_exact filterCodec (.object filterProperties)).1 passes
    cases reached
    rcases read filterPairs with ⟨fields, same⟩ | ⟨error, same, complaint⟩
    · rw [outside] at same
      cases same
    · rw [outside] at same
      cases same
      exact complaint
  · rcases (queryFault?_exact filterCodec _).2 _ refuses with ⟨_, _, fails⟩ | ⟨before, p, after, reached, _, _, _, fails⟩
    · exact fails _
    · cases before with
      | nil =>
          cases reached
          exact fails _ "x" [] rfl (by decide)
      | cons q rest =>
          cases rest <;> cases reached

end Codec

end SchemaRpc
