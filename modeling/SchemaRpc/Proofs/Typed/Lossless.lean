import SchemaRpc.Proofs.Typed.RoundTrip

/-!
# Values tell typed data apart

A datum is read back from its own value, without any codec in between. What is missing and what is null have one value
each, and every wrapper that takes null takes it from the same value: registration keeps two wrappers for what is missing
from standing around one another, but not two that take null. `NullOnce` is the condition that is left to check.
-/

namespace SchemaRpc

open Introspection Catalog

variable {n : Nat} {types : TypeCatalog n} {defs : Definitions}

namespace Ty

/-- No wrapper that takes null stands directly around another one. -/
def NullOnce : Ty n → Prop
  | list item => item.NullOnce
  | map item => item.NullOnce
  | option inner => inner.takesNull = false ∧ inner.NullOnce
  | optional inner => inner.NullOnce
  | field inner => inner.takesNull = false ∧ inner.NullOnce
  | _ => True

instance : (ty : Ty n) → Decidable ty.NullOnce
  | list item => instDecidableNullOnce item
  | map item => instDecidableNullOnce item
  | option inner => @instDecidableAnd _ _ _ (instDecidableNullOnce inner)
  | optional inner => instDecidableNullOnce inner
  | field inner => @instDecidableAnd _ _ _ (instDecidableNullOnce inner)
  | bool | int _ | float32 | float64 | string | timestamp | json | unit | wide _ | declared _ => isTrue trivial

end Ty

namespace Datum

variable {d : Datum} {ty inner item : Ty n} {form : Form TypeDef} {slot : Fin n}

/-- Where null is not taken, no datum is null. -/
theorem isNull_toValue (hasType : HasType types d ty) (takesNull : ty.takesNull = false) : d.toValue.isNull = false := by
  induction hasType with
  | optionNull | optionPresent | fieldNull | fieldPresent =>
      cases takesNull
  | optionalPresent _ inductionHypothesis =>
      exact inductionHypothesis takesNull
  | _ =>
      rfl

/-! ## Reading back -/

theorem reader_present_option (absent : d.toValue.isAbsent = false) (null : d.toValue.isNull = false)
    (read : reader types d.toValue inner = .ok d) : reader types (present d).toValue (.option inner) = .ok (.present d) := by
  rw [toValue, reader_option, absent, null, read]
  rfl

theorem reader_present_optional (absent : d.toValue.isAbsent = false) (read : reader types d.toValue inner = .ok d) :
    reader types (present d).toValue (.optional inner) = .ok (.present d) := by
  rw [toValue, reader_optional, absent, read]
  rfl

theorem reader_present_field (absent : d.toValue.isAbsent = false) (null : d.toValue.isNull = false)
    (read : reader types d.toValue inner = .ok d) : reader types (present d).toValue (.field inner) = .ok (.present d) := by
  rw [toValue, reader_field, absent, null, read]
  rfl

theorem reader_toValue_signed {kind : IntKind} {i : Int64} (isSigned : kind.toPrimitive.isUnsigned = false)
    (inRange : kind.toPrimitive.inRange i.toInt = true) :
    reader types (signed i).toValue (.int kind) = .ok (.signed i) := by
  have same : integer kind i.toInt = .signed i := by
    simp [integer, isSigned]
  have unfolded : reader types (signed i).toValue (.int kind) = ofInt types (.int i) i.toInt (.int kind) := rfl
  rw [unfolded, ofInt_of_inRange inRange, same]

theorem reader_toValue_unsigned {kind : IntKind} {u : UInt64} (isUnsigned : kind.toPrimitive.isUnsigned = true)
    (inRange : kind.toPrimitive.inRange u.toNat = true) :
    reader types (unsigned u).toValue (.int kind) = .ok (.unsigned u) := by
  have same : integer kind u.toNat = .unsigned u := by
    simp [integer, isUnsigned]
  have unfolded : reader types (unsigned u).toValue (.int kind) = ofInt types (.uint u) u.toNat (.int kind) := rfl
  rw [unfolded, ofInt_of_inRange inRange, same]

theorem reader_toValue_list {items : List Datum} (read : ∀ d ∈ items, reader types d.toValue item = .ok d) :
    reader types (list items).toValue (.list item) = .ok (.list items) := by
  have each : List.Forall₂ (fun v d => reader types v item = .ok d) (listToValues items) items := by
    induction items with
    | nil =>
        exact .nil
    | cons head tail inductionHypothesis =>
        obtain ⟨readHead, readTail⟩ := List.forall_mem_cons.1 read
        exact .cons readHead (inductionHypothesis readTail)
  exact reader_list.trans (Except.map_eq_ok_iff.2 ⟨items, ofItems_eq_ok_iff.2 each, rfl⟩)

theorem reader_toValue_map {entries : List (String × Datum)} (ascending : Entries.Ascending entries)
    (read : ∀ entry ∈ entries, reader types entry.2.toValue item = .ok entry.2) :
    reader types (map entries).toValue (.map item) = .ok (.map entries) := by
  have kept : Entries.ofPairs (pairsToValues entries) = pairsToValues entries := by
    refine Entries.ofPairs_of_ascending (Codec.ascending_iff_keys.2 ?_)
    rw [keys_pairsToValues]
    exact Codec.ascending_iff_keys.1 ascending
  have each : List.Forall₂ (fun entry pair => pair.1 = entry.1 ∧ reader types entry.2 item = .ok pair.2)
      (pairsToValues entries) entries := by
    clear ascending kept
    induction entries with
    | nil =>
        exact .nil
    | cons head tail inductionHypothesis =>
        obtain ⟨readHead, readTail⟩ := List.forall_mem_cons.1 read
        exact .cons ⟨rfl, readHead⟩ (inductionHypothesis readTail)
  rw [toValue, kept]
  exact reader_map.trans (Except.map_eq_ok_iff.2 ⟨entries, ofEntries_eq_ok_iff.2 each, rfl⟩)

/-! ## Fields -/

section Fields

variable {declared : List (FieldDecl (Ty n))} {data : List (String × Datum)}

/-- Under different names each field is read back from its own value. -/
theorem fieldsRead_pairsToValues (distinct : (declared.map FieldDecl.name).Nodup)
    (names : List.Forall₂ (fun field entry => entry.1 = field.name) declared data)
    (read : ∀ pair ∈ declared.zip data, reader types pair.2.2.toValue pair.1.type = .ok pair.2.2) :
    FieldsRead types (Entries.ofPairs (pairsToValues data)) declared data := by
  have distinctData : (data.map Prod.fst).Nodup := by
    rw [map_eq_of_forall₂ names]
    exact distinct
  refine List.forall₂_iff_zip.2 ⟨names.length_eq, fun {field entry} paired => ?_⟩
  have name : entry.1 = field.name := (List.forall₂_iff_zip.1 names).2 paired
  obtain ⟨_, member⟩ := List.of_mem_zip paired
  refine ⟨name, ?_⟩
  rw [← name, Value.field, find?_pairsToValues distinctData member]
  exact read _ paired

end Fields

/-! ## Declared types -/

/-- The definitions of a table stand for the fields of the declared types that it names, which have different names. -/
structure Described (types : TypeCatalog n) (defs : Definitions) : Prop where
  coherent : Coherent types.shapes defs
  finished : Finished defs
  checked : defs.Everywhere Form.Checked

theorem Described.exists_stands (described : Described types defs)
    (named : ∃ name, defs.nameOf? (types.shapes.id slot) = some name) :
    ∃ form, form.Checked ∧ (types.get slot).members.Stands types defs form := by
  obtain ⟨name, named⟩ := named
  obtain ⟨body, found, _⟩ := entry_of_named described.coherent described.finished named
  have got : defs.get? name = some body := Option.bind_eq_some_iff.2 ⟨_, found, rfl⟩
  exact ⟨body.form, (described.checked.get? got).here, TypeCatalog.members_stands described.coherent named got⟩

/-- A declared type of which there is a record or a variant has a name where it is used. -/
theorem exists_name_of_hasForm (hasForm : (Ty.declared slot).HasForm types defs form)
    (notEnumeration : ∀ listed, (types.get slot).members ≠ .enumeration listed) :
    ∃ name, defs.nameOf? (types.shapes.id slot) = some name := by
  rcases hasForm with ⟨listed, members, _⟩ | ⟨_, name, named, _⟩
  · exact absurd members (notEnumeration listed)
  · exact ⟨name, named⟩

theorem exists_stands_of_zip {declared : List (FieldDecl (Ty n))} {properties : List (Property TypeDef)}
    {data : List (String × Datum)} (stands : List.Forall₂ (FieldDecl.Stands types defs) declared properties)
    {pair : FieldDecl (Ty n) × String × Datum} (paired : pair ∈ declared.zip data) :
    pair.1 ∈ declared ∧ ∃ t, pair.1.type.Stands types defs t := by
  obtain ⟨member, _⟩ := List.of_mem_zip paired
  obtain ⟨p, _, standsField⟩ := exists_mem_of_forall₂ stands pair.1 member
  exact ⟨member, p.type, standsField.type⟩

/-- What holds of all that a declared type leads to holds of all that the type of a field leads to. -/
theorem forall_reaches_of_listed {P : Fin n → Prop} (all : ∀ other, types.shapes.Reaches (.declared slot) other → P other)
    {type : Ty n} (listed : type ∈ (types.get slot).members.types) :
    ∀ other, types.shapes.Reaches type.shape other → P other := by
  intro other reaches
  have declared : type.shape ∈ (types.shapes.get slot).members.types := by
    rw [TypeCatalog.types_shapes]
    exact List.mem_map_of_mem listed
  exact all other (reaches.of_type declared)

/-- A datum of a type is read back from its value, when null is taken once at each place of the type and of all that it
leads to. The induction is on what makes it a datum of the type. -/
theorem reader_toValue (described : Described types defs) (hasType : HasType types d ty)
    (hasForm : ty.HasForm types defs form) (once : ty.NullOnce)
    (inside : ∀ other, types.shapes.Reaches ty.shape other → ∀ type ∈ (types.get other).members.types, type.NullOnce) :
    reader types d.toValue ty = .ok d := by
  induction hasType generalizing form with
  | bool | float64 | string | timestamp | json | optionNull | optionalAbsent | fieldAbsent | fieldNull =>
      rfl
  | signed isSigned inRange =>
      exact reader_toValue_signed isSigned inRange
  | unsigned isUnsigned inRange =>
      exact reader_toValue_unsigned isUnsigned inRange
  | @float32 x single =>
      have read : reader types (.float x) .float32 = .ok (.float x.roundToSingle) := rfl
      rw [single] at read
      exact read
  | unit | wide =>
      cases hasForm
  | list _ inductionHypothesis =>
      obtain ⟨s, _, _, itemForm, _⟩ := hasForm
      exact reader_toValue_list fun d member => inductionHypothesis d member itemForm once
        fun other reaches => inside other (reaches.of_slots rfl)
  | map ascending _ inductionHypothesis =>
      obtain ⟨s, _, _, itemForm, _⟩ := hasForm
      exact reader_toValue_map ascending fun entry member => inductionHypothesis entry member itemForm once
        fun other reaches => inside other (reaches.of_slots rfl)
  | optionPresent typed inductionHypothesis =>
      exact reader_present_option (isAbsent_toValue typed hasForm.2 hasForm.1) (isNull_toValue typed once.1)
        (inductionHypothesis hasForm.2 once.2 fun other reaches => inside other (reaches.of_slots rfl))
  | optionalPresent typed inductionHypothesis =>
      exact reader_present_optional (isAbsent_toValue typed hasForm.2 hasForm.1)
        (inductionHypothesis hasForm.2 once fun other reaches => inside other (reaches.of_slots rfl))
  | fieldPresent typed inductionHypothesis =>
      exact reader_present_field (isAbsent_toValue typed hasForm.2 hasForm.1) (isNull_toValue typed once.1)
        (inductionHypothesis hasForm.2 once.2 fun other reaches => inside other (reaches.of_slots rfl))
  | @record slot declared data members names _ inductionHypothesis =>
      have named := exists_name_of_hasForm hasForm (by rw [members]; rintro listed ⟨⟩)
      obtain ⟨bodyForm, checked, stands⟩ := described.exists_stands named
      rw [members] at stands
      cases stands with
      | @record _ properties standsFields =>
          have distinct : (declared.map FieldDecl.name).Nodup := by
            rw [FieldDecl.names_eq_of_stands standsFields]
            exact checked
          refine reader_record members distinct (fieldsRead_pairsToValues distinct names fun pair paired => ?_)
          obtain ⟨member, t, standsField⟩ := exists_stands_of_zip standsFields paired
          have listed : pair.1.type ∈ (types.get slot).members.types := by
            rw [members]
            exact List.mem_map_of_mem member
          exact inductionHypothesis pair paired standsField.form (inside slot (.mentioned List.mem_cons_self) _ listed)
            (forall_reaches_of_listed inside listed)
  | @variant slot key tag variants found data members tagged names _ inductionHypothesis =>
      have named := exists_name_of_hasForm hasForm (by rw [members]; rintro listed ⟨⟩)
      obtain ⟨bodyForm, checked, stands⟩ := described.exists_stands named
      rw [members] at stands
      cases stands with
      | @union _ _ mapping standsVariants =>
          have isVariant : found ∈ variants := List.mem_of_find?_eq_some tagged
          obtain ⟨entry, mapped, _, standsFields⟩ := exists_mem_of_forall₂ standsVariants found isVariant
          have distinct : (found.fields.map FieldDecl.name).Nodup := by
            rw [FieldDecl.names_eq_of_stands standsFields]
            exact (List.nodup_cons.1 (checked.2 entry mapped)).2
          refine reader_variant members tagged distinct (fieldsRead_pairsToValues distinct names fun pair paired => ?_)
          obtain ⟨member, t, standsField⟩ := exists_stands_of_zip standsFields paired
          have listed : pair.1.type ∈ (types.get slot).members.types := by
            rw [members]
            exact List.mem_flatMap.2 ⟨found, isVariant, List.mem_map_of_mem member⟩
          exact inductionHypothesis pair paired standsField.form (inside slot (.mentioned List.mem_cons_self) _ listed)
            (forall_reaches_of_listed inside listed)
  | enumeration members member =>
      exact reader_enumeration members member

/-! ## Data that share a value -/

/-- Two data of a type have one value. -/
def Collides (types : TypeCatalog n) (ty : Ty n) : Prop :=
  ∃ d d', HasType types d ty ∧ HasType types d' ty ∧ d ≠ d' ∧ d.toValue = d'.toValue

theorem hasType_null (takesNull : ty.takesNull = true) (always : ty.mayMiss = false) : HasType types .null ty := by
  cases ty with
  | option inner =>
      exact .optionNull
  | optional | field =>
      cases always
  | _ =>
      cases takesNull

/-- Null inside of a wrapper that takes null has the value of null outside of it. -/
theorem collides_of_takesNull (takesNull : inner.takesNull = true) (always : inner.mayMiss = false)
    (wrapper : ty = .option inner ∨ ty = .field inner) : Collides types ty := by
  have null : HasType types .null inner := hasType_null takesNull always
  rcases wrapper with rfl | rfl
  · exact ⟨.null, .present .null, .optionNull, .optionPresent null, by rintro ⟨⟩, rfl⟩
  · exact ⟨.null, .present .null, .fieldNull, .fieldPresent null, by rintro ⟨⟩, rfl⟩

theorem Collides.present (collides : Collides types inner)
    (wrapper : ty = .option inner ∨ ty = .optional inner ∨ ty = .field inner) : Collides types ty := by
  obtain ⟨d, d', typed, typed', different, same⟩ := collides
  have apart : Datum.present d ≠ .present d' := fun equal => different (Datum.present.inj equal)
  rcases wrapper with rfl | rfl | rfl
  · exact ⟨_, _, .optionPresent typed, .optionPresent typed', apart, same⟩
  · exact ⟨_, _, .optionalPresent typed, .optionalPresent typed', apart, same⟩
  · exact ⟨_, _, .fieldPresent typed, .fieldPresent typed', apart, same⟩

theorem Collides.list (collides : Collides types item) : Collides types (.list item) := by
  obtain ⟨d, d', typed, typed', different, same⟩ := collides
  refine ⟨.list [d], .list [d'], .list (List.forall_mem_singleton.2 typed), .list (List.forall_mem_singleton.2 typed'),
    fun equal => different (List.cons.inj (Datum.list.inj equal)).1, ?_⟩
  simp only [toValue, listToValues, same]

theorem Collides.map (collides : Collides types item) : Collides types (.map item) := by
  obtain ⟨d, d', typed, typed', different, same⟩ := collides
  refine ⟨.map [("", d)], .map [("", d')], .map (List.pairwise_singleton _ _) (List.forall_mem_singleton.2 typed),
    .map (List.pairwise_singleton _ _) (List.forall_mem_singleton.2 typed'), fun equal => different ?_, ?_⟩
  · exact (Prod.mk.inj (List.cons.inj (Datum.map.inj equal)).1).2
  · simp only [toValue, pairsToValues, same]

/-- Where null is taken twice at one place, two data have one value. -/
theorem collides_of_not_nullOnce (hasForm : ty.HasForm types defs form) (twice : ¬ ty.NullOnce) : Collides types ty := by
  induction ty generalizing form with
  | list item inductionHypothesis =>
      obtain ⟨s, _, _, itemForm, _⟩ := hasForm
      exact (inductionHypothesis itemForm twice).list
  | map item inductionHypothesis =>
      obtain ⟨s, _, _, itemForm, _⟩ := hasForm
      exact (inductionHypothesis itemForm twice).map
  | option inner inductionHypothesis =>
      cases takesNull : inner.takesNull with
      | true =>
          exact collides_of_takesNull takesNull hasForm.1 (.inl rfl)
      | false =>
          exact (inductionHypothesis hasForm.2 fun once => twice ⟨takesNull, once⟩).present (.inl rfl)
  | optional inner inductionHypothesis =>
      exact (inductionHypothesis hasForm.2 twice).present (.inr (.inl rfl))
  | field inner inductionHypothesis =>
      cases takesNull : inner.takesNull with
      | true =>
          exact collides_of_takesNull takesNull hasForm.1 (.inr rfl)
      | false =>
          exact (inductionHypothesis hasForm.2 fun once => twice ⟨takesNull, once⟩).present (.inr (.inr rfl))
  | bool | int | float32 | float64 | string | timestamp | json | unit | wide | declared =>
      exact absurd trivial twice

end Datum

/-! ## Registered types -/

theorem Members.exists_stands_of_listed {members : Members (Ty n)} {form : Form TypeDef} {type : Ty n}
    (stands : members.Stands types defs form) (listed : type ∈ members.types) : ∃ t, type.Stands types defs t := by
  cases stands with
  | record standsFields =>
      obtain ⟨field, member, rfl⟩ := List.mem_map.1 listed
      obtain ⟨p, _, standsField⟩ := exists_mem_of_forall₂ standsFields field member
      exact ⟨p.type, standsField.type⟩
  | union standsVariants =>
      obtain ⟨variant, isVariant, inside⟩ := List.mem_flatMap.1 listed
      obtain ⟨field, member, rfl⟩ := List.mem_map.1 inside
      obtain ⟨entry, _, _, standsFields⟩ := exists_mem_of_forall₂ standsVariants variant isVariant
      obtain ⟨p, _, standsField⟩ := exists_mem_of_forall₂ standsFields field member
      exact ⟨p.type, standsField.type⟩

namespace TypeCatalog

/-- The type of a field, of a registered type or of one that it leads to, in a registry that validates. Each of its data is
read back from its value, and no two have one value, exactly when null is taken once at each place of the type; the same is
asked of the declared types that it leads to. -/
theorem ofValue_toValue_iff (unique : types.shapes.OneTypeEach) {before after : List (Registration n)}
    {made : Registration n} {root : Ty n} {name : String}
    (registers : Registers types (types.registry before) made root name)
    (valid : (types.registry (before ++ made :: after)).validate = .ok ()) {slot : Fin n}
    (reaches : types.shapes.Reaches root.shape slot) {ty : Ty n} (listed : ty ∈ (types.get slot).members.types)
    (inside : ∀ other, types.shapes.Reaches ty.shape other → ∀ type ∈ (types.get other).members.types, type.NullOnce) :
    ((∀ x : Datum, x.HasType types ty → Datum.ofValue types x.toValue ty = .ok x) ↔ ty.NullOnce) ∧
      ((∀ x y : Datum, x.HasType types ty → y.HasType types ty → x.toValue = y.toValue → x = y) ↔ ty.NullOnce) := by
  obtain ⟨rootSlot, rfl, _, named⟩ := @named_registry n types unique before after made root name registers
  have described : Datum.Described types (types.registry (before ++ made :: after)).definitions :=
    ⟨coherent_registry unique _, Registry.finished_of_validate valid, checked_registry _⟩
  generalize types.registry (before ++ made :: after) = r at *
  have declared : ty.shape ∈ (types.shapes.get slot).members.types := by
    rw [types_shapes]
    exact List.mem_map_of_mem listed
  have namedSlot := named_of_reaches described.coherent described.finished named reaches (isEntered_of_type declared)
  obtain ⟨form, _, standsMembers⟩ := described.exists_stands namedSlot
  obtain ⟨t, stands⟩ := Members.exists_stands_of_listed standsMembers listed
  have returns : ty.NullOnce → ∀ x : Datum, x.HasType types ty → Datum.ofValue types x.toValue ty = .ok x :=
    fun once x hasType => Datum.reader_toValue described hasType stands.form once inside
  have separates : (∀ x : Datum, x.HasType types ty → Datum.ofValue types x.toValue ty = .ok x) →
      ∀ x y : Datum, x.HasType types ty → y.HasType types ty → x.toValue = y.toValue → x = y := by
    intro returned x y typed typed' same
    have read := returned x typed
    rw [same, returned y typed'] at read
    exact (Except.ok.inj read).symm
  have once : (∀ x y : Datum, x.HasType types ty → y.HasType types ty → x.toValue = y.toValue → x = y) →
      ty.NullOnce := by
    intro separated
    by_contra twice
    obtain ⟨d, d', typed, typed', different, same⟩ := Datum.collides_of_not_nullOnce stands.form twice
    exact different (separated d d' typed typed' same)
  exact ⟨⟨fun returned => once (separates returned), returns⟩, ⟨once, fun nullOnce => separates (returns nullOnce)⟩⟩

/-- Tasks with marks, some of them missing, and with the task that comes next. -/
def tasks : TypeCatalog 1 := #v[
  { info := { id := 0, name := some "Task" }
    members := .record [⟨"marks", .field (.list (.option .timestamp)), none, false⟩,
      ⟨"next", .optional (.declared 0), none, false⟩] }]

def taskShapes : Catalog 1 := #v[
  { info := { id := 0, name := some "Task" }
    members := .record [⟨"marks", .optional (.nullable (.array (.nullable (.primitive .timestamp)))), none, false⟩,
      ⟨"next", .optional (.declared 0), none, false⟩] }]

theorem shapes_tasks : tasks.shapes = taskShapes := by
  decide +kernel

theorem registry_tasks : tasks.registry [.model (.declared 0)] = Registry.calls {} [.define taskShapes (.declared 0)] := by
  rw [← shapes_tasks]
  rfl

theorem ofValue_toValue_iff_tasks :
    Registers tasks (tasks.registry []) (.model (.declared 0)) (.declared 0) "Task" ∧
    (tasks.registry [.model (.declared 0)]).validate = .ok () ∧
    (∀ x : Datum, x.HasType tasks (.optional (.declared 0)) →
      Datum.ofValue tasks x.toValue (.optional (.declared 0)) = .ok x) ∧
    ∀ x y : Datum, x.HasType tasks (.optional (.declared 0)) → y.HasType tasks (.optional (.declared 0)) →
      x.toValue = y.toValue → x = y :=
  have unique : tasks.shapes.OneTypeEach := by decide +kernel
  have registers : Registers tasks (tasks.registry []) (.model (.declared 0)) (.declared 0) "Task" :=
    .model (by rw [shapes_tasks]; rfl)
  have valid : (tasks.registry [.model (.declared 0)]).validate = .ok () := by
    rw [registry_tasks]
    rfl
  have listed : Ty.optional (.declared 0) ∈ (tasks.get 0).members.types := by decide
  have once : ∀ other, ∀ type ∈ (tasks.get other).members.types, type.NullOnce := by decide +kernel
  have both := @ofValue_toValue_iff 1 tasks unique [] [] _ _ _ registers valid 0 (.mentioned List.mem_cons_self) _ listed
    fun other _ => once other
  ⟨registers, valid, both.1.2 trivial, both.2.2 trivial⟩

/-- A field that may be null twice over. -/
def deeps : TypeCatalog 1 := #v[
  { info := { id := 0, name := some "Deep" }
    members := .record [⟨"done", .option (.option .bool), none, false⟩] }]

def deepShapes : Catalog 1 := #v[
  { info := { id := 0, name := some "Deep" }
    members := .record [⟨"done", .nullable (.nullable (.primitive .boolean)), none, false⟩] }]

theorem shapes_deeps : deeps.shapes = deepShapes := by
  decide +kernel

theorem registry_deeps : deeps.registry [.model (.declared 0)] = Registry.calls {} [.define deepShapes (.declared 0)] := by
  rw [← shapes_deeps]
  rfl

/-- The record is registered, and null inside of the outer wrapper is read back as null of the outer wrapper itself. -/
theorem deep_not_lossless :
    ¬ ∀ (types : TypeCatalog 1) (made : Registration 1) (name : String), types.shapes.OneTypeEach →
        Registers types (types.registry []) made (.declared 0) name → (types.registry [made]).validate = .ok () →
        ∀ ty ∈ (types.get 0).members.types, ∀ x : Datum, x.HasType types ty →
          Datum.ofValue types x.toValue ty = .ok x := by
  intro lossless
  have registers : Registers deeps (deeps.registry []) (.model (.declared 0)) (.declared 0) "Deep" :=
    .model (by rw [shapes_deeps]; rfl)
  have valid : (deeps.registry [.model (.declared 0)]).validate = .ok () := by
    rw [registry_deeps]
    rfl
  have typed : Datum.HasType deeps (.present .null) (.option (.option .bool)) := .optionPresent .optionNull
  have returned := lossless deeps _ _ (by decide +kernel) registers valid (.option (.option .bool))
    List.mem_cons_self _ typed
  have read : Datum.ofValue deeps (Datum.present .null).toValue (.option (.option .bool)) = .ok .null := rfl
  rw [read] at returned
  cases returned

end TypeCatalog

end SchemaRpc
