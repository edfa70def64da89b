import Mathlib.Data.List.Nodup
import SchemaRpc.Proofs.Casing.Legible
import SchemaRpc.Proofs.Definitions.Changes
import SchemaRpc.Proofs.Introspection.Extends

/-!
# Names made up from paths

An anonymous record or union is named after the fields and tags that lead to it. So a walk into an empty table is refused
for a name only where two anonymous types are reached over paths that read the same (`root_nameCollision`), as those over
`user_name`, and over `user` and `name`, do. It never is where the names on the paths are legible in a row.
-/

namespace SchemaRpc

/-- The types of the fields, each under the names that lead to it: that of the field, after the tag of a variant. -/
def Members.steps {τ : Type} : Members τ → List (List String × τ)
  | record fields => fields.map fun field => ([field.name], field.type)
  | union _ variants =>
    variants.flatMap fun variant => variant.fields.map fun field => ([variant.tag, field.name], field.type)
  | enumeration _ => []

theorem Members.length_of_steps {τ : Type} {members : Members τ} {step other : List String × τ}
    (listed : step ∈ members.steps) (listed' : other ∈ members.steps) :
    step.1.length = other.1.length ∧ step.1 ≠ [] := by
  cases members with
  | record fields =>
      obtain ⟨field, -, rfl⟩ := List.mem_map.1 listed
      obtain ⟨field', -, rfl⟩ := List.mem_map.1 listed'
      exact ⟨rfl, List.cons_ne_nil _ _⟩
  | union key variants =>
      obtain ⟨variant, -, inside⟩ := List.mem_flatMap.1 listed
      obtain ⟨variant', -, inside'⟩ := List.mem_flatMap.1 listed'
      obtain ⟨field, -, rfl⟩ := List.mem_map.1 inside
      obtain ⟨field', -, rfl⟩ := List.mem_map.1 inside'
      exact ⟨rfl, List.cons_ne_nil _ _⟩
  | enumeration _ =>
      cases listed

theorem Shape.eq_of_mem_slots {n : Nat} {shape : Shape n} {slot other : Fin n} (mentioned : slot ∈ shape.slots)
    (mentioned' : other ∈ shape.slots) : slot = other := by
  induction shape with
  | declared here =>
      rw [List.mem_singleton.1 mentioned, List.mem_singleton.1 mentioned']
  | array _ inductionHypothesis | map _ inductionHypothesis | optional _ inductionHypothesis
  | nullable _ inductionHypothesis =>
      exact inductionHypothesis mentioned mentioned'
  | primitive | any | unit | unsupported =>
      cases mentioned

/-! ## Paths -/

namespace Catalog

variable {n : Nat} {catalog : Catalog n} {shape : Shape n} {slot other : Fin n} {path : List String}

/-- The names on the way from a shape to a declared type that it leads to. -/
inductive Leads (catalog : Catalog n) : Shape n → List String → Fin n → Prop
  | here {shape : Shape n} {slot : Fin n} :
      slot ∈ shape.slots →
      Leads catalog shape [] slot
  | step {shape type : Shape n} {slot other : Fin n} {names path : List String} :
      slot ∈ shape.slots →
      (names, type) ∈ (catalog.get slot).members.steps →
      Leads catalog type path other →
      Leads catalog shape (names ++ path) other

theorem Leads.extend {type : Shape n} {names : List String} (leads : Leads catalog shape path slot)
    (listed : (names, type) ∈ (catalog.get slot).members.steps) (mentioned : other ∈ type.slots) :
    Leads catalog shape (path ++ names) other := by
  induction leads with
  | here first =>
      have one := Leads.step first listed (.here mentioned)
      rwa [List.append_nil] at one
  | step first firstListed _ inductionHypothesis =>
      rw [List.append_assoc]
      exact .step first firstListed (inductionHypothesis listed)

/-- No two fields of a type are under the same names. -/
def StepsDistinct (catalog : Catalog n) : Prop :=
  ∀ slot, ((catalog.get slot).members.steps.map Prod.fst).Nodup

instance : Decidable catalog.StepsDistinct :=
  inferInstanceAs (Decidable (∀ slot, ((catalog.get slot).members.steps.map Prod.fst).Nodup))

/-- A path leads to one type only. -/
theorem Leads.unique (distinct : catalog.StepsDistinct) (leads : Leads catalog shape path slot)
    (leads' : Leads catalog shape path other) : slot = other := by
  induction leads with
  | here mentioned =>
      generalize isNil : ([] : List String) = path at leads'
      cases leads' with
      | here mentioned' =>
          exact Shape.eq_of_mem_slots mentioned mentioned'
      | step _ listed _ =>
          exact absurd (List.append_eq_nil_iff.1 isNil.symm).1 (Members.length_of_steps listed listed).2
  | @step shape type first last names rest mentioned listed _ inductionHypothesis =>
      generalize isPath : names ++ rest = path at leads'
      cases leads' with
      | here _ =>
          exact absurd (List.append_eq_nil_iff.1 isPath).1 (Members.length_of_steps listed listed).2
      | @step _ type' first' _ names' rest' mentioned' listed' leads' =>
          cases Shape.eq_of_mem_slots mentioned mentioned'
          obtain ⟨rfl, rfl⟩ := List.append_inj isPath (Members.length_of_steps listed listed').1
          cases List.inj_on_of_nodup_map (distinct first) listed listed' rfl
          exact inductionHypothesis leads'

/-- A record or union without a name of its own. -/
def Anonymous (catalog : Catalog n) (slot : Fin n) : Prop :=
  catalog.IsEntered slot ∧ (catalog.get slot).info.name = none

/-- A name on some way to an anonymous type. -/
def OnWay (catalog : Catalog n) (shape : Shape n) (name : String) : Prop :=
  ∃ path slot, Leads catalog shape path slot ∧ catalog.Anonymous slot ∧ name ∈ path

/-- All names that lead from a type to another. -/
def stepNames (catalog : Catalog n) : List String :=
  (List.finRange n).flatMap fun slot => (catalog.get slot).members.steps.flatMap Prod.fst

theorem Leads.mem_stepNames (leads : Leads catalog shape path slot) : ∀ name ∈ path, name ∈ catalog.stepNames := by
  induction leads with
  | here _ =>
      exact List.forall_mem_nil _
  | @step _ _ first _ names path _ listed _ inductionHypothesis =>
      intro name onPath
      rcases List.mem_append.1 onPath with onStep | later
      · exact List.mem_flatMap.2 ⟨first, List.mem_finRange first, List.mem_flatMap.2 ⟨_, listed, onStep⟩⟩
      · exact inductionHypothesis name later

theorem OnWay.mem_stepNames {name : String} (onWay : OnWay catalog shape name) : name ∈ catalog.stepNames := by
  obtain ⟨path, slot, leads, -, onPath⟩ := onWay
  exact leads.mem_stepNames name onPath

end Catalog

/-! ## Refusals for a name -/

namespace TypeDef

variable {name : String}

theorem enumeration_ne_nameCollision (listed : List String) :
    enumeration listed ≠ .error (.nameCollision name) := by
  unfold enumeration
  intro refused
  split at refused
  · cases refused
  · split at refused <;> cases refused

theorem checkProperties_ne_nameCollision (properties : List (Property TypeDef)) :
    checkProperties properties ≠ .error (.nameCollision name) := by
  unfold checkProperties
  intro refused
  split at refused <;> cases refused

theorem unionFault?_ne_nameCollision (key : String) (seen : List String)
    (mapping : List (String × List (Property TypeDef))) :
    unionFault? key seen mapping ≠ some (.nameCollision name) := by
  induction mapping generalizing seen with
  | nil =>
      intro fault
      cases fault
  | cons variant rest inductionHypothesis =>
      unfold unionFault?
      intro fault
      split at fault
      · cases fault
      · split at fault
        · cases fault
        · exact inductionHypothesis _ fault

theorem unionOf_ne_nameCollision (key : String) (mapping : List (String × List (Property TypeDef))) :
    unionOf key mapping ≠ .error (.nameCollision name) := by
  unfold unionOf
  intro refused
  split at refused
  · next error fault =>
    cases refused
    exact unionFault?_ne_nameCollision key [] mapping fault
  · cases refused

end TypeDef

namespace Introspection

open Catalog

variable {α β : Type} {invariant : Definitions → Prop} {guilty : String → Prop}

/-- The walk keeps the invariant, also when it is refused, and it is refused for a name only if that is as stated. -/
def Blames (invariant : Definitions → Prop) (guilty : String → Prop) (walk : Walk α) : Prop :=
  ∀ defs, invariant defs → invariant (walk.run.run defs).2 ∧
    ∀ name, (walk.run.run defs).1 = .error (.model (.nameCollision name)) → guilty name

namespace Blames

theorem pure {a : α} : Blames invariant guilty (Pure.pure a) :=
  fun _ kept => ⟨kept, nofun⟩

theorem throw {error : RegistrationError} (other : ∀ name, error ≠ .model (.nameCollision name)) :
    Blames invariant guilty (MonadExcept.throw error : Walk α) :=
  fun _ kept => ⟨kept, fun name refused => absurd (Except.error.inj refused) (other name)⟩

theorem get : Blames invariant guilty (MonadState.get : Walk Definitions) :=
  fun _ kept => ⟨kept, nofun⟩

theorem lift {result : Except ModelError α} (other : ∀ name, result ≠ .error (.nameCollision name)) :
    Blames invariant guilty (Introspection.lift result) := by
  cases result with
  | ok a =>
      exact pure
  | error error =>
      refine throw fun name same => other name ?_
      rw [RegistrationError.model.inj same]

theorem onTable {operation : Definitions → Except ModelError Definitions}
    (preserved : ∀ defs defs', invariant defs → operation defs = .ok defs' → invariant defs')
    (blamed : ∀ defs name, invariant defs → operation defs = .error (.nameCollision name) → guilty name) :
    Blames invariant guilty (Introspection.onTable operation) := by
  intro defs kept
  rw [run_onTable]
  cases done : operation defs with
  | ok defs' =>
      exact ⟨preserved defs defs' kept done, nofun⟩
  | error error =>
      refine ⟨kept, fun name refused => blamed defs name kept ?_⟩
      rw [done, RegistrationError.model.inj (Except.error.inj refused)]

theorem bind {walk : Walk α} {next : α → Walk β} (first : Blames invariant guilty walk)
    (rest : ∀ a, Blames invariant guilty (next a)) : Blames invariant guilty (walk >>= next) := by
  intro defs kept
  obtain ⟨keptFirst, blamedFirst⟩ := first defs kept
  cases ran : walk.run.run defs with
  | mk result between =>
    rw [ran] at keptFirst blamedFirst
    cases result with
    | ok a =>
        rw [run_bind_ok ran]
        exact rest a between keptFirst
    | error error =>
        rw [run_bind_error ran]
        exact ⟨keptFirst, fun name refused => blamedFirst name (congrArg Except.error (Except.error.inj refused))⟩

end Blames

/-! ## Walks from a root -/

variable {n : Nat} {w : Introspection n} {root shape : Shape n} {name : String} {id : TypeId}

/-- A name that the root's walk may give a type, by the type's own name or over one of the paths to it. -/
def Bears (w : Introspection n) (root : Shape n) (name : String) (id : TypeId) : Prop :=
  ∃ path slot, Leads w.catalog root path slot ∧ w.catalog.IsEntered slot ∧ w.catalog.id slot = id ∧
    w.nameFor (w.catalog.get slot).info path = name

/-- Every entry is that of a type that bears its name. -/
def Filed (w : Introspection n) (root : Shape n) (defs : Definitions) : Prop :=
  ∀ name entry, defs.entry? name = some entry → ∃ id, entry.owner = some id ∧ Bears w root name id

/-- Different types bear the name. -/
def Clashes (w : Introspection n) (root : Shape n) (name : String) : Prop :=
  ∃ id id', id ≠ id' ∧ Bears w root name id ∧ Bears w root name id'

theorem Filed.clashes {defs : Definitions} {entry : Definitions.Entry} (filed : Filed w root defs)
    (found : defs.entry? name = some entry) (foreign : entry.owner ≠ some id) (bears : Bears w root name id) :
    Clashes w root name := by
  obtain ⟨id', owned, bears'⟩ := filed name entry found
  refine ⟨id, id', ?_, bears, bears'⟩
  rintro rfl
  exact foreign owned

theorem Filed.put {defs defs' : Definitions} {body? : Option TypeDef} (filed : Filed w root defs)
    (bears : Bears w root name id)
    (put : ∀ other entry, defs'.entry? other = some entry →
      other = name ∧ entry = ⟨body?, some id⟩ ∨ defs.entry? other = some entry) : Filed w root defs' := by
  intro other entry found
  rcases put other entry found with ⟨rfl, rfl⟩ | before
  · exact ⟨id, rfl, bears⟩
  · exact filed other entry before

theorem blames_reserve (bears : Bears w root name id) :
    Blames (Filed w root) (Clashes w root) (onTable fun defs => defs.reserve name (some id)) := by
  refine .onTable (fun defs defs' filed reserved => ?_) fun defs other filed refused => ?_
  · rcases Definitions.reserve_eq_ok_iff.1 reserved with ⟨_, _, _, rfl⟩ | ⟨_, rfl⟩
    · exact filed
    · exact filed.put bears fun _ _ => Definitions.entry?_of_add
  · obtain ⟨rfl, entry, found, foreign⟩ := Definitions.Change.foreign_of_refused (.reserve name (some id)) rfl refused
    exact filed.clashes found foreign bears

theorem blames_insert (body : TypeDef) (bears : Bears w root name id) :
    Blames (Filed w root) (Clashes w root) (onTable fun defs => defs.insert name body (some id)) := by
  refine .onTable (fun defs defs' filed inserted => ?_) fun defs other filed refused => ?_
  · rcases Definitions.insert_eq_ok_iff.1 inserted with ⟨_, rfl⟩ | ⟨_, rfl⟩ | ⟨_, _, rfl⟩
    · exact filed.put bears fun _ _ => Definitions.entry?_of_add
    · exact filed.put bears fun _ _ => Definitions.entry?_of_fill
    · exact filed
  · obtain ⟨rfl, entry, found, foreign⟩ := Definitions.Change.foreign_of_refused (.insert name body (some id)) rfl refused
    exact filed.clashes found foreign bears

section Walks

variable {expand : Expansion n} {path : List String} {slot : Fin n}

/-- Each use of a declared type is refused for a name only where different types bear it. -/
def BlamesUses (w : Introspection n) (root : Shape n) (expand : Expansion n) : Prop :=
  ∀ slot path, Leads w.catalog root path slot → Blames (Filed w root) (Clashes w root) (expand slot path)

theorem blames_walkShape (uses : BlamesUses w root expand)
    (leads : ∀ slot ∈ shape.slots, Leads w.catalog root path slot) :
    Blames (Filed w root) (Clashes w root) (walkShape expand path shape) := by
  induction shape with
  | primitive | any =>
      exact .pure
  | array item inductionHypothesis | map item inductionHypothesis | nullable item inductionHypothesis =>
      exact (inductionHypothesis leads).bind fun _ => .pure
  | optional | unit | unsupported =>
      exact .throw nofun
  | declared slot =>
      exact uses slot path (leads slot List.mem_cons_self)

theorem blames_walkFields (uses : BlamesUses w root expand) {fields : List (FieldDecl (Shape n))}
    (leads : ∀ field ∈ fields, ∀ slot ∈ field.type.slots, Leads w.catalog root (path ++ [field.name]) slot) :
    Blames (Filed w root) (Clashes w root) (walkFields expand path fields) := by
  induction fields with
  | nil =>
      exact .pure
  | cons field rest inductionHypothesis =>
      obtain ⟨here, later⟩ := List.forall_mem_cons.1 leads
      rw [walkFields_cons]
      rw [← slots_splitOptional] at here
      exact (blames_walkShape uses here).bind fun _ => (inductionHypothesis later).bind fun _ => .pure

theorem blames_walkObject (uses : BlamesUses w root expand) {fields : List (FieldDecl (Shape n))}
    (leads : ∀ field ∈ fields, ∀ slot ∈ field.type.slots, Leads w.catalog root (path ++ [field.name]) slot) :
    Blames (Filed w root) (Clashes w root) (walkObject expand path fields) :=
  (blames_walkFields uses leads).bind fun properties =>
    .lift fun _ => TypeDef.checkProperties_ne_nameCollision properties

theorem blames_walkVariants (uses : BlamesUses w root expand) {variants : List (VariantDecl (Shape n))}
    (leads : ∀ variant ∈ variants, ∀ field ∈ variant.fields, ∀ slot ∈ field.type.slots,
      Leads w.catalog root (path ++ [variant.tag] ++ [field.name]) slot) :
    Blames (Filed w root) (Clashes w root) (walkVariants expand path variants) := by
  induction variants with
  | nil =>
      exact .pure
  | cons variant rest inductionHypothesis =>
      obtain ⟨here, later⟩ := List.forall_mem_cons.1 leads
      exact (blames_walkObject uses here).bind fun _ => (inductionHypothesis later).bind fun _ => .pure

theorem blames_walkMembers (uses : BlamesUses w root expand) {members : Members (Shape n)}
    (leads : ∀ step ∈ members.steps, ∀ slot ∈ step.2.slots, Leads w.catalog root (path ++ step.1) slot) :
    Blames (Filed w root) (Clashes w root) (walkMembers expand path members) := by
  cases members with
  | record fields =>
      refine (blames_walkObject uses fun field declared => ?_).bind fun _ => .pure
      exact leads _ (List.mem_map.2 ⟨field, declared, rfl⟩)
  | union key variants =>
      refine (blames_walkVariants uses fun variant listed field declared => ?_).bind fun mapping =>
        .lift fun _ => TypeDef.unionOf_ne_nameCollision key mapping
      rw [List.append_assoc]
      exact leads _ (List.mem_flatMap.2 ⟨variant, listed, List.mem_map.2 ⟨field, declared, rfl⟩⟩)
  | enumeration listed =>
      exact .lift fun _ => TypeDef.enumeration_ne_nameCollision listed

theorem blames_enter (uses : BlamesUses w root expand) (leads : Leads w.catalog root path slot)
    (isEntered : w.catalog.IsEntered slot) :
    Blames (Filed w root) (Clashes w root)
      (w.enter expand path (w.catalog.get slot).info (w.catalog.get slot).members) := by
  have bears : Bears w root (w.nameFor (w.catalog.get slot).info path) (w.catalog.id slot) :=
    ⟨path, slot, leads, isEntered, rfl, rfl⟩
  have onwards : ∀ step ∈ (w.catalog.get slot).members.steps, ∀ other ∈ step.2.slots,
      Leads w.catalog root (path ++ step.1) other :=
    fun step listed other mentioned => leads.extend listed mentioned
  refine (blames_reserve bears).bind fun _ => (blames_walkMembers uses onwards).bind fun body => ?_
  exact (blames_insert _ bears).bind fun _ => .pure

theorem blamesUses_visit (uses : BlamesUses w root expand) : BlamesUses w root (w.visit expand) := by
  intro slot path leads
  cases isEnum : (w.catalog.get slot).members.isEnumeration with
  | true =>
      obtain ⟨listed, members⟩ := Members.eq_enumeration isEnum
      rw [visit_enumeration members]
      exact Blames.bind (.lift fun _ => TypeDef.enumeration_ne_nameCollision listed) fun _ => .pure
  | false =>
      rw [visit_entered isEnum]
      refine Blames.get.bind fun defs => ?_
      split
      · exact .pure
      · exact blames_enter uses leads isEnum

theorem blamesUses_expand (fuel : Nat) : BlamesUses w root (w.expand fuel) := by
  induction fuel with
  | zero =>
      exact fun _ _ _ => .throw nofun
  | succ fuel inductionHypothesis =>
      exact blamesUses_visit inductionHypothesis

end Walks

/-- The walk of a root is refused for a name only where different types bear it. -/
theorem blames_root (w : Introspection n) (root : Shape n) :
    Blames (Filed w root) (Clashes w root) (w.root root) := by
  unfold Introspection.root rootBy
  split
  · exact .pure
  · next slot =>
    split
    split
    · exact .throw nofun
    · have use : Blames (Filed w (.declared slot)) (Clashes w (.declared slot)) (w.expand (n + 1) slot []) :=
        blamesUses_expand _ slot [] (.here List.mem_cons_self)
      refine Blames.get.bind fun defs => ?_
      split
      · exact .bind (.throw nofun) fun _ => use.bind fun _ => .pure
      · exact use.bind fun _ => .pure
  · exact .throw nofun

/-! ## Names that are the same -/

/-- A type that is reached has the name of its own. -/
def Declares (w : Introspection n) (root : Shape n) (name : String) (id : TypeId) : Prop :=
  ∃ path slot, Leads w.catalog root path slot ∧ w.catalog.IsEntered slot ∧ w.catalog.id slot = id ∧
    (w.catalog.get slot).info.name = some name

/-- The names of declared types are different from one another, and from all that are made up. -/
structure NamesApart (w : Introspection n) (root : Shape n) : Prop where
  declared : ∀ name id id', Declares w root name id → Declares w root name id' → id = id'
  synthesized : ∀ name id path slot, Declares w root name id → Leads w.catalog root path slot →
    w.catalog.Anonymous slot → w.synthesizedName path ≠ name

/-- Two anonymous types are reached over paths that give them the name. -/
def ReadSame (w : Introspection n) (root : Shape n) (name : String) : Prop :=
  ∃ path path' slot other, Leads w.catalog root path slot ∧ Leads w.catalog root path' other ∧
    w.catalog.Anonymous slot ∧ w.catalog.Anonymous other ∧ w.catalog.id slot ≠ w.catalog.id other ∧
    w.synthesizedName path = name ∧ w.synthesizedName path' = name

/-- A type bears its own name, or one made up. -/
theorem Bears.cases (bears : Bears w root name id) :
    Declares w root name id ∨ ∃ path slot, Leads w.catalog root path slot ∧ w.catalog.Anonymous slot ∧
      w.catalog.id slot = id ∧ w.synthesizedName path = name := by
  obtain ⟨path, slot, leads, isEntered, sameId, named⟩ := bears
  unfold nameFor at named
  cases own : (w.catalog.get slot).info.name with
  | some ownName =>
      rw [own] at named
      exact .inl ⟨path, slot, leads, isEntered, sameId, own.trans (congrArg some named)⟩
  | none =>
      rw [own] at named
      exact .inr ⟨path, slot, leads, ⟨isEntered, own⟩, sameId, named⟩

theorem Clashes.readSame (apart : NamesApart w root) (clashes : Clashes w root name) : ReadSame w root name := by
  obtain ⟨id, id', different, bears, bears'⟩ := clashes
  rcases bears.cases with declares | ⟨path, slot, leads, isAnonymous, rfl, madeUp⟩
  · rcases bears'.cases with declares' | ⟨path', other, leads', isAnonymous', -, madeUp'⟩
    · exact absurd (apart.declared name id id' declares declares') different
    · exact absurd madeUp' (apart.synthesized name id path' other declares leads' isAnonymous')
  · rcases bears'.cases with declares' | ⟨path', other, leads', isAnonymous', rfl, madeUp'⟩
    · exact absurd madeUp (apart.synthesized name id' path slot declares' leads isAnonymous)
    · exact ⟨path, path', slot, other, leads, leads', isAnonymous, isAnonymous', different, madeUp, madeUp'⟩

theorem toList_synthesizedName (w : Introspection n) (path : List String) :
    (w.synthesizedName path).toList =
      Casing.pascalChars w.procedure ++ path.flatMap Casing.pascalChars ++ w.role.label.toList := by
  rw [synthesizedName, String.toList_append, String.toList_append, String.toList_join, List.flatMap_map]
  rfl

/-- Names made up over legible paths are different. -/
theorem path_eq_of_synthesizedName {capital : Char → Bool} {names : String → Prop} {path path' : List String}
    (legible : Casing.Legible capital names) (listed : ∀ name ∈ path, names name)
    (listed' : ∀ name ∈ path', names name) (same : w.synthesizedName path = w.synthesizedName path') :
    path = path' := by
  have sameChars := congrArg String.toList same
  rw [toList_synthesizedName, toList_synthesizedName] at sameChars
  exact legible.path_eq listed listed' (List.append_cancel_left (List.append_cancel_right sameChars))

theorem filed_empty : Filed w root .empty :=
  fun _ _ found => nomatch found

/-- A walk into an empty table is refused for a name only where two anonymous types are reached over paths that read the
same, and it never is, and anonymous types have different names, where the names on the paths are legible. -/
theorem root_nameCollision (w : Introspection n) (root : Shape n) (apart : NamesApart w root) :
    (∀ name, ((w.root root).run.run .empty).1 = .error (.model (.nameCollision name)) → ReadSame w root name) ∧
      ∀ capital, Casing.Legible capital (OnWay w.catalog root) → w.catalog.StepsDistinct →
        (∀ name, ((w.root root).run.run .empty).1 ≠ .error (.model (.nameCollision name))) ∧
        ∀ path path' slot other, Leads w.catalog root path slot → Leads w.catalog root path' other →
          w.catalog.Anonymous slot → w.catalog.Anonymous other →
          w.synthesizedName path = w.synthesizedName path' → path = path' ∧ slot = other := by
  have refusedOnlyIf : ∀ name, ((w.root root).run.run .empty).1 = .error (.model (.nameCollision name)) →
      ReadSame w root name :=
    fun name refused => ((blames_root w root .empty filed_empty).2 name refused).readSame apart
  refine ⟨refusedOnlyIf, fun capital legible distinct => ?_⟩
  have sameWay : ∀ path path' slot other, Leads w.catalog root path slot → Leads w.catalog root path' other →
      w.catalog.Anonymous slot → w.catalog.Anonymous other → w.synthesizedName path = w.synthesizedName path' →
      path = path' ∧ slot = other := by
    intro path path' slot other leads leads' isAnonymous isAnonymous' same
    have onWay : ∀ name ∈ path, OnWay w.catalog root name :=
      fun name onPath => ⟨path, slot, leads, isAnonymous, onPath⟩
    have onWay' : ∀ name ∈ path', OnWay w.catalog root name :=
      fun name onPath => ⟨path', other, leads', isAnonymous', onPath⟩
    obtain rfl := path_eq_of_synthesizedName legible onWay onWay' same
    exact ⟨rfl, leads.unique distinct leads'⟩
  refine ⟨fun name refused => ?_, sameWay⟩
  obtain ⟨path, path', slot, other, leads, leads', isAnonymous, isAnonymous', different, madeUp, madeUp'⟩ :=
    refusedOnlyIf name refused
  have sameSlot := (sameWay path path' slot other leads leads' isAnonymous isAnonymous' (madeUp.trans madeUp'.symm)).2
  exact different (congrArg w.catalog.id sameSlot)

/-- Declared names that do not begin with the procedure's are apart from all that are made up. -/
theorem namesApart_of_begins
    (distinct : ∀ slot other, (w.catalog.get slot).info.name ≠ none →
      (w.catalog.get slot).info.name = (w.catalog.get other).info.name → w.catalog.id slot = w.catalog.id other)
    (begins : ∀ slot, ∀ name ∈ (w.catalog.get slot).info.name, ¬ Casing.pascalChars w.procedure <+: name.toList) :
    NamesApart w root where
  declared := by
    rintro name id id' ⟨path, slot, -, -, rfl, named⟩ ⟨path', other, -, -, rfl, named'⟩
    refine distinct slot other ?_ (named.trans named'.symm)
    rw [named]
    exact Option.some_ne_none name
  synthesized := by
    rintro name id path slot ⟨path', other, -, -, -, named⟩ - - rfl
    refine begins other _ named ?_
    rw [toList_synthesizedName, List.append_assoc]
    exact List.prefix_append _ _

/-- A recursive order, with anonymous types for an address, its place, the ways to pay and the holder of a card. -/
def orderCatalog : Catalog 5 :=
  #v[⟨⟨0, some "Order", none, false⟩, .record
        [⟨"shipping_address", .declared 1, none, false⟩, ⟨"payment", .nullable (.declared 3), none, false⟩,
          ⟨"parent", .optional (.declared 0), none, false⟩]⟩,
    ⟨⟨1, none, none, false⟩, .record [⟨"geo", .declared 2, none, false⟩]⟩,
    ⟨⟨2, none, none, false⟩, .record [⟨"points", .array (.primitive .float64), none, false⟩]⟩,
    ⟨⟨3, none, none, false⟩, .union "kind"
        [⟨"card", none, [⟨"holder", .declared 4, none, false⟩]⟩,
          ⟨"invoice", none, [⟨"address", .declared 1, none, false⟩]⟩]⟩,
    ⟨⟨4, none, none, false⟩, .record [⟨"name", .primitive .string, none, false⟩]⟩]

def placeOrder {n : Nat} (catalog : Catalog n) : Introspection n :=
  ⟨catalog, "shop.placeOrder", .params⟩

theorem root_nameCollision_order :
    NamesApart (placeOrder orderCatalog) (.declared 0) ∧
      Casing.Legible Char.isUpper (OnWay orderCatalog (.declared 0)) ∧ orderCatalog.StepsDistinct ∧
      ∀ name, (((placeOrder orderCatalog).root (.declared 0)).run.run .empty).1 ≠
        .error (.model (.nameCollision name)) := by
  have apart : NamesApart (placeOrder orderCatalog) (.declared 0) :=
    namesApart_of_begins (by decide +kernel) (by decide +kernel)
  have listed : Casing.Legible Char.isUpper (· ∈ orderCatalog.stepNames) :=
    ⟨by decide +kernel, by decide +kernel⟩
  have legible : Casing.Legible Char.isUpper (OnWay orderCatalog (.declared 0)) :=
    listed.mono fun _ onWay => onWay.mem_stepNames
  have distinct : orderCatalog.StepsDistinct := by decide +kernel
  exact ⟨apart, legible, distinct, ((root_nameCollision _ _ apart).2 Char.isUpper legible distinct).1⟩

/-- An order with the name of a user, and a user with a name, both names of anonymous types. -/
def userNameCatalog : Catalog 4 :=
  #v[⟨⟨0, some "Order", none, false⟩, .record
        [⟨"user_name", .declared 1, none, false⟩, ⟨"user", .declared 2, none, false⟩]⟩,
    ⟨⟨1, none, none, false⟩, .record [⟨"first", .primitive .string, none, false⟩]⟩,
    ⟨⟨2, some "User", none, false⟩, .record [⟨"name", .declared 3, none, false⟩]⟩,
    ⟨⟨3, none, none, false⟩, .record [⟨"last", .primitive .string, none, false⟩]⟩]

/-- Names apart, and fields with different names, do not keep the names of anonymous types apart. -/
theorem root_nameCollision_user_name :
    NamesApart (placeOrder userNameCatalog) (.declared 0) ∧ userNameCatalog.StepsDistinct ∧
      (((placeOrder userNameCatalog).root (.declared 0)).run.run .empty).1 =
        .error (.model (.nameCollision "ShopPlaceOrderUserNameParams")) := by
  refine ⟨namesApart_of_begins (by decide +kernel) (by decide +kernel), by decide +kernel, ?_⟩
  decide +kernel

end Introspection

end SchemaRpc
