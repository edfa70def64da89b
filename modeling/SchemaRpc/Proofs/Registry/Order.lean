import SchemaRpc.Proofs.App.Routes
import SchemaRpc.Proofs.Introspection.Replay
import SchemaRpc.Proofs.Query.Compatible
import SchemaRpc.Proofs.Registry.Closed

/-!
# The order of registrations

Procedures and definitions whose types all have names can be registered in any order. Every call is answered as the table
in the end says (`Registry.answerIn`), and the table in the end is the same, however different the walks are by which it
comes about: each order replays the table of the other.
-/

namespace SchemaRpc

open Catalog Introspection

variable {n : Nat} {catalog : Catalog n}

theorem find?_congr_of_mem {α : Type} {p q : α → Bool} {items : List α} (same : ∀ x ∈ items, p x = q x) :
    items.find? p = items.find? q := by
  induction items with
  | nil =>
      rfl
  | cons head tail inductionHypothesis =>
      obtain ⟨here, there⟩ := List.forall_mem_cons.1 same
      rw [List.find?_cons, List.find?_cons, here, inductionHypothesis there]

/-! ## Finished tables inside one another -/

/-- What is named and stored in the one table is so in the other. -/
structure Definitions.Kept (defs defs' : Definitions) : Prop where
  names : NamesKept defs defs'
  bodies : ∀ name body, defs.get? name = some body → defs'.get? name = some body

namespace Definitions.Kept

variable {defs between defs' : Definitions} {t : TypeDef}

theorem refl : Kept defs defs :=
  ⟨fun _ _ named => named, fun _ _ found => found⟩

theorem trans (first : Kept defs between) (second : Kept between defs') : Kept defs defs' where
  names id name named := second.names id name (first.names id name named)
  bodies name body found := second.bodies name body (first.bodies name body found)

theorem leadsTo (kept : Kept defs defs') {count : Nat} {target : TypeDef} (leads : LeadsTo defs count t target) :
    LeadsTo defs' count t target := by
  induction leads with
  | here final =>
      exact .here final
  | step isRef found _ inductionHypothesis =>
      exact .step isRef (kept.bodies _ _ found) inductionHypothesis

theorem resolve_eq (kept : Kept defs defs') (grounded : t.form.Grounded defs) : defs'.resolve t = defs.resolve t := by
  obtain ⟨target, resolved⟩ := exists_resolve grounded
  obtain ⟨count, leads⟩ := resolve_eq_ok_iff.1 resolved
  rw [resolved]
  exact resolve_eq_ok_iff.2 ⟨count, kept.leadsTo leads⟩

section Query

variable (kept : Kept defs defs') (table : defs.Everywhere (Form.Grounded defs))

include kept table

theorem isQueryParameter_eq (grounded : t.Everywhere (Form.Grounded defs)) :
    defs'.isQueryParameter t = defs.isQueryParameter t := by
  obtain ⟨target, resolved⟩ := exists_resolve grounded.here
  have everywhere : target.Everywhere (Form.Grounded defs) :=
    resolve_induct resolved grounded fun _ _ found => table.get? found
  unfold isQueryParameter
  rw [kept.resolve_eq grounded.here, resolved]
  obtain ⟨form, nullable, metadata⟩ := target
  cases form with
  | elements item =>
      dsimp only [leadsToScalar]
      rw [kept.resolve_eq (everywhere.elements rfl).here]
  | any | primitive | enumeration | values | object | ref | union =>
      rfl

/-- Where no reference is open, more definitions change nothing about what a query can carry. -/
theorem queryFault?_eq (grounded : t.Everywhere (Form.Grounded defs)) : defs'.queryFault? t = defs.queryFault? t := by
  obtain ⟨target, resolved⟩ := exists_resolve grounded.here
  have everywhere : target.Everywhere (Form.Grounded defs) :=
    resolve_induct resolved grounded fun _ _ found => table.get? found
  have resolved' : defs'.resolve t = .ok target := (kept.resolve_eq grounded.here).trans resolved
  by_cases record : ∃ properties, target.form = .object properties
  · obtain ⟨properties, form⟩ := record
    rw [queryFault?_of_object resolved form, queryFault?_of_object resolved' form]
    refine congrArg _ (find?_congr_of_mem fun p declared => ?_)
    rw [kept.isQueryParameter_eq table (everywhere.object form p declared)]
  · have other : ∀ target' properties, target' = target → target'.form ≠ .object properties := by
      rintro target' properties rfl form
      exact record ⟨properties, form⟩
    rw [queryFault?_of_not_object fun target' properties reached =>
        other target' properties (Except.ok.inj (reached.symm.trans resolved)),
      queryFault?_of_not_object fun target' properties reached =>
        other target' properties (Except.ok.inj (reached.symm.trans resolved'))]

end Query

end Definitions.Kept

namespace Introspection

variable {defs defs' final : Definitions}

theorem DescribesBody.isBody {slot : Fin n} {name : String} {body : TypeDef}
    (describes : DescribesBody catalog defs slot name body) : body.IsBody := by
  refine ⟨describes.nullable, ?_⟩
  have members := describes.members
  generalize (catalog.get slot).members = declared at members
  generalize body.form = form at members
  cases members with
  | record _ => exact .inl ⟨_, rfl⟩
  | union _ => exact .inr ⟨_, _, rfl⟩

theorem Coherent.sound (coherent : Coherent catalog defs) : defs.Sound where
  ascending := coherent.ascending
  owned name entry found := by
    obtain ⟨slot, _, owned, named⟩ := coherent.owned name entry found
    exact ⟨_, owned, named⟩
  named := coherent.named
  bodies name body found := by
    obtain ⟨entry, present, stored⟩ := Option.bind_eq_some_iff.1 found
    obtain ⟨slot, _, owned, _⟩ := coherent.owned name entry present
    obtain ⟨_, _⟩ := entry
    cases stored
    cases owned
    exact (coherent.described name slot body present).isBody

theorem Complete.unresolvedRefs_eq_nil (complete : Complete catalog defs) : defs.unresolvedRefs = [] :=
  Introspection.unresolvedRefs_eq_nil complete.coherent complete.finished

theorem Grows.kept {reached : Fin n → Prop} (grows : Grows catalog reached defs defs') : defs.Kept defs' where
  names := grows.names
  bodies name body found := by
    obtain ⟨entry, present, stored⟩ := Option.bind_eq_some_iff.1 found
    exact Option.bind_eq_some_iff.2 ⟨entry, grows.entries name entry present, stored⟩

theorem Part.kept (part : Part final defs) : defs.Kept final where
  names := part.names
  bodies name body found := by
    obtain ⟨entry, present, stored⟩ := Option.bind_eq_some_iff.1 found
    obtain ⟨body', presentFinal, same⟩ := part.entries name entry present
    cases same body stored
    exact Option.bind_eq_some_iff.2 ⟨_, presentFinal, rfl⟩

/-- Finished tables that are parts of each other have the same entries. -/
theorem entries_eq_of_parts (complete : Complete catalog defs) (complete' : Complete catalog defs')
    (part : Part defs defs') (part' : Part defs' defs) : defs.entries = defs'.entries := by
  have sub {small big : Definitions} (finished : Finished small) (part : Part big small) (name : String)
      (entry : Definitions.Entry) (found : small.entry? name = some entry) : big.entry? name = some entry := by
    obtain ⟨body, foundBig, same⟩ := part.entries name entry found
    obtain ⟨stored, isStored⟩ := Option.ne_none_iff_exists'.1 (finished name entry found)
    obtain ⟨_, owner⟩ := entry
    cases isStored
    cases same stored rfl
    exact foundBig
  refine Entries.ext complete.coherent.ascending complete'.coherent.ascending fun name => Option.ext fun entry => ?_
  exact ⟨sub complete.finished part' name entry, sub complete'.finished part name entry⟩

end Introspection

theorem Entries.eq_of_perm {α : Type} {entries others : Entries α} (ascending : Ascending entries)
    (ascending' : Ascending others) (perm : entries.Perm others) : entries = others := by
  refine ext ascending ascending' fun key => Option.ext fun value => ⟨fun found => ?_, fun found => ?_⟩
  · exact find?_of_mem ascending' (perm.mem_iff.1 (mem_of_find? found))
  · exact find?_of_mem ascending (perm.mem_iff.2 (mem_of_find? found))

namespace Registry

/-! ## Calls and their answers -/

/-- What a registry is asked for, over one catalog. -/
inductive Asked (n : Nat) where
  | register (p : Procedure) (params response : Shape n)
  | define (shape : Shape n)

inductive Answer where
  | procedure (p : Procedure)
  | definition (name : String)

def answer (catalog : Catalog n) (r : Registry) : Asked n → Except RegistrationError Answer × Registry
  | .register p params response =>
      let (result, r) := r.register catalog p params response
      (result.map .procedure, r)
  | .define shape =>
      let (result, r) := r.define catalog shape
      (result.map .definition, r)

/-- Calls one after the other, up to the first that is refused. -/
def answers (catalog : Catalog n) (r : Registry) : List (Asked n) → Except RegistrationError (List Answer × Registry)
  | [] => .ok ([], r)
  | asked :: rest =>
    match r.answer catalog asked with
    | (.ok first, r) => (answers catalog r rest).map fun (later, r) => (first :: later, r)
    | (.error error, _) => .error error

/-- The name that a shape has in a table. -/
def rootName? (catalog : Catalog n) (defs : Definitions) : Shape n → Option String
  | .declared slot => defs.nameOf? (catalog.id slot)
  | _ => none

/-- What a call is answered when its names are those of a table. -/
def answerIn (catalog : Catalog n) (defs : Definitions) : Asked n → Answer
  | .register p params response =>
      .procedure { p with params := rootName? catalog defs params, response := rootName? catalog defs response }
  | .define shape => .definition ((rootName? catalog defs shape).getD "")

namespace Asked

def shapes : Asked n → List (Shape n)
  | register _ params response => [params, response]
  | define shape => [shape]

/-- All records and unions that a call leads to have names of their own. -/
def Named (catalog : Catalog n) (asked : Asked n) : Prop :=
  ∀ shape ∈ asked.shapes, ∀ slot, Reaches catalog shape slot → catalog.IsEntered slot →
    (catalog.get slot).info.name ≠ none

/-- A call that does not ask for a procedure with the name or the path of the given one. -/
def Free (entry : String × Procedure) : Asked n → Prop
  | register p _ _ => entry.1 ≠ p.name ∧ entry.2.path ≠ p.path
  | define _ => True

def Apart : Asked n → Asked n → Prop
  | register p _ _, register q _ _ => p.name ≠ q.name ∧ p.path ≠ q.path
  | _, _ => True

theorem Apart.symm {asked other : Asked n} (apart : Apart asked other) : Apart other asked := by
  cases asked <;> cases other <;> first | exact ⟨apart.1.symm, apart.2.symm⟩ | trivial

end Asked

/-- The entry that an answer adds to the procedures. -/
def Answer.filed? : Answer → Option (String × Procedure)
  | procedure p => some (p.name, p)
  | definition _ => none

variable {r r' : Registry} {asked : Asked n} {given : Answer} {final : Definitions}

theorem conflict?_eq_none_iff {p : Procedure} :
    r.conflict? p = none ↔ ∀ entry ∈ r.procedures, entry.1 ≠ p.name ∧ entry.2.path ≠ p.path := by
  constructor
  · intro free entry listed
    obtain ⟨newName, newPath⟩ := fresh_of_conflict? free
    rw [Entries.find?_eq_lookup, List.lookup_eq_none_iff] at newName
    exact ⟨fun same => bne_iff_ne.1 (newName entry listed) same.symm, newPath entry listed⟩
  · intro free
    have newName : r.procedures.contains p.name = false := by
      rw [Entries.contains, Entries.find?_eq_lookup, Option.isSome_eq_false_iff, Option.isNone_iff_eq_none,
        List.lookup_eq_none_iff]
      exact fun entry listed => bne_iff_ne.2 (free entry listed).1.symm
    unfold conflict?
    rw [newName, if_neg Bool.false_ne_true, Option.map_eq_none_iff, List.find?_eq_none]
    exact fun entry listed same => (free entry listed).2 (beq_iff_eq.1 same)

theorem runs_introspect_iff {p made : Procedure} {params response : Shape n} {defs defs' : Definitions} :
    Runs (introspect catalog p params response) defs made defs' ↔
      ∃ a between b, Runs (root ⟨catalog, p.name, .params⟩ params) defs a between ∧
        Runs (root ⟨catalog, p.name, .response⟩ response) between b defs' ∧
        made = { p with params := a, response := b } ∧ queryConflict? defs' made = none := by
  constructor
  · intro ran
    obtain ⟨a, between, ranParams, rest⟩ := runs_bind.1 ran
    obtain ⟨b, after, ranResponse, rest⟩ := runs_bind.1 rest
    obtain ⟨held, _, ranGet, rest⟩ := runs_bind.1 rest
    obtain ⟨rfl, rfl⟩ := runs_get.1 ranGet
    split at rest
    · exact absurd rest not_runs_throw
    · next noConflict =>
      obtain ⟨rfl, rfl⟩ := runs_pure.1 rest
      exact ⟨a, between, b, ranParams, ranResponse, rfl, noConflict⟩
  · rintro ⟨a, between, b, ranParams, ranResponse, rfl, noConflict⟩
    refine runs_bind.2 ⟨a, between, ranParams, runs_bind.2 ⟨b, defs', ranResponse, ?_⟩⟩
    refine runs_bind.2 ⟨defs', defs', runs_get.2 ⟨rfl, rfl⟩, ?_⟩
    rw [noConflict]
    exact runs_pure.2 ⟨rfl, rfl⟩

/-- A call that succeeds, its answer and the registry after it. -/
inductive Answered (catalog : Catalog n) (r : Registry) : Asked n → Answer → Registry → Prop
  | registered {p : Procedure} {params response : Shape n} {a b : Option String} {between defs : Definitions} :
      r.conflict? p = none →
      Runs (root ⟨catalog, p.name, .params⟩ params) r.definitions a between →
      Runs (root ⟨catalog, p.name, .response⟩ response) between b defs →
      queryConflict? defs { p with params := a, response := b } = none →
      Answered catalog r (.register p params response) (.procedure { p with params := a, response := b })
        ⟨defs, r.procedures.insert p.name { p with params := a, response := b }⟩
  | defined {shape : Shape n} {name : String} {a : Option String} {defs : Definitions} :
      definitionName catalog shape = .ok name →
      Runs (root ⟨catalog, name, .definition⟩ shape) r.definitions a defs →
      Answered catalog r (.define shape) (.definition (a.getD name)) ⟨defs, r.procedures⟩

theorem answered_of_answer (succeeded : r.answer catalog asked = (.ok given, r')) :
    Answered catalog r asked given r' := by
  cases asked with
  | register p params response =>
      unfold answer register at succeeded
      dsimp only at succeeded
      cases conflict : r.conflict? p with
      | some error =>
          rw [conflict] at succeeded
          cases succeeded
      | none =>
          rw [conflict] at succeeded
          dsimp only at succeeded
          rcases ran : (introspect catalog p params response).run.run r.definitions with ⟨error | made, defs⟩
          all_goals
            rw [ran] at succeeded
            cases succeeded
          obtain ⟨a, between, b, ranParams, ranResponse, rfl, noConflict⟩ := runs_introspect_iff.1 ran
          exact .registered conflict ranParams ranResponse noConflict
  | define shape =>
      unfold answer define at succeeded
      dsimp only at succeeded
      cases fitting : definitionName catalog shape with
      | error error =>
          rw [fitting] at succeeded
          cases succeeded
      | ok name =>
          rw [fitting] at succeeded
          dsimp only at succeeded
          rcases ran : (root ⟨catalog, name, .definition⟩ shape).run.run r.definitions with ⟨error | result, defs⟩
          all_goals
            rw [ran] at succeeded
            cases succeeded
          exact .defined fitting ran

theorem Answered.answer_eq (answered : Answered catalog r asked given r') :
    r.answer catalog asked = (.ok given, r') := by
  cases answered with
  | registered conflict ranParams ranResponse noConflict =>
      have ran := runs_introspect_iff.2 ⟨_, _, _, ranParams, ranResponse, rfl, noConflict⟩
      unfold answer register
      dsimp only
      rw [conflict]
      dsimp only
      rw [ran]
      rfl
  | defined fitting ran =>
      unfold answer define
      dsimp only
      rw [fitting]
      dsimp only
      rw [ran]
      rfl

theorem answers_cons_eq_ok_iff {rest : List (Asked n)} {all : List Answer} :
    answers catalog r (asked :: rest) = .ok (all, r') ↔
      ∃ first between later, r.answer catalog asked = (.ok first, between) ∧
        answers catalog between rest = .ok (later, r') ∧ all = first :: later := by
  rw [answers]
  rcases answered : r.answer catalog asked with ⟨error | first, between⟩
  · simp
  · dsimp only
    cases ranRest : answers catalog between rest with
    | error error =>
        simp [ranRest, Except.map]
    | ok result =>
        obtain ⟨later, after⟩ := result
        simp [ranRest, Except.map, eq_comm, and_comm]

/-! ## What a table says about calls -/

/-- A call to which a table has the answer. -/
inductive Fits (catalog : Catalog n) (defs : Definitions) : Asked n → Answer → Prop
  | register {p : Procedure} {params response : Shape n} {a b : Option String} :
      Rooted catalog defs params a →
      Rooted catalog defs response b →
      queryConflict? defs { p with params := a, response := b } = none →
      Fits catalog defs (.register p params response) (.procedure { p with params := a, response := b })
  | define {shape : Shape n} {given name : String} :
      definitionName catalog shape = .ok given →
      Rooted catalog defs shape (some name) →
      Fits catalog defs (.define shape) (.definition name)

variable {defs defs' : Definitions}

theorem rootName?_of_rooted {shape : Shape n} {result : Option String} (rooted : Rooted catalog defs shape result) :
    rootName? catalog defs shape = result := by
  cases rooted with
  | unit => rfl
  | entered _ named => exact named

theorem Fits.eq_answerIn (fits : Fits catalog defs asked given) : given = answerIn catalog defs asked := by
  cases fits with
  | register params response _ =>
      rw [answerIn, rootName?_of_rooted params, rootName?_of_rooted response]
  | define _ rooted =>
      rw [answerIn, rootName?_of_rooted rooted]
      rfl

theorem contains_of_rooted (complete : Complete catalog defs) {shape : Shape n} {name : String}
    (rooted : Rooted catalog defs shape (some name)) : defs.contains name = true := by
  cases rooted with
  | entered _ named =>
      obtain ⟨body, found, -⟩ := complete.entry named
      exact Option.isSome_iff_exists.2 ⟨_, found⟩

/-- The check of a GET procedure comes out the same once its params are in a complete table. -/
theorem queryConflict?_eq (complete : Complete catalog defs) (kept : defs.Kept defs') {p : Procedure}
    (present : ∀ name, p.params = some name → defs.contains name = true) :
    queryConflict? defs' p = queryConflict? defs p := by
  have sound := complete.coherent.sound
  unfold queryConflict?
  split
  · next name _ named =>
    have hasBody := sound.hasBody complete.unresolvedRefs_eq_nil (present name named)
    rw [kept.queryFault?_eq (sound.everywhere_grounded complete.unresolvedRefs_eq_nil) hasBody.everywhere_grounded]
  · rfl

theorem Fits.mono (fits : Fits catalog defs asked given) (complete : Complete catalog defs) (kept : defs.Kept defs') :
    Fits catalog defs' asked given := by
  cases fits with
  | register params response noConflict =>
      refine .register (params.mono kept.names) (response.mono kept.names) ?_
      rw [queryConflict?_eq complete kept]
      · exact noConflict
      · rintro name rfl
        exact contains_of_rooted complete params
  | define fitting rooted =>
      exact .define fitting (rooted.mono kept.names)

/-- The answer to a call that succeeds is that of the table after it. -/
theorem Answered.fits (types : catalog.OneTypeEach) (answered : Answered catalog r asked given r')
    (named : asked.Named catalog) (complete : Complete catalog r.definitions) :
    Complete catalog r'.definitions ∧ r.definitions.Kept r'.definitions ∧ Fits catalog r'.definitions asked given := by
  cases answered with
  | @registered p params response a b between defs _ ranParams ranResponse noConflict =>
      obtain ⟨namedParams, namedResponse⟩ := List.forall_mem_cons.1 named
      have between := complete.root (w := ⟨catalog, p.name, .params⟩) types namedParams ranParams
      have after := between.root (w := ⟨catalog, p.name, .response⟩) types
        (List.forall_mem_singleton.1 namedResponse) ranResponse
      have stepParams := (runs_root (w := ⟨catalog, p.name, .params⟩) types complete.coherent ranParams).1
      have stepResponse := (runs_root (w := ⟨catalog, p.name, .response⟩) types between.coherent ranResponse).1
      have rootedParams := rooted_of_runs (w := ⟨catalog, p.name, .params⟩) types complete.coherent ranParams
      have rootedResponse := rooted_of_runs (w := ⟨catalog, p.name, .response⟩) types between.coherent ranResponse
      refine ⟨after, stepParams.grows.kept.trans stepResponse.grows.kept, ?_⟩
      exact .register (rootedParams.mono stepResponse.grows.names) rootedResponse noConflict
  | @defined shape name a defs fitting ran =>
      have namedShape := List.forall_mem_singleton.1 named
      have step := (runs_root (w := ⟨catalog, name, .definition⟩) types complete.coherent ran).1
      have rooted := rooted_of_runs (w := ⟨catalog, name, .definition⟩) types complete.coherent ran
      refine ⟨complete.root (w := ⟨catalog, name, .definition⟩) types namedShape ran, step.grows.kept, ?_⟩
      cases rooted with
      | unit => nomatch fitting
      | entered isEntered known => exact .define fitting (.entered isEntered known)

/-- A call to which a complete table has the answer succeeds with that answer on every part of the table. -/
theorem Fits.answered (types : catalog.OneTypeEach) (completeFinal : Complete catalog final)
    (fits : Fits catalog final asked given) (named : asked.Named catalog) (complete : Complete catalog r.definitions)
    (part : Part final r.definitions) (free : ∀ entry ∈ r.procedures, asked.Free entry) :
    ∃ r', Answered catalog r asked given r' ∧ Complete catalog r'.definitions ∧ Part final r'.definitions := by
  cases fits with
  | @register p params response a b rootedParams rootedResponse noConflict =>
      obtain ⟨namedParams, namedResponse⟩ := List.forall_mem_cons.1 named
      obtain ⟨between, ranParams, partBetween⟩ := yields_root (w := ⟨catalog, p.name, .params⟩) completeFinal
        rootedParams part complete.coherent.tracked
      have completeBetween := complete.root (w := ⟨catalog, p.name, .params⟩) types namedParams ranParams
      obtain ⟨after, ranResponse, partAfter⟩ := yields_root (w := ⟨catalog, p.name, .response⟩) completeFinal
        rootedResponse partBetween completeBetween.coherent.tracked
      have completeAfter := completeBetween.root (w := ⟨catalog, p.name, .response⟩) types
        (List.forall_mem_singleton.1 namedResponse) ranResponse
      have rootedBetween := rooted_of_runs (w := ⟨catalog, p.name, .params⟩) types complete.coherent ranParams
      have step := (runs_root (w := ⟨catalog, p.name, .response⟩) types completeBetween.coherent ranResponse).1
      refine ⟨_, .registered (conflict?_eq_none_iff.2 free) ranParams ranResponse ?_, completeAfter, partAfter⟩
      rw [← queryConflict?_eq completeAfter partAfter.kept]
      · exact noConflict
      · rintro name rfl
        exact contains_of_rooted completeAfter (rootedBetween.mono step.grows.names)
  | @define shape given name fitting rooted =>
      obtain ⟨after, ran, partAfter⟩ := yields_root (w := ⟨catalog, given, .definition⟩) completeFinal rooted part
        complete.coherent.tracked
      have completeAfter := complete.root (w := ⟨catalog, given, .definition⟩) types
        (List.forall_mem_singleton.1 named) ran
      exact ⟨_, .defined fitting ran, completeAfter, partAfter⟩

theorem Answered.free (answered : Answered catalog r asked given r') : ∀ entry ∈ r.procedures, asked.Free entry := by
  cases answered with
  | registered conflict _ _ _ => exact conflict?_eq_none_iff.1 conflict
  | defined _ _ => exact fun _ _ => trivial

theorem Answered.procedures (answered : Answered catalog r asked given r') :
    r'.procedures.Perm (given.filed?.toList ++ r.procedures) := by
  cases answered with
  | registered conflict _ _ _ => exact Entries.perm_insert (fresh_of_conflict? conflict).1 _
  | defined _ _ => exact .refl _

theorem Answered.ascending (answered : Answered catalog r asked given r') (ascending : Entries.Ascending r.procedures) :
    Entries.Ascending r'.procedures := by
  cases answered with
  | registered _ _ _ _ => exact Entries.ascending_insert _ _ ascending
  | defined _ _ => exact ascending

/-! ## All calls -/

/-- What calls that all succeed say about the registry after them, and about one another. -/
structure Succeeded (catalog : Catalog n) (r : Registry) (calls : List (Asked n)) (r' : Registry) : Prop where
  complete : Complete catalog r'.definitions
  kept : r.definitions.Kept r'.definitions
  fits : ∀ asked ∈ calls, Fits catalog r'.definitions asked (answerIn catalog r'.definitions asked)
  apart : calls.Pairwise Asked.Apart
  free : ∀ asked ∈ calls, ∀ entry ∈ r.procedures, asked.Free entry

theorem Asked.apart_of_free {other : Asked n} {entry : String × Procedure} (filed : given.filed? = some entry)
    (answered : Answered catalog r asked given r') (free : other.Free entry) : asked.Apart other := by
  cases answered with
  | registered _ _ _ _ =>
      cases filed
      cases other with
      | register q _ _ => exact free
      | define _ => trivial
  | defined _ _ => cases filed

theorem succeeded_of_answers (types : catalog.OneTypeEach) {calls : List (Asked n)}
    (named : ∀ asked ∈ calls, asked.Named catalog) (complete : Complete catalog r.definitions) {all : List Answer}
    (ran : answers catalog r calls = .ok (all, r')) : Succeeded catalog r calls r' := by
  induction calls generalizing r all with
  | nil =>
      cases ran
      exact ⟨complete, .refl, List.forall_mem_nil _, .nil, List.forall_mem_nil _⟩
  | cons asked rest inductionHypothesis =>
      obtain ⟨namedHere, namedRest⟩ := List.forall_mem_cons.1 named
      obtain ⟨first, between, later, ranFirst, ranRest, -⟩ := answers_cons_eq_ok_iff.1 ran
      have answered := answered_of_answer ranFirst
      obtain ⟨completeBetween, kept, fits⟩ := answered.fits types namedHere complete
      have succeeded := inductionHypothesis namedRest completeBetween ranRest
      have fitsAfter := fits.mono completeBetween succeeded.kept
      constructor
      case complete => exact succeeded.complete
      case kept => exact kept.trans succeeded.kept
      case fits => exact List.forall_mem_cons.2 ⟨fitsAfter.eq_answerIn ▸ fitsAfter, succeeded.fits⟩
      case apart =>
        refine List.pairwise_cons.2 ⟨fun other listed => ?_, succeeded.apart⟩
        cases filed : first.filed? with
        | none =>
            cases answered with
            | registered _ _ _ _ => cases filed
            | defined _ _ => exact trivial
        | some entry =>
            refine Asked.apart_of_free filed answered (succeeded.free other listed entry ?_)
            rw [answered.procedures.mem_iff, filed]
            exact List.mem_cons_self
      case free =>
        refine List.forall_mem_cons.2 ⟨answered.free, fun other listed entry member => ?_⟩
        refine succeeded.free other listed entry ?_
        rw [answered.procedures.mem_iff]
        exact List.mem_append_right _ member

/-- A registry after calls that were answered as a table says. -/
structure Underway (catalog : Catalog n) (final : Definitions) (done : List (Asked n)) (r : Registry) : Prop where
  complete : Complete catalog r.definitions
  part : Part final r.definitions
  ascending : Entries.Ascending r.procedures
  filed : r.procedures.Perm (done.filterMap fun asked => (answerIn catalog final asked).filed?)

theorem underway_empty : Underway catalog final [] {} where
  complete := complete_empty
  part := .empty
  ascending := .nil
  filed := .refl _

theorem Underway.free {done : List (Asked n)} (underway : Underway catalog final done r)
    (apart : ∀ other ∈ done, asked.Apart other) : ∀ entry ∈ r.procedures, asked.Free entry := by
  intro entry listed
  obtain ⟨other, member, filed⟩ := List.mem_filterMap.1 (underway.filed.mem_iff.1 listed)
  have apartHere := apart other member
  cases other with
  | register q _ _ =>
      cases filed
      cases asked with
      | register p _ _ => exact ⟨apartHere.1.symm, apartHere.2.symm⟩
      | define _ => trivial
  | define _ => cases filed

/-- Calls that a table answers, in any order, are answered so, and the registry comes to a part of the table. -/
theorem answers_of_fits (types : catalog.OneTypeEach) (completeFinal : Complete catalog final)
    {calls done : List (Asked n)} (named : ∀ asked ∈ calls, asked.Named catalog)
    (fits : ∀ asked ∈ calls, Fits catalog final asked (answerIn catalog final asked))
    (apart : (calls ++ done).Pairwise Asked.Apart) (underway : Underway catalog final done r) :
    ∃ r', answers catalog r calls = .ok (calls.map (answerIn catalog final), r') ∧
      Underway catalog final (calls ++ done) r' := by
  induction calls generalizing r done with
  | nil =>
      exact ⟨r, rfl, underway⟩
  | cons asked rest inductionHypothesis =>
      obtain ⟨namedHere, namedRest⟩ := List.forall_mem_cons.1 named
      obtain ⟨fitsHere, fitsRest⟩ := List.forall_mem_cons.1 fits
      obtain ⟨apartHere, apartRest⟩ := List.pairwise_cons.1 apart
      have free := underway.free fun other listed => apartHere other (List.mem_append_right _ listed)
      obtain ⟨between, answered, completeBetween, partBetween⟩ :=
        fitsHere.answered types completeFinal namedHere underway.complete underway.part free
      have next : Underway catalog final (asked :: done) between := by
        refine ⟨completeBetween, partBetween, answered.ascending underway.ascending, ?_⟩
        refine answered.procedures.trans ((underway.filed.append_left _).trans ?_)
        rw [List.filterMap_cons]
        cases (answerIn catalog final asked).filed? <;> exact .refl _
      have moved : (rest ++ asked :: done).Perm (asked :: (rest ++ done)) := List.perm_middle
      have apartNext : (rest ++ asked :: done).Pairwise Asked.Apart :=
        (moved.pairwise_iff fun apart => Asked.Apart.symm apart).2 apart
      obtain ⟨r', ran, underwayAfter⟩ := inductionHypothesis namedRest fitsRest apartNext next
      refine ⟨r', answers_cons_eq_ok_iff.2 ⟨_, between, _, answered.answer_eq, ran, rfl⟩, ?_⟩
      exact ⟨underwayAfter.complete, underwayAfter.part, underwayAfter.ascending,
        underwayAfter.filed.trans (moved.filterMap _)⟩

/-- Calls whose records and unions all have names succeed in every order if they do in one. Each is answered in the names
of the table that the one order ends with, and every order ends with the same entries and the same procedures, so with
the same schema. -/
theorem answers_perm (types : catalog.OneTypeEach) {calls calls' : List (Asked n)}
    (named : ∀ asked ∈ calls, asked.Named catalog) {all : List Answer}
    (ran : answers catalog {} calls = .ok (all, r)) (perm : calls'.Perm calls) :
    all = calls.map (answerIn catalog r.definitions) ∧
      ∃ r', answers catalog {} calls' = .ok (calls'.map (answerIn catalog r.definitions), r') ∧
        r'.definitions.entries = r.definitions.entries ∧ r'.procedures = r.procedures ∧
        ∀ info routePrefix casing, r'.toSchema info routePrefix casing = r.toSchema info routePrefix casing := by
  have named' : ∀ asked ∈ calls', asked.Named catalog := fun asked listed => named asked (perm.mem_iff.1 listed)
  have succeeded := succeeded_of_answers types named complete_empty ran
  have apart' : calls'.Pairwise Asked.Apart :=
    (perm.pairwise_iff fun apart => Asked.Apart.symm apart).2 succeeded.apart
  -- both orders replay the table that the first one has made
  obtain ⟨again, ranAgain, underway⟩ := answers_of_fits types succeeded.complete named succeeded.fits
    (by rw [List.append_nil]; exact succeeded.apart) underway_empty
  obtain ⟨rfl, rfl⟩ : all = calls.map (answerIn catalog r.definitions) ∧ r = again :=
    Prod.mk.inj (Except.ok.inj (ran.symm.trans ranAgain))
  obtain ⟨r', ran', underway'⟩ := answers_of_fits types succeeded.complete named'
    (fun asked listed => succeeded.fits asked (perm.mem_iff.1 listed)) (by rw [List.append_nil]; exact apart')
    underway_empty
  refine ⟨rfl, r', ran', ?_⟩
  -- and the first order replays the table of the second
  have succeeded' := succeeded_of_answers types named' complete_empty ran'
  obtain ⟨back, ranBack, underwayBack⟩ := answers_of_fits types succeeded'.complete named
    (fun asked listed => succeeded'.fits asked (perm.mem_iff.2 listed))
    (by rw [List.append_nil]; exact succeeded.apart) underway_empty
  obtain rfl : r = back := (Prod.mk.inj (Except.ok.inj (ran.symm.trans ranBack))).2
  have entries : r'.definitions.entries = r.definitions.entries :=
    entries_eq_of_parts succeeded'.complete succeeded.complete underwayBack.part underway'.part
  have procedures : r'.procedures = r.procedures := by
    have filed := underway.filed
    have filed' := underway'.filed
    rw [List.append_nil] at filed filed'
    exact Entries.eq_of_perm underway'.ascending underway.ascending
      (filed'.trans ((perm.filterMap _).trans filed.symm))
  refine ⟨entries, procedures, fun info routePrefix casing => ?_⟩
  unfold toSchema Definitions.completed
  rw [entries, procedures]

/-- Two records that lead to each other, and one that can be read from a query. -/
def fileCatalog : Catalog 3 :=
  #v[⟨{ id := 3, name := some "Folder" }, .record [{ name := "files", type := .array (.declared 1) }]⟩,
    ⟨{ id := 5, name := some "File" }, .record [{ name := "parent", type := .optional (.declared 0) }]⟩,
    ⟨{ id := 8, name := some "Filter" }, .record [{ name := "limit", type := .primitive .uint8 }]⟩]

def fileCalls : List (Asked 3) :=
  [.define (.declared 1),
    .register { name := "folders.list", method := .get, path := "/folders/list" } (.declared 2) (.declared 0),
    .register { name := "files.move", path := "/files/move" } (.declared 1) .unit]

/-- The last call first: the file is entered on its own way then, and the folder from it. -/
theorem answers_perm_files :
    ∃ all r r', answers fileCatalog {} fileCalls = .ok (all, r) ∧
      answers fileCatalog {} fileCalls.reverse = .ok (all.reverse, r') ∧
      (r.procedures.map Prod.fst, r.definitions.entries.map Prod.fst) =
        (["files.move", "folders.list"], ["File", "Filter", "Folder"]) ∧
      ∀ info routePrefix casing, r'.toSchema info routePrefix casing = r.toSchema info routePrefix casing := by
  have named : ∀ asked ∈ fileCalls, asked.Named fileCatalog :=
    fun _ _ _ _ slot _ _ => (by decide : ∀ slot, (fileCatalog.get slot).info.name ≠ none) slot
  obtain ⟨all, r, ran, names⟩ : ∃ all r, answers fileCatalog {} fileCalls = .ok (all, r) ∧
      (r.procedures.map Prod.fst, r.definitions.entries.map Prod.fst) =
        (["files.move", "folders.list"], ["File", "Filter", "Folder"]) := ⟨_, _, rfl, rfl⟩
  obtain ⟨given, r', ran', -, -, same⟩ := answers_perm (by decide) named ran fileCalls.reverse_perm
  refine ⟨all, r, r', ran, ?_, names, same⟩
  rw [ran', given, List.map_reverse]

end Registry

end SchemaRpc
