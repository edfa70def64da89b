import SchemaRpc.Entries
import SchemaRpc.TypeDef.Basic

/-!
# The definitions table

Named definitions of one application. A name may be reserved before its body exists, so that recursive types can
refer to it meanwhile; a body is stored once. An entry may belong to a declared type, its owner.
-/

namespace SchemaRpc

/-- The identity of a declared type. -/
abbrev TypeId := Nat

namespace Definitions

/-- One name: its body, once there is one, and its owner. -/
structure Entry where
  body : Option TypeDef
  owner : Option TypeId
  deriving Inhabited

end Definitions

/-- The table: entries in name order, and for each declared type the name last claimed for it. -/
structure Definitions where
  entries : Entries Definitions.Entry := []
  owners : List (TypeId × String) := []
  deriving Inhabited

namespace Definitions

def empty : Definitions := {}

def entry? (defs : Definitions) (name : String) : Option Entry :=
  defs.entries.find? name

def get? (defs : Definitions) (name : String) : Option TypeDef :=
  (defs.entry? name).bind Entry.body

def contains (defs : Definitions) (name : String) : Bool :=
  (defs.entry? name).isSome

/-- The name last claimed for a declared type. -/
def nameOf? (defs : Definitions) (owner : TypeId) : Option String :=
  defs.owners.lookup owner

def size (defs : Definitions) : Nat :=
  defs.entries.length

/-- Adds an entry under a new name and notes the name of its owner. -/
def add (defs : Definitions) (name : String) (entry : Entry) : Definitions where
  entries := defs.entries.insert name entry
  owners :=
    match entry.owner with
    | some owner => (owner, name) :: defs.owners
    | none => defs.owners

/-- Whether an entry belongs to the given owner; nothing belongs to nobody. -/
def Entry.belongsTo (entry : Entry) (owner : Option TypeId) : Bool :=
  owner.isSome && entry.owner == owner

/-- Claims a name before its body is known. Claiming it again for its owner changes nothing. -/
def reserve (defs : Definitions) (name : String) (owner : Option TypeId) : Except ModelError Definitions :=
  match defs.entry? name with
  | some entry => if entry.belongsTo owner then .ok defs else .error (.nameCollision name)
  | none => .ok (defs.add name ⟨none, owner⟩)

/-- Stores the body of a name. An owner fills its reservation once and may store again without effect; without
owner only an equal body may be stored again. -/
def insert (defs : Definitions) (name : String) (body : TypeDef) (owner : Option TypeId) :
    Except ModelError Definitions :=
  match defs.entry? name with
  | none => .ok (defs.add name ⟨some body, owner⟩)
  | some entry =>
    match entry.body with
    | none =>
      if entry.belongsTo owner then
        .ok { defs with entries := defs.entries.insert name ⟨some body, entry.owner⟩ }
      else .error (.nameCollision name)
    | some stored =>
      if entry.belongsTo owner then .ok defs
      else if owner.isNone && entry.owner.isNone && stored = body then .ok defs
      else .error (.nameCollision name)

/-- Follows references for at most `fuel` definitions. -/
def follow (defs : Definitions) (start : TypeDef) : Nat → TypeDef → Except ModelError TypeDef
  | 0, _ => .error (.unresolvedRef (start.refName?.getD ""))
  | fuel + 1, t =>
    match t.refName? with
    | none => .ok t
    | some name =>
      match defs.get? name with
      | some next => follow defs start fuel next
      | none => .error (.unresolvedRef name)

/-- The definition at the end of a chain of references. A chain that never ends is unresolved, like a chain that
breaks off. Nullability of the references on the way is left to the caller. -/
def resolve (defs : Definitions) (t : TypeDef) : Except ModelError TypeDef :=
  defs.follow t (defs.size + 1) t

/-- Definitions with a body, in name order. -/
def completed (defs : Definitions) : List (String × TypeDef) :=
  defs.entries.filterMap fun (name, entry) => entry.body.map (name, ·)

def insertName (name : String) : List String → List String
  | [] => [name]
  | head :: rest =>
    if name = head then head :: rest
    else if name < head then name :: head :: rest
    else head :: insertName name rest

/-- Names without a body that are reserved or referred to, ascending and each once. -/
def unresolvedRefs (defs : Definitions) : List String :=
  let reserved := (defs.entries.filter fun (_, entry) => entry.body.isNone).map Prod.fst
  let referred := (defs.completed.flatMap fun (_, body) => body.refs).filter fun name => !defs.contains name
  (reserved ++ referred).foldl (fun names name => insertName name names) []

end Definitions

end SchemaRpc
