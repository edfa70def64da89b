import SchemaRpc.Text.Quoted

/-!
# Type definitions

A type definition is one form, a flag that says whether null is allowed, and descriptive metadata. Records are
referred to by name, so that a definition never contains itself. The constructors `enumeration`, `objectOf` and
`unionOf` check what a definition promises: listed values, property names and tags are unique, and no variant
declares a property named like the discriminator.
-/

namespace SchemaRpc

inductive PrimitiveKind where
  | string
  | boolean
  | timestamp
  | float32
  | float64
  | int8
  | uint8
  | int16
  | uint16
  | int32
  | uint32
  | int64
  | uint64
  deriving DecidableEq, Inhabited

namespace PrimitiveKind

def all : List PrimitiveKind :=
  [string, boolean, timestamp, float32, float64, int8, uint8, int16, uint16, int32, uint32, int64, uint64]

def label : PrimitiveKind → String
  | string => "string"
  | boolean => "boolean"
  | timestamp => "timestamp"
  | float32 => "float32"
  | float64 => "float64"
  | int8 => "int8"
  | uint8 => "uint8"
  | int16 => "int16"
  | uint16 => "uint16"
  | int32 => "int32"
  | uint32 => "uint32"
  | int64 => "int64"
  | uint64 => "uint64"

def ofLabel? (s : String) : Option PrimitiveKind :=
  all.find? fun kind => kind.label == s

def intRange? : PrimitiveKind → Option (Int × Int)
  | int8 => some (-2 ^ 7, 2 ^ 7 - 1)
  | uint8 => some (0, 2 ^ 8 - 1)
  | int16 => some (-2 ^ 15, 2 ^ 15 - 1)
  | uint16 => some (0, 2 ^ 16 - 1)
  | int32 => some (-2 ^ 31, 2 ^ 31 - 1)
  | uint32 => some (0, 2 ^ 32 - 1)
  | int64 => some (-2 ^ 63, 2 ^ 63 - 1)
  | uint64 => some (0, 2 ^ 64 - 1)
  | _ => none

def isInteger (kind : PrimitiveKind) : Bool :=
  kind.intRange?.isSome

def isUnsigned : PrimitiveKind → Bool
  | uint8 | uint16 | uint32 | uint64 => true
  | _ => false

def isFloat : PrimitiveKind → Bool
  | float32 | float64 => true
  | _ => false

/-- Integers of sixty-four bits travel as decimal strings. -/
def isStringified : PrimitiveKind → Bool
  | int64 | uint64 => true
  | _ => false

/-- Whether an integer lies in the range of a kind; kinds without a range take all. -/
def inRange (kind : PrimitiveKind) (n : Int) : Bool :=
  match kind.intRange? with
  | some (low, high) => low ≤ n && n ≤ high
  | none => true

theorem ofLabel?_label (kind : PrimitiveKind) : ofLabel? kind.label = some kind := by
  cases kind <;> decide

end PrimitiveKind

/-- What a definition says about itself. One without `id` is anonymous. -/
structure Metadata where
  id : Option String := none
  description : Option String := none
  deprecated : Bool := false
  deriving DecidableEq, Inhabited

namespace Metadata

def isEmpty (m : Metadata) : Bool :=
  m.id.isNone && m.description.isNone && !m.deprecated

end Metadata

/-- A property slot. The slot, not the type in it, says whether the key may be missing. -/
structure Property (τ : Type) where
  name : String
  type : τ
  optional : Bool
  deriving Inhabited

/-- The eight forms of a definition over definitions of type `τ`. -/
inductive Form (τ : Type) where
  /-- Any JSON value, carried untouched. -/
  | any
  | primitive (kind : PrimitiveKind)
  | enumeration (values : List String)
  | elements (item : τ)
  | values (item : τ)
  | object (properties : List (Property τ))
  | ref (name : String)
  /-- A tagged union: the properties of a variant stand beside the discriminator key. -/
  | union (key : String) (mapping : List (String × List (Property τ)))
  deriving Inhabited

structure TypeDef where
  form : Form TypeDef
  nullable : Bool
  metadata : Metadata

inductive ModelError where
  | emptyEnum
  | duplicateEnumValue (value : String)
  | duplicateProperty (name : String)
  | duplicateTag (tag : String)
  | discriminatorCollision (key tag : String)
  | nameCollision (name : String)
  | unresolvedRef (name : String)
  deriving DecidableEq, Inhabited

namespace ModelError

def message : ModelError → String
  | emptyEnum => "enum must declare at least one value"
  | duplicateEnumValue value => "duplicate enum value " ++ Text.quoted value
  | duplicateProperty name => "duplicate property " ++ Text.quoted name
  | duplicateTag tag => "duplicate union tag " ++ Text.quoted tag
  | discriminatorCollision key tag =>
    "union variant " ++ Text.quoted tag ++ " declares a property named like its discriminator " ++ Text.quoted key
  | nameCollision name => "definition name " ++ Text.quoted name ++ " is already used by a different type"
  | unresolvedRef name => "unresolved type reference " ++ Text.quoted name

def kind : ModelError → String
  | emptyEnum => "EmptyEnum"
  | duplicateEnumValue _ => "DuplicateEnumValue"
  | duplicateProperty _ => "DuplicateProperty"
  | duplicateTag _ => "DuplicateTag"
  | discriminatorCollision _ _ => "DiscriminatorCollision"
  | nameCollision _ => "NameCollision"
  | unresolvedRef _ => "UnresolvedRef"

end ModelError

/-- The first string that occurs earlier in the list. -/
def firstRepeat? (seen : List String) : List String → Option String
  | [] => none
  | s :: rest => if seen.contains s then some s else firstRepeat? (s :: seen) rest

def findProperty? {τ : Type} (name : String) (properties : List (Property τ)) : Option (Property τ) :=
  properties.find? fun p => p.name == name

namespace TypeDef

/-- A definition that is not nullable and says nothing about itself. -/
def ofForm (form : Form TypeDef) : TypeDef :=
  ⟨form, false, {}⟩

instance : Inhabited TypeDef := ⟨ofForm .any⟩

def any : TypeDef := ofForm .any

def primitive (kind : PrimitiveKind) : TypeDef := ofForm (.primitive kind)

def elements (item : TypeDef) : TypeDef := ofForm (.elements item)

def values (item : TypeDef) : TypeDef := ofForm (.values item)

def ref (name : String) : TypeDef := ofForm (.ref name)

/-- A string out of a list that is neither empty nor repeats a value. -/
def enumeration (values : List String) : Except ModelError TypeDef :=
  if values.isEmpty then .error .emptyEnum
  else
    match firstRepeat? [] values with
    | some value => .error (.duplicateEnumValue value)
    | none => .ok (ofForm (.enumeration values))

def checkProperties (properties : List (Property TypeDef)) : Except ModelError (List (Property TypeDef)) :=
  match firstRepeat? [] (properties.map Property.name) with
  | some name => .error (.duplicateProperty name)
  | none => .ok properties

def object (properties : List (Property TypeDef)) : TypeDef := ofForm (.object properties)

def objectOf (properties : List (Property TypeDef)) : Except ModelError TypeDef :=
  (checkProperties properties).map object

/-- The first fault of a union, in the order of its variants: a tag that occurred before, or a property named
like the discriminator. -/
def unionFault? (key : String) (seen : List String) : List (String × List (Property TypeDef)) → Option ModelError
  | [] => none
  | (tag, properties) :: rest =>
    if seen.contains tag then some (.duplicateTag tag)
    else if (findProperty? key properties).isSome then some (.discriminatorCollision key tag)
    else unionFault? key (tag :: seen) rest

/-- A tagged union with unique tags and no property named like its discriminator. -/
def unionOf (key : String) (mapping : List (String × List (Property TypeDef))) : Except ModelError TypeDef :=
  match unionFault? key [] mapping with
  | some error => .error error
  | none => .ok (ofForm (.union key mapping))

def withNullable (t : TypeDef) (nullable : Bool) : TypeDef :=
  ⟨t.form, nullable, t.metadata⟩

def withMetadata (t : TypeDef) (metadata : Metadata) : TypeDef :=
  ⟨t.form, t.nullable, metadata⟩

/-- A definition without a name of its own. -/
def isAnonymous (t : TypeDef) : Bool :=
  t.metadata.id.isNone

def refName? (t : TypeDef) : Option String :=
  match t.form with
  | .ref name => some name
  | _ => none

/-- The kind of a definition in messages; a reference is named by its target. -/
def kindName (t : TypeDef) : String :=
  match t.form with
  | .any => "any"
  | .primitive kind => kind.label
  | .enumeration _ => "enum"
  | .elements _ => "array"
  | .values _ => "map"
  | .object _ => "object"
  | .ref name => name
  | .union _ _ => "discriminated union"

/-- The properties of a record, none for the other forms. -/
def properties (t : TypeDef) : List (Property TypeDef) :=
  match t.form with
  | .object properties => properties
  | _ => []

mutual

/-- The names that a definition refers to, without looking into the definitions of those names. -/
def refs : TypeDef → List String
  | ⟨form, _, _⟩ => refsOfForm form

def refsOfForm : Form TypeDef → List String
  | .any => []
  | .primitive _ => []
  | .enumeration _ => []
  | .elements item => item.refs
  | .values item => item.refs
  | .object properties => refsOfProperties properties
  | .ref name => [name]
  | .union _ mapping => refsOfMapping mapping

def refsOfProperties : List (Property TypeDef) → List String
  | [] => []
  | ⟨_, type, _⟩ :: rest => type.refs ++ refsOfProperties rest

def refsOfMapping : List (String × List (Property TypeDef)) → List String
  | [] => []
  | (_, properties) :: rest => refsOfProperties properties ++ refsOfMapping rest

end

mutual

/-- Equality of definitions is decided node by node. -/
def decideEq : (a b : TypeDef) → Decidable (a = b)
  | ⟨f, n, m⟩, ⟨f', n', m'⟩ =>
    match decideFormEq f f', decEq n n', decEq m m' with
    | isTrue hf, isTrue hn, isTrue hm => isTrue (by rw [hf, hn, hm])
    | isFalse h, _, _ => isFalse fun e => h (by injection e)
    | _, isFalse h, _ => isFalse fun e => h (by injection e)
    | _, _, isFalse h => isFalse fun e => h (by injection e)

def decideFormEq : (a b : Form TypeDef) → Decidable (a = b)
  | .any, .any => isTrue rfl
  | .primitive k, .primitive k' =>
    if h : k = k' then isTrue (by rw [h]) else isFalse fun e => h (by injection e)
  | .enumeration vs, .enumeration vs' =>
    if h : vs = vs' then isTrue (by rw [h]) else isFalse fun e => h (by injection e)
  | .elements t, .elements t' =>
    match decideEq t t' with
    | isTrue h => isTrue (by rw [h])
    | isFalse h => isFalse fun e => h (by injection e)
  | .values t, .values t' =>
    match decideEq t t' with
    | isTrue h => isTrue (by rw [h])
    | isFalse h => isFalse fun e => h (by injection e)
  | .object ps, .object ps' =>
    match decidePropertiesEq ps ps' with
    | isTrue h => isTrue (by rw [h])
    | isFalse h => isFalse fun e => h (by injection e)
  | .ref n, .ref n' => if h : n = n' then isTrue (by rw [h]) else isFalse fun e => h (by injection e)
  | .union k vs, .union k' vs' =>
    match decEq k k', decideMappingEq vs vs' with
    | isTrue hk, isTrue hv => isTrue (by rw [hk, hv])
    | isFalse h, _ => isFalse fun e => h (by injection e)
    | _, isFalse h => isFalse fun e => h (by injection e)
  | .any, .primitive _ | .any, .enumeration _ | .any, .elements _ | .any, .values _ | .any, .object _
  | .any, .ref _ | .any, .union _ _ => isFalse nofun
  | .primitive _, .any | .primitive _, .enumeration _ | .primitive _, .elements _ | .primitive _, .values _
  | .primitive _, .object _ | .primitive _, .ref _ | .primitive _, .union _ _ => isFalse nofun
  | .enumeration _, .any | .enumeration _, .primitive _ | .enumeration _, .elements _
  | .enumeration _, .values _ | .enumeration _, .object _ | .enumeration _, .ref _
  | .enumeration _, .union _ _ => isFalse nofun
  | .elements _, .any | .elements _, .primitive _ | .elements _, .enumeration _ | .elements _, .values _
  | .elements _, .object _ | .elements _, .ref _ | .elements _, .union _ _ => isFalse nofun
  | .values _, .any | .values _, .primitive _ | .values _, .enumeration _ | .values _, .elements _
  | .values _, .object _ | .values _, .ref _ | .values _, .union _ _ => isFalse nofun
  | .object _, .any | .object _, .primitive _ | .object _, .enumeration _ | .object _, .elements _
  | .object _, .values _ | .object _, .ref _ | .object _, .union _ _ => isFalse nofun
  | .ref _, .any | .ref _, .primitive _ | .ref _, .enumeration _ | .ref _, .elements _ | .ref _, .values _
  | .ref _, .object _ | .ref _, .union _ _ => isFalse nofun
  | .union _ _, .any | .union _ _, .primitive _ | .union _ _, .enumeration _ | .union _ _, .elements _
  | .union _ _, .values _ | .union _ _, .object _ | .union _ _, .ref _ => isFalse nofun

def decidePropertiesEq : (a b : List (Property TypeDef)) → Decidable (a = b)
  | [], [] => isTrue rfl
  | [], _ :: _ => isFalse nofun
  | _ :: _, [] => isFalse nofun
  | ⟨n, t, o⟩ :: ps, ⟨n', t', o'⟩ :: ps' =>
    match decEq n n', decideEq t t', decEq o o', decidePropertiesEq ps ps' with
    | isTrue hn, isTrue ht, isTrue ho, isTrue hp => isTrue (by rw [hn, ht, ho, hp])
    | isFalse h, _, _, _ => isFalse fun e => h (by injection e with e _; injection e)
    | _, isFalse h, _, _ => isFalse fun e => h (by injection e with e _; injection e)
    | _, _, isFalse h, _ => isFalse fun e => h (by injection e with e _; injection e)
    | _, _, _, isFalse h => isFalse fun e => h (by injection e)

def decideMappingEq : (a b : List (String × List (Property TypeDef))) → Decidable (a = b)
  | [], [] => isTrue rfl
  | [], _ :: _ => isFalse nofun
  | _ :: _, [] => isFalse nofun
  | (tag, ps) :: rest, (tag', ps') :: rest' =>
    match decEq tag tag', decidePropertiesEq ps ps', decideMappingEq rest rest' with
    | isTrue ht, isTrue hp, isTrue hr => isTrue (by rw [ht, hp, hr])
    | isFalse h, _, _ => isFalse fun e => h (by injection e with e _; injection e)
    | _, isFalse h, _ => isFalse fun e => h (by injection e with e _; injection e)
    | _, _, isFalse h => isFalse fun e => h (by injection e)

end

instance : DecidableEq TypeDef := decideEq

end TypeDef

end SchemaRpc
