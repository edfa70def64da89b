import SchemaRpc.Definitions

/-!
# Shapes

A shape is what a type says about itself. Records, unions and enumerations are declared in a catalog and named in
shapes by their place there, so that declarations may refer to one another and to themselves.
-/

namespace SchemaRpc

/-- The structure of a type over a catalog of `n` declarations. -/
inductive Shape (n : Nat) where
  | primitive (kind : PrimitiveKind)
  | array (item : Shape n)
  | map (item : Shape n)
  /-- May be absent; only meaningful as the shape of a field. -/
  | optional (inner : Shape n)
  | nullable (inner : Shape n)
  | any
  /-- No value at all: a procedure without params or response. -/
  | unit
  /-- A type that has no form on the wire, under its name. -/
  | unsupported (name : String)
  | declared (slot : Fin n)
  deriving DecidableEq, Inhabited

/-- Identity and documentation of a declared type. One without name is anonymous. -/
structure TypeInfo where
  id : TypeId
  name : Option String := none
  description : Option String := none
  deprecated : Bool := false
  deriving DecidableEq, Inhabited

structure FieldDecl (τ : Type) where
  name : String
  type : τ
  description : Option String := none
  deprecated : Bool := false
  deriving DecidableEq, Inhabited

structure VariantDecl (τ : Type) where
  tag : String
  description : Option String := none
  fields : List (FieldDecl τ)
  deriving DecidableEq, Inhabited

inductive Members (τ : Type) where
  | record (fields : List (FieldDecl τ))
  | union (discriminator : String) (variants : List (VariantDecl τ))
  | enumeration (values : List String)
  deriving DecidableEq, Inhabited

structure Declaration (τ : Type) where
  info : TypeInfo
  members : Members τ
  deriving DecidableEq, Inhabited

abbrev Catalog (n : Nat) := Vector (Declaration (Shape n)) n

-- Slots are written as numerals. The sizes have instances with names, so that a catalog has no proof for each numeral.

instance instNeZeroOne : @NeZero Nat Zero.ofOfNat0 1 := ⟨Nat.succ_ne_zero 0⟩

instance instNeZeroTwo : @NeZero Nat Zero.ofOfNat0 2 := ⟨Nat.succ_ne_zero 1⟩

instance instNeZeroThree : @NeZero Nat Zero.ofOfNat0 3 := ⟨Nat.succ_ne_zero 2⟩

section Map

variable {τ σ : Type}

def FieldDecl.map (f : τ → σ) (field : FieldDecl τ) : FieldDecl σ :=
  ⟨field.name, f field.type, field.description, field.deprecated⟩

def VariantDecl.map (f : τ → σ) (variant : VariantDecl τ) : VariantDecl σ :=
  ⟨variant.tag, variant.description, variant.fields.map (FieldDecl.map f)⟩

def Members.map (f : τ → σ) : Members τ → Members σ
  | record fields => record (fields.map (FieldDecl.map f))
  | union discriminator variants => union discriminator (variants.map (VariantDecl.map f))
  | enumeration values => enumeration values

def Declaration.map (f : τ → σ) (declaration : Declaration τ) : Declaration σ :=
  ⟨declaration.info, declaration.members.map f⟩

end Map

namespace Shape

variable {n : Nat}

def kindName (catalog : Catalog n) : Shape n → String
  | primitive kind => kind.label
  | array _ => "array"
  | map _ => "map"
  | optional _ => "optional"
  | nullable _ => "nullable"
  | any => "any"
  | unit => "unit"
  | unsupported name => name
  | declared slot =>
    match (catalog.get slot).members with
    | .record _ => "record"
    | .union _ _ => "union"
    | .enumeration _ => "enum"

def info? (catalog : Catalog n) : Shape n → Option TypeInfo
  | declared slot => some (catalog.get slot).info
  | _ => none

end Shape

end SchemaRpc
