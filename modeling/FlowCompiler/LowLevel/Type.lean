/-!
# Low-level types

The types that remain after typing: machine numbers, pointers, and the containers that pointers point
to.  Containers have an identity of their own, two structures of one shape are still two structures,
and they may refer to each other in cycles, so they are nodes of a store and a type mentions a node by
its number.  A forward reference is a node that becomes another one later.
-/

namespace FlowCompiler

inductive PrimClass where
  | void
  | bool
  | int
  | float
  | char
  | unichar
  | address
deriving DecidableEq, Repr, Hashable

structure Primitive where
  name : String
  bits : Nat
  signed : Bool := false
  cls : PrimClass
deriving DecidableEq, Repr, Hashable

namespace Primitive

def isInteger (p : Primitive) : Bool := p.cls == .int
def isFloat (p : Primitive) : Bool := p.cls == .float

end Primitive

abbrev NodeId := Nat

/-- A type: a primitive, a pointer to a container, or a container held by value. -/
inductive LowType where
  | prim (p : Primitive)
  | ptr (pointee : NodeId)
  | node (id : NodeId)
deriving DecidableEq, Repr, Hashable

namespace LowType

def void : LowType := prim { name := "Void", bits := 0, cls := .void }
def bool : LowType := prim { name := "Bool", bits := 1, cls := .bool }
def char : LowType := prim { name := "Char", bits := 8, cls := .char }
def unichar : LowType := prim { name := "UniChar", bits := 32, cls := .unichar }
def signed : LowType := prim { name := "Signed", bits := 64, signed := true, cls := .int }
def unsigned : LowType := prim { name := "Unsigned", bits := 64, cls := .int }
def signedLongLong : LowType := prim { name := "SignedLongLong", bits := 64, signed := true, cls := .int }
def unsignedLongLong : LowType := prim { name := "UnsignedLongLong", bits := 64, cls := .int }
def int32 : LowType := prim { name := "Int32", bits := 32, signed := true, cls := .int }
def float : LowType := prim { name := "Float", bits := 64, signed := true, cls := .float }
def singleFloat : LowType := prim { name := "SingleFloat", bits := 32, signed := true, cls := .float }
def address : LowType := prim { name := "Address", bits := 64, cls := .address }

/-- The named primitives. -/
def named : List (String × LowType) :=
  [ ("Void", void), ("Bool", bool), ("Char", char), ("UniChar", unichar), ("Signed", signed),
    ("Unsigned", unsigned), ("SignedLongLong", signedLongLong), ("UnsignedLongLong", unsignedLongLong),
    ("Int32", int32), ("Float", float), ("SingleFloat", singleFloat), ("Address", address) ]

/-- The integer type of a width. -/
def integer (bits : Nat) (isSigned : Bool) : LowType :=
  if bits = 64 then (if isSigned then signed else unsigned)
  else if bits = 32 && isSigned then int32
  else prim { name := (if isSigned then "Signed" else "Unsigned") ++ toString bits, bits, signed := isSigned, cls := .int }

end LowType

structure StructHints where
  immutable : Bool := false
  immutableFields : List String := []
  typePtr : Bool := false
  rtti : Bool := false
  final : Bool := false
deriving Inhabited

/-- The contents of a node. -/
inductive TypeNode where
  | struct (name : String) (fields : List (String × LowType)) (hints : StructHints) (gc : Bool)
  /-- An array whose length is chosen at allocation; a bare one has no length word. -/
  | array (of : LowType) (bare immutable gc : Bool)
  | fixed (of : LowType) (length : Int)
  | func (args : List LowType) (result : LowType)
  /-- A handle defined elsewhere; its size is what the probe answers. -/
  | handle (tag : String) (gc : Bool) (probe : Option Int)
  | weakref (pointee : NodeId)
  | group (name : String) (members : List NodeId)
  | forward (gc : Bool) (target : Option NodeId)
deriving Inhabited

/-- The store of container types. -/
structure Types where
  nodes : Array TypeNode := #[]
deriving Inhabited

namespace Types

def node (s : Types) (id : NodeId) : TypeNode := (s.nodes[id]?).getD (.forward false none)

/-- Adds a node and gives its number. -/
def add (s : Types) (n : TypeNode) : NodeId × Types := (s.nodes.size, { nodes := s.nodes.push n })

def set (s : Types) (id : NodeId) (n : TypeNode) : Types := { nodes := s.nodes.setIfInBounds id n }

/-- Follows a forward reference, one step. -/
def target (s : Types) (id : NodeId) : NodeId :=
  match s.node id with
  | .forward _ (some t) => t
  | _ => id

def resolve (s : Types) : LowType → LowType
  | .node id => .node (s.target id)
  | t => t

/-- The node behind a forward reference. -/
def container (s : Types) (id : NodeId) : TypeNode := s.node (s.target id)

def nodeIsGC : TypeNode → Bool
  | .struct _ _ _ gc => gc
  | .array _ _ _ gc => gc
  | .handle _ gc _ => gc
  | .weakref _ => true
  | .forward gc _ => gc
  | _ => false

def isGC (s : Types) (id : NodeId) : Bool := nodeIsGC (s.node id)

/-- Enough steps to walk through every node. -/
def fuel (s : Types) : Nat := 2 * s.nodes.size + 4

/-- Whether the length of a container is chosen at allocation: an array, or a structure that ends in
such a container. -/
def varSizedAux (s : Types) : (fuel : Nat) → NodeId → Bool
  | 0, _ => false
  | n + 1, id =>
    match s.node id with
    | .array _ _ _ _ => true
    | .struct _ fields _ _ =>
      match fields.getLast? with
      | some (_, .node f) => s.varSizedAux n (s.target f)
      | _ => false
    | .forward _ (some t) => s.varSizedAux n t
    | _ => false

def isVarSized (s : Types) (id : NodeId) : Bool := s.varSizedAux s.fuel id

/-- Whether a type is a container of variable size. -/
def typeIsVarSized (s : Types) (t : LowType) : Bool :=
  match s.resolve t with
  | .node id => s.isVarSized id
  | _ => false

def gcText (gc : Bool) (name : String) : String := if gc then "Gc" ++ name else name

/-- The text of a node, with the text of a type inside it given. -/
def nodeText (inner : LowType → String) : TypeNode → String
  | .struct name _ _ gc => gcText gc "Struct " ++ name
  | .array of bare _ gc => gcText gc "Array" ++ (if bare then "[bare]" else "") ++ " of " ++ inner of
  | .fixed of n => "FixedArray(" ++ inner of ++ ", " ++ toString n ++ ")"
  | .func args result =>
    "Func(" ++ String.intercalate ", " (args.map inner) ++ ") -> " ++ inner result
  | .handle tag _ _ => "Opaque " ++ tag
  | .weakref pointee => "WeakRef(" ++ inner (.ptr pointee) ++ ")"
  | .group name _ => "Group " ++ name
  | .forward _ (some t) => inner (.node t)
  | .forward _ none => "Forward"

def textAux (s : Types) : (fuel : Nat) → LowType → String
  | 0, _ => ""
  | n + 1, t =>
    match t with
    | .prim p => p.name
    | .ptr pointee => (if s.isGC pointee then "Ptr(" else "RawPtr(") ++ s.textAux n (.node pointee) ++ ")"
    | .node id => nodeText (s.textAux n) (s.node id)

/-- The text of a type. -/
def text (s : Types) (t : LowType) : String := s.textAux (2 * s.fuel) t

def nodeName (s : Types) (id : NodeId) : String := s.text (.node id)

def boolText (b : Bool) : String := if b then "true" else "false"

/-- The structural key of a type that is referred to: a structure counts by its name alone, which
keeps recursive types finite. -/
def refKeyAux (s : Types) : (fuel : Nat) → LowType → String
  | 0, _ => ""
  | n + 1, t =>
    let key := s.refKeyAux n
    match t with
    | .prim p => "P:" ++ p.name
    | .ptr pointee => "Ptr(" ++ key (.node pointee) ++ ")"
    | .node id =>
      match s.node id with
      | .struct name _ _ gc => (if gc then "GS:" else "S:") ++ name
      | .array of bare imm gc =>
        s!"A({boolText gc},{boolText bare},{boolText imm}):" ++ key of
      | .fixed of k => s!"FA({k}):" ++ key of
      | .func args result =>
        "F(" ++ String.intercalate "," (args.map key) ++ ")->" ++ key result
      | .handle tag gc _ => s!"O({boolText gc}):{tag}"
      | .weakref pointee => "W:" ++ key (.ptr pointee)
      | .group name ms => "G:" ++ name ++ "[" ++ String.intercalate "," (ms.map fun m => key (.node m)) ++ "]"
      | .forward _ (some t) => key (.node t)
      | .forward _ none => s!"FWD:{id}"

def refKey (s : Types) (t : LowType) : String := s.refKeyAux (2 * s.fuel) t

/-- The structural key of a type: a structure counts by its name and its fields. -/
def key (s : Types) (t : LowType) : String :=
  match t with
  | .node id =>
    match s.node id with
    | .struct _ fields _ _ =>
      s.refKey t ++ "\x7b" ++ String.intercalate "," (fields.map fun (n, ft) => n ++ ":" ++ s.refKey ft) ++ "\x7d"
    | _ => s.refKey t
  | t => s.refKey t

/-- Structural equality of types. -/
def equal (s : Types) (a b : LowType) : Bool := a == b || s.key (s.resolve a) == s.key (s.resolve b)

/-! ## Structures -/

def structName? (s : Types) (id : NodeId) : Option String :=
  match s.node id with
  | .struct name _ _ _ => some name
  | _ => none

def fields (s : Types) (id : NodeId) : List (String × LowType) :=
  match s.node id with
  | .struct _ fs _ _ => fs
  | _ => []

def isStruct (s : Types) (id : NodeId) : Bool := (s.structName? id).isSome

/-- The place of a field; of two fields of one name the later one counts. -/
def fieldIndexOf (fs : List (String × LowType)) (name : String) : Option Nat :=
  (fs.zipIdx.filter fun (f, _) => f.1 == name).getLast?.map Prod.snd

def fieldIndex? (s : Types) (id : NodeId) (name : String) : Option Nat := fieldIndexOf (s.fields id) name

def fieldType? (s : Types) (id : NodeId) (name : String) : Option LowType := do
  let i ← s.fieldIndex? id name
  ((s.fields id)[i]?).map Prod.snd

/-- The name of the trailing field of variable size, empty when there is none. -/
def varField (s : Types) (id : NodeId) : String :=
  match (s.fields id).getLast? with
  | some (name, t) => if s.typeIsVarSized t then name else ""
  | none => ""

/-- The parent structure, held by value as the first field. -/
def super? (s : Types) (id : NodeId) : Option NodeId :=
  match s.fields id with
  | (name, .node f) :: _ =>
    let f := s.target f
    if name == "super" && s.isStruct f then some f else none
  | _ => none

def ancestorsAux (s : Types) : (fuel : Nat) → NodeId → List NodeId
  | 0, _ => []
  | n + 1, id => id :: (match s.super? id with
    | some p => s.ancestorsAux n p
    | none => [])

/-- The structure and its parents, innermost last. -/
def ancestors (s : Types) (id : NodeId) : List NodeId := s.ancestorsAux s.fuel id

def isSubStruct (s : Types) (id base : NodeId) : Bool := (s.ancestors id).contains base

def isImmutableField (s : Types) (id : NodeId) (name : String) : Bool :=
  match s.node id with
  | .struct _ _ h _ => h.immutable || h.immutableFields.contains name
  | _ => false

/-! ## Classification and construction -/

def isGCPtr (s : Types) : LowType → Bool
  | .ptr pointee => s.isGC pointee
  | _ => false

def isContainer : LowType → Bool
  | .node _ => true
  | _ => false

end Types
end FlowCompiler
