import FlowCompiler.Host.Datum
import FlowCompiler.Text.Quoted

/-!
# Low-level values

Containers are instances of the container types: structures with a value for each field, arrays with
items, and functions.  A structure inside another one knows its parent, so a pointer to the parent part
of an object and a pointer to the whole object can be turned into each other.
-/

namespace FlowCompiler

/-- An instance of a container type. -/
structure Container where
  type : NodeId
  fields : Array Datum := #[]
  items : Array Datum := #[]
  /-- The name of a function. -/
  name : String := ""
  graph : Option GraphId := none
  /-- The container that holds this one by value. -/
  parent : Option ContainerId := none
  /-- Prebuilt, and never collected. -/
  immortal : Bool := false
deriving Inhabited

/-- Types and their instances. -/
structure LowStore where
  types : Types := {}
  containers : Array Container := #[]
deriving Inhabited

namespace LowStore

abbrev M := StateM LowStore

def get (s : LowStore) (c : ContainerId) : Container := (s.containers[c]?).getD default

def addType (n : TypeNode) : M NodeId := fun s =>
  let (id, types) := s.types.add n
  (id, { s with types })

def addContainer (c : Container) : M ContainerId := fun s =>
  (s.containers.size, { s with containers := s.containers.push c })

def update (s : LowStore) (c : ContainerId) (f : Container → Container) : LowStore :=
  { s with containers := s.containers.modify c f }

/-- The container that holds all others on the way outwards. -/
def topAux (s : LowStore) : (fuel : Nat) → ContainerId → ContainerId
  | 0, c => c
  | n + 1, c =>
    match (s.get c).parent with
    | some p => s.topAux n p
    | none => c

def top (s : LowStore) (c : ContainerId) : ContainerId := s.topAux s.containers.size c

/-! ## Default values and allocation -/

def defaultPrim (p : Primitive) : Datum :=
  match p.cls with
  | .void => .nil
  | .bool => .bool false
  | .char => .byte 0
  | .unichar => .rune 0
  | .float => .float ⟨0⟩
  | .address => .address 0
  | .int => if p.signed then .int 0 else .uint 0

mutual

/-- The value of a fresh field or item. -/
def defaultAux : (fuel : Nat) → LowType → M Datum
  | 0, _ => pure .nil
  | n + 1, t => do
    let s ← StateT.get
    match s.types.resolve t with
    | .prim p => pure (defaultPrim p)
    | .ptr pointee => pure (.ptr (.null pointee))
    | .node id =>
      match s.types.node id with
      | .struct _ _ _ _ => return .container (← newContainer n id 0 none)
      | .fixed _ k => return .container (← newContainer n id k none)
      | _ => pure .nil

/-- A container with default contents; `len` is the length of its variable part. -/
def newContainer : (fuel : Nat) → NodeId → Int → Option ContainerId → M ContainerId
  | 0, id, _, parent => addContainer { type := id, parent }
  | n + 1, id, len, parent => do
    let c ← addContainer { type := id, parent }
    let s ← StateT.get
    match s.types.container id with
    | .struct _ fields _ _ => do
      let vs ← newFields n c len fields
      StateT.modifyGet fun s => ((), s.update c fun o => { o with fields := vs.toArray })
    | .array of _ _ _ => do
      let vs ← (List.replicate len.toNat of).mapM (defaultAux n)
      StateT.modifyGet fun s => ((), s.update c fun o => { o with items := vs.toArray })
    | .fixed of k => do
      let vs ← (List.replicate k.toNat of).mapM (defaultAux n)
      StateT.modifyGet fun s => ((), s.update c fun o => { o with items := vs.toArray })
    | _ => pure ()
    pure c

/-- The fields of a fresh structure; only the last one takes the length of the variable part, and an
array takes it wherever it stands. -/
def newFields : (fuel : Nat) → ContainerId → Int → List (String × LowType) → M (List Datum)
  | 0, _, _, _ => pure []
  | _, _, _, [] => pure []
  | n + 1, c, len, (_, t) :: rest => do
    let s ← StateT.get
    let v ← match s.types.resolve t with
      | .node id =>
        match s.types.node id with
        | .struct _ _ _ _ => do pure (Datum.container (← newContainer n id (if rest.isEmpty then len else 0) (some c)))
        | .array _ _ _ _ => do pure (Datum.container (← newContainer n id len (some c)))
        | .fixed _ k => do pure (Datum.container (← newContainer n id k (some c)))
        | _ => defaultAux n t
      | t => defaultAux n t
    return v :: (← newFields n c len rest)

end

/-- Steps enough for any type that holds no part of its own type by value. -/
def allocFuel (s : LowStore) : Nat :=
  4 + 2 * s.types.nodes.size + (s.types.nodes.foldl (fun n t => match t with
    | .struct _ fs _ _ => n + fs.length + 2
    | _ => n + 2) 0)

def defaultValue (t : LowType) : M Datum := do defaultAux (← StateT.get).allocFuel t

/-- Allocates a container; `len` is the length of its variable part. -/
def malloc (id : NodeId) (len : Int) : M (Except Failure PtrValue) := do
  let s ← StateT.get
  let id := s.types.target id
  if !s.types.isVarSized id && len ≠ 0 then
    pure (.error (.plain s!"malloc: {s.types.nodeName id} is not variable-sized"))
  else if len < 0 then pure (.error (.plain s!"malloc: negative length {len}"))
  else return .ok ⟨id, some (← newContainer s.allocFuel id len none)⟩

/-- A constant pointer to a function. -/
def functionPtr (ft : NodeId) (name : String) (graph : Option GraphId) : M PtrValue := do
  let c ← addContainer { type := ft, name, graph, immortal := true }
  pure ⟨ft, some c⟩

/-! ## Access -/

def nullDereference : Failure := .plain "null pointer dereference"

/-- The container of a pointer to a structure. -/
def structOf (s : LowStore) (p : PtrValue) : Except Failure ContainerId :=
  match p.obj with
  | none => .error nullDereference
  | some c =>
    let t := s.types.target (s.get c).type
    if s.types.isStruct t then .ok c
    else .error (.plain s!"{s.types.nodeName (s.get c).type} is not a struct")

/-- The container and the place of a field. -/
def fieldOf (s : LowStore) (p : PtrValue) (name : String) : Except Failure (ContainerId × Nat) := do
  let c ← s.structOf p
  let t := s.types.target (s.get c).type
  match s.types.fieldIndex? t name with
  | some i => .ok (c, i)
  | none => .error (.plain s!"{s.types.nodeName t} has no field {Quoted.quote name}")

/-- A container held by value reads as a pointer to it. -/
def asPointer (s : LowStore) : Datum → Datum
  | .container c => .ptr ⟨(s.get c).type, some c⟩
  | v => v

def getField (s : LowStore) (p : PtrValue) (name : String) : Except Failure Datum := do
  let (c, i) ← s.fieldOf p name
  .ok (s.asPointer (((s.get c).fields[i]?).getD .nil))

def setField (s : LowStore) (p : PtrValue) (name : String) (v : Datum) : Except Failure LowStore := do
  let (c, i) ← s.fieldOf p name
  match ((s.get c).fields[i]?).getD .nil with
  | .container _ => .error (.plain s!"cannot assign to inlined substructure {Quoted.quote name}")
  | _ => .ok (s.update c fun o => { o with fields := o.fields.setIfInBounds i v })

/-- The length of an array. -/
def length (s : LowStore) (p : PtrValue) : Except Failure (ContainerId × Nat) :=
  match p.obj with
  | none => .error nullDereference
  | some c =>
    match s.types.container (s.get c).type with
    | .array _ _ _ _ => .ok (c, (s.get c).items.size)
    | .fixed _ _ => .ok (c, (s.get c).items.size)
    | _ => .error (.plain s!"{s.types.nodeName (s.get c).type} is not an array")

def itemOf (s : LowStore) (p : PtrValue) (i : Int) : Except Failure (ContainerId × Nat) := do
  let (c, n) ← s.length p
  if i < 0 || i ≥ n then .error (.plain s!"index {i} out of range [0, {n})") else .ok (c, i.toNat)

def getItem (s : LowStore) (p : PtrValue) (i : Int) : Except Failure Datum := do
  let (c, k) ← s.itemOf p i
  .ok (((s.get c).items[k]?).getD .nil)

def setItem (s : LowStore) (p : PtrValue) (i : Int) (v : Datum) : Except Failure LowStore := do
  let (c, k) ← s.itemOf p i
  .ok (s.update c fun o => { o with items := o.items.setIfInBounds k v })

/-! ## Casts along inheritance -/

/-- Looks for a part of a type along the first fields inwards. -/
def castInwards (s : LowStore) (target : NodeId) : (fuel : Nat) → ContainerId → Option ContainerId
  | 0, _ => none
  | n + 1, c =>
    let t := s.types.target (s.get c).type
    if t = target then some c
    else if (s.types.super? t).isSome then
      match (s.get c).fields[0]? with
      | some (Datum.container inner) => s.castInwards target n inner
      | _ => none
    else none

/-- Looks for a part of a type along the parents outwards. -/
def castOutwards (s : LowStore) (target : NodeId) : (fuel : Nat) → Option ContainerId → Option ContainerId
  | 0, _ => none
  | _, none => none
  | n + 1, some c =>
    if s.types.target (s.get c).type = target then some c else s.castOutwards target n (s.get c).parent

/-- Casts a pointer to another structure of the same object. -/
def castPointer (s : LowStore) (pointee : NodeId) (p : PtrValue) : Except Failure PtrValue :=
  let target := s.types.target pointee
  if !s.types.isStruct target then
    .error (.plain s!"cast_pointer target {s.types.text (.ptr pointee)} is not a struct")
  else match p.obj with
    | none => .ok (.null pointee)
    | some c =>
      match s.castInwards target s.containers.size c <|> s.castOutwards target s.containers.size (s.get c).parent with
      | some o => .ok ⟨pointee, some o⟩
      | none => .error (.plain s!"invalid cast from {s.types.text (.ptr p.pointee)} to {s.types.text (.ptr pointee)}")

end LowStore
end FlowCompiler
