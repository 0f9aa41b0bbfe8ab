import FlowCompiler.Analysis.Flow
import FlowCompiler.LowLevel.GcPolicy
import FlowCompiler.LowLevel.NameSupply
import FlowCompiler.LowLevel.Operation
import FlowCompiler.LowLevel.Validity

/-!
# Representations

Every annotation has a representation, which fixes the low-level type of the variables that hold such
values and how operations on them are lowered.  Two annotations that differ only in what no machine
value shows, say in a known range, have one representation.

A representation is a small value; what belongs to it, the structures made for a tuple or the table of
a class, is kept in the state of the typing stage under its number, because types refer to each other in
circles and a part may be asked for while it is still being made.
-/

namespace FlowCompiler

inductive Representation where
  /-- Of values that never exist. -/
  | impossible
  | none
  | prim (p : Primitive)
  | text (unicode : Bool)
  | tuple (i : Nat)
  | list (i : Nat)
  | dict (i : Nat)
  | iter (i : Nat)
  /-- An instance of a class, or of the root of all classes. -/
  | inst (c : Option ClassDefId)
  /-- A class as a value: a pointer to its table. -/
  | cls (c : Option ClassDefId)
  | functions (i : Nat)
  | methods (i : Nat)
  | classes (i : Nat)
  | frozen (i : Nat)
  | frozenMethod (i : Nat)
  | builtin (name : String)
  | method (i : Nat)
  | weakref (c : Option ClassDefId)
  /-- A function pointer in the table of a class. -/
  | funcPtr (pointee : NodeId)
deriving DecidableEq, Hashable, Inhabited

namespace Representation

def ofPrim : LowType → Representation
  | .prim p => prim p
  | _ => impossible

def bool : Representation := ofPrim .bool
def float : Representation := ofPrim .float
def char : Representation := ofPrim .char
def unichar : Representation := ofPrim .unichar
def signed : Representation := ofPrim .signed
def unsigned : Representation := ofPrim .unsigned
def int32 : Representation := ofPrim .int32
def longLong : Representation := ofPrim .signedLongLong
def unsignedLongLong : Representation := ofPrim .unsignedLongLong

/-- The representation of the integers of an annotation. -/
def ofInt (i : IntFact) : Representation :=
  if i.bits > 64 then (if i.unsigned then unsignedLongLong else longLong)
  else if i.bits = 32 && !i.unsigned then int32
  else if i.unsigned then unsigned
  else signed

/-- The machine type of an integer representation. -/
def int? : Representation → Option Primitive
  | prim p => if p.isInteger then some p else Option.none
  | _ => Option.none

end Representation

/-- The first part of the names of the operations on a machine type. -/
def Primitive.opKind (p : Primitive) : String :=
  match p.cls with
  | .float => "float_"
  | .char => "char_"
  | .unichar => "unichar_"
  | .bool => "bool_"
  | _ =>
    if p.name = "Unsigned" then "uint_"
    else if p.name = "SignedLongLong" then "llong_"
    else if p.name = "UnsignedLongLong" then "ullong_"
    else "int_"

/-! ## Keys -/

namespace World

mutual

/-- What of an annotation its representation depends on. -/
def reprKey (w : World) : Annot → String
  | .int i => s!"int:{i.bits}:{boolText i.unsigned}"
  | .tuple _ _ items => "tuple(" ++ w.reprKeys items ++ ")"
  | .str _ _ _ => "str"
  | .unicode _ _ _ => "unicode"
  | .list d => s!"list:{w.listItemId d}"
  | .dict d => s!"dict:{(w.dictDef d).key}:{(w.dictDef d).value}"
  | .inst none _ _ => "inst:object"
  | .inst (some c) _ _ => s!"inst:{c}"
  | .pbc ds nullable => s!"pbc:{boolText nullable}:" ++ String.join (ds.map fun d => s!"{d},")
  | .iter c variant => "iter:" ++ variant ++ ":" ++ w.reprKey c
  | .method name self => "bmeth:" ++ name ++ ":" ++ w.reprKey self
  | .builtin name => "builtin:" ++ name
  | .weakref none => "weakref:dead"
  | .weakref (some c) => s!"weakref:{c}"
  | a => a.kind.text

def reprKeys (w : World) : List Annot → String
  | [] => ""
  | a :: r => w.reprKey a ++ "," ++ w.reprKeys r

end

end World

/-! ## What belongs to a representation -/

/-- A field of an instance or of a class table. -/
structure ReprField where
  name : String
  repr : Representation
deriving Inhabited

structure TupleLayout where
  items : List Representation
  struct : NodeId
deriving Inhabited

structure ListLayout where
  /-- None while the list is being laid out. -/
  item : Option Representation := none
  /-- A list that is never resized is an array. -/
  fixed : Bool
  /-- What pointers to the list point to. -/
  target : NodeId
  array : NodeId := 0
  struct : NodeId := 0
deriving Inhabited

/-- Which marks an entry of a dictionary carries. -/
structure EntryLayout where
  /-- A deleted entry holds a key that no entry in use can have. -/
  dummyKey : Bool := false
  everUsed : Bool := false
  valid : Bool := false
  storedHash : Bool := false
deriving DecidableEq, Inhabited

structure DictLayout where
  key : Representation := .impossible
  value : Representation := .impossible
  entry : EntryLayout
  target : NodeId
  entryStruct : NodeId := 0
  entries : NodeId := 0
  struct : NodeId := 0
deriving Inhabited

structure IterLayout where
  annot : Annot
  container : Representation := .impossible
  struct : NodeId := 0
deriving Inhabited

structure ClassLayout where
  table : NodeId
  fields : List (String × ReprField) := []
  /-- The prebuilt table. -/
  value : Option PtrValue := none
deriving Inhabited

structure InstanceLayout where
  target : NodeId
  struct : NodeId := 0
  fields : List (String × ReprField) := []
deriving Inhabited

/-- A set of functions.  A single one needs no value at run time; otherwise it is a pointer to a
function, or to a structure with one pointer for every row of the call table. -/
structure FunctionsLayout where
  descs : List DescId
  nullable : Bool
  rows : List Row := []
  types : List NodeId := []
  struct : Option NodeId := none
  target : Option NodeId := none
deriving Inhabited

structure MethodsLayout where
  descs : List DescId
  self : Option ClassDefId
  name : String
  funcs : List DescId
deriving Inhabited

structure ClassesLayout where
  descs : List DescId
  nullable : Bool
  common : Option ClassDefId
deriving Inhabited

structure FrozenLayout where
  descs : List DescId
  nullable : Bool
  struct : Option NodeId := none
  fields : List (String × ReprField) := []
deriving Inhabited

structure FrozenMethodLayout where
  descs : List DescId
  nullable : Bool
  func : DescId
  self : Representation
deriving Inhabited

structure MethodLayout where
  name : String
  selfAnnot : Annot
  self : Representation := .impossible
deriving Inhabited

/-- The low-level operations made for one operation. -/
structure OpList where
  ops : Array FlowOp := #[]
  error : Option Failure := none
  /-- The operation that may raise. -/
  raising : Option Nat := none
  /-- No operation raises, so the handlers go. -/
  cannotRaise : Bool := false
deriving Inhabited

/-- The state of the typing stage. -/
structure Typer where
  policy : GcPolicy := .framework false
  noTypePtr : Bool := false
  reprs : Std.HashMap String Representation := {}
  texts : List (Bool × NodeId) := []
  tuples : Array TupleLayout := #[]
  lists : Array ListLayout := #[]
  dicts : Array DictLayout := #[]
  iters : Array IterLayout := #[]
  functionSets : Array FunctionsLayout := #[]
  methodSets : Array MethodsLayout := #[]
  classSets : Array ClassesLayout := #[]
  frozenSets : Array FrozenLayout := #[]
  frozenMethods : Array FrozenMethodLayout := #[]
  methods : Array MethodLayout := #[]
  weakrefs : List (Option ClassDefId × NodeId) := []
  classes : Std.HashMap (Option ClassDefId) ClassLayout := {}
  instances : Std.HashMap (Option ClassDefId) InstanceLayout := {}
  /-- The root of all instances. -/
  rootObject : NodeId := 0
  callables : Std.HashMap GraphId PtrValue := {}
  /-- Functions of the runtime system, in the order of first use, by the name under which they are found. -/
  helpers : Array (String × PtrValue) := #[]
  names : NameSupply := {}
  rtti : List (NodeId × Rtti) := []
  finalizers : List (NodeId × GraphId) := []
  prebuilt : Std.HashMap (Representation × Datum) PtrValue := {}
  out : OpList := {}
deriving Inhabited

/-- A step of the typing stage. -/
abbrev Typing := StateT Typer Ana

namespace Typing

def world : Typing World := getThe World

def fail {α : Type} (code text : String) : Typing α := throw (.typing code text)

/-- No representation, or none for this use. -/
def unrepresented {α : Type} (text : String) : Typing α := fail Code.noRepresentation text

def inconsistent {α : Type} (text : String) : Typing α := fail Code.inconsistentType text

def types : Typing Types := return (← world).prog.low.types

/-- Changes the low-level objects. -/
def onLow {α : Type} (m : LowStore.M α) : Typing α := modifyGetThe World fun w =>
  let low := w.prog.low
  let w := { w with prog := { w.prog with low := {} } }
  let (a, low) := m low
  (a, { w with prog := { w.prog with low } })

/-- Changes the flow graphs. -/
def onFlow {α : Type} (f : FlowStore → α × FlowStore) : Typing α := modifyGetThe World fun w =>
  let flow := w.prog.flow
  let w := { w with prog := { w.prog with flow := {} } }
  let (a, flow) := f flow
  (a, { w with prog := { w.prog with flow } })

def changeFlow (f : FlowStore → FlowStore) : Typing Unit := onFlow fun s => ((), f s)

def flow : Typing FlowStore := return (← world).prog.flow

def host : Typing HostStore := return (← world).prog.host

def addType (n : TypeNode) : Typing NodeId := onLow (LowStore.addType n)

def ofExcept {α : Type} : Except Failure α → Typing α
  | .ok a => pure a
  | .error f => throw f

/-- A structure name; repetitions are numbered. -/
def uniqueName (base : String) : Typing String := modifyGet fun t =>
  let (name, names) := t.names.fresh base
  (name, { t with names })

/-- Resolves a forward reference. -/
def become (f t : NodeId) : Typing Unit := do
  let r ← ofExcept ((← types).become f t)
  modifyThe World fun w => { w with prog := { w.prog with low := { w.prog.low with types := r } } }

/-- Allocates a prebuilt container. -/
def mallocPrebuilt (id : NodeId) (len : Int) : Typing PtrValue := do
  let p ← ofExcept (← onLow (LowStore.malloc id len))
  match p.obj with
  | some c => onLow (fun s => ((), s.update c fun k => { k with immortal := true }))
  | none => pure ()
  pure p

def updateContainer (c : ContainerId) (f : Container → Container) : Typing Unit :=
  onLow (fun s => ((), s.update c f))

/-- Puts a value into a field of a container, by the place of the field. -/
def setFieldAt (c : ContainerId) (i : Nat) (v : Datum) : Typing Unit :=
  updateContainer c fun k => { k with fields := k.fields.setIfInBounds i v }

/-- The container held by value as the first field. -/
def firstPart (c : ContainerId) : Typing ContainerId := do
  match ((← world).prog.low.get c).fields[0]? with
  | some (Datum.container p) => pure p
  | _ => pure c

/-! ## Low-level types of representations -/

/-- The structure of the strings of a width. -/
def textStruct (unicode : Bool) : Typing NodeId := do
  match (← get).texts.lookup unicode with
  | some n => pure n
  | none => do
    let chars ← addType (.array (if unicode then .unichar else .char) false true false)
    let name := if unicode then "rpy_unicode" else "rpy_string"
    let n ← addType (.struct name [("hash", .signed), ("chars", .node chars)]
      { immutableFields := ["chars"] } true)
    modify fun t => { t with texts := (unicode, n) :: t.texts }
    pure n

def tupleLayout (i : Nat) : Typing TupleLayout := return ((← get).tuples[i]?).getD default
def listLayout (i : Nat) : Typing ListLayout := return ((← get).lists[i]?).getD default
def dictLayout (i : Nat) : Typing DictLayout := return ((← get).dicts[i]?).getD default
def iterLayout (i : Nat) : Typing IterLayout := return ((← get).iters[i]?).getD default
def functionsLayout (i : Nat) : Typing FunctionsLayout := return ((← get).functionSets[i]?).getD default
def methodsLayout (i : Nat) : Typing MethodsLayout := return ((← get).methodSets[i]?).getD default
def classesLayout (i : Nat) : Typing ClassesLayout := return ((← get).classSets[i]?).getD default
def frozenLayout (i : Nat) : Typing FrozenLayout := return ((← get).frozenSets[i]?).getD default
def frozenMethodLayout (i : Nat) : Typing FrozenMethodLayout := return ((← get).frozenMethods[i]?).getD default
def methodLayout (i : Nat) : Typing MethodLayout := return ((← get).methods[i]?).getD default
def instanceLayout (c : Option ClassDefId) : Typing InstanceLayout := return ((← get).instances[c]?).getD default
def classLayout (c : Option ClassDefId) : Typing ClassLayout := return ((← get).classes[c]?).getD default

/-- Whether a set is one value that is known at compile time. -/
def isSingle (descs : List DescId) (nullable : Bool) : Bool := descs.length == 1 && !nullable

/-- The type of a pointer to the table of any class. -/
def tablePtr : Typing LowType := return .ptr (← classLayout none).table

/-- The low-level type of a representation; what wraps another representation has that one's type. -/
def lowTypeAux : (fuel : Nat) → Representation → Typing LowType
  | 0, _ => pure .void
  | n + 1, r => do
    match r with
    | .prim p => pure (.prim p)
    | .text u => return .ptr (← textStruct u)
    | .tuple i => return .ptr (← tupleLayout i).struct
    | .list i => return .ptr (← listLayout i).target
    | .dict i => return .ptr (← dictLayout i).target
    | .iter i => return .ptr (← iterLayout i).struct
    | .inst c => return .ptr (← instanceLayout c).target
    | .cls _ => tablePtr
    | .functions i => return ((← functionsLayout i).target.map LowType.ptr).getD .void
    | .methods i => do lowTypeAux n (.inst (← methodsLayout i).self)
    | .classes i => do
      let k ← classesLayout i
      if isSingle k.descs k.nullable then pure .void else tablePtr
    | .frozen i => return ((← frozenLayout i).struct.map LowType.ptr).getD .void
    | .frozenMethod i => do lowTypeAux n (← frozenMethodLayout i).self
    | .method i => do lowTypeAux n (← methodLayout i).self
    | .weakref c => return (((← get).weakrefs.lookup c).map LowType.ptr).getD .void
    | .funcPtr pointee => pure (.ptr pointee)
    | _ => pure .void

/-- Wrapping goes two levels deep at most. -/
def lowType (r : Representation) : Typing LowType := lowTypeAux 4 r

/-- The text of a representation. -/
def reprTextAux : (fuel : Nat) → Representation → Typing String
  | 0, _ => pure "..."
  | n + 1, r => do
    let w ← world
    let pbc (name : String) (ds : List DescId) (nullable : Bool) : String :=
      name ++ "(" ++ w.annotText (.pbc ds nullable) ++ ")"
    match r with
    | .impossible => pure "VoidRepr(impossible)"
    | .none => pure "VoidRepr(None)"
    | .prim p => pure (p.name ++ "Repr")
    | .text u => pure (if u then "UnicodeRepr" else "StringRepr")
    | .tuple i => return "TupleRepr(" ++ (w.prog.low.types.structName? (← tupleLayout i).struct).getD "" ++ ")"
    | .list i => do
      let k ← listLayout i
      match k.item with
      | none => pure "ListRepr(?)"
      | some item => return (if k.fixed then "FixedSizeListRepr(" else "ListRepr(") ++ (← reprTextAux n item) ++ ")"
    | .dict _ => pure "DictRepr"
    | .iter i => return "IteratorRepr(" ++ w.annotText (← iterLayout i).annot ++ ")"
    | .inst c => pure ("InstanceRepr(" ++ (c.map w.className).getD "object" ++ ")")
    | .cls c => pure ("ClassRepr(" ++ (c.map w.className).getD "object" ++ ")")
    | .functions i => do let k ← functionsLayout i; pure (pbc "FunctionsPBCRepr" k.descs k.nullable)
    | .methods i => return "MethodsPBCRepr(" ++ (← methodsLayout i).name ++ ")"
    | .classes i => do let k ← classesLayout i; pure (pbc "ClassesPBCRepr" k.descs k.nullable)
    | .frozen i => do let k ← frozenLayout i; pure (pbc "FrozenPBCRepr" k.descs k.nullable)
    | .frozenMethod i => return "MethodOfFrozenPBCRepr(" ++ (w.funcDesc (← frozenMethodLayout i).func).name ++ ")"
    | .builtin name => pure ("BuiltinRepr(" ++ name ++ ")")
    | .method i => return "BuiltinMethodRepr(" ++ (← methodLayout i).name ++ ")"
    | .weakref c => pure ("WeakRefRepr(" ++ w.annotText (.weakref c) ++ ")")
    | .funcPtr pointee => pure ("FnPtrRepr(" ++ w.prog.low.types.text (.ptr pointee) ++ ")")

def reprText (r : Representation) : Typing String := reprTextAux World.annotDepth r

/-- Whether instances start with a pointer to the table of their class. -/
def needsTypePtr : Typing Bool := do
  let t ← get
  pure (!t.noTypePtr && !t.policy.needNoTypePtr)

/-! ## Making operations -/

/-- A constant of a low-level type. -/
def typed (v : Datum) (t : LowType) : Operand := .const v (some t)

/-- A constant that takes no room at run time: the name of a field, a type. -/
def voidConst (v : Datum) : Operand := typed v .void

def fieldName (name : String) : Operand := voidConst (.str name)

def signedConst (n : Int) : Operand := typed (.int (Int64.ofInt n)) .signed

def boolConst (b : Bool) : Operand := typed (.bool b) .bool

/-- A fresh variable of a low-level type. -/
def newVar (name : String) (t : Option LowType) : Typing VarId := onFlow fun s =>
  let (v, s) := s.addVar name
  (v, s.updateVar v fun k => { k with concrete := t })

/-- Appends an operation and answers its result; the first unknown operation is remembered. -/
def emit (name : String) (args : List Operand) (result : LowType) : Typing Operand := do
  let v ← newVar "v" (some result)
  let unknown := (LowOp.lookup? name).isNone
  modify fun t => { t with out :=
    { t.out with
      ops := t.out.ops.push { name, args, result := some v }
      error := if unknown && t.out.error.isNone then
          some (.typing Code.missingOperation s!"unknown low-level operation {name}")
        else t.out.error } }
  pure (.var v)

def emitVoid (name : String) (args : List Operand) : Typing Unit := do let _ ← emit name args .void

/-- The next operation is the one that may raise. -/
def raisesHere : Typing Unit := modify fun t => { t with out := { t.out with raising := some t.out.ops.size } }

/-- Nothing raises. -/
def cannotRaise : Typing Unit := modify fun t => { t with out := { t.out with cannotRaise := true } }

/-- The function of the runtime system with a name and a type; functions of one name may differ in type. -/
def helper (name : String) (ft : NodeId) : Typing PtrValue := do
  let s ← types
  let known := (← get).helpers
  let find (k : String) : Option PtrValue := (known.find? (·.1 == k)).map Prod.snd
  let add (k : String) : Typing PtrValue := do
    let p ← onLow (LowStore.functionPtr ft name none)
    modify fun t => { t with helpers := t.helpers.push (k, p) }
    pure p
  match find name with
  | none => add name
  | some p =>
    if s.equal (.node p.pointee) (.node ft) then pure p
    else
      let k := name ++ s.text (.node ft)
      match find k with
      | some p => pure p
      | none => add k

/-- Calls a function of the runtime system. -/
def callHelper (name : String) (result : LowType) (args : List Operand) : Typing Operand := do
  let f ← flow
  let ft ← addType (.func (args.map fun a => (f.typeOf a).getD .void) result)
  let fn ← helper name ft
  emit "direct_call" (typed (.ptr fn) (.ptr ft) :: args) result

end Typing
end FlowCompiler
