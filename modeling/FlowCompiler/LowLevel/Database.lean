import FlowCompiler.Host.Program
import FlowCompiler.LowLevel.GcPolicy
import FlowCompiler.LowLevel.NameSupply

/-!
# The database of reachable objects

Starting from entry functions and prebuilt constants, the database collects every container, function
and type that can be reached through pointers, each of them once.  Containers inside others belong to
the outermost one.
-/

namespace FlowCompiler

inductive DefKind where
  | struct
  | array
  | fixed
  | handle
deriving DecidableEq

def DefKind.text : DefKind → String
  | .struct => "struct"
  | .array => "array"
  | .fixed => "fixedarray"
  | .handle => "opaque"

/-- The definition of a container type. -/
structure DefNode where
  type : NodeId
  kind : DefKind
  cname : String
  header : Option String := none
  /-- Fields with their types, types by name. -/
  fields : List (String × String) := []
  item : String := ""
  gc : Option GcInfo := none

/-- A prebuilt object. -/
structure ContainerNode where
  obj : ContainerId
  name : String
  type : NodeId
  header : List Datum := []

/-- A function; without a graph it is only declared. -/
structure FuncNode where
  obj : ContainerId
  name : String
  type : NodeId
  graph : Option GraphId

structure Database where
  policy : GcPolicy := .framework false
  rtti : List (NodeId × Rtti) := []
  /-- Definitions by type, those under construction included. -/
  known : List (NodeId × DefNode) := []
  /-- Finished definitions, in the order in which they were finished. -/
  defs : List DefNode := []
  containers : List ContainerNode := []
  funcs : List FuncNode := []
  names : NameSupply := {}
  typeIds : List (NodeId × Int) := []
  pending : List PtrValue := []
  buildInfos : List BuildInfo := []
  complete : Bool := false
deriving Inhabited

namespace Database

abbrev M := ReaderT Program (EStateM Failure Database)

def types : M Types := return (← read).low.types

/-- Characters outside names become underscores. -/
def identifier (s : String) : String :=
  s.map fun c => if c.isAlphanum || c = '_' then c else '_'

/-- A name in the generated code; repetitions are numbered. -/
def uniqueName (base : String) : M String := modifyGet fun d =>
  let (name, names) := d.names.fresh (identifier base)
  (name, { d with names })

def primitiveName (p : Primitive) : String :=
  match p.cls with
  | .void => "void"
  | .bool => "bool_t"
  | .char => "char"
  | .unichar => "Py_UCS4"
  | .float => if p.bits = 32 then "float" else "double"
  | .address => "void*"
  | .int =>
    if p.signed then (if p.bits = 64 then "Signed" else s!"int{p.bits}_t")
    else if p.bits = 64 then "Unsigned" else s!"uint{p.bits}_t"

/-- The number of a type for the collector, given on the first request. -/
def typeId (id : NodeId) : M Int := do
  let d ← get
  match d.typeIds.lookup id with
  | some n => pure n
  | none =>
    let n : Int := d.typeIds.length + 1
    set { d with typeIds := d.typeIds ++ [(id, n)] }
    pure n

def numbered (id : NodeId) : M Int := do
  if (← get).policy.numbersTypes then typeId id else pure 0

def setDef (id : NodeId) (n : DefNode) : M Unit :=
  modify fun d => { d with known := (id, n) :: d.known.filter (·.1 ≠ id) }

def dropDef (id : NodeId) : M Unit := modify fun d => { d with known := d.known.filter (·.1 ≠ id) }

def finish (id : NodeId) (n : DefNode) : M DefNode := do
  setDef id n
  modify fun d => { d with defs := d.defs ++ [n] }
  pure n

/-- A short name for the items of an array. -/
def itemTag (s : Types) (t : LowType) : String :=
  match s.resolve t with
  | .prim p => p.name
  | .ptr pointee => "ptr_" ++ (s.structName? (s.target pointee)).getD "item"
  | .node id => (s.structName? id).getD "item"

/-- Types and definitions ask for each other; this is the interface for one step less. -/
structure Naming where
  typeName : LowType → M String

/-- The type of a function in the generated code. -/
def funcTypeName (h : Naming) (args : List LowType) (result : LowType) : M String := do
  let res ← h.typeName result
  let args ← args.mapM h.typeName
  let args := if args.isEmpty then "void" else String.intercalate ", " args
  pure s!"{res} (*)({args})"

/-- Runs an action and forgets a definition under construction when it fails. -/
def orDrop {α : Type} (id : NodeId) (act : M α) : M α := tryCatch act fun f => do dropDef id; throw f

def structDef (h : Naming) (id : NodeId) (name : String) (fields : List (String × LowType)) (gc : Bool) : M DefNode := do
  let cname ← uniqueName ("pypy_" ++ name)
  let policy := (← get).policy
  let n : DefNode := { type := id, kind := .struct, cname := "struct " ++ cname, header := if gc then policy.header? else none }
  setDef id n
  let fs ← orDrop id ((fields.filter fun f => f.2 ≠ LowType.void).mapM fun (name, t) => do
    pure ("s_" ++ name, ← h.typeName t))
  let n := { n with fields := fs }
  if gc then
    let k ← numbered id
    finish id { n with gc := policy.structInfo name k ((← get).rtti.lookup id) }
  else finish id n

def arrayDef (h : Naming) (id : NodeId) (of : LowType) (gc : Bool) : M DefNode := do
  let cname ← uniqueName ("pypy_array_" ++ itemTag (← types) of)
  let n : DefNode := { type := id, kind := .array, cname := "struct " ++ cname }
  setDef id n
  let item ← orDrop id (h.typeName of)
  let policy := (← get).policy
  let n := { n with item, header := if gc then policy.header? else none }
  if gc && policy.numbersTypes then finish id { n with gc := some { typeId := ← typeId id } } else finish id n

/-- The definition of a container type, made on the first request. -/
def makeDef (h : Naming) (id : NodeId) : M DefNode := do
  let s ← types
  let id := s.target id
  match (← get).known.lookup id with
  | some n => pure n
  | none =>
    match s.node id with
    | .struct name fields _ gc => structDef h id name fields gc
    | .array of _ _ gc => arrayDef h id of gc
    | .fixed of k => do
      let item ← h.typeName of
      let cname ← uniqueName s!"pypy_fixarray{k}_{itemTag s of}"
      finish id { type := id, kind := .fixed, cname, item }
    | .handle tag _ _ => do
      let cname ← uniqueName ("pypy_opaque_" ++ tag)
      finish id { type := id, kind := .handle, cname := "struct " ++ cname }
    | .weakref _ => do
      let n : DefNode := { type := id, kind := .handle, cname := "struct pypy_weakref" }
      if (← get).policy.numbersTypes then finish id { n with gc := some { typeId := ← typeId id, isWeakRef := true } }
      else finish id n
    | _ => throw (.plain s!"no definition node for {s.nodeName id}")

def typeNameStep (h : Naming) (t : LowType) : M String := do
  let s ← types
  match s.resolve t with
  | .prim p => pure (primitiveName p)
  | .ptr pointee =>
    match s.container pointee with
    | .func args result => funcTypeName h args result
    | _ => return (← makeDef h pointee).cname ++ " *"
  | .node id => return (← makeDef h id).cname

/-- The failure of a type that is a part of itself without a structure or an array in between. -/
def tooDeep : Failure := .plain "type too deep"

def naming : (fuel : Nat) → Naming
  | 0 => { typeName := fun _ => throw tooDeep }
  | n + 1 => { typeName := fun t => typeNameStep (naming n) t }

/-- Steps enough for any store: structures and arrays are under construction once, and between two of them every
other node is passed at most once unless it is a part of itself. -/
def namingFuel : M Nat := return ((← types).nodes.size + 2) * ((← types).nodes.size + 2)

/-- The name of a type in the generated code. -/
def typeName (t : LowType) : M String := do (naming (← namingFuel)).typeName t

def defOf (id : NodeId) : M DefNode := do makeDef (naming (← namingFuel)) id

/-! ## Roots and closure -/

def addFunction (d : Database) (p : PtrValue) : Database := { d with pending := d.pending ++ [p], complete := false }

def addConstant (d : Database) (p : PtrValue) : Database :=
  if p.isNull then d else { d with pending := d.pending ++ [p], complete := false }

def addBuildInfo (d : Database) (b : BuildInfo) : Database :=
  if b.isEmpty then d else { d with buildInfos := d.buildInfos ++ [b] }

/-- The pointers inside values, containers held by value included. -/
def pointersAux (s : LowStore) : (fuel : Nat) → List Datum → List PtrValue
  | 0, _ => []
  | n + 1, vs => vs.flatMap fun v => match v with
    | .ptr p => if p.isNull then [] else [p]
    | .container c => pointersAux s n ((s.get c).fields.toList ++ (s.get c).items.toList)
    | _ => []

/-- The pointers that a container holds. -/
def pointersOf (s : LowStore) (c : ContainerId) : List PtrValue :=
  pointersAux s (s.containers.size + 1) ((s.get c).fields.toList ++ (s.get c).items.toList)

/-- The pointer that an operand is, when it is a constant. -/
def constantPointer : Operand → Option PtrValue
  | .const (.ptr q) _ => if q.isNull then none else some q
  | _ => none

/-- The pointer constants of a graph. -/
def graphPointers (p : Program) (g : GraphId) : List PtrValue :=
  (p.flow.blocksOf g).flatMap fun b =>
    let k := p.flow.block b
    (k.ops.flatMap fun op => op.args.filterMap constantPointer)
      ++ (k.exits.flatMap fun l => (p.flow.link l).args.filterMap constantPointer)

/-- The pointers that come with a function: those of its graph. -/
def functionPointers (p : Program) (c : ContainerId) : List PtrValue :=
  match (p.low.get c).graph with
  | some g => graphPointers p g
  | none => []

def visitFunc (c : ContainerId) (args : List LowType) (result : LowType) : M Unit := do
  let p ← read
  if (← get).funcs.any (·.obj == c) then pure ()
  else
    let o := p.low.get c
    let name ← uniqueName ("pypy_f_" ++ o.name)
    modify fun d => { d with funcs := d.funcs ++ [{ obj := c, name, type := o.type, graph := o.graph }] }
    (args ++ [result]).forM fun t => discard (typeName t)
    modify fun d => { d with pending := d.pending ++ functionPointers p c }

def containerTag (s : Types) (id : NodeId) : String :=
  match s.container id with
  | .struct name _ _ _ => name
  | .array _ _ _ _ => "array"
  | _ => "obj"

/-- The header of a prebuilt container. -/
def headerData (d : DefNode) : M (List Datum) := do
  if d.header.isNone then pure []
  else match (← get).policy with
    | .refcount => pure [.int GcPolicy.immortalCount]
    | .framework _ => return [.int (Int64.ofInt (← typeId d.type))]
    | .none => pure []

def visitContainer (c : ContainerId) : M Unit := do
  let p ← read
  if (← get).containers.any (·.obj == c) then pure ()
  else
    let o := p.low.get c
    let d ← defOf o.type
    let name ← uniqueName ("pypy_g_" ++ containerTag p.low.types o.type)
    let header ← if p.low.types.isGC o.type && (d.kind == .struct || d.kind == .array) then headerData d else pure []
    modify fun db => { db with
      containers := db.containers ++ [{ obj := c, name, type := d.type, header }]
      pending := db.pending ++ pointersOf p.low c }

def visit (q : PtrValue) : M Unit := do
  let p ← read
  match q.obj with
  | none => pure ()
  | some c =>
    match p.low.types.container (p.low.get c).type with
    | .func args result => visitFunc c args result
    | _ => visitContainer (p.low.top c)

def completeAux : (fuel : Nat) → M Unit
  | 0 => pure ()
  | n + 1 => do
    match (← get).pending with
    | [] => modify fun d => { d with complete := true }
    | q :: rest => do
      modify fun d => { d with pending := rest }
      visit q
      completeAux n

/-- Every container is expanded at most once as an object and once as a function, so the pointers that ever wait are
bounded by those that exist. -/
def completeFuel : M Nat := do
  let p ← read
  let waiting := (← get).pending.length
  pure ((List.range p.low.containers.size).foldl
    (fun n c => n + (pointersOf p.low c).length + (functionPointers p c).length) (waiting + 1))

/-- Collects everything reachable. -/
def completeAll : M Unit := do completeAux (← completeFuel)

/-! ## Queries -/

def nodeOf? (d : Database) (s : LowStore) (p : PtrValue) : Option ContainerNode :=
  p.obj.bind fun c => d.containers.find? (·.obj == s.top c)

def buildInfo (d : Database) : BuildInfo := BuildInfo.merge (d.policy.buildInfo :: d.buildInfos)

/-- The functions without a graph, sorted by name. -/
def external (d : Database) : List String :=
  ((d.funcs.filter (·.graph.isNone)).map FuncNode.name).mergeSort fun a b => decide (a ≤ b)

def incomplete : Failure := .plain "database is not complete"

end Database
end FlowCompiler

/-! ## The summary of a database

A summary is an indented outline: entries `name: value`, items with a dash, two blanks for each level.
A text that an outline would read as something else is put between single quotes. -/

namespace FlowCompiler

inductive Outline where
  | leaf (text : String)
  | items (xs : List Outline)
  | entries (es : List (String × Outline))

namespace Outline

/-- Characters that mean something at the start of a text. -/
def leading : List Char := ['#', ',', '[', ']', '\x7b', '\x7d', '&', '*', '!', '|', '>', '\x27', '\x22', '%', '@', '\x60']

/-- Whether a text can stand without quotes. -/
def isPlain (s : String) : Bool :=
  match s.toList with
  | [] => false
  | c :: r =>
    !leading.contains c && c ≠ ' ' && r.getLast? ≠ some ' '
      && !("- ".isPrefixOf s || "? ".isPrefixOf s || ": ".isPrefixOf s)
      && !((s.splitOn ": ").length > 1 || (s.splitOn " #").length > 1 || s.endsWith ":")

/-- A text, in quotes where it needs them; a quote inside is written twice. -/
def scalar (s : String) : String :=
  if isPlain s then s
  else if s = "" then "\"\""
  else "'" ++ s.replace "'" "''" ++ "'"

def indent (lines : List String) : List String := lines.map ("  " ++ ·)

/-- The lines of an item: a dash before the first, blanks before the others. -/
def dashed : List String → List String
  | [] => []
  | l :: ls => ("- " ++ l) :: indent ls

mutual

def lines : Outline → List String
  | leaf s => [scalar s]
  | items xs => itemLines xs
  | entries es => entryLines es

def itemLines : List Outline → List String
  | [] => []
  | x :: xs => dashed (lines x) ++ itemLines xs

def entryLines : List (String × Outline) → List String
  | [] => []
  | (k, v) :: es =>
    (match v with
      | leaf s => [k ++ ": " ++ scalar s]
      | items [] => [k ++ ": []"]
      | v => (k ++ ":") :: indent (lines v)) ++ entryLines es

end

def render (o : Outline) : String := String.join (o.lines.map (· ++ "\n"))

/-- A list of texts. -/
def texts (xs : List String) : Outline := items (xs.map leaf)

/-- An entry that is left out when its value is empty. -/
def optional (name : String) (xs : List String) : List (String × Outline) := if xs.isEmpty then [] else [(name, texts xs)]

def optionalText (name value : String) : List (String × Outline) := if value = "" then [] else [(name, leaf value)]

def flag (name : String) (b : Bool) : List (String × Outline) := if b then [(name, leaf "true")] else []

end Outline

open Outline

def GcInfo.outline (g : GcInfo) : Outline :=
  entries ([("type_id", leaf (toString g.typeId))] ++ flag "has_finalizer" g.hasFinalizer
    ++ flag "light_finalizer" g.lightFinalizer ++ flag "is_weakref" g.isWeakRef
    ++ optionalText "deallocator" g.deallocator)

def DefNode.outline (d : DefNode) : Outline :=
  let fields := d.fields.map fun (n, t) => entries [("name", leaf n), ("ctype", leaf t)]
  entries ([("name", leaf d.cname), ("kind", leaf d.kind.text)]
    ++ optionalText "gc_header" (d.header.getD "")
    ++ (if fields.isEmpty then [] else [("fields", items fields)])
    ++ optionalText "item" d.item
    ++ (match d.gc with
      | some g => [("gc", g.outline)]
      | none => []))

def BuildInfo.outline (b : BuildInfo) : Outline := Outline.entries (b.entries.flatMap fun (name, xs) => optional name xs)

namespace Database

/-- The summary of a complete database. -/
def outline (d : Database) : Outline :=
  entries ([("gc_policy", leaf d.policy.name), ("types", items (d.defs.map DefNode.outline)),
      ("containers", texts (d.containers.map ContainerNode.name)), ("functions", texts (d.funcs.map FuncNode.name))]
    ++ optional "external" d.external ++ optional "startup" d.policy.startup
    ++ (if d.buildInfo.isEmpty then [] else [("eci", d.buildInfo.outline)]))

/-- The text of the summary; an unfinished database has none. -/
def summary (d : Database) : Except Failure String :=
  if d.complete then .ok d.outline.render else .error incomplete

end Database
end FlowCompiler
