import FlowCompiler.Lowering.Dispatch
import FlowCompiler.Lowering.Families

/-!
# Lowering blocks and links

The operations of a block are replaced by the operations they are lowered to.  Where the argument of a link
must be converted for the input that it is passed to, a block with the conversions is put on the link; where
operations follow the one that may raise, they move to a block on the normal exit.
-/

namespace FlowCompiler.Typing

/-! ## Moving operations to a block of their own -/

/-- A renaming of variables. -/
abbrev Renames := List (VarId × VarId)

def Renames.apply (names : Renames) : Operand → Operand
  | .var v => .var ((names.lookup v).getD v)
  | o => o

def Renames.applyOp (names : Renames) (op : FlowOp) : FlowOp := { op with args := op.args.map names.apply }

/-- A copy of a variable. -/
def copyVar (f : FlowStore) (v : VarId) : VarId × FlowStore :=
  let k := f.var v
  let (c, f) := f.addVar k.name
  (c, f.updateVar c fun x => { x with concrete := k.concrete })

/-- Copies of variables. -/
def copyVars (f : FlowStore) : List VarId → Renames × FlowStore
  | [] => ([], f)
  | v :: rest =>
    let (c, f) := copyVar f v
    let (names, f) := copyVars f rest
    ((v, c) :: names, f)

/-- Puts a block on a link: the variables `vars` are passed to it, it runs `ops` and passes `args` on to the
target of the link. -/
def interpose (f : FlowStore) (l : LinkId) (vars : List VarId) (ops : List FlowOp) (args : List Operand) : FlowStore :=
  let (names, f) := copyVars f vars
  let (b, f) := f.addBlock { inputs := names.map Prod.snd, ops := ops.map names.applyOp }
  let (k, f) := f.addLink { args := args.map names.apply, target := (f.link l).target }
  let f := f.closeBlock b [k]
  f.updateLink l fun x => { x with args := vars.map Operand.var, target := b }

/-- The variables among operands, each once. -/
def varsOf (os : List Operand) : List VarId := (os.filterMap Operand.var?).eraseDups

/-- Moves operations of a block to a block on its normal exit. -/
def splitBlock (f : FlowStore) (b : BlockId) (moved : List FlowOp) : FlowStore :=
  match (f.block b).exits with
  | [] => f
  | normal :: _ =>
    let args := (f.link normal).args
    let defined := moved.filterMap FlowOp.result
    let used := varsOf (moved.flatMap FlowOp.args ++ args)
    interpose f normal (used.filter fun v => !defined.contains v) moved args

/-! ## Links -/

/-- The representations of an exception: its class and the instance. -/
def exceptionReprs : Typing (Representation × Representation) := do
  let root ← instanceRepr none
  return (← typeRepr, root)

/-- The representation of an input of a block. -/
def inputRepr (g : GraphId) (b : BlockId) (i : Nat) : Typing Representation := do
  let f ← flow
  if b = (f.graph g).exc then
    let (t, v) ← exceptionReprs
    pure (if i = 0 then t else v)
  else bindingRepr (.var (((f.block b).inputs[i]?).getD 0))

def setConcrete (v : VarId) (t : LowType) : Typing Unit :=
  changeFlow fun f => f.updateVar v fun k => { k with concrete := some t }

/-- An argument of a link, converted for the input it is passed to. -/
def linkArg (g : GraphId) (l : Link) (o : Operand) (i : Nat) : Typing Operand := do
  let dst ← inputRepr g l.target i
  match o with
  | .const _ (some _) => pure o
  | .const d none => inputConst dst d
  | .var v => do
    let src ← if l.lastException = some (.var v) then typeRepr else bindingRepr (.var v)
    if ((← flow).var v).concrete.isNone then setConcrete v (← lowType src)
    convertVar (.var v) src dst

def lowerLink (g : GraphId) (id : LinkId) : Typing Unit := do
  modify fun t => { t with out := {} }
  let l := (← flow).link id
  let args ← l.args.zipIdx.mapM fun (o, i) => linkArg g l o i
  let out := (← get).out
  if let some f := out.error then throw f
  if out.ops.isEmpty then changeFlow fun f => f.updateLink id fun k => { k with args }
  else changeFlow fun f => interpose f id (varsOf l.args) out.ops.toList args

/-! ## Blocks -/

/-- Attaches a place to a failure of typing. -/
def atPlace (pos : Position) : Failure → Failure
  | .typer r none => .typer (r.located pos) none
  | f => f

def located {α : Type} (g : GraphId) (b : BlockId) (i : Int) (m : Typing α) : Typing α := do
  let pos : Position := { graph := ((← flow).graph g).name, block := b, op := i }
  tryCatch m fun f => throw (atPlace pos f)

def highOp (op : FlowOp) (pos : PosKey) (handlers : List LinkId) : Typing HighOp := do
  let annotated ← op.args.mapM fun o => do
    let a ← bindingOf o
    pure (a, ← reprOf a)
  let resultAnnot ← match op.result with
    | some v => bindingOf (.var v)
    | none => pure .impossible
  let result ← reprOf resultAnnot
  pure { op, pos, name := op.name, args := op.args, annots := annotated.map Prod.fst, reprs := annotated.map Prod.snd,
         resultAnnot, result, handlers }

/-- Lowers one operation of a block; answers its low-level operations and those that must move behind the
normal exit. -/
def lowerBlockOp (g : GraphId) (b : BlockId) (i : Nat) (op : FlowOp) (isLast : Bool) :
    Typing (List FlowOp × List FlowOp) := do
  let k := (← flow).block b
  let raising := k.canRaise && isLast
  modify fun t => { t with out := {} }
  located g b i do
    let h ← highOp op { graph := some g, block := some b, index := i } (if raising then k.exits.drop 1 else [])
    lowerOp h
  let out := (← get).out
  let ops := out.ops.toList
  if !raising then pure (ops, [])
  else if out.cannotRaise || ops.isEmpty then
    changeFlow fun f => restrictExits f b (k.exits.take 1)
    pure (ops, [])
  else match out.raising with
    | some j => pure (ops.take (j + 1), ops.drop (j + 1))
    | none => pure (ops, [])

def lowerBlockOps (g : GraphId) (b : BlockId) : (i : Nat) → List FlowOp → Typing (List FlowOp × List FlowOp)
  | _, [] => pure ([], [])
  | i, op :: rest => do
    let (ops, moved) ← lowerBlockOp g b i op rest.isEmpty
    let (more, movedLater) ← lowerBlockOps g b (i + 1) rest
    pure (ops ++ more, moved ++ movedLater)

def lowerBlock (g : GraphId) (b : BlockId) : Typing Unit := do
  for (v, i) in ((← flow).block b).inputs.zipIdx do
    setConcrete v (← lowType (← inputRepr g b i))
  let (ops, moved) ← lowerBlockOps g b 0 ((← flow).block b).ops
  changeFlow fun f => f.updateBlock b fun k => { k with ops }
  for l in ((← flow).block b).exits do
    located g b (-1) (lowerLink g l)
  if !moved.isEmpty then changeFlow fun f => splitBlock f b moved
  match ((← flow).block b).exitSwitch with
  | some (.var v) => do
    if ((← flow).var v).concrete.isNone then setConcrete v (← lowType (← bindingRepr (.var v)))
  | _ => pure ()

def lowerGraph (g : GraphId) : Typing Unit := do
  let (t, v) ← exceptionReprs
  let f ← flow
  match (f.block (f.graph g).exc).inputs with
  | a :: b :: _ => do
    setConcrete a (← lowType t)
    setConcrete b (← lowType v)
  | _ => pure ()
  let ret := f.returnVar g
  setConcrete ret (← lowType (← bindingRepr (.var ret)))
  for b in (← flow).blocksOf g do
    let w ← world
    if !(w.prog.flow.block b).isFinal && isAnnotated w b then lowerBlock g b

/-! ## Finalizers -/

def lightKinds : List String :=
  ["int_", "uint_", "llong_", "ullong_", "float_", "cast_", "bool_", "char_", "unichar_", "ptr_"]

def lightNames : List String :=
  [ "same_as", "raw_free", "debug_print", "keepalive", "getfield", "getfield_pure", "getsubstruct", "getarrayitem",
    "getarraysize", "getinteriorfield" ]

/-- Whether an operation may stand in a light finalizer, one that neither allocates nor calls nor stores a
pointer to a collected object. -/
def isLight (w : World) (op : FlowOp) : Bool :=
  lightNames.contains op.name
    || (["setfield", "setarrayitem", "setinteriorfield"].contains op.name
        && (match (op.args.getLast?).bind w.prog.flow.typeOf with
          | some t => !w.prog.low.types.isGCPtr t
          | none => true))
    || lightKinds.any fun k => op.name.startsWith k

/-- The first operation of a graph that is not light. -/
def heavyOp? (w : World) (g : GraphId) : Option FlowOp :=
  (w.prog.flow.blocksOf g).findSome? fun b => (w.prog.flow.block b).ops.find? fun op => !isLight w op

/-- Whether the class of an instance structure insists on a light finalizer. -/
def mustBeLight (w : World) (t : Typer) (struct : NodeId) : Bool :=
  t.instances.toList.any fun (c, k) => k.struct == struct && match c with
    | some d =>
      match w.prog.host.classLookup? (w.classDesc (w.classDef d).desc).cls "_must_be_light_finalizer_" with
      | some (.bool b, _) => b
      | _ => false
    | none => false

/-- Marks the light finalizers. -/
def checkFinalizers : Typing Unit := do
  let w ← world
  let t ← get
  let name (s : NodeId) : String := (w.prog.low.types.structName? s).getD ""
  for (s, g) in t.finalizers.mergeSort fun a b => name a.1 ≤ name b.1 do
    match heavyOp? w g with
    | none => modify fun t => { t with rtti := t.rtti.map fun (k, r) => if k = s then (k, { r with light := true }) else (k, r) }
    | some op =>
      if mustBeLight w t s then
        fail Code.finalizerNotLight
          s!"{name s}: finalizer {(w.prog.flow.graph g).name} is not light: it contains {op.name}"

/-! ## The whole program -/

/-- Lowers all graphs that the analysis has met. -/
def lowerProgram : Typing Unit := do
  normalizeFamilies 10
  modifyThe World numberClasses
  let graphs := (← world).progress.graphs
  for g in graphs do
    modifyThe World fun w => cutDeadLinks w g
  for c in List.range (← world).classDefs.size do
    let _ ← instanceRepr (some (c + 1))
  for g in graphs do
    lowerGraph g
  checkFinalizers

end FlowCompiler.Typing
