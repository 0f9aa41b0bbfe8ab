import FlowCompiler.Lowering.Object

/-!
# Calls

A call of a single known function is direct; one of several functions goes through a pointer, one of
several methods through the table of the class of the receiver.  The arguments are matched with the
parameters and converted to their representations, which all graphs that one pointer may call share.
-/

namespace FlowCompiler.Typing

/-! ## Arguments -/

/-- An argument at a call. -/
inductive Actual where
  /-- The argument of the operation with this number. -/
  | arg (i : Nat)
  /-- A value that has been lowered already. -/
  | value (v : Operand) (r : Representation)
  /-- A value known at compile time: a default, or a receiver that never changes. -/
  | const (d : Datum)
deriving Inhabited

def Actual.convert (h : HighOp) (dst : Representation) : Actual → Typing Operand
  | .arg i => inputArg h dst i
  | .value v r => convertVar v r dst
  | .const d => inputConst dst d

structure Actuals where
  positional : List Actual
  keywords : List (String × Actual) := []

/-- The items of a tuple that is passed as further arguments. -/
def starActuals (h : HighOp) (i : Nat) : Typing (List Actual) := do
  match h.repr i with
  | .tuple t => do
    let v ← inputArg h (.tuple t) i
    (List.range (← tupleLayout t).items.length).mapM fun j => do
      let (x, r) ← tupleItem t v j
      pure (.value x r)
  | r => do unrepresented s!"*args must be a tuple, got {← reprText r}"

/-- The arguments of a call operation. -/
def callActuals (h : HighOp) : Typing Actuals := do
  match h.op.name with
  | "simple_call" => pure { positional := ((List.range h.count).drop 1).map Actual.arg }
  | "call_args" => do
    match h.arg 1 with
    | .const (.shape shape) _ => do
      let n := shape.count.toNat
      let m := shape.keys.length
      let positional := (List.range n).map fun k => Actual.arg (k + 2)
      let keywords := shape.keys.zipIdx.map fun (name, k) => (name, Actual.arg (k + n + 2))
      let rest ← if shape.star then starActuals h (n + m + 2) else pure []
      pure { positional := positional ++ rest, keywords }
    | .const v _ => unrepresented s!"call_args shape is {HostStore.typeText v}"
    | .var _ => unrepresented "call_args without a constant shape"
  | name => unrepresented s!"{name} is not a call"

/-- Puts keyword arguments into the slots of the parameters that they name. -/
def placeKeywords (fn : String) (names : List String) (slots : List (Option Actual)) :
    List (String × Actual) → Typing (List (Option Actual))
  | [] => pure slots
  | (name, a) :: rest => do
    let i := names.findIdx (· == name)
    match slots[i]? with
    | some none => placeKeywords fn names (slots.set i (some a)) rest
    | _ => do
      let quoted := Quoted.quote name
      inconsistent s!"{fn}: bad keyword argument {quoted}"

/-- Fills the slots that are left with defaults. -/
def fillDefaults (fn : String) (names : List String) (defaults : List Datum) (slots : List (Option Actual)) :
    Typing (List Actual) := do
  let first : Int := names.length - defaults.length
  slots.zipIdx.mapM fun (slot, i) => do
    match slot with
    | some a => pure a
    | none =>
      if (i : Int) < first then
        let quoted := Quoted.quote ((names[i]?).getD "")
        inconsistent s!"{fn}: missing argument {quoted}"
      else pure (.const ((defaults[(i - first).toNat]?).getD .nil))

/-- Gives an argument to every parameter. -/
def assignArgs (fn : String) (sig : Signature) (defaults : List Datum) (positional : List Actual)
    (keywords : List (String × Actual)) : Typing (List Actual) := do
  let n := sig.args.length
  if positional.length > n && sig.vararg = "" then
    inconsistent s!"{fn} takes {n} arguments, got {positional.length}"
  let slots := (List.range n).map fun i => positional[i]?
  fillDefaults fn sig.args defaults (← placeKeywords fn sig.args slots keywords)

/-- Converts the arguments of the parameters of a graph, and those that are left over; answers also the representation of
the result. -/
def passArgs (h : HighOp) (fn : String) (sig : Signature) (g : GraphId) (slots rest : List Actual) :
    Typing (List Operand × Representation) := do
  let n := sig.args.length
  let w ← world
  let params := w.prog.flow.argsOf g
  let want := n + if sig.vararg = "" then 0 else 1
  if params.length ≠ want then
    inconsistent s!"graph {(w.prog.flow.graph g).name} has {params.length} arguments, call provides {want}"
  let out ← (params.zip slots).mapM fun (v, a) => do
    let dst ← bindingRepr (.var v)
    a.convert h dst
  let collected ← if sig.vararg = "" then pure [] else do
    let dst ← bindingRepr (.var ((params[n]?).getD 0))
    let mismatch : Typing (List Operand) :=
      inconsistent s!"{fn}: *{sig.vararg} does not match {rest.length} extra arguments"
    match dst with
    | .tuple t => do
      let items := (← tupleLayout t).items
      if items.length ≠ rest.length then mismatch
      else
        let vs ← (items.zip rest).mapM fun (r, a) => a.convert h r
        pure [← buildTuple t vs]
    | _ => mismatch
  let result ← bindingRepr (.var ((← flow).returnVar g))
  pure (out ++ collected, result)

/-- Matches the arguments of a call with the parameters of a graph and converts them; answers also the
representation of the result. -/
def matchArgs (h : HighOp) (fd : DescId) (g : GraphId) (self : Option Actual) : Typing (List Operand × Representation) := do
  let actuals ← callActuals h
  let positional := self.toList ++ actuals.positional
  let w ← world
  let desc := w.funcDesc fd
  let k := w.prog.host.func desc.func
  let slots ← assignArgs desc.name k.signature k.defaults positional actuals.keywords
  passArgs h desc.name k.signature g slots (positional.drop k.signature.args.length)

/-! ## Direct and indirect calls -/

/-- Calls a graph; answers the result and its representation. -/
def callGraph (h : HighOp) (fd : DescId) (g : GraphId) (self : Option Actual) : Typing (Operand × Representation) := do
  let (args, r) ← matchArgs h fd g self
  let fn ← callable g
  raisesHere
  let v ← emit "direct_call" (typed (.ptr fn) (.ptr fn.pointee) :: args) (← lowType r)
  pure (v, r)

/-- A call that was made at compile time: its result is a constant. -/
def foldedCall (h : HighOp) (fd : DescId) : Typing Lowered := do
  if h.resultAnnot.isConst then
    cannotRaise
    ok (← inputConst h.result (← Ana.constOf h.resultAnnot))
  else do unrepresented s!"call to {((← world).funcDesc fd).name} has no graph and no constant result"

def directCall (h : HighOp) (fd : DescId) (g : Option GraphId) (self : Option Actual) : Typing Lowered := do
  match g with
  | none => foldedCall h fd
  | some g => do
    let (v, r) ← callGraph h fd g self
    ok (← convertVar v r h.result)

/-- Calls through a pointer one of several graphs. -/
def indirectCall (h : HighOp) (fn : Operand) (fd : DescId) (graphs : List GraphId) (self : Option Actual) :
    Typing Lowered := do
  let (args, r) ← matchArgs h fd ((graphs.head?).getD 0) self
  raisesHere
  let v ← emit "indirect_call" (fn :: args ++ [voidConst (.graphs graphs)]) (← lowType r)
  ok (← convertVar v r h.result)

def argsOf (h : HighOp) : Typing CallArgs := Ana.argsOfCall h.op

def graphOf (h : HighOp) (d : DescId) (args : CallArgs) : Typing (Option GraphId) :=
  Ana.graphOfCall d args (some h.pos)

def isCall (h : HighOp) : Bool := h.name = "simple_call" || h.name = "call_args"

/-! ## Functions -/

/-- The row in which all graphs of a call are. -/
def rowIndex (k : FunctionsLayout) (graphs : List (DescId × GraphId)) : Typing Nat := do
  match k.rows.findIdx? fun row => graphs.all fun (d, g) => row.lookup d == some g with
  | some i => pure i
  | none => do
    inconsistent s!"call site of {(← world).annotText (.pbc k.descs k.nullable)} is not in its call family"

def lowerFunctions (i : Nat) : Lowering := fun h => do
  if !isCall h then pure .noMethod
  else
    let args ← argsOf h
    let k ← functionsLayout i
    let first := (k.descs.head?).getD 0
    match k.target with
    | none => do directCall h first (← graphOf h first args) none
    | some _ => do
      let graphs ← k.descs.mapM fun d => do
        match ← graphOf h d args with
        | some g => pure (d, g)
        | none => do
          unrepresented s!"{((← world).funcDesc d).name} is evaluated at compile time and cannot be called through a pointer"
      let row ← rowIndex k graphs
      let v ← inputArg h (.functions i) 0
      let fn ← match k.struct with
        | some _ => emit "getfield" [v, fieldName (variantField row)] (.ptr ((k.types[row]?).getD 0))
        | none => pure v
      indirectCall h fn first (graphs.map Prod.snd) none

/-! ## Methods -/

def lowerMethodsCall (k : MethodsLayout) : Lowering := fun h => do
  let args ← argsOf h
  let self ← inputArg h (.inst k.self) 0
  let actual := some (Actual.value self (.inst k.self))
  match k.funcs with
  | [f] => do directCall h f (← graphOf h ((k.descs.head?).getD 0) args) actual
  | _ => do
    let graphs ← k.descs.mapM fun d => do
      match ← graphOf h d args with
      | some g => pure g
      | none => unrepresented s!"method {k.name} is evaluated at compile time and cannot be dispatched"
    let table ← typePtrOf k.self self
    let (fn, _) ← classAttr k.self table k.name
    indirectCall h fn ((k.funcs.head?).getD 0) graphs actual

def lowerMethods (i : Nat) : Lowering := fun h => do
  if isCall h then lowerMethodsCall (← methodsLayout i) h
  else if h.name = "bool" then ok (boolConst true)
  else pure .noMethod

/-! ## Classes -/

/-- Makes an instance of the class of a table. -/
def instantiateVia (h : HighOp) (table : Operand) : Typing Lowered := do
  let root ← instanceRepr none
  let t ← lowType root
  let fnType := (((← types).fieldType? (← rootTable) "instantiate")).getD .void
  let fn ← emit "getfield" [table, fieldName "instantiate"] fnType
  let v ← emit "indirect_call" [fn, voidConst .nil] t
  ok (← convertVar v root h.result)

/-- A call of one of several classes; they may have no constructor. -/
def lowerVariableClass (k : ClassesLayout) : Lowering := fun h => do
  let set : Typing String := return (← world).annotText (.pbc k.descs k.nullable)
  for d in k.descs do
    match ← (Ana.readClassAttr d "__init__" : Typing Annot) with
    | .pbc _ _ => do unrepresented s!"calling a variable class with __init__ ({← set})"
    | _ => pure ()
  if h.count > 1 then unrepresented s!"classes in {← set} take no arguments"
  let root ← typeRepr
  instantiateVia h (← inputArg h root 0)

/-- The constructor of a class, when it is one function. -/
def constructor? (d : DescId) : Typing (Option DescId) := do
  match ← (Ana.readClassAttr d "__init__" : Typing Annot) with
  | .pbc [f] _ => do
    match (← world).desc f with
    | .function _ => pure (some f)
    | _ => pure none
  | _ => pure none

/-- A call of one class: allocates an instance and runs the constructor. -/
def lowerClassCall (k : ClassesLayout) : Lowering := fun h => do
  let d := (k.descs.head?).getD 0
  let name := ((← world).classDesc d).name
  match h.resultAnnot with
  | .inst (some c) _ _ => do
    let r ← instanceRepr (some c)
    let v ← allocInstance (some c)
    match ← constructor? d with
    | some f => do
      let args ← argsOf h
      let md ← (Ana.methodDesc { func := f, origin := c, self := some c, name := "__init__" } : Typing DescId)
      match ← graphOf h md args with
      | none => unrepresented s!"{name}.__init__ has no graph"
      | some g => do
        let _ ← callGraph h f g (some (.value v r))
    | none => pure ()
    ok (← convertVar v r h.result)
  | _ => unrepresented s!"calling {name} does not produce an instance"

def lowerClasses (i : Nat) : Lowering := fun h => do
  let k ← classesLayout i
  if isCall h then
    if isSingle k.descs k.nullable then lowerClassCall k h else lowerVariableClass k h
  else if h.name = "getattr" then
    let attr ← constString h 1
    let table ← inputArg h (← typeRepr) 0
    layouts.cls k.common
    let (v, r) ← classAttr k.common table attr
    ok (← convertVar v r h.result)
  else if h.name = "issubtype" then lowerClass none h
  else pure .noMethod

/-! ## Frozen instances -/

def lowerFrozen (i : Nat) : Lowering := fun h => do
  if h.name ≠ "getattr" then pure .noMethod
  else
    let attr ← constString h 1
    let k ← frozenLayout i
    match k.fields.lookup attr, k.struct with
    | some f, some _ => do
      let v ← inputArg h (.frozen i) 0
      let res ← emit "getfield" [v, fieldName f.name] (← lowType f.repr)
      ok (← convertVar res f.repr h.result)
    | _, _ =>
      if h.resultAnnot.isConst then do ok (← inputConst h.result (← Ana.constOf h.resultAnnot))
      else do
        let name := Quoted.quote attr
        unrepresented s!"{← reprText (.frozen i)} has no attribute {name}"

def lowerFrozenMethod (i : Nat) : Lowering := fun h => do
  if !isCall h then pure .noMethod
  else
    let args ← argsOf h
    let k ← frozenMethodLayout i
    let d := (k.descs.head?).getD 0
    let g ← graphOf h d args
    let self ← if isSingle k.descs k.nullable then do
        match (← world).desc d with
        | .frozenMethod _ z => pure (Actual.const (← Ana.valueOfDesc z))
        | _ => pure (.const .nil)
      else do pure (Actual.value (← inputArg h k.self 0) k.self)
    directCall h k.func g (some self)

end FlowCompiler.Typing
