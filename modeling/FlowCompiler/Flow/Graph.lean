import FlowCompiler.Host.Datum
import FlowCompiler.Text.Quoted

/-!
# Flow graphs

A function is a graph of blocks.  A block takes inputs, runs operations and leaves through one of its
links, which pass arguments to the inputs of their target.  Variables, blocks, links and graphs are
numbered and kept in one store; variables and blocks are numbered from one, as they are shown.
-/

namespace FlowCompiler

abbrev VarId := Nat
abbrev BlockId := Nat
abbrev LinkId := Nat

structure Variable where
  name : String
  /-- The low-level type, once typing has chosen it. -/
  concrete : Option LowType := none
deriving Inhabited

/-- An argument of an operation or a link. -/
inductive Operand where
  | var (v : VarId)
  | const (value : Datum) (concrete : Option LowType)
deriving DecidableEq, Inhabited

namespace Operand

/-- A constant without a low-level type. -/
def ofDatum (d : Datum) : Operand := const d none

def var? : Operand → Option VarId
  | var v => some v
  | const _ _ => none

/-- The mark of a block whose last operation may raise. -/
def lastException : Operand := const .lastException none

end Operand

structure FlowOp where
  name : String
  args : List Operand
  result : Option VarId
deriving Inhabited

structure Link where
  args : List Operand
  target : BlockId
  prev : Option BlockId := none
  /-- The value of the switch, or the class of the exception, for which the link is taken. -/
  exitCase : Datum := .nil
  lastException : Option Operand := none
  lastExcValue : Option Operand := none
deriving Inhabited

structure Block where
  inputs : List VarId
  ops : List FlowOp := []
  exitSwitch : Option Operand := none
  exits : List LinkId := []
  isReturn : Bool := false
  isExcept : Bool := false
deriving Inhabited

namespace Block

/-- Whether the last operation may raise to a handler of this block. -/
def canRaise (b : Block) : Bool :=
  match b.exitSwitch with
  | some (.const .lastException _) => true
  | _ => false

def raisingOp? (b : Block) : Option FlowOp := if b.canRaise then b.ops.getLast? else none

def isFinal (b : Block) : Bool := b.exits.isEmpty

end Block

structure Signature where
  args : List String := []
  vararg : String := ""
  kwarg : String := ""
deriving DecidableEq, Inhabited

/-- The number of parameters, collectors included. -/
def Signature.arity (s : Signature) : Nat :=
  s.args.length + (if s.vararg = "" then 0 else 1) + (if s.kwarg = "" then 0 else 1)

structure Graph where
  name : String
  start : Option BlockId
  ret : BlockId
  exc : BlockId
  signature : Signature := {}
  defaults : List Datum := []
  func : Option FuncId := none
deriving Inhabited

/-- A place in the analysis: graph, block and operation.  What is analysed outside of every graph has a
place without graph and block. -/
structure PosKey where
  graph : Option GraphId := none
  block : Option BlockId := none
  index : Int := 0
deriving DecidableEq, Hashable, Repr, Inhabited

structure FlowStore where
  vars : Array Variable := #[]
  blocks : Array Block := #[]
  links : Array Link := #[]
  graphs : Array Graph := #[]
deriving Inhabited

namespace FlowStore

def var (s : FlowStore) (v : VarId) : Variable := (s.vars[v - 1]?).getD default
def block (s : FlowStore) (b : BlockId) : Block := (s.blocks[b - 1]?).getD default
def link (s : FlowStore) (l : LinkId) : Link := (s.links[l]?).getD default
def graph (s : FlowStore) (g : GraphId) : Graph := (s.graphs[g]?).getD default

/-- A name left empty is that of an unnamed value. -/
def addVar (s : FlowStore) (name : String) : VarId × FlowStore :=
  (s.vars.size + 1, { s with vars := s.vars.push { name := if name = "" then "v" else name } })

def addBlock (s : FlowStore) (b : Block) : BlockId × FlowStore :=
  (s.blocks.size + 1, { s with blocks := s.blocks.push b })

def addLink (s : FlowStore) (l : Link) : LinkId × FlowStore :=
  (s.links.size, { s with links := s.links.push l })

def addGraph (s : FlowStore) (g : Graph) : GraphId × FlowStore :=
  (s.graphs.size, { s with graphs := s.graphs.push g })

def updateVar (s : FlowStore) (v : VarId) (f : Variable → Variable) : FlowStore :=
  { s with vars := s.vars.modify (v - 1) f }

def updateBlock (s : FlowStore) (b : BlockId) (f : Block → Block) : FlowStore :=
  { s with blocks := s.blocks.modify (b - 1) f }

def updateLink (s : FlowStore) (l : LinkId) (f : Link → Link) : FlowStore :=
  { s with links := s.links.modify l f }

def updateGraph (s : FlowStore) (g : GraphId) (f : Graph → Graph) : FlowStore :=
  { s with graphs := s.graphs.modify g f }

/-- Gives a block its exits. -/
def closeBlock (s : FlowStore) (b : BlockId) (ls : List LinkId) : FlowStore :=
  let s := ls.foldl (fun s l => s.updateLink l fun k => { k with prev := some b }) s
  s.updateBlock b fun k => { k with exits := ls }

def varText (s : FlowStore) (v : VarId) : String := s!"{(s.var v).name}_{v}"
def blockAt (b : BlockId) : String := s!"@{b}"
def blockText (b : BlockId) : String := "block" ++ blockAt b

/-- The type of an operand, when typing has chosen one. -/
def typeOf (s : FlowStore) : Operand → Option LowType
  | .var v => (s.var v).concrete
  | .const _ t => t

/-! ## Reachable parts -/

/-- Depth first from a stack of blocks, the first exit first. -/
def reachAux (s : FlowStore) : (fuel : Nat) → (stack seen : List BlockId) → List BlockId
  | 0, _, seen => seen.reverse
  | _, [], seen => seen.reverse
  | n + 1, b :: stack, seen =>
    if seen.contains b then s.reachAux n stack seen
    else
      let seen := b :: seen
      let targets := ((s.block b).exits.map fun l => (s.link l).target).filter fun t => !seen.contains t
      s.reachAux n (targets ++ stack) seen

/-- Every block waits on the stack at most once for each link into it. -/
def reachFuel (s : FlowStore) : Nat :=
  (List.range (s.blocks.size + 1)).foldl (fun n b => n + (s.block b).exits.length) 2

/-- The blocks reachable from the start, depth first. -/
def blocksOf (s : FlowStore) (g : GraphId) : List BlockId :=
  match (s.graph g).start with
  | some b => s.reachAux s.reachFuel [b] []
  | none => []

def argsOf (s : FlowStore) (g : GraphId) : List VarId :=
  match (s.graph g).start with
  | some b => (s.block b).inputs
  | none => []

def returnVar (s : FlowStore) (g : GraphId) : VarId := ((s.block (s.graph g).ret).inputs.head?).getD 0

end FlowStore
end FlowCompiler

/-! ## Well-formed graphs

A graph is well formed when every variable has one definition, is used after it and in its block, when
links pass what their targets take, and when exits fit the exit switch. -/

namespace FlowCompiler.FlowStore

/-- What the check knows: the block of every definition met so far. -/
abbrev Definitions := List (VarId × BlockId)

/-- The state inside a block: definitions of the graph, and those of the block. -/
abbrev Scope := Definitions × List VarId

def malformed {α : Type} (name text : String) : Except Failure α := .error (.plain s!"{name}: {text}")

/-- Records the definition of a variable in a block. -/
def checkDef (s : FlowStore) (name : String) (b : BlockId) (scope : Scope) (v : VarId) : Except Failure Scope :=
  match scope.1.lookup v with
  | some other =>
    if other ≠ b then
      malformed name s!"variable {s.varText v} defined in {blockText other} and {blockText b}"
    else malformed name s!"variable {s.varText v} defined twice in {blockText b}"
  | none => .ok ((v, b) :: scope.1, v :: scope.2)

/-- A variable is used only after its definition in the block. -/
def checkUse (s : FlowStore) (name what : String) (b : BlockId) (scope : Scope) : Operand → Except Failure Unit
  | .var v =>
    if scope.2.contains v then .ok ()
    else malformed name s!"{what} uses undefined {s.varText v} in {blockText b}"
  | .const _ _ => .ok ()

def checkOp (s : FlowStore) (name : String) (b : BlockId) (scope : Scope) (op : FlowOp) : Except Failure Scope := do
  for a in op.args do
    s.checkUse name op.name b scope a
  match op.result with
  | some v => s.checkDef name b scope v
  | none => .ok scope

/-- The exit switch and the number of exits fit together. -/
def checkSwitch (s : FlowStore) (name : String) (b : BlockId) (scope : Scope) : Except Failure Unit := do
  let k := s.block b
  if (k.isReturn || k.isExcept) && !k.exits.isEmpty then malformed name s!"final {blockText b} has exits"
  match k.exitSwitch with
  | some sw =>
    if !k.canRaise then
      s.checkUse name "exitswitch" b scope sw
      if k.exits.length < 2 then malformed name s!"switch {blockText b} needs at least two exits"
    else if k.ops.isEmpty then malformed name s!"raising {blockText b} has no operations"
  | none =>
    if !k.isFinal && k.exits.length ≠ 1 then malformed name s!"{blockText b} without exitswitch must have one exit"

/-- A link passes one argument for every input of its target; the variables of the exception need no
definition. -/
def checkLink (s : FlowStore) (name : String) (b : BlockId) (scope : Scope) (l : Link) : Except Failure Unit := do
  let takes := (s.block l.target).inputs.length
  if l.args.length ≠ takes then
    malformed name
      s!"link {blockText b} -> {blockText l.target} passes {l.args.length} args, target takes {takes}"
  for a in l.args do
    if some a ≠ l.lastException && some a ≠ l.lastExcValue then
      s.checkUse name "link" b scope a

def checkBlock (s : FlowStore) (name : String) (defs : Definitions) (b : BlockId) : Except Failure Definitions := do
  let k := s.block b
  let scope ← k.inputs.foldlM (s.checkDef name b) ((defs, []) : Scope)
  let scope ← k.ops.foldlM (s.checkOp name b) scope
  s.checkSwitch name b scope
  for l in k.exits do
    s.checkLink name b scope (s.link l)
  .ok scope.1

/-- Checks a whole graph, block by block. -/
def checkGraph (s : FlowStore) (g : GraphId) : Except Failure Unit := do
  let k := s.graph g
  if k.start.isNone then malformed k.name "missing start or return block"
  if (s.block k.ret).inputs.length ≠ 1 then malformed k.name "return block must have exactly one input"
  let _ ← (s.blocksOf g).foldlM (s.checkBlock k.name) ([] : Definitions)
  .ok ()

end FlowCompiler.FlowStore
