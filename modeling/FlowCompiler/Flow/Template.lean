import FlowCompiler.Host.Program

/-!
# Graphs from templates

Building a graph numbers its parts in a fixed order: for every block its inputs and the block itself,
then the return and the exception block, then block by block the operations and the exits.
-/

namespace FlowCompiler.GraphTemplate

/-- The state of building: the program, the variables by name and the blocks by name. -/
structure Building where
  prog : Program
  shares : Bool
  labels : List (String × String) := []
  vars : List (String × VarId) := []
  blocks : List (String × BlockId) := []

abbrev M := StateM Building

def onFlow {α : Type} (f : FlowStore → α × FlowStore) : M α := fun b =>
  let (a, flow) := f b.prog.flow
  (a, { b with prog := { b.prog with flow } })

/-- A new variable for a name, unless repeated names mean the same variable. -/
def define (name : String) : M VarId := do
  let b ← get
  match (if b.shares then b.vars.lookup name else none) with
  | some v => pure v
  | none => do
    let v ← onFlow (·.addVar ((b.labels.lookup name).getD name))
    modify fun b => { b with vars := (name, v) :: b.vars }
    pure v

/-- The variable of a name, made on the spot when it is unknown. -/
def mention (name : String) : M VarId := do
  match (← get).vars.lookup name with
  | some v => pure v
  | none => define name

def literal (l : Literal) : M Datum := fun b =>
  let (ds, host) := b.prog.host.evalLiteral l
  (ds.headD .nil, { b with prog := { b.prog with host } })

def argument : ArgTemplate → M Operand
  | .name n => return .var (← mention n)
  | .literal l => return .const (← literal l) none

def targetOf (name : String) : M BlockId := do pure (((← get).blocks.lookup name).getD 0)

def link (j : JumpTemplate) (exitCase : Datum) : M LinkId := do
  let args ← j.args.mapM argument
  let target ← targetOf j.target
  onFlow (·.addLink { args, target, exitCase })

def operation (t : OpTemplate) : M FlowOp := do
  let args ← t.args.mapM argument
  let result ← match t.result with
    | some r => do pure (some (← define r))
    | none => pure none
  pure { name := t.name, args, result }

/-- A link to a handler: it passes the exception's type and value first. -/
def handlerLink (h : Literal × JumpTemplate) : M LinkId := do
  let cls ← literal h.1
  let etype ← onFlow (·.addVar "last_exception")
  let evalue ← onFlow (·.addVar "last_exc_value")
  let args ← h.2.args.mapM argument
  let target ← targetOf h.2.target
  onFlow (·.addLink { args := .var etype :: .var evalue :: args, target, exitCase := cls,
                      lastException := some (.var etype), lastExcValue := some (.var evalue) })

/-- The switch and the links of an exit. -/
def exits : ExitTemplate → M (Option Operand × List LinkId)
  | .none => pure (none, [])
  | .ret v => return (none, [← link ⟨"RETURN", [v]⟩ .nil])
  | .jump j => return (none, [← link j .nil])
  | .branch c f t => do
    let c ← argument c
    let lf ← link f (.bool false)
    let lt ← link t (.bool true)
    pure (some c, [lf, lt])
  | .raise args => return (none, [← link ⟨"EXCEPT", args⟩ .nil])
  | .switch v cases => do
    let v ← argument v
    let ls ← cases.mapM fun (c, j) => do
      let c ← literal c
      link j c
    pure (some v, ls)
  | .catching normal handlers => do
    let l ← link normal .nil
    let ls ← handlers.mapM handlerLink
    pure (some .lastException, l :: ls)
  | .links ls => return (none, ← ls.mapM (link · .nil))

/-- The inputs of a block and the block. -/
def openBlock (t : BlockTemplate) : M BlockId := do
  let inputs ← t.inputs.mapM define
  let b ← onFlow (·.addBlock { inputs })
  modify fun s => { s with blocks := s.blocks ++ [(t.name, b)] }
  pure b

/-- The operations and the exits of an open block. -/
def fillBlock (t : BlockTemplate) (b : BlockId) : M Unit := do
  let ops ← t.ops.mapM operation
  let (switch, ls) ← exits t.exit
  onFlow fun s => ((), (s.updateBlock b fun k => { k with ops, exitSwitch := switch }).closeBlock b ls)

/-- A return block with one input and an exception block with two. -/
def finalBlocks : M (BlockId × BlockId) := do
  let r ← onFlow (·.addVar "result")
  let ret ← onFlow (·.addBlock { inputs := [r], isReturn := true })
  let t ← onFlow (·.addVar "etype")
  let v ← onFlow (·.addVar "evalue")
  let exc ← onFlow (·.addBlock { inputs := [t, v], isExcept := true })
  modify fun s => { s with blocks := s.blocks ++ [("RETURN", ret), ("EXCEPT", exc)] }
  pure (ret, exc)

def buildM (t : GraphTemplate) (name : String) (signature : Signature) (defaults : List Datum) : M GraphId := do
  let bs ← t.blocks.mapM openBlock
  let (ret, exc) ← finalBlocks
  let g ← onFlow (·.addGraph { name, start := bs.head?, ret, exc, signature, defaults })
  for (bt, b) in t.blocks.zip bs do
    fillBlock bt b
  if !t.returnLinks.isEmpty then
    let ls ← t.returnLinks.mapM (link · .nil)
    onFlow fun s => ((), s.closeBlock ret ls)
  pure g

/-- Builds a fresh graph. -/
def build (t : GraphTemplate) (name : String) (signature : Signature) (defaults : List Datum) (p : Program) :
    GraphId × Program :=
  let (g, b) := (buildM t name signature defaults).run { prog := p, shares := t.shares, labels := t.labels }
  (g, b.prog)

end FlowCompiler.GraphTemplate
