import FlowCompiler.Lowering.Representation

/-!
# Before lowering

Graphs that are called through one pointer must agree in the annotations of their parameters and results,
since these decide the type of the pointer.  Classes are numbered so that the numbers of a class and all its
subclasses are one range.  Links that the analysis never followed are cut.
-/

namespace FlowCompiler.Typing

/-! ## Agreement of graphs -/

/-- The graphs of a row, each once, by the numbers of the descriptions. -/
def rowGraphs (row : Row) : List GraphId := ((row.mergeSort fun a b => a.1 ≤ b.1).map Prod.snd).eraseDups

/-- Widens the annotation of a variable. -/
def generalize (v : VarId) (a : Annot) : Ana Unit := do
  match ← Ana.bindingOf? v with
  | some old => do Ana.bindVar v (← Ana.union old a)
  | none => Ana.bindVar v a

def paramsOf (g : GraphId) : Ana (List VarId) := return (← get).prog.flow.argsOf g

def bindingsOf (vs : List VarId) : Ana (List Annot) := vs.mapM fun v => Ana.bindingOrImpossible (.var v)

/-- The first graph that takes another number of parameters than the first of all. -/
def checkArity (gs : List GraphId) : Ana Unit := do
  let flow := (← get).prog.flow
  match gs with
  | [] => pure ()
  | g :: rest =>
    let n := (flow.argsOf g).length
    match rest.find? fun k => (flow.argsOf k).length ≠ n with
    | none => pure ()
    | some k =>
      let m := (flow.argsOf k).length
      let (a, b) := ((flow.graph g).name, (flow.graph k).name)
      throw (.typing Code.inconsistentType
        s!"{a} and {b} are called through the same pointer but take {n} and {m} arguments")

/-- The annotations that the parameters of several graphs have together. -/
def joinedParams (gs : List GraphId) : Ana (List Annot) := do
  let n := (← paramsOf ((gs.head?).getD 0)).length
  (List.range n).mapM fun i => do
    Ana.unionOf (← gs.mapM fun g => do
      Ana.bindingOrImpossible (.var (((← paramsOf g)[i]?).getD 0)))

/-- Has the graphs of a row agree; the answer is whether one of them must be analysed again. -/
def normalizeRow (row : Row) : Ana Bool := do
  let gs := rowGraphs row
  if gs.length < 2 then pure false
  else
    checkArity gs
    let cells ← joinedParams gs
    let changed ← gs.filterM fun g => do
      let now ← bindingsOf (← paramsOf g)
      let w ← get
      if (now.zip cells).all fun (a, b) => w.equal a b then pure false
      else
        Ana.addPendingBlock g ((w.prog.flow.graph g).start.getD 0) cells
        pure true
    let flow := (← get).prog.flow
    let returns := gs.map flow.returnVar
    let joined ← Ana.unionOf (← bindingsOf returns)
    returns.forM fun v => generalize v joined
    pure (!changed.isEmpty)

/-- Has all graphs of all rows agree, once. -/
def normalizeRound : Ana Bool := do
  let rows := (Ana.callFamilies (← get)).flatMap fun f => (Ana.sortedTables f).flatMap Prod.snd
  let changed ← rows.filterM normalizeRow
  pure (!changed.isEmpty)

/-- Repeats until all graphs agree and the analysis has come to rest; ten rounds that change something are
one too many. -/
def normalizeFamilies : (rounds : Nat) → Ana Unit
  | 0 => pure ()
  | n + 1 => do
    if ← normalizeRound then
      Ana.complete
      if n = 0 then throw (.typing Code.inconsistentType "call family normalization does not converge")
      normalizeFamilies n

/-! ## Numbers of classes -/

/-- Numbers a class and the classes below it from `next` on: the range of each, and the next free number. -/
def classRanges (subs : ClassDefId → List ClassDefId) :
    (fuel : Nat) → ClassDefId → (next : Nat) → List (ClassDefId × Nat × Nat) × Nat
  | 0, _, next => ([], next)
  | n + 1, c, next =>
    let (inner, stop) := (subs c).foldl (fun (acc : List (ClassDefId × Nat × Nat) × Nat) s =>
      let (ranges, next) := classRanges subs n s acc.2
      (acc.1 ++ ranges, next)) (([] : List (ClassDefId × Nat × Nat)), next + 1)
    ((c, next, stop) :: inner, stop)

/-- The ranges of all classes, root by root. -/
def allClassRanges (w : World) : List (ClassDefId × Nat × Nat) :=
  let roots := ((List.range w.classDefs.size).map (· + 1)).filter fun c => (w.classDef c).base.isNone
  (roots.foldl (fun (acc : List (ClassDefId × Nat × Nat) × Nat) r =>
    let (ranges, next) := classRanges (fun c => (w.classDef c).subs) (w.classDefs.size + 1) r acc.2
    (acc.1 ++ ranges, next)) (([] : List (ClassDefId × Nat × Nat)), 0)).1

def numberClasses (w : World) : World :=
  (allClassRanges w).foldl (fun w (c, lo, hi) => w.updateClassDef c fun k => { k with minId := lo, maxId := hi }) w

/-! ## Dead links -/

def isAnnotated (w : World) (b : BlockId) : Bool := (w.progress.annotated[b]?.bind id).isSome

/-- The exits of a block that the analysis followed; a block that may raise keeps its normal exit. -/
def keptExits (w : World) (b : Block) : List LinkId :=
  let followed (l : LinkId) : Bool := w.progress.followed.contains l
  if b.canRaise then (b.exits.take 1) ++ (b.exits.drop 1).filter followed
  else
    let kept := b.exits.filter followed
    if kept.isEmpty then b.exits else kept

/-- Gives a block its exits; a single exit is taken always. -/
def restrictExits (f : FlowStore) (b : BlockId) (kept : List LinkId) : FlowStore :=
  match kept with
  | [l] => (f.updateBlock b fun k => { k with exits := kept, exitSwitch := none }).updateLink l fun k =>
      { k with exitCase := .nil }
  | _ => f.updateBlock b fun k => { k with exits := kept }

def cutDeadLinks (w : World) (g : GraphId) : World :=
  (w.prog.flow.blocksOf g).foldl (fun w b =>
    let k := w.prog.flow.block b
    if k.exits.length < 2 || !isAnnotated w b then w
    else
      let followed := k.canRaise || (k.exits.any fun l => w.progress.followed.contains l)
      if followed then { w with prog := { w.prog with flow := restrictExits w.prog.flow b (keptExits w k) } } else w) w

end FlowCompiler.Typing
