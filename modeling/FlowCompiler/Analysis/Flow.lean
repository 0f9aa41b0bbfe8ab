import FlowCompiler.Analysis.Transfer.Builtin

/-!
# Flow of annotations

The fixed point over all reachable graphs.  Blocks wait in a queue; analysing one runs its operations and
enters the targets of its links, which wait again when an input grew.  The analysis never recurses into a
called function: it only has its entry block wait.
-/

namespace FlowCompiler.Ana

/-! ## Operations -/

/-- Analyses an operation and widens the annotation of its result; the answer is whether the flow goes on
after it, which it does not while an argument or the result is impossible. -/
def considerOp (pos : PosKey) (op : FlowOp) : Ana Bool := do
  let rec args : List Operand → Ana (Option (List Annot))
    | [] => pure (some [])
    | o :: rest => do
      match ← annotationOf? o with
      | none => pure none
      | some .impossible => pure none
      | some a => do pure ((← args rest).map (a :: ·))
  match ← args op.args with
  | none => pure false
  | some args => do
    match ← transfer { op, pos, args } with
    | some .impossible => pure false
    | r => do
      match op.result with
      | some v => setBinding v (r.getD .impossible)
      | none => pure ()
      pure true

/-! ## Exceptions -/

/-- The builtin exception of a name. -/
def exceptionClass (name : String) : Ana ClassId := return ((← get).exceptions.lookup name).getD 0

/-- The exceptions that a method of a builtin type can raise; none when that is not known. -/
def methodRaises? (name : String) (self : Annot) : Option (List String) :=
  match name with
  | "pop" => match self with
    | .dict _ => some ["KeyError"]
    | _ => some ["IndexError"]
  | "popitem" => some ["KeyError"]
  | "index" | "remove" => some ["ValueError"]
  | "append" | "extend" | "insert" | "reverse" | "get" | "keys" | "values" | "items" | "clear" => some []
  | _ => none

def neverRaises : List String :=
  [ "len", "bool", "is_", "type", "issubtype", "hint", "same_as", "add", "sub", "mul", "neg", "pos", "invert",
    "lt", "le", "eq", "ne", "gt", "ge", "and_", "or_", "xor", "newlist", "newdict", "newtuple", "iter", "contains" ]

def isSequence : Annot → Bool
  | .list _ => true
  | .str _ _ _ => true
  | .unicode _ _ _ => true
  | .tuple _ _ _ => true
  | _ => false

/-- The exceptions that an operation on a first argument can raise; none when it may raise any. -/
def raises? (op : String) (first : Annot) : Option (List String) :=
  let name := opBaseName op
  if name.endsWith "_ovf" then
    match (name.dropEnd 4).toString with
    | "floordiv" | "div" | "mod" => some ["OverflowError", "ZeroDivisionError"]
    | _ => some ["OverflowError"]
  else match name, first with
    | "getitem", .dict _ => some ["KeyError"]
    | "getitem_idx", .dict _ => some ["KeyError"]
    | "getitem", a => if isSequence a then some [] else none
    | "getitem_idx", a => if isSequence a then some ["IndexError"] else none
    | "setitem", .dict _ => some ["KeyError"]
    | "delitem", .dict _ => some ["KeyError"]
    | "setitem", .list _ => some ["IndexError"]
    | "delitem", .list _ => some ["IndexError"]
    | "next", _ => some ["StopIteration"]
    | "simple_call", .method m self => methodRaises? m self
    | "call_args", .method m self => methodRaises? m self
    | name, a =>
      if ["floordiv", "div", "mod", "truediv"].contains name then
        match a with
        | .int _ => some ["ZeroDivisionError"]
        | .bool _ _ => some ["ZeroDivisionError"]
        | _ => none
      else if neverRaises.contains name then some []
      else none

/-- The classes of the exceptions that an operation may raise. -/
def exceptionsOf (op : FlowOp) : Ana (List ClassDefId) := do
  let first ← match op.args with
    | o :: _ => bindingOrImpossible o
    | [] => pure .impossible
  let names := (raises? op.name first).getD ["Exception"]
  names.mapM fun name => do uniqueClassDef (← exceptionClass name)

/-- The part of a set of exceptions that a handler of a class catches. -/
def caught (w : World) (defs : List ClassDefId) (handler : ClassDefId) : List ClassDefId :=
  (defs.filterMap fun d =>
    if w.isSubclass d handler then some d
    else if w.isSubclass handler d then some handler
    else none).eraseDups

/-- The part that a handler of a class lets through for certain. -/
def uncaught (w : World) (defs : List ClassDefId) (handler : ClassDefId) : List ClassDefId :=
  defs.filter fun d => !w.isSubclass d handler

/-! ## Links -/

/-- The inputs of the target that a variable is passed to. -/
def targetNames (w : World) (l : Link) (v : VarId) : List VarId :=
  (l.args.zip (w.prog.flow.block l.target).inputs).filterMap fun (o, x) => if o = .var v then some x else none

/-- An annotation that speaks of the inputs of the target in place of the variables passed to them. -/
def renamed (names : VarId → List VarId) (a : Annot) : Ana Annot := do
  match a with
  | .type _ [] _ => pure a
  | .type c vars _ => typeOf c (vars.flatMap names)
  | .bool _ [] => pure a
  | .bool c fs => pure (.bool c (Annot.renameFacts names fs))
  | a => pure a

/-- The annotation `a` where `b` is known: integers have both ranges, the rest is an improvement. -/
def refine (a b : Annot) : Ana Annot := do
  match a, b with
  | .int i, .int j =>
    if !i.unsigned && !j.unsigned then
      let (r, q) := (i.getRange, j.getRange)
      let (lo, hi) := (max r.lo q.lo, min r.hi q.hi)
      if lo > hi then pure .impossible
      else if i.const.isSome then pure a
      else pure (.int { IntFact.ofRange lo hi with bits := i.bits })
    else improveChecked a b
  | _, _ => improveChecked a b

def markFollowed (l : LinkId) : Ana Unit :=
  modify fun w => w.updateProgress fun p => { p with followed := p.followed.insert l () }

/-- The annotations that a link passes, where some facts are known; none when one of them is impossible. -/
def passed (names : VarId → List VarId) (known : VarId → Option Annot) : List Operand → Ana (Option (List Annot))
  | [] => pure (some [])
  | o :: rest => do
    let a := (← annotationOf? o).getD .impossible
    match o.var?.bind known with
    | none => do
      let a ← renamed names a
      pure ((← passed names known rest).map (a :: ·))
    | some c => do
      match ← refine a c with
      | .impossible => pure none
      | a => do
        let a ← renamed names a
        pure ((← passed names known rest).map (a :: ·))

/-- Enters the target of a link. -/
def followLink (g : GraphId) (id : LinkId) (known : VarId → Option Annot) : Ana Unit := do
  let w ← get
  let l := w.prog.flow.link id
  match ← passed (targetNames w l) known l.args with
  | none => pure ()
  | some inputs => do
    markFollowed id
    addPendingBlock g l.target inputs

def varOf? (o : Option Operand) : Option VarId := o.bind Operand.var?

/-- Enters a handler with an exception. -/
def followRaiseLink (g : GraphId) (id : LinkId) (exc : Annot) : Ana Unit := do
  let w ← get
  let l := w.prog.flow.link id
  match varOf? l.lastExcValue with
  | some v => setBinding v exc
  | none => pure ()
  match varOf? l.lastException with
  | some v => do setBinding v (← typeOf none (varOf? l.lastExcValue).toList)
  | none => pure ()
  let names := targetNames w l
  let inputs ← l.args.mapM fun o => do
    match varOf? l.lastException with
    | some v =>
      if o = .var v then
        let const := match ← bindingOf? v with
          | some (.type c _ _) => c
          | _ => none
        typeOf const (((varOf? l.lastExcValue).map names).getD [])
      else renamed names ((← annotationOf? o).getD .impossible)
    | none => renamed names ((← annotationOf? o).getD .impossible)
  markFollowed id
  addPendingBlock g l.target inputs

def instancesOf (defs : List ClassDefId) : Ana Annot := unionOf (defs.map Annot.instOf)

/-- The class of a handler. -/
def handlerClass (exitCase : Datum) : Ana ClassDefId := do
  match exitCase with
  | .cls c => uniqueClassDef c
  | d => fail Code.unsupported s!"exception exit case {(← host).text d} is not a class"

/-- Follows the links of a block whose last operation may raise: each handler gets the exceptions that it
catches, and the rest goes on to the next. -/
def followRaising (g : GraphId) (raised : Bool) : (exits : List LinkId) → (excs : List ClassDefId) → Ana Unit
  | [], _ => pure ()
  | id :: rest, excs => do
    match ((← get).prog.flow.link id).exitCase with
    | .nil => do
      if !raised then followLink g id fun _ => none
      followRaising g raised rest excs
    | exitCase =>
      if excs.isEmpty then pure ()
      else do
        let handler ← handlerClass exitCase
        let matching := caught (← get) excs handler
        if !matching.isEmpty then followRaiseLink g id (← instancesOf matching)
        followRaising g raised rest (uncaught (← get) excs handler)

/-- Positions by block and index; those without a block come first. -/
def positionBefore (p q : PosKey) : Bool :=
  match p.block, q.block with
  | none, none => p.index ≤ q.index
  | none, some _ => true
  | some _, none => false
  | some b, some c => b < c || (b = c && p.index ≤ q.index)

/-- Has the callers analysed again that wait for a return block. -/
def notifyCallers (b : BlockId) : Ana Unit := do
  match (← get).progress.notify[b]? with
  | some ps => (ps.toList.mergeSort positionBefore).forM reflow
  | none => pure ()

def switchAnnot? (b : Block) : Ana (Option Annot) := do
  match varOf? b.exitSwitch with
  | some v => bindingOf? v
  | none => pure none

def followExits (g : GraphId) (b : BlockId) (exits : List LinkId) (raised : Bool) : Ana Unit := do
  let k := (← get).prog.flow.block b
  match k.raisingOp? with
  | some op => do followRaising g raised exits (← exceptionsOf op)
  | none => do
    let facts := ((← switchAnnot? k).map Annot.facts).getD []
    for id in exits do
      match ((← get).prog.flow.link id).exitCase with
      | .bool truth => followLink g id (Annot.findFact? facts truth)
      | _ => followLink g id fun _ => none
  notifyCallers b

/-! ## Blocks -/

/-- Whether a constant switch takes a link. -/
def takesExit (exitCase value : Datum) : Bool :=
  exitCase.same value || (match exitCase, value with
    | .count n, .int m => n == m.toInt
    | .int n, .count m => n.toInt == m
    | _, _ => false)

/-- The exits that a switch may take. -/
def liveExits (b : Block) : Ana (List LinkId) := do
  match ← switchAnnot? b with
  | some a =>
    if a.isConst then do
      let value ← constOf a
      let flow := (← get).prog.flow
      pure (b.exits.filter fun id => takesExit (flow.link id).exitCase value)
    else pure b.exits
  | none => pure b.exits

/-- How the operations of a block ended. -/
inductive BlockEnd where
  | passed
  /-- The last operation does not come back: only handlers are entered. -/
  | raised
  /-- The rest of the block waits for the result of a call. -/
  | waiting
  | blocked (index : Nat)

def runOps (g : GraphId) (b : BlockId) (k : Block) : (index : Nat) → List FlowOp → Ana BlockEnd
  | _, [] => pure .passed
  | i, op :: rest => do
    let pos : PosKey := { graph := some g, block := some b, index := i }
    let r ← tryCatch (do
        let goesOn ← located pos (atPosition (some pos) (considerOp pos op))
        pure (some goesOn)) fun f =>
      if f.isBlocked then pure none else throw f
    match r with
    | none => pure .waiting
    | some true => runOps g b k (i + 1) rest
    | some false =>
      if k.canRaise && rest.isEmpty then pure .raised
      else if ["simple_call", "call_args", "next"].contains op.name then pure .waiting
      else pure (.blocked i)

/-- Analyses a block. -/
def processBlock (g : GraphId) (b : BlockId) : Ana Unit := do
  setAnnotated b (some g)
  modify fun w => w.updateProgress fun p => { p with blocked := p.blocked.erase b }
  let w ← get
  let k := w.prog.flow.block b
  match ← runOps g b k 0 k.ops with
  | .passed => do followExits g b (← liveExits k) false
  | .raised => followExits g b (k.exits.filter fun id => (w.prog.flow.link id).exitCase != .nil) true
  | .waiting => pure ()
  | .blocked i => do
    setAnnotated b none
    modify fun w => w.updateProgress fun p => { p with blocked := p.blocked.insert b (g, i) }

/-! ## The fixed point -/

/-- The next block that waits; entries of the queue for blocks that do not wait any more are dropped. -/
def nextPending (p : Progress) : List BlockId → Option (BlockId × GraphId × List BlockId)
  | [] => none
  | b :: rest =>
    match p.pending[b]? with
    | some g => some (b, g, rest)
    | none => nextPending p rest

/-- Takes the next waiting block from the queue. -/
def takePending : Ana (Option (BlockId × GraphId)) := modifyGet fun w =>
  let p := w.progress
  let take (queue back : List BlockId) : Option (Option (BlockId × GraphId) × World) :=
    (nextPending p queue).map fun (b, g, rest) =>
      (some (b, g), { w with progress := { p with pending := p.pending.erase b, queue := rest, queueBack := back } })
  match take p.queue p.queueBack with
  | some r => r
  | none => match take p.queueBack.reverse [] with
    | some r => r
    | none => (none, { w with progress := { p with queue := [], queueBack := [] } })

/-- Analyses one waiting block; false when none waits. -/
def step : Ana Bool := do
  match ← takePending with
  | none => pure false
  | some (b, g) => do
    modify fun w => w.updateProgress fun p => { p with steps := p.steps + 1 }
    let p := (← get).progress
    if p.maxReflows > 0 && p.steps > p.maxReflows then
      fail Code.blockedBlocks s!"gave up after {p.maxReflows} block reflows"
    processBlock g b
    pure true

/-- A line for a block that cannot be analysed. -/
def blockedLine (w : World) (b : BlockId) (g : GraphId) (i : Int) : String :=
  let op := match if i < 0 then none else (w.prog.flow.block b).ops[i.toNat]? with
    | some op => w.prog.opText op
    | none => "?"
  s!"{(w.prog.flow.graph g).name} {FlowStore.blockAt b} op {i}: {op}"

/-- Fails when blocks are left that cannot be analysed. -/
def checkBlocked : Ana Unit := do
  let w ← get
  let stuck := w.progress.blocked.toList.mergeSort fun x y => x.1 ≤ y.1
  match stuck with
  | [] => pure ()
  | (b, g, i) :: _ =>
    let lines := stuck.map fun (b, g, i) => blockedLine w b g i
    let text := s!"{stuck.length} blocked block(s):\n  " ++ String.intercalate "\n  " lines
    let pos : Position := { graph := (w.prog.flow.graph g).name, block := b, op := i }
    throw (.annot ({ code := Code.blockedBlocks, text, source := lines : Report }.located pos) none)

/-- Analyses blocks until none waits. -/
def drain : (fuel : Nat) → Ana Unit
  | 0 => throw (.plain "the analysis does not come to rest")
  | n + 1 => do if ← step then drain n

/-- More blocks than any analysis visits. -/
def visitLimit : Nat := Nat.pow 2 40

/-- Alternates between the flow and the recording of calls until nothing waits. -/
def settle : (fuel : Nat) → Ana Unit
  | 0 => throw (.plain "the analysis does not come to rest")
  | n + 1 => do
    drain visitLimit
    checkBlocked
    computeAtFixpoint
    if !(← get).progress.pending.isEmpty then settle n

/-- Runs the analysis to its fixed point; a graph that never returns returns the impossible. -/
def complete : Ana Unit := do
  settle visitLimit
  for g in (← get).progress.graphs do
    let v := (← get).prog.flow.returnVar g
    if (← bindingOf? v).isNone then bindVar v .impossible

/-- The graph that a call uses, and the annotations of its parameters. -/
def callParameters (d : DescId) (args : List Annot) : Ana (GraphId × List Annot) := do
  let cells ← parseArguments d { positional := args }
  match ← specialize d cells none with
  | (.graph g, cells) => pure (g, cells)
  | (.value _, _) => unsupported s!"{((← get).funcDesc d).name}: specialization did not produce a graph"

/-- Enters a function with annotations for its parameters. -/
def addEntry (f : FuncId) (args : List Annot) : Ana GraphId := do
  let d ← descOf (.fn f)
  let _ ← callFamilyOf d
  let (g, cells) ← callParameters d args
  addPendingGraph g cells
  pure g

end FlowCompiler.Ana
