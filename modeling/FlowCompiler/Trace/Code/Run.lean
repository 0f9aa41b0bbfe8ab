import FlowCompiler.Settings
import FlowCompiler.Trace.Registers
import FlowCompiler.Trace.ConstPointers
import FlowCompiler.Trace.Execute

/-!
# Running compiled code

A frame runs from the start of a loop until it finishes, or until a guard fails that has no bridge.  What
the last operation saves stays in the frame.  `advance` is one step; `run` repeats it.
-/

/-! ## Assembling

Registers are given to the operations of a unit one after another, which tells how large the code is and
how deep its frame.  An operation that has more boxes than there are registers reads them from the frame. -/

namespace FlowCompiler.Trace

/-- What assembling a unit tells. -/
structure Assembly where
  /-- Where the code of each operation starts. -/
  offsets : List Nat := []
  size : Nat := 0
  depth : Int := 0
deriving Inhabited

namespace Assembly

/-- The bytes of an operation without its moves. -/
def opSize : Nat := 8

/-- The bytes of a move. -/
def moveSize : Nat := 4

/-- The registers that a call saves. -/
def saveMode (op : Op) : SaveMode :=
  if op.code = .callMayForce || op.code = .callAssembler then .all else .callerSaved

/-- Gives registers to the arguments and the result of an operation.  The arguments of a call are in the
frame and its result comes in a fixed register. -/
def allocate (op : Op) : RegisterM Unit := do
  let boxes := op.boxArgs
  if op.isCall then
    modify fun m => m.beforeCall [] (saveMode op)
    match op.result with
    | some r => modify fun m => m.afterCall r
    | none => pure ()
  else if op.code = .label then modify fun m => m.beforeCall [] .all
  else if op.isFinal || boxes.length ≥ (← get).count then pure ()
  else
    op.args.forM fun v => do let _ ← Registers.ensure v boxes {}
    match op.result with
    | some r => do let _ ← Registers.force r boxes {}
    | none => pure ()

/-- Gives back what is not needed after an operation. -/
def leave (op : Op) (m : Registers) : Registers :=
  let m := m.releaseAll op.args
  let m := m.releaseAll ((op.fail.getD []).filterMap id)
  ((op.result.map fun r => m.release (.box r)).getD m).releaseTemps

/-- One operation; the answer is the size of its code. -/
def step (op : Op) : RegisterM Nat := do
  let before := (← get).moves.length
  allocate op
  modify (leave op)
  match (← get).check with
  | .error f => throw f
  | .ok () => do
    modify fun m => { m with position := m.position + 1 }
    pure (opSize + moveSize * ((← get).moves.length - before))

/-- The offsets of pieces of code of given sizes. -/
def offsetsOf (start : Nat) : List Nat → List Nat
  | [] => []
  | n :: rest => start :: offsetsOf (start + n) rest

/-- The registers before the first operation; inputs are in the frame. -/
def registers (settings : RegisterSettings) (inputs : List Box) (lifetimes : Lifetimes) : Registers :=
  let frame := inputs.foldl (fun (f : FrameSlots) b => (f.slot b).2) {}
  .make settings.registers.toNat (settings.callerSaved.map Int.toNat) settings.resultReg.toNat frame lifetimes

/-- Assembles the operations of a unit. -/
def make (settings : RegisterSettings) (inputs : List Box) (ops : List Op) : Except Failure Assembly := do
  let lifetimes ← Lifetimes.compute inputs ops
  match (ops.mapM step).run (registers settings inputs lifetimes) with
  | .error f _ => throw f
  | .ok sizes m => pure { offsets := offsetsOf 0 sizes, size := sizes.foldl (· + ·) 0, depth := m.frame.depth }

end Assembly
end FlowCompiler.Trace

/-! ## Compiled code

The units that have been compiled: loops by their tokens, bridges by the guards that they start from, and
the labels of both.  Compiling a unit may make objects for its constant pointers, so it works on the store
as well. -/

namespace FlowCompiler.Trace

/-- A loop or a bridge. -/
structure CompiledUnit where
  name : String
  inputs : List Box
  ops : Array Op
  /-- The loop that the unit is or belongs to. -/
  token : Option CellId := none
  /-- The objects that the code refers to. -/
  refs : List Ref := []
  depth : Int := 0
deriving Inhabited

abbrev UnitId := Nat

/-- A place in compiled code. -/
structure Position where
  unit : UnitId
  pc : Nat
deriving DecidableEq, Repr, Inhabited

structure CodeCache where
  registers : RegisterSettings := {}
  generations : Generations := {}
  units : Array CompiledUnit := #[]
  loops : List (CellId × UnitId) := []
  bridges : List (Descr × UnitId) := []
  labels : List (TargetId × Position) := []
deriving Inhabited

namespace CodeCache

/-- An empty cache; without registers the default ones are taken. -/
def make (registers : RegisterSettings) (maxPinned : Int) : CodeCache :=
  { registers := if registers.registers ≤ 0 then {} else registers, generations := { maxPinned } }

def unit (c : CodeCache) (u : UnitId) : CompiledUnit := (c.units[u]?).getD default

def loop? (c : CodeCache) (cell : CellId) : Option CompiledUnit := (c.loops.lookup cell).map c.unit

def bridge? (c : CodeCache) (d : Descr) : Option UnitId := c.bridges.lookup d

def label? (c : CodeCache) (t : TargetId) : Option Position := c.labels.lookup t

/-- The operations of a loop. -/
def opsOf (c : CodeCache) (cell : CellId) : List Op := ((c.loop? cell).map (·.ops.toList)).getD []

/-- The depth of the frame of a loop. -/
def depthOf (c : CodeCache) (cell : CellId) : Int := ((c.loop? cell).map (·.depth)).getD 0

/-- The objects that a loop and its bridges refer to. -/
def refsOf (c : CodeCache) (cell : CellId) : List Ref :=
  let own := ((c.loop? cell).map (·.refs)).getD []
  own ++ (c.bridges.map fun p => c.unit p.2).flatMap fun u => if u.token = some cell then u.refs else []

/-- The labels of a unit with their places. -/
def labelsOf (u : UnitId) (ops : List Op) : List (TargetId × Position) :=
  ops.zipIdx.filterMap fun (op, i) =>
    match op.code, op.descr with
    | .label, some (.target t) => some (t, ⟨u, i⟩)
    | _, _ => none

/-- Enters a unit and its labels; a label that is known already moves. -/
def enter (c : CodeCache) (u : CompiledUnit) : UnitId × CodeCache :=
  let id := c.units.size
  let new := (labelsOf id u.ops.toList).reverse
  (id, { c with units := c.units.push u, labels := new ++ c.labels.filter fun l => !(new.any (·.1 == l.1)) })

/-- Enters a loop, in place of the one that has the same token. -/
def enterLoop (c : CodeCache) (cell : CellId) (u : CompiledUnit) : CodeCache :=
  let (id, c) := c.enter u
  { c with loops := (cell, id) :: c.loops.filter (·.1 ≠ cell) }

def enterBridge (c : CodeCache) (guard : Descr) (u : CompiledUnit) : CodeCache :=
  let (id, c) := c.enter u
  { c with bridges := c.bridges ++ [(guard, id)] }

/-- Discards a loop and its labels. -/
def free (c : CodeCache) (cell : CellId) : CodeCache :=
  match c.loops.lookup cell with
  | none => c
  | some u =>
    { c with loops := c.loops.filter (·.1 ≠ cell), labels := c.labels.filter (·.2.unit ≠ u) }

end CodeCache

/-- Compiled code and the store that it works on. -/
structure Engine where
  store : Store := {}
  code : CodeCache := {}
deriving Inhabited

abbrev EngineM := EStateM Failure Engine

namespace Engine

/-- Runs a step that works on the store. -/
def onStore {α : Type} (m : StoreM α) : EngineM α := fun e =>
  match m.run e.store with
  | .ok a store => .ok a { e with store }
  | .error f store => .error f { e with store }

/-- Assembles a unit. -/
def assemble (name : String) (inputs : List Box) (ops : List Op) : EngineM (CompiledUnit × Assembly) := do
  let (pinned, generations) ← onStore (PinnedCode.make (← get).code.generations ops)
  modify fun e => { e with code := { e.code with generations } }
  match Assembly.make (← get).code.registers inputs pinned.ops with
  | .error f => throw (.wrapped s!"llgraph: {name}" f)
  | .ok a => pure ({ name, inputs, ops := pinned.ops.toArray, refs := pinned.refs, depth := a.depth }, a)

/-- Compiles a loop under a token. -/
def compileLoop (inputs : List Box) (ops : List Op) (cell : CellId) : EngineM Assembly := do
  let number := ((← get).store.cell cell).number
  let (u, a) ← assemble s!"loop {number}" inputs ops
  modify fun e =>
    { store := e.store.updateCell cell fun k => { k with compiled := true }
      code := e.code.enterLoop cell { u with token := some cell } }
  pure a

/-- Compiles a bridge that starts at a guard; a guard has at most one. -/
def compileBridge (guard : Descr) (inputs : List Box) (ops : List Op) (cell : Option CellId) : EngineM Assembly := do
  let text := (← get).store.descrText guard
  let (u, a) ← assemble s!"bridge from {text}" inputs ops
  if ((← get).code.bridge? guard).isSome then throw (.plain s!"llgraph: {text} already has a bridge")
  modify fun e => { e with code := e.code.enterBridge guard { u with token := cell } }
  pure a

end Engine

/-- What a step leads to. -/
inductive Advance where
  | next (p : Position)
  | exit
deriving Inhabited

namespace Run

/-- How many steps a frame may take. -/
def stepLimit : Nat := Nat.pow 2 20

/-- The values of the arguments of an operation. -/
def operands (f : Frame) (op : Op) : List (Option Value) := Exec.resolveAll f (op.args.map some)

/-- Binds boxes to values. -/
def bind (env : Std.HashMap Box (Option Value)) (boxes : List Box) (values : List (Option Value)) :
    Std.HashMap Box (Option Value) :=
  (boxes.zip values).foldl (fun env (b, v) => env.insert b v) env

/-- The object that a value points to. -/
def pointee (v : Option Value) : Option Ref := (v.bind Value.const?).bind Const.ref?

/-- Whether an object is an instance of exactly a class. -/
def hasClass (s : Store) (object cls : Option Ref) : Bool :=
  match object with
  | some r => (s.classOf? r).any fun c => cls = some c
  | none => false

/-- Whether the exception of a frame is one of a class. -/
def catches (s : Store) (exc cls : Option Ref) : Bool :=
  match exc.bind s.classOf?, cls with
  | some c, some k => s.isClass k && s.isSubclass c k
  | _, _ => false

/-- Whether a guard holds. -/
def holds (s : Store) (f : Frame) (op : Op) : Bool :=
  let args := operands f op
  let arg (i : Nat) : Option Value := (args[i]?).join
  let number : Int64 := ((arg 0).bind Value.int?).getD 0
  match op.code with
  | .guardTrue => number != 0
  | .guardFalse => number == 0
  | .guardValue => arg 0 == arg 1
  | .guardNonnull => (pointee (arg 0)).isSome
  | .guardIsnull => (pointee (arg 0)).isNone
  | .guardClass | .guardNonnullClass => hasClass s (pointee (arg 0)) (pointee (arg 1))
  | .guardNoException => f.exc.isNone
  | .guardException => catches s f.exc (pointee (arg 0))
  | .guardNoOverflow => !f.overflow
  | .guardOverflow => f.overflow
  | .guardNotForced | .guardNotForced2 => !f.forced
  | .guardNotInvalidated => f.token.all fun c => !(s.cell c).invalidated
  | _ => true

/-- After a guard that holds; one that expects an exception takes it. -/
def passGuard (op : Op) (f : Frame) : Frame :=
  if op.code = .guardException then
    match op.result with
    | some r => { f with env := f.env.insert r (some (.const (.ptr f.exc))), exc := none }
    | none => { f with exc := none }
  else f

/-- The frame saves the values of an operation that it leaves by. -/
def save (op : Op) (values : List (Option Value)) (f : Frame) : Frame :=
  { f with descr := op.descr, values := Exec.resolveAll f values }

/-- What a frame becomes when an operation has been executed. -/
def finishOp (op : Op) (outcome : Except ExecError (Option Value)) (f : Frame) : Frame :=
  let f := { f with overflow := false, pendingGuard := none }
  let (f, value) := match outcome with
    | .ok v => (f, v)
    | .error .overflow => ({ f with overflow := true }, some (.ofInt 0))
    | .error (.raised exc) => ({ f with exc }, none)
    | .error _ => (f, none)
  match op.result with
  | some r => { f with env := f.env.insert r (some (value.getD (.const (.zero r.kind)))) }
  | none => f

/-- Whether a frame goes on after an outcome. -/
def isFatal : Except ExecError (Option Value) → Option ExecError
  | .ok _ | .error .overflow | .error (.raised _) => none
  | .error e => some e

/-- Executes an operation that is neither a guard nor a jump.  While a call that may force the frame runs,
the frame knows the guard behind it. -/
def executeOp (frame : FrameId) (unit : CompiledUnit) (pc : Nat) (op : Op) : StoreM Unit := do
  if op.code = .forceToken then
    let r ← Store.newObject (.frameToken frame)
    modify fun s => s.updateFrame frame fun f =>
      match op.result with
      | some b => { f with env := f.env.insert b (some (.ofRef r)) }
      | none => f
  else
    if op.code = .callMayForce then
      modify fun s => s.updateFrame frame fun f => { f with pendingGuard := unit.ops[pc + 1]? }
    let s ← get
    let f := s.frame frame
    let args := (op.args.zip (operands f op)).map fun (v, w) => w.getD (.const (.zero v.kind))
    let (outcome, s) := match (execute op.code op.descr args).run s with
      | .ok v s => ((.ok v : Except ExecError (Option Value)), s)
      | .error e s => (.error e, s)
    set (s.updateFrame frame (finishOp op outcome))
    match isFatal outcome with
    | some e => throw (.wrapped s!"llgraph: {s.opText op}" (.plain (e.message s)))
    | none => pure ()

/-- Jumps to a label: its boxes take the values of the arguments. -/
def jump (c : CodeCache) (frame : FrameId) (unit : CompiledUnit) (op : Op) : StoreM Position := do
  match op.descr with
  | some (.target t) => do
    match c.label? t with
    | none => do
      let text := (← get).descrText (.target t)
      throw (.plain s!"llgraph: jump to unknown {text}")
    | some p => do
      let label := (((c.unit p.unit).ops)[p.pc]?).getD default
      modify fun s => s.updateFrame frame fun f =>
        let bound := (label.args.zip (operands f op)).filterMap fun (a, v) => a.box?.map fun b => (b, v)
        { f with env := bound.foldl (fun env (b, v) => env.insert b v) f.env }
      pure { p with pc := p.pc + 1 }
  | _ => throw (.plain s!"llgraph: jump without a target in {unit.name}")

/-- A guard: control goes on behind it, into its bridge, or out of the frame. -/
def guard (c : CodeCache) (frame : FrameId) (p : Position) (op : Op) : StoreM Advance := do
  let s ← get
  if holds s (s.frame frame) op then
    modify fun s => s.updateFrame frame (passGuard op)
    pure (.next { p with pc := p.pc + 1 })
  else
    modify fun s => s.updateFrame frame (save op (op.fail.getD []))
    match op.descr.bind c.bridge? with
    | none => pure .exit
    | some u => do
      modify fun s => s.updateFrame frame fun f => { f with env := bind f.env (c.unit u).inputs f.values }
      pure (.next ⟨u, 0⟩)

/-- One step of a frame. -/
def advance (c : CodeCache) (frame : FrameId) (p : Position) : StoreM Advance := do
  let unit := c.unit p.unit
  match unit.ops[p.pc]? with
  | none => throw (.plain s!"llgraph: fell off the end of {unit.name}")
  | some op =>
    if op.code = .label then pure (.next { p with pc := p.pc + 1 })
    else if op.code = .jump then return .next (← jump c frame unit op)
    else if op.code = .finish then do
      modify fun s => s.updateFrame frame (save op (op.args.map some))
      pure .exit
    else if op.isGuard then guard c frame p op
    else do
      executeOp frame unit p.pc op
      pure (.next { p with pc := p.pc + 1 })

/-- Runs a frame for at most a number of steps. -/
def run (c : CodeCache) (frame : FrameId) : (steps : Nat) → Position → StoreM Unit
  | 0, p => throw (.plain s!"llgraph: step limit exceeded in {(c.unit p.unit).name}")
  | n + 1, p => fun s =>
    match advance c frame p s with
    | .ok .exit s => .ok () s
    | .ok (.next p) s => run c frame n p s
    | .error f s => .error f s

end Run

/-- Enters a loop with arguments and runs it until it exits. -/
def CodeCache.execute (c : CodeCache) (cell : CellId) (args : List (Option Value)) : StoreM FrameId := do
  let s ← get
  match c.loops.lookup cell with
  | none => throw (.plain s!"llgraph: {s.cellText cell} is not compiled")
  | some u => do
    let inputs := (c.unit u).inputs
    if args.length ≠ inputs.length then
      throw (.plain s!"llgraph: {s.cellText cell} takes {inputs.length} arguments, got {args.length}")
    let frame := s.frames.size
    set { s with frames := s.frames.push { env := Run.bind {} inputs args, token := some cell } }
    Run.run c frame Run.stepLimit ⟨u, 0⟩
    pure frame

end FlowCompiler.Trace
