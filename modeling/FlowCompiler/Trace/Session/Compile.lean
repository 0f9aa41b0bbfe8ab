import FlowCompiler.Trace.Session.Basic
import FlowCompiler.Trace.Session.Peel

/-!
# Compiling traces

A recorded trace becomes a loop, a bridge from a guard or from the interpreter, or, when it ends in a
label, a part of a loop that has to be traced further.  A trace that cannot be closed is dropped.
-/

namespace FlowCompiler.Trace.Session

/-! ## Loops -/

/-- Whether loops are peeled. -/
def peels (s : TraceSettings) : Bool := s.optEnabled "unroll"

/-- The second half of a peeled loop, behind its preamble. -/
def compilePeeled (cell : CellId) (preamble : List Op) (inputs : List Box) (body : List Op) (jumpArgs : List Value) :
    SessionM (List Op × List Nat) := do
  let p ← onStore (Peel.peel cell preamble inputs body jumpArgs)
  let (out, watches) ← optimize p.part
  pure (p.head ++ out, watches)

/-- The operations of a loop, optimized. -/
def closeLoop (cell : CellId) (target : TargetId) (inputs : List Box) (body : List Op) (jumpArgs : List Value) :
    SessionM (List Op × List Nat) := do
  let stop ← if peels (← get).settings then do pure (.target (← onStore (Store.newTarget (some cell)))) else pure (.cell cell)
  let label : Op := { code := .label, args := inputs.map .box, descr := some (.target target) }
  let (out, watches) ← optimize (label :: body ++ [{ code := .label, args := jumpArgs, descr := some stop }])
  match out.getLast? with
  | some last =>
    if last.code = .label then do
      let (out, more) ← compilePeeled cell out inputs body jumpArgs
      pure (out, watches ++ more.filter fun w => !watches.contains w)
    else pure (out, watches)
  | none => pure (out, watches)

/-- Compiles the operations of a recording from a place on, which then jump back with given arguments. -/
def compileLoop (key : String) (trace : Recording) (start : Nat) (inputs : List Box) (jumpArgs : List Value) :
    SessionM (Option CellId) := do
  let body ← assignGuards (trace.ops.drop start)
  let cell ← onStore Store.newCell
  let target ← onStore (Store.newTarget (some cell))
  match ← unlessInvalid (closeLoop cell target inputs body jumpArgs) with
  | none => pure none
  | some (ops, watches) => do
    linkTargets cell ops
    sendLoop { name := key, inputs, ops, token := some cell, watches } .loop cell
    modify fun s => s.attachEntry key cell
    pure (some cell)

/-! ## Parts of loops -/

/-- Goes on behind a label; if the loop cannot be closed from there, it starts again at its first label. -/
def closePart (label : Op) (body : List Op) (jumpArgs : List Value) (cell : CellId) : SessionM (List Op × List Nat) :=
  tryCatch (optimize (label :: body ++ [{ code := .jump, args := jumpArgs, descr := some (.cell cell) }])) fun f => do
    match isInvalidLoop f, ((← store).cell cell).targets.head? with
    | true, some first => optimize [label, { code := .jump, args := label.args, descr := some (.target first) }]
    | _, _ => throw f

/-- The label at the end of a part of a loop. -/
def partLabel? (part : Loop) : Option (Op × TargetId) :=
  match part.ops.getLast? with
  | some op =>
    match op.code, op.descr with
    | .label, some (.target t) => some (op, t)
    | _, _ => none
  | none => none

/-- Compiles a part of a loop together with what was traced behind its label. -/
def compileRetrace (key : String) (trace : Recording) (start : Nat) (jumpArgs : List Value) (part : Loop)
    (resume : ResumeKey) (cell : CellId) : SessionM (Option TargetId) := do
  let body ← assignGuards (trace.ops.drop start)
  match partLabel? part with
  | none => throw (.plain s!"compile: partial trace of {key} does not end in a label")
  | some (label, target) => do
    onStore (modify fun s => s.updateTarget target fun t => { t with cell := t.cell <|> some cell })
    match ← unlessInvalid (closePart label body jumpArgs cell) with
    | none => pure none
    | some (out, watches) => do
      onStore (modify fun s => s.updateCell cell fun k =>
        { k with targets := if k.targets.contains target then k.targets else k.targets ++ [target] })
      linkTargets cell out
      onStore (modify fun s => s.updateCell cell fun k => { k with retraces := k.retraces + 1 })
      attach resume { name := key, inputs := part.inputs, ops := part.ops.dropLast ++ out, token := some cell, watches }
      pure (some target)

/-! ## Bridges -/

/-- What became of a bridge. -/
inductive Bridge where
  /-- It was attached and ends with a descriptor. -/
  | attached (target : Option Descr)
  /-- It ends in a label and has to be traced further. -/
  | partOf (part : Loop)
deriving Inhabited

/-- Compiles a trace that starts at a guard or in the interpreter. -/
def compileBridge (trace : Recording) (resume : ResumeKey) : SessionM (Option Bridge) := do
  let ops ← assignGuards trace.ops
  let name := keyText (← store) resume
  match ← unlessInvalid (optimize ops) with
  | none => pure none
  | some (out, watches) => do
    let l : Loop := { name, inputs := trace.inputs, ops := out, watches }
    let last := (out.getLast?).getD default
    if last.code = .label then pure (some (.partOf l))
    else do
      attach resume l
      pure (some (.attached last.descr))

/-! ## Callbacks -/

/-- Compiles a stand-in for a loop that is not compiled yet: it calls a function with the constant and the
variable arguments of the loop. -/
def compileCallback (function : Ref) (call : CallId) (greens : List Value) (reds : List Kind) (result : Kind) :
    SessionM CellId := do
  let inputs ← reds.mapM fun k => onStore (Store.newBox k)
  let box ← if result = .void then pure none else do pure (some (← onStore (Store.newBox result)))
  let ops : List Op :=
    [ { code := .call, args := .ofRef function :: greens ++ inputs.map .box, result := box, descr := some (.call call) },
      { code := .guardNoException, args := [], descr := some .propagateException, fail := some [] },
      { code := .finish, args := box.toList.map .box, descr := some (.done result) } ]
  let cell ← onStore Store.newCell
  let name := match (← store).object function with
    | .func name _ => name
    | _ => ""
  let _ ← compiling s!"tmp callback {name}" (Engine.compileLoop inputs ops cell)
  pure cell

end FlowCompiler.Trace.Session
