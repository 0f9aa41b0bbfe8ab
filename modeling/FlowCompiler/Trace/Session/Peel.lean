import FlowCompiler.Trace.Store

/-!
# Peeling loops

The first round of a loop is taken in front of it: it becomes a preamble that ends in a second label, and
the body follows that label once more, with boxes and guards of its own.  What the preamble has found out
then holds in the body.
-/

namespace FlowCompiler.Trace.Peel

/-- What the boxes of a body stand for in a copy of it. -/
abbrev Renaming := List (Box × Value)

def Renaming.value (r : Renaming) (v : Value) : Value :=
  match v with
  | .box b => (r.lookup b).getD v
  | v => v

/-- A copy of an operation with its own result and, if it is a guard, its own descriptor. -/
def copyOp (r : Renaming) (op : Op) : StoreM (Renaming × Op) := do
  let descr ← match op.descr with
    | some (.guard g) => do
      let code := ((← get).guard g).code
      pure (some (.guard (← Store.newGuard code)))
    | d => pure d
  let copy : Op := { op with args := op.args.map r.value, descr, fail := op.fail.map (·.map (·.map r.value)), tag := 0 }
  match op.result with
  | none => pure (r, copy)
  | some b => do
    let c ← Store.newBox b.kind
    Store.record c ((← get).recordedOf b)
    pure ((b, .box c) :: r, { copy with result := some c })

/-- A copy of a body, with the renaming that holds at its end. -/
def copyOps (r : Renaming) : List Op → StoreM (Renaming × List Op)
  | [] => pure (r, [])
  | op :: rest => do
    let (r, op) ← copyOp r op
    let (r, rest) ← copyOps r rest
    pure (r, op :: rest)

/-- The arguments of a label have to be boxes: a constant is put into one before it. -/
def materialize (args : List Value) : StoreM (List Op × List Value) := do
  let parts ← args.mapM fun v => do
    match v with
    | .box _ => pure ([], v)
    | .const c => do
      let b ← Store.newBox c.kind
      pure ([{ code := .sameAs, args := [v], result := some b : Op }], .box b)
  pure (parts.flatMap Prod.fst, parts.map Prod.snd)

/-- A loop behind its preamble. -/
structure Peeled where
  /-- The preamble without the label at its end. -/
  head : List Op
  /-- The label, a copy of the body, and the jump back. -/
  part : List Op
deriving Inhabited

/-- Peels a loop whose preamble ends in a label. -/
def peel (cell : CellId) (preamble : List Op) (inputs : List Box) (body : List Op) (jumpArgs : List Value) :
    StoreM Peeled := do
  let last := (preamble.getLast?).getD default
  let (moves, args) ← materialize last.args
  let label := last.change .label (some args)
  let (r, copy) ← copyOps (inputs.zip args).reverse body
  let jump : Op := { code := .jump, args := jumpArgs.map r.value, descr := some (.cell cell) }
  pure { head := preamble.dropLast ++ moves, part := label :: copy ++ [jump] }

end FlowCompiler.Trace.Peel
