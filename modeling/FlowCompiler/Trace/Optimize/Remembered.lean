import FlowCompiler.Trace.Optimize.State

/-!
# The pass of remembered results

The result of an operation that depends on its arguments only is computed once.  An operation that checks
for overflow waits for the guard behind it: only if that guard demands that there is none can the
operation be carried out or found again.
-/

namespace FlowCompiler.Trace.Remembered

open OptimizeM

def give (next : Emit) : Emit := fun op => do
  modify fun s => { s with lastPure := .op op }
  next op

def markRemoved : OptimizeM Unit := modify fun s => { s with lastPure := .removed }

/-- Looks up the result of an operation; what is new is entered. -/
def find (op : Op) : OptimizeM (Option InfoId) := do
  match ← pureKey? op.code op.args op.descr with
  | none => pure none
  | some k =>
    match (← get).pureOps[k]? with
    | some r => pure (some r)
    | none => do
      if op.result.isSome then
        let r ← resultId op
        modify fun s => { s with pureOps := s.pureOps.insert k r }
      pure none

/-- The result of calling a function that is known on constants. -/
def callResult? (op : Op) : OptimizeM (Option Value) := do
  if op.result.isNone then return none
  let f ← infoOf (op.arg 0)
  let s := (← get).store
  match f.constRef?.map s.object with
  | some (.func _ (some b)) =>
    match ← allConst? (op.args.drop 1) with
    | none => pure none
    | some args => do
      let r ← onExec (Exec.behave b (args.filterMap Value.const?))
      pure (match r with
        | .ok (some (.const c)) => some (.const c)
        | _ => none)
  | _ => pure none

def pureCall (next : Emit) (op : Op) : OptimizeM Unit := do
  match ← callResult? op with
  | some c => do
    setConst op.result (some c)
    markRemoved
  | none => do
    match ← find op with
    | some r => do
      setEqual op.result r
      markRemoved
    | none => give next (op.change .call none)

/-- Gives an operation on, unless it may be folded and its result is known; tells whether it was. -/
def settle (next : Emit) (op : Op) (canFold : Bool) : OptimizeM Bool := do
  let folded ← if canFold then fold? op else pure none
  match folded with
  | some c => do setConst op.result (some c); pure false
  | none => do
    match ← (if canFold then find op else pure none) with
    | some r => do setEqual op.result r; pure false
    | none => do
      give next op
      if op.code.returnsBool && op.result.isSome then
        let r ← resultId op
        modify fun s => { s with bools := s.bools.insert r }
      pure true

def pass (next : Emit) (op : Op) : OptimizeM Unit := do
  match op.code with
  | .callPure => pureCall next op
  | .guardNoException => do unless (← get).lastPure.isRemoved do give next op
  | _ =>
    if op.isOvf then modify fun s => { s with postponed := some op }
    else match (← get).postponed with
      | none => let _ ← settle next op op.isAlwaysPure
      | some held => do
        modify fun s => { s with postponed := none }
        if ← settle next held (op.code == .guardNoOverflow) then give next op

/-- At the end of the trace nothing is held back. -/
def flush (next : Emit) : OptimizeM Unit := do
  match (← get).postponed with
  | none => pure ()
  | some op => do
    modify fun s => { s with postponed := none }
    give next op

end FlowCompiler.Trace.Remembered
