import FlowCompiler.Trace.Optimize.State

/-!
# The pass of known values

Single operations are replaced by what is known of their arguments: operations on constants are carried
out, neutral elements disappear, and guards that always hold are dropped.  A guard that always fails makes
the trace invalid.
-/

namespace FlowCompiler.Trace.Algebra

open OptimizeM

/-- Gives an operation on and remembers whether its result is 0 or 1. -/
def give (next : Emit) : Emit := fun op => do
  next op
  if op.code.returnsBool && op.result.isSome then
    let r ← resultId op
    modify fun s => { s with bools := s.bools.insert r }

/-! ## Arithmetic -/

/-- What an operation on integers comes down to. -/
inductive Identity where
  | first
  | second
  | number (n : Int64)

/-- The laws of neutral and absorbing elements; `same` says that the arguments are equal. -/
def identity? (code : Opcode) (a b : Option Int64) (same : Bool) : Option Identity :=
  let pick (rules : List (Bool × Identity)) : Option Identity := (rules.find? Prod.fst).map Prod.snd
  let isA (n : Int64) : Bool := a == some n
  let isB (n : Int64) : Bool := b == some n
  match code with
  | .intAdd => pick [(isB 0, .first), (isA 0, .second)]
  | .intOr => pick [(isB 0, .first), (isA 0, .second), (same, .first)]
  | .intXor => pick [(isB 0, .first), (isA 0, .second), (same, .number 0)]
  | .intSub => pick [(isB 0, .first), (same, .number 0)]
  | .intMul => pick [(isB 1, .first), (isA 1, .second), (isA 0 || isB 0, .number 0)]
  | .intAnd => pick [(isA 0 || isB 0, .number 0), (isB (-1), .first), (isA (-1), .second), (same, .first)]
  | .intFloordiv => pick [(isB 1, .first)]
  | .intLshift | .intRshift | .uintRshift => pick [(isB 0, .first), (isA 0, .number 0)]
  | _ => none

/-- Applies the laws; tells whether the operation is gone. -/
def applyIdentity (op : Op) : OptimizeM Bool := do
  let x ← idOf (op.arg 0)
  let y ← idOf (op.arg 1)
  let a := (← info x).constInt?
  match identity? op.code a (← info y).constInt? (x == y) with
  | some .first => do setEqual op.result x; pure true
  | some .second => do setEqual op.result y; pure true
  | some (.number n) => do setConstInt op.result n; pure true
  | none => pure false

/-- A product with 1.0 is the other factor. -/
def floatMul (next : Emit) (op : Op) : OptimizeM Unit := do
  let isOne (v : Value) : OptimizeM Bool := do
    match (← infoOf v).box with
    | some (.const (.float d)) => pure (d.numEq (Double.ofInt 1))
    | _ => pure false
  if ← isOne (op.arg 0) then setEqual op.result (← idOf (op.arg 1))
  else if ← isOne (op.arg 1) then setEqual op.result (← idOf (op.arg 0))
  else give next op

/-- The opposite of an opposite. -/
def floatNeg (next : Emit) (op : Op) : OptimizeM Unit := do
  match (op.arg 0).box? with
  | none => give next op
  | some b =>
    match (← get).producers[b]? with
    | some inner =>
      if inner.code = .floatNeg then do setEqual op.result (← idOf ((← current inner).arg 0)) else give next op
    | none => give next op

/-! ## Comparisons -/

/-- A comparison whose outcome was computed before, perhaps with the arguments the other way round or for
the opposite relation; tells whether the operation is gone. -/
def knownComparison (op : Op) : OptimizeM Bool := do
  if !(← get).remembersPure then return false
  let a := op.arg 0
  let b := op.arg 1
  let same ← match op.code.reflex? with
    | some code => recallPure code [b, a] none
    | none => pure none
  match same with
  | some r => do setEqual op.result r; pure true
  | none =>
    match op.code.inverse? with
    | none => pure false
    | some code =>
      if ← opposite code [a, b] then pure true
      else match code.reflex? with
        | some code => opposite code [b, a]
        | none => pure false
where
  opposite (code : Opcode) (args : List Value) : OptimizeM Bool := do
    match ← recallPure code args none with
    | none => pure false
    | some r =>
      match (← info r).constInt? with
      | some n => do setConstInt op.result (1 - n); pure true
      | none => pure false

/-- The test that replaces a comparison with null. -/
def nullTest (eq : Bool) : Opcode := if eq then .intIsZero else .intIsTrue

def comparePointers (next : Emit) (op : Op) (eq : Bool) : OptimizeM Unit := do
  let i ← idOf (op.arg 0)
  let j ← idOf (op.arg 1)
  let x ← info i
  let y ← info j
  let outcome (same : Bool) : OptimizeM Unit := setConstInt op.result (if same == eq then 1 else 0)
  if i = j then outcome true
  else if x.isVirtual || y.isVirtual then outcome false
  else if (x.isNull && y.isNonNull) || (x.isNonNull && y.isNull) then outcome false
  else if x.isNull then give next (op.change (nullTest eq) (some [op.arg 1]))
  else if y.isNull then give next (op.change (nullTest eq) (some [op.arg 0]))
  else give next op

/-! ## Guards -/

def guardBool (next : Emit) (op : Op) : OptimizeM Unit := do
  let expected : Int64 := if op.code = .guardFalse then 0 else 1
  match ← constIntOf (op.arg 0) with
  | some n =>
    if (n != 0) == (expected != 0) then pure () else invalid s!"{op.code.name} proven to always fail"
  | none => do
    next op
    setConstInt ((← current op).arg 0).box? expected

/-- Whether an expected object cannot have a class that the value is known to have. -/
def contradictsClass (x expected : Info) : OptimizeM Bool := do
  let s := (← get).store
  pure (match x.knownClass?, expected.constRef?.bind s.classOf? with
    | some known, some c => !s.isSubclass c known
    | _, _ => false)

def guardValue (next : Emit) (op : Op) : OptimizeM Unit := do
  let i ← idOf (op.arg 0)
  let j ← idOf (op.arg 1)
  let x ← info i
  let expected ← info j
  if x.isConst then
    if x.box == expected.box then return
    let s := (← get).store
    invalid s!"GUARD_VALUE({s.optValueText x.box}, {s.optValueText expected.box}) proven to always fail"
  if x.isVirtual then invalid "GUARD_VALUE on a virtual"
  if ← contradictsClass x expected then invalid "GUARD_VALUE contradicts the known class"
  let isBool := (← get).bools.contains i
  let given ← match expected.constInt? with
    | some n =>
      if isBool && n = 1 then tagged (op.change .guardTrue (some [op.arg 0]))
      else if isBool && n = 0 then tagged (op.change .guardFalse (some [op.arg 0]))
      else pure op
    | none => pure op
  next given
  setConst ((← current given).arg 0).box? (← info j).box

def guardNonNull (next : Emit) (op : Op) : OptimizeM Unit := do
  let i ← idOf (op.arg 0)
  let x ← info i
  if x.isNonNull then pure ()
  else if x.isNull then invalid "GUARD_NONNULL proven to always fail"
  else do
    next op
    ensureNonNull i

def guardIsNull (next : Emit) (op : Op) : OptimizeM Unit := do
  let x ← infoOf (op.arg 0)
  if x.isNull then pure ()
  else if x.isNonNull then invalid "GUARD_ISNULL proven to always fail"
  else do
    next op
    setConst ((← current op).arg 0).box? (some .null)

def guardClass (next : Emit) (op : Op) : OptimizeM Unit := do
  let i ← idOf (op.arg 0)
  match ← classOfConst? (← infoOf (op.arg 1)) with
  | none => next op
  | some c => do
    let x ← info i
    let nonNullToo := op.code = .guardNonnullClass
    if nonNullToo && x.isNull then invalid "GUARD_NONNULL_CLASS on a null pointer"
    match x.knownClass? with
    | some known =>
      if known = c then pure ()
      else
        let s := (← get).store
        invalid s!"GUARD_CLASS({s.className c}) but the class is known to be {s.className known}"
    | none => do
      next (if nonNullToo && x.isNonNull then op.change .guardClass none else op)
      update i fun x => x.withClass c

/-! ## Calls -/

/-- A call that needs to be made only once per loop. -/
def invariantCall (next : Emit) (op : Op) : OptimizeM Unit := do
  let f ← idOf (op.arg 0)
  if !(← info f).isConst then next (op.change .call none)
  else match (← get).invariants.lookup f with
    | some r => setEqual op.result r
    | none => do
      next (op.change .call none)
      if op.result.isSome then
        let r ← resultId op
        modify fun s => { s with invariants := (f, r) :: s.invariants }

def conditionalCall (next : Emit) (op : Op) : OptimizeM Unit := do
  match ← constIntOf (op.arg 0) with
  | some n =>
    if n = 0 then pure ()
    else
      let rest := op.args.drop 1
      next (op.change .call (if rest.isEmpty then none else some rest))
  | none => give next op

def recordClass (op : Op) : OptimizeM Unit := do
  let i ← idOf (op.arg 0)
  match ← classOfConst? (← infoOf (op.arg 1)) with
  | some c => do
    let x ← info i
    if x.knownClass?.isNone && !x.isConst then update i fun x => x.withClass c
  | none => pure ()

/-! ## The pass -/

/-- Operations that are neither carried out nor known comparisons. -/
def simplify (next : Emit) (op : Op) : OptimizeM Unit := do
  match op.code with
  | .intAdd | .intSub | .intMul | .intAnd | .intOr | .intXor | .intFloordiv | .intLshift | .intRshift | .uintRshift => do
    unless ← applyIdentity op do give next op
  | .floatMul => floatMul next op
  | .floatNeg => floatNeg next op
  | .guardTrue | .guardFalse => guardBool next op
  | .guardValue => guardValue next op
  | .guardNonnull => guardNonNull next op
  | .guardIsnull => guardIsNull next op
  | .guardClass | .guardNonnullClass => guardClass next op
  | .ptrEq | .instancePtrEq => comparePointers next op true
  | .ptrNe | .instancePtrNe => comparePointers next op false
  | .intIsTrue => do
    let x ← idOf (op.arg 0)
    if (← get).bools.contains x then setEqual op.result x else give next op
  | .sameAs => do setEqual op.result (← idOf (op.arg 0))
  | .castPtrToInt => do
    next op
    rememberPure .castIntToPtr [.box (op.result.getD default)] ((← current op).arg 0)
  | .castIntToPtr => do
    next op
    rememberPure .castPtrToInt [.box (op.result.getD default)] ((← current op).arg 0)
  | .callLoopinvariant => invariantCall next op
  | .condCall => conditionalCall next op
  | .recordKnownClass => recordClass op
  | _ => give next op

def pass (next : Emit) (op : Op) : OptimizeM Unit := do
  let folded ← if op.isAlwaysPure then fold? op else pure none
  match folded with
  | some c => setConst op.result (some c)
  | none =>
    let known ← if op.isComparison then knownComparison op else pure false
    unless known do simplify next op

end FlowCompiler.Trace.Algebra
