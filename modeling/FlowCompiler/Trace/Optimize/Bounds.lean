import FlowCompiler.Trace.Optimize.State

/-!
# The pass of bounds

Integers have bounds.  A comparison that the bounds decide becomes a constant, arithmetic that cannot
overflow loses its check, and a guard on the result of a comparison tightens the bounds of what was
compared, and from there those of what that was computed from.
-/

namespace FlowCompiler.Trace.Bounds

open OptimizeM

/-- The bound of a value, by number. -/
def of (v : Value) : OptimizeM BoundId := do boundId (← idOf v)

def ofResult (op : Op) : OptimizeM BoundId := do boundId (← resultId op)

/-- Gives an operation on. -/
def give (next : Emit) : Emit := fun op => do
  modify fun s => { s with lastBounds := .op op }
  next op

/-! ## Backwards -/

/-- Tightens one bound by another that is computed now; goes on from the value if that changed it. -/
def narrow (goOn : Value → OptimizeM Unit) (v : Value) (b : BoundId) (f : Bound → Bound × Bool) : OptimizeM Unit := do
  if ← tighten b f then goOn v

/-- The first value is smaller than the second. -/
def assumeLt (goOn : Value → OptimizeM Unit) (a b : Value) : OptimizeM Unit := do
  let x ← of a
  let y ← of b
  let bound ← getBound y
  narrow goOn a x fun c => c.makeLt bound
  let bound ← getBound x
  narrow goOn b y fun c => c.makeGt bound

/-- The first value is not greater than the second. -/
def assumeLe (goOn : Value → OptimizeM Unit) (a b : Value) : OptimizeM Unit := do
  let x ← of a
  let y ← of b
  let bound ← getBound y
  narrow goOn a x fun c => c.makeLe bound
  let bound ← getBound x
  narrow goOn b y fun c => c.makeGe bound

def assumeEq (goOn : Value → OptimizeM Unit) (a b : Value) : OptimizeM Unit := do
  let x ← of a
  let y ← of b
  let bound ← getBound y
  narrow goOn a x fun c => c.intersect bound
  let bound ← getBound x
  narrow goOn b y fun c => c.intersect bound

/-- The bounds of the arguments of `r = a op b`: each is narrowed to what the other two leave. -/
def assumeArith (goOn : Value → OptimizeM Unit) (op : Op) (first second : (x y r : Bound) → Option Bound) : OptimizeM Unit := do
  let x ← of (op.arg 0)
  let y ← of (op.arg 1)
  let r ← ofResult op
  match first (← getBound x) (← getBound y) (← getBound r) with
  | some b => narrow goOn (op.arg 0) x fun c => c.intersect b
  | none => pure ()
  match second (← getBound x) (← getBound y) (← getBound r) with
  | some b => narrow goOn (op.arg 1) y fun c => c.intersect b
  | none => pure ()

/-- A test against zero came out as known. -/
def assumeZeroTest (goOn : Value → OptimizeM Unit) (op : Op) (nonzero : Bool) : OptimizeM Unit := do
  let b ← of (op.arg 0)
  if nonzero then
    if (← getBound b).knownGe .zero then
      let _ ← tighten b fun c => c.makeGt .zero
      goOn (op.arg 0)
  else
    let _ ← tighten b fun c => c.makeGe .zero
    let _ ← tighten b fun c => c.makeLt (.exactly 1)
    goOn (op.arg 0)

/-- What the result of an operation says about its arguments. -/
def assumeResult (goOn : Value → OptimizeM Unit) (op : Op) : OptimizeM Unit := do
  let a := op.arg 0
  let b := op.arg 1
  let known ← do
    if op.result.isSome then pure (← info (← resultId op)).constInt? else pure none
  let decided (isOne isOther : OptimizeM Unit) : OptimizeM Unit :=
    match known with
    | some n => if n = 1 then isOne else isOther
    | none => pure ()
  match op.code with
  | .intLt => decided (assumeLt goOn a b) (assumeLe goOn b a)
  | .intGt => decided (assumeLt goOn b a) (assumeLe goOn a b)
  | .intLe => decided (assumeLe goOn a b) (assumeLt goOn b a)
  | .intGe => decided (assumeLe goOn b a) (assumeLt goOn a b)
  | .intEq => if known = some 1 then assumeEq goOn a b
  | .intNe => if known = some 0 then assumeEq goOn a b
  | .intIsTrue => if known = some 1 then assumeZeroTest goOn op true else if known = some 0 then assumeZeroTest goOn op false
  | .intIsZero => if known = some 0 then assumeZeroTest goOn op true else if known = some 1 then assumeZeroTest goOn op false
  | .intAdd | .intAddOvf => assumeArith goOn op (fun _ y r => some (r.sub y)) (fun x _ r => some (r.sub x))
  | .intSub | .intSubOvf => assumeArith goOn op (fun _ y r => some (r.add y)) (fun x _ r => some (x.sub r))
  | .intMul | .intMulOvf => assumeArith goOn op (fun _ y r => some (r.div y)) (fun x _ r => some (r.div x))
  | .intLshift => assumeArith goOn op (fun _ y r => some (r.rshift y)) (fun _ _ _ => none)
  | _ => pure ()

/-- The bound of a value was tightened: a bound with one value makes a constant, and the arguments of the
operation that computed the value are tightened in turn. -/
def backward : (fuel : Nat) → Value → OptimizeM Unit
  | 0, _ => pure ()
  | n + 1, v => do
    let i ← idOf v
    if v.kind ≠ .int then return
    match (← boundOf i).const?, (← info i).isConst with
    | some c, false => becomeConst i (some (.const (.int c)))
    | _, _ => pure ()
    match v with
    | .const _ => pure ()
    | .box b =>
      match (← get).producers[b]? with
      | some op => do assumeResult (backward n) (← current op)
      | none => pure ()

/-- Goes back through as many operations as there are. -/
def goBack (v : Value) : OptimizeM Unit := do backward ((← get).producers.size + 2) v

/-! ## Forwards -/

/-- Gives an operation on and tightens the bound of its result. -/
def withBound (next : Emit) (op : Op) (onlyBounded : Bool) (f : Bound → Bound → Bound) : OptimizeM Unit := do
  let x ← idOf (op.arg 0)
  let y ← idOf (op.arg 1)
  give next op
  let a ← boundOf x
  let b := f a (← boundOf y)
  if !onlyBounded || b.isBounded then
    let _ ← tighten (← ofResult op) fun c => c.intersect b

/-- The bits of two numbers that are not negative, as a bound. -/
def bitBound (a b : Bound) (f : Int64 → Int64 → Int64) : Option Bound :=
  match a.upper, b.upper with
  | some x, some y =>
    if a.knownGe .zero && b.knownGe .zero then some (.between 0 (Bound.nextPow2M1 (f x y))) else none
  | _, _ => none

def orXor (next : Emit) (op : Op) : OptimizeM Unit := do
  let x ← idOf (op.arg 0)
  let y ← idOf (op.arg 1)
  if x = y then
    if op.code = .intOr then setEqual op.result x else setConstInt op.result 0
  else do
    give next op
    let a ← boundOf x
    match bitBound a (← boundOf y) (· ||| ·) with
    | some b => let _ ← tighten (← ofResult op) fun c => c.intersect b
    | none => pure ()

def and (next : Emit) (op : Op) : OptimizeM Unit := do
  let x ← idOf (op.arg 0)
  let y ← idOf (op.arg 1)
  give next op
  let r ← ofResult op
  let mask (n : Int64) : OptimizeM Unit := do
    if n ≥ 0 then let _ ← tighten r fun c => c.intersect (.between 0 n)
  match (← info y).constInt?, (← info x).constInt? with
  | some n, _ => mask n
  | none, some n => mask n
  | none, none => do
    let a ← boundOf x
    match bitBound a (← boundOf y) min with
    | some b => let _ ← tighten r fun c => c.intersect b
    | none => pure ()

/-- The operation that adds two constants at once instead of one after another. -/
def mergedAdd? (op : Op) (variable_ : Value) (n : Int64) : OptimizeM (Option Op) := do
  match variable_ with
  | .const _ => pure none
  | .box b =>
    match (← get).producers[b]? with
    | none => pure none
    | some inner => do
      if inner.code ≠ .intAdd then pure none
      else
        let inner ← current inner
        let swap := (← infoOf (inner.arg 0)).isConst
        let (p, q) := if swap then (inner.arg 1, inner.arg 0) else (inner.arg 0, inner.arg 1)
        match ← constIntOf q with
        | some m => pure (some (op.change .intAdd (some [p, .const (.int (n + m))])))
        | none => pure none

def add (next : Emit) (op : Op) : OptimizeM Unit := do
  let x ← idOf (op.arg 0)
  let y ← idOf (op.arg 1)
  let swap := (← info x).isConst
  let (x, y) := if swap then (y, x) else (x, y)
  let changed ← match (← info y).constInt? with
    | some n => mergedAdd? op (if swap then op.arg 1 else op.arg 0) n
    | none => pure none
  give next (changed.getD op)
  let a ← boundOf x
  let b := a.add (← boundOf y)
  if b.isBounded then
    let _ ← tighten (← ofResult op) fun c => c.intersect b

def isPowerOfTwo (n : Int64) : Bool := n > 0 && (n &&& (n - 1)) == 0

def mod (next : Emit) (op : Op) : OptimizeM Unit := do
  let x ← idOf (op.arg 0)
  let y ← idOf (op.arg 1)
  let a ← boundOf x
  let nonNegative := a.knownGe .zero && (← boundOf y).knownGe .zero
  let given := match (← info y).constInt? with
    | some n =>
      if nonNegative && isPowerOfTwo n then op.change .intAnd (some [op.arg 0, .const (.int (n - 1))]) else op
    | none => op
  give next given
  match (← info y).constInt? with
  | none => pure ()
  | some n =>
    if n = Int64.minValue then pure ()
    else do
      let n := if n < 0 then -n else n
      let r ← ofResult op
      let _ ← tighten r fun c => if nonNegative then c.makeGe .zero else c.makeGt (.exactly (-n))
      let _ ← tighten r fun c => c.makeLt (.exactly n)

/-- A shift that cannot overflow is undone by shifting back. -/
def lshift (next : Emit) (op : Op) : OptimizeM Unit := do
  let x ← idOf (op.arg 0)
  let y ← idOf (op.arg 1)
  give next op
  let a ← boundOf x
  let b := a.lshift (← boundOf y)
  let _ ← tighten (← ofResult op) fun c => c.intersect b
  if b.isBounded then
    let op ← current op
    rememberPure .intRshift [.box (op.result.getD default), op.arg 1] (op.arg 0)

def rshift (next : Emit) (op : Op) : OptimizeM Unit := do
  let x ← idOf (op.arg 0)
  let y ← idOf (op.arg 1)
  let a ← boundOf x
  let b := a.rshift (← boundOf y)
  match b.const? with
  | some n => setConstInt op.result n
  | none => do
    give next op
    let _ ← tighten (← ofResult op) fun c => c.intersect b

/-- Arithmetic that checks for overflow.  When it cannot overflow the check is dropped, and with it the
guard that follows. -/
def checked (next : Emit) (op : Op) : OptimizeM Unit := do
  let x ← idOf (op.arg 0)
  let y ← idOf (op.arg 1)
  if op.code = .intSubOvf && x = y then setConstInt op.result 0
  else do
    let a ← boundOf x
    let b ← boundOf y
    let (bound, plain) := match op.code with
      | .intAddOvf => (a.add b, Opcode.intAdd)
      | .intSubOvf => (a.sub b, Opcode.intSub)
      | _ => (a.mul b, Opcode.intMul)
    give next (if bound.isBounded then op.change plain none else op)
    let _ ← tighten (← ofResult op) fun c => c.intersect bound

/-- The operation before did not overflow, so that it can be undone. -/
def noOverflow (next : Emit) (op : Op) : OptimizeM Unit := do
  match (← get).lastBounds with
  | .op last =>
    if last.isOvf then do
      let last ← current last
      let a := last.arg 0
      let b := last.arg 1
      let r := Value.box (last.result.getD default)
      match last.code with
      | .intAddOvf => do
        rememberPure .intAdd [a, b] r
        rememberPure .intSub [r, b] a
        rememberPure .intSub [r, a] b
      | .intSubOvf => do
        rememberPure .intSub [a, b] r
        rememberPure .intAdd [r, b] a
        rememberPure .intSub [a, r] b
      | _ => rememberPure .intMul [a, b] r
      give next op
  | _ => give next op

/-- The outcome of a comparison that the bounds decide. -/
def decide? (code : Opcode) (same : Bool) (a b : Bound) : Option Bool :=
  let lt := a.knownLt b
  let le := a.knownLe b
  let gt := a.knownGt b
  let ge := a.knownGe b
  match code with
  | .intLt => if lt || ge || same then some lt else none
  | .intGt => if gt || le || same then some gt else none
  | .intLe => if le || same || gt then some (le || same) else none
  | .intGe => if ge || same || lt then some (ge || same) else none
  | .intEq => if gt || lt || same then some (!gt && !lt) else none
  | _ => if gt || lt || same then some (gt || lt) else none

def compare (next : Emit) (op : Op) : OptimizeM Unit := do
  let x ← idOf (op.arg 0)
  let y ← idOf (op.arg 1)
  let a ← boundOf x
  match decide? op.code (x == y) a (← boundOf y) with
  | some t => setConstInt op.result (if t then 1 else 0)
  | none => give next op

/-- The length of something: the bounds of the length and of the result become one. -/
def length (next : Emit) (op : Op) : OptimizeM Unit := do
  give next op
  let op ← current op
  let array ← idOf (op.arg 0)
  let r ← resultId op
  unless (← info r).isConst do
    let l ← lenId array
    let b ← boundOf r
    let _ ← tighten l fun c => c.intersect b
    update r fun x => { x with bound := some l }

/-- One operation through the pass. -/
def pass (next : Emit) (op : Op) : OptimizeM Unit := do
  match op.code with
  | .guardTrue | .guardFalse | .guardValue => do
    give next op
    goBack ((← current op).arg 0)
  | .intOr | .intXor => orXor next op
  | .intAnd => and next op
  | .intAdd => add next op
  | .intSub => withBound next op true Bound.sub
  | .intMul => withBound next op true Bound.mul
  | .intFloordiv => withBound next op false Bound.div
  | .intMod => mod next op
  | .intLshift => lshift next op
  | .intRshift => rshift next op
  | .intAddOvf | .intSubOvf | .intMulOvf => checked next op
  | .guardNoOverflow => noOverflow next op
  | .guardOverflow => do
    match (← get).lastBounds with
    | .op last =>
      if last.isOvf then give next op
      else invalid "an INT_xxx_OVF was proven not to overflow but guarded with GUARD_OVERFLOW"
    | _ => invalid "an INT_xxx_OVF was proven not to overflow but guarded with GUARD_OVERFLOW"
  | .intLt | .intGt | .intLe | .intGe | .intEq | .intNe => compare next op
  | .intForceGeZero => do
    let x ← idOf (op.arg 0)
    if (← boundOf x).knownGe .zero then setEqual op.result x else give next op
  | .arraylenGc | .strlen | .unicodelen => length next op
  | .strgetitem => do
    give next op
    let r ← ofResult op
    let _ ← tighten r fun c => c.makeGe (.atLeast 0)
    let _ ← tighten r fun c => c.makeLt (.atMost 256)
  | .unicodegetitem => do
    give next op
    let _ ← tighten (← ofResult op) fun c => c.makeGe (.atLeast 0)
  | _ => give next op

end FlowCompiler.Trace.Bounds
