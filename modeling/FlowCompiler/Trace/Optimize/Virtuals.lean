import FlowCompiler.Trace.Optimize.Force

/-!
# The pass of virtual objects

Allocations are put off.  Reading and writing a virtual object needs no operation, so an object that
nothing outside the trace sees leaves no trace at all.
-/

namespace FlowCompiler.Trace
namespace Virtuals

open OptimizeM

/-- The result of an operation is a new virtual object. -/
def make (op : Op) (v : Virtual) (level : Level) (cls : Option Ref) (length : Option Bound) : OptimizeM Unit := do
  let len ← length.mapM newBound
  let i ← newInfo { box := none, key := .box (op.result.getD default), level, cls, len, virt := some v }
  setEqual op.result i

/-- The fields of a virtual object. -/
def fields? (v : Value) : OptimizeM (Option (InfoId × Option SizeId × Option Ref × List (FieldId × InfoId))) := do
  let i ← idOf v
  let x ← info i
  pure (match x.isVirtual, x.virt with
    | true, some (.struct size cls fields) => some (i, size, cls, fields)
    | _, _ => none)

def items? (v : Value) : OptimizeM (Option (InfoId × ArrayId × Array InfoId × Bool)) := do
  let i ← idOf v
  let x ← info i
  pure (match x.isVirtual, x.virt with
    | true, some (.array d items clear) => some (i, d, items, clear)
    | _, _ => none)

/-- A constant index into a virtual array. -/
def index? (items : Array InfoId) (v : Value) : OptimizeM (Option Nat) := do
  match ← constIntOf v with
  | some n => pure (if 0 ≤ n.toInt && n.toInt < items.size then some n.toInt.toNat else none)
  | none => pure none

def newStruct (op : Op) (d : SizeId) : OptimizeM Unit := do
  let cls := ((← get).store.size d).cls
  make op (.struct (some d) cls []) (if cls.isSome then .knownClass else .nonNull) cls none

def newInstance (next : Emit) (op : Op) : OptimizeM Unit := do
  match ← classOfConst? (← infoOf (op.arg 0)) with
  | some c => make op (.struct none (some c) []) .knownClass (some c) none
  | none => next op

def newArray (next : Emit) (op : Op) (d : ArrayId) : OptimizeM Unit := do
  match ← constIntOf (op.arg 0) with
  | some n =>
    if n < 0 || n.toInt > (← get).limits.constLen then next op
    else do
      let blank ← idOf (.const (.zero ((← get).store.array d).item))
      make op (.array d (Array.replicate n.toInt.toNat blank) (op.code == .newArrayClear)) .nonNull none (some (.exactly n))
  | none => next op

def getField (next : Emit) (op : Op) (f : FieldId) : OptimizeM Unit := do
  match ← fields? (op.arg 0) with
  | some (_, _, _, fields) =>
    match fields.lookup f with
    | some j => setEqual op.result j
    | none => do setEqual op.result (← idOf (.const (.zero ((← get).store.field f).kind)))
  | none => next op

/-- The fields with one of them set; a new one comes last. -/
def setFieldIn (fields : List (FieldId × InfoId)) (f : FieldId) (j : InfoId) : List (FieldId × InfoId) :=
  if fields.any (·.1 == f) then fields.map fun (g, k) => if g = f then (g, j) else (g, k) else fields ++ [(f, j)]

def setField (next : Emit) (op : Op) (f : FieldId) : OptimizeM Unit := do
  match ← fields? (op.arg 0) with
  | some (i, size, cls, fields) => do
    let j ← idOf (op.arg 1)
    update i fun x => { x with virt := some (.struct size cls (setFieldIn fields f j)) }
  | none => next op

def getItem (next : Emit) (op : Op) : OptimizeM Unit := do
  match ← items? (op.arg 0) with
  | some (_, _, items, _) =>
    match ← index? items (op.arg 1) with
    | some k => setEqual op.result ((items[k]?).getD default)
    | none => next op
  | none => next op

def setItem (next : Emit) (op : Op) : OptimizeM Unit := do
  match ← items? (op.arg 0) with
  | some (i, d, items, clear) =>
    match ← index? items (op.arg 1) with
    | some k => do
      let j ← idOf (op.arg 2)
      update i fun x => { x with virt := some (.array d (items.setIfInBounds k j) clear) }
    | none => next op
  | none => next op

def pass (next : Emit) (op : Op) : OptimizeM Unit := do
  match op.code, op.descr with
  | .new, some (.size d) => newStruct op d
  | .newWithVtable, _ => newInstance next op
  | .newArray, some (.array d) | .newArrayClear, some (.array d) => newArray next op d
  | .getfieldGc, some (.field f) | .getfieldGcPure, some (.field f) => getField next op f
  | .setfieldGc, some (.field f) => setField next op f
  | .getarrayitemGc, _ | .getarrayitemGcPure, _ => getItem next op
  | .setarrayitemGc, _ => setItem next op
  | .arraylenGc, _ => do
    match ← items? (op.arg 0) with
    | some (_, _, items, _) => setConstInt op.result (Int64.ofInt items.size)
    | none => next op
  | .condCallGcWb, _ => do unless (← infoOf (op.arg 0)).isVirtual do next op
  | _, _ => next op

end Virtuals

namespace EarlyForce

open OptimizeM

/-- Operations that only note references, so that what they store may stay virtual. -/
def keepsVirtuals : Opcode → Bool
  | .setfieldGc | .setarrayitemGc | .setarrayitemRaw | .quasiimmutField | .sameAs => true
  | _ => false

/-- Allocates the virtual arguments of an operation before the passes that remember results. -/
def pass (next : Emit) (op : Op) : OptimizeM Unit := do
  unless keepsVirtuals op.code do
    for v in op.args do
      match (← get).id? v with
      | some i => do
        if (← info i).isVirtual then
          let _ ← force next i
      | none => pure ()
  next op

end EarlyForce
end FlowCompiler.Trace
