import FlowCompiler.Trace.Rebuild
import FlowCompiler.Trace.StringCall

/-!
# Executing operations

The meaning of single operations on constants.  The optimizer folds constants with it and the machine
runs traces with it; guards and jumps are not among these operations.
-/

namespace FlowCompiler.Trace

inductive ExecError where
  | overflow
  | notExecutable (code : Opcode)
  | nullPointer
  /-- The callee raised an exception. -/
  | raised (exc : Option Ref)
  /-- A constant is of another kind than what is read. -/
  | misread (k : Kind) (c : Const)
  | failed (f : Failure)
deriving Inhabited

namespace ExecError

def message (s : Store) : ExecError → String
  | overflow => "overflow"
  | notExecutable code => s!"operation is not executable: {code.name}"
  | nullPointer => "null pointer dereference"
  | raised none => "raised %!s(<nil>)"
  | raised (some r) => s!"raised {s.objectText r}"
  | misread k c =>
    let wanted := match k with
      | .int => "an integer"
      | .float => "a float"
      | _ => "a reference"
    s!"expected {wanted}, got {s.valueText (.const c)}"
  | failed f => f.message

end ExecError

abbrev ExecM := EStateM ExecError Store

namespace Exec

def failPlain {α : Type} (text : String) : ExecM α := throw (.failed (.plain text))

/-- Runs a step that works on the store. -/
def onStore {α : Type} (m : StoreM α) : ExecM α := fun s =>
  match m.run s with
  | .ok a s => .ok a s
  | .error f s => .error (.failed f) s

/-! ## Numbers -/

def checked (r : Except Failure Int64) : Except ExecError Int64 :=
  match r with
  | .ok n => .ok n
  | .error _ => .error .overflow

def divided (code : Opcode) (b r : Int64) : Except ExecError Int64 :=
  if b = 0 then .error (.failed (.plain s!"{code.name}: division by zero")) else .ok r

/-- Binary operations on words; division goes toward zero and shifts take the low six bits. -/
def intBinary? (code : Opcode) (a b : Int64) : Option (Except ExecError Int64) :=
  match code with
  | .intAdd => some (.ok (a + b))
  | .intSub => some (.ok (a - b))
  | .intMul => some (.ok (a * b))
  | .intFloordiv => some (divided code b (a / b))
  | .intMod => some (divided code b (a % b))
  | .uintFloordiv => some (divided code b (a.toUInt64 / b.toUInt64).toInt64)
  | .intAnd => some (.ok (a &&& b))
  | .intOr => some (.ok (a ||| b))
  | .intXor => some (.ok (a ^^^ b))
  | .intLshift => some (.ok (a <<< (b &&& 63)))
  | .intRshift => some (.ok (a >>> (b &&& 63)))
  | .uintRshift => some (.ok (a.toUInt64 >>> (b &&& 63).toUInt64).toInt64)
  | .intAddOvf => some (checked (Word.addChecked a b))
  | .intSubOvf => some (checked (Word.subChecked a b))
  | .intMulOvf => some (checked (Word.mulChecked a b))
  | _ => none

def intCompare? (code : Opcode) (a b : Int64) : Option Bool :=
  let ua := a.toUInt64
  let ub := b.toUInt64
  match code with
  | .intLt => some (a < b)
  | .intLe => some (a ≤ b)
  | .intEq => some (a == b)
  | .intNe => some (a != b)
  | .intGt => some (a > b)
  | .intGe => some (a ≥ b)
  | .uintLt => some (ua < ub)
  | .uintLe => some (ua ≤ ub)
  | .uintGt => some (ua > ub)
  | .uintGe => some (ua ≥ ub)
  | _ => none

def floatBinary? (code : Opcode) (a b : Double) : Option Double :=
  match code with
  | .floatAdd => some (a.add b)
  | .floatSub => some (a.sub b)
  | .floatMul => some (a.mul b)
  | .floatTruediv => some (a.div b)
  | _ => none

def floatCompare? (code : Opcode) (a b : Double) : Option Bool :=
  match code with
  | .floatLt => some (a.lt b)
  | .floatLe => some (a.le b)
  | .floatEq => some (a.numEq b)
  | .floatNe => some (!a.numEq b)
  | .floatGt => some (b.lt a)
  | .floatGe => some (b.le a)
  | _ => none

/-- Toward zero; a number outside the words, or a NaN, gives the least word. -/
def floatToInt (d : Double) : Int64 :=
  match d.toWord with
  | .ok n => n
  | .error _ => Int64.minValue

def intUnary? (code : Opcode) (a : Int64) : Option Int64 :=
  match code with
  | .intIsZero => some (if a = 0 then 1 else 0)
  | .intIsTrue => some (if a = 0 then 0 else 1)
  | .intNeg => some (-a)
  | .intInvert => some (~~~a)
  | .intForceGeZero => some (if a < 0 then 0 else a)
  | _ => none

def floatOf (c : Const) : Double :=
  match c with
  | .float d => d
  | _ => ⟨0⟩

/-- The kind that an operation reads its operands as, when it only computes. -/
def reads? : Opcode → Option Kind
  | .intAdd | .intSub | .intMul | .intFloordiv | .uintFloordiv | .intMod | .intAnd | .intOr | .intXor | .intRshift | .intLshift
  | .uintRshift | .intAddOvf | .intSubOvf | .intMulOvf | .intLt | .intLe | .intEq | .intNe | .intGt | .intGe | .uintLt | .uintLe
  | .uintGt | .uintGe | .intIsZero | .intIsTrue | .intNeg | .intInvert | .intForceGeZero | .castIntToFloat => some .int
  | .floatAdd | .floatSub | .floatMul | .floatTruediv | .floatNeg | .floatAbs | .floatLt | .floatLe | .floatEq | .floatNe
  | .floatGt | .floatGe | .castFloatToInt => some .float
  | .ptrEq | .ptrNe | .instancePtrEq | .instancePtrNe => some .ref
  | _ => none

/-- The first constant among the operands that is of another kind than what the operation reads.  A box has a number, a double and a
pointer, whatever its kind, and is always read. -/
def misread? (code : Opcode) (args : List Value) : Option ExecError :=
  (reads? code).bind fun k => (args.take (code.arity.getD 0)).findSome? fun
    | .const c => if c.kind = k then none else some (.misread k c)
    | .box _ => none

/-- Operations that only compute. -/
def compute? (code : Opcode) (a b : Const) : Option (Except ExecError Const) :=
  let x := a.int?.getD 0
  let y := b.int?.getD 0
  let f := floatOf a
  let g := floatOf b
  match intBinary? code x y with
  | some r => some (r.map .int)
  | none =>
    match intCompare? code x y <|> floatCompare? code f g with
    | some t => some (.ok (.ofBool t))
    | none =>
      match floatBinary? code f g with
      | some d => some (.ok (.float d))
      | none =>
        match intUnary? code x with
        | some n => some (.ok (.int n))
        | none =>
          match code with
          | .floatNeg => some (.ok (.float f.neg))
          | .floatAbs => some (.ok (.float f.abs))
          | .castFloatToInt => some (.ok (.int (floatToInt f)))
          | .castIntToFloat => some (.ok (.float (Double.ofInt x.toInt)))
          | .sameAs => some (.ok a)
          | .ptrEq | .instancePtrEq => some (.ok (.ofBool (a.ref? == b.ref?)))
          | .ptrNe | .instancePtrNe => some (.ok (.ofBool (a.ref? != b.ref?)))
          | _ => none

/-! ## Memory -/

/-- The arguments of an operation that works on memory. -/
structure Args where
  store : Store
  values : List Value

def Args.get (a : Args) (i : Nat) : Value := (a.values[i]?).getD default
def Args.const (a : Args) (i : Nat) : Const := a.store.constOf (a.get i)
def Args.int (a : Args) (i : Nat) : Int64 := a.store.intOf (a.get i)
def Args.object? (a : Args) (i : Nat) : Option (Ref × Object) :=
  (a.store.refOf (a.get i)).map fun r => (r, a.store.object r)

def structAt (a : Args) (i : Nat) : ExecM (Ref × Option SizeId × Option Ref × List (FieldId × Value)) :=
  match a.object? i with
  | some (r, .struct d c fs) => pure (r, d, c, fs)
  | _ => throw .nullPointer

def arrayAt (a : Args) (i : Nat) : ExecM (Ref × ArrayId × Array Value) :=
  match a.object? i with
  | some (r, .array d items) => pure (r, d, items)
  | _ => throw .nullPointer

def stringAt (a : Args) (i : Nat) : ExecM (Ref × List Int × Bool) :=
  match a.object? i with
  | some (r, .str cs u) => pure (r, cs, u)
  | _ => throw .nullPointer

def setObject (r : Ref) (o : Object) : ExecM Unit := modify fun s => s.updateObject r fun _ => o

/-- An index into something of a given length. -/
def indexIn (code : Opcode) (i : Int64) (length : Nat) : ExecM Nat :=
  if i.toInt < 0 || i.toInt ≥ length then failPlain s!"{code.name}: index {i.toInt} out of range" else pure i.toInt.toNat

/-- Replaces the part of a list from a place on. -/
def overwrite (xs : List Int) (start : Nat) (part : List Int) : List Int :=
  xs.take start ++ part ++ xs.drop (start + part.length)

/-! ## Calls -/

/-- The value that a frame has for an operand; a box that was never bound is zero. -/
def resolve (f : Frame) : Value → Option Value
  | .box b => (f.env[b]?).getD (some (.const (.zero b.kind)))
  | v => some v

def resolveAll (f : Frame) (vs : List (Option Value)) : List (Option Value) := vs.map fun v => v.bind (resolve f)

/-- A saved value of a frame as a constant of the kind of a box. -/
def savedConst (f : Frame) (i : Nat) (k : Kind) : Const :=
  match (f.values[i]?).join, k with
  | some (.const (.int n)), .int => .int n
  | some (.const (.float d)), .float => .float d
  | some (.const (.ptr p)), .ref => .ptr p
  | _, k => .zero k

/-- The live values of resume data, read from a frame that has left. -/
def liveValues (f : Frame) (data : ResumeData) : List Value :=
  data.live.toList.zipIdx.map fun (b, i) => .const (savedConst f i b.kind)

/-- Allocates the virtual objects of a forced guard and keeps them with the frame. -/
def keepVirtuals (g : GuardId) (frame : FrameId) : StoreM Unit := do
  let s ← get
  let objs ← match (s.guard g).data with
    | none => pure []
    | some data => data.forceAll (liveValues (s.frame frame) data)
  modify fun s => s.updateFrame frame fun f => { f with saved := some objs }

/-- Marks a running frame as forced: the guard after its call will fail, and what that guard saves is
read now. -/
def forceFrame (i : FrameId) : StoreM Unit := do
  modify fun s => s.updateFrame i fun f =>
    match f.pendingGuard with
    | some g => { f with forced := true, descr := g.descr, values := resolveAll f (g.fail.getD []) }
    | none => { f with forced := true }
  match ((← get).frame i).descr with
  | some (.guard g) => if ((← get).guard g).isForced then keepVirtuals g i
  | _ => pure ()

/-- What a function does with its arguments. -/
def behave (b : Behaviour) (args : List Const) : ExecM (Option Value) := do
  let arg (i : Nat) : Option Value := (args[i]?).map .const
  match b with
  | .arg i => pure (arg i)
  | .const v => pure v
  | .sum => pure (some (.const (.int ((args.filterMap Const.int?).foldl (· + ·) 0))))
  | .nothing => pure none
  | .raise exc => throw (.raised exc)
  | .fail text => failPlain text
  | .set i f j => do
    match (args[i]?).bind Const.ref?, arg j with
    | some r, some v => modify fun s => s.updateObject r fun
      | .struct d c fs => .struct d c (Store.setField fs f v)
      | o => o
    | _, _ => pure ()
    pure none
  | .force i v => do
    match (args[i]?).bind Const.ref? with
    | some r =>
      match (← get).object r with
      | .frameToken f => onStore (forceFrame f)
      | _ => pure ()
    | none => pure ()
    pure v
  | .string f => return some (← onStore (f.apply (args.map .const)))

/-- Calls the first argument with the others. -/
def callFunction (code : Opcode) (args : List Value) : ExecM (Option Value) := do
  let s ← get
  match args with
  | [] => failPlain s!"{code.name}: nothing to call"
  | f :: rest =>
    match (s.refOf f).map s.object with
    | some (.func _ (some b)) => behave b (rest.map s.constOf)
    | _ => failPlain s!"{code.name}: {s.valueText f} is not callable"

/-- Operations on memory. -/
def memory (code : Opcode) (descr : Option Descr) (values : List Value) : ExecM (Option Value) := do
  let a : Args := { store := ← get, values }
  let int (n : Int) : ExecM (Option Value) := pure (some (.ofInt n))
  match code, descr with
  | .getfieldGc, some (.field f) | .getfieldGcPure, some (.field f) | .getfieldRaw, some (.field f)
  | .getfieldRawPure, some (.field f) => do
    let (_, _, _, fs) ← structAt a 0
    pure (some (a.store.getField fs f))
  | .setfieldGc, some (.field f) | .setfieldRaw, some (.field f) => do
    let (r, d, c, fs) ← structAt a 0
    setObject r (.struct d c (Store.setField fs f (.const (a.const 1))))
    pure none
  | .arraylenGc, _ => do
    let (_, _, items) ← arrayAt a 0
    int items.size
  | .getarrayitemGc, _ | .getarrayitemGcPure, _ | .getarrayitemRaw, _ => do
    let (_, _, items) ← arrayAt a 0
    let i ← indexIn code (a.int 1) items.size
    pure items[i]?
  | .setarrayitemGc, _ | .setarrayitemRaw, _ => do
    let (r, d, items) ← arrayAt a 0
    let i ← indexIn code (a.int 1) items.size
    setObject r (.array d (items.setIfInBounds i (.const (a.const 2))))
    pure none
  | .strlen, _ | .unicodelen, _ => do
    let (_, cs, _) ← stringAt a 0
    int cs.length
  | .strgetitem, _ | .unicodegetitem, _ => do
    let (_, cs, _) ← stringAt a 0
    let i ← indexIn code (a.int 1) cs.length
    int ((cs[i]?).getD 0)
  | .strsetitem, _ | .unicodesetitem, _ => do
    let (r, cs, u) ← stringAt a 0
    setObject r (.str (cs.set (a.int 1).toInt.toNat (Reader.toChar (a.int 2))) u)
    pure none
  | .copystrcontent, _ | .copyunicodecontent, _ => do
    let (_, src, _) ← stringAt a 0
    let (r, dst, u) ← stringAt a 1
    let part := StringFunction.part src (a.int 2).toInt (a.int 4).toInt
    setObject r (.str (overwrite dst (a.int 3).toInt.toNat part) u)
    pure none
  | .new, some (.size d) => return some (.ofRef (← onStore (Store.newStruct (some d) none)))
  | .newWithVtable, _ => do
    let cls := (a.object? 0).bind fun (r, _) => if a.store.isClass r then some r else none
    return some (.ofRef (← onStore (Store.newStruct none cls)))
  | .newArray, some (.array d) | .newArrayClear, some (.array d) =>
    return some (.ofRef (← onStore (Store.newArray d (a.int 0).toInt.toNat)))
  | .newstr, _ | .newunicode, _ =>
    let cs := List.replicate (a.int 0).toInt.toNat (0 : Int)
    return some (.ofRef (← onStore (Store.newObject (.str cs (code == .newunicode)))))
  | .call, _ | .callPure, _ | .callLoopinvariant, _ | .callMayForce, _ | .callReleaseGil, _ | .callMallocGc, _ =>
    callFunction code values
  | .condCall, _ => if a.int 0 = 0 then pure none else callFunction .call (values.drop 1)
  | .keepalive, _ | .debugMergePoint, _ | .jitDebug, _ | .condCallGcWb, _ | .recordKnownClass, _
  | .quasiimmutField, _ | .virtualRefFinish, _ => pure none
  | .virtualRef, _ => pure (some (.const (a.const 0)))
  | _, _ => throw (.notExecutable code)

end Exec

/-- Executes an operation; some operations have no result. -/
def execute (code : Opcode) (descr : Option Descr) (args : List Value) : ExecM (Option Value) := do
  let s ← get
  let const (i : Nat) : Const := s.constOf ((args[i]?).getD default)
  match Exec.compute? code (const 0) (const 1), Exec.misread? code args with
  | none, _ => Exec.memory code descr args
  | some _, some e => throw e
  | some (.ok c), none => pure (some (.const c))
  | some (.error e), none => throw e

end FlowCompiler.Trace
