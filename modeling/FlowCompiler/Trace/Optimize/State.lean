import Std.Data.HashSet
import FlowCompiler.Settings
import FlowCompiler.Trace.Bound
import FlowCompiler.Trace.Execute

/-!
# What the optimizer knows

While a trace is optimized every value has an entry that says what is known of it.  Boxes that are proven
equal share one entry, so two values are known to be equal when their entries have the same number.  An
entry without a box is that of a virtual object: one that has not been allocated because nothing outside
the trace has seen it yet.

The operations of a trace pass through a chain of passes one after another.  A pass may hold an operation
back and look at it again after it was written out; what was written out then has the arguments that it
was written out with (`OptimizeM.argsOf`).
-/

namespace FlowCompiler.Trace

abbrev InfoId := Nat
abbrev BoundId := Nat

/-- How much is known of a value. -/
inductive Level where
  | unknown
  | nonNull
  | knownClass
  | constant
deriving DecidableEq, Repr, Inhabited

def Level.rank : Level → Nat
  | unknown => 0
  | nonNull => 1
  | knownClass => 2
  | constant => 3

/-- An object that is not allocated.  The kind of a string is kept after it was allocated. -/
inductive Virtual where
  /-- The fields in the order in which they were first set. -/
  | struct (size : Option SizeId) (cls : Option Ref) (fields : List (FieldId × InfoId))
  | array (descr : ArrayId) (items : Array InfoId) (clear : Bool)
  /-- A string of known length; characters never written are missing. -/
  | plain (unicode : Bool) (chars : Array (Option InfoId))
  /-- Two strings in a row, and the length once it was computed. -/
  | concat (unicode : Bool) (left right : InfoId) (length : Option Value)
  /-- A part of a string. -/
  | slice (unicode : Bool) (str start length : InfoId)
deriving Inhabited

/-- What is known of a value. -/
structure Info where
  /-- The value that stands for it; a virtual object has none. -/
  box : Option Value
  /-- The value that it is known by, also while it is virtual. -/
  key : Value
  level : Level := .unknown
  cls : Option Ref := none
  bound : Option BoundId := none
  /-- The bound of the length of an array or string. -/
  len : Option BoundId := none
  virt : Option Virtual := none
deriving Inhabited

namespace Info

def isConst (i : Info) : Bool := i.level == .constant

def isVirtual (i : Info) : Bool := i.virt.isSome && i.box.isNone

/-- Certainly not null, or not zero. -/
def isNonNull (i : Info) : Bool :=
  if i.isConst then
    match i.box with
    | some (.const (.ptr p)) => p.isSome
    | some (.const (.int n)) => n != 0
    | _ => true
  else i.level.rank ≥ Level.nonNull.rank

def isNull (i : Info) : Bool := i.isConst && i.box == some Value.null

def knownClass? (i : Info) : Option Ref := if i.level.rank ≥ Level.knownClass.rank then i.cls else none

def constInt? (i : Info) : Option Int64 := if i.isConst then i.box.bind Value.int? else none

/-- The object that a constant points to. -/
def constRef? (i : Info) : Option Ref :=
  if i.isConst then (i.box.bind Value.const?).bind Const.ref? else none

/-- The value under which resume data refer to it. -/
def resumeItem (i : Info) : Option Value := if i.isVirtual then some i.key else i.box

def withNonNull (i : Info) : Info := if i.level.rank < Level.nonNull.rank then { i with level := .nonNull } else i

def withClass (i : Info) (c : Ref) : Info :=
  if i.level.rank < Level.knownClass.rank then { i with level := .knownClass, cls := some c } else i

end Info

/-! ## The state -/

/-- What a pass gave on last. -/
inductive Last where
  | nothing
  /-- The operation was removed altogether. -/
  | removed
  | op (op : Op)
deriving Inhabited

def Last.isRemoved : Last → Bool
  | removed => true
  | _ => false

/-- An operation whose result is known. -/
structure PureKey where
  code : Opcode
  descr : Option Descr
  args : List InfoId
deriving DecidableEq, Hashable, Inhabited

/-- A place in memory: a field, or an item of the arrays of a type, of whatever object. -/
inductive Slot where
  | field (f : FieldId)
  | item (a : ArrayId) (index : Int64)
deriving DecidableEq, Hashable, Inhabited

/-- What is known of a place in memory.  While a store is held back the known values are out of date for
its object. -/
structure SlotCache where
  /-- The contents by object. -/
  known : List (InfoId × InfoId) := []
  held : Option Op := none
  /-- Whether the place is in the list of those with a store held back. -/
  listed : Bool := false
deriving Inhabited

structure HeapCache where
  slots : Std.HashMap Slot SlotCache := {}
  /-- The places that had a store held back, in the order in which they first had one. -/
  listed : List Slot := []
  /-- The results of lookups in dictionaries by the descriptor of the entries. -/
  lookups : List (Descr × List ((Option Value × Option Value) × InfoId)) := []
  /-- The descriptor of the entries by that of their array. -/
  entriesOf : List (Descr × Descr) := []
  dropInvalidationGuard : Bool := false
  seenInvalidationGuard : Bool := false
  /-- An operation that waits for the guard behind it. -/
  postponed : Option Op := none
deriving Inhabited

/-- The limits of the optimizer. -/
structure Limits where
  /-- The longest array or string that is kept virtual. -/
  constLen : Int := 100
  /-- Copies of constant strings up to this length are written out. -/
  unrollConst : Int := 5
  unrollVar : Int := 2
deriving Inhabited

structure OptimizeState where
  store : Store := {}
  limits : Limits := {}
  /-- Whether results of operations without side effect are remembered. -/
  remembersPure : Bool := true
  table : CallTable := []
  ids : Std.HashMap Value InfoId := {}
  infos : Array Info := #[]
  bounds : Array Bound := #[]
  producers : Std.HashMap Box Op := {}
  /-- The entries that are certainly 0 or 1. -/
  bools : Std.HashSet InfoId := {}
  /-- The operations written out, with the resume data of guards. -/
  out : Array (Op × Option ResumeData) := #[]
  /-- Stores put off until after the next guard. -/
  pending : List (Pending (Option Value)) := []
  /-- The rarely changing fields that the result relies on. -/
  watches : List Nat := []
  /-- The arguments that tagged operations were written out with. -/
  written : Std.HashMap Nat (List Value) := {}
  tags : Nat := 0
  lastBounds : Last := .nothing
  lastString : Last := .nothing
  lastPure : Last := .nothing
  lastHeap : Last := .nothing
  /-- The results of calls that need to be made once. -/
  invariants : List (InfoId × InfoId) := []
  pureOps : Std.HashMap PureKey InfoId := {}
  postponed : Option Op := none
  heap : HeapCache := {}
  lastLabel : Option TargetId := none
deriving Inhabited

abbrev OptimizeM := EStateM Failure OptimizeState

/-- Where a pass gives an operation on to. -/
abbrev Emit := Op → OptimizeM Unit

namespace OptimizeState

def info (s : OptimizeState) (i : InfoId) : Info := (s.infos[i]?).getD default

def bound (s : OptimizeState) (b : BoundId) : Bound := (s.bounds[b]?).getD default

/-- The entry of a value, if it has one. -/
def id? (s : OptimizeState) (v : Value) : Option InfoId := v.key?.bind fun k => s.ids[k]?

end OptimizeState

namespace OptimizeM

def onStore {α : Type} (m : StoreM α) : OptimizeM α := fun s =>
  let st := s.store
  let s := { s with store := {} }
  match m.run st with
  | .ok a st => .ok a { s with store := st }
  | .error f st => .error f { s with store := st }

/-- Runs an operation; what it changed stays, also when it fails. -/
def onExec {α : Type} (m : ExecM α) : OptimizeM (Except ExecError α) := fun s =>
  let st := s.store
  let s := { s with store := {} }
  match m.run st with
  | .ok a st => .ok (.ok a) { s with store := st }
  | .error e st => .ok (.error e) { s with store := st }

def invalid {α : Type} (reason : String) : OptimizeM α := throw (.invalidLoop reason)

/-! ## Entries -/

def info (i : InfoId) : OptimizeM Info := return (← get).info i

def update (i : InfoId) (f : Info → Info) : OptimizeM Unit := modify fun s => { s with infos := s.infos.modify i f }

def newBound (b : Bound) : OptimizeM BoundId := modifyGet fun s => (s.bounds.size, { s with bounds := s.bounds.push b })

def newInfo (i : Info) : OptimizeM InfoId := modifyGet fun s => (s.infos.size, { s with infos := s.infos.push i })

/-- What a value says of itself. -/
def describe (v : Value) : OptimizeM Info := do
  let i : Info := { box := some v, key := v }
  match v with
  | .const (.int n) => return { i with level := .constant, bound := some (← newBound (.exactly n)) }
  | .const (.float _) => pure { i with level := .constant }
  | .const (.ptr p) => return { i with level := .constant, cls := p.bind (← get).store.classOf? }
  | .box b => if b.kind = .int then return { i with bound := some (← newBound .unbounded) } else pure i

/-- The entry of a value, made when there is none. -/
def idOf (v : Value) : OptimizeM InfoId := do
  match (← get).id? v with
  | some i => pure i
  | none => do
    let i ← newInfo (← describe v)
    match v.key? with
    | some k => modify fun s => { s with ids := s.ids.insert k i }
    | none => pure ()
    pure i

def infoOf (v : Value) : OptimizeM Info := do info (← idOf v)

/-- The entry of the result of an operation. -/
def resultId (op : Op) : OptimizeM InfoId := idOf (.box (op.result.getD default))

def constIntOf (v : Value) : OptimizeM (Option Int64) := return (← infoOf v).constInt?

/-- The result of an operation is what an entry describes. -/
def setEqual (b : Option Box) (i : InfoId) : OptimizeM Unit :=
  match b with
  | some b => modify fun s => { s with ids := s.ids.insert (.box b) i }
  | none => pure ()

/-- An entry is proven to be a constant. -/
def becomeConst (i : InfoId) (c : Option Value) : OptimizeM Unit := do
  update i fun x => { x with box := c, level := .constant, virt := none }
  match c with
  | some (.const (.int n)) => do
    let b ← newBound (.exactly n)
    update i fun x => { x with bound := some b }
  | some (.const (.ptr (some r))) => do
    let s := (← get).store
    if s.isStruct r then update i fun x => { x with cls := s.classOf? r }
  | _ => pure ()

/-- A box is proven to be a constant. -/
def setConst (b : Option Box) (c : Option Value) : OptimizeM Unit := do
  match b with
  | none => pure ()
  | some b => do
    let s ← get
    match s.id? (.box b) with
    | some i =>
      let x := s.info i
      if !x.isConst && !x.isVirtual then becomeConst i c
      else match c with
        | some c => do setEqual (some b) (← idOf c)
        | none => pure ()
    | none =>
      match c with
      | some c => do setEqual (some b) (← idOf c)
      | none => pure ()

def setConstInt (b : Option Box) (n : Int64) : OptimizeM Unit := setConst b (some (.const (.int n)))

/-- Two entries are statically the same value. -/
def sameValue (i j : InfoId) : OptimizeM Bool := do
  if i = j then pure true
  else
    let x ← info i
    let y ← info j
    pure (x.isConst && y.isConst && x.box == y.box)

def ensureNonNull (i : InfoId) : OptimizeM Unit := update i Info.withNonNull

/-- The class that a constant is. -/
def classOfConst? (i : Info) : OptimizeM (Option Ref) := do
  let s := (← get).store
  pure (i.constRef?.filter s.isClass)

/-! ## Bounds -/

def getBound (b : BoundId) : OptimizeM Bound := return (← get).bound b

/-- The bound of an entry, which is made when there is none. -/
def boundId (i : InfoId) : OptimizeM BoundId := do
  match (← info i).bound with
  | some b => pure b
  | none => do
    let b ← newBound .unbounded
    update i fun x => { x with bound := some b }
    pure b

def boundOf (i : InfoId) : OptimizeM Bound := do getBound (← boundId i)

/-- The bound of the length of an array or string. -/
def lenId (i : InfoId) : OptimizeM BoundId := do
  match (← info i).len with
  | some b => pure b
  | none => do
    let b ← newBound (.atLeast 0)
    update i fun x => { x with len := some b }
    pure b

/-- Tightens a bound; tells whether it changed. -/
def tighten (b : BoundId) (f : Bound → Bound × Bool) : OptimizeM Bool := do
  let (c, changed) := f (← getBound b)
  modify fun s => { s with bounds := s.bounds.setIfInBounds b c }
  pure changed

/-- The length is greater than a number. -/
def lengthAbove (i : InfoId) (n : Int64) : OptimizeM Unit := do
  let _ ← tighten (← lenId i) fun b => b.makeGt (.exactly n)

/-! ## Operations -/

/-- Gives an operation a tag, so that it can be looked at again after it was written out. -/
def tagged (op : Op) : OptimizeM Op := modifyGet fun s =>
  ({ op with tag := s.tags + 1 }, { s with tags := s.tags + 1 })

/-- An operation as it is now: with the arguments that it was written out with, if it was. -/
def current (op : Op) : OptimizeM Op := do
  if op.tag = 0 then pure op
  else match (← get).written[op.tag]? with
    | some args => pure { op with args }
    | none => pure op

def newBox (k : Kind) : OptimizeM Box := onStore (Store.newBox k)

/-! ## Results of operations without side effect -/

/-- Operations with more arguments than this are not remembered. -/
def maxKeyArgs : Nat := 6

def pureKey? (code : Opcode) (args : List Value) (descr : Option Descr) : OptimizeM (Option PureKey) := do
  if args.length > maxKeyArgs then pure none
  else return some { code, descr, args := ← args.mapM idOf }

/-- Remembers the result of an operation without descriptor. -/
def rememberPure (code : Opcode) (args : List Value) (result : Value) : OptimizeM Unit := do
  if (← get).remembersPure then
    match ← pureKey? code args none with
    | some k => do
      let r ← idOf result
      modify fun s => { s with pureOps := s.pureOps.insert k r }
    | none => pure ()

/-- The remembered result of an operation. -/
def recallPure (code : Opcode) (args : List Value) (descr : Option Descr) : OptimizeM (Option InfoId) := do
  if (← get).remembersPure then
    match ← pureKey? code args descr with
    | some k => return (← get).pureOps[k]?
    | none => pure none
  else pure none

/-- The constants that all arguments are, if they are. -/
def allConst? : List Value → OptimizeM (Option (List Value))
  | [] => pure (some [])
  | a :: rest => do
    let x ← infoOf a
    match x.isConst, x.box with
    | true, some v => return (← allConst? rest).map (v :: ·)
    | _, _ => pure none

/-- The result of an operation on constants, if it has one. -/
def fold? (op : Op) : OptimizeM (Option Value) := do
  if op.result.isNone then pure none
  else match ← allConst? op.args with
    | none => pure none
    | some args => do
      match ← onExec (execute op.code op.descr args) with
      | .ok r => pure r
      | .error (.misread k c) => throw (.plain ((ExecError.misread k c).message (← get).store))
      | .error _ => pure none

end OptimizeM
end FlowCompiler.Trace
