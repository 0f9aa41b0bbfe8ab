import Std.Data.HashMap
import FlowCompiler.Text.Decimal
import FlowCompiler.Trace.Effect
import FlowCompiler.Trace.Resume

/-!
# The store of traces

The layouts that descriptors name, the objects of the heap, and what the compiled units and guards of a
session remember.  Everything is numbered in the order in which it is made.
-/

/-! ## The state of a guard

A guard keeps one word: the lowest bit says that somebody is busy compiling a bridge for it, the next
two bits say which counter its failures go to, and the rest is a number.  A guard either has a counter
of its own, whose hash is in the word, or one counter for every value that it fails on; then the word
holds the kind and the place of that value among the saved ones. -/

namespace FlowCompiler.Trace

structure GuardStatus where
  word : UInt32 := 0
deriving DecidableEq, Repr, Inhabited

/-- The counter that a failure goes to. -/
inductive GuardCounter where
  | own (hash : UInt32)
  | perValue (kind : Kind) (index : Nat)
deriving DecidableEq, Repr

namespace GuardStatus

def busyBit : UInt32 := 1
def kindMask : UInt32 := 6

/-- How many bits stand before the number. -/
def shift : UInt32 := 3

/-- The bits of the number. -/
def numberMask : UInt32 := ~~~((1 <<< shift) - 1)

def kindBits : Kind → UInt32
  | .int => 2
  | .ref => 4
  | .float => 6
  | .void => 0

/-- The word of a guard with a counter of its own. -/
def counted (hash : UInt32) : GuardStatus := ⟨hash &&& numberMask⟩

/-- The word of a guard with a counter for every value. -/
def valued (k : Kind) (index : Nat) : GuardStatus := ⟨kindBits k ||| (UInt32.ofNat index <<< shift)⟩

def isBusy (s : GuardStatus) : Bool := s.word &&& busyBit ≠ 0

/-- The word with the guard busy, unless it is so already. -/
def start? (s : GuardStatus) : Option GuardStatus := if s.isBusy then none else some ⟨s.word ||| busyBit⟩

def finish (s : GuardStatus) : GuardStatus := ⟨s.word &&& ~~~busyBit⟩

def kindOf (s : GuardStatus) : Kind :=
  let bits := s.word &&& kindMask
  if bits = kindBits .int then .int else if bits = kindBits .ref then .ref
  else if bits = kindBits .float then .float else .void

/-- Where a failure is counted; while the guard is busy nowhere. -/
def counter? (s : GuardStatus) : Option GuardCounter :=
  if s.isBusy then none
  else match s.kindOf with
    | .void => some (.own (s.word &&& numberMask))
    | k => some (.perValue k (s.word >>> shift).toNat)

end GuardStatus

/-! ## Descriptors -/

structure SizeDescr where
  name : String
  cls : Option Ref := none
deriving Inhabited

structure FieldDescr where
  name : String
  parent : SizeId
  kind : Kind
deriving Inhabited

structure ArrayDescr where
  name : String
  item : Kind
deriving Inhabited

structure CallDescr where
  name : String
  args : List Kind
  result : Kind
  effect : Effect
deriving Inhabited

/-- A compiled unit. -/
structure Cell where
  number : Int := 0
  targets : List TargetId := []
  compiled : Bool := false
  /-- A field that the unit relies on has changed. -/
  invalidated : Bool := false
  retraces : Nat := 0
deriving Inhabited

/-- A place to jump to. -/
structure Target where
  cell : Option CellId := none
  label : Option Op := none
deriving Inhabited

/-- A rarely changing field as a trace saw it. -/
structure QuasiDescr where
  object : Ref
  field : FieldId
  watch : Option Nat
  seen : Value
deriving Inhabited

/-- What a guard remembers. -/
structure GuardDescr where
  code : Opcode
  status : GuardStatus := {}
  /-- The hash that the counters of the guard are told apart by. -/
  hash : UInt32 := 0
  data : Option ResumeData := none
  loop : Option CellId := none
  bridge : Option Loop := none
deriving Inhabited

/-- Guards after calls that may force the frame. -/
def GuardDescr.isForced (g : GuardDescr) : Bool := g.code == .guardNotForced || g.code == .guardNotForced2

/-! ## Objects -/

/-- Functions on strings that calls are specialised to. -/
inductive StringFunction where
  | concat
  | slice
  | equal
  | equalSliceCheckNull
  | equalSliceNonNull
  | equalSliceChar
  | equalNonNull
  | equalNonNullChar
  | equalCheckNullChar
  | equalLengthOk
  | compare
deriving DecidableEq, Repr, Inhabited

/-- What a function does when it is called. -/
inductive Behaviour where
  | arg (i : Nat)
  | const (v : Option Value)
  /-- The sum of the integer arguments. -/
  | sum
  | nothing
  | raise (exc : Option Ref)
  | fail (text : String)
  /-- Stores argument `j` into a field of argument `i`. -/
  | set (i : Nat) (f : FieldId) (j : Nat)
  /-- Forces the frame of argument `i`. -/
  | force (i : Nat) (v : Option Value)
  | string (f : StringFunction)
deriving Inhabited

inductive Object where
  | cls (name : String) (parent : Option Ref)
  | struct (size : Option SizeId) (cls : Option Ref) (fields : List (FieldId × Value))
  | array (descr : ArrayId) (items : Array Value)
  | str (chars : List Int) (unicode : Bool)
  | func (name : String) (behaviour : Option Behaviour)
  /-- Stands for a running frame. -/
  | frameToken (f : FrameId)
deriving Inhabited

/-- A frame of the machine; after an exit it holds what was saved. -/
structure Frame where
  descr : Option Descr := none
  values : List (Option Value) := []
  /-- The values of boxes; a box may be bound to a hole. -/
  env : Std.HashMap Box (Option Value) := {}
  token : Option CellId := none
  exc : Option Ref := none
  overflow : Bool := false
  forced : Bool := false
  /-- The guard after the call that is running. -/
  pendingGuard : Option Op := none
  /-- The objects that forcing has made. -/
  saved : Option (List Ref) := none
deriving Inhabited

structure Store where
  sizes : Array SizeDescr := #[]
  fields : Array FieldDescr := #[]
  arrays : Array ArrayDescr := #[]
  calls : Array CallDescr := #[]
  guards : Array GuardDescr := #[]
  cells : Array Cell := #[]
  targets : Array Target := #[]
  quasis : Array QuasiDescr := #[]
  /-- The units that rely on a rarely changing field. -/
  watches : Array (List CellId) := #[]
  objects : Array Object := #[]
  /-- Constant strings by content. -/
  interned : List ((Bool × List Int) × Ref) := []
  frames : Array Frame := #[]
  boxes : Nat := 0
  /-- The values that boxes had when they were recorded. -/
  recorded : Std.HashMap Box Const := {}
deriving Inhabited

abbrev StoreM := EStateM Failure Store

namespace Store

def size (s : Store) (i : SizeId) : SizeDescr := (s.sizes[i]?).getD default
def field (s : Store) (i : FieldId) : FieldDescr := (s.fields[i]?).getD default
def array (s : Store) (i : ArrayId) : ArrayDescr := (s.arrays[i]?).getD default
def call (s : Store) (i : CallId) : CallDescr := (s.calls[i]?).getD default
def guard (s : Store) (i : GuardId) : GuardDescr := (s.guards[i]?).getD default
def cell (s : Store) (i : CellId) : Cell := (s.cells[i]?).getD default
def target (s : Store) (i : TargetId) : Target := (s.targets[i]?).getD default
def quasi (s : Store) (i : QuasiId) : QuasiDescr := (s.quasis[i]?).getD default
def object (s : Store) (r : Ref) : Object := (s.objects[r]?).getD default
def frame (s : Store) (f : FrameId) : Frame := (s.frames[f]?).getD default

def updateGuard (s : Store) (i : GuardId) (f : GuardDescr → GuardDescr) : Store := { s with guards := s.guards.modify i f }
def updateCell (s : Store) (i : CellId) (f : Cell → Cell) : Store := { s with cells := s.cells.modify i f }
def updateTarget (s : Store) (i : TargetId) (f : Target → Target) : Store := { s with targets := s.targets.modify i f }
def updateObject (s : Store) (r : Ref) (f : Object → Object) : Store := { s with objects := s.objects.modify r f }
def updateFrame (s : Store) (i : FrameId) (f : Frame → Frame) : Store := { s with frames := s.frames.modify i f }

/-! ## Classes and strings -/

def isSubclassAux (s : Store) (other : Ref) : (fuel : Nat) → Ref → Bool
  | 0, _ => false
  | n + 1, c => c == other || (match s.object c with
    | .cls _ (some p) => s.isSubclassAux other n p
    | _ => false)

/-- Whether a class is another one or derived from it. -/
def isSubclass (s : Store) (c other : Ref) : Bool := s.isSubclassAux other (s.objects.size + 1) c

def className (s : Store) (c : Ref) : String :=
  match s.object c with
  | .cls name _ => name
  | _ => ""

def isClass (s : Store) (r : Ref) : Bool :=
  match s.object r with
  | .cls _ _ => true
  | _ => false

def isStruct (s : Store) (r : Ref) : Bool :=
  match s.object r with
  | .struct _ _ _ => true
  | _ => false

/-- The class of an instance. -/
def classOf? (s : Store) (r : Ref) : Option Ref :=
  match s.object r with
  | .struct _ c _ => c
  | _ => none

def str? (s : Store) (r : Ref) : Option (List Int × Bool) :=
  match s.object r with
  | .str cs u => some (cs, u)
  | _ => none

/-- A field of an object; one never written is zero. -/
def getField (s : Store) (fields : List (FieldId × Value)) (f : FieldId) : Value :=
  (fields.lookup f).getD (.const (.zero (s.field f).kind))

/-- The fields with one of them written. -/
def setField (fields : List (FieldId × Value)) (f : FieldId) (v : Value) : List (FieldId × Value) :=
  if fields.any (·.1 == f) then fields.map fun (g, w) => if g = f then (g, v) else (g, w) else fields ++ [(f, v)]

/-- The replacement of what is no character in a text. -/
def replacement : Int := 0xFFFD

/-- Whether a number is a character of a text. -/
def isScalar (n : Int) : Bool := 0 ≤ n && n ≤ 0x10FFFF && !(0xD800 ≤ n && n ≤ 0xDFFF)

/-- The characters as they are in a text. -/
def scalars (cs : List Int) : List Int := cs.map fun c => if isScalar c then c else replacement

def textOf (cs : List Int) : String := String.ofList ((scalars cs).map fun c => Char.ofNat c.toNat)

def charsOf (t : String) : List Int := t.toList.map fun c => (c.toNat : Int)

/-! ## Texts -/

def objectText (s : Store) (r : Ref) : String :=
  match s.object r with
  | .cls name _ => s!"<class {name}>"
  | .struct (some d) _ _ => s!"<{(s.size d).name}>"
  | .struct none _ _ => "<struct>"
  | .array _ items => s!"<array {items.size}>"
  | .str cs u => (if u then "u" else "") ++ Quoted.quote (textOf cs)
  | .func name _ => s!"<func {name}>"
  | .frameToken _ => "<force token>"

def constText (s : Store) : Const → String
  | .int n => toString n.toInt
  | .float d => d.text
  | .ptr none => "NULL"
  | .ptr (some r) => s!"ConstPtr({s.objectText r})"

def valueText (s : Store) : Value → String
  | .box b => b.text
  | .const c => s.constText c

/-- The text of a value inside a message, where there may be none. -/
def optValueText (s : Store) : Option Value → String
  | some v => s.valueText v
  | none => "%!s(<nil>)"

def cellText (s : Store) (c : CellId) : String := s!"<Loop{(s.cell c).number}>"

def descrText (s : Store) : Descr → String
  | .size i => s!"<SizeDescr {(s.size i).name}>"
  | .field i =>
    let f := s.field i
    s!"<FieldDescr {(s.size f.parent).name}.{f.name}>"
  | .array i => s!"<ArrayDescr {(s.array i).name}>"
  | .call i => s!"<CallDescr {(s.call i).name}>"
  | .plainGuard n => s!"<Guard{n}>"
  | .plainFinal n => s!"<Final{n}>"
  | .guard i =>
    let g := s.guard i
    if g.isForced then s!"<ResumeGuardForcedDescr {g.code.name}>" else s!"<ResumeGuardDescr {g.code.name}>"
  | .cell i => s.cellText i
  | .target i =>
    match (s.target i).cell with
    | none => "<Target>"
    | some c => s!"<Target of Loop{(s.cell c).number}>"
  | .quasi i => s!"<QuasiImmutDescr {(s.field (s.quasi i).field).name}>"
  | .done k => s!"<DoneWithThisFrameDescr {k.letter}>"
  | .exitException => "<ExitFrameWithExceptionDescrRef>"
  | .propagateException => "<PropagateExceptionDescr>"

def opText (s : Store) (op : Op) : String :=
  let result := (op.result.map fun b => b.text ++ " = ").getD ""
  let descr := (op.descr.map fun d => ["descr=" ++ s.descrText d]).getD []
  let args := joinWith ", " (op.args.map s.valueText ++ descr)
  let fail := match op.fail with
    | none => ""
    | some vs => " [" ++ joinWith ", " (vs.map fun (v : Option Value) => (v.map s.valueText).getD "None") ++ "]"
  s!"{result}{op.code.name}({args}){fail}"

def traceText (s : Store) (inputs : List Box) (ops : List Op) : String :=
  "[" ++ joinWith ", " (inputs.map Box.text) ++ "]\n" ++ String.join (ops.map fun op => s.opText op ++ "\n")

/-! ## Making things -/

def newBox (k : Kind) : StoreM Box := modifyGet fun s => (⟨s.boxes + 1, k⟩, { s with boxes := s.boxes + 1 })

/-- The value that a box had when it was recorded. -/
def recordedOf (s : Store) (b : Box) : Const := (s.recorded[b]?).getD (.zero b.kind)

def record (b : Box) (c : Const) : StoreM Unit := modify fun s => { s with recorded := s.recorded.insert b c }

/-- The constant that a value stands for when it was recorded. -/
def constOf (s : Store) : Value → Const
  | .box b => s.recordedOf b
  | .const c => c

def intOf (s : Store) (v : Value) : Int64 := ((s.constOf v).int?).getD 0

def refOf (s : Store) (v : Value) : Option Ref := (s.constOf v).ref?

def newObject (o : Object) : StoreM Ref := modifyGet fun s => (s.objects.size, { s with objects := s.objects.push o })

def newStruct (size : Option SizeId) (cls : Option Ref) : StoreM Ref := do
  let s ← get
  let c := cls <|> size.bind fun d => (s.size d).cls
  newObject (.struct size c [])

def newArray (d : ArrayId) (n : Nat) : StoreM Ref := do
  let zero := Value.const (.zero ((← get).array d).item)
  newObject (.array d (Array.replicate n zero))

/-- The constant string with given characters; equal strings are one object. -/
def intern (cs : List Int) (unicode : Bool) : StoreM Ref := do
  let key := (unicode, scalars cs)
  match (← get).interned.lookup key with
  | some r => pure r
  | none => do
    let r ← newObject (.str key.2 unicode)
    modify fun s => { s with interned := (key, r) :: s.interned }
    pure r

def newGuard (code : Opcode) : StoreM GuardId :=
  modifyGet fun s => (s.guards.size, { s with guards := s.guards.push { code } })

def newCell : StoreM CellId := modifyGet fun s => (s.cells.size, { s with cells := s.cells.push {} })

/-- A new place to jump to, which belongs to a unit if one is given. -/
def newTarget (cell : Option CellId) : StoreM TargetId := modifyGet fun s =>
  let t := s.targets.size
  let s := { s with targets := s.targets.push { cell } }
  (t, match cell with
    | some c => s.updateCell c fun k => { k with targets := k.targets ++ [t] }
    | none => s)

def newCall (d : CallDescr) : StoreM CallId := modifyGet fun s => (s.calls.size, { s with calls := s.calls.push d })

def newWatch : StoreM Nat := modifyGet fun s => (s.watches.size, { s with watches := s.watches.push [] })

/-- The field was changed: every unit that relies on it is invalid. -/
def invalidate (s : Store) (w : Nat) : Store :=
  let s := ((s.watches[w]?).getD []).foldl (fun s c => s.updateCell c fun k => { k with invalidated := true }) s
  { s with watches := s.watches.setIfInBounds w [] }

end Store
end FlowCompiler.Trace
