import FlowCompiler.Trace.Store

/-!
# Rebuilding from resume data

The values that a guard saved, with every virtual object that they mention allocated.  An object is
entered before its contents are read, so that a cycle of virtual objects becomes a cycle of objects.
-/

namespace FlowCompiler.Trace

/-- Reads resume data against the live values. -/
structure Reader where
  data : ResumeData
  live : Array Value
  /-- The virtual objects allocated so far. -/
  allocated : List (Nat × Ref) := []
deriving Inhabited

abbrev ReadM := StateT Reader StoreM

namespace Reader

/-- As many live values are needed as boxes were saved. -/
def make (data : ResumeData) (live : List Value) : Except Failure Reader :=
  if live.length = data.live.size then .ok { data, live := live.toArray }
  else .error (.plain s!"resume: expected {data.live.size} live values, got {live.length}")

def store : ReadM Store := getThe Store

def remember (i : Nat) (r : Ref) : ReadM Unit := modify fun s => { s with allocated := (i, r) :: s.allocated }

/-- Keeps the low 32 bits, as a character does. -/
def toChar (n : Int64) : Int := n.toInt32.toInt

/-- The characters of a string value. -/
def charsOf (v : Option Value) : ReadM (List Int) := do
  let s ← store
  match v.bind fun v => (s.refOf v).bind s.str? with
  | some (cs, _) => pure cs
  | none => throw (.plain s!"resume: {s.optValueText v} is not a string")

def numberOf (v : Option Value) : ReadM Int64 := do
  let s ← store
  pure ((v.map s.intOf).getD 0)

/-- A string of a virtual object. -/
def readString (decode : Tagged → ReadM (Option Value)) (shape : Shape Tagged) : ReadM (List Int) := do
  match shape.kind with
  | .plain => shape.items.mapM fun n => do
    match ← decode n with
    | some v => return toChar ((← store).intOf v)
    | none => pure 0
  | .concat => return (← shape.items.mapM fun n => do charsOf (← decode n)).flatten
  | .slice => do
    let item (i : Nat) : Tagged := (shape.items[i]?).getD .unassigned
    let base ← charsOf (← decode (item 0))
    let start ← numberOf (← decode (item 1))
    let length ← numberOf (← decode (item 2))
    pure ((base.drop start.toInt.toNat).take length.toInt.toNat)
  | k => throw (.plain s!"resume: unknown virtual kind {k.number}")

def readFields (decode : Tagged → ReadM (Option Value)) (r : Ref) (fs : List (FieldId × Tagged)) : ReadM Unit :=
  fs.forM fun (f, n) => do
    match ← decode n with
    | none => pure ()
    | some v => modifyThe Store fun s => s.updateObject r fun
      | .struct d c fields => .struct d c (Store.setField fields f v)
      | o => o

def readItems (decode : Tagged → ReadM (Option Value)) (r : Ref) (ns : List (Tagged × Nat)) : ReadM Unit :=
  ns.forM fun (n, i) => do
    match ← decode n with
    | none => pure ()
    | some v => modifyThe Store fun s => s.updateObject r fun
      | .array d items => .array d (items.setIfInBounds i v)
      | o => o

/-- Allocates a virtual object. -/
def allocate (decode : Tagged → ReadM (Option Value)) (i : Nat) : ReadM Ref := do
  let shape := ((← get).data.virtuals[i]?).getD default
  match shape.kind with
  | .struct => do
    let r ← Store.newStruct shape.size shape.cls
    remember i r
    readFields decode r (shape.fields.zip shape.items)
    pure r
  | .array => do
    let r ← Store.newArray (shape.array.getD 0) shape.items.length
    remember i r
    readItems decode r shape.items.zipIdx
    pure r
  | _ => do
    let cs ← readString decode shape
    let r ← Store.newObject (.str cs shape.unicode)
    remember i r
    pure r

/-- The virtual object, allocated on the first request. -/
def virtual (decode : Tagged → ReadM (Option Value)) (i : Nat) : ReadM Ref := do
  match (← get).allocated.lookup i with
  | some r => pure r
  | none => allocate decode i

/-- The value of a number.  Virtual objects inside each other are at most `fuel` deep. -/
def decode : (fuel : Nat) → Tagged → ReadM (Option Value)
  | 0, _ => throw (.plain "resume: virtual objects without end")
  | n + 1, x => do
    if x = .unassigned then pure none
    else
      let i := x.value
      match x.tag with
      | .int => pure (some (.ofInt i))
      | .const => return ((← get).data.consts[i.toNat]?).map .const
      | .box => return (← get).live[i.toNat]?
      | .virtual => return some (.ofRef (← virtual (decode n) i.toNat))

/-- Every virtual object is entered at most once on the way down. -/
def depth : ReadM Nat := return (← get).data.virtuals.size + 2

def read (x : Tagged) : ReadM (Option Value) := do decode (← depth) x

/-- Performs a store that was put off. -/
def applyPending (p : Pending Tagged) : ReadM Unit := do
  let target ← read p.target
  let value := (← read p.value).getD .null
  let s ← store
  match target.bind s.refOf with
  | none => throw (.plain s!"resume: pending field on {s.optValueText target}")
  | some r =>
    match s.object r, p.descr with
    | .struct d c fields, .field f => modifyThe Store fun s => s.updateObject r fun _ => .struct d c (Store.setField fields f value)
    | .array d items, _ =>
      modifyThe Store fun s => s.updateObject r fun _ => .array d (items.setIfInBounds (p.index.getD 0).toNat value)
    | _, _ => throw (.plain s!"resume: pending field on {s.optValueText target}")

/-- The saved values, after which the stores that were put off are performed. -/
def rebuild : ReadM (List (Option Value)) := do
  let out ← (← get).data.numbering.mapM read
  (← get).data.pending.forM applyPending
  pure out

/-- Allocates every virtual object, also those that no saved value mentions directly. -/
def forceAll : ReadM (List Ref) := do
  let d ← depth
  (List.range (← get).data.virtuals.size).mapM (virtual (decode d))

end Reader

/-- Rebuilds the saved values of a guard. -/
def ResumeData.rebuild (data : ResumeData) (live : List Value) : StoreM (List (Option Value)) := do
  match Reader.make data live with
  | .error f => throw f
  | .ok r => return (← Reader.rebuild.run r).1

/-- Allocates the virtual objects of a guard. -/
def ResumeData.forceAll (data : ResumeData) (live : List Value) : StoreM (List Ref) := do
  match Reader.make data live with
  | .error f => throw f
  | .ok r => return (← Reader.forceAll.run r).1

end FlowCompiler.Trace
