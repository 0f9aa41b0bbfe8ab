import FlowCompiler.Trace.Operation

/-!
# Registers

Registers are given to boxes operation by operation.  When there is none left, the box that is needed
last goes to the frame.  Every move of data that this takes is noted in order.
-/

/-! ## Lifetimes of boxes

Where a box is defined and where it is used last, by the positions of the operations.  An operation
without side effect whose result nobody uses does not count as a use of its arguments. -/

namespace FlowCompiler.Trace

structure Lifetime where
  /-- Inputs are defined at 0, or at -1 when nobody uses them. -/
  start : Int
  lastUse : Int
deriving DecidableEq, Repr, Inhabited

structure Lifetimes where
  spans : List (Box × Lifetime) := []
  /-- The last use by an operation that is neither a jump nor a label, saved values of guards apart. -/
  realUses : List (Box × Nat) := []
deriving Inhabited

namespace Lifetimes

def get? (l : Lifetimes) (b : Box) : Option Lifetime := l.spans.lookup b

def set (l : Lifetimes) (b : Box) (t : Lifetime) : Lifetimes :=
  { l with spans := (b, t) :: l.spans.filter (·.1 ≠ b) }

def realUse? (l : Lifetimes) (b : Box) : Option Nat := l.realUses.lookup b

def size (l : Lifetimes) : Nat := l.spans.length

/-- The uses that a scan from the end has seen. -/
structure Uses where
  last : List (Box × Nat) := []
  real : List (Box × Nat) := []

/-- Enters the place of a box unless a later one is known. -/
def enter (uses : List (Box × Nat)) (i : Nat) (b : Box) : List (Box × Nat) :=
  if (uses.lookup b).isSome then uses else uses ++ [(b, i)]

/-- Whether nobody needs an operation. -/
def isDead (uses : Uses) (op : Op) : Bool :=
  op.hasNoSideEffect && op.result.any fun r => (uses.last.lookup r).isNone

/-- One operation of the scan. -/
def scan (uses : Uses) (op : Op) (i : Nat) : Uses :=
  if isDead uses op then uses
  else
    let real := if op.code = .jump || op.code = .label then uses.real else op.boxArgs.foldl (enter · i) uses.real
    let last := op.boxArgs.foldl (enter · i) uses.last
    { last := if op.isGuard then op.boxFails.foldl (enter · i) last else last, real }

/-- The uses of a trace, from its last operation back. -/
def usesOf (ops : List Op) : Uses := ops.zipIdx.foldr (fun (op, i) uses => scan uses op i) {}

/-- Gives the result of an operation its lifetime and crosses it off. -/
def define (l : Lifetimes) (last : List (Box × Nat)) (op : Op) (i : Nat) : Except Failure (Lifetimes × List (Box × Nat)) :=
  match op.result.bind fun r => (last.lookup r).map fun n => (r, n) with
  | none => .ok (l, last)
  | some (r, n) =>
    if n ≤ i then .error (.plain s!"regalloc: {r.text} used before it is defined")
    else .ok (l.set r ⟨i, n⟩, last.filter (·.1 ≠ r))

def defineInput (l : Lifetimes) (last : List (Box × Nat)) (b : Box) : Lifetimes × List (Box × Nat) :=
  match last.lookup b with
  | none => (l.set b ⟨-1, -1⟩, last)
  | some n => (l.set b ⟨0, n⟩, last.filter (·.1 ≠ b))

/-- The lifetimes of the boxes of a trace. -/
def compute (inputs : List Box) (ops : List Op) : Except Failure Lifetimes := do
  let uses := usesOf ops
  let (l, last) ← ops.zipIdx.foldlM (fun (l, last) (op, i) => define l last op i)
    (({ realUses := uses.real } : Lifetimes), uses.last)
  let (l, last) := inputs.foldl (fun (l, last) b => defineInput l last b) (l, last)
  match last with
  | [] => pure l
  | (b, _) :: _ => throw (.plain s!"regalloc: {b.text} is used but never defined")

end Lifetimes
end FlowCompiler.Trace

/-! ## Slots of a frame

Values that have no register live in numbered slots.  A wide value takes two slots, of which the first
has an even number. -/

namespace FlowCompiler.Trace

/-- Free slots in ascending order. -/
abbrev FreeSlots := List Int

namespace FreeSlots

def insert (s : Int) : FreeSlots → FreeSlots
  | [] => [s]
  | t :: rest => if t < s then t :: insert s rest else if t = s then t :: rest else s :: t :: rest

def remove (free : FreeSlots) (s : Int) : FreeSlots := free.filter (· ≠ s)

/-- The slots of a value at a place. -/
def span (pos : Int) (width : Nat) : List Int := (List.range width).map fun (i : Nat) => pos + (i : Int)

def isEven (n : Int) : Bool := n.tmod 2 == 0

/-- Takes some slots in a row, if all of them are free. -/
def take? (free : FreeSlots) (pos : Int) (width : Nat) : Option FreeSlots :=
  if width = 2 && !isEven pos then none
  else if (span pos width).all free.contains then some ((span pos width).foldl remove free)
  else none

/-- The first place for a value. -/
def find? (width : Nat) : FreeSlots → Option Int
  | [] => none
  | s :: rest => if width = 1 || (isEven s && rest.head? == some (s + 1)) then some s else find? width rest

/-- Takes a place for a value, the proposed one if possible. -/
def pop? (free : FreeSlots) (width : Nat) (hint : Option Int) : Option (Int × FreeSlots) :=
  match hint.bind fun h => if h ≥ 0 then (free.take? h width).map fun f => (h, f) else none with
  | some r => some r
  | none => (find? width free).map fun s => (s, (free.take? s width).getD free)

end FreeSlots

structure FrameSlot where
  pos : Int
  width : Nat
deriving DecidableEq, Repr, Inhabited

structure FrameSlots where
  bindings : List (Box × FrameSlot) := []
  hints : List (Box × Int) := []
  free : FreeSlots := []
  depth : Int := 0
  /-- Whether floats take two slots. -/
  wideFloats : Bool := false
deriving Inhabited

namespace FrameSlots

def width (f : FrameSlots) (k : Kind) : Nat := if k = .float && f.wideFloats then 2 else 1

def get? (f : FrameSlots) (b : Box) : Option FrameSlot := f.bindings.lookup b

/-- Proposes a slot for a box. -/
def hint (f : FrameSlots) (b : Box) (pos : Int) : FrameSlots :=
  { f with hints := (b, pos) :: f.hints.filter (·.1 ≠ b) }

def assign (f : FrameSlots) (b : Box) (s : FrameSlot) : FrameSlots :=
  { f with bindings := (b, s) :: f.bindings.filter (·.1 ≠ b) }

/-- The slot of a box, found or made. -/
def slot (f : FrameSlots) (b : Box) : FrameSlot × FrameSlots :=
  match f.get? b with
  | some s => (s, f)
  | none =>
    let w := f.width b.kind
    match f.free.pop? w (f.hints.lookup b) with
    | some (pos, free) => (⟨pos, w⟩, { f with free }.assign b ⟨pos, w⟩)
    | none =>
      if w = 2 && !FreeSlots.isEven f.depth then
        let s : FrameSlot := ⟨f.depth + 1, w⟩
        (s, { f with free := FreeSlots.insert f.depth f.free, depth := f.depth + 1 + w }.assign b s)
      else
        let s : FrameSlot := ⟨f.depth, w⟩
        (s, { f with depth := f.depth + w }.assign b s)

/-- Puts a box into a given slot; slots that are skipped become free. -/
def bind (f : FrameSlots) (b : Box) (s : FrameSlot) : FrameSlots :=
  let free := (FreeSlots.span s.pos s.width).foldl FreeSlots.remove f.free
  let f := { f with free }
  let stop := s.pos + s.width
  let f := if stop > f.depth then
      let skipped := FreeSlots.span f.depth (s.pos - f.depth).toNat
      { f with free := skipped.foldl (fun free p => FreeSlots.insert p free) f.free, depth := stop }
    else f
  f.assign b s

/-- Puts a box into a slot if that is free and fits. -/
def reuse (f : FrameSlots) (b : Box) (s : FrameSlot) : Bool × FrameSlots :=
  if (f.get? b).isSome || s.width ≠ f.width b.kind then (false, f)
  else match f.free.take? s.pos s.width with
    | some free => (true, { f with free }.assign b s)
    | none => (false, f)

/-- Gives the slot of a box back. -/
def release (f : FrameSlots) (b : Box) : FrameSlots :=
  match f.get? b with
  | none => f
  | some s =>
    { f with
      bindings := f.bindings.filter (·.1 ≠ b)
      free := (FreeSlots.span s.pos s.width).foldl (fun free p => FreeSlots.insert p free) f.free }

end FrameSlots

/-- Where a value is. -/
inductive Loc where
  | reg (r : Nat)
  | frame (s : FrameSlot)
  /-- A constant inside the operation. -/
  | imm (v : Value)
deriving DecidableEq, Repr, Inhabited

/-- Which registers a call saves. -/
inductive SaveMode where
  | callerSaved
  | all
  /-- Those that the callee may change, and those that hold references. -/
  | references
deriving DecidableEq, Repr

structure Registers where
  count : Nat
  /-- In ascending order. -/
  free : List Nat
  owner : Array (Option Box)
  bindings : List (Box × Nat) := []
  callerSaved : List Nat := []
  resultReg : Nat := 0
  /-- Registers whose lowest byte cannot be addressed. -/
  noLowByte : List Nat := []
  frame : FrameSlots := {}
  lifetimes : Lifetimes := {}
  moves : List (Loc × Loc) := []
  position : Int := 0
  /-- Boxes for one operation only, and those of them that asked for a register. -/
  temps : List Box := []
  usedTemps : List Box := []
deriving Inhabited

abbrev RegisterM := EStateM Failure Registers

/-- What is demanded of a register. -/
structure Demand where
  /-- The only register that will do. -/
  reg : Option Nat := none
  lowByte : Bool := false
deriving Inhabited

namespace Registers

def make (count : Nat) (callerSaved : List Nat) (resultReg : Nat) (frame : FrameSlots) (lifetimes : Lifetimes) : Registers :=
  { count, free := List.range count, owner := Array.replicate count none, callerSaved, resultReg, frame, lifetimes }

def regOf? (m : Registers) (b : Box) : Option Nat := m.bindings.lookup b

def ownerOf (m : Registers) (r : Nat) : Option Box := (m.owner[r]?).join

def isFree (m : Registers) (r : Nat) : Bool := m.free.contains r

/-- Enters a register among the free ones. -/
def insertFree (r : Nat) : List Nat → List Nat
  | [] => [r]
  | s :: rest => if s < r then s :: insertFree r rest else if s = r then s :: rest else r :: s :: rest

def bind (m : Registers) (b : Box) (r : Nat) : Registers :=
  { m with
    free := m.free.filter (· ≠ r)
    bindings := (b, r) :: m.bindings.filter (·.1 ≠ b)
    owner := m.owner.setIfInBounds r (some b) }

def unbind (m : Registers) (b : Box) : Registers :=
  match m.regOf? b with
  | none => m
  | some r =>
    { m with
      free := insertFree r m.free
      bindings := m.bindings.filter (·.1 ≠ b)
      owner := m.owner.setIfInBounds r none }

/-- The last use of a box; a box without lifetime dies now. -/
def lastUse (m : Registers) (b : Box) : Int := ((m.lifetimes.get? b).map Lifetime.lastUse).getD m.position

def isAlive (m : Registers) (b : Box) : Bool := m.lastUse b > m.position

def moved (m : Registers) (source target : Loc) : Registers := { m with moves := m.moves ++ [(source, target)] }

/-! ## Giving back -/

/-- A box that is not used any more gives back its register and its slot. -/
def release (m : Registers) (v : Value) : Registers :=
  match v with
  | .const _ => m
  | .box b => if m.isAlive b then m else { m.unbind b with frame := m.frame.release b }

def releaseAll (m : Registers) (vs : List Value) : Registers := vs.foldl release m

def releaseTemps (m : Registers) : Registers :=
  let m := m.usedTemps.foldl (fun m b => { m.release (.box b) with temps := m.temps.filter (· ≠ b) }) m
  { m with usedTemps := [] }

/-! ## Taking -/

/-- A register that will do, without moving any other box. -/
def take? (m : Registers) (b : Box) (d : Demand) : Option (Nat × Registers) :=
  let current := m.regOf? b
  match d.reg with
  | some r =>
    if current = some r then some (r, m)
    else if m.isFree r then some (r, (m.unbind b).bind b r)
    else none
  | none =>
    let suits (r : Nat) : Bool := !(d.lowByte && m.noLowByte.contains r)
    match current.filter suits with
    | some r => some (r, m)
    | none => (m.free.find? suits).map fun r => (r, (m.unbind b).bind b r)

/-- The box in one register, if it may be moved to the frame. -/
def candidateAt (m : Registers) (forbidden : List Box) (d : Demand) (r : Nat) : Option Box :=
  let wanted := match d.reg with
    | some s => r = s
    | none => !(d.lowByte && m.noLowByte.contains r)
  (m.ownerOf r).filter fun b => wanted && !forbidden.contains b

/-- The box that is used last; of several the one in the lowest register. -/
def latest (m : Registers) : List Box → Option Box
  | [] => none
  | b :: rest => some (rest.foldl (fun best c => if m.lastUse c > m.lastUse best then c else best) b)

/-- The box that has to make room. -/
def victim? (m : Registers) (forbidden : List Box) (d : Demand) : Option Box :=
  m.latest ((List.range m.count).filterMap (m.candidateAt forbidden d))

/-- Writes a box to the frame unless it is there. -/
def sync (m : Registers) (b : Box) : Registers :=
  match m.frame.get? b with
  | some _ => m
  | none =>
    let (s, frame) := m.frame.slot b
    { m with frame }.moved (.reg ((m.regOf? b).getD 0)) (.frame s)

/-- Moves a box to the frame. -/
def spill (m : Registers) (b : Box) : Registers := (m.sync b).unbind b

def pickVictim (forbidden : List Box) (d : Demand) : RegisterM Box := do
  match (← get).victim? forbidden d with
  | some b => pure b
  | none => throw (.noSpill forbidden.length)

/-- A register that will do, if need be that of another box. -/
def force (b : Box) (forbidden : List Box) (d : Demand) : RegisterM Nat := do
  modify fun m => if m.temps.contains b then { m with usedTemps := m.usedTemps ++ [b] } else m
  match (← get).take? b d with
  | some (r, m) => do set m; pure r
  | none => do
    let victim ← pickVictim forbidden d
    let r := ((← get).regOf? victim).getD 0
    modify fun m => ((m.spill victim).unbind b).bind b r
    pure r

/-! ## Locations -/

/-- Where a value is; a box without a place gets a slot. -/
def locate (m : Registers) (v : Value) : Loc × Registers :=
  match v with
  | .const _ => (.imm v, m)
  | .box b =>
    match m.regOf? b with
    | some r => (.reg r, m)
    | none =>
      let (s, frame) := m.frame.slot b
      (.frame s, { m with frame })

def existing (b : Box) : RegisterM Loc := do
  let m ← get
  match m.regOf? b, m.frame.get? b with
  | some r, _ => pure (.reg r)
  | none, some s => pure (.frame s)
  | none, none => throw (.plain s!"regalloc: {b.text} has no location")

/-- Where a constant is; it is loaded if a register is demanded. -/
def constant (v : Value) (forbidden : List Box) (reg : Option Nat) : RegisterM Loc := do
  match reg with
  | none => pure (.imm v)
  | some r => do
    unless (← get).isFree r do
      let victim ← pickVictim forbidden { reg }
      modify fun m => m.spill victim
    modify fun m => m.moved (.imm v) (.reg r)
    pure (.reg r)

/-- Makes sure that a value is in a register that will do. -/
def ensure (v : Value) (forbidden : List Box) (d : Demand) : RegisterM Loc := do
  match v with
  | .const _ => constant v forbidden d.reg
  | .box b => do
    let before ← existing b
    let r ← force b forbidden d
    if before ≠ .reg r then modify fun m => m.moved before (.reg r)
    pure (.reg r)

/-- Keeps a box that is still needed when another one takes its register. -/
def moveAway (m : Registers) (b : Box) (r : Nat) : Registers :=
  match m.free.find? (· ≠ r) with
  | some s => (m.bind b s).moved (.reg r) (.reg s)
  | none =>
    let (s, frame) := m.frame.slot b
    { m with frame }.moved (.reg r) (.frame s)

/-- Gives a result the register of an argument. -/
def resultIn (result : Box) (v : Value) (forbidden : List Box) : RegisterM Nat := do
  match v with
  | .const _ => do
    let r ← force result forbidden {}
    modify fun m => m.moved (.imm v) (.reg r)
    pure r
  | .box b => do
    if ((← get).regOf? b).isNone then
      let before ← existing b
      let r ← force b forbidden {}
      modify fun m => m.moved before (.reg r)
    let r := ((← get).regOf? b).getD 0
    modify fun m => m.unbind b
    modify fun m => if m.isAlive b && (m.frame.get? b).isNone then m.moveAway b r else m
    modify fun m => m.bind result r
    pure r

/-! ## Calls -/

/-- What happens to one register before a call. -/
def saveOne (stored : List Box) (mode : SaveMode) (m : Registers) (r : Nat) : Registers :=
  match m.ownerOf r with
  | none => m
  | some b =>
    let forced := stored.contains b
    if !forced && !m.isAlive b then m.unbind b
    else if forced || mode = .all || m.callerSaved.contains r || (mode = .references && b.kind = .ref) then m.spill b
    else m

/-- Saves registers before a call.  Boxes that are not needed any more are dropped, and those in `stored`
go to the frame in any case. -/
def beforeCall (m : Registers) (stored : List Box) (mode : SaveMode) : Registers :=
  (List.range m.count).foldl (saveOne stored mode) m

/-- Binds the result of a call to the register that results come in. -/
def afterCall (m : Registers) (result : Box) : Registers :=
  let m := match m.ownerOf m.resultReg with
    | some b => if b ≠ result then m.spill b else m
    | none => m
  m.bind result m.resultReg

/-! ## Consistency -/

/-- The box that a register is bound to. -/
def boundTo (m : Registers) (r : Nat) : List Box := (m.bindings.filter (·.2 == r)).map Prod.fst

/-- What is wrong with the bindings of one register. -/
def problemAt? (m : Registers) (r : Nat) : Option String :=
  match m.boundTo r with
  | a :: b :: _ => some s!"regalloc: r{r} bound to both {a.text} and {b.text}"
  | [b] =>
    if m.ownerOf r ≠ some b then
      let owner := ((m.ownerOf r).map Box.text).getD "<nil>"
      some s!"regalloc: owner of r{r} is {owner}, want {b.text}"
    else none
  | [] => none

/-- A register is either free or bound. -/
def imbalanceAt? (m : Registers) (r : Nat) : Option String :=
  let bound := !(m.boundTo r).isEmpty
  if bound == m.isFree r then some s!"regalloc: r{r} free={m.isFree r} bound={bound}" else none

/-- Free registers and bound registers complement each other, and no register has two boxes. -/
def check (m : Registers) : Except Failure Unit :=
  let all := List.range m.count
  match (all.findSome? m.problemAt?) <|> (all.findSome? m.imbalanceAt?) with
  | some text => .error (.plain text)
  | none => .ok ()

end Registers
end FlowCompiler.Trace
