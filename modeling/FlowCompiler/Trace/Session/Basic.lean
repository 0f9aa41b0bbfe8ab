import FlowCompiler.Trace.Code.Run
import FlowCompiler.Trace.Counter
import FlowCompiler.Trace.Optimize.Chain

/-!
# Sessions

A session compiles traces and keeps what it has compiled.  Loops are entered by their keys; a loop that is
not used for some time is given up together with its entries.
-/

/-! ## Ages of compiled loops

Time goes by in generations.  A loop that was not used for a number of generations is given up, and so is
one that has become invalid. -/

namespace FlowCompiler.Trace

structure LoopAges where
  /-- How many generations a loop may stay unused; without limit if it is not positive. -/
  maxAge : Int := 0
  generation : Int := 0
  /-- The generation in which each loop was last used. -/
  lastUse : List (CellId × Int) := []
deriving Inhabited

namespace LoopAges

/-- The loop is used now. -/
def touch (a : LoopAges) (c : CellId) : LoopAges :=
  { a with lastUse := a.lastUse.filter (·.1 ≠ c) ++ [(c, a.generation)] }

def isAlive (a : LoopAges) (c : CellId) : Bool := a.lastUse.any (·.1 == c)

def alive (a : LoopAges) : Nat := a.lastUse.length

/-- Whether a loop last used in a generation is too old. -/
def isExpired (a : LoopAges) (used : Int) : Bool := a.maxAge > 0 && a.generation - used > a.maxAge

/-- The next generation, and the loops that are given up in it. -/
def next (a : LoopAges) (invalid : CellId → Bool) : List CellId × LoopAges :=
  let a := { a with generation := a.generation + 1 }
  let (gone, kept) := a.lastUse.partition fun (c, used) => a.isExpired used || invalid c
  (gone.map Prod.fst, { a with lastUse := kept })

end LoopAges
end FlowCompiler.Trace

/-! ## What a session has compiled -/

namespace FlowCompiler.Trace

inductive UnitKind where
  | loop
  /-- A bridge from the interpreter, which is entered like a loop. -/
  | entryBridge
  | bridge
deriving DecidableEq, Repr, Inhabited

def UnitKind.name : UnitKind → String
  | loop => "loop"
  | entryBridge => "entry bridge"
  | bridge => "bridge"

structure UnitInfo where
  /-- The number of the loop that the unit belongs to. -/
  number : Int
  kind : UnitKind
  name : String
  operations : Nat
  guards : Nat
  codeSize : Nat
deriving Inhabited

structure SessionSummary where
  units : List UnitInfo := []
  /-- Traces that could not be closed. -/
  aborted : Nat := 0
  freed : Nat := 0
deriving Inhabited

namespace SessionSummary

def add (s : SessionSummary) (u : UnitInfo) : SessionSummary := { s with units := s.units ++ [u] }

def bridges (s : SessionSummary) : Nat := s.units.countP (·.kind == .bridge)

def loops (s : SessionSummary) : Nat := s.units.countP (·.kind != .bridge)

open Document

def unitDocument (u : UnitInfo) : Document :=
  record [("number", int u.number), ("kind", text u.kind.name), ("name", text u.name), ("operations", nat u.operations),
    ("guards", nat u.guards), ("code_size", nat u.codeSize)]

/-- The summary as a document; the list of no units is null. -/
def document (s : SessionSummary) : Document :=
  let units := if s.units.isEmpty then null else list (s.units.map unitDocument)
  record [("units", units), ("loops", nat s.loops), ("bridges", nat s.bridges), ("aborted", nat s.aborted),
    ("freed", nat s.freed)]

end SessionSummary

structure Session where
  settings : TraceSettings := {}
  engine : Engine := {}
  /-- The functions that special calls become. -/
  table : CallTable := []
  counter : Counter := default
  summary : SessionSummary := {}
  ages : LoopAges := {}
  entries : List (String × CellId) := []
  /-- The number given to the last loop. -/
  lastNumber : Int := 0
deriving Inhabited

abbrev SessionM := EStateM Failure Session

namespace Session

/-- Settings in which counting cannot be turned off: what is not positive has its default. -/
def countingSettings (s : TraceSettings) : TraceSettings :=
  let d : TraceSettings := {}
  let pick (n default : Int) : Int := if n ≤ 0 then default else n
  { s with
    threshold := pick s.threshold d.threshold
    eagerness := pick s.eagerness d.eagerness
    counterSize := pick s.counterSize d.counterSize }

def onEngine {α : Type} (m : EngineM α) : SessionM α := fun s =>
  let e := s.engine
  let s := { s with engine := {} }
  match m.run e with
  | .ok a engine => .ok a { s with engine }
  | .error f engine => .error f { s with engine }

def onStore {α : Type} (m : StoreM α) : SessionM α := onEngine (Engine.onStore m)

def store : SessionM Store := return (← get).engine.store

/-- A session that has compiled nothing. -/
def make (settings : TraceSettings) (code : CodeCache) (store : Store) : Session :=
  let settings := countingSettings settings
  let (table, store) := match CallTable.make.run store with
    | .ok t s => (t, s)
    | .error _ s => ([], s)
  { settings, table, engine := { store, code }, counter := .make settings.counterSize.toNat settings.decay,
    ages := { maxAge := settings.loopLongevity } }

/-! ## Entries and time -/

def loopFor? (s : Session) (key : String) : Option CellId := s.entries.lookup key

def attachEntry (s : Session) (key : String) (c : CellId) : Session :=
  { s with entries := (key, c) :: s.entries.filter (·.1 ≠ key) }

def touch (s : Session) (c : CellId) : Session := { s with ages := s.ages.touch c }

/-- Counts one run of the code with a key; tells whether it is hot. -/
def tickLoop (s : Session) (key : String) : Bool × Session :=
  let (hot, counter) := s.counter.tick (Counter.hashKey key) s.settings.threshold
  (hot, { s with counter })

/-- Gives up a loop: nobody enters it any more. -/
def freeLoop (s : Session) (c : CellId) : Session :=
  { s with
    entries := s.entries.filter (·.2 ≠ c)
    engine := { s.engine with store := s.engine.store.updateCell c fun k => { k with compiled := false } }
    summary := { s.summary with freed := s.summary.freed + 1 } }

/-- The next generation: counters decay and old loops are given up.  Tells how many. -/
def nextGeneration (s : Session) : Nat × Session :=
  let (gone, ages) := s.ages.next fun c => (s.engine.store.cell c).invalidated
  (gone.length, gone.foldl freeLoop { s with counter := s.counter.decay, ages })

/-! ## Optimizing -/

/-- The trace is optimized; the watches are the rarely changing fields that it relies on. -/
def optimize (ops : List Op) : SessionM (List Op × List Nat) := do
  let s ← get
  match Trace.optimize s.engine.store s.settings s.table ops with
  | .ok () o => do
    modify fun s => { s with engine := { s.engine with store := o.store } }
    pure (o.ops, o.watches)
  | .error f o => do
    modify fun s => { s with engine := { s.engine with store := o.store } }
    throw f

def isInvalidLoop (f : Failure) : Bool := f.causes.any fun
  | .invalidLoop _ => true
  | _ => false

/-- A trace that cannot be closed is not compiled; that is no failure. -/
def unlessInvalid {α : Type} (m : SessionM α) : SessionM (Option α) :=
  tryCatch (some <$> m) fun f =>
    if isInvalidLoop f then do
      modify fun s => { s with summary := { s.summary with aborted := s.summary.aborted + 1 } }
      pure none
    else throw f

/-! ## Guards and labels -/

/-- Gives every guard without descriptor one. -/
def assignGuards (ops : List Op) : SessionM (List Op) := ops.mapM fun op => do
  if op.isGuard && op.descr.isNone then
    let g ← onStore (Store.newGuard op.code)
    pure { op with descr := some (.guard g) }
  else pure op

/-- The word of a guard whose failures are counted under a hash.  A guard on a value that it saves has a
counter for every value. -/
def guardStatus (op : Op) (hash : UInt32) : GuardStatus :=
  let place := (op.arg 0).box?.bind fun b =>
    ((op.fail.getD []).findIdx? (· == some (.box b))).map fun i => (b, i)
  match place with
  | some (b, i) => if op.code = .guardValue && b.kind ≠ .void then .valued b.kind i else .counted hash
  | none => .counted hash

/-- A guard enters a unit: it gets its counter. -/
def prepareGuard (token : Option CellId) (op : Op) : SessionM Unit := do
  match op.descr with
  | some (.guard g) =>
    if op.isGuard then do
      let (hash, counter) := (← get).counter.fetchHash
      modify fun s => { s with counter }
      let hash := hash &&& GuardStatus.numberMask
      onStore (modify fun s => s.updateGuard g fun d => { d with loop := token, hash, status := guardStatus op hash })
  | _ => pure ()

/-- The labels of a unit know their places and belong to a loop. -/
def linkTargets (cell : CellId) (ops : List Op) : SessionM Unit := ops.forM fun op => do
  match op.code, op.descr with
  | .label, some (.target t) =>
    onStore (modify fun s => s.updateTarget t fun x => { x with label := some op, cell := x.cell <|> some cell })
  | _, _ => pure ()

/-! ## Sending units to the engine -/

/-- When a field that a unit relies on changes, the loop of the unit becomes invalid. -/
def watchFields (cell : CellId) (watches : List Nat) : SessionM Unit :=
  onStore (modify fun s => { s with watches := watches.foldl (fun ws w => ws.modify w (· ++ [cell])) s.watches })

def addUnit (number : Int) (kind : UnitKind) (l : Loop) (a : Assembly) : SessionM Unit :=
  let info : UnitInfo :=
    { number, kind, name := l.name, operations := l.ops.length, guards := l.ops.countP Op.isGuard, codeSize := a.size }
  modify fun s => { s with summary := s.summary.add info }

/-- Runs a step of the engine; its failure names the unit. -/
def compiling {α : Type} (unit : String) (m : EngineM α) : SessionM α :=
  tryCatch (onEngine m) fun f => throw (.backend unit f)

/-- Compiles a loop under its token, which gets the next number. -/
def sendLoop (l : Loop) (kind : UnitKind) (cell : CellId) : SessionM Unit := do
  modify fun s => { s with lastNumber := s.lastNumber + 1 }
  let number := (← get).lastNumber
  onStore (modify fun s => s.updateCell cell fun k => { k with number })
  l.ops.forM (prepareGuard (some cell))
  let a ← compiling s!"{kind.name} {number}" (Engine.compileLoop l.inputs l.ops cell)
  watchFields cell l.watches
  addUnit number kind l a
  modify fun s => s.touch cell

/-- Compiles a bridge from a guard, as a part of the loop that the guard is in. -/
def sendBridge (g : GuardId) (l : Loop) : SessionM Unit := do
  let token := ((← store).guard g).loop
  l.ops.forM (prepareGuard token)
  let text := (← store).descrText (.guard g)
  let a ← compiling s!"bridge from {text}" (Engine.compileBridge (.guard g) l.inputs l.ops token)
  match token with
  | some cell => do
    watchFields cell l.watches
    modify fun s => s.touch cell
    addUnit ((← store).cell cell).number .bridge l a
  | none => addUnit 0 .bridge l a

/-- What new code is attached to. -/
inductive ResumeKey where
  | guard (g : GuardId)
  /-- The interpreter, at a key. -/
  | entry (key : String)
deriving DecidableEq, Repr, Inhabited

def keyText (s : Store) : ResumeKey → String
  | .guard g => s.descrText (.guard g)
  | .entry key => s!"<ResumeFromInterpDescr {key}>"

/-- Compiles a unit and attaches it. -/
def attach (key : ResumeKey) (l : Loop) : SessionM Unit := do
  match key with
  | .guard g => do
    sendBridge g l
    onStore (modify fun s => s.updateGuard g fun d => { d with bridge := some { l with token := d.loop } })
  | .entry key => do
    let cell ← onStore Store.newCell
    sendLoop { l with token := some cell } .entryBridge cell
    modify fun s => s.attachEntry key cell

end Session
end FlowCompiler.Trace
