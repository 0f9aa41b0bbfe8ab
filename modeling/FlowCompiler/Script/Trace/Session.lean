import FlowCompiler.Script.Trace.Basic
import FlowCompiler.Trace.Session.Exit

/-!
# Scripts on sessions

A script names traces; every use of a name builds the trace anew, from the same boxes and descriptors.
-/

/-! ## Scripts on counters and constant pointers -/

namespace FlowCompiler.Script

open Document
open Trace (Counter Generations PinnedCode)

/-! ### Counters -/

def toHash (d : Document) : UInt32 := UInt32.ofInt d.toInt

/-- Ticks a number of times; shows each outcome as a digit. -/
def tickMany (hash : UInt32) (threshold : Int) : (n : Nat) → Counter → List Char × Counter
  | 0, c => ([], c)
  | n + 1, c =>
    let (hot, c) := c.tick hash threshold
    let (rest, c) := tickMany hash threshold n c
    ((if hot then '1' else '0') :: rest, c)

def counterStep (d : Document) : EStateM Failure Counter Document := do
  let hash := toHash (d.nth 1)
  match (d.nth 0).toText with
  | "tick" => modifyGet fun c =>
    let (digits, c) := tickMany hash (d.nth 2).toInt (d.nth 3).toNat c
    (text (String.ofList digits), c)
  | "lookup" => return nat ((← get).lookup hash).toNat
  | "reset" => do modify fun c => c.reset hash; pure null
  | "decay" => do modify Counter.decay; pure null
  | "next" => modifyGet fun c =>
    let (h, c) := c.fetchHash
    (nat h.toNat, c)
  | "key" => pure (nat (Counter.hashKey (d.nth 1).toText).toNat)
  | "value" => pure (nat (Counter.hashValue hash (d.nth 2).toUnsigned).toNat)
  | "size" => return nat (← get).size
  | _ => pure badRequest

def counters (d : Document) : Document :=
  let size := if d.has "size" then (d.get "size").toNat else 16
  succeeded (list (runSteps counterStep (.make size (d.get "decay").toInt) (d.get "steps").items).1)

/-! ### Constant pointers -/

def pinnedDoc (c : PinnedCode) : TraceM Document := do
  let ops ← opsDoc c.ops
  let refs ← c.refs.mapM showRef
  pure (record [("ops", ops), ("refs", ofTexts refs), ("tracked", nat c.tracked)])

def pointerStep (d : Document) : StateT Generations TraceM Document := do
  let r := found (← liftM traceNames).objects (d.nth 1).toText
  match (d.nth 0).toText with
  | "track" => do
    modify fun g => g.track r ((d.nth 2).toText = "young")
    pure null
  | "promote" => do
    modify fun g => g.promote r
    pure null
  | "canmove" => return bool ((← get).canMove r)
  | "pin" => do
    let (b, g) := (← get).pin r
    set g
    pure (bool b)
  | "pinned" => return nat (← get).pinned.length
  | "rewrite" => do
    let ops ← liftM (opsOf (d.nth 1))
    let (c, g) ← liftM (onTraceStore (PinnedCode.make (← get) ops))
    set g
    liftM (pinnedDoc c)
  | _ => pure badRequest

def constPointers (d : Document) : Document := traceAnswer d do
  let (steps, _) ← ((d.get "steps").items.mapM pointerStep).run { maxPinned := (d.get "max_pinned").toInt }
  let heap ← heapDoc
  pure (record [("steps", list steps), ("heap", heap)])

end FlowCompiler.Script

namespace FlowCompiler.Script

open Document
open Trace (Box Value Descr Op Recording Loop CellId GuardId FrameId Store StoreM CodeCache Session SessionM)

structure SessionWorld where
  world : TraceWorld := {}
  /-- The session; its store is that of the world. -/
  session : Session := {}
  traces : List (String × Document) := []
  frames : List (String × FrameId) := []
  parts : List (String × Loop) := []
  /-- What is left of the traces for bridges, and the requests for them. -/
  supply : List String := []
  requests : List Document := []
deriving Inhabited

abbrev SessionScript := EStateM Failure SessionWorld

def onTrace {α : Type} (m : TraceM α) : SessionScript α := fun w =>
  let t := w.world
  let w := { w with world := {} }
  match m.run t with
  | .ok a world => .ok a { w with world }
  | .error f world => .error f { w with world }

/-- Runs a step of the session on the store of the world. -/
def onSession {α : Type} (m : SessionM α) : SessionScript α := fun w =>
  let s := w.session
  let store := w.world.store
  let w := { w with session := {}, world := { w.world with store := {} } }
  let s := { s with engine := { s.engine with store } }
  let back (s : Session) : SessionWorld :=
    { w with
      world := { w.world with store := s.engine.store }
      session := { s with engine := { s.engine with store := {} } } }
  match m.run s with
  | .ok a s => .ok a (back s)
  | .error f s => .error f (back s)

instance : MonadLift SessionM SessionScript := ⟨onSession⟩

def session : SessionScript Session := return (← get).session

/-! ## Reading -/

/-- Builds the trace with a name. -/
def traceOf (name : String) : SessionScript Recording := do
  let d := found (← get).traces name
  onTrace do
    let inputs ← boxesOf (d.get "inputs")
    let ops ← opsOf (d.get "ops")
    pure { inputs, ops }

def cellNamed (name : String) : SessionScript CellId := do
  match ← onTrace (cellOf name) with
  | .cell c => pure c
  | _ => pure 0

/-- Gives a unit a name, also when the name was taken. -/
def nameCell (name : String) (c : CellId) : SessionScript Unit :=
  onTrace (changeNames fun n => { n with descrs := ("l:" ++ name, .cell c) :: n.descrs })

def guardNamed (d : Document) : SessionScript GuardId := do
  match ← onTrace (descrOf .guardTrue d) with
  | some (.guard g) => pure g
  | _ => pure 0

def keyOf (d : Document) : SessionScript Session.ResumeKey := do
  if (d.nth 0).toText = "guard" then return .guard (← guardNamed (d.nth 1)) else pure (.entry (d.nth 1).toText)

/-- Gives out the traces for bridges one after another. -/
def scriptTracer : Session.Tracer SessionScript := fun g values => do
  let key ← onTrace (showDescr (.guard g))
  let shown ← onTrace (savedDoc values)
  modify fun w => { w with requests := w.requests ++ [list [text key, shown]] }
  match (← get).supply with
  | [] => pure none
  | name :: rest => do
    modify fun w => { w with supply := rest }
    if name = "!fail" then throw (.plain "tracer failed")
    else if name = "!finish" then return some (← onSession (Session.onStore Session.finishingTrace))
    else return some (← traceOf name)
where
  savedDoc : Option (List (Option Value)) → TraceM Document
    | none => pure null
    | some vs => valueDocs vs

/-! ## Showing -/

def unitDoc (c : CellId) : SessionScript Document := do
  let s ← session
  let k := (← get).world.store.cell c
  let targets ← onTrace (k.targets.mapM fun t => showDescr (.target t))
  let ops ← onTrace (opsDoc (s.engine.code.opsOf c))
  pure (record [("number", int k.number), ("ops", ops), ("depth", int (s.engine.code.depthOf c)), ("targets", ofTexts targets),
    ("retraces", nat k.retraces), ("invalidated", bool k.invalidated), ("compiled", bool k.compiled)])

def unitOr (name : String) (c : Option CellId) : SessionScript Document := do
  match c with
  | none => pure null
  | some c => do
    nameCell name c
    unitDoc c

def bridgeDoc : Session.Bridge → TraceM Document
  | .attached d => return record [("target", ← descrDoc d)]
  | .partOf l => return record [("target", null), ("retrace", ← opsDoc l.ops)]

def exitDoc (e : Session.Exit) : SessionScript Document := do
  let descr ← onTrace (showDescr e.descr)
  let value ← onTrace (valueDoc (e.value.map .const))
  let values ← match e.values with
    | some vs => onTrace (valueDocs vs)
    | none => pure null
  let virtuals ← onTrace (e.virtuals.mapM showRef)
  let bridge ← match e.bridge with
    | some b => do pure [("bridge", ← onTrace (bridgeDoc b))]
    | none => pure []
  pure (record ([("kind", text e.kind.name), ("descr", text descr), ("value", value), ("values", values),
    ("virtuals", ofTexts virtuals)] ++ bridge))

/-- Shows an exit; with a supply of traces, also what was asked of it. -/
def withTracer (d : Document) (m : Option (Session.Tracer SessionScript) → SessionScript Session.Exit) :
    SessionScript Document := do
  modify fun w => { w with supply := d.texts, requests := [] }
  let e ← m (if d.isNull then none else some scriptTracer)
  let shown ← exitDoc e
  let requests := (← get).requests
  pure (if d.isNull then shown else record (shown.fields ++ [("traced", list requests)]))

def guardDoc (g : GuardId) : SessionScript Document := do
  let s := (← get).world.store
  let d := s.guard g
  onTrace do
    let loop ← descrDoc (d.loop.map .cell)
    let bridge ← match d.bridge with
      | some l => opsDoc l.ops
      | none => pure null
    let data ← match d.data with
      | some data => resumeDoc data
      | none => pure null
    pure (record [("str", text s!"<ResumeGuardDescr {d.code.name}>"), ("final", bool false), ("status", nat d.status.word.toNat),
      ("busy", bool d.status.isBusy), ("loop", loop), ("bridge", bridge), ("data", data)])

def summaryDoc (s : Trace.SessionSummary) : Document :=
  record [("loops", nat s.loops), ("bridges", nat s.bridges), ("aborted", nat s.aborted), ("freed", nat s.freed),
    ("report", text s.document.indented)]

/-! ## Steps -/

/-- Steps that compile. -/
def compileStep? (d : Document) : Option (SessionScript Document) :=
  let word (i : Nat) : String := (d.nth i).toText
  match word 0 with
  | "loop" => some do
    let trace ← traceOf (word 3)
    let inputs ← onTrace (boxesOf (d.nth 5))
    let jumpArgs ← onTrace (argsOf (d.nth 6))
    unitOr (word 1) (← onSession (Session.compileLoop (word 2) trace (d.nth 4).toNat inputs jumpArgs))
  | "callback" => some do
    let n ← onTrace traceNames
    let greens ← onTrace (argsOf (d.nth 4))
    let c ← onSession (Session.compileCallback (found n.functions (word 2)) (found n.calls (word 3)) greens
      (kindsOf (word 5)) (toKind (word 6)))
    unitOr (word 1) (some c)
  | "bridge" => some do
    let trace ← traceOf (word 1)
    let key ← keyOf (d.nth 2)
    match ← onSession (Session.compileBridge trace key) with
    | none => pure null
    | some b => do
      match b with
      | .partOf l => modify fun w => { w with parts := (word 3, l) :: w.parts }
      | .attached _ => pure ()
      onTrace (bridgeDoc b)
  | "partial" => some do
    let trace ← traceOf (word 2)
    modify fun w => { w with parts := (word 1, { inputs := trace.inputs, ops := trace.ops }) :: w.parts }
    pure null
  | "retrace" => some do
    let trace ← traceOf (word 2)
    let jumpArgs ← onTrace (argsOf (d.nth 4))
    let key ← keyOf (d.nth 6)
    let cell ← cellNamed (word 7)
    let part := found (← get).parts (word 5)
    match ← onSession (Session.compileRetrace (word 1) trace (d.nth 3).toNat jumpArgs part key cell) with
    | none => pure null
    | some t => do
      let target ← onTrace (showDescr (.target t))
      let unit ← unitDoc cell
      pure (record [("target", text target), ("unit", unit)])
  | "raw" => some do
    let cell ← cellNamed (word 1)
    let trace ← traceOf (word 2)
    let a ← onSession (Session.onEngine (Trace.Engine.compileLoop trace.inputs trace.ops cell))
    let unit ← unitDoc cell
    pure (record [("size", nat a.size), ("offsets", list (a.offsets.map nat)), ("unit", unit)])
  | "rawbridge" => some do
    let guard ← onTrace (descrOf .guardTrue (d.nth 1))
    let trace ← traceOf (word 2)
    let cell ← cellNamed (word 3)
    let a ← onSession (Session.onEngine (Trace.Engine.compileBridge (guard.getD default) trace.inputs trace.ops (some cell)))
    pure (nat a.size)
  | "counting" => some do
    match ← onSession (Session.compileCounting (word 1) (d.nth 2).toWord) with
    | none => pure null
    | some c => unitDoc c
  | _ => none

/-- Steps that run. -/
def runStep? (d : Document) : Option (SessionScript Document) :=
  let word (i : Nat) : String := (d.nth i).toText
  match word 0 with
  | "exec" => some do
    let cell ← cellNamed (word 1)
    let args ← onTrace (valuesOf (d.nth 2))
    let code := (← session).engine.code
    let frame ← onSession (Session.onStore (code.execute cell args))
    modify fun w => { w with frames := (word 3, frame) :: w.frames }
    let f := (← get).world.store.frame frame
    let descr ← onTrace (descrDoc f.descr)
    let values ← onTrace (valueDocs f.values)
    pure (record [("descr", descr), ("values", values)])
  | "exit" => some do
    let frame := found (← get).frames (word 1)
    withTracer (d.nth 2) (Session.handleExit frame)
  | "run" => some do
    let args ← onTrace (valuesOf (d.nth 2))
    withTracer (d.nth 3) (Session.runEntry (word 1) args)
  | _ => none

def tickKey (key : String) : (n : Nat) → Session → List Char × Session
  | 0, s => ([], s)
  | n + 1, s =>
    let (hot, s) := s.tickLoop key
    let (rest, s) := tickKey key n s
    ((if hot then '1' else '0') :: rest, s)

/-- Steps that ask for the state or change it. -/
def stateStep (d : Document) : SessionScript Document := do
  let word (i : Nat) : String := (d.nth i).toText
  let n ← onTrace traceNames
  let object := found n.objects (word 1)
  match word 0 with
  | "tick" => onSession do
    let (digits, s) := tickKey (word 1) (d.nth 2).toNat (← get)
    set s
    pure (text (String.ofList digits))
  | "gen" => onSession do
    let (freed, s) := (← get).nextGeneration
    set s
    pure (nat freed)
  | "entry" => do
    let c := (← session).loopFor? (word 1)
    onTrace (descrDoc (c.map .cell))
  | "mem" => do
    let ages := (← session).ages
    pure (list [nat ages.alive, int ages.generation])
  | "keep" => do
    let cell ← cellNamed (word 1)
    onSession (modify fun s => s.touch cell)
    pure null
  | "freeloop" => do
    let cell ← cellNamed (word 1)
    onSession (Session.onEngine (modify fun e => { e with code := e.code.free cell }))
    pure null
  | "unit" => do unitDoc (← cellNamed (word 1))
  | "gcrefs" => do
    let cell ← cellNamed (word 1)
    let refs := (← session).engine.code.refsOf cell
    return ofTexts (← onTrace (refs.mapM showRef))
  | "stats" => return summaryDoc (← session).summary
  | "config" => do
    let s ← session
    pure (list [int s.settings.threshold, int s.settings.eagerness, int s.settings.decay, int s.settings.counterSize,
      nat s.counter.size])
  | "guard" => do guardDoc (← guardNamed (d.nth 1))
  | "start" => do
    let g ← guardNamed (d.nth 1)
    return bool (← onSession (Session.startBridge g))
  | "done" => do
    let g ← guardNamed (d.nth 1)
    onSession (Session.finishBridge g)
    pure null
  | "invalidate" => do
    match ← onTrace (watchOf (word 1)) with
    | some w => onTrace (onTraceStore (modify fun s => s.invalidate w))
    | none => pure ()
    pure null
  | "setfield" => do
    let f := found n.fields (word 2)
    let v ← onTrace (valueOf (d.nth 3))
    onTrace (onTraceStore (modify fun s => s.updateObject object fun
      | .struct size cls fs => .struct size cls (Store.setField fs f (v.getD .null))
      | o => o))
    pure null
  | "promote" => do
    onSession (Session.onEngine (modify fun e => { e with code := { e.code with generations := e.code.generations.promote object } }))
    pure null
  | "callinfo" => do
    onSession (modify fun s => { s with table := [] })
    pure null
  | "heap" => onTrace heapDoc
  | _ => pure badRequest

def sessionStep (d : Document) : SessionScript Document :=
  ((compileStep? d <|> runStep? d)).getD (stateStep d)

/-! ## Sessions -/

def sessionSettings (d : Document) : TraceSettings :=
  let num (k : String) : Int := (d.get k).toInt
  { threshold := num "threshold", eagerness := num "eagerness", decay := num "decay", counterSize := num "counter_size",
    maxConstLen := num "max_const_len", unrollConst := num "unroll_const", unrollVar := num "unroll_var",
    loopLongevity := num "longevity", enable := (d.get "enable").texts }

def registerSettings (d : Document) : RegisterSettings :=
  if d.has "registers" then
    { registers := (d.get "registers").toInt, callerSaved := (d.get "caller_saved").items.map toInt,
      resultReg := (d.get "result_reg").toInt }
  else {}

def sessions (d : Document) : Document := traceAnswer d do
  let config := d.get "config"
  let n ← traceNames
  let young := (d.get "young").texts.map (found n.objects)
  let code := CodeCache.make (registerSettings config) (config.get "max_pinned").toInt
  let code := { code with generations := young.foldl (fun g r => g.track r true) code.generations }
  let s := Session.make (sessionSettings config) code (← traceStore)
  let world := { (← get) with store := s.engine.store }
  let start : SessionWorld :=
    { world, session := { s with engine := { s.engine with store := {} } }, traces := (d.get "traces").fields }
  pure (list (runSteps sessionStep start (d.get "steps").items).1)

end FlowCompiler.Script
