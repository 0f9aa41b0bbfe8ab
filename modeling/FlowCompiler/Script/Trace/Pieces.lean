import FlowCompiler.Script.Trace.Basic
import FlowCompiler.Trace.Optimize.Chain
import FlowCompiler.Trace.Registers

/-!
# Scripts on the pieces of traces

Opcodes, effects of calls, bounds, single operations, functions on strings, and recorded traces.
-/

namespace FlowCompiler.Script

open Document
open Trace (Bound Const Value Op Opcode Effect)

/-! ## Opcodes -/

def opcodeFlags (c : Opcode) : List String :=
  ([ ("guard", c.isGuard), ("foldable", c.isFoldableGuard), ("pure", c.isAlwaysPure), ("noeffect", c.hasNoSideEffect),
    ("raise", c.canRaise), ("malloc", c.isMalloc), ("call", c.isCall), ("ovf", c.isOvf), ("final", c.isFinal),
    ("bool", c.returnsBool), ("comparison", c.isComparison) ].filter Prod.snd).map Prod.fst

def opcodeDoc (name : String) : Document :=
  let c := opcodeOf name
  let other (key : String) (o : Option Opcode) := (o.map fun x => (key, text x.name)).toList
  record ([ ("name", text c.name), ("arity", int ((c.arity.map Int.ofNat).getD (-1))), ("descr", bool c.withDescr),
    ("flags", ofTexts (opcodeFlags c)) ] ++ other "inverse" c.inverse? ++ other "reflex" c.reflex?)

def opcodes (d : Document) : Document :=
  succeeded (if d.has "num" then text (Opcode.nameOfNumber (d.get "num").toInt) else list ((d.get "names").texts.map opcodeDoc))

/-! ## Effects -/

def effectAsked (d : Document) : TraceM Effect := do
  match (d.get "kind").toText with
  | "random" => pure .randomEffects
  | "elidable" =>
    let n ← traceNames
    pure (.make { level := .elidableCannotRaise, readFields := (d.get "reads").texts.map (found n.fields) })
  | _ => toEffect (d.get "effect")

def effects (d : Document) : Document := traceAnswer d do
  let e ← effectAsked d
  let n ← traceNames
  let answers (r w : Bool) : Document := list [bool r, bool w]
  let fields := (d.get "fields").texts.map fun f => (f, answers (e.readsField (found n.fields f)) (e.writesField (found n.fields f)))
  let arrays := (d.get "arrayq").texts.map fun a => (a, answers (e.readsArray (found n.arrays a)) (e.writesArray (found n.arrays a)))
  pure (record [ ("str", text e.text), ("raise", bool (e.mayRaise false)), ("raise_nomem", bool (e.mayRaise true)),
    ("elidable", bool e.isElidable), ("forces", bool e.forcesVirtuals), ("random", bool e.hasRandomEffects),
    ("invalidate", bool e.canInvalidate), ("collect", bool e.canCollect), ("query", record (fields ++ arrays)) ])

/-! ## Bounds -/

abbrev BoundM := EStateM Failure (List (String × Bound))

def boundOf (d : Document) : BoundM Bound := return ((← get).lookup d.toText).getD .unbounded

def setBound (d : Document) (b : Bound) : BoundM Unit := modify fun bs => (d.toText, b) :: bs.filter (·.1 ≠ d.toText)

def tightenings : List (String × (Bound → Bound → Bound × Bool)) :=
  [("le", Bound.makeLe), ("lt", Bound.makeLt), ("ge", Bound.makeGe), ("gt", Bound.makeGt), ("intersect", Bound.intersect)]

def boundArith : List (String × (Bound → Bound → Bound)) :=
  [("add", Bound.add), ("sub", Bound.sub), ("mul", Bound.mul), ("div", Bound.div), ("lshift", Bound.lshift), ("rshift", Bound.rshift)]

def boundStep (d : Document) : BoundM Document := do
  let verb := (d.nth 0).toText
  let ending (x : Document) : Option Int64 := if x.isNull then none else some x.toWord
  match verb with
  | "new" => do
    let b : Bound := ⟨ending (d.nth 2), ending (d.nth 3)⟩
    setBound (d.nth 1) b
    pure (text b.text)
  | "clone" => do
    setBound (d.nth 1) (← boundOf (d.nth 2))
    pure null
  | "pow2m1" => pure (decimal (Bound.nextPow2M1 (d.nth 1).toWord).toInt)
  | "has" => return bool ((← boundOf (d.nth 1)).contains (d.nth 2).toWord)
  | "info" => do
    let b ← boundOf (d.nth 1)
    pure (list [text b.text, bool b.isBounded, decimal (b.const?.getD 0).toInt, bool b.const?.isSome, bool b.knownNonNegative])
  | "known" => do
    let a ← boundOf (d.nth 1)
    let b ← boundOf (d.nth 2)
    pure (list [bool (a.knownLt b), bool (a.knownLe b), bool (a.knownGt b), bool (a.knownGe b), bool (a.containsBound b)])
  | _ => do
    let a ← boundOf (d.nth 1)
    let b ← boundOf (d.nth 2)
    match tightenings.lookup verb, boundArith.lookup verb with
    | some f, _ => do
      let (c, changed) := f a b
      setBound (d.nth 1) c
      pure (list [bool changed, text c.text])
    | none, some f => do
      let c := f a b
      unless (d.nth 3).isNull do setBound (d.nth 3) c
      pure (text c.text)
    | none, none => pure badRequest

def bounds (d : Document) : Document := succeeded (list (runSteps boundStep [] (d.get "steps").items).1)

/-! ## Single operations -/

def execFailed (e : Trace.ExecError) : TraceM Document := do
  let kind := match e with
    | .overflow => "Overflow"
    | .notExecutable _ => "NotExecutable"
    | .nullPointer => "NullPointer"
    | _ => "Error"
  pure (record [("error", text kind), ("message", text (e.message (← traceStore)))])

/-- Runs an operation on the store of the script. -/
def onTraceExec {α : Type} (m : Trace.ExecM α) : TraceM (Except Trace.ExecError α) := fun w =>
  let s := w.store
  let w := { w with store := {} }
  match m.run s with
  | .ok a s => .ok (.ok a) { w with store := s }
  | .error e s => .ok (.error e) { w with store := s }

def execStep (d : Document) : TraceM Document := do
  let code := opcodeOf (d.nth 0).toText
  let descr ← descrOf code (d.nth 1)
  let args ← argsOf (d.nth 2)
  match ← onTraceExec (Trace.execute code descr args) with
  | .error e => execFailed e
  | .ok v => do
    unless (d.nth 3).isNull do
      changeNames fun n => { n with vars := ((d.nth 3).toText, v) :: n.vars.filter (·.1 ≠ (d.nth 3).toText) }
    valueDoc v

def executions (d : Document) : Document := traceAnswer d do
  let steps ← (d.get "steps").items.mapM execStep
  let heap ← heapDoc
  pure (record [("steps", list steps), ("heap", heap)])

/-! ## Functions on strings -/

def stringStep (table : Trace.CallTable) (d : Document) : TraceM Document := do
  let args ← argsOf (d.nth 1)
  match table.lookup (d.nth 0).toNat with
  | none => pure null
  | some (f, call) => do
    let s ← traceStore
    let name := match s.object f with
      | .func name _ => name
      | _ => ""
    match ← onTraceExec (Trace.Exec.callFunction .call (.ofRef f :: args)) with
    | .error e => execFailed e
    | .ok v => return list [text name, text (s.descrText (.call call)), ← valueDoc v]

def stringFunctions (d : Document) : Document := traceAnswer d do
  let table ← onTraceStore Trace.CallTable.make
  return list (← (d.get "steps").items.mapM (stringStep table))

/-! ## Recorded traces -/

def callOfOp (s : Trace.Store) (op : Op) : Document :=
  list [text op.code.name, ((op.callId?).map fun c => text (s.descrText (.call c))).getD null]

def recordings (d : Document) : Document := traceAnswer d do
  let inputs ← (d.get "inputs").texts.mapM boxOf
  let ops ← opsOf (d.get "ops")
  let changed ← if d.has "change" then do
      let c := d.get "change"
      let args ← if (c.nth 2).isNull then pure none else do pure (some (← argsOf (c.nth 2)))
      let op := (ops[(c.nth 0).toNat]?).getD default
      pure [("changed", text ((← traceStore).opText (op.change (opcodeOf (c.nth 1).toText) args)))]
    else pure []
  let same ← if d.has "same" then do
      let bs ← (d.get "same").items.mapM fun (p : Document) => do
        let a ← valueOf (p.nth 0)
        let b ← valueOf (p.nth 1)
        pure (bool (a == b))
      pure [("same", list bs)]
    else pure []
  let s ← traceStore
  let cut := if d.has "cut" then [("cut", text (s.traceText [] (ops.drop (d.get "cut").toNat)))] else []
  pure (record ([ ("text", text (s.traceText inputs ops)), ("calls", list (ops.map (callOfOp s))) ] ++ cut ++ changed ++ same))

end FlowCompiler.Script

/-! ## Scripts on the optimizer and on resume data -/

namespace FlowCompiler.Script

open Document
open Trace (Box Value Op ResumeData OptimizeState OptimizeM)

/-! ### Rebuilding -/

/-- What resume data come back as: the saved values, or with `force` all virtual objects. -/
def rebuiltDoc (data : Option ResumeData) (live : List Value) (force : Bool) : TraceM Document := traceTry do
  match data with
  | none => pure null
  | some data =>
    if force then
      let refs ← onTraceStore (data.forceAll live)
      return ofTexts (← refs.mapM showRef)
    else valueDocs (← onTraceStore (data.rebuild live))

/-! ### Optimizing -/

/-- What the optimizer knows of a box. -/
def queryDoc (name : String) : StateT OptimizeState TraceM Document := do
  let b ← liftM (boxOf name)
  let ask {α : Type} (m : OptimizeM α) (fallback : α) : StateT OptimizeState TraceM α := do
    match m.run (← get) with
    | .ok a s => do set s; pure a
    | .error _ _ => pure fallback
  let i ← ask (OptimizeM.idOf (.box b)) 0
  let x := (← get).info i
  let store := (← get).store
  let key ← liftM (showValue x.key)
  let box ← match x.box with
    | some v => do pure [("box", text (← liftM (showValue v)))]
    | none => pure []
  let bound ← if b.kind = .int then do pure [("bound", text (← ask (OptimizeM.boundOf i) default).text)] else pure []
  let len ← if b.kind = .ref then do
      let l ← ask (do OptimizeM.getBound (← OptimizeM.lenId i)) default
      pure [("len", text l.text)]
    else pure []
  pure (list [text name, record ([ ("const", bool x.isConst), ("virtual", bool x.isVirtual), ("nonnull", bool x.isNonNull),
    ("null", bool x.isNull), ("class", (x.knownClass?.map fun c => text (store.className c)).getD null), ("key", text key) ]
    ++ box ++ bound ++ len)])

def optimizerSettings (d : Document) : TraceSettings :=
  { maxConstLen := (d.get "max_const_len").toInt, unrollConst := (d.get "unroll_const").toInt,
    unrollVar := (d.get "unroll_var").toInt, enable := (d.get "enable").texts }

def optimizedDoc (d : Document) (s : OptimizeState) : TraceM Document := do
  let ops ← opsDoc s.ops
  let guards := s.out.toList.zipIdx.filter fun (p, _) => p.1.isGuard
  let resume ← guards.mapM fun ((_, data), i) => do
    let data ← match data with
      | some data => resumeDoc data
      | none => pure null
    pure (list [nat i, data])
  let (query, s) ← ((d.get "query").texts.mapM queryDoc).run s
  let rebuilt ← if d.has "rebuild" then do
      let rs ← (d.get "rebuild").items.mapM fun (r : Document) => do
        let live ← argsOf (r.nth 1)
        rebuiltDoc ((s.out[(r.nth 0).toNat]?).bind Prod.snd) live (!(r.nth 2).isNull)
      let heap ← heapDoc
      pure [("rebuilt", list rs), ("heap", heap)]
    else pure []
  pure (record ([("ops", ops), ("deps", nat s.watches.length), ("resume", list resume), ("query", list query)] ++ rebuilt))

def optimizations (d : Document) : Document := traceAnswer d do
  let ops ← opsOf (d.get "ops")
  let table ← if (d.get "callinfo").toText = "none" then pure [] else onTraceStore Trace.CallTable.make
  match Trace.optimize (← traceStore) (optimizerSettings d) table ops with
  | .ok () s => do
    modify fun w => { w with store := s.store }
    optimizedDoc d s
  | .error f s => do
    modify fun w => { w with store := s.store }
    let ops ← opsDoc s.ops
    pure (record [("error", text (kindOf f)), ("message", text f.message), ("partial", ops)])

/-! ### Resume data by hand -/

def shapeOfDoc (d : Document) : TraceM (String × Trace.Shape (Option Value)) := do
  let n ← traceNames
  let items ← valuesOf (d.get "items")
  pure ((d.get "box").toText,
    { kind := .ofNumber (d.get "kind").toNat, size := (d.find? "struct").map fun s => found n.sizes s.toText,
      cls := (d.find? "class").map fun c => found n.classes c.toText, fields := (d.get "fields").texts.map (found n.fields),
      array := (d.find? "array").map fun a => found n.arrays a.toText, unicode := (d.get "unicode").isTrue, items })

def pendingOfDoc (d : Document) : TraceM (Trace.Pending (Option Value)) := do
  let descr := (← descrOf .setfieldGc (d.nth 0)).getD default
  let target ← valueOf (d.nth 1)
  let value ← valueOf (d.nth 2)
  let i := (d.nth 3).toInt
  pure { descr, target, value, index := if i < 0 then none else some i }

def resumptions (d : Document) : Document := traceAnswer d do
  let fail ← valuesOf (d.get "failargs")
  let pending ← (d.get "pending").items.mapM pendingOfDoc
  let shapes ← (d.get "shapes").items.mapM fun (s : Document) => do
    let (name, shape) ← shapeOfDoc s
    pure (Value.box (← boxOf name), shape)
  let subst ← (d.get "subst").items.mapM fun (p : Document) => do
    let b ← boxOf (p.nth 0).toText
    pure (Value.box b, ← valueOf (p.nth 1))
  let resolve (v : Value) : Trace.Resolved :=
    match shapes.lookup v, subst.lookup v with
    | some s, _ => .virtual s
    | none, some w => .value w
    | none, none => .value (some v)
  let s ← traceStore
  let data ← liftExcept (ResumeData.build resolve (shapes.length + 2) s.descrText fail pending)
  let shown ← resumeDoc data
  let rebuilt ← if d.has "live" then do
      let live ← argsOf (d.get "live")
      let r ← rebuiltDoc (some data) live (d.get "force").isTrue
      let heap ← heapDoc
      pure [("rebuilt", r), ("heap", heap)]
    else pure []
  pure (record ([("data", shown), ("virtuals", nat data.virtuals.size)] ++ rebuilt))

end FlowCompiler.Script

/-! ## Scripts on registers -/

namespace FlowCompiler.Script

open Document
open Trace (Box Value Loc Registers RegisterM FrameSlot Lifetimes)

def locText (s : Trace.Store) : Loc → String
  | .reg r => s!"r{r}"
  | .frame f => s!"frame[{f.pos}]"
  | .imm v => "$" ++ s.valueText v

abbrev RegisterScript := StateT Registers TraceM

/-- Runs an operation on the registers; a failure becomes part of the answer. -/
def onRegisters {α : Type} (m : RegisterM α) (shown : α → Document) : RegisterScript Document := do
  match m.run (← get) with
  | .ok a r => do set r; pure (shown a)
  | .error f r => do set r; pure (failed f)

def regDoc (r : Nat) : Document := text s!"r{r}"

def demandOf (sel low : Document) : Trace.Demand :=
  { reg := if sel.toInt < 0 then none else some sel.toNat, lowByte := low.isTrue }

def slotDoc (s : FrameSlot) : Document := text s!"frame[{s.pos}]"

/-- Steps that ask for registers. -/
def takeStep (verb : String) (d : Document) : RegisterScript Document := do
  let store ← liftM traceStore
  let loc (l : Loc) : Document := text (locText store l)
  match verb with
  | "try" => do
    let b ← liftM (boxOf (d.nth 1).toText)
    match (← get).take? b (demandOf (d.nth 2) (d.nth 3)) with
    | some (r, m) => do set m; pure (regDoc r)
    | none => pure null
  | "force" => do
    let b ← liftM (boxOf (d.nth 1).toText)
    let forbidden ← liftM (boxesOf (d.nth 2))
    onRegisters (Registers.force b forbidden (demandOf (d.nth 3) (d.nth 4))) regDoc
  | "make" => do
    let v ← liftM (valueOf (d.nth 1))
    let forbidden ← liftM (boxesOf (d.nth 2))
    onRegisters (Registers.ensure (v.getD default) forbidden (demandOf (d.nth 3) (d.nth 4))) loc
  | "result" => do
    let b ← liftM (boxOf (d.nth 1).toText)
    let v ← liftM (valueOf (d.nth 2))
    let forbidden ← liftM (boxesOf (d.nth 3))
    onRegisters (Registers.resultIn b (v.getD default) forbidden) regDoc
  | "const" => do
    let v ← liftM (valueOf (d.nth 1))
    let forbidden ← liftM (boxesOf (d.nth 2))
    onRegisters (Registers.constant (v.getD default) forbidden (demandOf (d.nth 3) null).reg) loc
  | "before" => do
    let stored ← liftM (boxesOf (d.nth 1))
    let mode : Trace.SaveMode := match (d.nth 2).toText with
      | "all" => .all
      | "gc" => .references
      | _ => .callerSaved
    modify fun m => m.beforeCall stored mode
    pure null
  | "after" =>
    match d.nth 1 with
    | .text s => do
      let b ← liftM (boxOf s)
      modify fun m => m.afterCall b
      return regDoc (← get).resultReg
    | _ => pure null
  | _ => pure badRequest

/-- Steps on slots of the frame. -/
def frameStep (verb : String) (d : Document) : RegisterScript Document := do
  if verb = "fmsize" then return nat ((← get).frame.width (toKind (d.nth 1).toText))
  let b ← liftM (boxOf (d.nth 1).toText)
  let slot : FrameSlot := ⟨(d.nth 2).toInt, (d.nth 3).toNat⟩
  let change (f : Trace.FrameSlots → Trace.FrameSlots) : RegisterScript Document := do
    modify fun m => { m with frame := f m.frame }
    pure null
  match verb with
  | "fmloc" => do
    let (s, frame) := (← get).frame.slot b
    modify fun m => { m with frame }
    pure (slotDoc s)
  | "fmhint" => change fun f => f.hint b slot.pos
  | "fmbind" => change fun f => f.bind b slot
  | "fmreuse" => do
    let (done, frame) := (← get).frame.reuse b slot
    modify fun m => { m with frame }
    pure (bool done)
  | "fmfree" => change fun f => f.release b
  | "fmget" => return (((← get).frame.get? b).map fun s => list [int s.pos, nat s.width]).getD null
  | _ => pure badRequest

/-- The other steps. -/
def lifeStep (verb : String) (d : Document) : RegisterScript Document := do
  match verb with
  | "free" => do
    let vs ← liftM (argsOf (d.nth 1))
    modify fun m => m.releaseAll vs
    pure null
  | "temp" => do
    let name := (d.nth 1).toText
    let b ← liftM (onTraceStore (Trace.Store.newBox (toKind (d.nth 2).toText)))
    liftM (changeNames fun n => { n with boxes := (name, b) :: n.boxes.filter (·.1 ≠ name) })
    modify fun m => { m with temps := m.temps ++ [b] }
    pure null
  | "freetemps" => do
    modify Registers.releaseTemps
    pure null
  | "next" => do
    let n := if (d.nth 1).isNull then 1 else (d.nth 1).toInt
    modify fun m => { m with position := m.position + n }
    pure null
  | "loc" => do
    let v ← liftM (valueOf (d.nth 1))
    let (l, m) := (← get).locate (v.getD default)
    set m
    return text (locText (← liftM traceStore) l)
  | "regof" => do
    let b ← liftM (boxOf (d.nth 1).toText)
    return (((← get).regOf? b).map regDoc).getD null
  | "check" => do
    match (← get).check with
    | .ok () => pure null
    | .error f => pure (failed f)
  | "nolow" => do
    modify fun m => { m with noLowByte := m.noLowByte ++ [(d.nth 1).toNat] }
    pure null
  | "set" => do
    let b ← liftM (boxOf (d.nth 1).toText)
    modify fun m => { m with lifetimes := m.lifetimes.set b ⟨(d.nth 2).toInt, (d.nth 3).toInt⟩ }
    pure null
  | "life" => do
    let b ← liftM (boxOf (d.nth 1).toText)
    let l := (← get).lifetimes
    pure (list [((l.get? b).map fun t => list [int t.start, int t.lastUse]).getD null, ((l.realUse? b).map nat).getD null])
  | _ => pure badRequest

def registerStep (d : Document) : RegisterScript Document := do
  modify fun m => { m with moves := [] }
  let verb := (d.nth 0).toText
  let r ← if verb.startsWith "fm" then frameStep verb d
    else if ["try", "force", "make", "result", "const", "before", "after"].contains verb then takeStep verb d
    else lifeStep verb d
  let m ← get
  let s ← liftM traceStore
  pure (record [ ("r", r), ("moves", ofTexts (m.moves.map fun (a, b) => locText s a ++ "->" ++ locText s b)),
    ("free", list (m.free.map regDoc)), ("slots", list (m.frame.free.map int)), ("depth", int m.frame.depth),
    ("pos", int m.position) ])

def registerScripts (d : Document) : Document := traceAnswer d do
  let lifetimes ← if d.has "trace" then do
      let inputs ← boxesOf ((d.get "trace").get "inputs")
      let ops ← opsOf ((d.get "trace").get "ops")
      liftExcept (Lifetimes.compute inputs ops)
    else pure {}
  let count := if d.has "trace" then [("count", nat lifetimes.size)] else []
  let lifetimes ← (d.get "lifetimes").items.foldlM (fun (l : Lifetimes) t => do
    let b ← boxOf (t.nth 0).toText
    pure (l.set b ⟨(t.nth 1).toInt, (t.nth 2).toInt⟩)) lifetimes
  let number (k : String) (default : Nat) : Nat := if d.has k then (d.get k).toNat else default
  let frame : Trace.FrameSlots := { depth := (d.get "base").toInt, wideFloats := (d.get "wide").isTrue }
  let start := Registers.make (number "registers" 4) ((d.get "caller_saved").items.map toNat) (number "result_reg" 0) frame lifetimes
  let (steps, _) ← ((d.get "steps").items.mapM registerStep).run start
  pure (record (count ++ [("steps", list steps)]))

end FlowCompiler.Script
