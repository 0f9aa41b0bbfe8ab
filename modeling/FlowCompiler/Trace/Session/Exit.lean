import FlowCompiler.Trace.Session.Compile

/-!
# Exits

What a frame leaves with: the function has returned or raised an exception, or a guard has failed.  The
failures of a guard are counted, and when there are many of them a bridge is compiled from it.
-/

namespace FlowCompiler.Trace.Session

inductive ExitKind where
  | done
  | exception
  | guard
deriving DecidableEq, Repr, Inhabited

def ExitKind.name : ExitKind → String
  | done => "done"
  | exception => "exception"
  | guard => "guard"

structure Exit where
  kind : ExitKind
  descr : Descr
  /-- The result, or the exception. -/
  value : Option Const := none
  /-- The values that a guard saved, rebuilt; a guard that was not optimized has none. -/
  values : Option (List (Option Value)) := none
  /-- The objects that were made when the frame was forced. -/
  virtuals : List Ref := []
  bridge : Option Bridge := none
deriving Inhabited

/-- The text of an exit that nobody handles. -/
def unexpectedExit (s : Store) : Option Descr → String
  | none => "compile: unexpected exit descr <nil>"
  | some (.plainGuard n) | some (.plainFinal n) => s!"compile: unexpected exit descr &\x7b{n}\x7d"
  | some d => s!"compile: unexpected exit descr {s.descrText d}"

/-- The saved values of a failed guard. -/
def rebuildSaved (g : GuardId) (frame : FrameId) : SessionM (Option (List (Option Value))) := do
  let s ← store
  match (s.guard g).data with
  | none => pure none
  | some data => return some (← onStore (data.rebuild (Exec.liveValues (s.frame frame) data)))

/-- Takes the objects that forcing the frame has made. -/
def takeVirtuals (g : GuardId) (frame : FrameId) : SessionM (List Ref) := do
  let s ← store
  if (s.guard g).isForced then
    onStore (modify fun s => s.updateFrame frame fun f => { f with saved := none })
    pure ((s.frame frame).saved.getD [])
  else pure []

/-- Takes the exception of a frame. -/
def takeException (frame : FrameId) : SessionM (Option Ref) := do
  let exc := ((← store).frame frame).exc
  onStore (modify fun s => s.updateFrame frame fun f => { f with exc := none })
  pure exc

/-- How a frame has left. -/
def readExit (frame : FrameId) : SessionM Exit := do
  let s ← store
  let f := s.frame frame
  match f.descr with
  | some (.done k) =>
    pure { kind := .done, descr := .done k, value := if k = .void then none else some (Exec.savedConst f 0 k) }
  | some .exitException => pure { kind := .exception, descr := .exitException, value := some (Exec.savedConst f 0 .ref) }
  | some .propagateException =>
    return { kind := .exception, descr := .propagateException, value := some (.ptr (← takeException frame)) }
  | some (.guard g) => do
    let values ← rebuildSaved g frame
    let virtuals ← takeVirtuals g frame
    pure { kind := .guard, descr := .guard g, values, virtuals }
  | d => throw (.plain (unexpectedExit s d))

/-! ## Hot guards -/

/-- What tells values apart in the counters of a guard. -/
def valueKey : Const → UInt64
  | .int n => n.toUInt64
  | .float d => d.bits
  | .ptr none => 0
  | .ptr (some r) => UInt64.ofNat (r + 1)

/-- The hash that a failure is counted under, unless the guard is busy. -/
def failureHash? (g : GuardDescr) (f : Frame) : Option UInt32 :=
  g.status.counter?.map fun
    | .own hash => hash
    | .perValue k i => Counter.hashValue g.hash (valueKey (Exec.savedConst f i k))

/-- Counts a failure of a guard; tells whether a bridge is due.  A guard on the validity of its loop never
gets a bridge, since the loop is given up. -/
def countFailure (g : GuardId) (frame : FrameId) : SessionM Bool := do
  let s ← store
  let d := s.guard g
  if d.code = .guardNotInvalidated then pure false
  else match failureHash? d (s.frame frame) with
    | none => pure false
    | some hash => modifyGet fun s =>
      let (hot, counter) := s.counter.tick hash s.settings.eagerness
      (hot, { s with counter })

/-- Marks a guard as busy, unless it is so already. -/
def startBridge (g : GuardId) : SessionM Bool := do
  match ((← store).guard g).status.start? with
  | none => pure false
  | some status => do
    onStore (modify fun s => s.updateGuard g fun d => { d with status })
    pure true

def finishBridge (g : GuardId) : SessionM Unit :=
  onStore (modify fun s => s.updateGuard g fun d => { d with status := d.status.finish })

/-! ## Handling -/

variable {m : Type → Type} [Monad m] [MonadExceptOf Failure m] [MonadLiftT SessionM m]

/-- Records what happens behind a guard that failed with some values. -/
abbrev Tracer (m : Type → Type) := GuardId → Option (List (Option Value)) → m (Option Recording)

/-- A step after which another one runs in any case. -/
def ending {α : Type} (body : m α) (last : SessionM Unit) : m α := do
  let a ← tryCatch body fun f => do liftM last; throw f
  liftM last
  pure a

/-- Traces and compiles the bridge of a guard. -/
def bridgeFrom (g : GuardId) (values : Option (List (Option Value))) (tracer : Tracer m) : m (Option Bridge) :=
  ending (do
    match ← tracer g values with
    | none => pure none
    | some trace => liftM (compileBridge trace (.guard g))) (finishBridge g)

/-- Handles the exit of a frame; with a tracer, a guard that fails often gets a bridge. -/
def handleExit (frame : FrameId) (tracer : Option (Tracer m)) : m Exit := do
  let exit ← liftM (readExit frame)
  match exit.descr, tracer with
  | .guard g, some tracer => do
    if (← liftM (countFailure g frame)) then
      if (← liftM (startBridge g)) then
        return { exit with bridge := ← bridgeFrom g exit.values tracer }
    pure exit
  | _, _ => pure exit

/-- Runs the loop with a key and handles its exit.  Every run starts a new generation. -/
def runEntry (key : String) (args : List (Option Value)) (tracer : Option (Tracer m)) : m Exit := do
  match (← liftM (get : SessionM Session)).loopFor? key with
  | none => throw (.plain ("jit: no compiled loop for " ++ Quoted.quote key))
  | some cell => do
    liftM (modify (fun s => s.touch cell) : SessionM Unit)
    ending (do
      let frame ← liftM (execute cell args)
      handleExit frame tracer) (modify fun s => s.nextGeneration.2)
where
  execute (cell : CellId) (args : List (Option Value)) : SessionM FrameId := do
    onStore ((← get).engine.code.execute cell args)

end FlowCompiler.Trace.Session

/-! ## Sample traces -/

namespace FlowCompiler.Trace.Session

/-- A trace with the boxes that it starts from and the arguments that it goes on with. -/
structure LoopTrace where
  trace : Recording
  inputs : List Box
  jumpArgs : List Value
deriving Inhabited

/-- Counts up as long as the number is below a limit. -/
def countingTrace (limit : Int64) : StoreM LoopTrace := do
  let i0 ← Store.newBox .int
  let i1 ← Store.newBox .int
  let test ← Store.newBox .int
  let ops : List Op :=
    [ { code := .intAdd, args := [.box i0, .ofInt 1], result := some i1 },
      { code := .intLt, args := [.box i1, .const (.int limit)], result := some test },
      { code := .guardTrue, args := [.box test], fail := some [some (.box i1)] } ]
  pure { trace := { inputs := [i0], ops }, inputs := [i0], jumpArgs := [.box i1] }

/-- A bridge that returns the saved value. -/
def finishingTrace : StoreM Recording := do
  let b ← Store.newBox .int
  pure { inputs := [b], ops := [{ code := .finish, args := [.box b], descr := some (.done .int) }] }

/-- Compiles the counting loop under a key. -/
def compileCounting (key : String) (limit : Int64) : SessionM (Option CellId) := do
  let t ← onStore (countingTrace limit)
  compileLoop key t.trace 0 t.inputs t.jumpArgs

end FlowCompiler.Trace.Session
