import FlowCompiler.Trace.Optimize.Algebra
import FlowCompiler.Trace.Optimize.Bounds
import FlowCompiler.Trace.Optimize.Heap
import FlowCompiler.Trace.Optimize.Remembered
import FlowCompiler.Trace.Optimize.Strings

/-!
# Optimizing a trace

The passes in a row.  Each operation of the trace goes through all of them before the next one starts;
behind the last pass operations that only mattered to the optimizer are dropped, jumps get their labels,
and what is left is written out.  A pass may also send an operation of its own through the whole row.
-/

namespace FlowCompiler.Trace
namespace OptimizeM

/-! ## Writing out -/

/-- The resume data of a guard are made from what is known now; the guard saves the live boxes. -/
def resolve (s : OptimizeState) (v : Value) : Resolved :=
  match s.id? v with
  | none => .value (some v)
  | some i =>
    let x := s.info i
    let items (js : List InfoId) : List (Option Value) := js.map fun j => (s.info j).resumeItem
    match x.isVirtual, x.virt with
    | true, some (.struct size cls fields) =>
      .virtual { kind := .struct, size, cls, fields := fields.map Prod.fst, items := items (fields.map Prod.snd) }
    | true, some (.array d elems _) => .virtual { kind := .array, array := some d, items := items elems.toList }
    | true, some (.plain u chars) =>
      .virtual { kind := .plain, unicode := u, items := chars.toList.map fun c => c.bind fun j => (s.info j).resumeItem }
    | true, some (.concat u l r _) => .virtual { kind := .concat, unicode := u, items := items [l, r] }
    | true, some (.slice u str start length) =>
      .virtual { kind := .slice, unicode := u, items := items [str] ++ [(s.info start).box, (s.info length).box] }
    | _, _ => .value x.box

def guardData (op : Op) : OptimizeM ResumeData := do
  let s ← get
  modify fun s => { s with pending := [] }
  match ResumeData.build (resolve s) (s.infos.size + 2) s.store.descrText (op.fail.getD []) s.pending with
  | .error f => throw f
  | .ok data => do
    match op.descr with
    | some (.guard g) => modify fun s => { s with store := s.store.updateGuard g fun x => { x with data := some data } }
    | _ => pure ()
    pure data

/-- Writes an operation out: its virtual arguments are allocated first, and all arguments are replaced by
what stands for them. -/
def writeOut : (fuel : Nat) → Emit
  | 0, _ => throw (.plain "virtual objects nest without end")
  | n + 1, op => do
    let args ← op.args.mapM fun v => do
      match (← get).id? v with
      | some i => force (writeOut n) i
      | none => pure v
    let op := { op with args }
    if op.tag ≠ 0 then modify fun s => { s with written := s.written.insert op.tag args }
    if op.isGuard then
      let data ← guardData op
      let fail := data.live.toList.map fun b => some (.box b)
      modify fun s => { s with out := s.out.push ({ op with fail := some fail }, some data) }
    else modify fun s => { s with out := s.out.push (op, none) }

def write (op : Op) : OptimizeM Unit := do writeOut ((← get).infos.size + 2) op

end OptimizeM

namespace Simplify

open OptimizeM

/-- A jump to a unit goes to the label that was seen last if it belongs to the unit, or to its only
label. -/
def jump (next : Emit) (op : Op) : OptimizeM Unit := do
  match op.descr with
  | some (.cell c) => do
    let s ← get
    let last := s.lastLabel.filter fun t => (s.store.target t).cell == some c
    match last, (s.store.cell c).targets with
    | some t, _ => next { op.copy with descr := some (.target t) }
    | none, [t] => next { op.copy with descr := some (.target t) }
    | none, _ => throw (.plain s!"jump to {s.store.cellText c} has no unique target")
  | _ => next op

def pass (next : Emit) (op : Op) : OptimizeM Unit := do
  match op.code with
  | .callPure | .callLoopinvariant => next (op.change .call none)
  | .virtualRef => next { code := .sameAs, args := op.args.take 1, result := op.result }
  | .virtualRefFinish | .quasiimmutField | .recordKnownClass | .guardFutureCondition => pure ()
  | .label =>
    match op.descr with
    | some (.cell _) => jump next (op.change .jump none)
    | some (.target t) => do
      modify fun s => { s with lastLabel := some t }
      next op
    | _ => next op
  | .jump => jump next op
  | _ => next op

end Simplify

/-! ## The chain -/

inductive Pass where
  | bounds
  | algebra
  | virtuals
  | strings
  | earlyForce
  | remembered
  | heap
  | simplify
deriving DecidableEq, Repr

namespace Pass

/-- The passes that can be turned off, in order, with the names of the settings. -/
def named : List (String × Pass) :=
  [("intbounds", bounds), ("rewrite", algebra), ("virtualize", virtuals), ("string", strings),
    ("earlyforce", earlyForce), ("pure", remembered), ("heap", heap)]

/-- The passes that settings turn on; no names at all turn on every pass. -/
def enabled (names : List String) : List Pass :=
  (named.filter fun p => names.isEmpty || names.contains p.1).map Prod.snd ++ [simplify]

/-- One operation through one pass. -/
def step (restart next : Emit) : Pass → Emit
  | bounds => Bounds.pass next
  | algebra => Algebra.pass next
  | virtuals => Virtuals.pass next
  | strings => Strings.pass restart next
  | earlyForce => EarlyForce.pass next
  | remembered => Remembered.pass next
  | heap => Heap.pass next
  | simplify => Simplify.pass next

/-- Gives on what a pass holds back at the end. -/
def flush (next : Emit) : Pass → OptimizeM Unit
  | remembered => Remembered.flush next
  | heap => Heap.flush next
  | _ => pure ()

end Pass

namespace OptimizeM

/-- One operation through a row of passes. -/
def through (restart : Emit) : List Pass → Emit
  | [] => write
  | p :: rest => p.step restart (through restart rest)

/-- Notes where a result comes from and sends the operation through all passes.  What a pass sends in turn
is sent to the same passes; such operations send nothing more. -/
def send (passes : List Pass) : (again : Nat) → Emit
  | 0, _ => pure ()
  | n + 1, op => do
    let op ← tagged op
    match op.result with
    | some r => modify fun s => { s with producers := s.producers.insert r op }
    | none => pure ()
    through (send passes n) passes op

/-- Gives on what the passes hold back, from the first pass to the last. -/
def flushAll (restart : Emit) : List Pass → OptimizeM Unit
  | [] => pure ()
  | p :: rest => do
    p.flush (through restart rest)
    flushAll restart rest

/-- How often an operation may lead to another one that starts again at the first pass. -/
def resends : Nat := 2

/-- Optimizes the operations of a trace. -/
def propagate (passes : List Pass) (ops : List Op) : OptimizeM Unit := do
  for op in ops do send passes resends op.copy
  flushAll (send passes resends) passes

end OptimizeM

namespace Limits

/-- The limits of settings, where zero stands for the default. -/
def ofSettings (s : TraceSettings) : Limits :=
  let d : TraceSettings := {}
  let pick (n default : Int) : Int := if n = 0 then default else n
  { constLen := pick s.maxConstLen d.maxConstLen, unrollConst := pick s.unrollConst d.unrollConst,
    unrollVar := pick s.unrollVar d.unrollVar }

end Limits

namespace OptimizeState

/-- The state before the first operation. -/
def start (store : Store) (settings : TraceSettings) (table : CallTable) : OptimizeState :=
  { store, limits := .ofSettings settings, table,
    remembersPure := (Pass.enabled settings.enable).contains .remembered }

/-- The operations written out. -/
def ops (s : OptimizeState) : List Op := s.out.toList.map Prod.fst

end OptimizeState

/-- Optimizes a trace; the state tells what was written out, also when the trace is refused. -/
def optimize (store : Store) (settings : TraceSettings) (table : CallTable) (ops : List Op) :
    EStateM.Result Failure OptimizeState Unit :=
  (OptimizeM.propagate (Pass.enabled settings.enable) ops).run (.start store settings table)

end FlowCompiler.Trace
