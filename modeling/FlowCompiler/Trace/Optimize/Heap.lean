import FlowCompiler.Trace.Optimize.State

/-!
# The pass of memory

What was read from or written to memory is known until something may have changed it.  A store is held
back until something may see it: a store to the same place of another object, a call that reads the
place, a guard.  At a guard only the stores whose value is a virtual object stay back; they become part
of the resume data of the guard.

An operation that has to stand right before the guard behind it waits for that guard.
-/

namespace FlowCompiler.Trace.Heap

open OptimizeM

def cache : OptimizeM HeapCache := return (← get).heap

def updateCache (f : HeapCache → HeapCache) : OptimizeM Unit := modify fun s => { s with heap := f s.heap }

def slot (p : Slot) : OptimizeM SlotCache := return ((← cache).slots[p]?).getD {}

def setSlot (p : Slot) (c : SlotCache) : OptimizeM Unit := updateCache fun h => { h with slots := h.slots.insert p c }

def give (next : Emit) : Emit := fun op => do
  modify fun s => { s with lastHeap := .op op }
  next op

def markRemoved : OptimizeM Unit := modify fun s => { s with lastHeap := .removed }

/-! ## Stores held back -/

/-- Writes out the operation that waits. -/
def releasePostponed (next : Emit) : OptimizeM Unit := do
  match (← cache).postponed with
  | none => pure ()
  | some op => do
    updateCache fun h => { h with postponed := none }
    next op

/-- The contents of a place with one of them noted. -/
def note (known : List (InfoId × InfoId)) (i j : InfoId) : List (InfoId × InfoId) := (i, j) :: known.filter (·.1 ≠ i)

def remember (p : Slot) (i j : InfoId) : OptimizeM Unit := do
  let c ← slot p
  setSlot p { c with known := note c.known i j }

/-- Writes out the store that a place holds back.  Unless `keep`, nothing is known of the place
afterwards. -/
def release (next : Emit) (p : Slot) (keep : Bool) : OptimizeM Unit := do
  let c ← slot p
  match c.held with
  | none => unless keep do setSlot p { c with known := [] }
  | some op => do
    setSlot p { c with known := [], held := none }
    match (← cache).postponed with
    | some waiting =>
      match waiting.result with
      | some r => if op.boxArgs.contains r then releasePostponed next
      | none => pure ()
    | none => pure ()
    next op
    if keep then
      let op ← current op
      let i ← idOf (op.arg 0)
      remember p i (← idOf op.lastArg)

/-- A store to the same place of another object may be to the same object. -/
def releaseAliases (next : Emit) (p : Slot) (i : InfoId) : OptimizeM Unit := do
  match (← slot p).held with
  | none => pure ()
  | some op => do if (← idOf (op.arg 0)) ≠ i then release next p true

/-- Holds a store back; a store of what is there already is dropped. -/
def hold (next : Emit) (p : Slot) (op : Op) : OptimizeM Unit := do
  let i ← idOf (op.arg 0)
  let j ← idOf op.lastArg
  releaseAliases next p i
  let c ← slot p
  let same ← match c.known.lookup i with
    | some k => sameValue j k
    | none => pure false
  if same then setSlot p { c with held := none }
  else do
    let op ← if op.tag = 0 then tagged op else pure op
    setSlot p { c with held := some op, listed := true }
    unless c.listed do updateCache fun h => { h with listed := h.listed ++ [p] }

/-- What is known of a place of an object. -/
def reuse (next : Emit) (p : Slot) (i : InfoId) : OptimizeM (Option InfoId) := do
  releaseAliases next p i
  let c ← slot p
  match c.held with
  | some op => return some (← idOf op.lastArg)
  | none => pure (c.known.lookup i)

def releaseAll (next : Emit) : OptimizeM Unit := do
  for p in (← cache).listed do release next p true

/-- The places of the arrays of a type, by index. -/
def itemSlots (h : HeapCache) (a : ArrayId) : List Int64 :=
  (h.slots.toList.filterMap fun (p, _) => match p with
    | .item b k => if a = b then some k else none
    | .field _ => none).mergeSort fun x y => decide (x ≤ y)

/-- Releases the items of the arrays of a type whose index is possible. -/
def releaseItems (next : Emit) (a : ArrayId) (index : Option InfoId) (keep : Bool) : OptimizeM Unit := do
  for k in itemSlots (← cache) a do
    let possible ← match index with
      | none => pure true
      | some i => do pure ((← boundOf i).contains k)
    if possible then release next (.item a k) keep

/-- Releases a field if anything is known of it. -/
def releaseField (next : Emit) (f : FieldId) (keep : Bool) : OptimizeM Unit := do
  if (← cache).slots.contains (.field f) then release next (.field f) keep

/-! ## Effects of operations -/

def forgetLookups (h : HeapCache) (d : Descr) : HeapCache := { h with lookups := h.lookups.filter (·.1 ≠ d) }

/-- A call that says what it reads and writes. -/
def respect (next : Emit) (e : Effect) : OptimizeM Unit := do
  for f in e.readFields do releaseField next f true
  for a in e.readArrays do releaseItems next a none true
  for f in e.writeFields do
    updateCache fun h => forgetLookups h (.field f)
    releaseField next f false
  for a in e.writeArrays do
    releaseItems next a none false
    match (← cache).entriesOf.lookup (.array a) with
    | some entries => do
      updateCache fun h => { h with entriesOf := h.entriesOf.filter (·.1 ≠ .array a) }
      updateCache fun h => forgetLookups h entries
    | none => pure ()
  if e.forcesVirtuals then releaseAll next

def forgetAll : OptimizeM Unit := updateCache fun h => { h with listed := [], slots := {}, lookups := [] }

/-- The stores that stay back at a guard; the others are written out. -/
def releaseForGuard (next : Emit) : OptimizeM (List (Pending (Option Value))) := do
  let mut pending := []
  for p in (← cache).listed do
    match (← slot p).held with
    | none => pure ()
    | some op => do
      let target ← infoOf (op.arg 0)
      let value ← infoOf op.lastArg
      if !value.isVirtual then release next p true
      else do
        let index ← if op.code = .setarrayitemGc then do pure ((← constIntOf (op.arg 1)).map Int64.toInt) else pure none
        let store : Pending (Option Value) :=
          { descr := op.descr.getD default, target := target.box, value := some value.key, index }
        pending := pending ++ [store]
  pure pending

/-- Operations that touch no memory that anything is known of, or only by way of this pass. -/
def isTransparent : Opcode → Bool
  | .setfieldGc | .setfieldRaw | .setarrayitemGc | .setarrayitemRaw | .strsetitem | .unicodesetitem
  | .copystrcontent | .copyunicodecontent | .debugMergePoint | .jitDebug => true
  | _ => false

def callEffect? (op : Op) : OptimizeM (Option Effect) := do
  let s := (← get).store
  pure (match op.code with
    | .call | .callPure | .condCall | .callMayForce | .callReleaseGil => op.callId?.map fun d => (s.call d).effect
    | _ => none)

/-- Makes what is known agree with what an operation is about to do. -/
def prepare (next : Emit) (op : Op) : OptimizeM Unit := do
  if op.hasNoSideEffect || op.isOvf then return
  if op.isGuard then
    let pending ← releaseForGuard next
    modify fun s => { s with pending }
    return
  if isTransparent op.code then return
  if op.code = .callAssembler then updateCache fun h => { h with seenInvalidationGuard := false }
  match ← callEffect? op with
  | some e => do
    if e.canInvalidate then updateCache fun h => { h with seenInvalidationGuard := false }
    if e.hasRandomEffects then everything else respect next e
  | none => everything
where
  everything : OptimizeM Unit := do
    releaseAll next
    forgetAll

/-- Operations that wait for the guard behind them. -/
def waits (op : Op) : Bool := op.isComparison || op.code == .callMayForce || op.isOvf

def emit (next : Emit) (op : Op) : OptimizeM Unit := do
  prepare next op
  releasePostponed next
  if waits op then
    updateCache fun h => { h with postponed := some op }
    modify fun s => { s with lastHeap := .op op }
  else give next op

/-! ## Reading and writing -/

/-- Reads a place of an object. -/
def read (next : Emit) (op : Op) (p : Slot) (remembers : Bool) : OptimizeM Unit := do
  let i ← idOf (op.arg 0)
  match ← reuse next p i with
  | some j => setEqual op.result j
  | none => do
    ensureNonNull i
    emit next op
    if remembers then remember p i (← resultId op)

def readItem (next : Emit) (op : Op) (a : ArrayId) (remembers : Bool) : OptimizeM Unit := do
  let i ← idOf (op.arg 0)
  let k ← idOf (op.arg 1)
  match (← info k).constInt? with
  | some n => do
    lengthAbove i n
    read next op (.item a n) remembers
  | none => do
    releaseItems next a (some k) true
    ensureNonNull i
    emit next op

/-- A store to a place that was read as never changing. -/
def refuse (op : Op) : OptimizeM Unit := do
  throw (.immutableField ((op.descr.map (← get).store.descrText).getD ""))

def write (next : Emit) (op : Op) (f : FieldId) : OptimizeM Unit := do
  if (← recallPure .getfieldGcPure (op.args.take 1) op.descr).isSome then refuse op
  else hold next (.field f) op

def writeItem (next : Emit) (op : Op) (a : ArrayId) : OptimizeM Unit := do
  if (← recallPure .getarrayitemGcPure (op.args.take 2) op.descr).isSome then refuse op
  else do
    let k ← idOf (op.arg 1)
    match (← info k).constInt? with
    | some n => do
      lengthAbove (← idOf (op.arg 0)) n
      hold next (.item a n) op
    | none => do
      releaseItems next a (some k) false
      emit next op

/-- A field that rarely changes: its value is relied on, as long as it is what the trace saw. -/
def readQuasi (op : Op) (q : QuasiId) : OptimizeM Unit := do
  let x ← infoOf (op.arg 0)
  if !x.isConst then updateCache fun h => { h with dropInvalidationGuard := true }
  else do
    let s := (← get).store
    let d := s.quasi q
    let valid := match x.constRef?.map s.object with
      | some (.struct _ _ fields) => s.getField fields d.field == d.seen
      | _ => false
    if !valid then invalid "quasi immutable field changed during tracing"
    match d.watch with
    | some w => modify fun s => { s with watches := if s.watches.contains w then s.watches else s.watches ++ [w] }
    | none => pure ()
    updateCache fun h => { h with dropInvalidationGuard := false }

/-! ## Dictionaries -/

/-- What a lookup is for: 0 reads, 1 stores, anything else removes. -/
def lookupReads : Int64 := 0
def lookupStores : Int64 := 1

/-- The representation of a value at this point; a virtual object has none. -/
def replacement (v : Value) : OptimizeM (Option Value) := do
  let s ← get
  pure (match s.id? v with
    | some i => (s.info i).box.bind Value.key?
    | none => v.key?)

/-- A second lookup of a key finds the same; tells whether the operation is gone. -/
def lookup (op : Op) (e : Effect) : OptimizeM Bool := do
  match ← constIntOf (op.arg 4), e.dictDescrs with
  | some flag, entries :: array :: _ => do
    if flag ≠ lookupReads && flag ≠ lookupStores then return false
    if ((← cache).lookups.lookup entries).isNone then
      updateCache fun h => { h with
        lookups := h.lookups ++ [(entries, [])]
        entriesOf := (array, entries) :: h.entriesOf.filter (·.1 ≠ array) }
    let dict ← replacement (op.arg 1)
    let key := (dict, ← replacement (op.arg 2))
    let known := ((← cache).lookups.lookup entries).getD []
    match known.lookup key with
    | none => do
      if flag = lookupReads then
        let r ← resultId op
        updateCache fun h => { h with
          lookups := h.lookups.map fun (d, xs) => if d = entries then (d, xs ++ [(key, r)]) else (d, xs) }
      pure false
    | some r => do
      let b ← if flag = lookupReads then pure true else do pure (← boundOf r).knownNonNegative
      if b then
        setEqual op.result r
        markRemoved
      pure b
  | _, _ => pure false

/-! ## The pass -/

def pass (next : Emit) (op : Op) : OptimizeM Unit := do
  match op.code, op.descr with
  | .getfieldGc, some (.field f) => read next op (.field f) true
  | .getfieldGcPure, some (.field f) => read next op (.field f) false
  | .setfieldGc, some (.field f) => write next op f
  | .getarrayitemGc, some (.array a) => readItem next op a true
  | .getarrayitemGcPure, some (.array a) => readItem next op a false
  | .setarrayitemGc, some (.array a) => writeItem next op a
  | .quasiimmutField, some (.quasi q) => readQuasi op q
  | .guardNotInvalidated, _ => do
    let h ← cache
    unless h.dropInvalidationGuard || h.seenInvalidationGuard do
      updateCache fun h => { h with seenInvalidationGuard := true }
      emit next op
  | .guardNoException, _ | .guardException, _ => do unless (← get).lastHeap.isRemoved do emit next op
  | .call, some (.call d) => do
    let e := ((← get).store.call d).effect
    if e.special = Special.dictLookup then
      unless ← lookup op e do emit next op
    else emit next op
  | _, _ => emit next op

/-- At the end of the trace nothing is held back. -/
def flush (next : Emit) : OptimizeM Unit := do
  updateCache fun h => { h with lookups := [], entriesOf := [] }
  releaseAll next
  releasePostponed next

end FlowCompiler.Trace.Heap
