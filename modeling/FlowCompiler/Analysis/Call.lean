import FlowCompiler.Analysis.Specialize

/-!
# Calls

Descriptions that one call site can reach belong to one family, which has a table for every shape of
call: each row gives the graph of every description.  Frozen instances that are read together, and
classes whose attribute is read together, form families too.
-/

namespace FlowCompiler

namespace CallArgs

def shape (a : CallArgs) : CallShape :=
  { count := a.positional.length, keys := a.keywords.map Prod.fst, star := a.star.isSome }

/-- The arguments with one more before all others. -/
def prepend (a : CallArgs) (s : Annot) : CallArgs := { a with positional := s :: a.positional }

end CallArgs

namespace Ana

/-! ## Arguments -/

/-- The positional arguments, those of a tuple included. -/
def flatPositional (a : CallArgs) : Ana (List Annot) := do
  match a.star with
  | none => pure a.positional
  | some (.tuple _ _ items) => pure (a.positional ++ items)
  | some s => do fail Code.signatureMismatch s!"*args must be a tuple, got {← text s}"

/-- Exactly `n` positional arguments. -/
def fixedUnpack (a : CallArgs) (n : Nat) : Ana (List Annot) := do
  let all ← flatPositional a
  if !a.keywords.isEmpty || all.length ≠ n then
    fail Code.signatureMismatch s!"expected {n} arguments, got {all.length}"
  pure all

/-- Gives a keyword argument to its parameter. -/
def placeKeyword (names : List String) (cells : List (Option Annot)) (k : String × Annot) : Ana (List (Option Annot)) := do
  match names.findIdx? (· == k.1) with
  | none => fail Code.signatureMismatch s!"unexpected keyword argument {Quoted.quote k.1}"
  | some i =>
    if ((cells[i]?).bind id).isSome then
      fail Code.signatureMismatch s!"got multiple values for argument {Quoted.quote k.1}"
    pure (cells.set i (some k.2))

/-- One annotation for every parameter: of a positional argument, a keyword or a default. -/
def matchSignature (a : CallArgs) (sig : Signature) (defaults : List Annot) : Ana (List Annot) := do
  let positional ← flatPositional a
  let n := sig.args.length
  if positional.length > n && sig.vararg = "" then
    fail Code.signatureMismatch s!"too many arguments: expected at most {n}, got {positional.length}"
  let start : List (Option Annot) := (List.range n).map fun i => positional[i]?
  let cells ← a.keywords.foldlM (placeKeyword sig.args) start
  let firstDefault : Int := n - defaults.length
  let filled ← cells.zipIdx.mapM fun (c, i) => do
    match c with
    | some v => pure v
    | none =>
      if (i : Int) ≥ firstDefault then
        match defaults[(i - firstDefault).toNat]? with
        | some v => pure v
        | none => pure .impossible
      else
        let name := (sig.args[i]?).getD ""
        fail Code.signatureMismatch s!"missing argument {Quoted.quote name}"
  if sig.vararg ≠ "" then return filled ++ [← newTuple (positional.drop n)]
  else pure filled

/-- The annotations of the parameters of a function for a call. -/
def parseArguments (d : DescId) (a : CallArgs) : Ana (List Annot) := do
  let w ← get
  let fd := w.funcDesc d
  let k := w.prog.host.func fd.func
  let defaults ← k.defaults.mapM immutable
  tryCatch (matchSignature a k.signature defaults) fun
    | .annot r none => throw (.annot { r with text := s!"signature mismatch: {fd.name}() {r.text}" } none)
    | f => throw f

/-! ## Families -/

/-- The number of a description's call family, made when it is first asked for. -/
def callFamilyOf (d : DescId) : Ana Nat := modifyGet fun w =>
  let k := w.rowKey d
  let fresh := w.callFamilies.size
  let known := w.callPartition.contains k
  let (p, _, i) := w.callPartition.find k fresh
  (i, { w with callPartition := p, callFamilies := if known then w.callFamilies else w.callFamilies.push { descs := [k] } })

/-- The families of calls, by the number of their first description. -/
def callFamilies (w : World) : List CallFamily :=
  let fs := w.callPartition.infos.map fun i => (w.callFamilies[i]?).getD default
  let first (f : CallFamily) : DescId := (sortDescs f.descs).headD 0
  fs.mergeSort fun a b => first a ≤ first b

/-- Adds a row to the table of a shape unless it is there. -/
def addRow (f : CallFamily) (shape : CallShape) (row : Row) : CallFamily :=
  let rows := (f.tables.lookup shape).getD []
  if rows.contains row then f
  else
    let tables := if (f.tables.lookup shape).isSome then
        f.tables.map fun t => if t.1 = shape then (shape, rows ++ [row]) else t
      else f.tables ++ [(shape, [row])]
    { f with tables, modified := true }

/-- The family of two that became one. -/
def absorbCalls (f other : CallFamily) : CallFamily :=
  let f := { f with modified := true, normalized := f.normalized || other.normalized, sites := f.sites + other.sites,
                    descs := sortDescs (f.descs ++ other.descs) }
  other.tables.foldl (fun f (shape, rows) => rows.foldl (fun f row => addRow f shape row) f) f

/-- Shapes by the number of positional arguments, then by keywords. -/
def shapeBefore (a b : CallShape) : Bool :=
  let (x, y) := (joinWith "," a.keys, joinWith "," b.keys)
  if a.count ≠ b.count then a.count < b.count
  else if x ≠ y then x < y
  else !a.star || b.star

/-- The tables of a family in the order of their shapes. -/
def sortedTables (f : CallFamily) : List (CallShape × List Row) := f.tables.mergeSort fun a b => shapeBefore a.1 b.1

/-- Makes one family of those of several descriptions. -/
def mergeCallFamilies (ds : List DescId) : Ana Unit := do
  match ds with
  | [] => pure ()
  | d :: rest => do
    let _ ← callFamilyOf d
    for e in rest do
      let _ ← callFamilyOf e
      modify fun w =>
        match w.callPartition.join (w.rowKey d) (w.rowKey e) with
        | (p, some (i, j)) =>
          let other := (w.callFamilies[j]?).getD default
          { w with callPartition := p, callFamilies := w.callFamilies.modify i fun f => absorbCalls f other }
        | (p, none) => { w with callPartition := p }

def frozenFamilyOf (d : DescId) : Ana Nat := modifyGet fun w =>
  let known := w.frozenPartition.contains d
  let (p, _, i) := w.frozenPartition.find d w.frozenFamilies.size
  (i, { w with frozenPartition := p, frozenFamilies := if known then w.frozenFamilies else w.frozenFamilies.push { descs := [d] } })

def frozenFamily (i : Nat) : Ana FrozenFamily := return ((← get).frozenFamilies[i]?).getD default

def frozenValue (f : FrozenFamily) (name : String) : Annot := (f.attrs.lookup name).getD .impossible

/-- Widens an attribute of a family of frozen instances. -/
def setFrozenValue (i : Nat) (name : String) (a : Annot) : Ana Unit := do
  let u ← union (frozenValue (← frozenFamily i) name) a
  modify fun w => { w with frozenFamilies := w.frozenFamilies.modify i fun f => { f with attrs := setDict f.attrs name u } }

def mergeFrozen (d e : DescId) : Ana Unit := do
  let _ ← frozenFamilyOf d
  let _ ← frozenFamilyOf e
  let w ← get
  let (p, joined) := w.frozenPartition.join d e
  modify fun w => { w with frozenPartition := p }
  match joined with
  | none => pure ()
  | some (i, j) => do
    let other ← frozenFamily j
    modify fun w => { w with frozenFamilies := w.frozenFamilies.modify i fun f =>
      { f with descs := sortDescs (f.descs ++ other.descs), reads := insertPositions f.reads other.reads } }
    for (name, a) in other.attrs do
      setFrozenValue i name a

def classPartition (attr : String) : Ana (Partition DescId Nat) :=
  return ((← get).classPartitions.lookup attr).getD {}

def setClassPartition (attr : String) (p : Partition DescId Nat) : Ana Unit :=
  modify fun w => { w with classPartitions := setDict w.classPartitions attr p }

def classFamilyOf (attr : String) (d : DescId) : Ana Nat := do
  let p ← classPartition attr
  let w ← get
  let known := p.contains d
  let (p, _, i) := p.find d w.classFamilies.size
  setClassPartition attr p
  if !known then modify fun w => { w with classFamilies := w.classFamilies.push { descs := [d] } }
  pure i

def classFamily (i : Nat) : Ana ClassAttrFamily := return ((← get).classFamilies[i]?).getD default

def setClassFamily (i : Nat) (f : ClassAttrFamily → ClassAttrFamily) : Ana Unit :=
  modify fun w => { w with classFamilies := w.classFamilies.modify i f }

def mergeClassAttr (attr : String) (d e : DescId) : Ana Unit := do
  let _ ← classFamilyOf attr d
  let _ ← classFamilyOf attr e
  let (p, joined) := (← classPartition attr).join d e
  setClassPartition attr p
  match joined with
  | none => pure ()
  | some (i, j) => do
    let other ← classFamily j
    setClassFamily i fun f =>
      { f with descs := sortDescs (f.descs ++ other.descs), reads := insertPositions f.reads other.reads }
    let u ← union (← classFamily i).value other.value
    setClassFamily i fun f => { f with value := u }

/-! ## Attributes of compile-time values -/

/-- The value of an attribute of a frozen instance: its own, or that of its class. -/
def frozenAttr? (i : InstId) (name : String) : Ana (Option Datum) := do
  let h ← host
  let k := h.inst i
  match k.attrs.lookup name with
  | some v => pure (some v)
  | none =>
    match k.cls.bind fun c => h.classLookup? c name with
    | some (.fn f, _) =>
      if (h.func f).static then pure (some (.fn f)) else return some (.bound (← addObject (.bound f i)))
    | some (v, _) => pure (some v)
    | none => pure none

/-- The annotation of an attribute of a frozen instance. -/
def readFrozenAttr (d : DescId) (name : String) : Ana Annot := do
  match (← get).desc d with
  | .frozen i cache =>
    match cache.lookup name with
    | some a => pure a
    | none =>
      match ← frozenAttr? i name with
      | none => pure .impossible
      | some v => do
        let a ← immutable v
        modify (·.updateDesc d fun
          | .frozen i cache => .frozen i (setDict cache name a)
          | k => k)
        pure a
  | _ => pure .impossible

/-- Has all but the current reader analysed again. -/
def reflowOthers (ps : Array PosKey) (pos : PosKey) : Ana Unit := reflowAll (ps.filter (· ≠ pos))

def mixedSet {α : Type} (attr : String) (ds : List DescId) (nullable : Bool) : Ana α := do
  fail Code.unsupported s!"getattr {Quoted.quote attr} on a mixed PBC {← text (.pbc ds nullable)}"

/-- Reads an attribute of frozen instances, which become one family. -/
def frozenGetattr (ds : List DescId) (nullable : Bool) (attr : String) : Ana Annot := do
  let first := ds.headD 0
  for d in ds.drop 1 do
    if ((← get).desc d).kind ≠ .frozen then mixedSet attr ds nullable
    mergeFrozen first d
  let pos ← positionOrZero
  let i ← frozenFamilyOf first
  modify fun w => { w with frozenFamilies := w.frozenFamilies.modify i fun f => { f with reads := insertPos f.reads pos } }
  let actual ← ds.foldlM (fun acc d => do union acc (← readFrozenAttr d attr)) Annot.impossible
  let old := frozenValue (← frozenFamily i) attr
  setFrozenValue i attr actual
  let now ← frozenFamily i
  if !(← get).equal old (frozenValue now attr) then reflowOthers now.reads pos
  return frozenValue (← frozenFamily i) attr

/-- Reads an attribute of classes, which become one family for this name. -/
def classGetattr (ds : List DescId) (nullable : Bool) (attr : String) : Ana Annot := do
  let first := ds.headD 0
  for d in ds.drop 1 do
    if ((← get).desc d).kind ≠ .cls then mixedSet attr ds nullable
    mergeClassAttr attr first d
  let pos ← positionOrZero
  let i ← classFamilyOf attr first
  setClassFamily i fun f => { f with reads := insertPos f.reads pos }
  let actual ← ds.foldlM (fun acc d => do union acc (← readClassAttr d attr)) (← classFamily i).value
  let f ← classFamily i
  if !(← get).equal actual f.value then
    setClassFamily i fun f => { f with value := actual }
    reflowOthers f.reads pos
  return (← classFamily i).value

/-- Reads an attribute of one of several compile-time values. -/
def pbcGetattr (ds : List DescId) (nullable : Bool) (attr : String) : Ana Annot := do
  match ds with
  | [] => pure .impossible
  | d :: _ =>
    match (← get).desc d with
    | .frozen _ _ => frozenGetattr ds nullable attr
    | .cls _ => classGetattr ds nullable attr
    | _ => do fail Code.noAttribute s!"getattr {Quoted.quote attr} on {← text (.pbc ds nullable)}"

/-! ## Bindings of variables -/

def bindVar (v : VarId) (a : Annot) : Ana Unit :=
  modify fun w => w.updateProgress fun p => { p with bindings := p.bindings.insert v a }

def bindingOf? (v : VarId) : Ana (Option Annot) := return (← get).progress.bindings[v]?

/-- The annotation of an operand: what its variable is bound to, or that of its constant. -/
def annotationOf? : Operand → Ana (Option Annot)
  | .var v => bindingOf? v
  | .const d _ => do pure (some (← immutable d))

/-- The annotation of an operand; impossible when there is none. -/
def bindingOrImpossible (o : Operand) : Ana Annot :=
  tryCatch (do pure ((← annotationOf? o).getD .impossible)) fun _ => pure .impossible

/-- Two annotations that are not all objects, with only that above both, do not go together. -/
def checkTop (a b u : Annot) : Ana Unit := do
  match u with
  | .object =>
    if a.kind ≠ .object && b.kind ≠ .object then
      throw (.union (← text a) (← text b) "")
  | _ => pure ()

/-- Widens the annotation of a variable. -/
def setBinding (v : VarId) (a : Annot) : Ana Unit := do
  match ← bindingOf? v with
  | none => bindVar v a
  | some old => do
    let u ← union old a
    checkTop old a u
    bindVar v u

/-- Attaches a place to a failure of analysis that has none; the failure of a union keeps none. -/
def atPlace (w : World) (pos : PosKey) : Failure → Failure
  | f@(.annot r none) =>
    match pos.graph, pos.block with
    | some g, some b => .annot (r.located { graph := (w.prog.flow.graph g).name, block := b, op := pos.index }) none
    | _, _ => f
  | f => f

def located {α : Type} (pos : PosKey) (m : Ana α) : Ana α := tryCatch m fun f => do throw (atPlace (← get) pos f)

/-! ## Entering blocks -/

def setAnnotated (b : BlockId) (g : Option GraphId) : Ana Unit :=
  modify fun w => w.updateProgress fun p => { p with annotated := p.annotated.insert b g }

def bindInputs (b : BlockId) (inputs : List VarId) (cells : List Annot) : Ana Unit := do
  for (v, a) in inputs.zip cells do
    bindVar v a
  setAnnotated b none

/-- Widens the inputs of a block that was met before; it is entered again when one of them grew. -/
def mergeInputs (g : GraphId) (b : BlockId) (inputs : List VarId) (cells : List Annot) : Ana Unit := do
  let here : PosKey := { graph := some g, block := some b, index := -1 }
  let merged ← (inputs.zip cells).mapM fun (v, a) => located here do
    let old := (← bindingOf? v).getD .impossible
    let u ← union old a
    checkTop old a u
    pure (u, !(← get).equal u old)
  if merged.any Prod.snd then bindInputs b inputs (merged.map Prod.fst)

/-- Enters a block with annotations for its inputs, and has it analysed when they are new. -/
def addPendingBlock (g : GraphId) (b : BlockId) (cells : List Annot) : Ana Unit := do
  let w ← get
  let inputs := (w.prog.flow.block b).inputs
  if cells.length ≠ inputs.length then
    fail Code.unsupported
      s!"{(w.prog.flow.graph g).name} {FlowStore.blockAt b} expects {inputs.length} inputs, got {cells.length}"
  if !w.progress.graphs.contains g then
    modify fun w => w.updateProgress fun p => { p with graphs := p.graphs.push g }
  if w.progress.annotated.contains b then mergeInputs g b inputs cells else bindInputs b inputs cells
  match (← get).progress.annotated[b]? with
  | some (some _) => pure ()
  | _ => schedule g b

/-- Enters a graph. -/
def addPendingGraph (g : GraphId) (cells : List Annot) : Ana Unit := do
  let w ← get
  match w.prog.flow.checkGraph g with
  | .error f => fail Code.unsupported s!"malformed graph: {f.message}"
  | .ok _ => pure ()
  let args := (w.prog.flow.argsOf g).length
  if cells.length ≠ args then
    fail Code.signatureMismatch s!"{(w.prog.flow.graph g).name} takes {args} arguments, {cells.length} given"
  addPendingBlock g (((w.prog.flow.graph g).start).getD 0) cells

def returnAnnot (g : GraphId) : Ana Annot := do
  return (← bindingOf? ((← get).prog.flow.returnVar g)).getD .impossible

/-- Enters the graph of a called function, and gives what it is known to return. -/
def recursiveCall (g : GraphId) (whence : Option PosKey) (cells : List Annot) : Ana Annot := do
  let w ← get
  let k := w.prog.flow.graph g
  if !w.progress.attached then fail Code.unsupported s!"no annotator attached to analyse {k.name}"
  match whence with
  | some pos =>
    modify fun w => w.updateProgress fun p =>
      let edges := match pos.graph, pos.block with
        | some caller, some block =>
          let e : CallEdge := { caller, callee := g, block, index := pos.index }
          if p.edges.contains e then p.edges else p.edges.push e
        | _, _ => p.edges
      { p with edges, notify := p.notify.insert k.ret (insertPos ((p.notify[k.ret]?).getD #[]) pos) }
  | none => pure ()
  addPendingGraph g cells
  returnAnnot g

/-! ## Calling -/

/-- The result of calling a function. -/
def callFunction (d : DescId) (whence : Option PosKey) (args : CallArgs) (prev : Annot) (site : Option PosKey) :
    Ana Annot := do
  let w ← get
  let fd := w.funcDesc d
  let k := w.prog.host.func fd.func
  if k.notAnalysable then fail Code.unsupported s!"{fd.name} is not RPython"
  let cells ← parseArguments d args
  let (special, cells) ← specialize d cells site
  let result ← match special with
    | .value a => pure a
    | .graph g => do
      let result ← recursiveCall g whence cells
      match k.declared with
      | none => pure result
      | some (_, spec) =>
        match ← annotateSpec spec with
        | none => pure result
        | some expected => do
          if !(← contains expected result) then
            let want ← text expected
            let got ← text result
            fail Code.declaredTypeViolated s!"{fd.name} return value: expected {want}, got {got}"
          addPendingBlock g ((← get).prog.flow.graph g).ret [expected]
          pure expected
  union result prev

/-- The result of calling a class: an instance, whose initializer is called. -/
def callClass (d : DescId) (whence : Option PosKey) (args : CallArgs) : Ana Annot := do
  let w ← get
  let cd := w.classDesc d
  let key := match cd.special, whence with
    | "specialize:ctr_location", some pos => match pos.graph, pos.block with
      | some g, some b => s!"{(w.prog.flow.graph g).name} {FlowStore.blockAt b} op={pos.index}"
      | _, _ => "?"
    | _, _ => ""
  let c ← classDefOf d key
  let made := Annot.instOf c
  match ← readClassAttr d "__init__" with
  | .impossible => do
    if !(← get).isExceptionDesc d then
      let _ ← tryCatch (fixedUnpack args 0) fun _ =>
        fail Code.signatureMismatch s!"default __init__ takes no argument (class {cd.name})"
    pure made
  | .pbc ds _ => do
    let _ ← pbcCall ds (args.prepend made) whence
    pure made
  | _ => fail Code.unsupported s!"{cd.name}.__init__ is not a function"

/-- The function of a description that is called, and the arguments it gets. -/
def callee (d : DescId) (args : CallArgs) : Ana (DescId × CallArgs) := do
  let w ← get
  match w.desc d with
  | .method m =>
    match m.self with
    | none => fail Code.unsupported s!"calling unbound {w.descText d}"
    | some c => pure (m.func, args.prepend (.inst (some c) false m.flags))
  | .frozenMethod f z => pure (f, args.prepend (.pbc [z] false))
  | _ => pure (d, args)

/-- The result of calling one description. -/
def callDesc (d : DescId) (whence : Option PosKey) (args : CallArgs) (prev : Annot) (site : Option PosKey) : Ana Annot := do
  match (← get).desc d with
  | .cls _ => callClass d whence args
  | _ => do
    let (f, args) ← callee d args
    callFunction f whence args prev site

/-- The result of calling one of several compile-time values, which become one family. -/
def callPbc (ds : List DescId) (args : CallArgs) (whence : Option PosKey) : Ana Annot := do
  let w ← get
  let site := whence.filter fun p => (opAt? w p).isSome
  let prev ← match (site.bind (opAt? w)).bind FlowOp.result with
    | some v => if w.progress.attached then do pure ((← bindingOf? v).getD .impossible) else pure .impossible
    | none => pure .impossible
  for d in ds do
    if (w.desc d).kind = .frozen then fail Code.unsupported s!"{w.descText d} is not callable"
  mergeCallFamilies ds
  let results ← ds.mapM fun d => callDesc d whence args prev site
  unionOf results

/-! ## Call tables -/

/-- The graph that a call of a description uses; none for a call at compile time. -/
def graphOfCall (d : DescId) (args : CallArgs) (site : Option PosKey) : Ana (Option GraphId) := do
  let (f, args) ← callee d args
  let cells ← parseArguments f args
  match ← specialize f cells site with
  | (.graph g, _) => pure (some g)
  | (.value _, _) => pure none

/-- Records a call of functions or methods in the table of their family. -/
def considerFunctions (ds : List DescId) (args : CallArgs) (site : Option PosKey) (isMethod : Bool) : Ana Unit := do
  let shape := if isMethod then { args.shape with count := args.shape.count + 1 } else args.shape
  let mut row : Row := []
  for d in ds do
    let w ← get
    match (w.desc d).kind with
    | .frozen => fail Code.unsupported s!"{w.descText d} has no graph"
    | .cls => fail Code.unsupported s!"{w.descText d} has no graph"
    | _ => pure ()
    match ← graphOfCall d args site with
    | some g =>
      let k := w.rowKey d
      row := row.filter (·.1 ≠ k) ++ [(k, g)]
    | none => pure ()
  mergeCallFamilies ds
  let i ← callFamilyOf (ds.headD 0)
  let sorted := row.mergeSort fun a b => a.1 ≤ b.1
  modify fun w => { w with callFamilies := w.callFamilies.modify i fun f =>
    let f := { f with sites := f.sites + 1 }
    if sorted.isEmpty then f else addRow f shape sorted }

def isPbc : Annot → Bool
  | .pbc _ _ => true
  | _ => false

/-- The class definitions that a call of classes makes instances of. -/
def calledClassDefs (ds : List DescId) (result : Annot) : Ana (Option (List ClassDefId)) := do
  match ds with
  | [_] =>
    match result with
    | .inst (some c) _ _ => pure (some [c])
    | .impossible => pure none
    | r => do fail Code.unsupported s!"calling a class did not return an instance: {← text r}"
  | ds => do
    let found ← ds.mapM fun d => do
      let c ← classDefOf d ""
      let init ← readClassAttr d "__init__"
      pure (c, isPbc init)
    let parentInit ← match (← get).commonDesc? ds with
      | some base => do pure (isPbc (← readClassAttr base "__init__"))
      | none => pure false
    if found.any Prod.snd && !parentInit then
      let w ← get
      let names := String.intercalate " " (ds.map fun d => (w.classDesc d).name)
      fail Code.variableKeywords (s!"some classes among [{names}] have an __init__ and others not; "
        ++ "add an empty __init__ to the common base class")
    pure (some (found.map Prod.fst))

/-- Records a call of classes, and that of their initializers. -/
def considerClasses (ds : List DescId) (args : CallArgs) (result : Annot) (site : Option PosKey) : Ana Unit := do
  mergeCallFamilies ds
  match ← calledClassDefs ds result with
  | none => pure ()
  | some defs => do
    let inits ← (ds.zip defs).filterMapM fun (d, c) => do
      match ← readClassAttr d "__init__" with
      | .pbc [f] _ => do
        match (← get).desc f with
        | .function _ => return some (← methodDesc { func := f, origin := c, self := some c, name := "__init__" })
        | _ => pure none
      | .pbc _ _ => fail Code.unsupported s!"unexpected dynamic __init__ in {((← get).classDesc d).name}"
      | _ => pure none
    if !inits.isEmpty then considerFunctions inits args site true

/-- Records a call in the tables. -/
def considerCall (ds : List DescId) (nullable : Bool) (args : CallArgs) (result : Annot) (site : Option PosKey) : Ana Unit := do
  match ds with
  | [] => pure ()
  | d :: _ =>
    let w ← get
    match (w.desc d).kind with
    | .cls => do
      if ds.any fun e => (w.desc e).kind ≠ .cls then
        fail Code.unsupported s!"mixing classes and other callables in {← text (.pbc ds nullable)}"
      considerClasses ds args result site
    | .method => considerFunctions ds args site true
    | .frozenMethod => considerFunctions ds args site true
    | .function => considerFunctions ds args site false
    | .frozen => do fail Code.unsupported s!"{← text (.pbc ds nullable)} is not callable"

/-! ## Arguments of call operations -/

def callShapeOf (op : FlowOp) : Ana CallShape := do
  match (op.args[1]? : Option Operand) with
  | some (.const (.shape s) _) => pure s
  | some (.const v _) => fail Code.unsupported s!"call_args shape is {HostStore.typeText v}"
  | _ => do fail Code.unsupported s!"call_args without a constant shape: {(← get).prog.opText op}"

/-- The arguments of a call operation. -/
def argsOfCall (op : FlowOp) : Ana CallArgs := do
  match op.name with
  | "simple_call" => return { positional := ← (op.args.drop 1).mapM bindingOrImpossible }
  | "call_args" => do
    let shape ← callShapeOf op
    let rest := op.args.drop 2
    let count := shape.count.toNat
    let need := shape.count + shape.keys.length + (if shape.star then 1 else 0)
    if (rest.length : Int) ≠ need then
      fail Code.unsupported s!"call_args shape {HostStore.shapeText shape} does not match {rest.length} arguments"
    let values ← rest.mapM bindingOrImpossible
    pure { positional := values.take count
           keywords := shape.keys.zip (values.drop count)
           star := if shape.star then values.getLast? else none }
  | name => throw (.plain s!"{name} is not a call operation")

/-- Records all calls once the analysis has come to rest. -/
def computeAtFixpoint : Ana Unit := atPosition none do
  for pos in (← get).progress.sites do
    let w ← get
    match opAt? w pos with
    | none => pure ()
    | some op =>
      match ← bindingOrImpossible ((op.args.head?).getD default) with
      | .pbc ds nullable => do
        let args ← argsOfCall op
        let result ← match op.result with
          | some v => do pure ((← bindingOf? v).getD .impossible)
          | none => pure .impossible
        modify fun w => { w with position := some pos }
        located pos (considerCall ds nullable args result (some pos))
        modify fun w => { w with position := none }
      | _ => pure ()
  for call in (← get).emulated do
    considerCall call.descs call.nullable { positional := call.args } .impossible none
  modify fun w => { w with emulated := [] }

/-! ## Closing the circle -/

/-- The steps that call each other, to a depth. -/
def knotAux : (fuel : Nat) → Knot
  | 0 =>
    { immutable := fun _ => throw (.plain "constants nest too deeply")
      descOf := fun _ => throw (.plain "descriptions nest too deeply")
      classDefOf := fun _ _ => throw (.plain "classes nest too deeply")
      pbcCall := fun _ _ _ => throw (.plain "calls nest too deeply") }
  | n + 1 =>
    let k := knotAux n
    { immutable := fun v => annotateConstant v k
      descOf := fun v => describe v k
      classDefOf := fun d key => defineClass d key k
      pbcCall := fun ds args whence => callPbc ds args whence k }

/-- Prebuilt constants nest less deeply than this. -/
def knot : Knot := knotAux 2000

/-- Runs a step of the analysis. -/
def run {α : Type} (m : Ana α) : EStateM Failure World α := m knot

end Ana
end FlowCompiler
