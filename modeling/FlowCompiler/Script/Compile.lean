import FlowCompiler.Pipeline
import FlowCompiler.Script.Annotations
import FlowCompiler.Script.Shown

/-!
# Scripts that compile programs

The answer shows what the stages of a compilation made: the annotated graphs, the families of calls,
the classes, the lowered graphs and the database.  Parts that an earlier stage made are shown also when
a later one fails.
-/

namespace FlowCompiler.Script

open Document

/-! ## Annotated graphs -/

/-- The case of an exit. -/
def caseDoc (w : World) : Datum → Document
  | .nil => null
  | .bool b => bool b
  | .cls c => text (w.prog.host.className c)
  | d => text (w.prog.host.text d)

def varAnnot (w : World) (v : VarId) : String := ((w.progress.bindings[v]?).map (shownAnnot w)).getD "nil"

def annotatedOp (w : World) (op : FlowOp) : Document :=
  text (match op.result with
    | some v => s!"{(w.prog.flow.var v).name} = {op.name}: {varAnnot w v}"
    | none => s!" = {op.name}: -")

/-- The place of a block among those of its graph. -/
def indexIn (bs : List BlockId) (b : BlockId) : Document := int ((bs.findIdx? (· == b)).elim (-1) Int.ofNat)

def annotatedBlock (w : World) (bs : List BlockId) (b : BlockId) : Document :=
  let k := w.prog.flow.block b
  let input (v : VarId) : Document := text s!"{(w.prog.flow.var v).name}: {varAnnot w v}"
  let exit (l : LinkId) : Document :=
    let link := w.prog.flow.link l
    list [caseDoc w link.exitCase, indexIn bs link.target, bool (w.progress.followed.contains l)]
  record [("in", list (k.inputs.map input)), ("ops", list (k.ops.map (annotatedOp w))), ("exits", list (k.exits.map exit)),
    ("done", bool ((w.progress.annotated[b]?).bind id).isSome)]

def annotatedGraph (w : World) (g : GraphId) : Document :=
  let bs := w.prog.flow.blocksOf g
  record [("graph", text (w.prog.flow.graph g).name), ("returns", text (varAnnot w (w.prog.flow.returnVar g))),
    ("blocks", list (bs.map (annotatedBlock w bs)))]

def annotatedDoc (w : World) : Document := list (w.progress.graphs.toList.map (annotatedGraph w))

/-- The classes; a builtin class without attributes only by name. -/
def classesDoc (w : World) : Document :=
  list ((List.range w.classDefs.size).map fun i =>
    let k := w.classDef (i + 1)
    if (w.prog.host.cls (w.classDesc k.desc).cls).builtin && k.attrs.isEmpty then text k.name else classDoc w (i + 1))

/-- The calls between graphs, sorted by caller, block, operation and callee. -/
def callGraphDoc (w : World) : Document :=
  let name (g : GraphId) : String := (w.prog.flow.graph g).name
  let before (a b : CallEdge) : Bool :=
    if name a.caller ≠ name b.caller then name a.caller < name b.caller
    else if a.block ≠ b.block then a.block < b.block
    else if a.index ≠ b.index then a.index < b.index
    else name a.callee ≤ name b.callee
  list ((w.progress.edges.toList.mergeSort before).map fun e =>
    list [text (name e.caller), text (name e.callee), int e.index])

/-! ## Lowered graphs -/

/-- The variables shown so far in a graph, numbered in that order. -/
abbrev VarNumbers := Array VarId

/-- Shows parts of a lowered graph. -/
abbrev LowerShow := StateT VarNumbers ShowM

def varNumber (v : VarId) : LowerShow String := fun s =>
  match s.findIdx? (· == v) with
  | some i => pure (s!"%{i}", s)
  | none => pure (s!"%{s.size}", s.push v)

def defined (w : World) (v : VarId) : LowerShow String := do
  let n ← varNumber v
  let t := ((w.prog.flow.var v).concrete.map w.prog.low.types.text).getD "?"
  pure s!"{n}:{t}"

/-- A value that is no low-level value. -/
def hostText (w : World) (d : Datum) : String :=
  match d with
  | .graphs gs => "graphs[" ++ String.intercalate "," (gs.map fun g => (w.prog.flow.graph g).name) ++ "]"
  | .builtin _ => w.prog.host.text d
  | .fn _ | .cls _ | .inst _ | .bound _ | .none | .big _ | .shape _ => "host " ++ w.prog.host.text d
  | d => "host " ++ HostStore.typeText d

def constText (w : World) (d : Datum) : ShowM String :=
  match d with
  | .int32 n => pure s!"u:{n}"
  | .ptr _ | .container _ | .type _ => shownText w.prog.low d
  | d => pure ((plainText? d).getD (hostText w d))

def operandText (w : World) : Operand → LowerShow String
  | .var v => varNumber v
  | .const d t => do
    let s ← constText w d
    match d, t with
    | .graphs _, _ => pure s
    | .ptr _, _ => pure s
    | _, none => pure (s ++ ":?")
    | _, some t => if t = .void then pure s!"({s})" else pure (s ++ ":" ++ w.prog.low.types.text t)

def operandsText (w : World) (os : List Operand) : LowerShow String :=
  return String.intercalate ", " (← os.mapM (operandText w))

def loweredOp (w : World) (op : FlowOp) : LowerShow Document := do
  let args ← operandsText w op.args
  let result ← match op.result with
    | some v => defined w v
    | none => pure "-"
  pure (text s!"{result} = {op.name}({args})")

def loweredBlock (w : World) (bs : List BlockId) (b : BlockId) : LowerShow Document := do
  let k := w.prog.flow.block b
  let inputs ← k.inputs.mapM (defined w)
  let ops ← k.ops.mapM (loweredOp w)
  let exits ← k.exits.mapM fun l => do
    let link := w.prog.flow.link l
    let args ← operandsText w link.args
    pure (list [caseDoc w link.exitCase, indexIn bs link.target, text args])
  let switch ← match k.exitSwitch with
    | none => pure null
    | some (.const .lastException _) => pure (text "last_exception")
    | some o => do pure (text (← operandText w o))
  pure (record [("in", ofTexts inputs), ("ops", list ops), ("exits", list exits), ("switch", switch)])

def loweredGraph (w : World) (g : GraphId) : ShowM Document := do
  let bs := w.prog.flow.blocksOf g
  let (blocks, _) ← (bs.mapM (loweredBlock w bs)).run #[]
  pure (record [("graph", text (w.prog.flow.graph g).name), ("blocks", list blocks)])

def loweredDoc (w : World) : ShowM Document := return list (← w.progress.graphs.toList.mapM (loweredGraph w))

def helpersDoc (w : World) (t : Typer) : Document :=
  let low := w.prog.low
  list (t.helpers.toList.map fun (_, p) =>
    let name := ((p.obj.map fun c => (low.get c).name)).getD ""
    text s!"{name}: {low.types.nodeName p.pointee}")

def classIdsDoc (w : World) : Document :=
  list (w.classDefs.toList.map fun k => list [text k.name, int k.minId, int k.maxId])

def rttiDoc (w : World) (t : Typer) : Document :=
  let low := w.prog.low
  ofTexts (sorted (t.rtti.map fun (s, r) =>
    let name := (low.types.structName? s).getD ""
    s!"{name} {r.destructor} light={Types.boolText r.light}"))

def statsDoc (s : Stats) : Document :=
  record [("gc", text s.gc), ("entries", nat s.entries), ("graphs", nat s.graphs), ("blocks", nat s.blocks),
    ("operations", nat s.operations), ("helpers", nat s.helpers), ("types", nat s.types), ("containers", nat s.containers),
    ("functions", nat s.functions)]

/-! ## Compilations -/

/-- The settings that a request changes. -/
def toSettings (d : Document) : Settings :=
  let s : Settings := {}
  { s with
    gc := if (d.get "gc").given then (d.get "gc").toText else s.gc
    noTypePtr := (d.get "no_typeptr").isTrue
    maxReflows := (d.get "max_reflows").toInt
    defaultSpecializer :=
      if (d.get "default_specializer").given then (d.get "default_specializer").toText else s.defaultSpecializer }

/-- Which parts of an answer a request wants; without a choice all but two that are large. -/
def wants (d : Document) (name : String) : Bool :=
  let dump := (d.get "dump").texts
  if dump.isEmpty then name ≠ "yaml" && name ≠ "partial" else dump.contains name

/-- The entries that a request names. -/
def toEntries (k : Known) (d : Document) : Ana (List Compilation.Entry) :=
  (d.get "entries").items.mapM fun e => do
    let args ← (e.items.drop 1).mapM (annotOf k)
    pure { func := k.names.func (e.nth 0).toText, args }

/-- Diagnostics, or null when there are none. -/
def diagnosticsDoc (j : Journal) : Document :=
  match j.errors ++ j.warnings with
  | [] => null
  | ds => list (ds.map diagnosticDoc)

abbrev Fields := List (String × Document)

def failureFields (stage : String) (f : Failure) (c : Compilation) : Fields :=
  [("failed", text stage), ("err", failed f), ("summary", text c.journal.summary), ("diags", diagnosticsDoc c.journal)]

/-- What is shown after a stage. -/
structure StageView where
  name : String
  act : Compilation.M Unit
  shown : Compilation → ShowM Fields
  /-- What is shown when the stage fails. -/
  partly : Compilation → Fields := fun _ => []

/-- Runs stages until one fails, and collects what they show. -/
def runStages : List StageView → Compilation → ShowM (Fields × Compilation)
  | [], c => pure ([], c)
  | s :: rest, c =>
    match s.act.run c with
    | .error f c => pure (failureFields s.name f c ++ s.partly c, c)
    | .ok _ c => do
      let shown ← s.shown c
      let (more, c) ← runStages rest c
      pure (shown ++ more, c)

/-- A part that is shown when the request wants it. -/
def part (d : Document) (want name : String) (value : Unit → Document) : Fields :=
  if wants d want then [(name, value ())] else []

def afterAnnotate (d : Document) (c : Compilation) : ShowM Fields :=
  let w := c.world
  pure (part d "graphs" "annotated" (fun _ => annotatedDoc w) ++ part d "families" "families" (fun _ => familiesDoc w)
    ++ part d "classes" "classes" (fun _ => classesDoc w) ++ part d "callgraph" "callgraph" (fun _ => callGraphDoc w))

def afterLower (d : Document) (c : Compilation) : ShowM Fields := do
  let w := c.world
  let t := c.typer.getD {}
  let lowered ← if wants d "lowered" then do pure [("lowered", ← loweredDoc w)] else pure []
  pure (lowered ++ part d "helpers" "helpers" (fun _ => helpersDoc w t) ++ part d "classids" "classids" (fun _ => classIdsDoc w)
    ++ [("rtti", rttiDoc w t)])

def afterCollect (d : Document) (c : Compilation) : ShowM Fields := do
  let db := c.database.getD {}
  let whole ← if wants d "database" then do pure [("database", ← databaseDoc c.world.prog.low db)] else pure []
  let yaml := match db.summary with
    | .ok s => part d "yaml" "yaml" fun _ => text s
    | .error _ => []
  pure (whole ++ yaml ++ [("stats", statsDoc c.stats)])

/-- The stages of a request, up to the one it stops after. -/
def stagesOf (d : Document) (entries : List Compilation.Entry) : List StageView :=
  let stop := (d.get "stop").toText
  let all : List StageView :=
    [ { name := "entries", act := Compilation.addEntries entries, shown := fun _ => pure [] },
      { name := "annotate", act := Compilation.annotate, shown := afterAnnotate d,
        partly := fun c => part d "partial" "annotated" fun _ => annotatedDoc c.world },
      { name := "rtype", act := Compilation.lower, shown := afterLower d },
      { name := "database", act := Compilation.collect, shown := afterCollect d } ]
  match all.findIdx? fun s => s.name == stop with
  | some i => all.take (i + 1)
  | none => all

/-- A compilation ready to be entered, and the entries of the request. -/
def prepare (d : Document) (s : ProgramScript) (entries : Known → Ana (List Compilation.Entry)) :
    Compilation.M (List Compilation.Entry) := do
  let known : Known := { names := s.names }
  Compilation.analyse (addOverrides known d)
  Compilation.analyse (entries known)

def startCompilation (d : Document) (s : ProgramScript) : Compilation :=
  Compilation.start (toSettings (d.get "config")) { prog := s.prog, exceptions := s.names.exceptions }

/-- The entry of the sample that a request names. -/
def sampleEntries (d : Document) : Compilation.M (List Compilation.Entry) := do
  match (d.find? "sample").bind fun n => (Sample.all.lookup n.toText).map (n.toText, ·) with
  | some (name, r) => return [← Sample.entry name r]
  | none => pure []

def unknownSample (d : Document) : Bool :=
  match d.find? "sample" with
  | some n => (Sample.all.lookup n.toText).isNone
  | none => false

def compiles (d : Document) : Document :=
  if unknownSample d then succeeded (record [("sample", null), ("names", ofTexts Sample.names)])
  else
    let s := load d []
    let c := startCompilation d s
    match (do
      let own ← prepare d s fun k => toEntries k d
      let sample ← sampleEntries d
      pure (own ++ sample)).run c with
    | .error f _ => failed f
    | .ok entries c => succeeded (record ((runStages (stagesOf d entries) c).run #[]).1.1)

/-! ## One operation at a time -/

/-- Whether an argument of a case is a constant. -/
def isConstArg (d : Document) : Bool := d.has "const" && !d.has "k"

/-- The parameters of a case with their annotations, and the arguments as documents. -/
def caseArgs (args : List Document) : List (String × Document) × List Document :=
  let named := args.zipIdx.map fun (a, i) => if isConstArg a then (none, a.get "const") else (some (s!"p{i}", a), text s!"p{i}")
  (named.filterMap Prod.fst, named.map Prod.snd)

/-- The operations of a case. -/
def caseOps (op : String) (args : List Document) : List Document :=
  let call (name : String) (as : List Document) : Document := list (text "r" :: text name :: as)
  match op.toList with
  | '!' :: r => [call "simple_call" (record [("builtin", text (String.ofList r))] :: args)]
  | '.' :: r =>
    [ list [text "m", text "getattr", args.headD null, record [("str", text (String.ofList r))]],
      call "simple_call" (text "m" :: args.drop 1) ]
  | _ => [call op args]

/-- The function of a case. -/
def caseFunction (op : String) (args : List Document) : Document × List Document :=
  let (params, operands) := caseArgs args
  let names := params.map fun p => text p.1
  let block := record [("name", text "s"), ("in", list names), ("ops", list (caseOps op operands)), ("ret", text "r")]
  (record [("name", text "f"), ("args", list names), ("blocks", list [block])], params.map Prod.snd)

/-- The operations of the first block of the graph of a case. -/
def firstOps (graphs : Document) : Document :=
  let g := (graphs.items.find? fun g => (g.get "graph").toText == "f").getD null
  ((g.get "blocks").nth 0).get "ops"

def returnsOf (graphs : Document) : Document :=
  ((graphs.items.find? fun g => (g.get "graph").toText == "f").getD null).get "returns"

def matrixCase (d case : Document) : Document :=
  let (f, annots) := caseFunction (case.nth 0).toText (case.items.drop 1)
  let s := load d [f]
  let c := startCompilation d s
  let all := record [("stop", d.get "stop")]
  let entries (k : Known) : Ana (List Compilation.Entry) := do
    let args ← annots.mapM (annotOf k)
    pure [{ func := s.prog.host.functions.size - 1, args }]
  match (prepare d s entries).run c with
  | .error f _ => record [("failed", text "entries"), ("err", failed f)]
  | .ok entries c =>
    let fs := ((runStages (stagesOf all entries) c).run #[]).1.1
    let copy (k : String) (f : Document → Document) : Fields := (fs.lookup k).elim [] fun v => [(k, f v)]
    record (copy "failed" id ++ copy "err" id ++ copy "helpers" id ++ copy "annotated" firstOps
      ++ (fs.lookup "annotated").elim [] (fun v => [("returns", returnsOf v)]) ++ copy "lowered" firstOps)

def matrices (d : Document) : Document := succeeded (list ((d.get "cases").items.map (matrixCase d)))

def stringHashes (d : Document) : Document :=
  succeeded (text (toString (stringHash ((d.get "chars").items.map toInt)).toInt))

end FlowCompiler.Script
