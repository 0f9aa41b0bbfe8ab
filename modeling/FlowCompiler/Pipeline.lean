import FlowCompiler.Diagnostic
import FlowCompiler.LowLevel.Database
import FlowCompiler.Lowering.Block
import FlowCompiler.Settings

/-!
# The pipeline of a compilation

A compilation enters functions, analyses them to a fixed point, lowers their graphs and collects the
database of everything that the lowered entries reach.  The stages run one after another; each of them
reports its failure to the journal and passes it on under its own name, and what the earlier stages
made stays available.
-/

namespace FlowCompiler

/-- The size of a compilation, counted stage by stage. -/
structure Stats where
  gc : String := ""
  entries : Nat := 0
  graphs : Nat := 0
  blocks : Nat := 0
  operations : Nat := 0
  steps : Int := 0
  helpers : Nat := 0
  types : Nat := 0
  containers : Nat := 0
  functions : Nat := 0
deriving Inhabited

structure Compilation where
  settings : Settings := {}
  world : World := {}
  journal : Journal := {}
  entries : List GraphId := []
  /-- The typing stage once it has finished. -/
  typer : Option Typer := none
  database : Option Database := none
  stats : Stats := {}
deriving Inhabited

namespace Compilation

/-- A step of a compilation; a failing step keeps what it made. -/
abbrev M := EStateM Failure Compilation

/-- A compilation of a program that nothing was entered of yet. -/
def start (settings : Settings) (world : World) : Compilation :=
  { settings
    world := { world with
      policy := { world.policy with
        defaultTag := if settings.defaultSpecializer = "" then "default" else settings.defaultSpecializer }
      progress := { world.progress with attached := true, maxReflows := settings.maxReflows } }
    stats := { gc := settings.gc } }

def report (f : Failure) : M Unit := modify fun c => { c with journal := c.journal.reportFailure f }

/-- Runs a step of the analysis. -/
def analyse {α : Type} (m : Ana α) : M α := fun c =>
  let w := c.world
  let c := { c with world := {} }
  match (Ana.run m).run w with
  | .ok a w => .ok a { c with world := w }
  | .error f w => .error f { c with world := w }

/-- A stage reports its failure and passes it on under its name. -/
def stage {α : Type} (name : String) (m : M α) : M α :=
  tryCatch m fun f => do
    report f
    throw (.wrapped name f)

/-! ## Entries -/

/-- A function to enter, with the annotations of its parameters. -/
structure Entry where
  func : FuncId
  args : List Annot

/-- Enters one function; the failure, if any, is reported and returned. -/
def addEntry (e : Entry) : M (Option Failure) := do
  let name := ((← get).world.prog.host.func e.func).name
  tryCatch (do
    let g ← analyse (Ana.addEntry e.func e.args)
    modify fun c => { c with entries := c.entries ++ [g] }
    pure none) fun f => do
      report f
      pure (some (.wrapped s!"entry {name}" f))

/-- Enters every function, also after one that fails, and fails with all failures together. -/
def addEntries (es : List Entry) : M Unit := do
  let failures ← es.mapM addEntry
  modify fun c => { c with stats := { c.stats with entries := c.entries.length } }
  match failures.filterMap id with
  | [] => pure ()
  | f :: fs => throw (fs.foldl .both f)

/-! ## Stages -/

/-- Counts the graphs that the analysis has met. -/
def countGraphs (w : World) (s : Stats) : Stats :=
  let blocks := w.progress.graphs.toList.flatMap w.prog.flow.blocksOf
  { s with
    graphs := w.progress.graphs.size
    blocks := blocks.length
    operations := blocks.foldl (fun n b => n + (w.prog.flow.block b).ops.length) 0
    steps := w.progress.steps }

/-- Analyses the entries to the fixed point. -/
def annotate : M Unit := stage "annotate" do
  if (← get).entries.isEmpty then throw (.annotator Code.unsupported "no entry point to annotate")
  analyse Ana.complete
  modify fun c => { c with stats := countGraphs c.world c.stats }

/-- Lowers the graphs of the analysis. -/
def lower : M Unit := stage "rtype" do
  let settings := (← get).settings
  let gc := if settings.gc = "" then "framework" else settings.gc
  match GcPolicy.ofName gc settings.noTypePtr with
  | .error f => throw f
  | .ok policy =>
    let (_, typer) ← analyse (Typing.lowerProgram.run { policy, noTypePtr := settings.noTypePtr })
    modify fun c => { c with typer := some typer, stats := { c.stats with helpers := typer.helpers.size } }

/-- The pointer to an entry, or the failure to make one. -/
def entryPointer (typer : Typer) (g : GraphId) : M (PtrValue × Typer) := analyse ((Typing.callable g).run typer)

/-- Collects what the entries and the functions of the runtime system reach. -/
def collect : M Unit := stage "database" do
  match (← get).typer with
  | none => throw (.typing Code.noRepresentation "database requested before rtyping")
  | some typer =>
    let entries := (← get).entries
    let mut typer := typer
    let mut db : Database := { policy := typer.policy, rtti := typer.rtti }
    for g in entries do
      let (p, t) ← entryPointer typer g
      typer := t
      db := db.addFunction p
    for (_, p) in typer.helpers do
      db := db.addFunction p
    match (Database.completeAll.run (← get).world.prog).run db with
    | .error f _ => throw f
    | .ok _ whole =>
      modify fun c => { c with
        typer := some typer
        database := some whole
        stats := { c.stats with
          types := whole.defs.length, containers := whole.containers.length, functions := whole.funcs.length } }

/-- The whole pipeline. -/
def compile (es : List Entry) : M Unit := do
  addEntries es
  annotate
  lower
  collect

end Compilation
end FlowCompiler

/-! ## Sample programs

Small functions for trying the compiler without writing a program. -/

namespace FlowCompiler.Sample

def intLiteral (n : Int) : ArgTemplate := .literal (.datum (.int (Int64.ofInt n)))

/-- Counts up from zero to `n`. -/
def countGraph : GraphTemplate where
  blocks :=
    [ { name := "start", inputs := ["n"], ops := [], exit := .jump ⟨"head", [intLiteral 0, .name "n"]⟩ },
      { name := "head", inputs := ["i", "limit"],
        ops := [{ result := some "less", name := "lt", args := [.name "i", .name "limit"] }],
        exit := .branch (.name "less") ⟨"exit", [.name "i"]⟩ ⟨"body", [.name "i", .name "limit"]⟩ },
      { name := "body", inputs := ["j", "bound"],
        ops := [{ result := some "next", name := "add", args := [.name "j", intLiteral 1] }],
        exit := .jump ⟨"head", [.name "next", .name "bound"]⟩ },
      { name := "exit", inputs := ["k"], ops := [], exit := .ret (.name "k") } ]
  labels := [("i", "a"), ("limit", "a"), ("j", "a"), ("bound", "a"), ("k", "a"), ("less", "v"), ("next", "v")]

/-- Doubles its argument. -/
def doubleGraph : GraphTemplate where
  blocks :=
    [ { name := "start", inputs := ["x"],
        ops := [{ result := some "v", name := "mul", args := [.name "x", intLiteral 2] }],
        exit := .ret (.name "v") } ]

/-- A sample is a function of one parameter and the annotation of that parameter. -/
structure Recipe where
  param : String
  graph : GraphTemplate
  arg : Annot

/-- The samples, sorted by name. -/
def all : List (String × Recipe) :=
  [ ("count", { param := "n", graph := countGraph, arg := .int (.signed true) }),
    ("double", { param := "x", graph := doubleGraph, arg := .int (.signed false) }) ]

def names : List String := all.map Prod.fst

/-- Adds the function of a sample to a program. -/
def entry (name : String) (r : Recipe) : Compilation.M Compilation.Entry := modifyGet fun c =>
  let f : HostFunction := { name, signature := { args := [r.param] }, body := .template r.graph }
  let (id, host) := c.world.prog.host.addFunction f
  ({ func := id, args := [r.arg] }, { c with world := { c.world with prog := { c.world.prog with host } } })

end FlowCompiler.Sample
