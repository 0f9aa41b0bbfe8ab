import FlowCompiler.Command.Options
import FlowCompiler.Pipeline
import FlowCompiler.Trace.Session.Exit

/-!
# The command

The command compiles a sample, runs the counting loop, or writes a configuration file.  A run of it is a
function of its arguments, its environment and the files it finds; it leaves an exit code, two texts and
changed files.
-/

namespace FlowCompiler.Command

/-- The files that a run finds, and what it has written. -/
structure Console where
  files : List (String × String) := []
  out : String := ""
  err : String := ""
deriving Inhabited

/-- A part of a run; it stops early with an exit code. -/
abbrev CommandM := EStateM Nat Console

def printText (s : String) : CommandM Unit := modify fun c => { c with out := c.out ++ s }
def print (line : String) : CommandM Unit := printText (line ++ "\n")
def complainText (s : String) : CommandM Unit := modify fun c => { c with err := c.err ++ s }
def complain (line : String) : CommandM Unit := complainText (line ++ "\n")

/-- Stops with a message. -/
def fail {α : Type} (line : String) : CommandM α := do
  complain line
  throw 1

/-! ## Files -/

/-- The name of the configuration file. -/
def configName : String := "solatrans.toml"

/-- The name of a file in the current directory. -/
def plainName (path : String) : String :=
  let rec strip : List Char → List Char
    | '.' :: '/' :: rest => strip rest
    | cs => cs
  String.ofList (strip path.toList)

def readFile? (path : String) : CommandM (Option String) := return (← get).files.lookup (plainName path)

def writeFile (path text : String) : CommandM Unit := modify fun c =>
  { c with files := c.files.filter (·.1 ≠ plainName path) ++ [(plainName path, text)] }

/-! ## Settings -/

/-- The levels of a log. -/
def logLevels : List String := ["debug", "info", "", "warn", "error", "dpanic", "panic", "fatal"]

/-- What is wrong with the log, if anything. -/
def logProblem? (s : Settings) : Option String :=
  if logLevels.contains s.logLevel.toLower then none
  else
    let level := Quoted.quote s.logLevel
    some s!"invalid log level {level}: unrecognized level: {level}"

/-- The directory in front of the name of a file. -/
def directoryOf (path : String) : String :=
  String.ofList (((plainName path).toList.reverse.dropWhile (· ≠ '/')).drop 1).reverse

/-- Makes a file for the log; the answer is what is wrong with it. -/
def openOutput (path : String) : CommandM (Option String) := do
  let files := (← get).files
  if path = "stdout" || path = "stderr" || (files.lookup (plainName path)).isSome then pure none
  else if directoryOf path = "" || files.any (fun f => directoryOf f.1 == directoryOf path) then do
    writeFile path ""
    pure none
  else pure (some ("couldn't open sink " ++ Quoted.quote path ++ s!": open {path}: no such file or directory"))

/-- The log is opened: files that it is written to are made. -/
def openLog (m : Messages) (s : Settings) : CommandM Unit := do
  match logProblem? s with
  | some cause => fail (m.badLog cause)
  | none => do
    let problems := (← s.logOutputs.mapM openOutput).filterMap id
    unless problems.isEmpty do fail (m.badLog (joinWith "; " problems))

def loadSettings (m : Messages) (path : String) : CommandM Settings := do
  match ← readFile? path with
  | none => fail (m.badConfig s!"failed to read config file: open {path}: no such file or directory")
  | some text =>
    match Settings.parse text with
    | .error f => fail (m.badConfig f.message)
    | .ok s => pure s

/-- The settings of a run: from the file that the user names, from the file in the directory, or the
default ones. -/
def setup (m : Messages) (path : String) : CommandM Settings := do
  let s ← if path ≠ "" then loadSettings m path
    else if (← readFile? configName).isSome then loadSettings m configName
    else pure {}
  openLog m s
  pure s

/-! ## Reports -/

open Document

/-- The size of a compilation and its stages; stages take no measurable time. -/
def statsDocument (s : Stats) (stages : List String) : Document :=
  let phase (name : String) : Document := record [("name", text name), ("millis", int 0)]
  record
    [ ("gc_policy", text s.gc), ("entries", nat s.entries), ("graphs", nat s.graphs), ("blocks", nat s.blocks),
      ("operations", nat s.operations), ("annotator_steps", int s.steps), ("helpers", nat s.helpers), ("types", nat s.types),
      ("containers", nat s.containers), ("functions", nat s.functions),
      ("phases", if stages.isEmpty then null else list (stages.map phase)) ]

def printReport (stats : Document) (session : Option Document) : CommandM Unit :=
  print (record ([("translation", stats)] ++ (session.toList.map fun d => ("jit", d)))).indented

/-! ## Commands -/

/-- How a command is used. -/
structure Usage where
  lines : List String
  specs : List OptionSpec

def printUsage (m : Messages) (u : Usage) : CommandM Unit := do
  u.lines.forM print
  print m.options
  complainText (optionHelp u.specs)

/-- Reads the arguments of a command. -/
def arguments (m : Messages) (u : Usage) (args : List String) : CommandM Arguments := do
  match readArguments u.specs {} args with
  | .ok a => pure a
  | .error .help => do
    printUsage m u
    throw 0
  | .error (.bad message) => do
    complain message
    printUsage m u
    throw 2

def configOption (m : Messages) : OptionSpec := { name := "config", kind := .text, about := m.optConfig }
def reportOption (m : Messages) : OptionSpec := { name := "report", kind := .switch, about := m.optReport }

def compileUsage (m : Messages) : Usage where
  lines := [m.usage ++ " solatrans translate [options] <sample>", ""]
  specs := [configOption m, { name := "summary", kind := .switch, about := m.optSummary }, reportOption m]

/-- Compiles a sample. -/
def compileSample (settings : Settings) (name : String) (r : Sample.Recipe) : EStateM.Result Failure Compilation Unit :=
  (do
    let e ← Sample.entry name r
    Compilation.compile [e] : Compilation.M Unit).run (Compilation.start settings {})

def showSummary (m : Messages) (c : Compilation) : CommandM Unit := do
  match (c.database.getD {}).summary with
  | .ok s => printText s
  | .error f => fail (m.compileFailed f.message)

def runCompile (m : Messages) (args : List String) : CommandM Unit := do
  let a ← arguments m (compileUsage m) args
  match a.rest with
  | [] => do
    printUsage m (compileUsage m)
    complain ""
    fail m.noSample
  | name :: _ =>
    match Sample.all.lookup name with
    | none => fail (m.unknownSample name)
    | some r => do
      let settings ← setup m (a.text "config")
      match compileSample settings name r with
      | .error f c => do
        c.journal.errors.forM fun d => complainText (d.render {})
        fail (m.compileFailed f.message)
      | .ok () c => do
        print (m.compiled name c.journal.summary)
        if a.isOn "summary" then showSummary m c
        if a.isOn "report" then printReport (statsDocument c.stats ["annotate", "rtype", "database"]) none

def sessionUsage (m : Messages) : Usage where
  lines := [m.usage ++ " solatrans jit [options]", ""]
  specs := [configOption m, { name := "limit", kind := .number, about := m.optLimit, value := 10 },
    { name := "runs", kind := .number, about := m.optRuns, value := 2 }, reportOption m]

open Trace (Session SessionM)

/-- The key of the counting loop. -/
def countingKey : String := "count"

/-- Runs the counting loop from zero; the answer is the text of its exit. -/
def runCounting : SessionM String := do
  let tracer : Session.Tracer SessionM := fun _ _ => return some (← Session.onStore Session.finishingTrace)
  let exit ← Session.runEntry countingKey [some (.ofInt 0)] (some tracer)
  return (← Session.store).descrText exit.descr

/-- Runs a step of a session. -/
def inSession {α : Type} (m : Messages) (s : Session) (step : SessionM α) : CommandM (α × Session) := do
  match step.run s with
  | .ok a s => pure (a, s)
  | .error f _ => fail (m.runFailed f.message)

/-- Runs the counting loop some times, from a number on. -/
def runMany (m : Messages) : (times : Nat) → (number : Nat) → Session → CommandM Session
  | 0, _, s => pure s
  | n + 1, i, s => do
    let (exit, s) ← inSession m s runCounting
    print (m.ran i exit)
    runMany m n (i + 1) s

def runSession (m : Messages) (args : List String) : CommandM Unit := do
  let a ← arguments m (sessionUsage m) args
  let settings ← setup m (a.text "config")
  let s := Session.make settings.jit (.make settings.regs 0) {}
  let (_, s) ← inSession m s (Session.compileCounting countingKey (a.number "limit" 10))
  let s ← runMany m (a.number "runs" 2).toInt.toNat 1 s
  if a.isOn "report" then printReport (statsDocument { gc := settings.gc } []) (some s.summary.document)

def initUsage (m : Messages) : Usage where
  lines := [m.usage ++ " solatrans init [options]", "", m.init, ""]
  specs := [{ name := "gc", kind := .text, about := "gc policy (none/ref/framework)" }]

/-- Writes a configuration file with the default settings. -/
def runInit (m : Messages) (args : List String) : CommandM Unit := do
  let a ← arguments m (initUsage m) args
  if (← readFile? configName).isSome then fail (m.configExists configName)
  let gc := a.text "gc"
  let settings : Settings := if gc = "" then {} else { gc }
  match settings.validate with
  | .error f => fail (m.configNotMade f.message)
  | .ok () => do
    print (m.making configName)
    writeFile configName settings.save
    print m.made

/-! ## The whole command -/

def title : String := "solatrans v0.1.0"

def runHelp (m : Messages) : CommandM Unit := do
  [ title, "", m.usage, "  solatrans [--lang en|zh] <command> [options] [arguments]", "", m.commands,
    "  translate <sample>  " ++ m.compile, "  jit                 " ++ m.jit, "  init                " ++ m.init,
    "  version             " ++ m.version, "  help                " ++ m.help, "", m.samples,
    "  " ++ joinWith ", " Sample.names, "", m.examples, "  solatrans translate -summary count",
    "  solatrans jit -limit 100 -runs 3 -report", "  solatrans --lang zh help" ].forM print

def runVersion (m : Messages) : CommandM Unit := do
  print title
  print m.about

/-- Takes the option for the language out of the arguments, wherever it stands; the last one counts. -/
def takeLanguage (found : String) : List String → String × List String
  | [] => (found, [])
  | [a] =>
    match languageValue? a with
    | some v => (v, [])
    | none => (found, [a])
  | a :: b :: rest =>
    if a = "--lang" || a = "-lang" then takeLanguage b rest
    else match languageValue? a with
      | some v => takeLanguage v (b :: rest)
      | none =>
        let (v, args) := takeLanguage found (b :: rest)
        (v, a :: args)
where
  languageValue? (a : String) : Option String :=
    ["--lang=", "-lang="].findSome? fun p =>
      if p.isPrefixOf a then some (String.ofList (a.toList.drop p.length)) else none

/-- Runs the command with its arguments. -/
def dispatch (m : Messages) : List String → CommandM Unit
  | [] => runHelp m
  | command :: args =>
    match command with
    | "translate" => runCompile m args
    | "jit" => runSession m args
    | "init" => runInit m args
    | "version" | "-v" | "--version" => runVersion m
    | "help" | "-h" | "--help" => runHelp m
    | _ => do
      complain (m.unknownCommand command)
      complain ""
      runHelp m
      throw 1

/-- A run of the command: its exit code and what it leaves. -/
def run (env : Environment) (files : List (String × String)) (args : List String) : Nat × Console :=
  let (language, args) := takeLanguage "" args
  match (dispatch (.of (env.languageFor language)) args).run { files } with
  | .ok () c => (0, c)
  | .error code c => (code, c)

end FlowCompiler.Command
