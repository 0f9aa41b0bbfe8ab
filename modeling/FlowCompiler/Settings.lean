import FlowCompiler.Toml

/-!
# Settings

The settings of the whole compiler, read from a configuration file over the defaults.
-/

namespace FlowCompiler

/-- Settings of the trace compiler. -/
structure TraceSettings where
  threshold : Int := 1039
  eagerness : Int := 200
  decay : Int := 40
  counterSize : Int := 16384
  maxConstLen : Int := 100
  unrollConst : Int := 5
  unrollVar : Int := 2
  loopLongevity : Int := 1000
  enable : List String := ["intbounds", "rewrite", "virtualize", "string", "pure", "heap"]
deriving Inhabited, DecidableEq

/-- The registers of the target machine. -/
structure RegisterSettings where
  registers : Int := 8
  callerSaved : List Int := [0, 1, 2, 3]
  resultReg : Int := 0
deriving Inhabited, DecidableEq

structure Settings where
  gc : String := "framework"
  noTypePtr : Bool := false
  checkStrWithoutNul : Bool := false
  listComprehension : Bool := false
  maxReflows : Int := 0
  defaultSpecializer : String := "default"
  jit : TraceSettings := {}
  regs : RegisterSettings := {}
  logLevel : String := "info"
  logEncoding : String := "console"
  logOutputs : List String := ["stderr"]
deriving Inhabited, DecidableEq

namespace TraceSettings

def optEnabled (s : TraceSettings) (name : String) : Bool := s.enable.contains name

end TraceSettings

namespace Settings

/-- A number that is a power of two. -/
def isPowerOfTwo (n : Int) : Bool := n > 0 && Nat.pow 2 n.toNat.log2 == n.toNat

/-- What is wrong with the settings, if anything. -/
def problem? (s : Settings) : Option String :=
  if !(["none", "ref", "framework"].contains s.gc) then
    some ("unknown gc policy " ++ Quoted.quote s.gc)
  else if !isPowerOfTwo s.jit.counterSize then
    some s!"jit.counter_size must be a power of two, got {s.jit.counterSize}"
  else if s.jit.decay < 0 || s.jit.decay > 100 then
    some s!"jit.decay must be in [0, 100], got {s.jit.decay}"
  else if s.jit.maxConstLen < 0 || s.jit.unrollConst < 0 || s.jit.unrollVar < 0 then
    some "jit string limits must be non-negative"
  else if s.regs.registers ≤ 0 then some "regalloc.registers must be positive"
  else (s.regs.callerSaved.find? fun r => r < 0 || r ≥ s.regs.registers).map
    fun r => s!"caller-saved register {r} out of range"

def validate (s : Settings) : Except Failure Unit :=
  match s.problem? with
  | some text => .error (.plain text)
  | none => .ok ()

/-! ## Reading -/

def unreadable : Failure := .plain "failed to parse config file"

/-- Stores a value into the setting it is for; a value of another kind refuses. -/
abbrev Store := Settings → Toml → Option Settings

def textSetting (set : Settings → String → Settings) : Store
  | s, .text v => some (set s v)
  | _, _ => none

def intSetting (set : Settings → Int → Settings) : Store
  | s, .int v => some (set s v)
  | _, _ => none

def boolSetting (set : Settings → Bool → Settings) : Store
  | s, .bool v => some (set s v)
  | _, _ => none

def textsSetting (set : Settings → List String → Settings) : Store
  | s, .array vs => (vs.mapM fun | Toml.text t => some t | _ => none).map (set s)
  | _, _ => none

def intsSetting (set : Settings → List Int → Settings) : Store
  | s, .array vs => (vs.mapM fun | Toml.int t => some t | _ => none).map (set s)
  | _, _ => none

def jitInt (set : TraceSettings → Int → TraceSettings) : Store :=
  intSetting fun s v => { s with jit := set s.jit v }

/-- The tables of a configuration file with their settings. -/
def stores : List (String × List (String × Store)) :=
  [ ("translation",
      [ ("gc", textSetting fun s v => { s with gc := v }),
        ("no_typeptr", boolSetting fun s v => { s with noTypePtr := v }),
        ("check_str_without_nul", boolSetting fun s v => { s with checkStrWithoutNul := v }),
        ("list_comprehension", boolSetting fun s v => { s with listComprehension := v }) ]),
    ("annotator",
      [ ("max_reflows", intSetting fun s v => { s with maxReflows := v }),
        ("default_specializer", textSetting fun s v => { s with defaultSpecializer := v }) ]),
    ("jit",
      [ ("threshold", jitInt fun j v => { j with threshold := v }),
        ("trace_eagerness", jitInt fun j v => { j with eagerness := v }),
        ("decay", jitInt fun j v => { j with decay := v }),
        ("counter_size", jitInt fun j v => { j with counterSize := v }),
        ("max_const_len", jitInt fun j v => { j with maxConstLen := v }),
        ("unroll_const", jitInt fun j v => { j with unrollConst := v }),
        ("unroll_var", jitInt fun j v => { j with unrollVar := v }),
        ("loop_longevity", jitInt fun j v => { j with loopLongevity := v }),
        ("enable", textsSetting fun s v => { s with jit := { s.jit with enable := v } }) ]),
    ("regalloc",
      [ ("registers", intSetting fun s v => { s with regs := { s.regs with registers := v } }),
        ("caller_saved", intsSetting fun s v => { s with regs := { s.regs with callerSaved := v } }),
        ("result_reg", intSetting fun s v => { s with regs := { s.regs with resultReg := v } }) ]),
    ("log",
      [ ("level", textSetting fun s v => { s with logLevel := v }),
        ("encoding", textSetting fun s v => { s with logEncoding := v }),
        ("outputs", textsSetting fun s v => { s with logOutputs := v }) ]) ]

/-- Keys match exactly or by their small letters. -/
def lookupKey {α : Type} (table : List (String × α)) (key : String) : Option α :=
  table.lookup key <|> table.lookup key.toLower

def applyTable (table : List (String × Store)) (s : Settings) (entries : List (String × Toml)) :
    Option Settings :=
  entries.foldlM (fun s (k, v) => match lookupKey table k with
    | some store => store s v
    | none => some s) s

def apply (s : Settings) (entries : List (String × Toml)) : Option Settings :=
  entries.foldlM (fun s (k, v) => match lookupKey stores k, v with
    | some table, .table _ es => applyTable table s es
    | some _, _ => none
    | none, _ => some s) s

/-- Reads a configuration file over the defaults. -/
def parse (text : String) : Except Failure Settings :=
  match (Toml.parse text).bind (apply {}) with
  | none => .error unreadable
  | some s => do s.validate; .ok s

/-! ## Writing -/

/-- The lines of a configuration file, table by table. -/
def written (s : Settings) : List (String × List (String × String)) :=
  let b (v : Bool) : String := if v then "true" else "false"
  let t := Toml.writeText
  [ ("translation", [("gc", t s.gc), ("no_typeptr", b s.noTypePtr),
      ("check_str_without_nul", b s.checkStrWithoutNul), ("list_comprehension", b s.listComprehension)]),
    ("annotator", [("max_reflows", toString s.maxReflows), ("default_specializer", t s.defaultSpecializer)]),
    ("jit", [("threshold", toString s.jit.threshold), ("trace_eagerness", toString s.jit.eagerness),
      ("decay", toString s.jit.decay), ("counter_size", toString s.jit.counterSize),
      ("max_const_len", toString s.jit.maxConstLen), ("unroll_const", toString s.jit.unrollConst),
      ("unroll_var", toString s.jit.unrollVar), ("loop_longevity", toString s.jit.loopLongevity),
      ("enable", Toml.writeList (s.jit.enable.map t))]),
    ("regalloc", [("registers", toString s.regs.registers),
      ("caller_saved", Toml.writeList (s.regs.callerSaved.map toString)),
      ("result_reg", toString s.regs.resultReg)]),
    ("log", [("level", t s.logLevel), ("encoding", t s.logEncoding),
      ("outputs", Toml.writeList (s.logOutputs.map t))]) ]

/-- The settings as a configuration file. -/
def save (s : Settings) : String :=
  String.intercalate "\n" (s.written.map fun (name, es) =>
    s!"[{name}]\n" ++ String.join (es.map fun (k, v) => s!"  {k} = {v}\n"))

end Settings
end FlowCompiler
