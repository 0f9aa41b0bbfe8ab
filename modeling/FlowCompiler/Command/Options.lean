import FlowCompiler.Text.Quoted
import FlowCompiler.Machine.Word

/-!
# Options of commands

Options stand before the other arguments and start with one or two dashes.  The value of an option follows
an equals sign or is the next argument; an option that is only turned on needs none.  Two dashes alone end
the options.
-/

/-! ## Messages of the command

The texts that the command shows, in each of its languages. -/

namespace FlowCompiler.Command

inductive Language where
  | english
  | chinese
deriving DecidableEq, Repr, Inhabited

namespace Language

def isBlank (c : Char) : Bool :=
  [9, 10, 11, 12, 13, 32, 0x85, 0xA0, 0x1680, 0x2028, 0x2029, 0x202F, 0x205F, 0x3000].contains c.toNat
    || (0x2000 ≤ c.toNat && c.toNat ≤ 0x200A)

def trim (s : String) : String :=
  String.ofList (((s.toList.dropWhile isBlank).reverse.dropWhile isBlank).reverse)

/-- The language with a name; whatever is not Chinese is English. -/
def ofName (name : String) : Language :=
  if ["zh", "zh-cn", "zh-tw", "zh-hk", "chinese"].contains (trim name).toLower then chinese else english

/-- Whether a text holds another one. -/
def mentions (part : List Char) : List Char → Bool
  | [] => part.isEmpty
  | c :: rest => part.isPrefixOf (c :: rest) || mentions part rest

/-- The language of a locale. -/
def ofLocale (locale : String) : Language :=
  let cs := locale.toLower.toList
  if mentions "zh".toList cs || mentions "chinese".toList cs then chinese else english

end Language

/-- What the command runs in. -/
structure Environment where
  /-- The locale of the system. -/
  locale : String := ""
  /-- The language that the user has set. -/
  language : String := ""
deriving Inhabited

/-- The language of a run: that of the command line, of the environment, or of the system. -/
def Environment.languageFor (e : Environment) (option : String) : Language :=
  if option ≠ "" then .ofName option
  else if e.language ≠ "" then .ofName e.language
  else .ofLocale e.locale

/-- The texts of a language. -/
structure Messages where
  about : String
  usage : String
  commands : String
  options : String
  examples : String
  samples : String
  compile : String
  jit : String
  init : String
  version : String
  help : String
  optConfig : String
  optSummary : String
  optReport : String
  optLimit : String
  optRuns : String
  noSample : String
  unknownSample : String → String
  unknownCommand : String → String
  badConfig : String → String
  badLog : String → String
  compileFailed : String → String
  runFailed : String → String
  configExists : String → String
  configNotMade : String → String
  compiled : String → String → String
  ran : Int → String → String
  making : String → String
  made : String

def english : Messages where
  about := "Whole-program translator: annotation, rtyping, C database and a tracing JIT back end"
  usage := "Usage:"
  commands := "Commands:"
  options := "Options:"
  examples := "Examples:"
  samples := "Samples:"
  compile := "Translate a built-in sample program"
  jit := "Compile and run the counting loop on the in-memory JIT back end"
  init := "Write a default solatrans.toml in the current directory"
  version := "Show version information"
  help := "Show this help message"
  optConfig := "Configuration file"
  optSummary := "Print the database summary as YAML"
  optReport := "Print the statistics report as JSON"
  optLimit := "Loop bound of the counting loop"
  optRuns := "Number of runs"
  noSample := "Error: no sample specified"
  unknownSample := fun name => s!"Unknown sample: {name}"
  unknownCommand := fun name => s!"Unknown command: {name}"
  badConfig := fun cause => s!"Error loading configuration: {cause}"
  badLog := fun cause => s!"Error creating logger: {cause}"
  compileFailed := fun cause => s!"Translation failed: {cause}"
  runFailed := fun cause => s!"JIT run failed: {cause}"
  configExists := fun name => s!"Error: {name} already exists"
  configNotMade := fun cause => s!"Error creating configuration: {cause}"
  compiled := fun name summary => s!"✓ Translated {name} ({summary})"
  ran := fun i exit => s!"run {i}: {exit}"
  making := fun name => s!"Creating {name}"
  made := "✓ Configuration written"

def chinese : Messages where
  about := "整程序翻译器：注解、类型化、C 数据库与追踪 JIT 后端"
  usage := "用法:"
  commands := "命令:"
  options := "选项:"
  examples := "示例:"
  samples := "示例:"
  compile := "翻译内置示例程序"
  jit := "在内存 JIT 后端上编译并运行计数循环"
  init := "在当前目录生成默认的 solatrans.toml"
  version := "显示版本信息"
  help := "显示帮助信息"
  optConfig := "配置文件"
  optSummary := "以 YAML 输出数据库摘要"
  optReport := "以 JSON 输出统计报告"
  optLimit := "计数循环的上界"
  optRuns := "运行次数"
  noSample := "错误: 未指定示例"
  unknownSample := fun name => s!"未知示例: {name}"
  unknownCommand := fun name => s!"未知命令: {name}"
  badConfig := fun cause => s!"加载配置错误: {cause}"
  badLog := fun cause => s!"创建日志错误: {cause}"
  compileFailed := fun cause => s!"翻译失败: {cause}"
  runFailed := fun cause => s!"JIT 运行失败: {cause}"
  configExists := fun name => s!"错误: {name} 已存在"
  configNotMade := fun cause => s!"创建配置错误: {cause}"
  compiled := fun name summary => s!"✓ 已翻译 {name} ({summary})"
  ran := fun i exit => s!"第 {i} 次运行: {exit}"
  making := fun name => s!"正在创建 {name}"
  made := "✓ 配置已写入"

def Messages.of : Language → Messages
  | .english => english
  | .chinese => chinese

inductive OptionKind where
  /-- Turned on by its name. -/
  | switch
  | text
  | number
deriving DecidableEq, Repr

structure OptionSpec where
  name : String
  kind : OptionKind
  about : String
  /-- The value without the option; zero is not mentioned in the help. -/
  value : Int64 := 0

/-- The value that was given for an option. -/
inductive OptionValue where
  | switch (on : Bool)
  | text (s : String)
  | number (n : Int64)
deriving DecidableEq, Repr

structure Arguments where
  options : List (String × OptionValue) := []
  rest : List String := []
deriving Inhabited

/-- Why arguments are refused: help was asked for, or they make no sense. -/
inductive ArgumentError where
  | help
  | bad (message : String)
deriving DecidableEq, Repr

namespace Arguments

def text (a : Arguments) (name : String) : String :=
  match a.options.lookup name with
  | some (.text s) => s
  | _ => ""

def isOn (a : Arguments) (name : String) : Bool :=
  match a.options.lookup name with
  | some (.switch b) => b
  | _ => false

def number (a : Arguments) (name : String) (default : Int64) : Int64 :=
  match a.options.lookup name with
  | some (.number n) => n
  | _ => default

end Arguments

/-! ## Values -/

def toSwitch? (s : String) : Option Bool :=
  if ["1", "t", "T", "TRUE", "true", "True"].contains s then some true
  else if ["0", "f", "F", "FALSE", "false", "False"].contains s then some false
  else none

/-- The base that digits are in, and the digits; an underscore may follow what announces a base. -/
def splitBase : List Char → Nat × List Char × Bool
  | '0' :: c :: rest =>
    if c = 'x' || c = 'X' then (16, rest, true)
    else if c = 'b' || c = 'B' then (2, rest, true)
    else if c = 'o' || c = 'O' then (8, rest, true)
    else (8, c :: rest, true)
  | cs => (10, cs, false)

def digit? (base : Nat) (c : Char) : Option Nat :=
  let n := if c.isDigit then some (c.toNat - 48)
    else if 'a' ≤ c && c ≤ 'f' then some (c.toNat - 87)
    else if 'A' ≤ c && c ≤ 'F' then some (c.toNat - 55)
    else none
  n.filter (· < base)

/-- The value of digits behind those already read; a single underscore may stand between two of them. -/
def digits? (base : Nat) : (mayBreak : Bool) → (read : Option Nat) → List Char → Option Nat
  | _, read, [] => read
  | mayBreak, read, '_' :: c :: rest =>
    if mayBreak then (digit? base c).bind fun d => digits? base true (some (read.getD 0 * base + d)) rest else none
  | _, read, c :: rest => (digit? base c).bind fun d => digits? base true (some (read.getD 0 * base + d)) rest

/-- A whole number, in the base that its first digits announce. -/
def toWhole? (s : String) : Option Int :=
  let signed (sign : Int) (cs : List Char) : Option Int :=
    let (base, digits, announced) := splitBase cs
    (digits? base announced none digits).map fun n => sign * (n : Int)
  match s.toList with
  | '-' :: cs => signed (-1) cs
  | '+' :: cs => signed 1 cs
  | cs => signed 1 cs

/-- A number that fits into a word, or what is wrong with it. -/
def toNumber (s : String) : Except String Int64 :=
  match toWhole? s with
  | none => .error "parse error"
  | some n => if Int64.minValue.toInt ≤ n && n ≤ Int64.maxValue.toInt then .ok (Int64.ofInt n) else .error "value out of range"

/-! ## Reading -/

/-- The name of an option, and its value after an equals sign. -/
def splitValue : List Char → List Char × Option (List Char)
  | [] => ([], none)
  | '=' :: rest => ([], some rest)
  | c :: rest =>
    let (name, value) := splitValue rest
    (c :: name, value)

/-- What an argument is. -/
inductive ArgumentForm where
  | plain
  /-- Ends the options. -/
  | stop
  | malformed
  | option (name : String) (value : Option String)

def formOf (s : String) : ArgumentForm :=
  let named (cs : List Char) : ArgumentForm :=
    match cs with
    | [] | '-' :: _ | '=' :: _ => .malformed
    | c :: rest =>
      let (name, value) := splitValue rest
      .option (String.ofList (c :: name)) (value.map String.ofList)
  match s.toList with
  | ['-'] => .plain
  | ['-', '-'] => .stop
  | '-' :: '-' :: cs => named cs
  | '-' :: cs => named cs
  | _ => .plain

/-- Reads the value of an option that needs one. -/
def valueFor (o : OptionSpec) (s : String) : Except ArgumentError OptionValue :=
  match o.kind with
  | .number =>
    match toNumber s with
    | .ok n => .ok (.number n)
    | .error cause => .error (.bad ("invalid value " ++ Quoted.quote s ++ s!" for flag -{o.name}: {cause}"))
  | _ => .ok (.text s)

def switchFor (o : OptionSpec) (s : String) : Except ArgumentError OptionValue :=
  match toSwitch? s with
  | some b => .ok (.switch b)
  | none => .error (.bad ("invalid boolean value " ++ Quoted.quote s ++ s!" for -{o.name}: parse error"))

def unknownOption (name : String) : ArgumentError :=
  if name = "help" || name = "h" then .help else .bad s!"flag provided but not defined: -{name}"

/-- Enters an option; of two values the later one counts. -/
def Arguments.set (a : Arguments) (name : String) (v : OptionValue) : Arguments :=
  { a with options := (name, v) :: a.options.filter (·.1 ≠ name) }

/-- Reads arguments. -/
def readArguments (specs : List OptionSpec) : Arguments → List String → Except ArgumentError Arguments
  | a, [] => .ok a
  | a, s :: rest =>
    match formOf s with
    | .plain => .ok { a with rest := s :: rest }
    | .stop => .ok { a with rest }
    | .malformed => .error (.bad s!"bad flag syntax: {s}")
    | .option name value =>
      match specs.find? (·.name == name) with
      | none => .error (unknownOption name)
      | some o =>
        if o.kind = .switch then
          match switchFor o (value.getD "true") with
          | .ok v => readArguments specs (a.set name v) rest
          | .error e => .error e
        else
          match value, rest with
          | some s, rest =>
            match valueFor o s with
            | .ok v => readArguments specs (a.set name v) rest
            | .error e => .error e
          | none, s :: rest =>
            match valueFor o s with
            | .ok v => readArguments specs (a.set name v) rest
            | .error e => .error e
          | none, [] => .error (.bad s!"flag needs an argument: -{name}")

/-! ## Help -/

def OptionSpec.help (o : OptionSpec) : String :=
  let kind := match o.kind with
    | .switch => ""
    | .text => " string"
    | .number => " int"
  let value := if o.value = 0 then "" else s!" (default {o.value.toInt})"
  s!"  -{o.name}{kind}\n    \t{o.about}{value}\n"

/-- What the options mean, in the order of their names. -/
def optionHelp (specs : List OptionSpec) : String :=
  String.join ((specs.mergeSort fun a b => a.name ≤ b.name).map OptionSpec.help)

end FlowCompiler.Command
