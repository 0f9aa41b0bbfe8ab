import FlowCompiler.Flow.Graph
import FlowCompiler.LowLevel.Value

/-!
# The analysed program

Functions, classes, prebuilt instances and constant containers of the program under analysis.  The
body of a function is given as a template from which a fresh flow graph is made whenever the function
is specialized.
-/

namespace FlowCompiler

/-- Declared types of parameters and results. -/
inductive SpecKind where
  | any
  | int
  | float
  | bool
  | str
  | unicode
  | char
  | none
  | other
deriving DecidableEq, Repr

inductive TypeSpec where
  | basic (kind : SpecKind) (noNul nullable : Bool)
  | inst (cls : Option ClassId) (nullable : Bool)
  | list (item : TypeSpec)
  | dict (key item : TypeSpec)
deriving Inhabited

/-- A constant of the program text; containers are made anew whenever the text is run.  A sequence of
literals is a literal too. -/
inductive Literal where
  | datum (d : Datum)
  | bound (f : FuncId) (i : InstId)
  | builtin (name : String)
  | weakref (i : Option InstId)
  | foreign
  | tuple (items : Literal)
  | list (items : Literal)
  | dict (keys values : Literal)
  | empty
  | cons (head tail : Literal)
deriving Inhabited

/-- An argument in a template: a name, or a constant. -/
inductive ArgTemplate where
  | name (n : String)
  | literal (l : Literal)
deriving Inhabited

structure OpTemplate where
  result : Option String
  name : String
  args : List ArgTemplate

structure JumpTemplate where
  target : String
  args : List ArgTemplate
deriving Inhabited

inductive ExitTemplate where
  | none
  | ret (v : ArgTemplate)
  | jump (j : JumpTemplate)
  | branch (cond : ArgTemplate) (onFalse onTrue : JumpTemplate)
  | raise (args : List ArgTemplate)
  | switch (v : ArgTemplate) (cases : List (Literal × JumpTemplate))
  | catching (normal : JumpTemplate) (handlers : List (Literal × JumpTemplate))
  | links (ls : List JumpTemplate)

structure BlockTemplate where
  name : String
  inputs : List String
  ops : List OpTemplate
  exit : ExitTemplate

structure GraphTemplate where
  blocks : List BlockTemplate
  /-- A repeated name means the same variable. -/
  shares : Bool := false
  /-- Links out of the return block, which a well-formed graph has none of. -/
  returnLinks : List JumpTemplate := []
  /-- What variables are called in the graph, where that is not their name in the template. -/
  labels : List (String × String) := []

/-- How a function is turned into a graph. -/
inductive Body where
  | absent
  | template (t : GraphTemplate)
  | failing
  /-- One graph made beforehand, which serves one specialization. -/
  | once (g : GraphId) (used : Bool)

/-- A table that answers calls at compile time, by the joined texts of the arguments. -/
structure MemoTable where
  rows : List (String × Datum)
  fallback : Option Datum

structure HostFunction where
  name : String
  signature : Signature := {}
  defaults : List Datum := []
  /-- The specialization directive. -/
  special : String := ""
  enforce : List TypeSpec := []
  declared : Option (List TypeSpec × TypeSpec) := none
  body : Body := .absent
  memo : Option MemoTable := none
  static : Bool := false
  classMethod : Bool := false
  notAnalysable : Bool := false

instance : Inhabited HostFunction := ⟨{ name := "" }⟩

/-- The directive without its leading word. -/
def HostFunction.specTag (f : HostFunction) : String :=
  if f.special.startsWith "specialize:" then (f.special.drop 11).toString else f.special

structure HostClass where
  name : String
  bases : List ClassId := []
  /-- Class attributes in the order of declaration. -/
  dict : List (String × Datum) := []
  isMixin : Bool := false
  attrs : List String := []
  hasAttrs : Bool := false
  immutableFields : List String := []
  immutable : Bool := false
  special : String := ""
  settled : Bool := false
  frozen : Bool := false
  builtin : Bool := false
deriving Inhabited

structure HostInstance where
  cls : Option ClassId
  attrs : List (String × Datum) := []
  name : String := ""
deriving Inhabited

/-- The contents of constants with an identity. -/
inductive HostObject where
  | bound (f : FuncId) (i : InstId)
  | builtin (name : String)
  | weakref (i : Option InstId)
  | tuple (items : List Datum)
  | list (items : List Datum)
  | dict (keys values : List Datum)
  /-- The constants of the items of an annotated tuple. -/
  | consts (items : List Datum)
deriving Inhabited

structure HostStore where
  functions : Array HostFunction := #[]
  classes : Array HostClass := #[]
  instances : Array HostInstance := #[]
  objects : Array HostObject := #[]
deriving Inhabited

namespace HostStore

def func (s : HostStore) (f : FuncId) : HostFunction := (s.functions[f]?).getD default
def cls (s : HostStore) (c : ClassId) : HostClass := (s.classes[c]?).getD default
def inst (s : HostStore) (i : InstId) : HostInstance := (s.instances[i]?).getD default
def object (s : HostStore) (o : ObjId) : HostObject := (s.objects[o]?).getD default

def addObject (s : HostStore) (o : HostObject) : ObjId × HostStore :=
  (s.objects.size, { s with objects := s.objects.push o })

def addFunction (s : HostStore) (f : HostFunction) : FuncId × HostStore :=
  (s.functions.size, { s with functions := s.functions.push f })

def addClass (s : HostStore) (c : HostClass) : ClassId × HostStore :=
  (s.classes.size, { s with classes := s.classes.push c })

def addInstance (s : HostStore) (i : HostInstance) : InstId × HostStore :=
  (s.instances.size, { s with instances := s.instances.push i })

def className (s : HostStore) (c : ClassId) : String := (s.cls c).name

/-! ## Classes -/

/-- Depth first through the bases, each class once. -/
def mroAux (s : HostStore) : (fuel : Nat) → (todo seen : List ClassId) → List ClassId
  | 0, _, seen => seen.reverse
  | _, [], seen => seen.reverse
  | n + 1, c :: todo, seen =>
    if seen.contains c then s.mroAux n todo seen else s.mroAux n ((s.cls c).bases ++ todo) (c :: seen)

def mroFuel (s : HostStore) : Nat := s.classes.size + s.classes.foldl (fun n c => n + c.bases.length) 0 + 2

/-- The order in which classes are searched for an attribute. -/
def mro (s : HostStore) (c : ClassId) : List ClassId := s.mroAux s.mroFuel [c] []

def classGet? (s : HostStore) (c : ClassId) (name : String) : Option Datum := (s.cls c).dict.lookup name

/-- The first class of the order that has an attribute, with its value. -/
def classLookup? (s : HostStore) (c : ClassId) (name : String) : Option (Datum × ClassId) :=
  (s.mro c).findSome? fun k => (s.classGet? k name).map (·, k)

def isSubclass (s : HostStore) (c other : ClassId) : Bool := (s.mro c).contains other

/-- Sets a class attribute; a known name keeps its place. -/
def setClassAttr (s : HostStore) (c : ClassId) (name : String) (v : Datum) : HostStore :=
  { s with classes := s.classes.modify c fun k =>
      if (k.dict.lookup name).isSome then
        { k with dict := k.dict.map fun e => if e.1 == name then (name, v) else e }
      else { k with dict := k.dict ++ [(name, v)] } }

/-! ## Texts -/

def instText (s : HostStore) (i : InstId) : String :=
  let k := s.inst i
  if k.name ≠ "" then k.name else "<" ++ (k.cls.map s.className).getD "" ++ " instance>"

def isFrozen (s : HostStore) (i : InstId) : Bool := ((s.inst i).cls.map fun c => (s.cls c).frozen).getD true

def shapeText (c : CallShape) : String :=
  let keys := String.intercalate "," c.keys
  s!"({c.count}, [{keys}], star={Types.boolText c.star})"

/-- Where a datum with an identity lies: empty tuples share one place, all others have one of their own. -/
def address (s : HostStore) (d : Datum) : Nat :=
  let place (kind n : Nat) : Nat := 0xc000000000 + 4 * n + kind
  match d with
  | .fn f => place 0 f
  | .cls c => place 1 c
  | .inst i => place 2 i
  | .consts o => match s.object o with
    | .consts [] => 0xc2da40
    | _ => place 3 o
  | .bound o => place 3 o
  | .builtin o => place 3 o
  | .tuple o => place 3 o
  | .list o => place 3 o
  | .dict o => place 3 o
  | .weakref o => place 3 o
  | _ => 0

def addressText (s : HostStore) (d : Datum) : String := "0x" ++ String.ofList (Nat.toDigits 16 (s.address d))

/-- The text of a datum; `outer` is false inside another datum, where what has no text of its own
shows as an address. -/
def textAux (s : HostStore) : (fuel : Nat) → (outer : Bool) → Datum → String
  | 0, _, _ => ""
  | n + 1, outer, d =>
    let inner := s.textAux n false
    let seq (xs : List Datum) : String := "[" ++ String.intercalate " " (xs.map inner) ++ "]"
    match d with
    | .nil => "<nil>"
    | .int k => toString k.toInt
    | .count k => toString k
    | .int32 k => toString k
    | .uint k => toString k.toNat
    | .big k => toString k
    | .bool b => Types.boolText b
    | .float f => f.text
    | .str t => t
    | .unicode t => t
    | .char c => toString c.toNat
    | .unichar c => toString c
    | .none => "None"
    | .fn f => "function " ++ (s.func f).name
    | .cls c => "class " ++ s.className c
    | .inst i => s.instText i
    | .bound o => match s.object o with
      | .bound f i => s.instText i ++ "." ++ (s.func f).name
      | _ => ""
    | .builtin o => match s.object o with
      | .builtin name => "builtin " ++ name
      | _ => ""
    | .tuple o => match s.object o with
      | .tuple xs => seq xs
      | _ => ""
    | .list o => match s.object o with
      | .list xs => if outer then "&\x7b" ++ seq xs ++ "\x7d" else s.addressText d
      | _ => ""
    | .dict o => match s.object o with
      | .dict ks vs => if outer then "&\x7b" ++ seq ks ++ " " ++ seq vs ++ "\x7d" else s.addressText d
      | _ => ""
    | .weakref o => match s.object o with
      | .weakref (some i) => if outer then "&\x7b" ++ s.instText i ++ "\x7d" else s.addressText d
      | _ => if outer then "&\x7b<nil>\x7d" else s.addressText d
    | .shape c => shapeText c
    | .consts o => match s.object o with
      | .consts xs => seq xs
      | _ => ""
    | .nothing => "None"
    | .builtinName name => name
    | .foreign => "\x7b1\x7d"
    | .lastException => "last_exception"
    | .byte b => toString b.toNat
    | .rune c => toString c
    | .address a => toString a
    | .ptr _ => ""
    | .container _ => ""
    | .type _ => ""
    | .graphs _ => ""

def text (s : HostStore) (d : Datum) : String := s.textAux (s.objects.size + 2) true d

/-- The name of the kind of value that a datum is. -/
def typeText : Datum → String
  | .nil => "<nil>"
  | .int _ => "int64"
  | .count _ => "int"
  | .int32 _ => "int32"
  | .uint _ => "uint64"
  | .big _ => "*rbigint.Bigint"
  | .bool _ => "bool"
  | .float _ => "float64"
  | .str _ => "string"
  | .unicode _ => "program.Unicode"
  | .char _ => "program.Char"
  | .unichar _ => "program.UniChar"
  | .none => "program.noneType"
  | .fn _ => "*program.Function"
  | .cls _ => "*program.Class"
  | .inst _ => "*program.Instance"
  | .bound _ => "*program.BoundMethod"
  | .builtin _ => "*program.Builtin"
  | .tuple _ => "program.Tuple"
  | .list _ => "*program.List"
  | .dict _ => "*program.Dict"
  | .weakref _ => "*program.WeakRef"
  | .shape _ => "description.CallShape"
  | .consts _ => "annotation.ConstTuple"
  | .nothing => "annotation.NoneValue"
  | .builtinName _ => "annotation.BuiltinRef"
  | .foreign => "struct \x7b X int \x7d"
  | .byte _ => "uint8"
  | .rune _ => "int32"
  | .address _ => "lltype.AddressValue"
  | .ptr _ => "*lltype.PtrValue"
  | _ => ""

/-- A datum as an operand of an operation is shown. -/
def operandText (s : HostStore) (d : Datum) : String :=
  match d with
  | .str t => "(" ++ Quoted.quote t ++ ")"
  | d => "(" ++ s.text d ++ ")"

def specText (s : HostStore) : TypeSpec → String
  | .basic .int _ _ => "int"
  | .basic .float _ _ => "float"
  | .basic .bool _ _ => "bool"
  | .basic .str _ _ => "str"
  | .basic .unicode _ _ => "unicode"
  | .basic .char _ _ => "char"
  | .basic .none _ _ => "None"
  | .basic _ _ _ => "any"
  | .inst c _ => "instance(" ++ (c.map s.className).getD "" ++ ")"
  | .list item => "list(" ++ s.specText item ++ ")"
  | .dict key item => "dict(" ++ s.specText key ++ ", " ++ s.specText item ++ ")"

/-- The data of a literal: one for a value, several for a sequence. -/
def evalLiteral (s : HostStore) : Literal → List Datum × HostStore
  | .datum d => ([d], s)
  | .bound f i => let (o, s) := s.addObject (.bound f i); ([.bound o], s)
  | .builtin name => let (o, s) := s.addObject (.builtin name); ([.builtin o], s)
  | .weakref i => let (o, s) := s.addObject (.weakref i); ([.weakref o], s)
  | .foreign => ([.foreign], s)
  | .tuple items =>
    let (xs, s) := s.evalLiteral items
    let (o, s) := s.addObject (.tuple xs)
    ([.tuple o], s)
  | .list items =>
    let (xs, s) := s.evalLiteral items
    let (o, s) := s.addObject (.list xs)
    ([.list o], s)
  | .dict keys values =>
    let (ks, s) := s.evalLiteral keys
    let (vs, s) := s.evalLiteral values
    let (o, s) := s.addObject (.dict ks vs)
    ([.dict o], s)
  | .empty => ([], s)
  | .cons h t =>
    let (x, s) := s.evalLiteral h
    let (xs, s) := s.evalLiteral t
    (x ++ xs, s)

/-- The builtin exceptions with their bases, every base before its subclasses. -/
def exceptionTree : List (String × String) :=
  [ ("BaseException", ""), ("Exception", "BaseException"), ("KeyboardInterrupt", "BaseException"),
    ("SystemExit", "BaseException"), ("StopIteration", "Exception"), ("StandardError", "Exception"),
    ("ArithmeticError", "StandardError"), ("OverflowError", "ArithmeticError"),
    ("ZeroDivisionError", "ArithmeticError"), ("LookupError", "StandardError"), ("KeyError", "LookupError"),
    ("IndexError", "LookupError"), ("ValueError", "StandardError"), ("TypeError", "StandardError"),
    ("AttributeError", "StandardError"), ("AssertionError", "StandardError"), ("MemoryError", "StandardError"),
    ("RuntimeError", "StandardError"), ("NotImplementedError", "RuntimeError") ]

/-- Adds the builtin exceptions; gives their names with their numbers. -/
def addExceptions (s : HostStore) : List (String × ClassId) × HostStore :=
  exceptionTree.foldl (fun (known, s) (name, base) =>
    let (c, s) := s.addClass { name, bases := (known.lookup base).toList, builtin := true }
    (known ++ [(name, c)], s)) (([] : List (String × ClassId)), s)

end HostStore

/-- Everything that is known of a program: its host values, flow graphs and low-level objects. -/
structure Program where
  host : HostStore := {}
  flow : FlowStore := {}
  low : LowStore := {}
deriving Inhabited

namespace Program

def operandText (p : Program) : Operand → String
  | .var v => p.flow.varText v
  | .const d _ => p.host.operandText d

def opText (p : Program) (op : FlowOp) : String :=
  let res := match op.result with
    | some v => p.flow.varText v
    | none => "<nil>"
  let args := String.intercalate ", " (op.args.map p.operandText)
  s!"{res} = {op.name}({args})"

end Program
end FlowCompiler
