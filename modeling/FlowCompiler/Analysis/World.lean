import FlowCompiler.Annot.Basic
import FlowCompiler.Host.Program
import FlowCompiler.Partition

/-!
# What the analysis knows

One state holds everything: the program, the definitions of lists and dictionaries, the descriptions of
compile-time values, the class definitions with their attributes, the families of calls and of
attributes, and how far the flow through the graphs has come.
-/

namespace FlowCompiler

/-! ## Lists and dictionaries -/

/-- Who holds an item: a list, or one of the two sides of a dictionary. -/
inductive Holder where
  | list (d : ListDefId)
  | key (d : DictDefId)
  | value (d : DictDefId)
deriving DecidableEq, Repr

/-- The step of a list that is no range. -/
def noStep : Int := -(Nat.pow 2 62 : Nat)

/-- What all aliases of a list share: the annotation of its elements and how it is changed. -/
structure ListItem where
  value : Annot
  mutated : Bool := false
  resized : Bool := false
  step : Int := noStep
  frozen : Bool := false
  immutable : Bool := false
  mustNotResize : Bool := false
  holders : List Holder := []
  reads : Array PosKey := #[]
deriving Inhabited

structure DictDef where
  key : ItemId
  value : ItemId
  /-- Keys are compared and hashed by functions of the program. -/
  customEqHash : Bool := false
  forceNonNull : Bool := false
  simple : Bool := false
deriving Inhabited

/-! ## Descriptions -/

structure FunctionDesc where
  func : FuncId
  name : String
  /-- The specialization that the directive asks for, once it has been read. -/
  special : Option (String × List String) := none
  /-- The graph of every specialization, in the order in which they were made. -/
  cache : List (String × GraphId) := []
  /-- The results of calls at compile time. -/
  memo : List (String × Annot) := []
deriving Inhabited

/-- An attribute of a class: a constant, or a function that the class shares with no other. -/
inductive ClassEntry where
  | value (d : Datum)
  | own (f : DescId)
deriving Inhabited

/-- How immutable a field is. -/
inductive Rank where
  | mutable
  | immutable
  | quasiImmutable
  | immutableArray
  | quasiImmutableArray
deriving DecidableEq, Repr, Inhabited

structure ClassDesc where
  cls : ClassId
  name : String
  base : Option DescId := none
  dict : List (String × ClassEntry) := []
  settled : Bool := false
  special : String := ""
  /-- The attributes that instances may have; none when there is no limit. -/
  enforced : Option (List String) := none
  immutableFields : List (String × Rank) := []
  immutable : Bool := false
  classDefs : List (String × ClassDefId) := []
  invalidAttrs : List String := []
deriving Inhabited

structure MethodDesc where
  func : DescId
  origin : ClassDefId
  /-- The class of the instance, once the method is bound. -/
  self : Option ClassDefId
  name : String
  flags : List String := []
deriving DecidableEq, Hashable, Inhabited

/-- The description of a compile-time value. -/
inductive Desc where
  | function (f : FunctionDesc)
  | cls (c : ClassDesc)
  | method (m : MethodDesc)
  /-- A prebuilt instance that never changes, with the annotations of its attributes read so far. -/
  | frozen (i : InstId) (cache : List (String × Annot))
  | frozenMethod (func frozen : DescId)
deriving Inhabited

inductive DescKind where
  | function
  | cls
  | method
  | frozen
  | frozenMethod
deriving DecidableEq, Repr

def DescKind.text : DescKind → String
  | function => "function"
  | cls => "class"
  | method => "method"
  | frozen => "frozen"
  | frozenMethod => "method-of-frozen"

def Desc.kind : Desc → DescKind
  | .function _ => .function
  | .cls _ => .cls
  | .method _ => .method
  | .frozen _ _ => .frozen
  | .frozenMethod _ _ => .frozenMethod

/-! ## Classes -/

abbrev AttrId := Nat

/-- Where the constant value of an attribute comes from. -/
inductive AttrSource where
  | cls (d : DescId)
  | inst (i : InstId)
deriving DecidableEq, Repr

structure Attribute where
  name : String
  value : Annot := .impossible
  reads : Array PosKey := #[]
  /-- Never written: its values are constants of classes. -/
  readonly : Bool := true
  allowed : Bool := true
deriving Inhabited

structure ClassDef where
  name : String
  key : String
  desc : DescId
  base : Option ClassDefId
  subs : List ClassDefId := []
  attrs : List (String × AttrId) := []
  sources : List (String × List AttrSource) := []
  classReads : Array PosKey := #[]
  /-- The range of the numbers of the class and its subclasses. -/
  minId : Int := 0
  maxId : Int := 0
deriving Inhabited

/-! ## Families -/

/-- A row of a call table: which graph is called for each description, by number. -/
abbrev Row := List (DescId × GraphId)

/-- Descriptions that are called from one place, with a table for every shape of call. -/
structure CallFamily where
  descs : List DescId
  tables : List (CallShape × List Row) := []
  modified : Bool := false
  normalized : Bool := false
  sites : Nat := 0
deriving Inhabited

structure FrozenFamily where
  descs : List DescId
  reads : Array PosKey := #[]
  attrs : List (String × Annot) := []
deriving Inhabited

structure ClassAttrFamily where
  descs : List DescId
  reads : Array PosKey := #[]
  value : Annot := .impossible
deriving Inhabited

/-! ## Calls -/

/-- The arguments of a call. -/
structure CallArgs where
  positional : List Annot
  keywords : List (String × Annot) := []
  star : Option Annot := none
deriving Inhabited

/-- Names an emulated call: by the class whose finalizer it runs, or by a name. -/
inductive EmulationKey where
  | finalizer (c : ClassDefId)
  | named (s : String)
deriving DecidableEq

structure EmulatedCall where
  key : EmulationKey
  descs : List DescId
  nullable : Bool
  args : List Annot

/-! ## Progress of the flow -/

structure CallEdge where
  caller : GraphId
  callee : GraphId
  block : BlockId
  index : Int
deriving DecidableEq, Hashable, Inhabited

structure Progress where
  /-- Whether called functions are analysed at all. -/
  attached : Bool := false
  maxReflows : Int := 0
  bindings : Std.HashMap VarId Annot := {}
  /-- The graph of every block that waits, and the order in which they wait. -/
  pending : Std.HashMap BlockId GraphId := {}
  queue : List BlockId := []
  queueBack : List BlockId := []
  /-- Blocks that were met; those whose operations are done have their graph. -/
  annotated : Std.HashMap BlockId (Option GraphId) := {}
  blocked : Std.HashMap BlockId (GraphId × Int) := {}
  /-- Call sites to analyse again after a return block. -/
  notify : Std.HashMap BlockId (Array PosKey) := {}
  followed : Std.HashMap LinkId Unit := {}
  graphs : Array GraphId := #[]
  edges : Array CallEdge := #[]
  sites : Array PosKey := #[]
  steps : Int := 0
deriving Inhabited

/-- The policy of specialization. -/
structure Policy where
  defaultTag : String := "default"
  /-- The results of overridden functions; one without a result always fails. -/
  overrides : List (String × Option Annot) := []
deriving Inhabited

structure World where
  prog : Program := {}
  items : Array ListItem := #[]
  listDefs : Array ItemId := #[]
  dictDefs : Array DictDef := #[]
  nextTag : Nat := 1
  descs : Array Desc := #[]
  descOrder : Array DescId := #[]
  descIndex : Std.HashMap Datum DescId := {}
  methodIndex : Std.HashMap MethodDesc DescId := {}
  frozenMethodIndex : Std.HashMap (DescId × DescId) DescId := {}
  classDefs : Array ClassDef := #[]
  attributes : Array Attribute := #[]
  callPartition : Partition DescId Nat := {}
  callFamilies : Array CallFamily := #[]
  frozenPartition : Partition DescId Nat := {}
  frozenFamilies : Array FrozenFamily := #[]
  classPartitions : List (String × Partition DescId Nat) := []
  classFamilies : Array ClassAttrFamily := #[]
  immutableCache : Std.HashMap Datum Annot := {}
  seenMutable : List InstId := []
  emulated : List EmulatedCall := []
  graphOwner : Std.HashMap GraphId DescId := {}
  listDefAt : Std.HashMap PosKey ListDefId := {}
  dictDefAt : Std.HashMap PosKey DictDefId := {}
  /-- The operation that is being analysed. -/
  position : Option PosKey := none
  policy : Policy := {}
  /-- The builtin exceptions by name. -/
  exceptions : List (String × ClassId) := []
  progress : Progress := {}
deriving Inhabited

namespace World

def item (w : World) (i : ItemId) : ListItem := (w.items[i]?).getD default
def listItemId (w : World) (d : ListDefId) : ItemId := (w.listDefs[d]?).getD 0
def listItem (w : World) (d : ListDefId) : ListItem := w.item (w.listItemId d)
def dictDef (w : World) (d : DictDefId) : DictDef := (w.dictDefs[d]?).getD default

/-- Descriptions and class definitions are numbered from one. -/
def desc (w : World) (d : DescId) : Desc := (w.descs[d - 1]?).getD default
def classDef (w : World) (c : ClassDefId) : ClassDef := (w.classDefs[c - 1]?).getD default
def attr (w : World) (a : AttrId) : Attribute := (w.attributes[a]?).getD default

def funcDesc (w : World) (d : DescId) : FunctionDesc :=
  match w.desc d with
  | .function f => f
  | _ => default

def classDesc (w : World) (d : DescId) : ClassDesc :=
  match w.desc d with
  | .cls c => c
  | _ => default

def updateItem (w : World) (i : ItemId) (f : ListItem → ListItem) : World := { w with items := w.items.modify i f }
def updateDesc (w : World) (d : DescId) (f : Desc → Desc) : World := { w with descs := w.descs.modify (d - 1) f }
def updateFuncDesc (w : World) (d : DescId) (f : FunctionDesc → FunctionDesc) : World :=
  w.updateDesc d fun | .function k => .function (f k) | k => k
def updateClassDesc (w : World) (d : DescId) (f : ClassDesc → ClassDesc) : World :=
  w.updateDesc d fun | .cls k => .cls (f k) | k => k
def updateClassDef (w : World) (c : ClassDefId) (f : ClassDef → ClassDef) : World :=
  { w with classDefs := w.classDefs.modify (c - 1) f }
def updateAttribute (w : World) (a : AttrId) (f : Attribute → Attribute) : World :=
  { w with attributes := w.attributes.modify a f }
def updateProgress (w : World) (f : Progress → Progress) : World := { w with progress := f w.progress }

/-! ## Class definitions -/

def mroAux (w : World) : (fuel : Nat) → ClassDefId → List ClassDefId
  | 0, _ => []
  | n + 1, c => c :: (match (w.classDef c).base with
    | some b => w.mroAux n b
    | none => [])

/-- The class and all its bases. -/
def mro (w : World) (c : ClassDefId) : List ClassDefId := w.mroAux (w.classDefs.size + 1) c

def isSubclass (w : World) (c other : ClassDefId) : Bool := (w.mro c).contains other

/-- The nearest class that both have as a base. -/
def commonBase? (w : World) (a b : ClassDefId) : Option ClassDefId := (w.mro a).find? fun c => w.isSubclass b c

def allSubsAux (w : World) : (fuel : Nat) → List ClassDefId → List ClassDefId
  | 0, _ => []
  | _, [] => []
  | n + 1, c :: rest => c :: w.allSubsAux n (rest ++ (w.classDef c).subs)

/-- The class and all its subclasses, level by level. -/
def allSubs (w : World) (c : ClassDefId) : List ClassDefId := w.allSubsAux (w.classDefs.size + 1) [c]

/-! ## Texts -/

def className (w : World) (c : ClassDefId) : String := (w.classDef c).name

def flagsText (flags : List String) : String :=
  if flags.isEmpty then "" else " [" ++ String.intercalate " " flags ++ "]"

def descText (w : World) (d : DescId) : String :=
  match w.desc d with
  | .function f => s!"FunctionDesc({f.name})"
  | .cls c => s!"ClassDesc({c.name})"
  | .method m =>
    let self := (m.self.map w.className).getD "?"
    s!"MethodDesc({w.className m.origin}.{m.name} of {self}{flagsText m.flags})"
  | .frozen i _ => s!"FrozenDesc({w.prog.host.instText i})"
  | .frozenMethod f z =>
    let inst := match w.desc z with
      | .frozen i _ => w.prog.host.instText i
      | _ => ""
    s!"MethodOfFrozenDesc({(w.funcDesc f).name} of {inst})"

def boolText : Bool → String
  | true => "true"
  | false => "false"

def listFlags (i : ListItem) : String :=
  (if i.immutable then " immutable" else if i.resized then " resized" else if i.mutated then " mutated" else "")
    ++ (if i.mustNotResize then " fixedsize" else "")

/-- The last part of the text of an annotation, when it is a constant. -/
def constPart {α : Type} (c : Option α) (f : α → String) : String := (c.map fun v => ", const=" ++ f v).getD ""

/-- The constant as the only part. -/
def constOnly {α : Type} (c : Option α) (f : α → String) : String := (c.map fun v => "const=" ++ f v).getD ""

/-- Whether the elements of a list are lists with the same elements. -/
def isOwnElement (w : World) (d : ListDefId) : Bool :=
  match (w.listItem d).value with
  | .list e => w.listItemId e == w.listItemId d
  | _ => false

/-- The text of an annotation down to a depth. -/
def annotTextAux (w : World) : (fuel : Nat) → Annot → String
  | 0, _ => "..."
  | n + 1, a =>
    let go := w.annotTextAux n
    match a with
    | .object => "SomeObject()"
    | .impossible => "s_ImpossibleValue"
    | .none => "s_None"
    | .bool c _ => s!"SomeBool({constOnly c boolText})"
    | .int i =>
      let range := (i.range.map fun r => ", range=" ++ r.text).getD ""
      let const := constPart i.const toString
      s!"SomeInteger({i.typeName}, nonneg={boolText i.nonneg}{range}{const})"
    | .float c _ => s!"SomeFloat({constOnly c Double.text})"
    | .char c z =>
      let const := constPart c (fun b => toString b.toNat)
      s!"SomeChar(no_nul={boolText z}{const})"
    | .unichar c z => s!"SomeUnicodeCodePoint(no_nul={boolText z}{constPart c toString})"
    | .str c m z => s!"SomeString(can_be_None={boolText m}, no_nul={boolText z}{constPart c id})"
    | .unicode c m z => s!"SomeUnicodeString(can_be_None={boolText m}, no_nul={boolText z}{constPart c id})"
    | .tuple _ _ items => "SomeTuple(" ++ String.intercalate ", " (items.map go) ++ ")"
    | .list d =>
      let i := w.listItem d
      let inner := if w.isOwnElement d then "..." else go i.value
      s!"SomeList([{inner}]{listFlags i})"
    | .dict d =>
      let k := w.dictDef d
      "SomeDict(\x7b" ++ go (w.item k.key).value ++ ": " ++ go (w.item k.value).value ++ "\x7d)"
    | .inst c m _ =>
      let name := (c.map w.className).getD "object"
      s!"SomeInstance({name}, can_be_None={boolText m})"
    | .pbc ds m =>
      "SomePBC(\x7b" ++ String.intercalate ", " (ds.map w.descText) ++ s!"\x7d, can_be_None={boolText m})"
    | .iter c v => s!"SomeIterator({go c}, {Quoted.quote v})"
    | .builtin name => s!"SomeBuiltin({name})"
    | .method name self => s!"SomeBuiltinMethod({name}, {go self})"
    | .type c _ _ => s!"SomeType({constOnly c w.prog.host.text})"
    | .weakref c =>
      let name := (c.map w.className).getD "dead"
      s!"SomeWeakRef({name})"

/-- More levels than any annotation has. -/
def annotDepth : Nat := 1000000000

def annotText (w : World) (a : Annot) : String := w.annotTextAux annotDepth a

/-- The text of a dictionary definition down to a depth. -/
def dictText (w : World) (depth : Nat) (d : DictDefId) : String :=
  let k := w.dictDef d
  "\x7b" ++ w.annotTextAux depth (w.item k.key).value ++ ": " ++ w.annotTextAux depth (w.item k.value).value ++ "\x7d"

/-! ## Equality -/

mutual

/-- Whether two annotations say the same; lists and dictionaries by what they share. -/
def equal (w : World) : Annot → Annot → Bool
  | .object, .object => true
  | .impossible, .impossible => true
  | .none, .none => true
  | .bool c fs, .bool c' fs' => c == c' && fs.length == fs'.length && w.factsEqual fs fs'
  | .int i, .int j => i == j
  | .float (some a) t, .float (some b) t' => (t == t' && a == b) || a.numEq b
  | .float none _, .float none _ => true
  | .char c z, .char c' z' => c == c' && z == z'
  | .unichar c z, .unichar c' z' => c == c' && z == z'
  | .str c m z, .str c' m' z' => c == c' && m == m' && z == z'
  | .unicode c m z, .unicode c' m' z' => c == c' && m == m' && z == z'
  | .tuple _ _ xs, .tuple _ _ ys => w.itemsEqual xs ys
  | .list d, .list e => w.listItemId d == w.listItemId e
  | .dict d, .dict e => (w.dictDef d).key == (w.dictDef e).key && (w.dictDef d).value == (w.dictDef e).value
  | .inst c m fs, .inst c' m' fs' => c == c' && m == m' && fs == fs'
  | .pbc ds m, .pbc ds' m' => ds == ds' && m == m'
  | .iter c v, .iter c' v' => v == v' && w.equal c c'
  | .builtin name, .builtin name' => name == name'
  | .method name s, .method name' s' => name == name' && w.equal s s'
  | .type c vs _, .type c' vs' _ => vs == vs' && (match c, c' with
    | none, none => true
    | some a, some b => a.same b
    | _, _ => false)
  | .weakref c, .weakref c' => c == c'
  | _, _ => false

def itemsEqual (w : World) : List Annot → List Annot → Bool
  | [], [] => true
  | a :: r, b :: s => w.equal a b && w.itemsEqual r s
  | _, _ => false

/-- Whether every fact is among others. -/
def factsEqual (w : World) : List (Fact Annot) → List (Fact Annot) → Bool
  | [], _ => true
  | ⟨o, v, a⟩ :: r, others =>
    (match Annot.findFact? others o v with
      | some b => w.equal a b
      | none => false) && w.factsEqual r others

end

/-! ## Data of annotations -/

/-- The kind of description that all members of a set have. -/
def commonKind? (w : World) (ds : List DescId) : Option DescKind :=
  match ds with
  | [] => none
  | d :: r =>
    let k := (w.desc d).kind
    if r.all fun e => (w.desc e).kind == k then some k else none

/-- The name of the type that an annotation stands for. -/
def typeName (w : World) : Annot → String
  | .int i => i.typeName
  | .bool _ _ => "bool"
  | .float _ _ => "float"
  | .char _ _ => "str"
  | .str _ _ _ => "str"
  | .unichar _ _ => "unicode"
  | .unicode _ _ _ => "unicode"
  | .tuple _ _ _ => "tuple"
  | .list _ => "list"
  | .dict _ => "dict"
  | .inst (some c) _ _ => "instance:" ++ w.className c
  | .inst none _ _ => "instance"
  | .none => "NoneType"
  | .pbc ds _ => "pbc:" ++ ((w.commonKind? ds).map DescKind.text).getD "desc?"
  | .type _ _ _ => "type"
  | .weakref _ => "weakref"
  | .iter _ _ => "iterator"
  | .builtin _ => "builtin"
  | .method _ _ => "builtin"
  | _ => "object"

/-- The description that a call table has a column for. -/
def rowKey (w : World) (d : DescId) : DescId :=
  match w.desc d with
  | .method m => m.func
  | .frozenMethod f _ => f
  | _ => d

end World

/-! ## Steps of the analysis -/

/-- The steps that call each other in circles, to any depth. -/
structure Knot where
  immutable : Datum → EStateM Failure World Annot
  descOf : Datum → EStateM Failure World DescId
  classDefOf : DescId → String → EStateM Failure World ClassDefId
  pbcCall : List DescId → CallArgs → Option PosKey → EStateM Failure World Annot

/-- A step of the analysis, given the steps that it may come back to. -/
abbrev Ana := ReaderT Knot (EStateM Failure World)

namespace Ana

/-- The annotation of a prebuilt constant. -/
def immutable (d : Datum) : Ana Annot := fun k => k.immutable d

/-- The description of a compile-time value. -/
def descOf (d : Datum) : Ana DescId := fun k => k.descOf d

/-- The class definition of a class description, by the key of its specialization. -/
def classDefOf (d : DescId) (key : String) : Ana ClassDefId := fun k => k.classDefOf d key

/-- The result of calling one of several compile-time values. -/
def pbcCall (ds : List DescId) (args : CallArgs) (whence : Option PosKey) : Ana Annot :=
  fun k => k.pbcCall ds args whence

/-- A failure of the analysis. -/
def fail {α : Type} (code text : String) : Ana α := throw (.annotator code text)

def text (a : Annot) : Ana String := return (← get).annotText a

/-- A tag that no annotation has yet. -/
def freshTag : Ana Nat := modifyGet fun w => (w.nextTag, { w with nextTag := w.nextTag + 1 })

def host : Ana HostStore := return (← get).prog.host

/-- The class definition that most of the analysis means. -/
def uniqueClassDef (c : ClassId) : Ana ClassDefId := do classDefOf (← descOf (.cls c)) ""

/-- The position of the operation that is being analysed, or that of none. -/
def positionOrZero : Ana PosKey := return (← get).position.getD {}

/-! ## Scheduling -/

/-- Puts a block at the end of the queue unless it waits already. -/
def schedule (g : GraphId) (b : BlockId) : Ana Unit :=
  modify fun w => w.updateProgress fun p =>
    if p.pending.contains b then p
    else { p with pending := p.pending.insert b g, queueBack := b :: p.queueBack }

/-- Has a block that was met analysed again. -/
def reflow (pos : PosKey) : Ana Unit := do
  match pos.graph, pos.block with
  | some g, some b =>
    let p := (← get).progress
    if p.attached && p.annotated.contains b then
      modify fun w => w.updateProgress fun p => { p with annotated := p.annotated.insert b none }
      schedule g b
  | _, _ => pure ()

def reflowAll (ps : Array PosKey) : Ana Unit := ps.forM reflow

end Ana

/-- Adds a position unless it is there. -/
def insertPos (ps : Array PosKey) (p : PosKey) : Array PosKey := if ps.contains p then ps else ps.push p

/-- Adds the positions of another set. -/
def insertPositions (ps qs : Array PosKey) : Array PosKey := qs.foldl insertPos ps

end FlowCompiler
