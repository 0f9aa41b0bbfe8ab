import FlowCompiler.Flow.Template
import FlowCompiler.Script.Basic

/-!
# Programs described by documents

Classes, functions, prebuilt instances and shared constants, made in that order, so that a document
may mention any of them by name.
-/

namespace FlowCompiler.Script

open Document

/-- The names of a program. -/
structure Names where
  classes : List (String × ClassId) := []
  functions : List (String × FuncId) := []
  instances : List (String × InstId) := []
  consts : List (String × Datum) := []
  /-- The builtin exceptions, which need no declaration. -/
  exceptions : List (String × ClassId) := []
deriving Inhabited

structure ProgramScript where
  prog : Program := {}
  names : Names := {}
deriving Inhabited

abbrev ProgM := StateM ProgramScript

def Names.cls (n : Names) (name : String) : ClassId := ((n.classes.lookup name <|> n.exceptions.lookup name)).getD 0
def Names.func (n : Names) (name : String) : FuncId := (n.functions.lookup name).getD 0
def Names.inst (n : Names) (name : String) : InstId := (n.instances.lookup name).getD 0

def sequence (ls : List Literal) : Literal := ls.foldr Literal.cons .empty

def toShape (d : Document) : CallShape := { count := (d.nth 0).toInt, keys := (d.nth 1).texts, star := (d.nth 2).isTrue }

/-- A constant without parts. -/
def plainDatum? (n : Names) (d : Document) : Option Datum :=
  let g (k : String) : Document := d.get k
  if d.has "int" then some (.int (g "int").toWord)
  else if d.has "goint" then some (.count (g "goint").toInt)
  else if d.has "int32" then some (.int32 (g "int32").toInt)
  else if d.has "uint" then some (.uint (g "uint").toUnsigned)
  else if d.has "big" then some (.big (g "big").toInt)
  else if d.has "bool" then some (.bool (g "bool").isTrue)
  else if d.has "float" then some (.float (toDouble (g "float")))
  else if d.has "str" then some (.str (g "str").toText)
  else if d.has "uni" then some (.unicode (g "uni").toText)
  else if d.has "char" then some (.char (UInt8.ofNat (g "char").toNat))
  else if d.has "unichar" then some (.unichar (g "unichar").toInt)
  else if d.has "none" then some .none
  else if d.has "fn" then some (.fn (n.func (g "fn").toText))
  else if d.has "cls" then some (.cls (n.cls (g "cls").toText))
  else if d.has "inst" then some (.inst (n.inst (g "inst").toText))
  else if d.has "const" then some ((n.consts.lookup (g "const").toText).getD .nil)
  else if d.has "shape" then some (.shape (toShape (g "shape")))
  else none

/-- A constant; constants are at most `fuel` deep. -/
def toLiteral (n : Names) : (fuel : Nat) → Document → Literal
  | 0, _ => .datum .nil
  | k + 1, d =>
    let items (x : Document) : Literal := sequence (x.items.map (toLiteral n k))
    if d.has "bound" then .bound (n.func ((d.get "bound").nth 0).toText) (n.inst ((d.get "bound").nth 1).toText)
    else if d.has "builtin" then .builtin (d.get "builtin").toText
    else if d.has "weakref" then .weakref (some (n.inst (d.get "weakref").toText))
    else if d.has "deadref" then .weakref none
    else if d.has "opaque" then .foreign
    else if d.has "tuple" then .tuple (items (d.get "tuple"))
    else if d.has "list" then .list (items (d.get "list"))
    else if d.has "dict" then
      let es := (d.get "dict").items
      .dict (sequence (es.map fun e => toLiteral n k (e.nth 0))) (sequence (es.map fun e => toLiteral n k (e.nth 1)))
    else .datum ((plainDatum? n d).getD .nil)

def literalDepth : Nat := 64

def names : ProgM Names := return (← get).names

def onHost {α : Type} (f : HostStore → α × HostStore) : ProgM α := fun s =>
  let (a, host) := f s.prog.host
  (a, { s with prog := { s.prog with host } })

/-- The value of a constant, containers made anew. -/
def constant (d : Document) : ProgM Datum := do
  let l := toLiteral (← names) literalDepth d
  let ds ← onHost (·.evalLiteral l)
  pure (ds.headD .nil)

def toSpecKind (s : String) : SpecKind :=
  match s with
  | "any" => .any
  | "int" => .int
  | "float" => .float
  | "bool" => .bool
  | "str" => .str
  | "unicode" => .unicode
  | "char" => .char
  | "None" => .none
  | _ => .other

/-- A declared type. -/
def toSpec (n : Names) : (fuel : Nat) → Document → TypeSpec
  | 0, _ => .basic .any false false
  | k + 1, d =>
    match d with
    | .text s => .basic (toSpecKind s) false false
    | d =>
      let part (name : String) : TypeSpec := if d.has name then toSpec n k (d.get name) else .basic .any false false
      match (d.get "k").toText with
      | "inst" => .inst ((d.find? "cls").map fun c => n.cls c.toText) (d.get "none").isTrue
      | "list" => .list (part "item")
      | "dict" => .dict (part "key") (part "item")
      | s => .basic (toSpecKind s) (d.get "nonul").isTrue (d.get "none").isTrue

/-! ## Graph templates -/

def toArg (n : Names) (d : Document) : ArgTemplate :=
  match d with
  | .text s => .name s
  | d => .literal (toLiteral n literalDepth d)

def toJump (n : Names) (d : Document) : JumpTemplate :=
  { target := (d.nth 0).toText, args := (d.items.drop 1).map (toArg n) }

def toCase (n : Names) (d : Document) : Literal × JumpTemplate :=
  (toLiteral n literalDepth (d.nth 0), toJump n (d.nth 1))

def toExit (n : Names) (d : Document) : ExitTemplate :=
  if d.has "ret" then .ret (toArg n (d.get "ret"))
  else if d.has "jump" then .jump (toJump n (d.get "jump"))
  else if d.has "if" then .branch (toArg n (d.get "if")) (toJump n (d.get "false")) (toJump n (d.get "true"))
  else if d.has "raise" then .raise ((d.get "raise").items.map (toArg n))
  else if d.has "switch" then .switch (toArg n (d.get "switch")) ((d.get "cases").items.map (toCase n))
  else if d.has "catch" then .catching (toJump n (d.get "catch")) ((d.get "handlers").items.map (toCase n))
  else if d.has "links" then .links ((d.get "links").items.map (toJump n))
  else .none

def toOp (n : Names) (d : Document) : OpTemplate :=
  { result := (d.nth 0).text?, name := (d.nth 1).toText, args := (d.items.drop 2).map (toArg n) }

def toBlock (n : Names) (d : Document) : BlockTemplate :=
  { name := (d.get "name").toText, inputs := (d.get "in").texts, ops := (d.get "ops").items.map (toOp n), exit := toExit n d }

def toTemplate (n : Names) (d : Document) : GraphTemplate :=
  { blocks := (d.get "blocks").items.map (toBlock n), shares := (d.get "alias").isTrue,
    returnLinks := (d.get "retlinks").items.map (toJump n) }

/-! ## Building a program -/

def addClassDoc (d : Document) : ProgM Unit := do
  let n ← names
  let t (k : String) : Bool := (d.get k).isTrue
  let k : HostClass :=
    { name := (d.get "name").toText, bases := (d.get "bases").texts.map n.cls, isMixin := t "mixin", immutable := t "immutable",
      settled := t "settled", frozen := t "frozen", builtin := t "builtin", immutableFields := (d.get "immutable_fields").texts,
      special := (d.get "spec").toText, attrs := (d.get "attrs").texts, hasAttrs := d.has "attrs" }
  let c ← onHost (·.addClass k)
  modify fun s => { s with names := { s.names with classes := s.names.classes ++ [(k.name, c)] } }

def addInstanceDoc (d : Document) : ProgM Unit := do
  let n ← names
  let name := (d.get "name").toText
  let i ← onHost (·.addInstance { cls := (d.find? "cls").map fun c => n.cls c.toText, name })
  modify fun s => { s with names := { s.names with instances := s.names.instances ++ [(name, i)] } }

def fillClassDoc (d : Document) : ProgM Unit := do
  let c := (← names).cls (d.get "name").toText
  for e in (d.get "dict").items do
    let v ← constant (e.nth 1)
    onHost fun h => ((), h.setClassAttr c (e.nth 0).toText v)

def setAttr (attrs : List (String × Datum)) (name : String) (v : Datum) : List (String × Datum) :=
  attrs.filter (·.1 ≠ name) ++ [(name, v)]

def fillInstanceDoc (d : Document) : ProgM Unit := do
  let i := (← names).inst (d.get "name").toText
  for e in (d.get "attrs").items do
    let v ← constant (e.nth 1)
    onHost fun h => ((), { h with instances := h.instances.modify i fun k =>
      { k with attrs := setAttr k.attrs (e.nth 0).toText v } })

def memoDoc (d : Document) : ProgM MemoTable := do
  let rows ← (d.get "table").items.mapM fun row => do
    let args ← (row.nth 0).items.mapM constant
    let v ← constant (row.nth 1)
    let host := (← get).prog.host
    pure (joinWith "|" (args.map host.text), v)
  let fallback ← match d.find? "default" with
    | some v => do pure (some (← constant v))
    | none => pure none
  -- a repeated key takes its last value
  pure { rows := rows.reverse, fallback }

def toSignature (d : Document) : Signature :=
  { args := (d.get "args").texts, vararg := (d.get "vararg").toText, kwarg := (d.get "kwarg").toText }

/-- A graph from a template, added to the program. -/
def buildGraph (t : GraphTemplate) (name : String) (sig : Signature) (defaults : List Datum) : ProgM GraphId := fun s =>
  let (g, prog) := t.build name sig defaults s.prog
  (g, { s with prog })

def bodyDoc (d : Document) (name : String) (sig : Signature) (defaults : List Datum) : ProgM Body := do
  let t := toTemplate (← names) d
  if (d.get "fail").isTrue then pure .failing
  else if !d.has "blocks" then pure .absent
  else if (d.get "once").isTrue then return .once (← buildGraph t name sig defaults) false
  else pure (.template t)

def fillFunctionDoc (d : Document) : ProgM Unit := do
  let n ← names
  let name := (d.get "name").toText
  let t (k : String) : Bool := (d.get k).isTrue
  let signature := toSignature d
  let defaults ← (d.get "defaults").items.mapM constant
  let memo ← match d.find? "memo" with
    | some m => do pure (some (← memoDoc m))
    | none => pure none
  let declared := (d.find? "sig").map fun s =>
    ((s.get "args").items.map (toSpec n literalDepth), toSpec n literalDepth (s.get "result"))
  let body ← bodyDoc d name signature defaults
  let f : HostFunction :=
    { name, signature, defaults, special := (d.get "spec").toText, enforce := (d.get "enforce").items.map (toSpec n literalDepth),
      declared, body, memo, static := t "static", classMethod := t "classmethod", notAnalysable := t "notrpython" }
  onHost fun h => ((), { h with functions := h.functions.setIfInBounds (n.func name) f })

def addEmptyFunction (d : Document) : ProgM Unit := do
  let name := (d.get "name").toText
  let f ← onHost (·.addFunction { name })
  modify fun s => { s with names := { s.names with functions := s.names.functions ++ [(name, f)] } }

def addConst (d : Document) : ProgM Unit := do
  let v ← constant (d.nth 1)
  modify fun s => { s with names := { s.names with consts := s.names.consts ++ [((d.nth 0).toText, v)] } }

def loadM (d : Document) (extraFunctions : List Document) : ProgM Unit := do
  let exceptions ← onHost (·.addExceptions)
  modify fun s => { s with names := { s.names with exceptions } }
  let functions := (d.get "functions").items ++ extraFunctions
  (d.get "classes").items.forM addClassDoc
  functions.forM addEmptyFunction
  (d.get "instances").items.forM addInstanceDoc
  (d.get "consts").items.forM addConst
  (d.get "classes").items.forM fillClassDoc
  (d.get "instances").items.forM fillInstanceDoc
  functions.forM fillFunctionDoc

/-- The program that a document describes, with further functions after its own. -/
def load (d : Document) (extraFunctions : List Document) : ProgramScript := ((loadM d extraFunctions).run {}).2

/-! ## Checking a graph -/

def orNull (xs : List Document) : Document := if xs.isEmpty then null else list xs

def graphDoc (p : Program) (g : GraphId) : Document :=
  let bs := p.flow.blocksOf g
  let name := (p.flow.graph g).name
  let blocks := bs.map fun b =>
    let k := p.flow.block b
    list [text (FlowStore.blockText b), bool k.isFinal, bool k.canRaise, ofOptText (k.raisingOp?.map FlowOp.name)]
  let ops := bs.flatMap fun b => (p.flow.block b).ops.zipIdx.map fun (op, i) =>
    text s!"{name} {FlowStore.blockAt b} op={i}: {p.opText op}"
  let links := bs.flatMap fun b => (p.flow.block b).exits.map fun l =>
    text s!"{FlowStore.blockAt b}->{FlowStore.blockAt (p.flow.link l).target}"
  record [("blocks", orNull blocks), ("ops", orNull ops), ("links", orNull links), ("nargs", nat (p.flow.graph g).signature.arity)]

def checkGraphs (d : Document) : Document :=
  let s := load d []
  let (g, s) := (buildGraph (toTemplate s.names d) (d.get "name").toText (toSignature d) []).run s
  let p := s.prog
  let flow := if (d.get "nostart").isTrue then p.flow.updateGraph g fun k => { k with start := none } else p.flow
  let flow := if (d.get "badreturn").isTrue then flow.updateBlock (flow.graph g).ret fun k => { k with inputs := [] } else flow
  answer ((flow.checkGraph g).map fun _ => graphDoc { p with flow } g)

end FlowCompiler.Script
