import FlowCompiler.Script.Basic
import FlowCompiler.Trace.Execute

/-!
# Traces in scripts

A script names classes, layouts, functions, objects and boxes; operations mention them by name.  In
answers what has a name is shown by it, and what the compiler made is numbered in the order in which it
is shown.
-/

namespace FlowCompiler.Script

open Document
open Trace (Box Const Value Descr Op Opcode Store Ref Object StoreM)

structure TraceNames where
  classes : List (String × Ref) := []
  sizes : List (String × Nat) := []
  fields : List (String × Nat) := []
  arrays : List (String × Nat) := []
  calls : List (String × Nat) := []
  functions : List (String × Ref) := []
  objects : List (String × Ref) := []
  boxes : List (String × Box) := []
  /-- Results that later steps mention. -/
  vars : List (String × Option Value) := []
  /-- Descriptors that exist only by name. -/
  descrs : List (String × Descr) := []
  watches : List (String × Nat) := []
deriving Inhabited

structure TraceWorld where
  store : Store := {}
  names : TraceNames := {}
  /-- What was shown without having a name, in order. -/
  newBoxes : Array Box := #[]
  newDescrs : Array Descr := #[]
  newObjects : Array Ref := #[]
deriving Inhabited

abbrev TraceM := EStateM Failure TraceWorld

def onTraceStore {α : Type} (m : StoreM α) : TraceM α := fun w =>
  let s := w.store
  let w := { w with store := {} }
  match m.run s with
  | .ok a s => .ok a { w with store := s }
  | .error f s => .error f { w with store := s }

def traceNames : TraceM TraceNames := return (← get).names
def traceStore : TraceM Store := return (← get).store

def changeNames (f : TraceNames → TraceNames) : TraceM Unit := modify fun w => { w with names := f w.names }

def found {α : Type} [Inhabited α] (xs : List (String × α)) (name : String) : α := (xs.lookup name).getD default

/-! ## Reading -/

def toKind (s : String) : Trace.Kind := Trace.Kind.ofLetter ((s.toList.head?).getD 'v')

/-- The box of a name, made when it is first mentioned; its kind is its first letter. -/
def boxOf (name : String) : TraceM Box := do
  match (← traceNames).boxes.lookup name with
  | some b => pure b
  | none => do
    let b ← onTraceStore (Store.newBox (toKind name))
    changeNames fun n => { n with boxes := n.boxes ++ [(name, b)] }
    pure b

def boxesOf (d : Document) : TraceM (List Box) := d.texts.mapM boxOf

def constOfDoc (d : Document) : TraceM Const := do
  let n ← traceNames
  match d with
  | .int _ => pure (.int d.toWord)
  | d =>
    if d.has "i" then pure (.int (d.get "i").toWord)
    else if d.has "f" then pure (.float (toDouble (d.get "f")))
    else if d.has "s" then return .ptr (some (← onTraceStore (Store.intern (Store.charsOf (d.get "s").toText) false)))
    else if d.has "u" then return .ptr (some (← onTraceStore (Store.intern (Store.charsOf (d.get "u").toText) true)))
    else if d.has "o" then
      let name := (d.get "o").toText
      pure (.ptr (some (found (n.objects ++ n.functions) name)))
    else if d.has "c" then pure (.ptr (some (found n.classes (d.get "c").toText)))
    else pure .null

def valueOf (d : Document) : TraceM (Option Value) := do
  match d with
  | .null => pure none
  | .text s =>
    if s.startsWith "$" then return found (← traceNames).vars s
    else return some (.box (← boxOf s))
  | d => return some (.const (← constOfDoc d))

def valuesOf (d : Document) : TraceM (List (Option Value)) := d.items.mapM valueOf

/-- Values of which none is missing. -/
def argsOf (d : Document) : TraceM (List Value) := return (← valuesOf d).map fun v => v.getD default

/-- The part of a text after the first of a character, and that before it. -/
def splitAt (s : String) (c : Char) : String × String :=
  let cs := s.toList
  (String.ofList (cs.takeWhile (· ≠ c)), String.ofList ((cs.dropWhile (· ≠ c)).drop 1))

/-- A descriptor made on the first mention of its name. -/
def namedDescr (name : String) (make : TraceM Descr) : TraceM Descr := do
  match (← traceNames).descrs.lookup name with
  | some d => pure d
  | none => do
    let d ← make
    changeNames fun n => { n with descrs := n.descrs ++ [(name, d)] }
    pure d

def cellOf (name : String) : TraceM Descr :=
  namedDescr ("l:" ++ name) do return .cell (← onTraceStore Store.newCell)

def watchOf (name : String) : TraceM (Option Nat) := do
  if name = "" then pure none
  else match (← traceNames).watches.lookup name with
    | some w => pure (some w)
    | none => do
      let w ← onTraceStore Store.newWatch
      changeNames fun n => { n with watches := n.watches ++ [(name, w)] }
      pure (some w)

def makeQuasi (s : String) : TraceM Descr := do
  let (object, rest) := splitAt s '/'
  let (field, watch) := splitAt rest '/'
  let n ← traceNames
  let r := found n.objects object
  let f := found n.fields field
  let watch ← watchOf watch
  let st ← traceStore
  let seen := match st.object r with
    | .struct _ _ fs => st.getField fs f
    | _ => default
  onTraceStore (modifyGet fun s => (.quasi s.quasis.size, { s with quasis := s.quasis.push { object := r, field := f, watch, seen } }))

def makeTarget (s : String) : TraceM Descr := do
  let (cell, name) := splitAt s '/'
  let cell ← if name = "" then pure none else do
    match ← cellOf cell with
    | .cell c => pure (some c)
    | _ => pure none
  return .target (← onTraceStore (Store.newTarget cell))

/-- A descriptor, for an operation with a given opcode. -/
def descrOf (code : Opcode) (d : Document) : TraceM (Option Descr) := do
  match d with
  | .text s =>
    let n ← traceNames
    let (kind, rest) := splitAt s ':'
    match kind with
    | "s" => pure (some (.size (found n.sizes rest)))
    | "f" => pure (some (.field (found n.fields rest)))
    | "a" => pure (some (.array (found n.arrays rest)))
    | "c" => pure (some (.call (found n.calls rest)))
    | "g" => pure (some (.plainGuard (rest.toInt?.getD 0)))
    | "x" => pure (some (.plainFinal (rest.toInt?.getD 0)))
    | "G" => return some (← namedDescr s do return .guard (← onTraceStore (Store.newGuard code)))
    | "l" => return some (← cellOf rest)
    | "t" => return some (← namedDescr s (makeTarget rest))
    | "q" => return some (← namedDescr s (makeQuasi rest))
    | "done" => pure (some (.done (toKind rest)))
    | "exit" => pure (some (if rest = "exc" then .exitException else .propagateException))
    | _ => pure none
  | _ => pure none

def opcodeOf (s : String) : Opcode := (Opcode.ofName? s).getD default

def opOf (d : Document) : TraceM Op := do
  let code := opcodeOf (d.nth 1).toText
  let args ← argsOf (d.nth 2)
  let result ← match d.nth 0 with
    | .text s => do pure (some (← boxOf s))
    | _ => pure none
  let descr ← descrOf code (d.nth 3)
  let fail ← if (d.nth 4).isNull then pure none else do pure (some (← valuesOf (d.nth 4)))
  pure { code, args, result, descr, fail }

def opsOf (d : Document) : TraceM (List Op) := d.items.mapM opOf

/-! ## The world -/

def addClass (d : Document) : TraceM Unit := do
  let n ← traceNames
  let name := (d.nth 0).toText
  let r ← onTraceStore (Store.newObject (.cls name ((d.nth 1).text?.map (found n.classes))))
  changeNames fun n => { n with classes := n.classes ++ [(name, r)] }

def addField (struct : String) (size : Nat) (d : Document) : TraceM Unit := do
  let name := (d.nth 0).toText
  let f ← onTraceStore (modifyGet fun s =>
    (s.fields.size, { s with fields := s.fields.push { name, parent := size, kind := toKind (d.nth 1).toText } }))
  changeNames fun n => { n with fields := n.fields ++ [(struct ++ "." ++ name, f)] }

def addStruct (d : Document) : TraceM Unit := do
  let n ← traceNames
  let name := (d.get "name").toText
  let cls := (d.find? "class").map fun c => found n.classes c.toText
  let i ← onTraceStore (modifyGet fun s => (s.sizes.size, { s with sizes := s.sizes.push { name, cls } }))
  changeNames fun n => { n with sizes := n.sizes ++ [(name, i)] }
  (d.get "fields").items.forM (addField name i)

def addArray (d : Document) : TraceM Unit := do
  let name := (d.nth 0).toText
  let i ← onTraceStore (modifyGet fun s =>
    (s.arrays.size, { s with arrays := s.arrays.push { name, item := toKind (d.nth 1).toText } }))
  changeNames fun n => { n with arrays := n.arrays ++ [(name, i)] }

/-- What a call may do. -/
def toEffect (d : Document) : TraceM Trace.Effect := do
  let n ← traceNames
  let pick (xs : List (String × Nat)) (k : String) : List Nat := (d.get k).texts.map (found xs)
  let dict ← (d.get "dict").items.mapM fun x => do return (← descrOf .call x).getD default
  let e := Trace.Effect.make
    { level := .ofNumber (if d.has "extra" then (d.get "extra").toNat else 5), special := (d.get "oopspec").toNat,
      readFields := pick n.fields "rf", writeFields := pick n.fields "wf", readArrays := pick n.arrays "ra",
      writeArrays := pick n.arrays "wa", canInvalidate := (d.get "invalidate").isTrue, canCollect := (d.get "collect").isTrue }
  pure { e with dictDescrs := dict }

def kindsOf (s : String) : List Trace.Kind := s.toList.map Trace.Kind.ofLetter

def addCall (d : Document) : TraceM Unit := do
  let name := (d.get "name").toText
  let effect ← match d.find? "effect" with
    | some e => toEffect e
    | none => pure Trace.Effect.randomEffects
  let i ← onTraceStore (Store.newCall
    { name, args := kindsOf (d.get "args").toText, result := toKind (d.get "result").toText, effect })
  changeNames fun n => { n with calls := n.calls ++ [(name, i)] }

def toBehaviour (d : Document) : TraceM (Option Trace.Behaviour) := do
  let n ← traceNames
  let num (i : Nat) : Nat := (d.nth i).toNat
  match (d.nth 0).toText with
  | "arg" => pure (some (.arg (num 1)))
  | "const" => return some (.const (← valueOf (d.nth 1)))
  | "sum" => pure (some .sum)
  | "none" => pure (some .nothing)
  | "raise" => pure (some (.raise (((d.nth 1).text?).map (found n.objects))))
  | "error" => pure (some (.fail (d.nth 1).toText))
  | "set" => pure (some (.set (num 1) (found n.fields (d.nth 2).toText) (num 3)))
  | "force" => return some (.force (num 1) (← valueOf (d.nth 2)))
  | _ => pure none

/-- Functions are entered first without and then with what they do, which may mention objects. -/
def addFunction (d : Document) : TraceM Unit := do
  let name := (d.nth 0).toText
  let r ← onTraceStore (Store.newObject (.func name none))
  changeNames fun n => { n with functions := n.functions ++ [(name, r)] }

def fillFunction (d : Document) : TraceM Unit := do
  let name := (d.nth 0).toText
  let b ← toBehaviour (d.nth 1)
  let r := found (← traceNames).functions name
  onTraceStore (modify fun s => s.updateObject r fun _ => .func name b)

def makeObject (d : Document) : TraceM Object := do
  let n ← traceNames
  if d.has "struct" then
    let size := found n.sizes (d.get "struct").toText
    pure (.struct (some size) ((← traceStore).size size).cls [])
  else if d.has "array" then
    let a := found n.arrays (d.get "array").toText
    pure (.array a (Array.replicate (d.get "len").toNat (.const (.zero ((← traceStore).array a).item))))
  else if d.has "str" then pure (.str (Store.charsOf (d.get "str").toText) false)
  else if d.has "uni" then pure (.str (Store.charsOf (d.get "uni").toText) true)
  else
    let c := (d.get "bare").toText
    pure (.struct none (n.classes.lookup c) [])

def addObjectDoc (d : Document) : TraceM Unit := do
  let name := (d.get "name").toText
  let o ← makeObject d
  let r ← onTraceStore (Store.newObject o)
  changeNames fun n => { n with objects := n.objects ++ [(name, r)] }

def fillObject (d : Document) : TraceM Unit := do
  let n ← traceNames
  let r := found n.objects (d.get "name").toText
  for (name, v) in (d.get "fields").fields do
    let v := (← valueOf v).getD .null
    let f := found n.fields name
    onTraceStore (modify fun s => s.updateObject r fun
      | .struct d c fs => .struct d c (Store.setField fs f v)
      | o => o)
  for (v, i) in (d.get "items").items.zipIdx do
    let v := (← valueOf v).getD .null
    onTraceStore (modify fun s => s.updateObject r fun
      | .array d items => .array d (if i < items.size then items.setIfInBounds i v else items.push v)
      | o => o)

def addBoxDoc (d : Document) : TraceM Unit := do
  match d with
  | .text s => do let _ ← boxOf s
  | d => do
    let b ← boxOf (d.nth 0).toText
    let c ← constOfDoc (d.nth 1)
    onTraceStore (Store.record b c)

/-- Everything that a script declares. -/
def loadTraceWorld (d : Document) : TraceM Unit := do
  (d.get "classes").items.forM addClass
  (d.get "structs").items.forM addStruct
  (d.get "arrays").items.forM addArray
  (d.get "calls").items.forM addCall
  (d.get "funcs").items.forM addFunction
  (d.get "objects").items.forM addObjectDoc
  (d.get "objects").items.forM fillObject
  (d.get "funcs").items.forM fillFunction
  (d.get "boxes").items.forM addBoxDoc

/-! ## Showing -/

/-- The number of something shown without a name, counted from one. -/
def numberIn {α : Type} [BEq α] (xs : Array α) (x : α) : Nat × Array α :=
  match xs.findIdx? (· == x) with
  | some i => (i + 1, xs)
  | none => (xs.size + 1, xs.push x)

def nameOf? {α : Type} [BEq α] (xs : List (String × α)) (x : α) : Option String := (xs.find? fun p => p.2 == x).map Prod.fst

def showBox (b : Box) : TraceM String := do
  match nameOf? (← traceNames).boxes b with
  | some n => pure n
  | none => modifyGet fun w =>
    let (i, newBoxes) := numberIn w.newBoxes b
    (s!"{b.kind.letter}#{i}", { w with newBoxes })

def showChar (c : Int) : String :=
  if 32 ≤ c && c < 127 && c ≠ 92 && c ≠ 39 then String.singleton (Char.ofNat c.toNat) else s!"\\\x7b{c}\x7d"

def showChars (cs : List Int) (unicode : Bool) : String :=
  (if unicode then "u'" else "s'") ++ String.join (cs.map showChar) ++ "'"

/-- An object by name, or by number. -/
def showRef (r : Ref) : TraceM String := do
  let n ← traceNames
  match nameOf? (n.objects ++ n.functions) r with
  | some name => pure ("@" ++ name)
  | none =>
    match (← traceStore).object r with
    | .cls name _ => pure ("class " ++ name)
    | .str cs u => pure (showChars cs u)
    | .func name _ => pure ("@@" ++ name)
    | .frameToken _ => pure "<force token>"
    | _ => modifyGet fun w =>
      let (i, newObjects) := numberIn w.newObjects r
      (s!"&{i}", { w with newObjects })

def showConst : Const → TraceM String
  | .int n => pure s!"={n.toInt}"
  | .float d => pure (if d.isNaN then "=fnan" else "=f" ++ Quoted.hexFixed 16 d.bits.toNat)
  | .ptr none => pure "=NULL"
  | .ptr (some r) => return "=" ++ (← showRef r)

def showValue : Value → TraceM String
  | .box b => showBox b
  | .const c => showConst c

def valueDoc : Option Value → TraceM Document
  | none => pure null
  | some v => return text (← showValue v)

def valueDocs (vs : List (Option Value)) : TraceM Document := return list (← vs.mapM valueDoc)

def showDescr (d : Descr) : TraceM String := do
  let n ← traceNames
  let fromNames (k : String) (xs : List (String × Nat)) (i : Nat) : TraceM String :=
    match nameOf? xs i with
    | some name => pure (k ++ name)
    | none => return (← traceStore).descrText d
  let numbered (k : String) : TraceM String :=
    match nameOf? n.descrs d with
    | some name => pure name
    | none => modifyGet fun w =>
      let (i, newDescrs) := numberIn w.newDescrs d
      (s!"{k}#{i}", { w with newDescrs })
  match d with
  | .size i => fromNames "s:" n.sizes i
  | .field i => fromNames "f:" n.fields i
  | .array i => fromNames "a:" n.arrays i
  | .call i => fromNames "c:" n.calls i
  | .plainGuard k => pure s!"g:{k}"
  | .plainFinal k => pure s!"x:{k}"
  | .guard _ => numbered "G"
  | .cell _ => numbered "l"
  | .target _ => numbered "t"
  | .quasi _ => numbered "q"
  | d => return (← traceStore).descrText d

def descrDoc : Option Descr → TraceM Document
  | none => pure null
  | some d => return text (← showDescr d)

def opDoc (op : Op) : TraceM Document := do
  let args ← op.args.mapM showValue
  let result ← match op.result with
    | some b => do pure (text (← showBox b))
    | none => pure null
  let descr ← descrDoc op.descr
  let fail ← match op.fail with
    | some vs => do pure [← valueDocs vs]
    | none => pure []
  pure (list ([result, text op.code.name, ofTexts args, descr] ++ fail))

def opsDoc (ops : List Op) : TraceM Document := return list (← ops.mapM opDoc)

/-! ## The heap -/

def objectDoc (name : String) (r : Ref) : TraceM Document := do
  let s ← traceStore
  let n ← traceNames
  match s.object r with
  | .struct size cls fields => do
    let sorted := fields.mergeSort fun a b => a.1 ≤ b.1
    let fs ← sorted.mapM fun (f, v) => do pure (list [text (s.field f).name, text (← showValue v)])
    let size := (size.map fun d => text (((nameOf? n.sizes d)).getD (s.size d).name)).getD null
    pure (list [text name, text "struct", size, (cls.map fun c => text (s.className c)).getD null, list fs])
  | .array d items => do
    let vs ← items.toList.mapM showValue
    pure (list [text name, text "array", text ((nameOf? n.arrays d).getD (s.array d).name), ofTexts vs])
  | .str cs u => pure (list [text name, text "str", text (showChars cs u)])
  | _ => pure (list [text name, text "other", text (s.objectText r)])

/-- The objects without a name from a number on; showing one may bring up more. -/
def newObjectDocs : (fuel : Nat) → (next : Nat) → TraceM (List Document)
  | 0, _ => pure []
  | n + 1, i => do
    match (← get).newObjects[i]? with
    | none => pure []
    | some r => do
      let d ← objectDoc s!"&{i + 1}" r
      return d :: (← newObjectDocs n (i + 1))

def heapDoc : TraceM Document := do
  let named := (← traceNames).objects.mergeSort fun a b => a.1 ≤ b.1
  let ds ← named.mapM fun (name, r) => objectDoc ("@" ++ name) r
  let more ← newObjectDocs ((← traceStore).objects.size + 1) 0
  pure (list (ds ++ more))

/-! ## Resume data -/

def shapeDoc (s : Trace.Shape Trace.Tagged) : TraceM Document := do
  let st ← traceStore
  let n ← traceNames
  let size := s.size.map fun d => ("size", text ((nameOf? n.sizes d).getD (st.size d).name))
  let cls := s.cls.map fun c => ("class", text (st.className c))
  let array := s.array.map fun a => ("array", text ((nameOf? n.arrays a).getD (st.array a).name))
  let unicode := if s.unicode then [("unicode", bool true)] else []
  let fields := if s.fields.isEmpty then [] else [("fields", ofTexts (s.fields.map fun f => (st.field f).name))]
  pure (record ([("kind", nat s.kind.number), ("nums", ofTexts (s.items.map Trace.Tagged.text))]
    ++ size.toList ++ cls.toList ++ array.toList ++ unicode ++ fields))

def pendingDoc (p : Trace.Pending Trace.Tagged) : TraceM Document := do
  let index : Int := p.index.getD (-1)
  pure (list [text (← showDescr p.descr), text p.target.text, text p.value.text, int index])

def resumeDoc (d : Trace.ResumeData) : TraceM Document := do
  let consts ← d.consts.toList.mapM showConst
  let virtuals ← d.virtuals.toList.mapM shapeDoc
  let pending ← d.pending.mapM pendingDoc
  let live ← d.live.toList.mapM showBox
  pure (record [("numbering", ofTexts (d.numbering.map Trace.Tagged.text)), ("consts", ofTexts consts),
    ("virtuals", list virtuals), ("pending", list pending), ("live", ofTexts live)])

/-! ## Answering -/

/-- Answers a request about traces; a failure is the whole answer. -/
def traceAnswer (d : Document) (m : TraceM Document) : Document :=
  match (do loadTraceWorld d; m).run {} with
  | .ok r _ => succeeded r
  | .error f _ => failed f

/-- A failure as an entry of an answer. -/
def traceTry (m : TraceM Document) : TraceM Document := tryCatch m fun f => pure (failed f)

end FlowCompiler.Script
