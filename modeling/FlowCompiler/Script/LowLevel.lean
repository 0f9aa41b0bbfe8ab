import FlowCompiler.LowLevel.Operation
import FlowCompiler.LowLevel.Validity
import FlowCompiler.Script.Shown

/-!
# Scripts on low-level types and values
-/

namespace FlowCompiler.Script

open Document

/-! ## Operations -/

def lowOpDoc (name : String) : Document :=
  match LowOp.lookup? name with
  | none => null
  | some op => record [("name", text op.name), ("fold", bool op.canFold), ("side", bool op.sideEffects),
      ("raise", ofTexts op.raises), ("can_raise", bool op.canRaise), ("pure", bool op.isPure), ("malloc", bool op.canMalloc)]

def lowOps (d : Document) : Document :=
  if (d.get "names").isTrue then succeeded (ofTexts LowOp.names)
  else succeeded (list ((d.get "ops").texts.map lowOpDoc))

/-! ## Types and values -/

structure LowScript where
  prog : Program := {}
  types : List (String × LowType) := []
  values : List (String × Datum) := []
  interner : Interner := .initial
  shown : Shown := #[]
  policyName : String := "framework"
  noTypePtr : Bool := false
  rtti : List (NodeId × Rtti) := []
  db : Option Database := none

abbrev LowM := EStateM Failure LowScript

def lowTypes : LowM Types := return (← get).prog.low.types
def lowStore : LowM LowStore := return (← get).prog.low

def setLow (low : LowStore) : LowM Unit := modify fun s => { s with prog := { s.prog with low } }

def onLow {α : Type} (act : LowStore.M α) : LowM α := do
  let (a, low) := act.run (← lowStore)
  setLow low
  pure a

def showing {α : Type} (act : ShowM α) : LowM α := do
  let s ← get
  let (a, shown) := act.run s.shown
  set { s with shown }
  pure a

def shownDoc (v : Datum) : LowM Document := do
  let low ← lowStore
  return text (← showing (shownText low v))

/-- The container of a type that is one. -/
def nodeOf : LowType → NodeId
  | .node id => id
  | _ => 0

def structHints (d : Document) : StructHints :=
  { immutable := (d.get "immutable").isTrue, immutableFields := (d.get "immutable_fields").texts,
    typePtr := (d.get "typeptr").isTrue, rtti := (d.get "rtti").isTrue, final := (d.get "final").isTrue }

/-- The type that a document stands for; every mention of an object makes a new type. -/
def toType : (fuel : Nat) → Document → LowM LowType
  | 0, _ => pure LowType.void
  | n + 1, d => do
    let flag (k : String) : Bool := (d.get k).isTrue
    let add (t : TypeNode) : LowM LowType := return .node (← onLow (LowStore.addType t))
    match d with
    | .text name => pure (((← get).types.lookup name <|> LowType.named.lookup name).getD LowType.void)
    | _ =>
      if d.has "ptr" then return .ptr (nodeOf (← toType n (d.get "ptr")))
      else if d.has "struct" then do
        let fields ← (d.get "fields").items.mapM fun f => do pure ((f.nth 0).toText, ← toType n (f.nth 1))
        add (.struct (d.get "struct").toText fields (structHints d) (flag "gc"))
      else if d.has "array" then add (.array (← toType n (d.get "array")) (flag "nolength") (flag "immutable") (flag "gc"))
      else if d.has "fixed" then add (.fixed (← toType n (d.get "fixed")) (d.get "n").toInt)
      else if d.has "func" then do
        let args ← (d.get "func").items.mapM (toType n)
        add (.func args (← toType n (d.get "result")))
      else if d.has "opaque" then
        let probe := if flag "gc" then none else (d.find? "size").map toInt
        add (.handle (d.get "opaque").toText (flag "gc") probe)
      else if d.has "weakref" then do
        match ← toType n (d.get "weakref") with
        | .ptr pointee => do
          let (id, types) ← liftExcept ((← lowTypes).makeWeakRef pointee)
          modify fun s => { s with prog := { s.prog with low := { s.prog.low with types } } }
          pure (.node id)
        | _ => pure LowType.void
      else if d.has "group" then do
        let ms ← (d.get "members").items.mapM (toType n)
        add (.group (d.get "group").toText (ms.map nodeOf))
      else if d.has "forward" then add (.forward (flag "gc") none)
      else if d.has "int" then pure (LowType.integer (d.get "int").toNat (flag "signed"))
      else pure LowType.void

def typeArg (d : Document) (i : Nat) : LowM LowType := toType 64 (d.nth i)

def valueArg (d : Document) : LowM Datum := do
  if d.has "i" then pure (.int (d.get "i").toWord)
  else if d.has "u" then pure (.uint (d.get "u").toUnsigned)
  else if d.has "f" then pure (.float (toDouble (d.get "f")))
  else if d.has "b" then pure (.bool (d.get "b").isTrue)
  else if d.has "c" then pure (.byte (UInt8.ofNat (d.get "c").toNat))
  else if d.has "r" then pure (.rune (d.get "r").toInt)
  else if d.has "a" then pure (.address (d.get "a").toNat)
  else if d.has "v" then pure (((← get).values.lookup (d.get "v").toText).getD .nil)
  else pure .nil

def pointerArg (d : Document) : LowM PtrValue := do
  match (← get).values.lookup d.toText with
  | some (.ptr p) => pure p
  | _ => pure default

def nameValue (name : String) (v : Datum) : LowM Unit := modify fun s => { s with values := (name, v) :: s.values }

def kindText : TypeNode → String
  | .struct _ _ _ _ => "Struct"
  | .array _ _ _ _ => "Array"
  | .fixed _ _ => "FixedArray"
  | .func _ _ => "Func"
  | .handle _ _ _ => "Opaque"
  | .weakref _ => "WeakRef"
  | .group _ _ => "Group"
  | .forward _ _ => "Forward"

def typeInfo (named : LowType) : LowM Document := do
  let s ← lowTypes
  let t := s.resolve named
  let base (kind : String) : List (String × Document) :=
    [("string", text (s.text t)), ("kind", text kind), ("container", bool (Types.isContainer t)), ("gcptr", bool (s.isGCPtr t))]
  match t with
  | .prim p => pure (record (base "Primitive" ++ [("bits", nat p.bits), ("signed", bool p.signed),
      ("int", bool p.isInteger), ("float", bool p.isFloat)]))
  | .ptr pointee => pure (record (base "Ptr" ++ [("ptrgc", bool (s.isGC pointee))]))
  | .node id =>
    let extra := match s.node id with
      | .struct _ _ _ gc => [("varfield", text (s.varField id)), ("header", bool gc),
          ("ancestors", ofTexts ((s.ancestors id).filterMap s.structName?))]
      | .array _ bare _ _ => [("haslength", bool !bare)]
      | _ => []
    pure (record (base (kindText (s.node (nodeOf named))) ++ [("gc", bool (s.isGC id)), ("varsized", bool (s.isVarSized id))] ++ extra))

/-! ## Steps -/

def lowTypeSteps : List (String × (Document → LowM Document)) :=
  [ ("def", fun d => do
      let t ← typeArg d 2
      modify fun s => { s with types := ((d.nth 1).toText, t) :: s.types }
      return text ((← lowTypes).text t)),
    ("become", fun d => do
      let f ← typeArg d 1
      let t ← typeArg d 2
      let types ← liftExcept ((← lowTypes).become (nodeOf f) (nodeOf t))
      modify fun s => { s with prog := { s.prog with low := { s.prog.low with types } } }
      pure (bool true)),
    ("groupadd", fun d => do
      let g := nodeOf (← typeArg d 1)
      let m := nodeOf (← typeArg d 2)
      let s ← lowTypes
      match s.node g with
      | .group name ms => do
        modify fun st => { st with prog := { st.prog with low := { st.prog.low with types := s.set g (.group name (ms ++ [m])) } } }
        pure (nat ms.length)
      | _ => pure null),
    ("info", fun d => do typeInfo (← typeArg d 1)),
    ("validate", fun d => do
      let t ← typeArg d 1
      liftExcept ((← lowTypes).validate t)
      pure (bool true)),
    ("equal", fun d => do
      let a ← typeArg d 1
      let b ← typeArg d 2
      return bool ((← lowTypes).equal a b)),
    ("makeptr", fun d => do
      let t ← typeArg d 1
      let s ← lowTypes
      return text (s.text (← liftExcept (s.makePtr (nodeOf t) (d.nth 2).isTrue)))),
    ("intern", fun d => do
      let t ← typeArg d 1
      let s ← lowTypes
      let (i, r) := (← get).interner.intern s t
      modify fun st => { st with interner := i }
      let k := (i.entries.findIdx? fun e => e.2 == r).getD 0
      pure (list [nat k, nat i.entries.length, text (s.text r)])),
    ("lookup", fun d => do
      let t ← typeArg d 1
      let i := (← get).interner
      pure (match i.lookup (← lowTypes) t with
        | some r => nat ((i.entries.findIdx? fun e => e.2 == r).getD 0)
        | none => null)),
    ("names", fun _ => do return ofTexts ((← get).interner.names (← lowTypes))),
    ("field", fun d => do
      let id := nodeOf (← typeArg d 1)
      let s ← lowTypes
      let name := (d.nth 2).toText
      pure (list [ofOptText ((s.fieldType? id name).map s.text),
        int (((s.fieldIndex? id name).map fun n => (n : Int)).getD (-1)), bool (s.isImmutableField id name)])),
    ("issub", fun d => do
      let a ← typeArg d 1
      let b ← typeArg d 2
      return bool ((← lowTypes).isSubStruct (nodeOf a) (nodeOf b))),
    ("size", fun d => do
      let t ← typeArg d 1
      return int (← liftExcept ((← lowTypes).handleSize (nodeOf t)))) ]

def lowValueSteps : List (String × (Document → LowM Document)) :=
  [ ("default", fun d => do
      let v ← onLow (LowStore.defaultValue (← typeArg d 1))
      let low ← lowStore
      showing (dumpDoc low v)),
    ("malloc", fun d => do
      let t ← typeArg d 2
      let p ← liftExcept (← onLow (LowStore.malloc (nodeOf t) (d.nth 3).toInt))
      nameValue (d.nth 1).toText (.ptr p)
      shownDoc (.ptr p)),
    ("null", fun d => do
      match ← typeArg d 2 with
      | .ptr pointee => do
        nameValue (d.nth 1).toText (.ptr (.null pointee))
        shownDoc (.ptr (.null pointee))
      | _ => pure null),
    ("funcptr", fun d => do
      let t ← typeArg d 2
      let p ← onLow (LowStore.functionPtr (nodeOf t) (d.nth 3).toText none)
      nameValue (d.nth 1).toText (.ptr p)
      pure (text ("*" ++ (d.nth 3).toText))),
    ("set", fun d => do
      let p ← pointerArg (d.nth 1)
      let v ← valueArg (d.nth 3)
      setLow (← liftExcept ((← lowStore).setField p (d.nth 2).toText v))
      pure (bool true)),
    ("get", fun d => do
      let p ← pointerArg (d.nth 1)
      let v ← liftExcept ((← lowStore).getField p (d.nth 2).toText)
      if (d.nth 3).given then nameValue (d.nth 3).toText v
      shownDoc v),
    ("len", fun d => do
      let p ← pointerArg (d.nth 1)
      return nat (← liftExcept ((← lowStore).length p)).2),
    ("getitem", fun d => do
      let p ← pointerArg (d.nth 1)
      shownDoc (← liftExcept ((← lowStore).getItem p (d.nth 2).toInt))),
    ("setitem", fun d => do
      let p ← pointerArg (d.nth 1)
      let v ← valueArg (d.nth 3)
      setLow (← liftExcept ((← lowStore).setItem p (d.nth 2).toInt v))
      pure (bool true)),
    ("cast", fun d => do
      match ← typeArg d 2 with
      | .ptr pointee => do
        let p ← pointerArg (d.nth 3)
        let q ← liftExcept ((← lowStore).castPointer pointee p)
        nameValue (d.nth 1).toText (.ptr q)
        shownDoc (.ptr q)
      | _ => pure null),
    ("top", fun d => do
      let p ← pointerArg (d.nth 1)
      match p.obj with
      | some c => shownDoc (.container ((← lowStore).top c))
      | none => pure null),
    ("dump", fun d => do
      let p ← pointerArg (d.nth 1)
      let low ← lowStore
      match p.obj with
      | some c => showing (dumpDoc low (.container c))
      | none => shownDoc (.ptr p)) ]

/-- The database, made on first use. -/
def database : LowM Database := do
  let s ← get
  match s.db with
  | some db => pure { db with rtti := s.rtti }
  | none =>
    let policy ← liftExcept (GcPolicy.ofName s.policyName s.noTypePtr)
    let db : Database := { policy, rtti := s.rtti }
    modify fun s => { s with db := some db }
    pure db

def setDatabase (db : Database) : LowM Unit := modify fun s => { s with db := some db }

def onDatabase {α : Type} (act : Database.M α) : LowM α := do
  let db ← database
  match (act (← get).prog).run db with
  | .ok a db => setDatabase db; pure a
  | .error f db => setDatabase db; throw f

def lowDatabaseSteps : List (String × (Document → LowM Document)) :=
  [ ("typename", fun d => do
      let t ← typeArg d 1
      return text (← onDatabase (Database.typeName t))),
    ("rtti", fun d => do
      let t ← typeArg d 1
      let r : Rtti := { destructor := (d.nth 2).toText, light := (d.nth 3).isTrue }
      modify fun s => { s with rtti := (nodeOf t, r) :: s.rtti }
      pure (bool true)),
    ("addconst", fun d => do
      let p ← pointerArg (d.nth 1)
      setDatabase ((← database).addConstant p)
      pure (bool true)),
    ("addfunc", fun d => do
      let p ← pointerArg (d.nth 1)
      setDatabase ((← database).addFunction p)
      pure (bool true)),
    ("addeci", fun d => do
      setDatabase ((← database).addBuildInfo (toBuildInfo (d.nth 1)))
      pure (bool true)),
    ("complete", fun _ => do
      onDatabase Database.completeAll
      pure (bool true)),
    ("summary", fun _ => do
      let db ← database
      if !db.complete then throw Database.incomplete
      let low ← lowStore
      showing (databaseDoc low db)),
    ("nodeof", fun d => do
      let p ← pointerArg (d.nth 1)
      let low ← lowStore
      pure (match (← database).nodeOf? low p with
        | some n => text (n.name ++ ": " ++ low.types.nodeName (low.get n.obj).type)
        | none => null)),
    ("policy", fun d => do
      let p ← liftExcept (GcPolicy.ofName (d.nth 1).toText (← get).noTypePtr)
      pure (record [("name", text p.name), ("need_no_typeptr", bool p.needNoTypePtr), ("startup", ofTexts p.startup),
        ("eci", buildInfoDoc p.buildInfo), ("names", ofTexts GcPolicy.names)])) ]

def lowSteps : List (String × (Document → LowM Document)) := lowTypeSteps ++ lowValueSteps ++ lowDatabaseSteps

def lowStep (d : Document) : LowM Document :=
  match lowSteps.lookup (d.nth 0).toText with
  | some f => f d
  | none => pure null

def lowLevel (d : Document) : Document :=
  let policy := (d.get "gc").toText
  let start : LowScript :=
    { policyName := if policy = "" then "framework" else policy, noTypePtr := (d.get "no_typeptr").isTrue }
  succeeded (list (runSteps lowStep start (d.get "steps").items).1)

end FlowCompiler.Script
