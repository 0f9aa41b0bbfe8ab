import FlowCompiler.LowLevel.Database
import FlowCompiler.Script.Basics

/-!
# Showing low-level values

Containers have no names of their own, so they are numbered in the order in which they are first
shown.
-/

namespace FlowCompiler.Script

open Document

/-- The containers shown so far. -/
abbrev Shown := Array ContainerId

abbrev ShowM := StateM Shown

/-- The number of a container. -/
def containerNumber (c : ContainerId) : ShowM Nat := fun s =>
  match s.findIdx? (· == c) with
  | some i => (i, s)
  | none => (s.size, s.push c)

def doubleText (d : Double) : String := if d.isNaN then "nan" else Quoted.hexFixed 16 d.bits.toNat

/-- A value that needs no numbering. -/
def plainText? : Datum → Option String
  | .nil => some "nil"
  | .int n => some (toString n.toInt)
  | .uint n => some (toString n.toNat ++ "u")
  | .float d => some ("f:" ++ doubleText d)
  | .bool b => some (Types.boolText b)
  | .byte b => some s!"c:{b.toNat}"
  | .rune c => some s!"u:{c}"
  | .str s => some (Quoted.quote s)
  | .address a => some s!"a:{a}"
  | _ => none

/-- A value as it is shown. -/
def shownText (low : LowStore) (d : Datum) : ShowM String := do
  match d with
  | .ptr p =>
    match p.obj with
    | none => pure ("NULL:" ++ low.types.text (.ptr p.pointee))
    | some c =>
      if (low.get c).name ≠ "" then pure ("@" ++ (low.get c).name)
      else
        let k ← containerNumber c
        pure s!"&{k}:{low.types.text (.ptr p.pointee)}"
  | .container c => do
    let k ← containerNumber c
    pure s!"#{k}:{low.types.nodeName (low.get c).type}"
  | .type t => pure (low.types.text t)
  | d => pure ((plainText? d).getD "")

/-- A container with its contents, nested ones down to a depth. -/
def dumpAux (low : LowStore) : (depth : Nat) → Datum → ShowM Document
  | 0, d => return text (← shownText low d)
  | n + 1, d => do
    match d with
    | .container c => do
      let o := low.get c
      let k ← containerNumber c
      let fields ← o.fields.toList.mapM (dumpAux low n)
      let items ← o.items.toList.mapM (dumpAux low n)
      let base := [("obj", nat k), ("type", text (low.types.nodeName o.type))]
      let (fs, is) := match low.types.container o.type with
        | .struct _ _ _ _ => ([("fields", list fields)], [])
        | .array _ _ _ _ => ([], [("items", list items)])
        | .fixed _ _ => ([], [("items", list items)])
        | _ => ([], [])
      let im := if o.immortal then [("immortal", bool true)] else []
      pure (record (base ++ fs ++ is ++ im))
    | d => return text (← shownText low d)

def dumpDoc (low : LowStore) (d : Datum) : ShowM Document := dumpAux low 6 d

/-! ## The database -/

/-- A value inside the database: pointers to its containers show by name. -/
def databaseValue (low : LowStore) (db : Database) : (fuel : Nat) → Datum → ShowM Document
  | 0, _ => pure null
  | n + 1, d => do
    match d with
    | .container c => do
      let o := low.get c
      return list (← (o.fields.toList ++ o.items.toList).mapM (databaseValue low db n))
    | .ptr p =>
      match db.nodeOf? low p with
      | some node => pure (text ("&" ++ node.name))
      | none => return text (← shownText low d)
    | d => return text (← shownText low d)

def gcInfoDoc : Option GcInfo → Document
  | none => null
  | some g => record [("type_id", int g.typeId), ("finalizer", bool g.hasFinalizer), ("light", bool g.lightFinalizer),
      ("weakref", bool g.isWeakRef), ("dealloc", text g.deallocator)]

def defDoc (d : DefNode) : Document :=
  record [("name", text d.cname), ("kind", text d.kind.text), ("header", text (d.header.getD "")),
    ("fields", list (d.fields.map fun (n, t) => list [text n, text t])), ("item", text d.item), ("gc", gcInfoDoc d.gc)]

def containerDoc (low : LowStore) (db : Database) (n : ContainerNode) : ShowM Document := do
  let o := low.get n.obj
  let fuel := low.containers.size + 2
  let header ← n.header.mapM fun v => return text (← shownText low v)
  let fields ← o.fields.toList.mapM (databaseValue low db fuel)
  let items ← o.items.toList.mapM (databaseValue low db fuel)
  pure (record [("name", text n.name), ("type", text (low.types.nodeName o.type)), ("header", list header),
    ("fields", list fields), ("items", list items)])

/-- The whole database; an empty build information is left out. -/
def databaseDoc (low : LowStore) (db : Database) : ShowM Document := do
  let cs ← db.containers.mapM (containerDoc low db)
  let eci := if db.buildInfo.isEmpty then [] else [("eci", buildInfoDoc db.buildInfo)]
  pure (record ([("gc", text db.policy.name), ("types", list (db.defs.map defDoc)), ("containers", list cs),
    ("functions", ofTexts (db.funcs.map FuncNode.name)), ("external", ofTexts db.external),
    ("startup", ofTexts db.policy.startup)] ++ eci))

end FlowCompiler.Script
