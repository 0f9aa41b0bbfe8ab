import FlowCompiler.Analysis.Flow
import FlowCompiler.Script.Program

/-!
# Annotations in scripts

Documents describe annotations, and the state of the analysis is shown as documents: annotations with
what is known besides their text, class definitions and the families of calls.
-/

namespace FlowCompiler.Script

open Document

/-! ## Reading -/

/-- What a document may mention by name: parts of the program and annotations given earlier. -/
structure Known where
  names : Names := {}
  refs : List (String × Annot) := []
deriving Inhabited

/-- The value of a constant, containers made anew. -/
def datumOf (k : Known) (d : Document) : Ana Datum := modifyGet fun w =>
  let (ds, host) := w.prog.host.evalLiteral (toLiteral k.names literalDepth d)
  (ds.headD .nil, { w with prog := { w.prog with host } })

def classOf? (k : Known) (d : Document) : Ana (Option ClassDefId) := do
  match d.find? "cls" with
  | some c => return some (← Ana.uniqueClassDef (k.names.cls c.toText))
  | none => pure none

def toIntFact (d : Document) : IntFact :=
  if d.has "const" then .ofConst (d.get "const").toInt
  else if d.has "range" then .ofRange ((d.get "range").nth 0).toInt ((d.get "range").nth 1).toInt
  else if d.has "bits" then .ofWidth (d.get "bits").toNat (d.get "unsigned").isTrue
  else if (d.get "unsigned").isTrue then .ofWidth 64 true
  else .signed (d.get "nonneg").isTrue

/-- An annotation without parts. -/
def plainAnnot? (kind : String) (d : Document) : Option Annot :=
  let t (k : String) : Bool := (d.get k).isTrue
  let const := d.find? "const"
  match kind with
  | "impossible" => some .impossible
  | "none" => some .none
  | "object" => some .object
  | "bool" => some (.bool (const.map isTrue) [])
  | "int" => some (.int (toIntFact d))
  | "char" => some ((const.map fun c => Annot.constChar (UInt8.ofNat c.toNat)).getD (.someChar (t "nonul")))
  | "unichar" => some ((const.map fun c => Annot.constUnichar c.toInt).getD (.someUnichar (t "nonul")))
  | "str" => some ((const.map fun c => Annot.constStr c.toText).getD (.someStr (t "none") (t "nonul")))
  | "unicode" => some ((const.map fun c => Annot.constUnicode c.toText).getD (.someUnicode (t "none") (t "nonul")))
  | _ => none

def sortedSet (xs : List String) : List String := xs.eraseDups.mergeSort (· ≤ ·)

/-- An annotation; annotations are at most `fuel` deep. -/
def toAnnot (k : Known) : (fuel : Nat) → Document → Ana Annot
  | 0, _ => pure .impossible
  | n + 1, d => do
    let kind := match d with
      | .text s => s
      | d => (d.get "k").toText
    let t (name : String) : Bool := (d.get name).isTrue
    let part (name : String) : Ana Annot := match d.find? name with
      | some x => toAnnot k n x
      | none => pure .impossible
    match plainAnnot? kind d with
    | some a => pure a
    | none =>
      match kind with
      | "float" => match d.find? "const" with
        | some c => Ana.constFloat (toDouble c)
        | none => pure .someFloat
      | "tuple" => do Ana.newTuple (← (d.get "items").items.mapM (toAnnot k n))
      | "list" => do return .list (← Ana.newListDef (← part "item") (t "mutated") (t "resized"))
      | "dict" => do
        let key ← part "key"
        let value ← part "value"
        let e ← Ana.newDictDef key value
        modify fun w => { w with dictDefs := w.dictDefs.modify e fun x =>
          { x with forceNonNull := t "nonnull", simple := t "simple", customEqHash := t "custom" } }
        pure (.dict e)
      | "inst" => do return .inst (← classOf? k d) (t "none") (sortedSet (d.get "flags").texts)
      | "pbc" => do
        let ds ← (d.get "descs").items.mapM fun c => do Ana.descOf (← datumOf k c)
        Ana.newPbc ds (t "none")
      | "iter" => do return .iter (← part "of") (d.get "variant").toText
      | "builtin" =>
        if d.has "self" then do return .method (d.get "name").toText (← part "self")
        else pure (.builtin (d.get "name").toText)
      | "type" => match d.find? "const" with
        | some c => do Ana.typeOf (some (← datumOf k c)) []
        | none => pure .someType
      | "weakref" => do return .weakref (← classOf? k d)
      | "ref" => pure ((k.refs.lookup (d.get "name").toText).getD .impossible)
      | _ => pure .impossible

def annotOf (k : Known) (d : Document) : Ana Annot := toAnnot k literalDepth d

/-- The arguments of a call. -/
def toCall (k : Known) (d : Document) : Ana CallArgs := do
  match d with
  | .list xs => return { positional := ← xs.mapM (annotOf k) }
  | d => do
    let positional ← (d.get "pos").items.mapM (annotOf k)
    let keywords ← (d.get "kw").items.mapM fun e => do
      pure ((e.nth 0).toText, ← annotOf k (e.nth 1))
    let star ← match d.find? "star" with
      | some s => do pure (some (← annotOf k s))
      | none => pure none
    pure { positional, keywords, star }

/-! ## Writing -/

def sorted (xs : List String) : List String := xs.mergeSort (· ≤ ·)

def factText (w : World) (f : Fact Annot) : String :=
  s!"{World.boolText f.outcome} {(w.prog.flow.var f.var).name}: {w.annotText f.value}"

/-- The text of an annotation, with the flags, facts and variables that belong to it. -/
def shownAnnot (w : World) (a : Annot) : String :=
  w.annotText a ++ (match a with
    | .inst _ _ (f :: fs) => " flags[" ++ String.intercalate "," (sorted (f :: fs)) ++ "]"
    | .bool _ (f :: fs) => " ktd\x7b" ++ String.intercalate "; " (sorted ((f :: fs).map (factText w))) ++ "\x7d"
    | .type _ (v :: vs) _ =>
      " typeof[" ++ String.intercalate "," ((v :: vs).map fun x => (w.prog.flow.var x).name) ++ "]"
    | .list d =>
      let step := (w.listItem d).step
      if step = noStep then "" else s!" step={step}"
    | _ => "")

def annotDoc (w : World) (a : Annot) : Document := text (shownAnnot w a)

def optAnnotDoc (w : World) (a : Option Annot) : Document := (a.map (annotDoc w)).getD (text "nil")

/-- The attributes of a class that are never written, or the others. -/
def attrsBy (w : World) (c : ClassDefId) (readonly : Bool) : List String :=
  (w.attrNames c).filter fun name => (w.attr ((w.attrOf? c name).getD 0)).readonly == readonly

/-- The state of a class definition. -/
def classDoc (w : World) (c : ClassDefId) : Document :=
  let k := w.classDef c
  let attrs := (w.attrNames c).map fun name =>
    let a := w.attr ((w.attrOf? c name).getD 0)
    list [text name, annotDoc w a.value, bool a.readonly, bool a.allowed, text (w.fieldRank k.desc name).text]
  record [ ("name", text k.name), ("base", ofOptText (k.base.map w.className)),
    ("subs", ofTexts (k.subs.map w.className)), ("attrs", list attrs),
    ("inst", ofTexts (attrsBy w c false)), ("cls", ofTexts (attrsBy w c true)) ]

def rowDoc (w : World) (r : Row) : Document :=
  list ((r.mergeSort fun x y => x.1 ≤ y.1).map fun (d, g) => list [text (w.descText d), text (w.prog.flow.graph g).name])

def familyDoc (w : World) (f : CallFamily) : Document :=
  let shapes := (Ana.sortedTables f).map fun (s, rows) => list [text (HostStore.shapeText s), list (rows.map (rowDoc w))]
  record [ ("descs", ofTexts ((Ana.sortDescs f.descs).map w.descText)), ("shapes", list shapes),
    ("sites", nat f.sites), ("modified", bool f.modified) ]

def familiesDoc (w : World) : Document := list ((Ana.callFamilies w).map (familyDoc w))

/-! ## A program under analysis -/

/-- The overrides that a document gives, and a program ready for analysis. -/
def startWorld (s : ProgramScript) (settings : Option (Int × String)) : World :=
  { prog := s.prog, exceptions := s.names.exceptions,
    policy := { defaultTag := match settings with
      | some (_, "") => "default"
      | some (_, tag) => tag
      | none => "default" },
    progress := { attached := settings.isSome, maxReflows := (settings.map Prod.fst).getD 0 } }

/-- Takes over the results of overridden functions. -/
def addOverrides (k : Known) (d : Document) : Ana Unit := do
  for e in (d.get "overrides").items do
    let a ← if (e.nth 1).isNull then pure none else do pure (some (← annotOf k (e.nth 1)))
    modify fun w => { w with policy := { w.policy with overrides := w.policy.overrides ++ [((e.nth 0).toText, a)] } }

end FlowCompiler.Script
