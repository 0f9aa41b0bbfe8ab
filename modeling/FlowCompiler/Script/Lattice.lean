import FlowCompiler.Script.Annotations

/-!
# Scripts about annotations

Steps that ask for unions, for the state of lists and classes, for the description of values and for the
result of calls, all on one state of the analysis.
-/

namespace FlowCompiler.Script

open Document

/-! ## Kinds -/

def pairText (p : Kind × Kind) : String := s!"({p.1.text}, {p.2.text})"

/-- The order in which handlers for a pair of kinds are looked for, and the one found. -/
def pairOrders (d : Document) : Document :=
  let kind (x : Document) : Kind := (Kind.ofText? x.toText).getD .object
  let (a, b) := (kind (d.get "a"), kind (d.get "b"))
  let handlers := (d.get "register").items.map fun e =>
    ((kind (e.nth 0), kind (e.nth 1)), s!"{(e.nth 0).toText}/{(e.nth 1).toText}")
  let found := Kind.lookupPair handlers a b
  succeeded (record [ ("mro", ofTexts ((Kind.pairOrder a b).map pairText)), ("ancestors", ofTexts (a.ancestors.map Kind.text)),
    ("sub", bool (a.isSub b)), ("found", bool found.isSome), ("handler", text ((found.map Prod.snd).getD "")),
    ("pair", text (pairText ((found.map Prod.fst).getD (.object, .object)))) ])

/-! ## Steps -/

structure LatticeState where
  world : World
  known : Known

abbrev LatM := EStateM Failure LatticeState

/-- A step of the analysis inside a script. -/
def onAna {α : Type} (m : Ana α) : LatM α := fun s =>
  match (Ana.run m).run s.world with
  | .ok a w => .ok a { s with world := w }
  | .error f w => .error f { s with world := w }

def argAnnot (d : Document) (i : Nat) : LatM Annot := do
  let k := (← get).known
  onAna (annotOf k (d.nth i))

/-- Keeps an annotation under a name, when one is given. -/
def keep (name : Document) (a : Annot) : LatM Document := do
  match name with
  | .text s => modify fun st => { st with known := { st.known with refs := (s, a) :: st.known.refs } }
  | _ => pure ()
  return annotDoc (← get).world a

def shown (a : Annot) : LatM Document := keep null a

def itemDoc (w : World) (i : ItemId) : Document :=
  let it := w.item i
  record [ ("value", annotDoc w it.value), ("mutated", bool it.mutated), ("resized", bool it.resized), ("step", decimal it.step),
    ("immutable", bool it.immutable), ("fixedsize", bool it.mustNotResize), ("frozen", bool it.frozen), ("reads", nat it.reads.size) ]

/-- Runs a step on a list and shows the list afterwards. -/
def onList (d : Document) (m : ListDefId → Ana Unit) : LatM Document := do
  let l := Ana.listDefOf (← argAnnot d 1)
  onAna (m l)
  let w := (← get).world
  pure (itemDoc w (w.listItemId l))

def onDict (d : Document) (m : DictDefId → Ana Unit) : LatM Document := do
  let e := Ana.dictDefOf (← argAnnot d 1)
  onAna (m e)
  let w := (← get).world
  pure (record [("key", itemDoc w (w.dictDef e).key), ("value", itemDoc w (w.dictDef e).value)])

def describeAnnot (a : Annot) : LatM Document := do
  let w := (← get).world
  pure (record [ ("s", annotDoc w a), ("kind", text a.kind.text), ("const", bool a.isConst), ("none", bool a.canBeNone),
    ("type", text (w.typeName a)) ])

def intOf (a : Annot) : IntFact := (Ana.asInt? a).getD {}

/-- Steps on annotations alone. -/
def annotStep? (d : Document) : Option (LatM Document) :=
  let arg (i : Nat) : LatM Annot := argAnnot d i
  let two {α : Type} (f : Annot → Annot → LatM α) : LatM α := do
    let a ← arg 1
    let b ← arg 2
    f a b
  match (d.nth 0).toText with
  | "let" => some do keep (d.nth 1) (← arg 2)
  | "show" => some do describeAnnot (← arg 1)
  | "union" => some (two fun a b => do keep (d.nth 3) (← onAna (Ana.union a b)))
  | "unionof" => some do
    let k := (← get).known
    let as ← onAna ((d.items.drop 1).mapM (annotOf k))
    shown (← onAna (Ana.unionOf as))
  | "contains" => some (two fun a b => do return bool (← onAna (Ana.contains a b)))
  | "equal" => some (two fun a b => do return bool ((← get).world.equal a b))
  | "improve" => some (two fun a b => do shown (← onAna (Ana.improve a b)))
  | "improve_checked" => some (two fun a b => do shown (← onAna (Ana.improveChecked a b)))
  | "nonnull" => some do shown (← arg 1).nonnull
  | "noneify" => some do
    let a ← arg 1
    return optAnnotDoc (← get).world a.nullable?
  | "notconst" => some do
    let a ← arg 1
    let tag ← onAna Ana.freshTag
    shown (a.notConst tag)
  | "arith" => some do
    let a ← arg 2
    let b ← arg 3
    shown (.int ((intOf a).arith (d.nth 1).toText (intOf b)))
  | "unary" => some do shown (.int ((intOf (← arg 2)).unary (d.nth 1).toText))
  | "hull" => some (two fun a b => do
    let (r, q) := ((intOf a).getRange, (intOf b).getRange)
    pure (list [text (r.hull q).text, bool (r.contains q), bool (r.hull q).isFull]))
  | _ => none

/-- Steps on lists and dictionaries. -/
def containerStep? (d : Document) : Option (LatM Document) :=
  match (d.nth 0).toText with
  | "l_mutate" => some (onList d Ana.mutateList)
  | "l_resize" => some (onList d Ana.resizeList)
  | "l_never" => some (onList d Ana.neverResize)
  | "l_immutable" => some (onList d Ana.markImmutable)
  | "l_freeze" => some (onList d fun l => do Ana.freezeItem (← Ana.listItemOf l))
  | "l_state" => some (onList d fun _ => pure ())
  | "l_step" => some (onList d fun l => Ana.generalizeStep l (d.nth 2).toInt)
  | "l_gen" => some do
    let k := (← get).known
    onList d fun l => do Ana.generalizeList l (← annotOf k (d.nth 2))
  | "l_agree" => some do
    let k := (← get).known
    onList d fun l => do Ana.agreeLists l (Ana.listDefOf (← annotOf k (d.nth 2)))
  | "l_union" => some do
    let k := (← get).known
    onList d fun l => do Ana.unionLists l (Ana.listDefOf (← annotOf k (d.nth 2)))
  | "l_same" => some do
    let a ← argAnnot d 1
    let b ← argAnnot d 2
    let w := (← get).world
    pure (bool (w.listItemId (Ana.listDefOf a) == w.listItemId (Ana.listDefOf b)))
  | "l_read" => some do
    let a ← argAnnot d 1
    shown (← onAna (Ana.readList (Ana.listDefOf a) { index := (d.nth 2).toInt }))
  | "d_genkey" => some do
    let k := (← get).known
    onDict d fun e => do Ana.generalizeKey e (← annotOf k (d.nth 2))
  | "d_genval" => some do
    let k := (← get).known
    onDict d fun e => do Ana.generalizeValue e (← annotOf k (d.nth 2))
  | "d_union" => some do
    let k := (← get).known
    onDict d fun e => do Ana.unionDicts e (Ana.dictDefOf (← annotOf k (d.nth 2)))
  | "d_freeze" => some (onDict d fun e => do
    Ana.freezeItem (← Ana.keyItemOf e)
    Ana.freezeItem (← Ana.valueItemOf e))
  | "d_state" => some (onDict d fun _ => pure ())
  | _ => none

/-! ## Classes -/

def classNamed (d : Document) : LatM ClassId := return (← get).known.names.cls d.toText

def classDefNamed (d : Document) : LatM ClassDefId := do
  let c ← classNamed d
  onAna (Ana.uniqueClassDef c)

def classDescNamed (d : Document) : LatM DescId := do
  let c ← classNamed d
  onAna (Ana.descOf (.cls c))

def done : LatM Document := pure (bool true)

def classNames (w : World) (cs : List ClassDefId) : Document := ofTexts (cs.map w.className)

def classDefStep (d : Document) : LatM Document := do
  let desc ← classDescNamed (d.nth 1)
  let c ← onAna (Ana.classDefOf desc (d.nth 2).toText)
  let w := (← get).world
  pure (record [("id", nat c), ("def", classDoc w c), ("exc", bool (w.isExceptionDesc desc))])

def issubclassStep (d : Document) : LatM Document := do
  let a ← classDefNamed (d.nth 1)
  let b ← classDefNamed (d.nth 2)
  let w := (← get).world
  pure (record [ ("sub", bool (w.isSubclass a b)), ("common", ofOptText ((w.commonBase? a b).map w.className)),
    ("mro", classNames w (w.mro a)), ("allsubs", classNames w (w.allSubs a)) ])

def hostClassStep (d : Document) : LatM Document := do
  let a ← classNamed (d.nth 1)
  let b ← classNamed (d.nth 3)
  let h := (← get).world.prog.host
  let found := h.classLookup? a (d.nth 2).toText
  let extra := match found with
    | some (v, owner) => [("value", text (h.text v)), ("owner", text (h.className owner))]
    | none => []
  pure (record ([ ("mro", ofTexts ((h.mro a).map h.className)), ("found", bool found.isSome), ("sub", bool (h.isSubclass a b)) ] ++ extra))

def descStep (d : Document) : LatM Document := do
  let desc ← classDescNamed (d.nth 1)
  let w := (← get).world
  let k := w.classDesc desc
  let base := match k.base with
    | some b => [("base", text (w.classDesc b).name)]
    | none => []
  pure (record ([ ("names", orNull ((sorted (k.dict.map Prod.fst)).map text)), ("settled", bool k.settled),
    ("enforced", ofTexts (sortedSet (k.enforced.getD []))), ("has_enforced", bool k.enforced.isSome) ] ++ base))

def getattrStep (d : Document) : LatM Document := do
  let c ← classDefNamed (d.nth 1)
  keep (d.nth 4) (← onAna (Ana.getInstanceAttr c (d.nth 2).toText (sortedSet (d.nth 3).texts) {}))

/-- Steps on classes. -/
def classStep? (d : Document) : Option (LatM Document) :=
  let name := (d.nth 2).toText
  match (d.nth 0).toText with
  | "classdef" => some (classDefStep d)
  | "state" => some do
    let c ← classDefNamed (d.nth 1)
    return classDoc (← get).world c
  | "setattr" => some do
    let c ← classDefNamed (d.nth 1)
    let a ← argAnnot d 3
    onAna (Ana.setInstanceAttr c name a)
    done
  | "getattr" => some (getattrStep d)
  | "generalize" => some do
    let c ← classDefNamed (d.nth 1)
    let a ← if (d.nth 3).isNull then pure none else do pure (some (← argAnnot d 3))
    onAna (Ana.generalizeAttr c name a)
    done
  | "locate" => some do
    let c ← classDefNamed (d.nth 1)
    let home ← onAna (Ana.locateAttr c name)
    return text ((← get).world.className home)
  | "filter" => some do
    let c ← classDefNamed (d.nth 1)
    match ← argAnnot d 2 with
    | .pbc ds m => do shown (← onAna (Ana.filterMethods c ds m (sortedSet (d.nth 3).texts)))
    | _ => pure null
  | "issubclass" => some (issubclassStep d)
  | "commondesc" => some do
    let ds ← (d.nth 1).items.mapM classDescNamed
    let w := (← get).world
    pure (ofOptText ((w.commonDesc? ds).map fun k => (w.classDesc k).name))
  | "hostclass" => some (hostClassStep d)
  | "desc" => some (descStep d)
  | "sread" => some do
    let desc ← classDescNamed (d.nth 1)
    shown (← onAna (Ana.readClassAttr desc name))
  | "rank" => some do
    let desc ← classDescNamed (d.nth 1)
    return text ((← get).world.fieldRank desc name).text
  | "parseimm" => some do
    let (field, r) := Rank.parse (d.nth 1).toText
    pure (list [text field, text r.text])
  | "exceptions" => some do
    let s ← get
    let h := s.world.prog.host
    pure (ofTexts (sorted (s.known.names.exceptions.map fun (_, c) => joinWith "<" ((h.mro c).map h.className))))
  | _ => none

/-! ## Descriptions and calls -/

def argDatum (d : Document) (i : Nat) : LatM Datum := do
  let k := (← get).known
  onAna (datumOf k (d.nth i))

def argCall (d : Document) (i : Nat) : LatM CallArgs := do
  let k := (← get).known
  onAna (toCall k (d.nth i))

def argAnnots (d : Document) (i : Nat) : LatM (List Annot) := do
  let k := (← get).known
  onAna ((d.nth i).items.mapM (annotOf k))

def annotsDoc (as : List Annot) : LatM Document := return list (as.map (annotDoc (← get).world))

def frozenAttrStep (d : Document) : LatM Document := do
  let v ← argDatum d 1
  let desc ← onAna (Ana.descOf v)
  let i ← onAna (Ana.frozenFamilyOf desc)
  let f ← onAna (Ana.frozenFamily i)
  let w := (← get).world
  let attrs := f.attrs.mergeSort fun a b => a.1 ≤ b.1
  pure (record [ ("size", nat f.descs.length), ("attrs", list (attrs.map fun (n, a) => list [text n, annotDoc w a])) ])

def specializeStep (d : Document) : LatM Document := do
  let v ← argDatum d 1
  let cells ← argAnnots d 2
  let desc ← onAna (Ana.descOf v)
  let (special, cells) ← onAna (Ana.specialize desc cells none)
  let w := (← get).world
  let fd := w.funcDesc desc
  let extra := match special with
    | .graph g =>
      let owner := match w.graphOwner[g]? with
        | some o => [("owner", text (w.funcDesc o).name)]
        | none => []
      ("graph", text (w.prog.flow.graph g).name) :: owner
    | .value a => [("value", annotDoc w a)]
  pure (record ([ ("cells", list (cells.map (annotDoc w))), ("memo", nat fd.memo.length),
    ("graphs", ofTexts (fd.cache.map fun (_, g) => (w.prog.flow.graph g).name)) ] ++ extra))

def callText (w : World) (a : CallArgs) : String :=
  let parts := a.positional.map w.annotText ++ a.keywords.map (fun (k, v) => k ++ "=" ++ w.annotText v)
    ++ (a.star.map fun s => "*" ++ w.annotText s).toList
  "(" ++ joinWith ", " parts ++ ")"

def matchStep (d : Document) : LatM Document := do
  let m := d.nth 1
  let sig := toSignature m
  let known := (← get).known
  let defaults ← onAna ((m.get "defaults").items.mapM (annotOf known))
  let args ← onAna (toCall known (m.get "call"))
  let cells ← onAna (Ana.matchSignature args sig defaults)
  let w := (← get).world
  pure (record [ ("cells", list (cells.map (annotDoc w))), ("shape", text (HostStore.shapeText args.shape)),
    ("text", text (callText w args)), ("nargs", nat sig.arity) ])

def toSpecArg (d : Document) : LatM TypeSpec := return toSpec (← get).known.names literalDepth (d.nth 1)

/-- Steps on described values and their calls. -/
def describeStep? (d : Document) : Option (LatM Document) :=
  match (d.nth 0).toText with
  | "immutable" => some do keep (d.nth 2) (← onAna (Ana.immutable (← argDatum d 1)))
  | "newlist" => some do
    let k := (← get).known
    let as ← onAna ((d.items.drop 1).mapM (annotOf k))
    let l ← onAna do
      let l ← Ana.newListDef .impossible false false
      for a in as do
        Ana.generalizeList l a
      pure l
    shown (.list l)
  | "newdict" => some do shown (.dict (← onAna (Ana.newDictDef .impossible .impossible)))
  | "getdesc" => some do
    let desc ← onAna (Ana.descOf (← argDatum d 1))
    let w := (← get).world
    pure (list [nat desc, text (w.descText desc), text (w.desc desc).kind.text])
  | "descs" => some do
    let w := (← get).world
    pure (ofTexts (w.descOrder.toList.map w.descText))
  | "pbcgetattr" => some do
    match ← argAnnot d 1 with
    | .pbc ds m => do shown (← onAna (Ana.pbcGetattr ds m (d.nth 2).toText))
    | _ => pure null
  | "frozenattr" => some (frozenAttrStep d)
  | "pbccall" => some do
    match ← argAnnot d 1 with
    | .pbc ds _ => do
      let args ← argCall d 2
      shown (← onAna (Ana.pbcCall ds args none))
    | _ => pure null
  | "emulate" => some do
    let a ← argAnnot d 2
    let args ← argAnnots d 3
    shown (← onAna (Ana.emulateCall (.named (d.nth 1).toText) a args))
  | "consider" => some do
    match ← argAnnot d 1 with
    | .pbc ds m => do
      let args ← argCall d 2
      let result ← argAnnot d 3
      onAna (Ana.considerCall ds m args result none)
      done
    | _ => pure null
  | "fixpoint" => some do
    onAna Ana.computeAtFixpoint
    done
  | "families" => some do return familiesDoc (← get).world
  | "specializer" => some do
    let (_, params) ← liftExcept (Ana.parseDirective (← get).world.policy.defaultTag (d.nth 1).toText)
    pure (ofTexts params)
  | "specialize" => some (specializeStep d)
  | "params" => some do
    let v ← argDatum d 1
    let args ← argAnnots d 2
    let desc ← onAna (Ana.descOf v)
    let (g, cells) ← onAna (Ana.callParameters desc args)
    return record [("graph", text ((← get).world.prog.flow.graph g).name), ("cells", ← annotsDoc cells)]
  | "match" => some (matchStep d)
  | "unpack" => some do
    let args ← argCall d 1
    annotsDoc (← onAna (Ana.fixedUnpack args (d.nth 2).toNat))
  | "spec" => some do
    let a ← onAna (Ana.annotateSpec (← toSpecArg d))
    return optAnnotDoc (← get).world a
  | "specstr" => some do return text ((← get).world.prog.host.specText (← toSpecArg d))
  | "instname" => some do
    match ← argDatum d 1 with
    | .inst i => do
      let h := (← get).world.prog.host
      pure (list [text (h.instText i), bool (h.isFrozen i)])
    | _ => pure null
  | _ => none

def latticeStep (d : Document) : LatM Document :=
  ((annotStep? d <|> containerStep? d <|> classStep? d <|> describeStep? d)).getD (pure null)

def lattices (d : Document) : Document :=
  let s := load d []
  let known : Known := { names := s.names }
  let w := startWorld s (if (d.get "attached").isTrue then some (0, "default") else none)
  match (Ana.run (addOverrides known d)).run w with
  | .error f _ => failed f
  | .ok _ w => succeeded (list (runSteps latticeStep { world := w, known } (d.get "steps").items).1)

end FlowCompiler.Script
