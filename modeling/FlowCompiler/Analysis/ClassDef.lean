import FlowCompiler.Analysis.Union

/-!
# Class definitions and their attributes

An attribute lives on the most general class that reads or writes it: on the way from a class to its
root a name has at most one attribute.  When a base class learns of an attribute, those of its
subclasses move up and are merged.  Class dictionaries and prebuilt instances are the sources of
constant values.
-/

namespace FlowCompiler

namespace Rank

def text : Rank → String
  | mutable => "mutable"
  | immutable => "immutable"
  | quasiImmutable => "quasiimmutable"
  | immutableArray => "immutable_array"
  | quasiImmutableArray => "quasiimmutable_array"

/-- Reads a declared field: `f`, `f?`, `f[*]` or `f?[*]`. -/
def parse (decl : String) : String × Rank :=
  let cut (n : Nat) : String := (decl.dropEnd n).toString
  if decl.endsWith "?[*]" then (cut 4, quasiImmutableArray)
  else if decl.endsWith "[*]" then (cut 3, immutableArray)
  else if decl.endsWith "?" then (cut 1, quasiImmutable)
  else (decl, immutable)

/-- Whether what a field refers to is immutable too. -/
def isArray : Rank → Bool
  | immutableArray => true
  | quasiImmutableArray => true
  | _ => false

end Rank

namespace World

def descChainAux (w : World) : (fuel : Nat) → DescId → List DescId
  | 0, _ => []
  | n + 1, d => d :: (match (w.classDesc d).base with
    | some b => w.descChainAux n b
    | none => [])

/-- A class description and those of all its bases. -/
def descChain (w : World) (d : DescId) : List DescId := w.descChainAux (w.descs.size + 1) d

/-- The first class on the way to the root whose dictionary has a name. -/
def classLookup? (w : World) (d : DescId) (name : String) : Option DescId :=
  (w.descChain d).find? fun k => ((w.classDesc k).dict.lookup name).isSome

/-- How immutable a field is, by the nearest class that says so. -/
def fieldRank (w : World) (d : DescId) (name : String) : Rank :=
  ((w.descChain d).findSome? fun k =>
    let c := w.classDesc k
    match c.immutableFields.lookup name with
    | some r => some r
    | none => if c.immutable then some .immutable else none).getD .mutable

/-- The nearest class description that all have as a base. -/
def commonDesc? (w : World) : List DescId → Option DescId
  | [] => none
  | d :: r => r.foldl (fun common e => common.bind fun c =>
      (w.descChain c).find? fun k => (w.descChain e).contains k) (some d)

def isExceptionDesc (w : World) (d : DescId) : Bool :=
  match w.exceptions.lookup "BaseException" with
  | some root => w.prog.host.isSubclass (w.classDesc d).cls root
  | none => false

def attrOf? (w : World) (c : ClassDefId) (name : String) : Option AttrId := (w.classDef c).attrs.lookup name

/-- The class on the way to the root that has an attribute. -/
def attrHome? (w : World) (c : ClassDefId) (name : String) : Option ClassDefId :=
  (w.mro c).find? fun k => (w.attrOf? k name).isSome

/-- The names of the attributes of a class, sorted. -/
def attrNames (w : World) (c : ClassDefId) : List String :=
  ((w.classDef c).attrs.map Prod.fst).mergeSort (· ≤ ·)

end World

namespace Ana

def setDict {α : Type} (xs : List (String × α)) (name : String) (v : α) : List (String × α) :=
  if (xs.lookup name).isSome then xs.map fun e => if e.1 == name then (name, v) else e else xs ++ [(name, v)]

def dropKey {α : Type} (xs : List (String × α)) (name : String) : List (String × α) := xs.filter fun e => e.1 != name

/-! ## Class dictionaries -/

/-- Binds a function, read as an attribute of a class, as a method without an instance. -/
def bindUnder (f : DescId) (c : ClassDefId) (name : String) : Ana DescId :=
  methodDesc { func := f, origin := c, self := none, name }

/-- The annotation of a set of values with its functions bound as methods. -/
def bindCallables (a : Annot) (c : ClassDefId) (name : String) : Ana Annot := do
  match a with
  | .pbc ds nullable => do
    let w ← get
    let isMethod (d : DescId) : Bool := match w.desc d with
      | .function f => !(w.prog.host.func f.func).static
      | _ => false
    if ds.any isMethod then
      let bound ← ds.mapM fun d => if isMethod d then bindUnder d c name else pure d
      newPbc bound nullable
    else pure a
  | a => pure a

/-- The annotation of an attribute of a class dictionary; below a class definition functions are
bound. -/
def classValue (d : DescId) (c : Option ClassDefId) (name : String) : Ana Annot := do
  let w ← get
  let cd := w.classDesc d
  match cd.dict.lookup name with
  | none => pure .impossible
  | some (.own f) => do
    match c with
    | some c => newPbc [← bindUnder f c name] false
    | none => newPbc [f] false
  | some (.value v) => do
    let (isClassMethod, isStatic) := match v with
      | .fn f => ((w.prog.host.func f).classMethod, (w.prog.host.func f).static)
      | _ => (false, false)
    if isClassMethod then fail Code.classMethodCall s!"classmethods are not supported: {cd.name}.{name}"
    let a ← immutable v
    match c with
    | some c => if isStatic then pure a else bindCallables a c name
    | none => pure a

/-- The annotation of an attribute of a class or its bases, functions without binding. -/
def readClassAttr (d : DescId) (name : String) : Ana Annot := do
  match (← get).classLookup? d name with
  | some k => classValue k none name
  | none => pure .impossible

/-- Adds an attribute to a class description; a function of a mixin becomes the class's own. -/
def addClassEntry (d : DescId) (name : String) (v : Datum) (fromMixin : Bool) : Ana Unit := do
  let host ← host
  let own? : Option FuncId := match v with
    | .fn f => if fromMixin && !(host.func f).static then some f else none
    | _ => none
  let entry ← match own? with
    | some f => do pure (ClassEntry.own (← addDesc (.function { func := f, name := (host.func f).name })))
    | none => pure (ClassEntry.value v)
  modify fun w => w.updateClassDesc d fun c => { c with dict := setDict c.dict name entry }

/-! ## Attributes -/

def addAttribute (a : Attribute) : Ana AttrId :=
  modifyGet fun w => (w.attributes.size, { w with attributes := w.attributes.push a })

/-- Records that an attribute is written. -/
def attrModified (a : AttrId) (c : ClassDefId) : Ana Unit := do
  modify (·.updateAttribute a fun k => { k with readonly := false })
  let w ← get
  let k := w.attr a
  if !k.allowed then
    fail Code.noAttribute s!"setting forbidden attribute {Quoted.quote k.name} on {w.className c}"

/-- The annotation that a source gives an attribute. -/
def sourceValue (s : AttrSource) (c : ClassDefId) (name : String) : Ana Annot := do
  match s with
  | .cls d => classValue d (some c) name
  | .inst i => do
    match ((← host).inst i).attrs.lookup name with
    | some v => immutable v
    | none => pure .impossible

/-- Adds the value of a source to an attribute. -/
def addConstantSource (a : AttrId) (c : ClassDefId) (s : AttrSource) : Ana Unit := do
  let name := ((← get).attr a).name
  let v ← sourceValue s c name
  match s with
  | .inst _ => attrModified a c
  | .cls _ => pure ()
  let u ← union ((← get).attr a).value v
  modify (·.updateAttribute a fun k => { k with value := u })

/-- Merges an attribute of a subclass into that of a class. -/
def mergeAttribute (a other : AttrId) (c : ClassDefId) : Ana Unit := do
  let w ← get
  let u ← union (w.attr a).value (w.attr other).value
  modify (·.updateAttribute a fun k => { k with value := u })
  if !((← get).attr other).readonly then attrModified a c
  let o := (← get).attr other
  modify (·.updateAttribute a fun k =>
    { k with reads := insertPositions k.reads o.reads, allowed := k.allowed && o.allowed })

/-- Whether a set of methods has one without an instance. -/
def hasUnbound (w : World) (ds : List DescId) : Bool :=
  ds.any fun d => match w.desc d with
    | .method m => m.self.isNone
    | _ => false

/-- Has the readers of a grown attribute analysed again, and checks that its class may have it. -/
def attrMutated (a : AttrId) (home : ClassDefId) : Ana Unit := do
  reflowAll ((← get).attr a).reads
  let w ← get
  let name := (w.attr a).name
  let desc := (w.classDef home).desc
  match (w.attr a).value with
  | .pbc ds _ =>
    if w.commonKind? ds == some .method && (w.classLookup? desc name).isNone && hasUnbound w ds
        && (w.classDesc desc).settled then
      fail Code.noAttribute s!"demoting method {name} to settled class {w.className home} not allowed"
  | _ => pure ()
  match (w.classDesc desc).enforced with
  | some names =>
    if !names.contains name then
      modify (·.updateAttribute a fun k => { k with allowed := false })
      if !(w.attr a).readonly then
        fail Code.noAttribute
          s!"the attribute {Quoted.quote name} goes here to {w.className home}, but it is forbidden here"
  | none => pure ()

def isInstanceLevel : AttrSource → Bool
  | .inst _ => true
  | .cls _ => false

/-- Adds a source to an attribute that exists. -/
def feedAttribute (a : AttrId) (c home : ClassDefId) (s : AttrSource) : Ana Unit := do
  let prev := ((← get).attr a).value
  addConstantSource a c s
  let w ← get
  if !w.equal (w.attr a).value prev then attrMutated a home

/-- Adds a source of constants for an attribute of a class. -/
def addSource (c : ClassDefId) (name : String) (s : AttrSource) : Ana Unit := do
  let w ← get
  match w.attrHome? c name with
  | some home => feedAttribute ((w.attrOf? home name).getD 0) c home s
  | none => do
    modify (·.updateClassDef c fun k =>
      { k with sources := setDict k.sources name ((k.sources.lookup name).getD [] ++ [s]) })
    if !isInstanceLevel s then
      for sub in w.allSubs c do
        match (← get).attrOf? sub name with
        | some a => feedAttribute a c sub s
        | none => pure ()

/-- Moves the attributes and sources of a name out of a class. -/
def takeAttribute (c : ClassDefId) (name : String) : Ana (Option AttrId × List AttrSource) := do
  let k := (← get).classDef c
  modify (·.updateClassDef c fun k =>
    { k with attrs := dropKey k.attrs name, sources := dropKey k.sources name })
  pure (k.attrs.lookup name, (k.sources.lookup name).getD [])

/-- Makes an attribute of a class out of those of the class and its subclasses. -/
def generalizeHere (c : ClassDefId) (name : String) (value : Option Annot) : Ana Unit := do
  let taken ← ((← get).allSubs c).mapM fun sub => do
    let (a, ss) ← takeAttribute sub name
    pure (sub, a, ss)
  let a ← addAttribute { name, value := value.getD .impossible }
  for (_, old, _) in taken do
    match old with
    | some old => mergeAttribute a old c
    | none => pure ()
  modify (·.updateClassDef c fun k => { k with attrs := setDict k.attrs name a })
  for (sub, _, ss) in taken do
    for s in ss do
      addConstantSource a sub s
  attrMutated a c

/-- Widens an attribute on the class that has it, or makes it on this class. -/
def generalizeAttr (c : ClassDefId) (name : String) (value : Option Annot) : Ana Unit := do
  generalizeHere (((← get).attrHome? c name).getD c) name value

/-- The class that has an attribute; the attribute is made when no class has it. -/
def locateAttr (c : ClassDefId) (name : String) : Ana ClassDefId := do
  match (← get).attrHome? c name with
  | some home => pure home
  | none => do
    generalizeAttr c name none
    return ((← get).attrHome? c name).getD c

def findAttr (c : ClassDefId) (name : String) : Ana AttrId := do
  let home ← locateAttr c name
  return ((← get).attrOf? home name).getD 0

/-! ## Reading and writing -/

/-- The classes that an instance may have. -/
def readClassOf (c : ClassDefId) (pos : PosKey) : Ana Annot := do
  modify (·.updateClassDef c fun k => { k with classReads := insertPos k.classReads pos })
  let w ← get
  newPbc ((w.allSubs c).map fun k => (w.classDef k).desc) false

/-- Of methods without an instance, those that an instance of the class may call: the nearest one at or
above the class, and all below it. -/
def filterMethods (c : ClassDefId) (ds : List DescId) (nullable : Bool) (flags : List String) : Ana Annot := do
  let w ← get
  let bind (m : MethodDesc) (self : ClassDefId) : Ana DescId := methodDesc { m with self := some self, flags }
  let mut out : List DescId := []
  let mut up : Option MethodDesc := none
  for d in ds do
    match w.desc d with
    | .method m =>
      if m.self.isSome then out := out ++ [d]
      else if m.origin ≠ c && w.isSubclass m.origin c then out := out ++ [← bind m m.origin]
      else if w.isSubclass c m.origin then
        match up with
        | some k => if w.isSubclass m.origin k.origin then up := some m
        | none => up := some m
    | _ => out := out ++ [d]
  match up with
  | some m => out := out ++ [← bind m c]
  | none => pure ()
  if !out.isEmpty then newPbc out nullable
  else pure (if nullable then .none else .impossible)

/-- A list read from a field whose list is declared immutable is read as an immutable copy. -/
def fieldList (desc : DescId) (name : String) (l : ListDefId) : Ana Annot := do
  let w ← get
  let cd := w.classDesc desc
  if cd.invalidAttrs.contains name then
    fail Code.noAttribute (s!"field {Quoted.quote name} was migrated to {cd.name} from a subclass "
      ++ "in which it was declared as _immutable_fields_")
  let chain := w.descChain desc
  let isHome (k : DescId) : Bool := (((w.classDesc k).immutableFields.lookup name).map Rank.isArray).getD false
  match chain.find? isHome with
  | none => pure (.list l)
  | some home => do
    neverResize l
    let item ← readList l (← positionOrZero)
    let copy ← newListDef item false false
    markImmutable copy
    for up in (w.descChain home).drop 1 do
      modify (·.updateClassDesc up fun k => { k with invalidAttrs := name :: k.invalidAttrs })
    pure (.list copy)

/-- Reads an attribute of an instance. -/
def getInstanceAttr (c : ClassDefId) (name : String) (flags : List String) (pos : PosKey) : Ana Annot := do
  if name = "__class__" then readClassOf c pos
  else do
    let a ← findAttr c name
    modify (·.updateAttribute a fun k => { k with reads := insertPos k.reads pos })
    let w ← get
    match (w.attr a).value with
    | .pbc ds nullable => filterMethods c ds nullable flags
    | .impossible =>
      let promised := (w.mro c).any fun k =>
        (((w.classDesc (w.classDef k).desc).enforced).map (·.contains name)).getD false
      if promised then throw (.blocked ("get enforced attr " ++ name))
      pure .impossible
    | .list l => fieldList (w.classDef c).desc name l
    | v => pure v

/-- Writes an attribute of an instance. -/
def setInstanceAttr (c : ClassDefId) (name : String) (v : Annot) : Ana Unit := do
  let home ← locateAttr c name
  let a := ((← get).attrOf? home name).getD 0
  attrModified a home
  if !(← contains ((← get).attr a).value v) then
    generalizeAttr home name (some v)
    match v with
    | .list l => do
      let _ ← fieldList ((← get).classDef home).desc name l
    | _ => pure ()

end Ana
end FlowCompiler
