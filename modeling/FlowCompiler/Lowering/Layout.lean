import FlowCompiler.Lowering.Representation

/-!
# Layout of representations

The representation of an annotation is made on the first request, together with the structures it
needs.  Lists, dictionaries and instances are registered before their parts are asked for, with a forward
reference in place of the structure, so that a type may contain itself.

Every class has two structures.  The table of a class starts with the table of its base and holds the
attributes that never change; the instance starts with the instance of its base and holds the rest.
-/

namespace FlowCompiler

namespace EntryLayout

/-- The layout of the entries of a dictionary, by its keys: a key that has a value to spare marks
deleted entries with it, all others carry a mark. -/
def choose (customHash : Bool) (key : Annot) : EntryLayout :=
  let (dummyKey, everUsed) := match key with
    | .char _ _ => (true, true)
    | .int i => if i.nonneg && !i.unsigned then (true, true) else (false, false)
    | .str _ n _ => (!n, false)
    | .unicode _ n _ => (!n, false)
    | .inst _ n _ => (!n, false)
    | _ => (false, false)
  { dummyKey, everUsed, valid := !dummyKey, storedHash := customHash }

/-- The fields of an entry. -/
def fields (e : EntryLayout) (key value : LowType) : List (String × LowType) :=
  [("key", key), ("value", value)]
    ++ (if e.everUsed then [("f_everused", .bool)] else [])
    ++ (if e.valid then [("f_valid", .bool)] else [])
    ++ (if e.storedHash then [("f_hash", .signed)] else [])

end EntryLayout

namespace Typing

/-- The steps of laying out that call each other. -/
structure Layouts where
  repr : Annot → Typing Representation
  inst : Option ClassDefId → Typing Unit
  cls : Option ClassDefId → Typing Unit

def bindingOf (o : Operand) : Typing Annot := Ana.bindingOrImpossible o

/-! ## Functions -/

/-- The type of the function that a graph becomes. -/
def graphTypeWith (h : Layouts) (g : GraphId) : Typing NodeId := do
  let f ← flow
  let typeOf (v : VarId) : Typing LowType := do lowType (← h.repr (← bindingOf (.var v)))
  let args ← (f.argsOf g).mapM typeOf
  let result ← typeOf (f.returnVar g)
  addType (.func args result)

/-- The rows of the call tables of a description's family, by the order of shapes. -/
def familyRows (d : DescId) : Typing (List Row) := do
  let i ← Ana.callFamilyOf d
  let fam := ((← world).callFamilies[i]?).getD default
  pure ((Ana.sortedTables fam).flatMap Prod.snd)

/-- The first graph that a function has in the call tables. -/
def graphOfFunction? (f : DescId) : Typing (Option GraphId) := do
  return (← familyRows f).findSome? fun row => row.lookup f

/-- The type of the functions that a set of methods calls; none when they are never called. -/
def methodTypeWith (h : Layouts) : List DescId → Typing (Option NodeId)
  | [] => pure none
  | d :: rest => do
    match (← world).desc d with
    | .method m => do
      match ← graphOfFunction? m.func with
      | some g => return some (← graphTypeWith h g)
      | none => methodTypeWith h rest
    | _ => methodTypeWith h rest

/-- Whether two rows have the same graphs. -/
def sameRow (a b : Row) : Bool := a.length == b.length && a.all fun (d, g) => b.lookup d == some g

/-- Rows without repetitions, the first of equal ones kept. -/
def distinctRows (rows : List Row) : List Row :=
  rows.foldl (fun out row => if out.any fun r => sameRow r row then out else out ++ [row]) []

/-- The function type of a row: that of the graph of its first description. -/
def rowTypeWith (h : Layouts) (row : Row) : Typing NodeId := do
  match row.mergeSort fun a b => a.1 ≤ b.1 with
  | (_, g) :: _ => graphTypeWith h g
  | [] => addType (.func [] .void)

def variantField (k : Nat) : String := s!"variant{k}"

def functionsRepr (h : Layouts) (descs : List DescId) (nullable : Bool) : Typing Representation := do
  let layout : FunctionsLayout ←
    if isSingle descs nullable then pure { descs, nullable }
    else do
      let rows := distinctRows (← familyRows ((descs.head?).getD 0))
      let types ← rows.mapM (rowTypeWith h)
      match types with
      | [] => pure { descs, nullable, rows, types, target := some (← addType (.func [] .void)) }
      | [t] => pure { descs, nullable, rows, types, target := some t }
      | _ => do
        let fields := types.zipIdx.map fun (t, k) => (variantField k, LowType.ptr t)
        let name ← uniqueName "funcs"
        let s ← addType (.struct name fields { immutable := true } false)
        pure { descs, nullable, rows, types, struct := some s, target := some s }
  modifyGet fun t => (.functions t.functionSets.size, { t with functionSets := t.functionSets.push layout })

/-! ## Other compile-time values -/

/-- The nearest common base of classes; none is the root. -/
def commonBase (w : World) : List ClassDefId → Option ClassDefId
  | [] => none
  | c :: rest => rest.foldl (fun acc d => acc.bind fun a => w.commonBase? a d) (some c)

def methodsRepr (h : Layouts) (descs : List DescId) (nullable : Bool) : Typing Representation := do
  let w ← world
  let rec collect (name : Option String) : List DescId → Typing (List MethodDesc)
    | [] => pure []
    | d :: rest => do
      match w.desc d with
      | .method m => do
        if m.self.isNone then unrepresented s!"unbound method {w.descText d}"
        if let some n := name then
          if n ≠ m.name then unrepresented s!"methods with different names in {w.annotText (.pbc descs nullable)}"
        return m :: (← collect (some (name.getD m.name)) rest)
      | _ => collect name rest
  let ms ← collect none descs
  let self := commonBase w (ms.filterMap MethodDesc.self)
  let layout : MethodsLayout :=
    { descs, self, name := (ms.head?.map MethodDesc.name).getD "", funcs := (ms.map MethodDesc.func).eraseDups }
  h.inst self
  modifyGet fun t => (.methods t.methodSets.size, { t with methodSets := t.methodSets.push layout })

def classesRepr (descs : List DescId) (nullable : Bool) : Typing Representation := do
  let defs ← descs.mapM fun d => (Ana.classDefOf d "" : Typing ClassDefId)
  let layout : ClassesLayout := { descs, nullable, common := commonBase (← world) defs }
  modifyGet fun t => (.classes t.classSets.size, { t with classSets := t.classSets.push layout })

/-- The fields that have a value at run time. -/
def layFields (h : Layouts) (lead : String) : List (String × Annot) → Typing (List (String × ReprField × LowType))
  | [] => pure []
  | (name, a) :: rest => do
    let r ← h.repr a
    let t ← lowType r
    let others ← layFields h lead rest
    pure (if t = .void then others else (name, ⟨lead ++ name, r⟩, t) :: others)

def frozenRepr (h : Layouts) (key : String) (descs : List DescId) (nullable : Bool) : Typing Representation := do
  let i := (← get).frozenSets.size
  modify fun t => { t with
    frozenSets := t.frozenSets.push { descs, nullable }
    reprs := t.reprs.insert key (.frozen i) }
  if !isSingle descs nullable then
    let fam ← (do Ana.frozenFamily (← Ana.frozenFamilyOf ((descs.head?).getD 0)) : Ana FrozenFamily)
    let fields ← layFields h "f_" (fam.attrs.mergeSort fun a b => a.1 ≤ b.1)
    let name ← uniqueName "pbc"
    let s ← addType (.struct name (fields.map fun (_, f, t) => (f.name, t)) { immutable := true } false)
    modify fun t => { t with frozenSets := t.frozenSets.modify i fun k =>
      { k with struct := some s, fields := fields.map fun (n, f, _) => (n, f) } }
  pure (.frozen i)

def frozenMethodRepr (h : Layouts) (descs : List DescId) (nullable : Bool) : Typing Representation := do
  let w ← world
  let ms := descs.filterMap fun d => match w.desc d with
    | .frozenMethod f z => some (f, z)
    | _ => none
  let func := (ms.head?.map Prod.fst).getD 0
  if ms.any fun m => m.1 ≠ func then
    unrepresented s!"different functions bound to frozen instances in {w.annotText (.pbc descs nullable)}"
  let self ← h.repr (← Ana.newPbc (ms.map Prod.snd) nullable)
  modifyGet fun t => (.frozenMethod t.frozenMethods.size,
    { t with frozenMethods := t.frozenMethods.push { descs, nullable, func, self } })

def pbcRepr (h : Layouts) (key : String) (descs : List DescId) (nullable : Bool) : Typing Representation := do
  if descs.isEmpty then pure .none
  else
    let w ← world
    match w.commonKind? descs with
    | some .function => functionsRepr h descs nullable
    | some .method => methodsRepr h descs nullable
    | some .cls => classesRepr descs nullable
    | some .frozen => frozenRepr h key descs nullable
    | some .frozenMethod => frozenMethodRepr h descs nullable
    | none => unrepresented s!"mixed kinds of prebuilt constants in {w.annotText (.pbc descs nullable)}"

/-! ## Containers -/

def tupleField (i : Nat) : String := s!"item{i}"

def tupleRepr (h : Layouts) (annots : List Annot) : Typing Representation := do
  let items ← annots.mapM h.repr
  let types ← items.mapM lowType
  let name ← uniqueName s!"tuple{items.length}"
  let fields := types.zipIdx.map fun (t, i) => (tupleField i, t)
  let struct ← addType (.struct name fields { immutable := true } true)
  modifyGet fun t => (.tuple t.tuples.size, { t with tuples := t.tuples.push { items, struct } })

def listRepr (h : Layouts) (key : String) (d : ListDefId) : Typing Representation := do
  let it := (← world).listItem d
  let target ← addType (.forward true none)
  let fixed := !it.resized
  let i := (← get).lists.size
  modify fun t => { t with
    lists := t.lists.push { fixed, target }
    reprs := t.reprs.insert key (.list i) }
  let item ← h.repr it.value
  let array ← addType (.array (← lowType item) false it.immutable true)
  modify fun t => { t with lists := t.lists.modify i fun k => { k with item := some item, array } }
  if fixed then become target array
  else
    let name ← uniqueName "list"
    let struct ← addType (.struct name [("length", .signed), ("items", .ptr array)] {} true)
    modify fun t => { t with lists := t.lists.modify i fun k => { k with struct } }
    become target struct
  pure (.list i)

def dictRepr (h : Layouts) (key : String) (d : DictDefId) : Typing Representation := do
  let w ← world
  let k := w.dictDef d
  let keyAnnot := (w.item k.key).value
  let entry := EntryLayout.choose k.customEqHash keyAnnot
  let target ← addType (.forward true none)
  let i := (← get).dicts.size
  modify fun t => { t with
    dicts := t.dicts.push { entry, target }
    reprs := t.reprs.insert key (.dict i) }
  let keyRepr ← h.repr keyAnnot
  let valueRepr ← h.repr (w.item k.value).value
  let entryName ← uniqueName "dictentry"
  let entryStruct ← addType (.struct entryName (entry.fields (← lowType keyRepr) (← lowType valueRepr)) {} false)
  let entries ← addType (.array (.node entryStruct) false false true)
  let name ← uniqueName "dict"
  let struct ← addType (.struct name
    [("num_items", .signed), ("resize_counter", .signed), ("entries", .ptr entries)] {} true)
  modify fun t => { t with dicts := t.dicts.modify i fun k =>
    { k with key := keyRepr, value := valueRepr, entryStruct, entries, struct } }
  become target struct
  pure (.dict i)

/-- Whether all items are annotated alike. -/
def homogeneous (w : World) : List Annot → Bool
  | [] => true
  | a :: rest => rest.all fun b => w.equal a b

def iterRepr (h : Layouts) (key : String) (annot container : Annot) : Typing Representation := do
  let w ← world
  if let .tuple _ _ items := container then
    if !homogeneous w items then
      unrepresented s!"iteration over a heterogeneous tuple {w.annotText container}"
  let i := (← get).iters.size
  modify fun t => { t with
    iters := t.iters.push { annot }
    reprs := t.reprs.insert key (.iter i) }
  let c ← h.repr container
  let ct ← lowType c
  let name ← uniqueName "iter"
  let struct ← addType (.struct name [("iterable", ct), ("index", .signed)] {} true)
  modify fun t => { t with iters := t.iters.modify i fun k => { k with container := c, struct } }
  pure (.iter i)

def methodRepr (h : Layouts) (key name : String) (selfAnnot : Annot) : Typing Representation := do
  let i := (← get).methods.size
  modify fun t => { t with
    methods := t.methods.push { name, selfAnnot }
    reprs := t.reprs.insert key (.method i) }
  let self ← h.repr selfAnnot
  modify fun t => { t with methods := t.methods.modify i fun k => { k with self } }
  pure (.method i)

def weakrefRepr (h : Layouts) (c : Option ClassDefId) : Typing Representation := do
  h.inst c
  let target := (← instanceLayout c).target
  match (← types).makeWeakRef target with
  | .error f => inconsistent f.message
  | .ok (n, s) => do
    modifyThe World fun w => { w with prog := { w.prog with low := { w.prog.low with types := s } } }
    modify fun t => { t with weakrefs := (c, n) :: t.weakrefs }
    pure (.weakref c)

/-! ## Classes and instances -/

/-- The attributes of a class, sorted by name. -/
def attributesOf (w : World) (c : ClassDefId) : List Attribute :=
  (w.attrNames c).filterMap fun n => (w.attrOf? c n).map w.attr

/-- The field of an attribute in the table of a class; what is known at compile time has none. -/
def classField (h : Layouts) (a : Attribute) : Typing (Option (ReprField × LowType)) := do
  let field (r : Representation) (t : LowType) : ReprField × LowType := (⟨"cls_" ++ a.name, r⟩, t)
  let general : Typing (Option (ReprField × LowType)) := do
    let r ← h.repr a.value
    let t ← lowType r
    pure (if t = .void then none else some (field r t))
  match a.value with
  | .pbc descs _ =>
    if (← world).commonKind? descs = some .method then do
      match ← methodTypeWith h descs with
      | some ft => pure (some (field (.funcPtr ft) (.ptr ft)))
      | none => pure none
    else general
  | _ => general

def layClass (h : Layouts) (c : Option ClassDefId) : Typing Unit := do
  if (← get).classes.contains c then pure ()
  else match c with
    | none => do
      let object ← addType (.forward true none)
      let instantiate ← addType (.func [] (.ptr object))
      let name ← lowType (.text false)
      let table ← addType (.struct "object_vtable"
        [ ("subclassrange_min", .signed), ("subclassrange_max", .signed), ("name", name),
          ("instantiate", .ptr instantiate) ] { immutable := true } false)
      modify fun t => { t with rootObject := object, classes := t.classes.insert none { table } }
    | some d => do
      let unfinished ← addType (.forward false none)
      modify fun t => { t with classes := t.classes.insert c { table := unfinished } }
      let w ← world
      let base := (w.classDef d).base
      h.cls base
      let baseTable := (← classLayout base).table
      let fields ← ((attributesOf w d).filter Attribute.readonly).filterMapM fun a => do
        return (← classField h a).map fun (f, t) => (a.name, f, t)
      let name ← uniqueName ((← world).className d ++ "_vtable")
      let table ← addType (.struct name (("super", .node baseTable) :: fields.map fun (_, f, t) => (f.name, t))
        { immutable := true } false)
      modify fun t => { t with classes := t.classes.insert c { table, fields := fields.map fun (n, f, _) => (n, f) } }

/-- Remembers the finalizer of a class. -/
def noteFinalizer (d : ClassDefId) (struct : NodeId) : Typing Unit := do
  let w ← world
  modify fun t => { t with rtti := t.rtti ++ [(struct, { destructor := w.className d ++ ".__del__", light := false })] }
  let cls := (w.classDesc (w.classDef d).desc).cls
  let found ← tryCatch (do
      let f ← (Ana.descOf ((w.prog.host.classGet? cls "__del__").getD .nil) : Typing DescId)
      pure (some f)) fun _ => pure none
  match found with
  | some f => do
    match (← world).desc f with
    | .function _ => do
      if let some g ← graphOfFunction? f then
        modify fun t => { t with finalizers := t.finalizers ++ [(struct, g)] }
    | _ => pure ()
  | none => pure ()

def layRootInstance : Typing Unit := do
  let target := (← get).rootObject
  modify fun t => { t with instances := t.instances.insert none { target } }
  let withType ← needsTypePtr
  let fields ← if withType then do pure [("typeptr", ← tablePtr)] else pure []
  let struct ← addType (.struct "object" fields { typePtr := withType } true)
  modify fun t => { t with instances := t.instances.modify none fun k => { k with struct } }
  become target struct

def layInstanceOf (h : Layouts) (d : ClassDefId) : Typing Unit := do
  let target ← addType (.forward true none)
  modify fun t => { t with instances := t.instances.insert (some d) { target } }
  h.cls (some d)
  let w ← world
  let k := w.classDef d
  h.inst k.base
  let baseTarget := (← instanceLayout k.base).target
  let fields ← ((attributesOf w d).filter fun a => !a.readonly).mapM fun a => do
    let r ← h.repr a.value
    pure (a.name, (⟨"inst_" ++ a.name, r⟩ : ReprField), ← lowType r)
  let w ← world
  let k := w.classDef d
  let immutable := (fields.filter fun (n, _, _) => w.fieldRank k.desc n != .mutable).map fun (_, f, _) => f.name
  let rtti := w.classLookup? k.desc "__del__" == some k.desc
  let final := k.subs.isEmpty && (w.classDesc k.desc).settled
  let name ← uniqueName k.name
  let struct ← addType (.struct name (("super", .node baseTarget) :: fields.map fun (_, f, t) => (f.name, t))
    { immutableFields := immutable, rtti, final } true)
  let layout : InstanceLayout := { target, struct, fields := fields.map fun (n, f, _) => (n, f) }
  modify fun t => { t with instances := t.instances.insert (some d) layout }
  become target struct
  if rtti then noteFinalizer d struct

def layInstance (h : Layouts) (c : Option ClassDefId) : Typing Unit := do
  if (← get).instances.contains c then pure ()
  else match c with
    | none => do
      h.cls none
      layRootInstance
    | some d => layInstanceOf h d

/-! ## All annotations -/

/-- Makes the representation of an annotation. -/
def makeRepr (h : Layouts) (key : String) (a : Annot) : Typing Representation := do
  match a with
  | .impossible => pure .impossible
  | .none => pure .none
  | .bool _ _ => pure .bool
  | .int i => pure (.ofInt i)
  | .float _ _ => pure .float
  | .char _ _ => pure .char
  | .unichar _ _ => pure .unichar
  | .str _ _ _ => pure (.text false)
  | .unicode _ _ _ => pure (.text true)
  | .tuple _ _ items => tupleRepr h items
  | .list d => listRepr h key d
  | .dict d => dictRepr h key d
  | .inst c _ _ => do h.inst c; pure (.inst c)
  | .type _ _ _ => do h.cls none; pure (.cls none)
  | .pbc ds nullable => pbcRepr h key ds nullable
  | .iter c _ => iterRepr h key a c
  | .builtin name => pure (.builtin name)
  | .method name self => methodRepr h key name self
  | .weakref c => weakrefRepr h c
  | .object => unrepresented s!"no repr for {(← world).annotText a}"

/-- The representation of an annotation, made on the first request. -/
def reprStep (h : Layouts) (a : Annot) : Typing Representation := do
  let key := (← world).reprKey a
  match (← get).reprs[key]? with
  | some r => pure r
  | none => do
    let r ← makeRepr h key a
    modify fun t => { t with reprs := t.reprs.insert key r }
    pure r

def layoutsAux : (fuel : Nat) → Layouts
  | 0 =>
    { repr := fun _ => throw (.plain "types nest too deeply")
      inst := fun _ => throw (.plain "types nest too deeply")
      cls := fun _ => throw (.plain "types nest too deeply") }
  | n + 1 =>
    let h := layoutsAux n
    { repr := reprStep h, inst := layInstance h, cls := layClass h }

/-- Types nest less deeply than this. -/
def layouts : Layouts := layoutsAux 2000

/-- The representation of an annotation. -/
def reprOf (a : Annot) : Typing Representation := layouts.repr a

/-- Makes sure that the instances of a class have a structure. -/
def instanceRepr (c : Option ClassDefId) : Typing Representation := do
  layouts.inst c
  pure (.inst c)

/-- The representation of classes as values. -/
def typeRepr : Typing Representation := do
  layouts.cls none
  pure (.cls none)

def bindingRepr (o : Operand) : Typing Representation := do reprOf (← bindingOf o)

def graphType (g : GraphId) : Typing NodeId := graphTypeWith layouts g

/-- The function that a graph becomes. -/
def callable (g : GraphId) : Typing PtrValue := do
  match (← get).callables[g]? with
  | some p => pure p
  | none => do
    let ft ← graphType g
    let p ← onLow (LowStore.functionPtr ft ((← flow).graph g).name (some g))
    modify fun t => { t with callables := t.callables.insert g p }
    pure p

/-! ## Chains of bases -/

/-- A class and its bases up to the root. -/
def baseChain (w : World) : Option ClassDefId → List (Option ClassDefId)
  | none => [none]
  | some c => (w.mro c).map some ++ [none]

/-- Whether the instances of a class are instances of another one. -/
def isSubInstance (w : World) (c other : Option ClassDefId) : Bool := (baseChain w c).contains other

/-- The nearest base with an instance field of a name. -/
def locateField (c : Option ClassDefId) (attr : String) : Typing (Option (Option ClassDefId × ReprField)) := do
  let t ← get
  pure ((baseChain (← world) c).findSome? fun k =>
    ((t.instances[k]?).bind fun l => l.fields.lookup attr).map (k, ·))

/-- The nearest base whose table has a field of a name. -/
def locateClassField (c : Option ClassDefId) (attr : String) : Typing (Option (Option ClassDefId × ReprField)) := do
  let t ← get
  pure ((baseChain (← world) c).findSome? fun k =>
    ((t.classes[k]?).bind fun l => l.fields.lookup attr).map (k, ·))

end Typing
end FlowCompiler
