import FlowCompiler.Analysis.World

/-!
# Union of annotations

The least annotation above two others.  Lists and dictionaries that meet become one: their items are
merged, all their definitions share the merged item, and whoever read an item that grew is analysed
again.  A union may also be asked for without such effects, and then fails where it would need one.
-/

namespace FlowCompiler.Ana

/-! ## Sets of descriptions -/

/-- Sorted, each description once. -/
def sortDescs (ds : List DescId) : List DescId := ds.eraseDups.mergeSort (· ≤ ·)

/-- Adds a description and gives its number. -/
def addDesc (d : Desc) : Ana DescId := modifyGet fun w => (w.descs.size + 1, { w with descs := w.descs.push d })

/-- Records that a description is complete. -/
def orderDesc (d : DescId) : Ana Unit := modify fun w => { w with descOrder := w.descOrder.push d }

/-- The description of a method, made when it is first asked for. -/
def methodDesc (m : MethodDesc) : Ana DescId := do
  match (← get).methodIndex[m]? with
  | some d => pure d
  | none => do
    let d ← addDesc (.method m)
    modify fun w => { w with methodIndex := w.methodIndex.insert m d }
    orderDesc d
    pure d

/-- The flags that all methods of a set have. -/
def commonFlags : List MethodDesc → List String
  | [] => []
  | m :: r => m.flags.filter fun f => r.all fun k => k.flags.contains f

/-- Whether a bound method is covered by another one with a wider class. -/
def isCovered (w : World) (ms : List MethodDesc) (m : MethodDesc) : Bool :=
  match m.self with
  | some c => ms.any fun k =>
      k.func == m.func && k.origin == m.origin && k.name == m.name && (match k.self with
        | some c' => c != c' && w.isSubclass c c'
        | none => false)
  | none => false

/-- Drops methods that others cover, after reducing all to the flags they have in common. -/
def simplifyMethods (ds : List DescId) : Ana (List DescId) := do
  let w ← get
  let methodOf (d : DescId) : Option MethodDesc := match w.desc d with
    | .method m => some m
    | _ => none
  let methods := ds.filterMap methodOf
  if methods.length < 2 then pure ds
  else do
    let others := ds.filter fun d => (methodOf d).isNone
    let flags := commonFlags methods
    let ms := methods.map fun m => { m with flags }
    let ids ← ms.mapM methodDesc
    let w ← get
    let kept := (ms.zip ids).filter fun (m, _) => !isCovered w ms m
    pure (others ++ kept.map Prod.snd)

/-- The annotation of one of several compile-time values. -/
def newPbc (ds : List DescId) (nullable : Bool) : Ana Annot := do
  let ds := sortDescs ds
  match ds with
  | d :: _ :: _ =>
    match (← get).desc d with
    | .method _ => return .pbc (sortDescs (← simplifyMethods ds)) nullable
    | _ => pure (.pbc ds nullable)
  | _ => pure (.pbc ds nullable)

/-! ## Constants of annotations -/

def addObject (o : HostObject) : Ana ObjId := modifyGet fun w =>
  let (i, host) := w.prog.host.addObject o
  (i, { w with prog := { w.prog with host } })

/-- The compile-time value that a description describes; a method of a prebuilt instance is a new
value every time. -/
def valueOfDesc (d : DescId) : Ana Datum := do
  let w ← get
  match w.desc d with
  | .function f => pure (.fn f.func)
  | .cls c => pure (.cls c.cls)
  | .method m => pure (.fn (w.funcDesc m.func).func)
  | .frozen i _ => pure (.inst i)
  | .frozenMethod f z =>
    match w.desc z with
    | .frozen i _ => return .bound (← addObject (.bound (w.funcDesc f).func i))
    | _ => pure .nil

/-- The constant of an annotation; no datum when it is not constant. -/
def constOf (a : Annot) : Ana Datum := do
  match a with
  | .none => pure .nothing
  | .bool (some b) _ => pure (.bool b)
  | .int { const := some n, .. } => pure (.int (Int64.ofInt n))
  | .float (some d) _ => pure (.float d)
  | .char (some c) _ => pure (.byte c)
  | .unichar (some c) _ => pure (.rune c)
  | .str (some s) _ _ => pure (.str s)
  | .unicode (some s) _ _ => pure (.str s)
  | .tuple _ (some o) _ => pure (.consts o)
  | .pbc [d] false => valueOfDesc d
  | .builtin name => pure (.builtinName name)
  | .type (some d) _ _ => pure d
  | _ => pure .nil

/-- A tuple of annotations; it is constant when all its items are. -/
def newTuple (items : List Annot) : Ana Annot := do
  let tag ← freshTag
  if items.all Annot.isConst then
    let cs ← items.mapM constOf
    return .tuple tag (some (← addObject (.consts cs))) items
  else pure (.tuple tag none items)

/-- A constant double; one that differs from itself gets a tag. -/
def constFloat (d : Double) : Ana Annot := do
  if d.isNaN then return .float (some d) (← freshTag) else pure (.float (some d) 0)

/-- The type of some variables. -/
def typeOf (const : Option Datum) (vars : List VarId) : Ana Annot := do
  if vars.isEmpty then pure (.type const [] 0) else return .type const vars (← freshTag)

/-! ## Items -/

def tooLate {α : Type} (what : String) : Ana α := fail Code.tooLate s!"too late to change {what}"
def changeUnallowed {α : Type} (reason : String) : Ana α := fail Code.changeNotAllowed s!"list change unallowed: {reason}"

def setItem (i : ItemId) (f : ListItem → ListItem) : Ana Unit := modify (·.updateItem i f)

def setStep (i : ItemId) (step : Int) : Ana Unit := do
  let it := (← get).item i
  if step ≠ it.step then
    if it.frozen then tooLate "list (range step)"
    setItem i fun it => { it with step }

/-- Points the holders of an item at it. -/
def patchHolders (i : ItemId) : Ana Unit := modify fun w =>
  (w.item i).holders.foldl (fun w h => match h with
    | .list d => { w with listDefs := w.listDefs.setIfInBounds d i }
    | .key d => { w with dictDefs := w.dictDefs.modify d fun k => { k with key := i } }
    | .value d => { w with dictDefs := w.dictDefs.modify d fun k => { k with value := i } }) w

/-- Sets the annotation of an item and has its readers analysed again. -/
def growItem (i : ItemId) (value : Annot) : Ana Unit := do
  setItem i fun it => { it with value }
  reflowAll ((← get).item i).reads

/-- Merges the flags of one item into another. -/
def mergeFlags (self other : ItemId) : Ana Unit := do
  let o := (← get).item other
  setItem self fun s =>
    { s with mutated := s.mutated || o.mutated, resized := s.resized || o.resized,
             immutable := s.immutable && o.immutable, mustNotResize := s.mustNotResize || o.mustNotResize }
  let s := (← get).item self
  if s.mustNotResize && s.resized then changeUnallowed "list merge with a resized list"
  if o.step ≠ s.step then setStep self 0

/-- Merges two items into one; one that must not change any more takes the other in. -/
def mergeItems (union : Annot → Annot → Ana Annot) (i j : ItemId) : Ana Unit := do
  if i ≠ j then
    let w ← get
    if (w.item j).frozen && (w.item i).frozen then tooLate "list (merge)"
    let (self, other) := if (w.item j).frozen then (j, i) else (i, j)
    mergeFlags self other
    let o := (← get).item other
    setItem self fun s =>
      { s with holders := o.holders ++ s.holders, reads := insertPositions s.reads o.reads }
    let value := ((← get).item self).value
    let merged ← union value o.value
    let changed := !(← get).equal merged value
    if changed && ((← get).item self).frozen then tooLate "list (item)"
    patchHolders self
    if changed then growItem self merged
    if !(← get).equal merged o.value then reflowAll o.reads

/-- Merges the items of two dictionaries; a failure gives their texts down to a depth. -/
def mergeDicts (depth : Nat) (union : Annot → Annot → Ana Annot) (d e : DictDefId) : Ana Unit := do
  let w ← get
  let (a, b) := (w.dictDef d, w.dictDef e)
  if a.key == b.key && a.value == b.value then pure ()
  else if a.customEqHash != b.customEqHash then
    throw (.union (w.dictText depth d) (w.dictText depth e) "mixing custom and default eq/hash dicts")
  else do
    mergeItems union a.key b.key
    let w ← get
    mergeItems union (w.dictDef d).value (w.dictDef e).value

/-! ## Union -/

def sameOr {α : Type} [BEq α] (a b : Option α) : Option α := if a == b then a else none

/-- A character as a string. -/
def asStr : Annot → Option (Option String × Bool × Bool)
  | .str c m z => some (c, m, z)
  | .char c z => some (c.map fun b => String.singleton (Char.ofNat b.toNat), false, z)
  | _ => none

/-- A wide character as a wide string. -/
def asUnicode : Annot → Option (Option String × Bool × Bool)
  | .unicode c m z => some (c, m, z)
  | .unichar c z => some (c.map fun b => String.singleton (Char.ofNat b.toNat), false, z)
  | _ => none

/-- A truth value as an integer. -/
def asInt? : Annot → Option IntFact
  | .int i => some i
  | .bool c _ => some (.ofBool c)
  | _ => none

def isFloatKind (a : Annot) : Bool := a.kind.isSub .float

/-- The union of annotations that only differ in what they say of simple values. -/
def simpleUnion? (w : World) (a b : Annot) : Option Annot :=
  match a, b with
  | .none, .none => some .none
  | .none, b => some (b.nullable?.getD .object)
  | a, .none => some (a.nullable?.getD .object)
  | .char c z, .char c' z' => some (.char (sameOr c c') (z && z'))
  | .unichar c z, .unichar c' z' => some (.unichar (sameOr c c') (z && z'))
  | .float (some x) t, .float (some y) t' =>
    some (if x.numEq y || (t == t' && t ≠ 0) then a else .someFloat)
  | .inst c m fs, .inst c' m' fs' =>
    let flags := fs.filter fs'.contains
    if c == c' then some (.inst c (m || m') flags)
    else some (match c, c' with
      | some x, some y => match w.commonBase? x y with
        | some base => .inst (some base) (m || m') flags
        | none => .object
      | _, _ => .object)
  | .builtin x, .builtin y => some (if x == y then a else .object)
  | .type c _ t, .type c' _ t' =>
    if t == t' && t ≠ 0 then some a
    else some (.type (match c, c' with
      | some x, some y => if x.same y then some x else none
      | _, _ => none) [] 0)
  | .weakref none, b@(.weakref _) => some b
  | a@(.weakref _), .weakref none => some a
  | .weakref (some x), .weakref (some y) =>
    some (match w.commonBase? x y with
      | some base => .weakref (some base)
      | none => .object)
  | a, b =>
    match asInt? a, asInt? b with
    | some i, some j => some (.int (i.union j))
    | _, _ =>
      if isFloatKind a && isFloatKind b then some .someFloat
      else match asStr a, asStr b with
        | some (c, m, z), some (c', m', z') => some (.str (sameOr c c') (m || m') (z && z'))
        | _, _ => match asUnicode a, asUnicode b with
          | some (c, m, z), some (c', m', z') => some (.unicode (sameOr c c') (m || m') (z && z'))
          | _, _ => none

/-- Facts that both sides have, each for the union of what they say; what has none is dropped. -/
def mergeFacts (union : Annot → Annot → Ana Annot) (fs gs : List (Fact Annot)) : Ana (List (Fact Annot)) := do
  let merged ← fs.mapM fun f => do
    match Annot.findFact? gs f.outcome f.var with
    | some b => tryCatch (do pure (some { f with value := ← union f.value b })) fun _ => pure none
    | none => pure none
  pure (merged.filterMap id)

def sideEffects : Failure := .plain "union would have side effects"

/-- The failure of a union that goes down further than it was allowed to. -/
def tooDeep : Failure := .plain "annotations nest too deeply"

/-- The union; `effects` tells whether lists and dictionaries may be merged. -/
def unionAux : (fuel : Nat) → (effects : Bool) → Annot → Annot → Ana Annot
  | 0, _, _, _ => throw tooDeep
  | n + 1, effects, a, b => do
    let go := unionAux n effects
    match a, b with
    | .impossible, b => pure b
    | a, .impossible => pure a
    | .bool c fs, .bool c' gs => return .bool (sameOr c c') (← mergeFacts (unionAux n false) fs gs)
    | .tuple t _ xs, .tuple t' _ ys =>
      if t == t' then pure a
      else if xs.length ≠ ys.length then pure .object
      else do newTuple (← (xs.zip ys).mapM fun (x, y) => go x y)
    | .list d, .list e => do
      let w ← get
      if w.listItemId d == w.listItemId e then pure a
      else if !effects then throw sideEffects
      else do
        mergeItems go (w.listItemId d) (w.listItemId e)
        pure (.list d)
    | .dict d, .dict e => do
      let w ← get
      if w.equal a b then pure a
      else if !effects then throw sideEffects
      else do
        mergeDicts n go d e
        pure (.dict d)
    | .pbc ds m, .pbc es m' => newPbc (ds ++ es) (m || m')
    | .iter c v, .iter c' v' => do
      if v ≠ v' then pure .object else return .iter (← go c c') v
    | .method x s, .method y s' => do
      if x ≠ y then pure .object else return .method x (← go s s')
    | a, b => pure ((simpleUnion? (← get) a b).getD .object)

/-- The least annotation above both; lists and dictionaries become one. -/
def union (a b : Annot) : Ana Annot := unionAux World.annotDepth true a b

/-- The union of several annotations. -/
def unionOf (as : List Annot) : Ana Annot := as.foldlM union Annot.impossible

/-- Whether the first annotation is above the second. -/
def contains (a b : Annot) : Ana Bool := do
  match b with
  | .impossible => pure true
  | _ =>
    match a, b with
    | .tuple t _ _, .tuple t' _ _ => if t == t' then pure true else go a b
    | _, _ => go a b
where
  go (a b : Annot) : Ana Bool :=
    tryCatch (do
      let u ← unionAux World.annotDepth false a b
      pure ((← get).equal u a)) fun _ => pure false

/-! ## Improvement -/

/-- The instances that two annotations of instances have in common. -/
def improveInstances (a b : Annot) (c : Option ClassDefId) (m : Bool) (flags : List String)
    (c' : Option ClassDefId) (m' : Bool) : Ana Annot := do
  let w ← get
  let narrow : Option (Option ClassDefId) := match c, c' with
    | none, c' => some c'
    | c, none => some c
    | some x, some y =>
      match w.commonBase? x y with
      | some base => if base == x then some (some y) else if base == y then some (some x) else none
      | none => none
  match narrow with
  | none => pure (if m && m' then .none else .impossible)
  | some res => do
    let out := Annot.inst res (m && m') flags
    if (← contains a out) && (← contains b out) then pure out
    else throw (.union (w.annotText a) (w.annotText b) "cannot improve instance annotation")

/-- The annotation `a` with the knowledge `b`, when that is strictly smaller. -/
def improveChecked (a b : Annot) : Ana Annot := do
  match a, b with
  | .inst c m flags, .inst c' m' _ => improveInstances a b c m flags c' m'
  | .none, b => pure (if b.canBeNone then .none else .impossible)
  | a, b => do
    let covered ← contains b a
    if covered then pure a
    else do
      let inside ← contains a b
      pure (if inside then b else a)

/-- As `improveChecked`, and without change where that fails. -/
def improve (a b : Annot) : Ana Annot := tryCatch (improveChecked a b) fun _ => pure a

/-- Adds a fact; with an earlier one of the same outcome and variable it is an improvement. -/
def addFact (fs : List (Fact Annot)) (outcome : Bool) (var : VarId) (value : Annot) : Ana (List (Fact Annot)) := do
  match Annot.findFact? fs outcome var with
  | some old => do
    let better ← improve old value
    pure (Annot.addFact (fun _ new => new) fs { outcome, var, value := better })
  | none => pure (fs ++ [⟨outcome, var, value⟩])

/-! ## Definitions of lists -/

def addItem (it : ListItem) : Ana ItemId := modifyGet fun w => (w.items.size, { w with items := w.items.push it })

/-- A new list definition. -/
def newListDef (value : Annot) (mutated resized : Bool) : Ana ListDefId := do
  let d := (← get).listDefs.size
  let i ← addItem { value, mutated := mutated || resized, resized, holders := [.list d] }
  modify fun w => { w with listDefs := w.listDefs.push i }
  pure d

/-- A new dictionary definition. -/
def newDictDef (key value : Annot) : Ana DictDefId := do
  let d := (← get).dictDefs.size
  let i ← addItem { value := key, holders := [.key d] }
  let j ← addItem { value, holders := [.value d] }
  modify fun w => { w with dictDefs := w.dictDefs.push { key := i, value := j } }
  pure d

def listItemOf (d : ListDefId) : Ana ItemId := return (← get).listItemId d
def keyItemOf (d : DictDefId) : Ana ItemId := return ((← get).dictDef d).key
def valueItemOf (d : DictDefId) : Ana ItemId := return ((← get).dictDef d).value

/-- Widens the annotation of an item to hold another one. -/
def generalizeItem (i : ItemId) (a : Annot) : Ana Unit := do
  let old := ((← get).item i).value
  let new ← union old a
  let w ← get
  if !w.equal new (w.item i).value then
    if (w.item i).frozen then tooLate "list (generalize)"
    growItem i new

def generalizeList (d : ListDefId) (a : Annot) : Ana Unit := do generalizeItem (← listItemOf d) a
def generalizeKey (d : DictDefId) (a : Annot) : Ana Unit := do generalizeItem (← keyItemOf d) a
def generalizeValue (d : DictDefId) (a : Annot) : Ana Unit := do generalizeItem (← valueItemOf d) a

/-- Reads an item at a position, which is analysed again when the item grows. -/
def readItem (i : ItemId) (pos : PosKey) : Ana Annot := do
  setItem i fun it => { it with reads := insertPos it.reads pos }
  return ((← get).item i).value

def readList (d : ListDefId) (pos : PosKey) : Ana Annot := do readItem (← listItemOf d) pos
def readKey (d : DictDefId) (pos : PosKey) : Ana Annot := do readItem (← keyItemOf d) pos
def readValue (d : DictDefId) (pos : PosKey) : Ana Annot := do readItem (← valueItemOf d) pos

/-- Records that elements are overwritten. -/
def mutateItem (i : ItemId) : Ana Unit := do
  let it := (← get).item i
  if !it.mutated then
    if it.frozen then tooLate "list (mutate)"
    setItem i fun it => { it with immutable := false, mutated := true }

def mutateList (d : ListDefId) : Ana Unit := do mutateItem (← listItemOf d)

/-- Records that the length changes. -/
def resizeList (d : ListDefId) : Ana Unit := do
  mutateList d
  let i ← listItemOf d
  let it := (← get).item i
  if !it.resized then
    if it.frozen then tooLate "list (resize)"
    if it.mustNotResize then changeUnallowed "resizing list"
    setItem i fun it => { it with resized := true }

/-- Forbids changes of the length. -/
def neverResize (d : ListDefId) : Ana Unit := do
  let i ← listItemOf d
  if ((← get).item i).resized then changeUnallowed "list already resized"
  setItem i fun it => { it with mustNotResize := true }

def markImmutable (d : ListDefId) : Ana Unit := do
  let i ← listItemOf d
  if ((← get).item i).mutated then changeUnallowed "list already mutated"
  setItem i fun it => { it with immutable := true }

def freezeItem (i : ItemId) : Ana Unit := setItem i fun it => { it with frozen := true }

/-- Records the step of a range; different steps become zero. -/
def generalizeStep (d : ListDefId) (step : Int) : Ana Unit := do
  let i ← listItemOf d
  let it := (← get).item i
  if it.step = noStep && !it.mutated then setStep i step
  else if it.step ≠ step then setStep i 0

/-- Makes the annotations of two lists agree without merging them. -/
def agreeLists (d e : ListDefId) : Ana Unit := do
  generalizeList d ((← get).listItem e).value
  generalizeList e ((← get).listItem d).value

def unionLists (d e : ListDefId) : Ana Unit := do
  let w ← get
  mergeItems union (w.listItemId d) (w.listItemId e)

def unionDicts (d e : DictDefId) : Ana Unit := mergeDicts World.annotDepth union d e

end FlowCompiler.Ana
