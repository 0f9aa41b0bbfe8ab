import FlowCompiler.Analysis.ClassDef

/-!
# Describing compile-time values

Every function, class and frozen prebuilt instance of the program has one description, made when it is
first met.  Prebuilt constants have annotations; containers keep theirs, so that a constant that holds
itself is met only once.
-/

namespace FlowCompiler.Ana

/-! ## Classes -/

/-- The regular base of a class and its mixins before and after it. -/
structure Bases where
  regular : Option ClassId := none
  before : List ClassId := []
  after : List ClassId := []

/-- Sorts the bases of a class; there is at most one that is no mixin. -/
def sortBases (c : ClassId) : Ana Bases := do
  let h ← host
  let mut out : Bases := {}
  for b in (h.cls c).bases do
    if (h.cls b).isMixin then
      if out.regular.isNone then out := { out with before := out.before ++ [b] }
      else out := { out with after := out.after ++ [b] }
    else if out.regular.isSome then
      fail Code.unsupported s!"multiple inheritance only supported with mixins: {h.className c}"
    else out := { out with regular := some b }
  if !out.before.isEmpty && !out.after.isEmpty then
    fail Code.unsupported s!"class {h.className c} has mixin bases both before and after the regular base"
  pure out

/-- Copies the attributes of mixins into a class; those of its own dictionary, and those that the
regular base `below` has, win. -/
def addMixins (d : DescId) (c : ClassId) (mixins : List ClassId) (below : Option ClassId) : Ana Unit := do
  let h ← host
  let mut seen := (h.cls c).dict.map Prod.fst
  for m in mixins.flatMap h.mro do
    if (h.cls m).isMixin then
      for (name, v) in (h.cls m).dict do
        let hidden := (below.bind fun b => h.classLookup? b name).isSome
        if !seen.contains name && !hidden then
          seen := name :: seen
          addClassEntry d name v true

/-- The attributes that a class allows: its own list and that of its base. -/
def enforcedAttrs (k : HostClass) (base : Option ClassDesc) : Ana (Option (List String)) := do
  if k.hasAttrs then
    match base with
    | none => pure (some k.attrs)
    | some b =>
      match b.enforced with
      | none => fail Code.noAttribute s!"{k.name} has _attrs_, but not its base class"
      | some names => pure (some (k.attrs ++ names))
  else pure (if k.builtin then some [] else none)

/-- Fills in the dictionary of a class, and gives its regular base. -/
def fillDict (d : DescId) (c : ClassId) : Ana (Option ClassId) := do
  let k := (← host).cls c
  let bases ← sortBases c
  addMixins d c bases.after bases.regular
  addMixins d c bases.before none
  for (name, v) in k.dict do
    addClassEntry d name v false
  pure bases.regular

/-- Describes the regular base of a class. -/
def fillBase (d : DescId) (b : ClassId) : Ana Unit := do
  let bd ← descOf (.cls b)
  modify (·.updateClassDesc d fun k => { k with base := some bd })

/-- Fills in the description of a class. -/
def fillClassDesc (d : DescId) (c : ClassId) : Ana Unit := do
  let k := (← host).cls c
  let regular ← fillDict d c
  regular.forM (fillBase d)
  let w ← get
  let enforced ← enforcedAttrs k ((w.classDesc d).base.map w.classDesc)
  let fields := k.immutableFields.foldl (fun fs decl =>
    let (name, r) := Rank.parse decl
    setDict fs name r) []
  modify (·.updateClassDesc d fun k => { k with enforced, immutableFields := fields })

/-- Describes a class; it is known by its description from the start, and forgotten when that fails. -/
def newClassDesc (c : ClassId) : Ana DescId := do
  let k := (← host).cls c
  let d ← addDesc (.cls { cls := c, name := k.name, settled := k.settled, special := k.special, immutable := k.immutable })
  modify fun w => { w with descIndex := w.descIndex.insert (.cls c) d }
  tryCatch (fillClassDesc d c) fun f => do
    modify fun w => { w with descIndex := w.descIndex.erase (.cls c) }
    throw f
  pure d

/-- The description of a method of a frozen prebuilt instance. -/
def frozenMethodDesc (f z : DescId) : Ana DescId := do
  match (← get).frozenMethodIndex[(f, z)]? with
  | some d => pure d
  | none => do
    let d ← addDesc (.frozenMethod f z)
    modify fun w => { w with frozenMethodIndex := w.frozenMethodIndex.insert (f, z) d }
    orderDesc d
    pure d

/-- Records a new description under the value it describes. -/
def register (v : Datum) (d : DescId) : Ana DescId := do
  modify fun w => { w with descIndex := w.descIndex.insert v d }
  orderDesc d
  pure d

/-- The description of a compile-time value, made when it is first asked for. -/
def describe (v : Datum) : Ana DescId := do
  match (← get).descIndex[v]? with
  | some d => pure d
  | none => do
    let h ← host
    match v with
    | .fn f => do
      let k := h.func f
      if k.classMethod then fail Code.classMethodCall s!"classmethods are not supported: {k.name}"
      register v (← addDesc (.function { func := f, name := k.name }))
    | .cls c => do register v (← newClassDesc c)
    | .inst i => do
      if !h.isFrozen i then
        fail Code.unsupported s!"mutable prebuilt instance {h.instText i} has no description"
      register v (← addDesc (.frozen i []))
    | .bound o => do
      match h.object o with
      | .bound f i => do
        if !h.isFrozen i then
          fail Code.unsupported s!"bound method {h.text v} of a mutable prebuilt instance"
        let fd ← descOf (.fn f)
        let z ← descOf (.inst i)
        frozenMethodDesc fd z
      | _ => fail Code.unsupported "don't know how to describe"
    | v => fail Code.unsupported s!"don't know how to describe {HostStore.typeText v}"

/-! ## Class definitions -/

/-- Has those analysed again who read the class of an instance that may be of a new subclass. -/
def seeNewSubclass (base : ClassDefId) : Ana Unit := do
  let w ← get
  for k in w.mro base do
    reflowAll (w.classDef k).classReads

/-- Where a call is emulated: outside of every graph. -/
def atPosition {α : Type} (pos : Option PosKey) (m : Ana α) : Ana α := do
  let prev := (← get).position
  modify fun w => { w with position := pos }
  let r ← tryCatch (do pure (Except.ok (← m))) fun f => pure (Except.error f)
  modify fun w => { w with position := prev }
  match r with
  | .ok a => pure a
  | .error f => throw f

/-- Calls a compile-time value from outside of every graph; a call under the same key replaces an
earlier one. -/
def emulateCall (key : EmulationKey) (a : Annot) (args : List Annot) : Ana Annot := do
  match a with
  | .pbc ds nullable => do
    let call : EmulatedCall := { key, descs := ds, nullable, args }
    modify fun w =>
      { w with emulated :=
          if w.emulated.any fun c => c.key = key then w.emulated.map fun c => if c.key = key then call else c
          else w.emulated ++ [call] }
    atPosition none (pbcCall ds { positional := args } none)
  | .impossible => pure .impossible
  | a => do fail Code.unsupported s!"emulated call of non-PBC {← text a}"

/-- The class definition of the base of a class. -/
def baseDef (d : DescId) : Ana (Option ClassDefId) := do
  match ((← get).classDesc d).base with
  | some b => do pure (some (← classDefOf b ""))
  | none => pure none

/-- Enters a class definition below that of its base. -/
def enterClass (d : DescId) (key : String) (base : Option ClassDefId) : Ana ClassDefId := do
  let w ← get
  let name := (w.classDesc d).name ++ (if key = "" then "" else "<" ++ key ++ ">")
  let c := w.classDefs.size + 1
  modify fun w => { w with classDefs := w.classDefs.push { name, key, desc := d, base } }
  base.forM fun b => modify (·.updateClassDef b fun k => { k with subs := k.subs ++ [c] })
  modify (·.updateClassDesc d fun k => { k with classDefs := k.classDefs ++ [(key, c)] })
  pure c

/-- Makes the dictionary of a class a source of constants. -/
def addSources (c : ClassDefId) (d : DescId) : Ana Unit := do
  for (name, _) in ((← get).classDesc d).dict do
    addSource c name (.cls d)

/-- Calls the finalizer of a class, which gives nothing. -/
def callFinalizer (c : ClassDefId) (d : DescId) : Ana Unit := do
  if (((← get).classDesc d).dict.lookup "__del__").isSome then
    let f ← readClassAttr d "__del__"
    let r ← emulateCall (.finalizer c) f [.instOf c]
    if !(← contains .none r) then
      fail Code.unsupported s!"{((← get).classDesc d).name}.__del__ must return None, got {← text r}"

/-- Makes the class definition of a description under a key. -/
def newClassDef (d : DescId) (key : String) : Ana ClassDefId := do
  let base ← baseDef d
  let c ← enterClass d key base
  base.forM seeNewSubclass
  addSources c d
  callFinalizer c d
  pure c

/-- The class definition of a description under a key. -/
def defineClass (d : DescId) (key : String) : Ana ClassDefId := do
  match ((← get).classDesc d).classDefs.lookup key with
  | some c => pure c
  | none => newClassDef d key

/-! ## Prebuilt constants -/

/-- The attributes of a prebuilt instance that may change are constants of its class. -/
def seeMutable (i : InstId) (c : ClassId) : Ana Unit := do
  if !(← get).seenMutable.contains i then
    modify fun w => { w with seenMutable := i :: w.seenMutable }
    let cd ← uniqueClassDef c
    let names := (((← host).inst i).attrs.map Prod.fst).mergeSort (· ≤ ·)
    for name in names do
      addSource cd name (.inst i)

/-- The annotation of instances like a prebuilt one. -/
def prebuiltClass (i : InstId) : Ana ClassDefId := do
  let c := (((← host).inst i).cls).getD 0
  let cd ← uniqueClassDef c
  seeMutable i c
  pure cd

/-- The annotation of a constant list. -/
def constantList (v : Datum) (xs : List Datum) : Ana Annot := do
  let d ← newListDef .impossible false false
  modify fun w => { w with immutableCache := w.immutableCache.insert v (.list d) }
  for x in xs do
    generalizeList d (← immutable x)
  pure (.list d)

/-- The annotation of a constant dictionary. -/
def constantDict (v : Datum) (ks vs : List Datum) : Ana Annot := do
  let d ← newDictDef .impossible .impossible
  modify fun w => { w with immutableCache := w.immutableCache.insert v (.dict d) }
  for (k, x) in ks.zip vs do
    let a ← immutable k
    let b ← immutable x
    generalizeKey d a
    generalizeValue d b
  pure (.dict d)

/-- The annotation of an integer of any size, when it fits in a word. -/
def constantBig (n : Int) : Ana Annot :=
  if Range.isWord n then pure (.constInt n)
  else if 0 ≤ n && n < (Nat.pow 2 64 : Nat) then pure (.int (.ofWidth 64 true))
  else fail Code.unsupported s!"long constant {n} does not fit a machine word"

/-- The annotation of a text: one character is a character. -/
def constantText (s : String) : Annot :=
  if s.utf8ByteSize = 1 then .constChar (UInt8.ofNat ((s.toList.headD 'a').toNat)) else .constStr s

def constantUnicode (s : String) : Annot :=
  match s.toList with
  | [c] => .constUnichar c.toNat
  | _ => .constUnicode s

def describedConstant (v : Datum) : Ana Annot := do newPbc [← descOf v] false

/-- The annotation of a prebuilt constant. -/
def annotateConstant (v : Datum) : Ana Annot := do
  let h ← host
  match v with
  | .nil => pure .none
  | .nothing => pure .none
  | .none => pure .none
  | .bool b => pure (.constBool b)
  | .count n => pure (.constInt n)
  | .int n => pure (.constInt n.toInt)
  | .int32 n => pure (.constInt n)
  | .rune n => pure (.constInt n)
  | .uint _ => pure (.int (.ofWidth 64 true))
  | .big n => constantBig n
  | .float d => constFloat d
  | .str s => pure (constantText s)
  | .char c => pure (.constChar c)
  | .unicode s => pure (constantUnicode s)
  | .unichar c => pure (.constUnichar c)
  | .tuple o =>
    match h.object o with
    | .tuple xs => do newTuple (← xs.mapM immutable)
    | _ => pure .impossible
  | .list o => do
    match (← get).immutableCache[v]? with
    | some a => pure a
    | none => match h.object o with
      | .list xs => constantList v xs
      | _ => pure .impossible
  | .dict o => do
    match (← get).immutableCache[v]? with
    | some a => pure a
    | none => match h.object o with
      | .dict ks vs => constantDict v ks vs
      | _ => pure .impossible
  | .builtin o =>
    match h.object o with
    | .builtin name => pure (.builtin name)
    | _ => pure .impossible
  | .weakref o =>
    match h.object o with
    | .weakref (some i) => return .weakref (some (← prebuiltClass i))
    | _ => pure (.weakref none)
  | .inst i => if h.isFrozen i then describedConstant v else return .instOf (← prebuiltClass i)
  | v => describedConstant v

/-! ## Declared types -/

/-- The annotation of a declared type; none when anything is allowed. -/
def annotateSpec : TypeSpec → Ana (Option Annot)
  | .basic .any _ _ => pure none
  | .basic .int _ _ => pure (some (.someInt false))
  | .basic .float _ _ => pure (some .someFloat)
  | .basic .bool _ _ => pure (some .someBool)
  | .basic .str z m => pure (some (.someStr m z))
  | .basic .unicode z m => pure (some (.someUnicode m z))
  | .basic .char z _ => pure (some (.someChar z))
  | .basic .none _ _ => pure (some .none)
  | s@(.basic .other _ _) => do fail Code.declaredTypeViolated s!"unknown type spec {(← host).specText s}"
  | .inst c m => do
    let cd ← uniqueClassDef (c.getD 0)
    pure (some (.inst (some cd) m []))
  | .list item => do
    let a ← annotateSpec item
    return some (.list (← newListDef (a.getD .object) false false))
  | .dict key item => do
    let k ← annotateSpec key
    let v ← annotateSpec item
    return some (.dict (← newDictDef (k.getD .object) (v.getD .object)))

def argMismatch {α : Type} (name : String) (i : Nat) (spec : TypeSpec) (actual : Annot) : Ana α := do
  let expected := (← host).specText spec
  let got ← text actual
  fail Code.declaredTypeViolated s!"{name} argument {i}:\nexpected {expected},\n     got {got}"

/-- Checks the items of a container argument; of containers inside it only the kind. -/
def checkItem (name : String) (i : Nat) (spec : TypeSpec) (item : Annot) : Ana Unit := do
  match ← annotateSpec spec with
  | none => pure ()
  | some expected => do
    let ok ← match expected, item with
      | .list _, .list _ => pure true
      | .list _, .impossible => pure true
      | .list _, _ => pure false
      | .dict _, .dict _ => pure true
      | .dict _, .impossible => pure true
      | .dict _, _ => pure false
      | e, a => contains e a
    if !ok then
      let expected := (← host).specText spec
      let got ← text item
      fail Code.declaredTypeViolated s!"{name} argument {i}: items expected {expected}, got {got}"

/-- The annotation that an argument has after its declared type: containers keep their own. -/
def enforceArg (name : String) (i : Nat) (spec : TypeSpec) (actual : Annot) : Ana Annot := do
  match spec with
  | .basic .any _ _ => pure actual
  | .list item => do
    match actual with
    | .list d => do
      checkItem name i item ((← get).listItem d).value
      pure actual
    | _ => argMismatch name i spec actual
  | .dict key item => do
    match actual with
    | .dict d => do
      checkItem name i key ((← get).item ((← get).dictDef d).key).value
      checkItem name i item ((← get).item ((← get).dictDef d).value).value
      pure actual
    | _ => argMismatch name i spec actual
  | spec => do
    match ← annotateSpec spec with
    | none => pure actual
    | some expected =>
      if ← contains expected actual then pure expected else argMismatch name i spec actual

/-- Applies declared types to arguments. -/
def enforceArgs (name : String) (specs : List TypeSpec) (cells : List Annot) : Ana (List Annot) := do
  if specs.length > cells.length then
    fail Code.declaredTypeViolated s!"{name}: {specs.length} argument types declared for {cells.length} arguments"
  let checked ← (specs.zip cells).zipIdx.mapM fun ((s, a), i) => enforceArg name i s a
  pure (checked ++ cells.drop specs.length)

end FlowCompiler.Ana
