import FlowCompiler.Analysis.Transfer.Binary

/-!
# Builtin functions and methods

What calls of builtin functions give, and of the methods that builtin types have.  A method is called
with its object as the first argument, and found by the kind of that or the nearest wider kind that has
it, so that characters have the methods of strings.
-/

namespace FlowCompiler.Ana

/-- The result of a builtin function for its arguments. -/
abbrev BuiltinTransfer := OpContext → List Annot → Ana (Option Annot)

def checkArity (name : String) (args : List Annot) (lo hi : Nat) : Ana Unit := do
  if args.length < lo || args.length > hi then
    fail Code.signatureMismatch s!"{name}() takes {lo} to {hi} arguments, got {args.length}"

def nth (args : List Annot) (i : Nat) : Annot := (args[i]?).getD .impossible

/-! ## Functions -/

/-- A conversion that always gives the same. -/
def convertTo (a : Annot) : BuiltinTransfer := fun _ args => do
  if args.length > 2 then fail Code.signatureMismatch "conversion takes at most 2 arguments"
  ok a

/-- Whether a value is an instance of a type, when the annotations settle it. -/
def isInstance? (a typ : Annot) : Ana (Option Bool) := do
  match a with
  | .impossible => pure none
  | .none => pure (some false)
  | a => do
    if !a.canBeNone && (← contains typ a.nonnull) then pure (some true)
    else match typ, a with
      | .inst (some t) _ _, .inst (some c) _ _ => do
        let w ← get
        pure (if !w.isSubclass t c && !w.isSubclass c t then some false else none)
      | _, _ => pure none

/-- On the true side, the tested variable is an instance of the type. -/
def builtinIsinstance : BuiltinTransfer := fun c args => do
  checkArity "isinstance" args 2 2
  let (a, t) := (nth args 0, nth args 1)
  if !t.isConst then ok .someBool
  else do
    match ← valueOfType? (← constOf t) with
    | none => do unsupported s!"isinstance({← text a}, {← text t})"
    | some typ => do
      match ← isInstance? a typ, c.var? 1 with
      | some b, _ => ok (.constBool b)
      | none, some v => ok (truth [⟨true, v, typ⟩])
      | none, none => ok .someBool

def builtinIssubclass : BuiltinTransfer := fun _ args => do
  checkArity "issubclass" args 2 2
  let (a, b) := (nth args 0, nth args 1)
  if a.isConst && b.isConst then
    match ← constOf a, ← constOf b with
    | .cls x, .cls y => ok (.constBool ((← host).isSubclass x y))
    | _, _ => ok .someBool
  else ok .someBool

/-- The items of a range. -/
def rangeItem (start stop : IntFact) (step : Int) : Annot :=
  let (s, e) := (start.getRange, stop.getRange)
  if step > 0 && s.lo ≤ predWord e.hi then .intRange s.lo (predWord e.hi)
  else if step < 0 && succWord e.lo ≤ s.hi then .intRange (succWord e.lo) s.hi
  else .someInt (start.nonneg && step > 0)

/-- A list that remembers its step; a step that is not known is zero. -/
def builtinRange : BuiltinTransfer := fun _ args => do
  checkArity "range" args 1 3
  let (start, stop, step) := match args with
    | [stop] => (Annot.constInt 0, stop, Annot.constInt 1)
    | [start, stop] => (start, stop, .constInt 1)
    | _ => (nth args 0, nth args 1, nth args 2)
  if constInt? step = some 0 then unsupported "range() with step zero"
  let step := (constInt? step).getD 0
  let d ← newListHere [rangeItem (toInteger start) (toInteger stop) step]
  generalizeStep d step
  ok (.list d)

def builtinBool : BuiltinTransfer := fun c args => do
  match args with
  | [] => ok (.constBool false)
  | _ => do
    checkArity "bool" args 1 1
    match ← truthOf (nth args 0) (c.var? 0) with
    | r@(.bool _ []) => ok r
    | .bool _ fs =>
      match c.var? 1 with
      | some v => do ok (truth (← fs.foldlM (fun out f => addFact out f.outcome v f.value) []))
      | none => ok .someBool
    | r => ok r

def builtinFloat : BuiltinTransfer := fun _ args => do
  checkArity "float" args 0 1
  match args with
  | [a] => match constDouble? a with
    | some d => return some (← constFloat d)
    | none => ok .someFloat
  | _ => ok .someFloat

def builtinAbs : BuiltinTransfer := fun _ args => do
  checkArity "abs" args 1 1
  match nth args 0 with
  | .float _ _ => ok .someFloat
  | a => match asInt? a with
    | some i => ok (.int (i.unary "abs"))
    | none => do unsupported s!"abs({← text a})"

/-- The range of the least or the greatest of several integers. -/
def extremeRange (pick : Int → Int → Int) : Range → List Range → Range
  | r, rs => rs.foldl (fun acc q => ⟨pick acc.lo q.lo, pick acc.hi q.hi⟩) r

def builtinExtreme (pick : Int → Int → Int) : BuiltinTransfer := fun c args => do
  match args with
  | [] => fail Code.signatureMismatch "min/max without arguments"
  | [.list d] => return some (← readList d c.pos)
  | [a] => do unsupported s!"min/max over {← text a}"
  | a :: rest =>
    if args.all fun x => x.kind = .integer || x.kind = .bool then
      let r := extremeRange pick (toInteger a).getRange (rest.map fun x => (toInteger x).getRange)
      ok (.intRange r.lo r.hi)
    else return some (← unionOf args)

def builtinList : BuiltinTransfer := fun c args => do
  match args with
  | [] => listHere []
  | _ => do
    checkArity "list" args 1 1
    match nth args 0 with
    | .list d => do listHere [← readList d c.pos]
    | .str _ _ z => listHere [.someChar z]
    | .tuple _ _ items => do listHere [← unionOf items]
    | .dict d => do listHere [← readKey d c.pos]
    | a => do unsupported s!"list({← text a})"

def builtinInstantiate : BuiltinTransfer := fun _ args => do
  checkArity "instantiate" args 1 1
  match nth args 0 with
  | .pbc ds _ => do
    let made ← ds.mapM fun d => do
      match (← get).desc d with
      | .cls _ => return Annot.instOf (← classDefOf d "")
      | _ => unsupported s!"instantiate({(← get).descText d})"
    return some (← unionOf made)
  | a => do unsupported s!"instantiate({← text a})"

/-- The builtin functions by name. -/
def builtin? : String → Option BuiltinTransfer
  | "len" => some fun c args => do
    checkArity "len" args 1 1
    lenOf c.pos (nth args 0)
  | "isinstance" => some builtinIsinstance
  | "issubclass" => some builtinIssubclass
  | "range" => some builtinRange
  | "xrange" => some builtinRange
  | "bool" => some builtinBool
  | "int" => some (convertTo (.someInt false))
  | "float" => some builtinFloat
  | "str" => some (convertTo (.someStr false true))
  | "chr" => some (convertTo (.someChar false))
  | "unichr" => some (convertTo (.someUnichar false))
  | "ord" => some fun _ args => do
    checkArity "ord" args 1 1
    ordOf (nth args 0)
  | "abs" => some builtinAbs
  | "min" => some (builtinExtreme min)
  | "max" => some (builtinExtreme max)
  | "list" => some builtinList
  | "intmask" => some (convertTo (.someInt false))
  | "r_uint" => some (convertTo (.int (.ofWidth 64 true)))
  | "r_longlong" => some (convertTo (.int (.ofWidth 64 false)))
  | "r_ulonglong" => some (convertTo (.int (.ofWidth 64 true)))
  | "ovfcheck" => some fun _ args => do
    checkArity "ovfcheck" args 1 1
    ok (nth args 0)
  | "we_are_translated" => some fun _ _ => ok (.constBool true)
  | "instantiate" => some builtinInstantiate
  | _ => none

/-! ## Methods of lists -/

def selfList (args : List Annot) : ListDefId := listDefOf (nth args 0)

/-- A method that changes the length of a list and puts in one of its arguments. -/
def listPut (name : String) (count item : Nat) : BuiltinTransfer := fun _ args => do
  checkArity name args count count
  resizeList (selfList args)
  generalizeList (selfList args) (nth args item)
  ok .none

def listExtend : BuiltinTransfer := fun c args => do
  checkArity "extend" args 2 2
  resizeList (selfList args)
  match nth args 1 with
  | .list d => do
    generalizeList (selfList args) (← readList d c.pos)
    ok .none
  | .str _ _ z => do
    generalizeList (selfList args) (.someChar z)
    ok .none
  | a => do unsupported s!"extend with {← text a}"

def listPop : BuiltinTransfer := fun c args => do
  checkArity "pop" args 1 2
  resizeList (selfList args)
  return some (← readList (selfList args) c.pos)

def listRearrange : BuiltinTransfer := fun _ args => do
  mutateList (selfList args)
  ok .none

def listIndex : BuiltinTransfer := fun _ args => do
  checkArity "index" args 2 2
  generalizeList (selfList args) (nth args 1)
  ok (.someInt true)

def listMethod? : String → Option BuiltinTransfer
  | "append" => some (listPut "append" 2 1)
  | "extend" => some listExtend
  | "pop" => some listPop
  | "insert" => some (listPut "insert" 3 2)
  | "reverse" => some listRearrange
  | "sort" => some listRearrange
  | "remove" => some (listPut "remove" 2 1)
  | "index" => some listIndex
  | "count" => some listIndex
  | _ => none

/-! ## Methods of dictionaries -/

def selfDict (args : List Annot) : DictDefId := dictDefOf (nth args 0)

def dictGet : BuiltinTransfer := fun c args => do
  checkArity "get" args 2 3
  generalizeKey (selfDict args) (nth args 1)
  let v ← readValue (selfDict args) c.pos
  return some (← union v ((args[2]?).getD .none))

def dictSetDefault : BuiltinTransfer := fun c args => do
  checkArity "setdefault" args 3 3
  generalizeKey (selfDict args) (nth args 1)
  generalizeValue (selfDict args) (nth args 2)
  return some (← readValue (selfDict args) c.pos)

def dictPop : BuiltinTransfer := fun c args => do
  checkArity "pop" args 2 3
  generalizeKey (selfDict args) (nth args 1)
  let v ← readValue (selfDict args) c.pos
  match args[2]? with
  | some dflt => return some (← union v dflt)
  | none => ok v

/-- A pair of a key and its value. -/
def entryOf (d : DictDefId) (pos : PosKey) : Ana Annot := do
  let k ← readKey d pos
  let v ← readValue d pos
  newTuple [k, v]

/-- Taking all entries over from another dictionary makes one of the two. -/
def dictUpdate : BuiltinTransfer := fun _ args => do
  checkArity "update" args 2 2
  match nth args 1 with
  | .dict e => do
    unionDicts (selfDict args) e
    ok .none
  | a => do unsupported s!"update with {← text a}"

def dictIter (variant : String) : BuiltinTransfer := fun _ args => ok (.iter (nth args 0) variant)

def dictMethod? : String → Option BuiltinTransfer
  | "get" => some dictGet
  | "setdefault" => some dictSetDefault
  | "pop" => some dictPop
  | "popitem" => some fun c args => do return some (← entryOf (selfDict args) c.pos)
  | "keys" => some fun c args => do listHere [← readKey (selfDict args) c.pos]
  | "values" => some fun c args => do listHere [← readValue (selfDict args) c.pos]
  | "items" => some fun c args => do listHere [← entryOf (selfDict args) c.pos]
  | "iterkeys" => some (dictIter "keys")
  | "itervalues" => some (dictIter "values")
  | "iteritems" => some (dictIter "items")
  | "clear" => some fun _ _ => ok .none
  | "copy" => some fun _ args => ok (nth args 0)
  | "update" => some dictUpdate
  | _ => none

/-! ## Methods of strings -/

def formatMethod : BuiltinTransfer := fun _ args => do fail Code.noFormat s!"{← text (nth args 0)}.format()"

def toStr : BuiltinTransfer := fun _ args => ok (.someStr false (noNul (nth args 0)))
def toUnicode : BuiltinTransfer := fun _ args => ok (.someUnicode false (noNul (nth args 0)))

def strTests : List String := ["startswith", "endswith", "isdigit", "isalpha", "isalnum", "isspace", "islower", "isupper"]
def unicodeTests : List String := ["startswith", "endswith", "isdigit", "isalpha", "isspace"]
def searches : List String := ["find", "rfind", "count"]
def transforms : List String := ["strip", "lstrip", "rstrip", "lower", "upper", "replace", "join"]

def strMethod? (name : String) : Option BuiltinTransfer :=
  if strTests.contains name then some fun _ _ => ok .someBool
  else if searches.contains name then some fun _ _ => ok (.someInt false)
  else if transforms.contains name then some toStr
  else match name with
    | "split" | "rsplit" => some fun _ args => listHere [.someStr false (noNul (nth args 0))]
    | "format" => some formatMethod
    | "decode" => some toUnicode
    | _ => none

def unicodeMethod? (name : String) : Option BuiltinTransfer :=
  if unicodeTests.contains name then some fun _ _ => ok .someBool
  else if searches.contains name then some fun _ _ => ok (.someInt false)
  else if transforms.contains name then some toUnicode
  else match name with
    | "format" => some formatMethod
    | "encode" => some toStr
    | _ => none

/-- The method of a kind itself. -/
def ownMethod? (k : Kind) (name : String) : Option BuiltinTransfer :=
  match k with
  | .list => listMethod? name
  | .dict => dictMethod? name
  | .string => strMethod? name
  | .unicode => unicodeMethod? name
  | _ => none

/-- The method of a kind or of the nearest wider one that has it. -/
def method? (k : Kind) (name : String) : Option BuiltinTransfer := k.ancestors.findSome? fun a => ownMethod? a name

/-! ## Attributes and calls -/

def getattrOp : Transfer := fun c => do
  match (c.args[1]?).bind constText? with
  | none => do fail Code.dynamicAttrName s!"getattr({← text (c.arg 0)}, {← text (c.arg 1)})"
  | some name =>
    match c.arg 0 with
    | .inst (some k) _ flags => return some (← getInstanceAttr k name flags c.pos)
    | .inst none _ _ => fail Code.noAttribute "getattr on an instance of an unknown class"
    | .pbc ds m => return some (← pbcGetattr ds m name)
    | .none => ok .impossible
    | a =>
      if (method? a.kind name).isSome then ok (.method name a)
      else do fail Code.noAttribute s!"{← text a} has no attribute {Quoted.quote name}"

def setattrOp : Transfer := fun c => do
  if c.args.length ≠ 3 then unsupported "setattr takes 3 arguments"
  match constText? (c.arg 1) with
  | none => do fail Code.dynamicAttrName s!"setattr({← text (c.arg 0)}, {← text (c.arg 1)})"
  | some name =>
    match c.arg 0 with
    | .inst (some k) _ _ => do
      setInstanceAttr k name (c.arg 2)
      pure none
    | .inst none _ _ => fail Code.noAttribute "setattr on an instance of an unknown class"
    | a => do unsupported s!"setattr({← text a}, {Quoted.quote name})"

/-- Records a place that calls compile-time values. -/
def recordCallSite (pos : PosKey) : Ana Unit :=
  modify fun w => w.updateProgress fun p => { p with sites := insertPos p.sites pos }

/-- The arguments of a call of a builtin, which are positional only. -/
def builtinArgs (c : OpContext) : Ana (List Annot) := do
  let args ← argsOfCall c.op
  if !args.keywords.isEmpty || args.star.isSome then
    unsupported s!"keyword or star arguments to {← text (c.arg 0)}"
  pure args.positional

def callOp : Transfer := fun c => do
  match c.arg 0 with
  | .pbc ds _ => do
    recordCallSite c.pos
    let args ← argsOfCall c.op
    return some (← pbcCall ds args (some c.pos))
  | .builtin name => do
    let args ← builtinArgs c
    match builtin? name with
    | some f => f c args
    | none => unsupported s!"builtin {name} is not supported"
  | .method name self => do
    let args ← builtinArgs c
    match method? self.kind name with
    | some f => f c (self :: args)
    | none => do fail Code.noAttribute s!"{← text self} has no method {Quoted.quote name}"
  | .weakref target => do
    if c.args.length ≠ 1 then fail Code.signatureMismatch "weakref takes no arguments"
    match target with
    | none => ok .none
    | some k => ok (.inst (some k) true [])
  | a => do unsupported s!"calling {← text a}"

/-! ## Choosing the transfer function -/

/-- The operations that are chosen by their first argument. -/
def unary? : String → Option Transfer
  | "pos" | "neg" | "abs" | "invert" | "pos_ovf" | "neg_ovf" | "abs_ovf" | "invert_ovf" => some unaryArith
  | "bool" => some boolOp
  | "len" => some fun c => lenOf c.pos (c.arg 0)
  | "hash" => some hashOp
  | "delattr" => some delattrOp
  | "str" | "repr" | "hex" | "oct" => some toStringOp
  | "int" | "id" => some toIntOp
  | "float" => some toFloatOp
  | "ord" => some fun c => ordOf (c.arg 0)
  | "type" => some typeOp
  | "issubtype" => some issubtypeOp
  | "iter" => some iterOp
  | "next" => some nextOp
  | "getattr" => some getattrOp
  | "setattr" => some setattrOp
  | "simple_call" | "call_args" => some callOp
  | "contains" => some containsOp
  | "newlist" => some fun c => listHere c.args
  | "newdict" => some newDictOp
  | "newtuple" => some fun c => do return some (← newTuple c.args)
  | "same_as" | "hint" => some fun c => ok (c.arg 0)
  | "getslice" => some getsliceOp
  | "setslice" => some setsliceOp
  | _ => none

def needsNoArgs (name : String) : Bool := name == "newlist" || name == "newdict" || name == "newtuple"

/-- An operation that is chosen by its first argument, or unknown. -/
def transferUnary (name : String) (c : OpContext) : Ana (Option Annot) := do
  match unary? name with
  | none => unsupported s!"unknown operation {c.op.name}"
  | some f =>
    if c.args.isEmpty && !needsNoArgs name then unsupported s!"{name} without arguments"
    f c

/-- The result of any operation. -/
def transfer : Transfer := fun c => do
  let name := opBaseName c.op.name
  match pairHandlers? name, c.args with
  | some handlers, a :: b :: _ =>
    match Kind.lookupPair handlers a.kind b.kind with
    | some (_, f) => f c a b
    | none => do unsupported s!"{name}({← text a}, {← text b}) is not supported"
  | _, _ => transferUnary name c

end FlowCompiler.Ana
