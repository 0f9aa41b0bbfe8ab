import FlowCompiler.Analysis.Call

/-!
# Operations on one value

Transfer functions that are chosen by the kind of their first argument: arithmetic, truth, length,
conversions, types and iteration.
-/

/-! ## Transfer functions

What an operation makes of the annotations of its arguments.  This module has what all of them share:
the context of an operation, constants as texts and numbers, and the lists of the current position. -/

namespace FlowCompiler

/-- An operation under analysis. -/
structure OpContext where
  op : FlowOp
  pos : PosKey
  args : List Annot

namespace OpContext

/-- An argument, when it is a variable. -/
def var? (c : OpContext) (i : Nat) : Option VarId := (c.op.args[i]?).bind Operand.var?

def arg (c : OpContext) (i : Nat) : Annot := (c.args[i]?).getD .impossible

end OpContext

/-- The name of an operation without the mark of those that work in place. -/
def opBaseName (name : String) : String := if name.startsWith "inplace_" then (name.drop 8).toString else name

/-- The name without the mark of those that check for overflow, too. -/
def arithBase (name : String) : String :=
  let name := opBaseName name
  if name.length > 4 && name.endsWith "_ovf" then (name.dropEnd 4).toString else name

namespace Ana

/-- The result of an operation; none when it has no result. -/
abbrev Transfer := OpContext → Ana (Option Annot)

def unsupported {α : Type} (text : String) : Ana α := fail Code.unsupported text

def charText (n : Nat) : String := String.singleton (Char.ofNat n)

/-- A constant text or character as a text. -/
def textOf? : Datum → Option String
  | .str s => some s
  | .byte b => some (charText b.toNat)
  | .rune c => some (charText c.toNat)
  | _ => none

/-- The text of a constant string or character. -/
def constText? : Annot → Option String
  | .str c _ _ => c
  | .unicode c _ _ => c
  | .char c _ => c.map fun b => charText b.toNat
  | .unichar c _ => c.map fun n => charText n.toNat
  | .type c _ _ => c.bind textOf?
  | _ => none

/-- A truth value as an integer; nothing is known of what is neither. -/
def toInteger (a : Annot) : IntFact := (asInt? a).getD (.signed false)

def constInt? : Annot → Option Int
  | .int i => i.const
  | .bool c _ => c.map fun b => if b then 1 else 0
  | .type (some (.int n)) _ _ => some n.toInt
  | .type (some (.bool b)) _ _ => some (if b then 1 else 0)
  | _ => none

/-- A constant number as a double. -/
def constDouble? : Annot → Option Double
  | .float c _ => c
  | .int i => i.const.map Double.ofInt
  | .bool c _ => c.map fun b => Double.ofInt (if b then 1 else 0)
  | .type (some (.float d)) _ _ => some d
  | .type (some (.int n)) _ _ => some (Double.ofInt n.toInt)
  | .type (some (.bool b)) _ _ => some (Double.ofInt (if b then 1 else 0))
  | _ => none

def foldable : Datum → Bool
  | .bool _ => true
  | .int _ => true
  | .float _ => true
  | .str _ => true
  | .byte _ => true
  | .rune _ => true
  | .int32 _ => true
  | .nothing => true
  | _ => false

/-- Whether two constants are equal, when that can be told at compile time. -/
def foldEqual? (x y : Datum) : Option Bool :=
  match textOf? x, textOf? y with
  | some s, some t => some (s == t)
  | _, _ => if foldable x && foldable y then some (x.same y) else none

/-- Whether two constant annotations are equal, when that can be told. -/
def foldEqualAnnots (a b : Annot) : Ana (Option Bool) := do
  if a.isConst && b.isConst then return foldEqual? (← constOf a) (← constOf b) else pure none

/-- Whether the characters of a string are all different from zero. -/
def noNul : Annot → Bool
  | .str _ _ z => z
  | .char _ z => z
  | .unicode _ _ z => z
  | .unichar _ z => z
  | _ => false

/-- The list definition of the current position: analysing an operation again gives the same list. -/
def listDefHere : Ana ListDefId := do
  match (← get).position with
  | none => newListDef .impossible false false
  | some pos =>
    match (← get).listDefAt[pos]? with
    | some d => pure d
    | none => do
      let d ← newListDef .impossible false false
      modify fun w => { w with listDefAt := w.listDefAt.insert pos d }
      pure d

/-- A list made at the current position out of items. -/
def newListHere (items : List Annot) : Ana ListDefId := do
  let d ← listDefHere
  for a in items do
    generalizeList d a
  pure d

def listHere (items : List Annot) : Ana (Option Annot) := return some (.list (← newListHere items))

/-- The dictionary definition of the current position. -/
def dictDefHere : Ana DictDefId := do
  match (← get).position with
  | none => newDictDef .impossible .impossible
  | some pos =>
    match (← get).dictDefAt[pos]? with
    | some d => pure d
    | none => do
      let d ← newDictDef .impossible .impossible
      modify fun w => { w with dictDefAt := w.dictDefAt.insert pos d }
      pure d

/-- The annotation of the instances of a builtin type. -/
def valueOfBuiltinType? : String → Option Annot
  | "int" => some (.someInt false)
  | "bool" => some .someBool
  | "float" => some .someFloat
  | "str" => some (.someStr false false)
  | "unicode" => some (.someUnicode false false)
  | _ => none

/-- The annotation of the instances of a type constant. -/
def valueOfType? (t : Datum) : Ana (Option Annot) := do
  match t with
  | .cls c => return some (.instOf (← uniqueClassDef c))
  | .builtin o =>
    match (← host).object o with
    | .builtin name => pure (valueOfBuiltinType? name)
    | _ => pure none
  | .builtinName name => pure (valueOfBuiltinType? name)
  | _ => pure none

def truth (fs : List (Fact Annot)) : Annot := .bool none fs

end Ana
end FlowCompiler

namespace FlowCompiler.Ana

def ok (a : Annot) : Ana (Option Annot) := pure (some a)

/-! ## Arithmetic and truth -/

def unaryArith : Transfer := fun c => do
  let name := arithBase c.op.name
  let a := c.arg 0
  match a with
  | .float (some d) _ =>
    match name with
    | "neg" => return some (← constFloat d.neg)
    | "abs" => return some (← constFloat d.abs)
    | "pos" => ok a
    | "invert" => do unsupported s!"{name}({← text a})"
    | _ => ok .someFloat
  | .float none _ => do
    if name = "invert" then unsupported s!"{name}({← text a})" else ok .someFloat
  | a =>
    match asInt? a with
    | some i => ok (.int (i.unary name))
    | none => do unsupported s!"{name}({← text a})"

/-- The truth of a value, when its annotation settles it. -/
def constTruth? : Annot → Option Bool
  | .none => some false
  | .int i => i.const.map (· ≠ 0)
  | .float c _ => c.map fun d => !(d.numEq (Double.ofInt 0))
  | .char _ _ => some true
  | .unichar _ _ => some true
  | .str c _ _ => c.map (· ≠ "")
  | .unicode c _ _ => c.map (· ≠ "")
  | .tuple _ _ items => some (!items.isEmpty)
  | .inst _ m _ => if m then none else some true
  | .weakref _ => some true
  | .builtin _ => some true
  | .method _ _ => some true
  | .type _ _ _ => some true
  | .pbc ds m => if ds.isEmpty then some false else if m then none else some true
  | _ => none

/-- What is known of a variable by its truth. -/
def truthFacts (v : VarId) (a : Annot) : Ana (List (Fact Annot)) := do
  let fs ← if a.canBeNone then addFact [] true v a.nonnull else pure []
  match a with
  | .int i =>
    if i.unsigned then pure fs
    else do
      let r := i.getRange
      let fs ← if r.lo = 0 && r.hi > 0 then addFact fs true v (.intRange 1 r.hi) else pure fs
      addFact fs false v (.constInt 0)
  | _ => pure fs

/-- The truth of a value that is held by a variable. -/
def truthOf (a : Annot) (v : Option VarId) : Ana Annot := do
  match a with
  | .bool _ _ => pure a
  | a =>
    match constTruth? a, v with
    | some b, _ => pure (.constBool b)
    | none, none => pure .someBool
    | none, some v => return truth (← truthFacts v a)

def boolOp : Transfer := fun c => do ok (← truthOf (c.arg 0) (c.var? 0))

/-! ## Length -/

def lenOf (pos : PosKey) (a : Annot) : Ana (Option Annot) := do
  match a with
  | .tuple _ _ items => ok (.constInt items.length)
  | .char _ _ => ok (.constInt 1)
  | .unichar _ _ => ok (.constInt 1)
  | .str (some s) _ _ => ok (.constInt s.utf8ByteSize)
  | .unicode (some s) _ _ => ok (.constInt s.length)
  | .str none _ _ => ok (.someInt true)
  | .unicode none _ _ => ok (.someInt true)
  | .list d => do
    let item ← readList d pos
    ok (if item.isImpossible then .constInt 0 else .someInt true)
  | .dict d => do
    let key ← readKey d pos
    ok (if key.isImpossible then .constInt 0 else .someInt true)
  | a => do unsupported s!"len({← text a})"

/-! ## Conversions -/

def toStringOp : Transfer := fun c =>
  match c.op.name, c.arg 0 with
  | "str", a@(.str _ _ _) => ok a
  | "str", .char _ z => ok (.someStr false z)
  | _, _ => ok (.someStr false true)

def toIntOp : Transfer := fun c =>
  match c.op.name, asInt? (c.arg 0) with
  | "int", some i => ok (.int i)
  | _, _ => ok (.someInt false)

def toFloatOp : Transfer := fun c => do
  match constDouble? (c.arg 0) with
  | some d => return some (← constFloat d)
  | none => ok .someFloat

def ordOf (a : Annot) : Ana (Option Annot) := do
  match a with
  | .char (some b) _ => ok (.constInt b.toNat)
  | .char none _ => ok (.intRange 0 255)
  | .unichar (some n) _ => ok (.constInt n)
  | .unichar none _ => ok (.intRange 0 0x10ffff)
  | a => do unsupported s!"ord({← text a})"

/-! ## Types -/

def typeOp : Transfer := fun c => do return some (← typeOf none (c.var? 0).toList)

/-- On the true side, a variable whose type is a subtype of a class is an instance of it. -/
def issubtypeOp : Transfer := fun c => do
  if c.args.length ≠ 2 then unsupported "issubtype takes 2 arguments"
  match c.arg 0, c.arg 1 with
  | .type _ vars _, t =>
    if !t.isConst then ok .someBool
    else do
      match ← valueOfType? (← constOf t) with
      | none => ok .someBool
      | some a => do
        let fs ← vars.foldlM (fun fs v => addFact fs true v a) []
        ok (truth fs)
  | _, _ => ok .someBool

/-! ## Iteration -/

def iterOp : Transfer := fun c => do
  match c.arg 0 with
  | a@(.list _) => ok (.iter a "")
  | a@(.dict _) => ok (.iter a "")
  | a@(.str _ _ _) => ok (.iter a "")
  | a@(.unicode _ _ _) => ok (.iter a "")
  | a@(.tuple _ _ _) => ok (.iter a "")
  | a@(.iter _ _) => ok a
  | a => do unsupported s!"iter({← text a})"

def nextOp : Transfer := fun c => do
  match c.arg 0 with
  | .iter container variant =>
    match container with
    | .list d => return some (← readList d c.pos)
    | .str _ _ z => ok (.someChar z)
    | .unicode _ _ z => ok (.someUnichar z)
    | .tuple _ _ items => return some (← unionOf items)
    | .dict d =>
      match variant with
      | "values" => return some (← readValue d c.pos)
      | "items" => do
        let k ← readKey d c.pos
        let v ← readValue d c.pos
        return some (← newTuple [k, v])
      | _ => return some (← readKey d c.pos)
    | a => do unsupported s!"next over {← text a}"
  | a => do unsupported s!"next({← text a})"

/-! ## Containers -/

/-- Whether a constant container has a constant item. -/
def constContains (container item : Datum) : Ana Bool := do
  match textOf? container with
  | some s =>
    match textOf? item with
    | some t => pure ((s.splitOn t).length > 1 || t.isEmpty)
    | none => pure false
  | none =>
    match container with
    | .consts o =>
      match (← host).object o with
      | .consts xs => pure (xs.any fun x => foldEqual? x item == some true)
      | _ => pure false
    | _ => pure false

def containsOp : Transfer := fun c => do
  if c.args.length ≠ 2 then unsupported "contains takes 2 arguments"
  let (s, item) := (c.arg 0, c.arg 1)
  let byConstant : Ana (Option Annot) := do
    if s.isConst && item.isConst then ok (.constBool (← constContains (← constOf s) (← constOf item)))
    else ok .someBool
  match s with
  | .list d => do
    generalizeList d item
    ok .someBool
  | .dict d => do
    generalizeKey d item
    ok .someBool
  | .str _ _ _ => byConstant
  | .unicode _ _ _ => byConstant
  | .tuple _ _ _ => byConstant
  | s => do unsupported s!"{← text item} in {← text s}"

def newDictOp : Transfer := fun c => do
  if c.args.length % 2 ≠ 0 then unsupported "newdict with an odd number of arguments"
  let d ← dictDefHere
  for i in List.range (c.args.length / 2) do
    generalizeKey d (c.arg (2 * i))
    generalizeValue d (c.arg (2 * i + 1))
  ok (.dict d)

def getsliceOp : Transfer := fun c => do
  match c.arg 0 with
  | .list d => do listHere [← readList d c.pos]
  | .str _ _ z => ok (.someStr false z)
  | .char _ z => ok (.someStr false z)
  | .unicode _ _ z => ok (.someUnicode false z)
  | a => do unsupported s!"getslice({← text a})"

def setsliceOp : Transfer := fun c => do
  match c.arg 0 with
  | .list d => do
    if c.args.length ≠ 4 then unsupported s!"setslice({← text (c.arg 0)})"
    match c.arg 3 with
    | .list e => do
      resizeList d
      generalizeList d (← readList e c.pos)
      pure none
    | a => do unsupported s!"setslice from {← text a}"
  | a => do unsupported s!"setslice({← text a})"

def hashOp : Transfer := fun c => do fail Code.noHash s!"hash({← text (c.arg 0)})"

def delattrOp : Transfer := fun c => do
  match c.arg 0 with
  | .object => pure none
  | a => do fail Code.noDelattr s!"delattr({← text a})"

end FlowCompiler.Ana
