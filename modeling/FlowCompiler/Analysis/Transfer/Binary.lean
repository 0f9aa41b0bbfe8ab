import FlowCompiler.Analysis.Transfer.Unary

/-!
# Operations on two values

Transfer functions that are chosen by the pair of the kinds of their first two arguments.  Comparisons
also tell what is known of their operands on either outcome.
-/

namespace FlowCompiler.Ana

/-- The result of an operation on two values. -/
abbrev PairTransfer := OpContext → Annot → Annot → Ana (Option Annot)

/-! ## Any values -/

def compareObjects : PairTransfer := fun c a b => do
  match ← foldEqualAnnots a b, c.op.name with
  | some eq, "eq" => ok (.constBool eq)
  | some eq, "ne" => ok (.constBool !eq)
  | _, _ => ok .someBool

/-- Whether two values are identical, when their annotations settle it. -/
def identical? (a b : Annot) : Ana (Option Bool) := do
  if b.isConst then
    if b.isNone && !a.canBeNone then pure (some false) else foldEqualAnnots a b
  else pure (if a.isConst && a.isNone && !b.canBeNone then some false else none)

/-- What the identity of the value of variable `v` with `other` tells: on the true side it is like the
other one, and on the false side it is not nothing when the other one is. -/
def identityFacts (fs : List (Fact Annot)) (v : Option VarId) (other self : Annot) : Ana (List (Fact Annot)) := do
  match v with
  | none => pure fs
  | some v => do
    let fs ← match self with
      | .type _ vars _ =>
        if other.isConst then do
          match ← valueOfType? (← constOf other) with
          | some a => vars.foldlM (fun fs x => addFact fs true x a) fs
          | none => pure fs
        else pure fs
      | _ => pure fs
    let fs ← addFact fs true v other
    addFact fs false v (if other.isNone && self.canBeNone then self.nonnull else self)

def isOp : PairTransfer := fun c a b => do
  let known ← identical? a b
  let fs ← identityFacts [] (c.var? 0) b a
  let fs ← identityFacts fs (c.var? 1) a b
  ok (.bool known fs)

/-! ## Numbers -/

def intArith : PairTransfer := fun c a b => ok (.int ((toInteger a).arith (arithBase c.op.name) (toInteger b)))

def intTrueDiv : PairTransfer := fun _ _ _ => ok .someFloat

def intPow : PairTransfer := fun _ a b =>
  let (x, y) := (toInteger a, toInteger b)
  ok (if x.unsigned || y.unsigned then .int (.ofWidth (max x.bits y.bits) true) else .someInt x.nonneg)

def boolLogic : PairTransfer := fun c a b =>
  match a, b with
  | .bool (some x) _, .bool (some y) _ =>
    ok (.constBool (match c.op.name with
      | "and_" | "inplace_and" => x && y
      | "or_" | "inplace_or" => x || y
      | _ => x != y))
  | _, _ => ok .someBool

def floatArith : PairTransfer := fun _ _ _ => ok .someFloat

/-- The outcome of a comparison by its three basic relations; any other name stands for `ge`. -/
def compareBy (op : String) (lt eq gt : Bool) : Bool :=
  match op with
  | "lt" => lt
  | "le" => lt || eq
  | "eq" => eq
  | "ne" => !eq
  | "gt" => gt
  | _ => gt || eq

def compareFloats : PairTransfer := fun c a b =>
  match constDouble? a, constDouble? b with
  | some x, some y => ok (.constBool (compareBy c.op.name (x.lt y) (x.numEq y) (y.lt x)))
  | _, _ => ok .someBool

def compareIntegers (op : String) (x y : Int) : Bool := compareBy op (x < y) (x == y) (x > y)

/-- The next word; the largest stays. -/
def succWord (n : Int) : Int := if n = Range.maxWord then n else n + 1

/-- The word before; the least stays. -/
def predWord (n : Int) : Int := if n = Range.minWord then n else n - 1

/-- The outcome that the ranges of two integers settle. -/
def compareRanges? (op : String) (x y : Range) : Option Bool :=
  match op with
  | "lt" => if x.hi < y.lo then some true else if x.lo ≥ y.hi then some false else none
  | "le" => if x.hi ≤ y.lo then some true else if x.lo > y.hi then some false else none
  | "eq" => if x.hi < y.lo || y.hi < x.lo then some false else none
  | "ne" => if x.hi < y.lo || y.hi < x.lo then some true else none
  | _ => none

/-- How a comparison bounds its operands: for an outcome, the range that the left or right one is in. -/
def comparisonBounds (op : String) (x y : Range) : List (Bool × Bool × Range) :=
  let (lo, hi) := (Range.minWord, Range.maxWord)
  match op with
  | "lt" => [(true, true, ⟨lo, predWord y.hi⟩), (true, false, ⟨succWord x.lo, hi⟩),
             (false, true, ⟨y.lo, hi⟩), (false, false, ⟨lo, x.hi⟩)]
  | "le" => [(true, true, ⟨lo, y.hi⟩), (true, false, ⟨x.lo, hi⟩),
             (false, true, ⟨succWord y.lo, hi⟩), (false, false, ⟨lo, predWord x.hi⟩)]
  | "eq" => [(true, true, y), (true, false, x)]
  | "ne" => [(false, true, y), (false, false, x)]
  | _ => []

/-- An operand of a comparison: its variable, its annotation and its range. -/
structure Compared where
  var : Option VarId
  annot : Annot
  range : Range

/-- Adds what a bound tells of an operand, when that is more than is known. -/
def narrowFact (fs : List (Fact Annot)) (outcome : Bool) (o : Compared) (bound : Range) : Ana (List (Fact Annot)) := do
  match o.var, o.annot with
  | some v, .int _ =>
    let r : Range := ⟨max bound.lo o.range.lo, min bound.hi o.range.hi⟩
    if r = o.range then pure fs
    else addFact fs outcome v (if r.lo > r.hi then .impossible else .intRange r.lo r.hi)
  | _, _ => pure fs

/-- Compares integers by their ranges; on either side, the ranges of both operands become smaller. -/
def compareInts : PairTransfer := fun c a b => do
  let (x, y) := (toInteger a, toInteger b)
  match x.const, y.const, x.unsigned || y.unsigned with
  | some m, some n, false => ok (.constBool (compareIntegers c.op.name m n))
  | _, _, true => ok .someBool
  | _, _, false => do
    let left : Compared := ⟨c.var? 0, a, x.getRange⟩
    let right : Compared := ⟨c.var? 1, b, y.getRange⟩
    let (op, l, r) := match c.op.name with
      | "gt" => ("lt", right, left)
      | "ge" => ("le", right, left)
      | op => (op, left, right)
    let fs ← (comparisonBounds op l.range r.range).foldlM (fun fs (outcome, isLeft, bound) =>
      narrowFact fs outcome (if isLeft then l else r) bound) []
    ok (.bool (compareRanges? op l.range r.range) fs)

/-! ## Strings -/

def strConcat : PairTransfer := fun _ a b =>
  match constText? a, constText? b with
  | some x, some y => ok (.constStr (x ++ y))
  | _, _ => ok (.someStr false (noNul a && noNul b))

def unicodeConcat : PairTransfer := fun _ a b =>
  match constText? a, constText? b with
  | some x, some y => ok (.constUnicode (x ++ y))
  | _, _ => ok (.someUnicode false (noNul a && noNul b))

def compareStrings : PairTransfer := fun c a b =>
  match constText? a, constText? b with
  | some x, some y => ok (.constBool (compareBy c.op.name (x < y) (x == y) (y < x)))
  | _, _ => ok .someBool

/-- Formatting and repetition keep whether a string has a character zero. -/
def strLike : PairTransfer := fun _ a _ => ok (.someStr false (noNul a))

def strGetItem : PairTransfer := fun _ a _ => ok (.someChar (noNul a))

def unicodeGetItem : PairTransfer := fun _ a _ => ok (.someUnichar (noNul a))

/-! ## Tuples -/

def itemsOf : Annot → List Annot
  | .tuple _ _ items => items
  | _ => []

def tupleConcat : PairTransfer := fun _ a b => do return some (← newTuple (itemsOf a ++ itemsOf b))

def tupleGetItem : PairTransfer := fun _ a b => do
  let items := itemsOf a
  match constInt? b with
  | none => return some (← unionOf items)
  | some i =>
    let i := if i < 0 then i + items.length else i
    match if i < 0 then none else items[i.toNat]? with
    | some item => ok item
    | none => do unsupported s!"tuple index {i} out of range for {← text a}"

/-! ## Lists -/

def listDefOf : Annot → ListDefId
  | .list d => d
  | _ => 0

def listConcat : PairTransfer := fun c a b => do
  let x ← readList (listDefOf a) c.pos
  let y ← readList (listDefOf b) c.pos
  listHere [x, y]

def listRepeat : PairTransfer := fun c a _ => do listHere [← readList (listDefOf a) c.pos]

def listGetItem : PairTransfer := fun c a _ => do return some (← readList (listDefOf a) c.pos)

def listSetItem : PairTransfer := fun c a _ => do
  if c.args.length ≠ 3 then unsupported "setitem takes 3 arguments"
  mutateList (listDefOf a)
  generalizeList (listDefOf a) (c.arg 2)
  pure none

def listDelItem : PairTransfer := fun _ a _ => do
  resizeList (listDefOf a)
  pure none

/-! ## Dictionaries -/

def dictDefOf : Annot → DictDefId
  | .dict d => d
  | _ => 0

def dictGetItem : PairTransfer := fun c a b => do
  generalizeKey (dictDefOf a) b
  return some (← readValue (dictDefOf a) c.pos)

def dictSetItem : PairTransfer := fun c a b => do
  if c.args.length ≠ 3 then unsupported "setitem takes 3 arguments"
  generalizeKey (dictDefOf a) b
  generalizeValue (dictDefOf a) (c.arg 2)
  pure none

def dictDelItem : PairTransfer := fun _ a b => do
  generalizeKey (dictDefOf a) b
  pure none

/-! ## Tables -/

abbrev PairHandlers := List ((Kind × Kind) × PairTransfer)

def arithNames : List String := ["add", "sub", "mul", "floordiv", "div", "mod", "and_", "or_", "xor", "lshift", "rshift"]

def onInts (f : PairTransfer) : (Kind × Kind) × PairTransfer := ((.integer, .integer), f)
def onFloats : (Kind × Kind) × PairTransfer := ((.float, .float), floatArith)

def comparisons : PairHandlers :=
  [ ((.object, .object), compareObjects), onInts compareInts, ((.float, .float), compareFloats),
    ((.string, .string), compareStrings), ((.unicode, .unicode), compareStrings) ]

/-- The handlers of an operation on two values; none when there is no such operation. -/
def pairHandlers? (name : String) : Option PairHandlers :=
  match name with
  | "lt" | "le" | "eq" | "ne" | "gt" | "ge" => some comparisons
  | "is_" => some [((.object, .object), isOp)]
  | "add" => some [ onInts intArith, onFloats, ((.string, .string), strConcat), ((.unicode, .unicode), unicodeConcat),
      ((.tuple, .tuple), tupleConcat), ((.list, .list), listConcat) ]
  | "mul" => some [onInts intArith, onFloats, ((.string, .integer), strLike), ((.list, .integer), listRepeat)]
  | "mod" => some [onInts intArith, onFloats, ((.string, .object), strLike)]
  | "sub" | "floordiv" | "div" => some [onInts intArith, onFloats]
  | "and_" | "or_" | "xor" => some [onInts intArith, ((.bool, .bool), boolLogic)]
  | "truediv" => some [onInts intTrueDiv, onFloats]
  | "pow" => some [onInts intPow, onFloats]
  | "getitem" | "getitem_idx" => some [ ((.string, .integer), strGetItem), ((.unicode, .integer), unicodeGetItem),
      ((.tuple, .integer), tupleGetItem), ((.list, .integer), listGetItem), ((.dict, .object), dictGetItem) ]
  | "setitem" => some [((.list, .integer), listSetItem), ((.dict, .object), dictSetItem)]
  | "delitem" => some [((.list, .integer), listDelItem), ((.dict, .object), dictDelItem)]
  | name =>
    if name.endsWith "_ovf" then
      if arithNames.contains (name.dropEnd 4).toString then some [onInts intArith] else none
    else if arithNames.contains name then some [onInts intArith]
    else none

end FlowCompiler.Ana
