import FlowCompiler.Lowering.Convert

/-!
# Numbers

Integers of every width, truth values, floats, and comparisons of characters.  Division rounds towards
minus infinity, which the machine operation does only for operands that are known not to be negative;
other divisions are calls of the runtime system.
-/

namespace FlowCompiler.Typing

/-- How an operation is lowered. -/
abbrev Lowering := HighOp → Typing Lowered

/-! ## One operand -/

def lowerInt (p : Primitive) : Lowering := fun h => do
  let r : Representation := .prim p
  match h.name with
  | "neg" | "abs" | "invert" => do lowerTo (p.opKind ++ h.name) [← inputArg h r 0] (.prim p)
  | "neg_ovf" | "abs_ovf" => do
    let v ← inputArg h r 0
    raisesHere
    lowerTo (p.opKind ++ h.name) [v] (.prim p)
  | "pos" | "int" | "hash" => do ok (← inputArg h (((h.result.int?).map Representation.prim).getD r) 0)
  | "bool" => do lowerTo (p.opKind ++ "is_true") [← inputArg h r 0] .bool
  | "float" => do ok (← inputArg h .float 0)
  | "str" | "repr" => do
    let v ← inputArg h .signed 0
    lowerToHelper "ll_int2dec" (← lowType h.result) [v]
  | "hex" => do
    let v ← inputArg h .signed 0
    lowerToHelper "ll_int2hex" (← lowType h.result) [v]
  | "oct" => do
    let v ← inputArg h .signed 0
    lowerToHelper "ll_int2oct" (← lowType h.result) [v]
  | "chr" => do lowerTo "cast_int_to_char" [← inputArg h .signed 0] .char
  | "unichr" => do lowerTo "cast_int_to_unichar" [← inputArg h .signed 0] .unichar
  | _ => pure .noMethod

/-- The machine type of signed words. -/
def signedPrim : Primitive := { name := "Signed", bits := 64, signed := true, cls := .int }

def lowerBool : Lowering := fun h => do
  match h.name with
  | "bool" => do ok (← inputArg h .bool 0)
  | "int" | "pos" | "neg" | "abs" | "invert" | "hash" => do
    let v ← inputArg h .signed 0
    lowerInt signedPrim { h with args := [v], annots := [.someInt false], reprs := [.signed] }
  | "float" => do ok (← inputArg h .float 0)
  | "str" | "repr" => do
    let v ← inputArg h .bool 0
    lowerToHelper "ll_bool2str" (← lowType h.result) [v]
  | _ => pure .noMethod

def lowerFloat : Lowering := fun h => do
  match h.name with
  | "neg" | "abs" => do lowerTo ("float_" ++ h.name) [← inputArg h .float 0] .float
  | "pos" | "float" => do ok (← inputArg h .float 0)
  | "bool" => do lowerTo "float_is_true" [← inputArg h .float 0] .bool
  | "int" => do lowerTo "cast_float_to_int" [← inputArg h .float 0] .signed
  | "hash" => do lowerToHelper "ll_hash_float" .signed [← inputArg h .float 0]
  | "str" | "repr" => do
    let v ← inputArg h .float 0
    lowerToHelper "ll_float_str" (← lowType h.result) [v]
  | _ => pure .noMethod

/-! ## Two operands -/

/-- Whether a type is preferred to the best one so far. -/
def prefersInt (best p : Primitive) : Bool :=
  !p.signed || p.bits > best.bits || (p.name = "SignedLongLong" && best.name = "Signed")

/-- The type in which two integers are combined: that of the result, else the unsigned or wider one. -/
def commonInt (h : HighOp) : Primitive :=
  match h.result.int? with
  | some p => p
  | none => ((h.reprs.take 2).filterMap Representation.int?).foldl (fun best p => if prefersInt best p then p else best) signedPrim

/-- A name without its ending. -/
def withoutEnding (name ending : String) : String :=
  if name.endsWith ending then (name.dropEnd ending.length).toString else name

def lowerIntBinary : Lowering := fun h => do
  let p := commonInt h
  let base := withoutEnding h.name "_ovf"
  let isShift := base = "lshift" || base = "rshift"
  let v0 ← inputArg h (.prim p) 0
  let v1 ← inputArg h (if isShift then .signed else .prim p) 1
  let name := p.opKind ++ withoutEnding base "_"
  let checked := base ≠ h.name
  if checked then raisesHere
  let res ← emit (if checked then name ++ "_ovf" else name) [v0, v1] (.prim p)
  if h.result = .bool then lowerTo (p.opKind ++ "is_true") [res] .bool else ok res

def isNonneg : Annot → Bool
  | .int i => i.nonneg || i.unsigned
  | .bool _ _ => true
  | _ => false

def lowerIntDiv : Lowering := fun h => do
  let p := commonInt h
  let ovf := h.name.endsWith "_ovf"
  let base := withoutEnding h.name "_ovf"
  let base := if base = "div" then "floordiv" else base
  let v0 ← inputArg h (.prim p) 0
  let v1 ← inputArg h (.prim p) 1
  let zero ← catches h "ZeroDivisionError"
  if ovf || zero then raisesHere
  if !p.signed || (isNonneg (h.annot 0) && isNonneg (h.annot 1)) then
    let ending := if p.opKind = "int_" then (if ovf then "_ovf" else "") ++ (if zero then "_zer" else "") else ""
    lowerTo (p.opKind ++ base ++ ending) [v0, v1] (.prim p)
  else
    let name := (if base = "mod" then "ll_int_py_mod" else "ll_int_py_div")
      ++ (if ovf then "_ovf" else "") ++ (if zero then "_zer" else "")
    lowerToHelper name (.prim p) [v0, v1]

/-- The type in which two integers are compared. -/
def comparedInt (h : HighOp) : Primitive :=
  ((h.reprs.take 2).filterMap Representation.int?).foldl (fun best p =>
    if !p.signed || p.bits > best.bits || p.name = "SignedLongLong" then p else best) signedPrim

def lowerIntCompare : Lowering := fun h => do
  let p := comparedInt h
  let args ← inputArgs h [.prim p, .prim p]
  lowerTo (p.opKind ++ h.name) args .bool

def lowerTrueDiv : Lowering := fun h => do
  let args ← inputArgs h [.float, .float]
  lowerTo "float_truediv" args .float

def lowerIntPow : Lowering := fun h => do
  let p := commonInt h
  let args ← inputArgs h [.prim p, .prim p]
  lowerToHelper "ll_int_pow" (.prim p) args

def lowerFloatBinary : Lowering := fun h => do
  let args ← inputArgs h [.float, .float]
  lowerTo ("float_" ++ if h.name = "div" then "truediv" else h.name) args .float

def lowerFloatHelper : Lowering := fun h => do
  let args ← inputArgs h [.float, .float]
  lowerToHelper ("ll_float_" ++ h.name) .float args

def lowerFloatCompare : Lowering := fun h => do
  let args ← inputArgs h [.float, .float]
  lowerTo ("float_" ++ h.name) args .bool

def lowerCharCompare : Lowering := fun h => do
  let wide := (h.annot 0).kind = .unichar || (h.annot 1).kind = .unichar
  let r : Representation := if wide then .unichar else .char
  let args ← inputArgs h [r, r]
  lowerTo ((if wide then "unichar_" else "char_") ++ h.name) args .bool

/-! ## Tables -/

/-- Lowerings by the kinds of the first two arguments. -/
abbrev PairLowerings := List ((Kind × Kind) × Lowering)

def comparisonNames : List String := ["lt", "le", "eq", "ne", "gt", "ge"]
def intBinaryNames : List String :=
  ["add", "sub", "mul", "and_", "or_", "xor", "lshift", "rshift", "add_ovf", "sub_ovf", "mul_ovf", "lshift_ovf"]
def intDivNames : List String := ["floordiv", "div", "mod", "floordiv_ovf", "mod_ovf"]

/-- Lowerings of operations on two numbers or two characters. -/
def numberPairs (name : String) : PairLowerings :=
  let ints (f : Lowering) : PairLowerings := [((.integer, .integer), f)]
  let floats (f : Lowering) : PairLowerings := [((.float, .float), f)]
  (if intBinaryNames.contains name then ints lowerIntBinary else [])
    ++ (if intDivNames.contains name then ints lowerIntDiv else [])
    ++ (if name = "truediv" then ints lowerTrueDiv else [])
    ++ (if name = "pow" then ints lowerIntPow else [])
    ++ (if ["add", "sub", "mul", "truediv", "div"].contains name then floats lowerFloatBinary else [])
    ++ (if ["floordiv", "mod", "pow"].contains name then floats lowerFloatHelper else [])
    ++ (if comparisonNames.contains name then
        ints lowerIntCompare ++ floats lowerFloatCompare
          ++ [((.char, .char), lowerCharCompare), ((.unichar, .unichar), lowerCharCompare)]
      else [])

end FlowCompiler.Typing
