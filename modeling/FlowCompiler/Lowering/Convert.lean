import FlowCompiler.Lowering.Constant

/-!
# Conversions

A value of one representation can be asked for in another one: a character as a string, an instance as
an instance of a base, nothing as a null pointer.  Conversions that need work emit operations.
-/

namespace FlowCompiler

/-- An operation while it is lowered: its arguments with their annotations and representations.  The name
may differ from that of the operation when a builtin function stands for an operation of that name. -/
structure HighOp where
  op : FlowOp
  pos : PosKey
  name : String
  args : List Operand
  annots : List Annot
  reprs : List Representation
  resultAnnot : Annot
  result : Representation
  /-- The links that handle exceptions of this operation. -/
  handlers : List LinkId

namespace HighOp

def count (h : HighOp) : Nat := h.args.length
def arg (h : HighOp) (i : Nat) : Operand := (h.args[i]?).getD default
def annot (h : HighOp) (i : Nat) : Annot := (h.annots[i]?).getD .impossible
def repr (h : HighOp) (i : Nat) : Representation := (h.reprs[i]?).getD .impossible

/-- The operation without its first argument, under another name. -/
def shift (h : HighOp) (name : String) : HighOp :=
  { h with name, args := h.args.drop 1, annots := h.annots.drop 1, reprs := h.reprs.drop 1 }

end HighOp

/-- What lowering an operation comes to. -/
inductive Lowered where
  /-- This way of lowering does not apply. -/
  | noMethod
  /-- The operation has no result. -/
  | nothing
  | value (o : Operand)
deriving Inhabited

namespace Typing

/-! ## Machine types -/

/-- The operation that converts between machine types. -/
def primitiveCast? (src dst : Primitive) : Option String :=
  match src.cls, dst.cls with
  | .bool, .int => some "cast_bool_to_int"
  | .bool, .float => some "cast_bool_to_float"
  | .int, .bool => some (if src.signed then "int_is_true" else "uint_is_true")
  | .int, .float =>
    if !src.signed then some "cast_uint_to_float"
    else if src.name = "SignedLongLong" then some "cast_longlong_to_float"
    else some "cast_int_to_float"
  | .float, .int => some (if dst.signed then "cast_float_to_int" else "cast_float_to_uint")
  | .int, .int =>
    if src.signed && !dst.signed && src.bits = dst.bits then some "cast_int_to_uint"
    else if !src.signed && dst.signed && src.bits = dst.bits then some "cast_uint_to_int"
    else some "cast_primitive"
  | .char, .int => some "cast_char_to_int"
  | .unichar, .int => some "cast_unichar_to_int"
  | .float, .float => some "cast_primitive"
  | _, _ => none

def convertPrimitive (v : Operand) (src dst : Primitive) : Typing Operand := do
  match primitiveCast? src dst with
  | some name => emit name [v] (.prim dst)
  | none => inconsistent s!"cannot convert {src.name} to {dst.name}"

/-! ## Strings and instances -/

def textHelper (unicode : Bool) : String := if unicode then "ll_unicode" else "ll_str"

/-- A value as a string. -/
def convertToText (unicode : Bool) (v : Operand) (src : Representation) : Typing (Option Operand) := do
  let t ← lowType (.text unicode)
  let fromChar (c : Operand) : Typing (Option Operand) := do
    return some (← callHelper (textHelper unicode ++ "_chr2str") t [c])
  if src = .char then
    if unicode then
      let c ← emit "cast_char_to_int" [v] .signed
      fromChar (← emit "cast_int_to_unichar" [c] .unichar)
    else fromChar v
  else if src = .unichar && unicode then fromChar v
  else if src = .text false && unicode then return some (← callHelper "ll_str2unicode" t [v])
  else pure none

/-- An instance as one of a related class. -/
def convertToInstance (c : Option ClassDefId) (v : Operand) (src : Representation) : Typing (Option Operand) := do
  match src with
  | .inst d =>
    let w ← world
    if d = c then pure (some v)
    else if isSubInstance w d c || isSubInstance w c d then
      return some (← emit "cast_pointer" [v] (← lowType (.inst c)))
    else pure none
  | .none => return some (typed (← nullOf (.inst c)) (← lowType (.inst c)))
  | _ => pure none

/-- The conversions that a representation knows by itself; none when it knows none. -/
def convertInto (dst : Representation) (v : Operand) (src : Representation) : Typing (Option Operand) := do
  match dst with
  | .text u => convertToText u v src
  | .inst c => convertToInstance c v src
  | .methods i => do
    let self := (← methodsLayout i).self
    match src with
    | .methods j => do convertToInstance self v (.inst (← methodsLayout j).self)
    | .inst _ => convertToInstance self v src
    | _ => pure none
  | _ => pure none

/-! ## The general rule -/

/-- The representations that have a null pointer. -/
def isNullable : Representation → Bool
  | .tuple _ => true
  | .iter _ => true
  | .text _ => true
  | .list _ => true
  | .dict _ => true
  | .cls _ => true
  | .inst _ => true
  | .functions _ => true
  | .methods _ => true
  | .classes _ => true
  | .frozen _ => true
  | .weakref _ => true
  | _ => false

/-- The value of a representation that is known at compile time. -/
def reprConstant? (r : Representation) : Typing (Option Datum) := do
  let ofSet (ds : List DescId) (nullable : Bool) : Typing (Option Datum) := do
    return some (← Ana.constOf (.pbc ds nullable))
  match r with
  | .builtin name => pure (some (.builtinName name))
  | .functions i => do let k ← functionsLayout i; ofSet k.descs k.nullable
  | .classes i => do let k ← classesLayout i; ofSet k.descs k.nullable
  | .frozen i => do let k ← frozenLayout i; ofSet k.descs k.nullable
  | .frozenMethod i => do
    let k ← frozenMethodLayout i
    if isSingle k.descs k.nullable then
      let w ← world
      match w.desc ((k.descs.head?).getD 0) with
      | .frozenMethod _ z => return some (← Ana.valueOfDesc z)
      | _ => pure (some .nil)
    else pure (some .nil)
  | _ => pure none

def cannotConvert {α : Type} (src dst : Representation) : Typing α := do
  inconsistent s!"cannot convert {← reprText src} to {← reprText dst}"

/-- A value of one representation as one of another. -/
def convertVar (v : Operand) (src dst : Representation) : Typing Operand := do
  if src = dst then pure v
  else match v with
  | .const d none => inputConst dst d
  | _ => do
    let (ts, td) := (← lowType src, ← lowType dst)
    if td = .void then return voidConst ((← reprConstant? dst).getD .nil)
    else if ts = .void then
      if (src = .none || src = .impossible) && isNullable dst then return typed (← nullOf dst) td
      else match ← reprConstant? src with
        | some d => inputConst dst d
        | none => cannotConvert src dst
    else if (← types).equal ts td then pure v
    else match ← convertInto dst v src with
      | some o => pure o
      | none => match ts, td with
        | .prim p, .prim q => convertPrimitive v p q
        | _, _ => cannotConvert src dst

/-- An argument in a representation. -/
def inputArg (h : HighOp) (r : Representation) (i : Nat) : Typing Operand := do
  match h.arg i with
  | .const d none => inputConst r d
  | v => convertVar v (h.repr i) r

/-- The first arguments in given representations. -/
def inputArgs (h : HighOp) (rs : List Representation) : Typing (List Operand) := rs.zipIdx.mapM fun (r, i) => inputArg h r i

/-- An argument in its own representation. -/
def ownArg (h : HighOp) (i : Nat) : Typing Operand := inputArg h (h.repr i) i

/-- The value of an argument that is known at compile time. -/
def constArg? (h : HighOp) (i : Nat) : Typing (Option Datum) := do
  match h.arg i with
  | .const d _ => pure (some d)
  | .var _ => if (h.annot i).isConst then return some (← Ana.constOf (h.annot i)) else pure none

/-- An argument that must be a constant string. -/
def constString (h : HighOp) (i : Nat) : Typing String := do
  match ← constArg? h i with
  | none => unrepresented s!"{h.name}: argument {i} is not a constant"
  | some (.str s) => pure s
  | some (.char c) => pure (String.singleton (Char.ofNat c.toNat))
  | some v => unrepresented s!"{h.name}: argument {i} is {HostStore.typeText v}, not a string"

/-- Whether a handler of the operation catches a builtin exception. -/
def catches (h : HighOp) (exception : String) : Typing Bool := do
  let w ← world
  match w.exceptions.lookup exception with
  | none => pure false
  | some c => pure (h.handlers.any fun l =>
      match (w.prog.flow.link l).exitCase with
      | .cls e => w.prog.host.isSubclass c e
      | _ => false)

def ok (o : Operand) : Typing Lowered := pure (.value o)

/-- An operation on operands whose result is the result. -/
def lowerTo (name : String) (args : List Operand) (result : LowType) : Typing Lowered := do ok (← emit name args result)

/-- A call of the runtime system whose result is the result. -/
def lowerToHelper (name : String) (result : LowType) (args : List Operand) : Typing Lowered := do
  ok (← callHelper name result args)

/-- The result, negated when the operation asks for the opposite. -/
def negatedIf (b : Bool) (o : Operand) : Typing Lowered :=
  if b then lowerTo "bool_not" [o] .bool else ok o

end Typing
end FlowCompiler
