import FlowCompiler.LowLevel.Type
import FlowCompiler.Text.Decimal

/-!
# Data

Values known at compile time: constants of the analysed program, and the low-level values that typing
makes of them.  Functions, classes, instances and constant containers have identities of their own and
are mentioned by number; their contents are in the stores of the layers that own them.
-/

namespace FlowCompiler

abbrev FuncId := Nat
abbrev ClassId := Nat
abbrev InstId := Nat
abbrev ObjId := Nat
abbrev ContainerId := Nat
abbrev GraphId := Nat

/-- A pointer: the type it points to, and the container, or null. -/
structure PtrValue where
  pointee : NodeId
  obj : Option ContainerId
deriving DecidableEq, Repr, Hashable, Inhabited

namespace PtrValue

def isNull (p : PtrValue) : Bool := p.obj.isNone
def null (pointee : NodeId) : PtrValue := ⟨pointee, none⟩

end PtrValue

/-- The shape of a call: the number of positional arguments, the sorted keywords, and whether a tuple
of further arguments follows. -/
structure CallShape where
  count : Int
  keys : List String
  star : Bool
deriving DecidableEq, Repr, Hashable, Inhabited

inductive Datum where
  /-- No value at all. -/
  | nil
  | int (n : Int64)
  /-- A machine number that is not an integer of the analysed program. -/
  | count (n : Int)
  | int32 (n : Int)
  | uint (n : UInt64)
  | big (n : Int)
  | bool (b : Bool)
  | float (d : Double)
  | str (s : String)
  | unicode (s : String)
  | char (c : UInt8)
  | unichar (c : Int)
  | none
  | fn (f : FuncId)
  | cls (c : ClassId)
  | inst (i : InstId)
  | bound (o : ObjId)
  | builtin (o : ObjId)
  | tuple (o : ObjId)
  | list (o : ObjId)
  | dict (o : ObjId)
  | weakref (o : ObjId)
  | shape (s : CallShape)
  /-- The constant of an annotated tuple. -/
  | consts (o : ObjId)
  /-- The constant of the annotation of nothing. -/
  | nothing
  /-- The constant of an annotated builtin function. -/
  | builtinName (name : String)
  /-- A value of a kind that the compiler does not know. -/
  | foreign
  /-- The exit switch of a block that may raise. -/
  | lastException
  | byte (b : UInt8)
  | rune (c : Int)
  | address (a : Nat)
  | ptr (p : PtrValue)
  | container (c : ContainerId)
  | type (t : LowType)
  | graphs (gs : List GraphId)
deriving DecidableEq, Repr, Hashable, Inhabited

namespace Datum

/-- Whether two data are one constant: values of one kind are compared, doubles as numbers, what has an
identity by identity; tuples cannot be compared, so they are never one constant. -/
def same : Datum → Datum → Bool
  | float a, float b => a.numEq b
  | tuple _, _ => false
  | consts _, _ => false
  | graphs _, _ => false
  | a, b => a == b

end Datum
end FlowCompiler
