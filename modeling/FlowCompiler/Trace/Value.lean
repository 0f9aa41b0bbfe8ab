import FlowCompiler.Machine.Double
import FlowCompiler.Machine.Word

/-!
# Values of traces

The arguments of the operations of a trace are boxes, whose values are only known when the trace runs,
and constants.  A constant reference points to an object of the heap or is null.
-/

namespace FlowCompiler.Trace

/-- The machine kind of a value. -/
inductive Kind where
  | int
  | ref
  | float
  | void
deriving DecidableEq, Hashable, Repr, Inhabited

namespace Kind

def letter : Kind → String
  | int => "i"
  | ref => "r"
  | float => "f"
  | void => "v"

def ofLetter (c : Char) : Kind :=
  if c = 'i' then int else if c = 'r' then ref else if c = 'f' then float else void

end Kind

/-- A value known only when the trace runs. -/
structure Box where
  id : Nat
  kind : Kind
deriving DecidableEq, Hashable, Repr, Inhabited

def Box.text (b : Box) : String := s!"{b.kind.letter}{b.id}"

/-- The number of an object of the heap. -/
abbrev Ref := Nat

inductive Const where
  | int (n : Int64)
  | float (d : Double)
  | ptr (p : Option Ref)
deriving DecidableEq, Hashable, Repr, Inhabited

namespace Const

def null : Const := ptr none

def kind : Const → Kind
  | int _ => .int
  | float _ => .float
  | ptr _ => .ref

/-- The value that memory of a kind starts with. -/
def zero : Kind → Const
  | .float => float ⟨0⟩
  | .ref => null
  | _ => int 0

def ofBool (b : Bool) : Const := int (if b then 1 else 0)

/-- The number, when the constant is one. -/
def int? : Const → Option Int64
  | int n => some n
  | _ => none

/-- The object, when the constant points to one. -/
def ref? : Const → Option Ref
  | ptr p => p
  | _ => none

end Const

inductive Value where
  | box (b : Box)
  | const (c : Const)
deriving DecidableEq, Hashable, Repr, Inhabited

namespace Value

def ofInt (n : Int) : Value := const (.int (Int64.ofInt n))
def ofRef (r : Ref) : Value := const (.ptr (some r))
def null : Value := const .null

def kind : Value → Kind
  | box b => b.kind
  | const c => c.kind

def isConst : Value → Bool
  | box _ => false
  | const _ => true

def box? : Value → Option Box
  | box b => some b
  | const _ => none

def const? : Value → Option Const
  | box _ => none
  | const c => some c

def int? : Value → Option Int64
  | const c => c.int?
  | box _ => none

/-- The form of a value under which facts about it are kept: both zeros are one key, and a NaN is never
found again. -/
def key? : Value → Option Value
  | const (.float d) => if d.isNaN then none else if d.isZero then some (const (.float ⟨0⟩)) else some (const (.float d))
  | v => some v

end Value

/-- The numbers of what operations are about. -/
abbrev SizeId := Nat
abbrev FieldId := Nat
abbrev ArrayId := Nat
abbrev CallId := Nat
abbrev GuardId := Nat
abbrev CellId := Nat
abbrev TargetId := Nat
abbrev QuasiId := Nat
abbrev FrameId := Nat

/-- What an operation is about: a layout, a callee, or where control goes. -/
inductive Descr where
  | size (i : SizeId)
  | field (i : FieldId)
  | array (i : ArrayId)
  | call (i : CallId)
  /-- The exit of a guard that carries nothing but a number. -/
  | plainGuard (n : Int)
  | plainFinal (n : Int)
  /-- The exit of a guard with data to resume from. -/
  | guard (i : GuardId)
  /-- A compiled unit. -/
  | cell (i : CellId)
  /-- A label. -/
  | target (i : TargetId)
  /-- A field that rarely changes. -/
  | quasi (i : QuasiId)
  /-- The function returns. -/
  | done (k : Kind)
  /-- The function leaves with an exception. -/
  | exitException
  /-- An exception of a callee is passed on. -/
  | propagateException
deriving DecidableEq, Hashable, Repr, Inhabited

end FlowCompiler.Trace
