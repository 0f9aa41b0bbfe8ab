import FlowCompiler.Text.Quoted
import FlowCompiler.Trace.Value

/-!
# Operations of traces
-/

/-! ## Opcodes of traces

A trace is a straight line of operations.  Every operation belongs to one section, which says whether
it is a guard, whether it only computes, allocates, calls or checks for overflow; the predicates below
read the section.  Opcodes are numbered in the order of their sections, with a number at each end of a
section that no operation has. -/

namespace FlowCompiler.Trace

inductive Opcode where
  | jump | finish | label | guardTrue | guardFalse | guardValue | guardClass | guardNonnull | guardIsnull
  | guardNonnullClass | guardNoException | guardException | guardNoOverflow | guardOverflow | guardNotForced
  | guardNotForced2 | guardNotInvalidated | guardFutureCondition | intAdd | intSub | intMul | intFloordiv
  | uintFloordiv | intMod | intAnd | intOr | intXor | intRshift | intLshift | uintRshift | floatAdd
  | floatSub | floatMul | floatTruediv | floatNeg | floatAbs | castFloatToInt | castIntToFloat | intLt
  | intLe | intEq | intNe | intGt | intGe | uintLt | uintLe | uintGt | uintGe | floatLt | floatLe | floatEq
  | floatNe | floatGt | floatGe | intIsZero | intIsTrue | intNeg | intInvert | intForceGeZero | sameAs
  | castPtrToInt | castIntToPtr | ptrEq | ptrNe | instancePtrEq | instancePtrNe | arraylenGc | strlen
  | strgetitem | getfieldGcPure | getfieldRawPure | getarrayitemGcPure | unicodelen | unicodegetitem
  | getarrayitemGc | getarrayitemRaw | getfieldGc | getfieldRaw | new | newWithVtable | newArray
  | newArrayClear | newstr | newunicode | forceToken | virtualRef | setarrayitemGc | setarrayitemRaw
  | setfieldGc | setfieldRaw | strsetitem | unicodesetitem | condCallGcWb | debugMergePoint | jitDebug
  | virtualRefFinish | copystrcontent | copyunicodecontent | quasiimmutField | recordKnownClass | keepalive
  | call | condCall | callAssembler | callMayForce | callLoopinvariant | callReleaseGil | callPure
  | callMallocGc | intAddOvf | intSubOvf | intMulOvf
deriving DecidableEq, Hashable, Repr, Inhabited

/-- The sections of the opcodes. -/
inductive Section where
  /-- Ends a trace. -/
  | final
  | label
  /-- A guard that may be decided while optimizing. -/
  | foldableGuard
  | guard
  /-- The result depends on the arguments only. -/
  | pure
  /-- Without side effect, but not a function of the arguments. -/
  | quiet
  | malloc
  | effect
  | call
  /-- Checks for overflow. -/
  | overflow
deriving DecidableEq

structure OpInfo where
  name : String
  /-- The number of arguments; none when it varies. -/
  arity : Option Nat
  withDescr : Bool
  kind : Section
  boolResult : Bool := false

namespace Opcode

/-- What is fixed for an opcode. -/
def info : Opcode → OpInfo
  | .jump => ⟨"jump", none, true, .final, false⟩
  | .finish => ⟨"finish", none, true, .final, false⟩
  | .label => ⟨"label", none, true, .label, false⟩
  | .guardTrue => ⟨"guard_true", some 1, true, .foldableGuard, false⟩
  | .guardFalse => ⟨"guard_false", some 1, true, .foldableGuard, false⟩
  | .guardValue => ⟨"guard_value", some 2, true, .foldableGuard, false⟩
  | .guardClass => ⟨"guard_class", some 2, true, .foldableGuard, false⟩
  | .guardNonnull => ⟨"guard_nonnull", some 1, true, .foldableGuard, false⟩
  | .guardIsnull => ⟨"guard_isnull", some 1, true, .foldableGuard, false⟩
  | .guardNonnullClass => ⟨"guard_nonnull_class", some 2, true, .foldableGuard, false⟩
  | .guardNoException => ⟨"guard_no_exception", some 0, true, .guard, false⟩
  | .guardException => ⟨"guard_exception", some 1, true, .guard, false⟩
  | .guardNoOverflow => ⟨"guard_no_overflow", some 0, true, .guard, false⟩
  | .guardOverflow => ⟨"guard_overflow", some 0, true, .guard, false⟩
  | .guardNotForced => ⟨"guard_not_forced", some 0, true, .guard, false⟩
  | .guardNotForced2 => ⟨"guard_not_forced_2", some 0, true, .guard, false⟩
  | .guardNotInvalidated => ⟨"guard_not_invalidated", some 0, true, .guard, false⟩
  | .guardFutureCondition => ⟨"guard_future_condition", some 0, true, .guard, false⟩
  | .intAdd => ⟨"int_add", some 2, false, .pure, false⟩
  | .intSub => ⟨"int_sub", some 2, false, .pure, false⟩
  | .intMul => ⟨"int_mul", some 2, false, .pure, false⟩
  | .intFloordiv => ⟨"int_floordiv", some 2, false, .pure, false⟩
  | .uintFloordiv => ⟨"uint_floordiv", some 2, false, .pure, false⟩
  | .intMod => ⟨"int_mod", some 2, false, .pure, false⟩
  | .intAnd => ⟨"int_and", some 2, false, .pure, false⟩
  | .intOr => ⟨"int_or", some 2, false, .pure, false⟩
  | .intXor => ⟨"int_xor", some 2, false, .pure, false⟩
  | .intRshift => ⟨"int_rshift", some 2, false, .pure, false⟩
  | .intLshift => ⟨"int_lshift", some 2, false, .pure, false⟩
  | .uintRshift => ⟨"uint_rshift", some 2, false, .pure, false⟩
  | .floatAdd => ⟨"float_add", some 2, false, .pure, false⟩
  | .floatSub => ⟨"float_sub", some 2, false, .pure, false⟩
  | .floatMul => ⟨"float_mul", some 2, false, .pure, false⟩
  | .floatTruediv => ⟨"float_truediv", some 2, false, .pure, false⟩
  | .floatNeg => ⟨"float_neg", some 1, false, .pure, false⟩
  | .floatAbs => ⟨"float_abs", some 1, false, .pure, false⟩
  | .castFloatToInt => ⟨"cast_float_to_int", some 1, false, .pure, false⟩
  | .castIntToFloat => ⟨"cast_int_to_float", some 1, false, .pure, false⟩
  | .intLt => ⟨"int_lt", some 2, false, .pure, true⟩
  | .intLe => ⟨"int_le", some 2, false, .pure, true⟩
  | .intEq => ⟨"int_eq", some 2, false, .pure, true⟩
  | .intNe => ⟨"int_ne", some 2, false, .pure, true⟩
  | .intGt => ⟨"int_gt", some 2, false, .pure, true⟩
  | .intGe => ⟨"int_ge", some 2, false, .pure, true⟩
  | .uintLt => ⟨"uint_lt", some 2, false, .pure, true⟩
  | .uintLe => ⟨"uint_le", some 2, false, .pure, true⟩
  | .uintGt => ⟨"uint_gt", some 2, false, .pure, true⟩
  | .uintGe => ⟨"uint_ge", some 2, false, .pure, true⟩
  | .floatLt => ⟨"float_lt", some 2, false, .pure, true⟩
  | .floatLe => ⟨"float_le", some 2, false, .pure, true⟩
  | .floatEq => ⟨"float_eq", some 2, false, .pure, true⟩
  | .floatNe => ⟨"float_ne", some 2, false, .pure, true⟩
  | .floatGt => ⟨"float_gt", some 2, false, .pure, true⟩
  | .floatGe => ⟨"float_ge", some 2, false, .pure, true⟩
  | .intIsZero => ⟨"int_is_zero", some 1, false, .pure, true⟩
  | .intIsTrue => ⟨"int_is_true", some 1, false, .pure, true⟩
  | .intNeg => ⟨"int_neg", some 1, false, .pure, false⟩
  | .intInvert => ⟨"int_invert", some 1, false, .pure, false⟩
  | .intForceGeZero => ⟨"int_force_ge_zero", some 1, false, .pure, false⟩
  | .sameAs => ⟨"same_as", some 1, false, .pure, false⟩
  | .castPtrToInt => ⟨"cast_ptr_to_int", some 1, false, .pure, false⟩
  | .castIntToPtr => ⟨"cast_int_to_ptr", some 1, false, .pure, false⟩
  | .ptrEq => ⟨"ptr_eq", some 2, false, .pure, true⟩
  | .ptrNe => ⟨"ptr_ne", some 2, false, .pure, true⟩
  | .instancePtrEq => ⟨"instance_ptr_eq", some 2, false, .pure, true⟩
  | .instancePtrNe => ⟨"instance_ptr_ne", some 2, false, .pure, true⟩
  | .arraylenGc => ⟨"arraylen_gc", some 1, true, .pure, false⟩
  | .strlen => ⟨"strlen", some 1, false, .pure, false⟩
  | .strgetitem => ⟨"strgetitem", some 2, false, .pure, false⟩
  | .getfieldGcPure => ⟨"getfield_gc_pure", some 1, true, .pure, false⟩
  | .getfieldRawPure => ⟨"getfield_raw_pure", some 1, true, .pure, false⟩
  | .getarrayitemGcPure => ⟨"getarrayitem_gc_pure", some 2, true, .pure, false⟩
  | .unicodelen => ⟨"unicodelen", some 1, false, .pure, false⟩
  | .unicodegetitem => ⟨"unicodegetitem", some 2, false, .pure, false⟩
  | .getarrayitemGc => ⟨"getarrayitem_gc", some 2, true, .quiet, false⟩
  | .getarrayitemRaw => ⟨"getarrayitem_raw", some 2, true, .quiet, false⟩
  | .getfieldGc => ⟨"getfield_gc", some 1, true, .quiet, false⟩
  | .getfieldRaw => ⟨"getfield_raw", some 1, true, .quiet, false⟩
  | .new => ⟨"new", some 0, true, .malloc, false⟩
  | .newWithVtable => ⟨"new_with_vtable", some 1, false, .malloc, false⟩
  | .newArray => ⟨"new_array", some 1, true, .malloc, false⟩
  | .newArrayClear => ⟨"new_array_clear", some 1, true, .malloc, false⟩
  | .newstr => ⟨"newstr", some 1, false, .malloc, false⟩
  | .newunicode => ⟨"newunicode", some 1, false, .malloc, false⟩
  | .forceToken => ⟨"force_token", some 0, false, .quiet, false⟩
  | .virtualRef => ⟨"virtual_ref", some 2, false, .quiet, false⟩
  | .setarrayitemGc => ⟨"setarrayitem_gc", some 3, true, .effect, false⟩
  | .setarrayitemRaw => ⟨"setarrayitem_raw", some 3, true, .effect, false⟩
  | .setfieldGc => ⟨"setfield_gc", some 2, true, .effect, false⟩
  | .setfieldRaw => ⟨"setfield_raw", some 2, true, .effect, false⟩
  | .strsetitem => ⟨"strsetitem", some 3, false, .effect, false⟩
  | .unicodesetitem => ⟨"unicodesetitem", some 3, false, .effect, false⟩
  | .condCallGcWb => ⟨"cond_call_gc_wb", some 1, true, .effect, false⟩
  | .debugMergePoint => ⟨"debug_merge_point", none, true, .effect, false⟩
  | .jitDebug => ⟨"jit_debug", none, true, .effect, false⟩
  | .virtualRefFinish => ⟨"virtual_ref_finish", some 2, false, .effect, false⟩
  | .copystrcontent => ⟨"copystrcontent", some 5, false, .effect, false⟩
  | .copyunicodecontent => ⟨"copyunicodecontent", some 5, false, .effect, false⟩
  | .quasiimmutField => ⟨"quasiimmut_field", some 1, true, .effect, false⟩
  | .recordKnownClass => ⟨"record_known_class", some 2, false, .effect, false⟩
  | .keepalive => ⟨"keepalive", some 1, false, .effect, false⟩
  | .call => ⟨"call", none, true, .call, false⟩
  | .condCall => ⟨"cond_call", none, true, .call, false⟩
  | .callAssembler => ⟨"call_assembler", none, true, .call, false⟩
  | .callMayForce => ⟨"call_may_force", none, true, .call, false⟩
  | .callLoopinvariant => ⟨"call_loopinvariant", none, true, .call, false⟩
  | .callReleaseGil => ⟨"call_release_gil", none, true, .call, false⟩
  | .callPure => ⟨"call_pure", none, true, .call, false⟩
  | .callMallocGc => ⟨"call_malloc_gc", none, true, .call, false⟩
  | .intAddOvf => ⟨"int_add_ovf", some 2, false, .overflow, false⟩
  | .intSubOvf => ⟨"int_sub_ovf", some 2, false, .overflow, false⟩
  | .intMulOvf => ⟨"int_mul_ovf", some 2, false, .overflow, false⟩

/-- The opcodes by number; the ends of sections have none. -/
def layout : List (Option Opcode) :=
  [ none, some .jump, some .finish, none, some .label, none, none, some .guardTrue, some .guardFalse,
    some .guardValue, some .guardClass, some .guardNonnull, some .guardIsnull, some .guardNonnullClass, none,
    some .guardNoException, some .guardException, some .guardNoOverflow, some .guardOverflow, some .guardNotForced,
    some .guardNotForced2, some .guardNotInvalidated, some .guardFutureCondition, none, none, none, some .intAdd,
    some .intSub, some .intMul, some .intFloordiv, some .uintFloordiv, some .intMod, some .intAnd, some .intOr,
    some .intXor, some .intRshift, some .intLshift, some .uintRshift, some .floatAdd, some .floatSub, some .floatMul,
    some .floatTruediv, some .floatNeg, some .floatAbs, some .castFloatToInt, some .castIntToFloat, some .intLt,
    some .intLe, some .intEq, some .intNe, some .intGt, some .intGe, some .uintLt, some .uintLe, some .uintGt,
    some .uintGe, some .floatLt, some .floatLe, some .floatEq, some .floatNe, some .floatGt, some .floatGe,
    some .intIsZero, some .intIsTrue, some .intNeg, some .intInvert, some .intForceGeZero, some .sameAs,
    some .castPtrToInt, some .castIntToPtr, some .ptrEq, some .ptrNe, some .instancePtrEq, some .instancePtrNe,
    some .arraylenGc, some .strlen, some .strgetitem, some .getfieldGcPure, some .getfieldRawPure,
    some .getarrayitemGcPure, some .unicodelen, some .unicodegetitem, none, some .getarrayitemGc,
    some .getarrayitemRaw, some .getfieldGc, some .getfieldRaw, none, some .new, some .newWithVtable, some .newArray,
    some .newArrayClear, some .newstr, some .newunicode, none, some .forceToken, some .virtualRef, none,
    some .setarrayitemGc, some .setarrayitemRaw, some .setfieldGc, some .setfieldRaw, some .strsetitem,
    some .unicodesetitem, some .condCallGcWb, some .debugMergePoint, some .jitDebug, some .virtualRefFinish,
    some .copystrcontent, some .copyunicodecontent, some .quasiimmutField, some .recordKnownClass, some .keepalive,
    none, none, some .call, some .condCall, some .callAssembler, some .callMayForce, some .callLoopinvariant,
    some .callReleaseGil, some .callPure, some .callMallocGc, none, none, none, some .intAddOvf, some .intSubOvf,
    some .intMulOvf, none ]

/-- All opcodes in order. -/
def all : List Opcode := layout.filterMap id

def name (c : Opcode) : String := c.info.name

def ofName? (s : String) : Option Opcode := all.find? fun c => c.name == s

/-- The name of an opcode number; a number without opcode shows itself. -/
def nameOfNumber (n : Int) : String :=
  match if n < 0 then none else (layout[n.toNat]?).bind id with
  | some c => c.name
  | none => s!"<{n}>"

def arity (c : Opcode) : Option Nat := c.info.arity
def withDescr (c : Opcode) : Bool := c.info.withDescr
def returnsBool (c : Opcode) : Bool := c.info.boolResult

def isGuard (c : Opcode) : Bool :=
  match c.info.kind with
  | .guard | .foldableGuard => true
  | _ => false

def isFoldableGuard (c : Opcode) : Bool := c.info.kind == .foldableGuard
def isAlwaysPure (c : Opcode) : Bool := c.info.kind == .pure

def hasNoSideEffect (c : Opcode) : Bool :=
  match c.info.kind with
  | .pure | .quiet | .malloc => true
  | _ => false

def canRaise (c : Opcode) : Bool := c.info.kind == .call
def isMalloc (c : Opcode) : Bool := c.info.kind == .malloc
def isCall (c : Opcode) : Bool := c.info.kind == .call
def isOvf (c : Opcode) : Bool := c.info.kind == .overflow
def isFinal (c : Opcode) : Bool := c.info.kind == .final

/-- Pure with a truth value as result. -/
def isComparison (c : Opcode) : Bool := c.isAlwaysPure && c.returnsBool

/-- The comparison that gives the opposite truth value for the same arguments. -/
def inverse? : Opcode → Option Opcode
  | .intEq => some .intNe
  | .intNe => some .intEq
  | .intLt => some .intGe
  | .intGe => some .intLt
  | .intGt => some .intLe
  | .intLe => some .intGt
  | .uintLt => some .uintGe
  | .uintGe => some .uintLt
  | .uintGt => some .uintLe
  | .uintLe => some .uintGt
  | .floatEq => some .floatNe
  | .floatNe => some .floatEq
  | .floatLt => some .floatGe
  | .floatGe => some .floatLt
  | .floatGt => some .floatLe
  | .floatLe => some .floatGt
  | .ptrEq => some .ptrNe
  | .ptrNe => some .ptrEq
  | _ => none

/-- The comparison that gives the same truth value for exchanged arguments. -/
def reflex? : Opcode → Option Opcode
  | .intEq => some .intEq
  | .intNe => some .intNe
  | .intLt => some .intGt
  | .intGe => some .intLe
  | .intGt => some .intLt
  | .intLe => some .intGe
  | .uintLt => some .uintGt
  | .uintGe => some .uintLe
  | .uintGt => some .uintLt
  | .uintLe => some .uintGe
  | .floatEq => some .floatEq
  | .floatNe => some .floatNe
  | .floatLt => some .floatGt
  | .floatGe => some .floatLe
  | .floatGt => some .floatLt
  | .floatLe => some .floatGe
  | .ptrEq => some .ptrEq
  | .ptrNe => some .ptrNe
  | _ => none

end Opcode

structure Op where
  code : Opcode
  args : List Value
  result : Option Box := none
  descr : Option Descr := none
  /-- What a guard saves; holes are allowed. -/
  fail : Option (List (Option Value)) := none
  /-- Tells apart operations that the optimizer comes back to; others have none. -/
  tag : Nat := 0
deriving Inhabited

namespace Op

def arg (op : Op) (i : Nat) : Value := (op.args[i]?).getD default

/-- The value that a store writes. -/
def lastArg (op : Op) : Value := (op.args.getLast?).getD default

def isGuard (op : Op) : Bool := op.code.isGuard
def isAlwaysPure (op : Op) : Bool := op.code.isAlwaysPure
def hasNoSideEffect (op : Op) : Bool := op.code.hasNoSideEffect
def isCall (op : Op) : Bool := op.code.isCall
def isOvf (op : Op) : Bool := op.code.isOvf
def isFinal (op : Op) : Bool := op.code.isFinal
def isComparison (op : Op) : Bool := op.code.isComparison

def callId? (op : Op) : Option CallId :=
  match op.descr with
  | some (.call i) => some i
  | _ => none

/-- The saved values of a copy: an empty list is not kept. -/
def copiedFail (op : Op) : Option (List (Option Value)) := op.fail.filter (!·.isEmpty)

/-- A copy to work on. -/
def copy (op : Op) : Op := { op with fail := op.copiedFail, tag := 0 }

/-- The operation with another opcode and, if given, other arguments.  A descriptor or saved values
that the new opcode does not take are dropped, and so is an empty list of saved values. -/
def change (op : Op) (code : Opcode) (args : Option (List Value)) : Op :=
  { code, args := args.getD op.args, result := op.result, descr := if code.withDescr then op.descr else none,
    fail := if code.isGuard then op.copiedFail else none }

/-- The boxes among the arguments. -/
def boxArgs (op : Op) : List Box := op.args.filterMap Value.box?

/-- The boxes among the saved values. -/
def boxFails (op : Op) : List Box := (op.fail.getD []).filterMap fun v => v.bind Value.box?

end Op

/-- A recorded trace. -/
structure Recording where
  inputs : List Box
  ops : List Op
deriving Inhabited

/-- A trace on its way to the machine. -/
structure Loop where
  name : String := ""
  inputs : List Box
  ops : List Op
  token : Option CellId := none
  /-- The rarely changing fields that the trace relies on. -/
  watches : List Nat := []
deriving Inhabited

end FlowCompiler.Trace
