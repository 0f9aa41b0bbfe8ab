/-!
# Low-level operations

The operations that a lowered graph may hold, with the properties that later stages ask for.
-/

namespace FlowCompiler

structure LowOp where
  name : String
  /-- May be evaluated when its arguments are constants. -/
  canFold : Bool := false
  sideEffects : Bool := false
  /-- The exceptions it may raise, by class name. -/
  raises : List String := []
  /-- The result depends on the arguments only. -/
  isPure : Bool := false
  canMalloc : Bool := false
deriving Inhabited

namespace LowOp

def folding (names : List String) (raises : List String) : List LowOp :=
  names.map fun name => { name, canFold := true, isPure := true, raises }

def compareNames : List String := ["lt", "le", "eq", "ne", "gt", "ge"]

/-- The arithmetic of one kind of number. -/
def arithNames : List String :=
  ["add", "sub", "mul", "floordiv", "mod", "and", "or", "xor", "lshift", "rshift", "neg", "abs", "invert", "is_true"]
    ++ compareNames

def withKind (kind : String) (names : List String) : List String := names.map (kind ++ "_" ++ ·)

/-- Operations that fold and never raise. -/
def foldNames : List String :=
  withKind "int" arithNames ++ withKind "uint" arithNames ++ withKind "llong" arithNames
    ++ withKind "ullong" arithNames
    ++ withKind "float" (["add", "sub", "mul", "truediv", "neg", "abs", "is_true"] ++ compareNames)
    ++ withKind "char" compareNames ++ withKind "unichar" compareNames
    ++ ["cast_int_to_float", "cast_float_to_int", "cast_char_to_int", "cast_int_to_char", "cast_unichar_to_int",
        "cast_int_to_unichar", "cast_bool_to_int", "cast_bool_to_float", "cast_int_to_uint", "cast_uint_to_int",
        "same_as", "bool_not", "int_between", "int_is_zero", "cast_primitive", "cast_int_to_longlong",
        "cast_longlong_to_float", "cast_uint_to_float", "cast_float_to_uint", "cast_float_to_longlong",
        "cast_pointer", "cast_ptr_to_adr", "ptr_eq", "ptr_ne", "ptr_iszero", "ptr_nonzero"]

def overflowNames : List String :=
  ["int_add_ovf", "int_sub_ovf", "int_mul_ovf", "int_neg_ovf", "int_add_nonneg_ovf", "int_lshift_ovf", "int_abs_ovf",
   "int_floordiv_ovf", "int_mod_ovf"]

def zeroNames : List String := ["int_floordiv_zer", "int_mod_zer", "int_floordiv_ovf_zer", "int_mod_ovf_zer"]

def memoryOps : List LowOp :=
  [ { name := "getfield" }, { name := "getfield_pure", isPure := true }, { name := "getsubstruct", isPure := true },
    { name := "getarrayitem" }, { name := "getarraysize" }, { name := "getinteriorfield" },
    { name := "getinteriorarraysize" }, { name := "setfield", sideEffects := true },
    { name := "setarrayitem", sideEffects := true }, { name := "setinteriorfield", sideEffects := true },
    { name := "malloc", sideEffects := true, canMalloc := true, raises := ["MemoryError"] },
    { name := "malloc_varsize", sideEffects := true, canMalloc := true, raises := ["MemoryError"] },
    { name := "raw_malloc", sideEffects := true, raises := ["MemoryError"] },
    { name := "raw_free", sideEffects := true }, { name := "gc_writebarrier", sideEffects := true },
    { name := "weakref_create", sideEffects := true, canMalloc := true }, { name := "weakref_deref" } ]

def callOps : List LowOp :=
  [ { name := "direct_call", sideEffects := true, canMalloc := true, raises := ["Exception"] },
    { name := "indirect_call", sideEffects := true, canMalloc := true, raises := ["Exception"] },
    { name := "debug_assert", sideEffects := true }, { name := "keepalive", sideEffects := true },
    { name := "gc_push_roots", sideEffects := true }, { name := "gc_pop_roots", sideEffects := true },
    { name := "gc_stack_bottom", sideEffects := true } ]

/-- All operations. -/
def table : List LowOp :=
  folding foldNames [] ++ folding overflowNames ["OverflowError"] ++ folding zeroNames ["ZeroDivisionError"]
    ++ memoryOps ++ callOps

def lookup? (name : String) : Option LowOp := table.find? (·.name == name)

def canRaise (op : LowOp) : Bool := !op.raises.isEmpty

/-- All names, sorted. -/
def names : List String := (table.map LowOp.name).mergeSort fun a b => decide (a ≤ b)

end LowOp
end FlowCompiler
