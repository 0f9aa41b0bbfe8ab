import FlowCompiler.Trace.Store

/-!
# Functions on strings

The functions that the optimizer replaces string operations by, for byte strings and for unicode
strings, with what they compute.
-/

namespace FlowCompiler.Trace
namespace StringFunction

/-- The number among the special calls, for byte strings. -/
def special : StringFunction → Nat
  | concat => Special.concat
  | slice => Special.slice
  | equal => Special.equal
  | equalSliceCheckNull => Special.equalSliceCheckNull
  | equalSliceNonNull => Special.equalSliceNonNull
  | equalSliceChar => Special.equalSliceChar
  | equalNonNull => Special.equalNonNull
  | equalNonNullChar => Special.equalNonNullChar
  | equalCheckNullChar => Special.equalCheckNullChar
  | equalLengthOk => Special.equalLengthOk
  | compare => Special.compare

def name : StringFunction → String
  | concat => "ll_strconcat"
  | slice => "ll_stringslice"
  | equal => "ll_streq"
  | equalSliceCheckNull => "ll_streq_slice_checknull"
  | equalSliceNonNull => "ll_streq_slice_nonnull"
  | equalSliceChar => "ll_streq_slice_char"
  | equalNonNull => "ll_streq_nonnull"
  | equalNonNullChar => "ll_streq_nonnull_char"
  | equalCheckNullChar => "ll_streq_checknull_char"
  | equalLengthOk => "ll_streq_lengthok"
  | compare => "ll_strcmp"

def args : StringFunction → List Kind
  | slice => [.ref, .int, .int]
  | equalSliceCheckNull => [.ref, .int, .int, .ref]
  | equalSliceNonNull => [.ref, .int, .int, .ref]
  | equalSliceChar => [.ref, .int, .int, .int]
  | equalNonNullChar => [.ref, .int]
  | equalCheckNullChar => [.ref, .int]
  | _ => [.ref, .ref]

def result : StringFunction → Kind
  | concat => .ref
  | slice => .ref
  | _ => .int

def all : List StringFunction :=
  [concat, slice, equal, equalSliceCheckNull, equalSliceNonNull, equalSliceChar, equalNonNull, equalNonNullChar,
    equalCheckNullChar, equalLengthOk, compare]

/-! ## Meaning -/

/-- A part of a list of characters. -/
def part (cs : List Int) (start length : Int) : List Int := (cs.drop start.toNat).take length.toNat

/-- The first difference of two strings, or that of their lengths. -/
def difference : List Int → List Int → Int
  | a :: r, b :: s => if a = b then difference r s else a - b
  | r, s => (r.length : Int) - s.length

/-- Whether a string is one given character. -/
def isChar (cs : List Int) (c : Int) : Bool := cs == [c]

/-- What a function computes, except for the two that make a string: the arguments are strings, or null,
and integers. -/
def test (f : StringFunction) (str : Nat → Option (List Int)) (num : Nat → Int) : Int64 :=
  let ofBool (b : Bool) : Int64 := if b then 1 else 0
  let chars (i : Nat) : List Int := (str i).getD []
  match f with
  | equal => ofBool (str 0 == str 1)
  | equalNonNull | equalLengthOk => ofBool (chars 0 == chars 1)
  | equalSliceCheckNull => ofBool ((str 3).isSome && part (chars 0) (num 1) (num 2) == chars 3)
  | equalSliceNonNull => ofBool (part (chars 0) (num 1) (num 2) == chars 3)
  | equalSliceChar => ofBool (num 2 == 1 && isChar (part (chars 0) (num 1) 1) (num 3))
  | equalNonNullChar => ofBool (isChar (chars 0) (num 1))
  | equalCheckNullChar => ofBool ((str 0).isSome && isChar (chars 0) (num 1))
  | compare => Int64.ofInt (difference (chars 0) (chars 1))
  | _ => 0

/-- The result of a call. -/
def apply (f : StringFunction) (args : List Value) : StoreM Value := do
  let s ← get
  let arg (i : Nat) : Value := (args[i]?).getD default
  let str (i : Nat) : Option (List Int × Bool) := (s.refOf (arg i)).bind s.str?
  let num (i : Nat) : Int := (s.intOf (arg i)).toInt
  let chars (i : Nat) : List Int := ((str i).map Prod.fst).getD []
  let unicode := ((str 0).map Prod.snd).getD false
  match f with
  | concat => return .ofRef (← Store.intern (chars 0 ++ chars 1) unicode)
  | slice => return .ofRef (← Store.intern (part (chars 0) (num 1) (num 2 - num 1)) unicode)
  | f => pure (.const (.int (f.test (fun i => (str i).map Prod.fst) num)))

end StringFunction

/-- Functions to call instead of special calls: the function and its descriptor by number. -/
abbrev CallTable := List (Nat × Ref × CallId)

namespace CallTable

/-- Enters the functions for byte strings, or those for unicode strings. -/
def enter (offset : Nat) (f : StringFunction) : StoreM (Nat × Ref × CallId) := do
  let special := f.special + offset
  let d ← Store.newCall { name := f.name, args := f.args, result := f.result,
                          effect := Effect.make { level := .elidableCannotRaise, special } }
  let r ← Store.newObject (.func f.name (some (.string f)))
  pure (special, r, d)

/-- All functions on strings. -/
def make : StoreM CallTable := do
  let bytes ← StringFunction.all.mapM (enter 0)
  let unicode ← StringFunction.all.mapM (enter Special.unicodeOffset)
  pure (bytes ++ unicode)

end CallTable
end FlowCompiler.Trace
