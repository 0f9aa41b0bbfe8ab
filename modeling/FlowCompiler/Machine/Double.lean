import FlowCompiler.Failure

/-!
# Double-precision numbers

A double is kept as its bit pattern, so that equality of doubles as data is equality of patterns and
a NaN is equal to itself as data.  Arithmetic goes through the hardware type.  Rounding of an exact
ratio to the nearest double is done in natural numbers.
-/

namespace FlowCompiler

/-- A double-precision number, as its 64 bits. -/
structure Double where
  bits : UInt64
deriving DecidableEq, Hashable, Repr, Inhabited

namespace Double

def toFloat (d : Double) : Float := Float.ofBits d.bits
def ofFloat (f : Float) : Double := ⟨f.toBits⟩

/-- The exponent field. -/
def exponentBits (d : Double) : Nat := (d.bits.toNat / Nat.pow 2 52) % Nat.pow 2 11
/-- The fraction field. -/
def fraction (d : Double) : Nat := d.bits.toNat % Nat.pow 2 52
def isNegative (d : Double) : Bool := d.bits.toNat ≥ Nat.pow 2 63
def isNaN (d : Double) : Bool := d.exponentBits = 2047 && d.fraction ≠ 0
def isInfinite (d : Double) : Bool := d.exponentBits = 2047 && d.fraction = 0
def isZero (d : Double) : Bool := d.exponentBits = 0 && d.fraction = 0

/-- The magnitude of a finite double as `m * 2 ^ (e - 1075)`. -/
def significand (d : Double) : Nat × Nat :=
  if d.exponentBits = 0 then (d.fraction, 1) else (d.fraction + Nat.pow 2 52, d.exponentBits)

/-- Equality as numbers: both zeros are equal and a NaN equals nothing. -/
def numEq (a b : Double) : Bool := a.toFloat == b.toFloat

/-! Arithmetic and order are those of the machine's double precision numbers. -/

def neg (d : Double) : Double := ⟨d.bits ^^^ 0x8000000000000000⟩
def abs (d : Double) : Double := ⟨d.bits &&& 0x7FFFFFFFFFFFFFFF⟩
def add (a b : Double) : Double := ofFloat (a.toFloat + b.toFloat)
def sub (a b : Double) : Double := ofFloat (a.toFloat - b.toFloat)
def mul (a b : Double) : Double := ofFloat (a.toFloat * b.toFloat)
def div (a b : Double) : Double := ofFloat (a.toFloat / b.toFloat)
def lt (a b : Double) : Bool := a.toFloat < b.toFloat
def le (a b : Double) : Bool := a.toFloat ≤ b.toFloat

/-- The integer part of a finite double, toward zero. -/
def truncate (d : Double) : Int :=
  let (m, e) := d.significand
  let n : Nat := if e ≥ 1075 then m * Nat.pow 2 (e - 1075) else m / Nat.pow 2 (1075 - e)
  if d.isNegative then -n else n

/-- Division rounded to the nearest integer, a half to the even one. -/
def divNearest (num den : Nat) : Nat :=
  let q := num / den
  let r := num % den
  if 2 * r < den then q else if 2 * r > den then q + 1 else if q % 2 = 0 then q else q + 1

/-- The nearest double to `num / den`, for a positive `den`; infinity beyond the range. -/
def ofRatio (negative : Bool) (num den : Nat) : Double :=
  let sign : Nat := if negative then Nat.pow 2 63 else 0
  if num = 0 then ⟨UInt64.ofNat sign⟩
  else
    -- the binary exponent of the quotient, exact up to one
    let guess : Int := (num.log2 : Int) - den.log2
    let geq (k : Int) : Bool := if k ≥ 0 then num ≥ den * Nat.pow 2 k.toNat else num * Nat.pow 2 (-k).toNat ≥ den
    let top : Int := if geq guess then guess else guess - 1
    let unit : Int := max (top - 52) (-1074)
    let m := if unit ≥ 0 then divNearest num (den * Nat.pow 2 unit.toNat)
      else divNearest (num * Nat.pow 2 (-unit).toNat) den
    -- a significand that rounds up to 2^53 carries into the exponent by itself
    let field : Nat := if m < Nat.pow 2 52 then m else ((unit + 1074).toNat * Nat.pow 2 52 + m)
    if field ≥ 2047 * Nat.pow 2 52 then ⟨UInt64.ofNat (sign + 2047 * Nat.pow 2 52)⟩
    else ⟨UInt64.ofNat (sign + field)⟩

/-- The nearest double to an integer. -/
def ofInt (n : Int) : Double := ofRatio (n < 0) n.natAbs 1

/-- Conversion to a word toward zero; a value outside the words, or a NaN, fails. -/
def toWord (d : Double) : Except Failure Int64 :=
  if d.isNaN then .error (.plain "cannot convert NaN to integer")
  else if d.isInfinite then .error (.arith .wordOverflow)
  else
    let n := d.truncate
    -- -2^63 itself is a word, 2^63 is not
    if d.toFloat < -9223372036854775808.0 || n ≥ 9223372036854775808 then .error (.arith .wordOverflow)
    else .ok (Int64.ofInt n)

end Double
end FlowCompiler
