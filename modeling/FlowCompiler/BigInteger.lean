import FlowCompiler.Machine.Double
import FlowCompiler.Machine.Word

/-!
# Integers of any size

Constants that exceed a word, and conversions between integers and byte strings, are computed on
integers without a bound.  Division and remainder go to the floor, so a remainder has the sign of the
divisor, and conversion to a double rounds correctly.
-/

namespace FlowCompiler.BigInteger

def fail {α : Type} (text : String) (cause : ArithCause) : Except Failure α :=
  .error (.wrapped text (.arith cause))

/-- The integer part of a double, toward zero. -/
def ofDouble (d : Double) : Except Failure Int :=
  if d.isNaN then fail "cannot convert float NaN to integer" .invalidValue
  else if d.isInfinite then fail "cannot convert float infinity to integer" .tooLarge
  else .ok d.truncate

/-- Reads digits behind those already in `acc`, all of which must be digits of the base. -/
def readDigits? (base : Nat) : (acc : Nat) → List Char → Option Nat
  | acc, [] => some acc
  | acc, c :: cs =>
    if Numeral.digitValue c < base then readDigits? base (acc * base + Numeral.digitValue c) cs else none

/-- Reads a whole text as a number in a base: a sign, which may be missing, and at least one digit. -/
def ofText? (base : Nat) (cs : List Char) : Option Int :=
  let (negative, ds) : Bool × List Char := match cs with
    | '-' :: r => (true, r)
    | '+' :: r => (false, r)
    | _ => (false, cs)
  if ds.isEmpty then none
  else (readDigits? base 0 ds).map fun m => if negative then -(m : Int) else m

/-- Reads a literal of any size. -/
def ofLiteral (s : String) (base : Int) : Except Failure Int := do
  let n ← Numeral.parse s base
  match ofText? n.base (n.digits.map Char.toLower) with
  | none => .error (Numeral.badLiteral base)
  | some v => .ok (if n.negative then -v else v)

def toWord (n : Int) : Except Failure Int64 :=
  if Word.fits n then .ok (Int64.ofInt n) else .error (.arith .tooLarge)

def toUnsigned (n : Int) : Except Failure UInt64 :=
  if n < 0 then .error (.arith .negativeToUnsigned)
  else if n < (Nat.pow 2 64 : Nat) then .ok (UInt64.ofNat n.toNat)
  else .error (.arith .tooLarge)

/-- The low 64 bits. -/
def lowBits (n : Int) : UInt64 := UInt64.ofNat (n % (Nat.pow 2 64 : Nat)).toNat

/-- From this magnitude on an integer rounds to infinity. -/
def doubleLimit : Nat := Nat.pow 2 1024 - Nat.pow 2 970

def toDouble (n : Int) : Except Failure Double :=
  if n.natAbs ≥ doubleLimit then fail "int too large to convert to float" .tooLarge
  else .ok (Double.ofInt n)

def compare (a b : Int) : Int := if a < b then -1 else if a = b then 0 else 1

/-- The number of bits of the magnitude. -/
def bitLength (n : Int) : Nat := if n = 0 then 0 else n.natAbs.log2 + 1

/-- Integers that are words hash to themselves, others to their low bits. -/
def hash (n : Int) : Int64 := if Word.fits n then Int64.ofInt n else (lowBits n).toInt64

/-- The floored quotient and the remainder, computed from the truncated ones. -/
def divMod (a b : Int) : Except Failure (Int × Int) :=
  if b = 0 then .error (.arith .zeroDivision)
  else
    let q := a.tdiv b
    let r := a.tmod b
    if r ≠ 0 && r.sign ≠ b.sign then .ok (q - 1, r + b) else .ok (q, r)

def floorDiv (a b : Int) : Except Failure Int := (divMod a b).map Prod.fst
def mod (a b : Int) : Except Failure Int := (divMod a b).map Prod.snd

/-- The greatest finite double, as an integer. -/
def greatestDouble : Nat := (Nat.pow 2 53 - 1) * Nat.pow 2 971

/-- The correctly rounded quotient. -/
def trueDiv (a b : Int) : Except Failure Double :=
  if b = 0 then fail "division by zero" .zeroDivision
  else if a.natAbs > greatestDouble * b.natAbs then
    fail "integer division result too large for a float" .tooLarge
  else .ok (Double.ofRatio (a ≠ 0 && decide (a < 0) != decide (b < 0)) a.natAbs b.natAbs)

/-- `base ^ e` modulo `m` by repeated squaring, with `fuel` at least the number of bits of `e`. -/
def powModAux : (fuel : Nat) → (base e m acc : Nat) → Nat
  | 0, _, _, m, acc => acc % m
  | fuel + 1, base, e, m, acc =>
    if e = 0 then acc % m
    else powModAux fuel (base * base % m) (e / 2) m (if e % 2 = 1 then acc * base % m else acc)

/-- The least residue of `base ^ e` modulo `m`. -/
def powMod (base e m : Nat) : Nat := powModAux (e.log2 + 1) base e m 1

/-- A power; those of zero and of one need no multiplication. -/
def power (b : Int) (e : Nat) : Int :=
  let m : Nat := if b.natAbs ≤ 1 then (if e = 0 then 1 else b.natAbs) else Nat.pow b.natAbs e
  if b < 0 && e % 2 = 1 then -m else m

/-- The power, reduced modulo `m` when one is given; the residue has the sign of the modulus.  `residue` finds
the least residue of a power. -/
def powBy (residue : (base e m : Nat) → Nat) (b e : Int) (modulus : Option Int) : Except Failure Int :=
  if e < 0 then
    match modulus with
    | some _ => fail "pow() 2nd argument cannot be negative when 3rd argument specified" .invalidValue
    | none => fail "bigint pow() negative" .invalidValue
  else match modulus with
    | none => .ok (power b e.toNat)
    | some m =>
      if m = 0 then fail "pow() 3rd argument cannot be 0" .invalidValue
      else
        let k : Nat := m.natAbs
        let base : Nat := (b % k).toNat
        let r : Nat := if e = 0 then 1 % k else if base = 0 then 0 else residue base e.toNat k
        .ok (if m < 0 && r ≠ 0 then r + m else r)

def pow : (b e : Int) → (modulus : Option Int) → Except Failure Int := powBy powMod

def shiftLeft (a n : Int) : Except Failure Int :=
  if n < 0 then fail "negative shift count" .invalidValue
  else .ok (if a = 0 then 0 else a * (Nat.pow 2 n.toNat : Nat))

/-- Shifts right; a negative number goes toward minus infinity, and when all bits are shifted out only the
sign is left. -/
def shiftRight (a n : Int) : Except Failure Int :=
  if n < 0 then fail "negative shift count" .invalidValue
  else if (bitLength a : Int) ≤ n then .ok (if a < 0 then -1 else 0)
  else .ok (a.fdiv (Nat.pow 2 n.toNat : Nat))

/-- A bitwise operation on the two's complement expansions, given on naturals and on the sign. -/
def bitwise (f : Bool → Bool → Bool) (a b : Int) : Int :=
  let w := max (bitLength a) (bitLength b) + 1
  let u := Nat.bitwise f (a % (Nat.pow 2 w : Nat)).toNat (b % (Nat.pow 2 w : Nat)).toNat
  if f (a < 0) (b < 0) then (u : Int) - (Nat.pow 2 w : Nat) else u

def and (a b : Int) : Int := bitwise Bool.and a b
def or (a b : Int) : Int := bitwise Bool.or a b
def xor (a b : Int) : Int := bitwise (· != ·) a b
def complement (a : Int) : Int := -(a + 1)

/-! ## Text -/

/-- Digits beyond nine are small letters, then capital ones. -/
def digitChar (d : Nat) : Char :=
  if d < 10 then Char.ofNat (48 + d) else if d < 36 then Char.ofNat (87 + d) else Char.ofNat (29 + d)

def digitsAux (base : Nat) : (fuel n : Nat) → List Char → List Char
  | 0, _, acc => acc
  | fuel + 1, n, acc =>
    let acc := digitChar (n % base) :: acc
    if n / base = 0 then acc else digitsAux base fuel (n / base) acc

/-- The digits of a natural number in a base of at least two. -/
def digits (base n : Nat) : String := String.ofList (digitsAux base (n.log2 + 1) n [])

/-- The text of a number in a base, between a mark after the sign and a mark at the end. -/
def format (n : Int) (base : Nat) (mark suffix : String) : String :=
  (if n < 0 then "-" else "") ++ mark ++ digits base n.natAbs ++ suffix

def octal (n : Int) : String := if n = 0 then "0" else format n 8 "0" ""
def hex (n : Int) : String := format n 16 "0x" ""

/-! ## Bytes -/

/-- The order of bytes, read from its name. -/
def littleEndian? (order : String) : Except Failure Bool :=
  if order = "little" then .ok true else if order = "big" then .ok false else .error (.arith .byteOrder)

/-- Encodes into `count` bytes, negative numbers by two's complement when `signed`. -/
def toBytes (n count : Int) (order : String) (signed : Bool) : Except Failure (List UInt8) := do
  let little ← littleEndian? order
  if count < 0 then fail "length argument must be non-negative" .invalidValue
  else if n < 0 && !signed then .error (.arith .negativeToUnsigned)
  else
    let span : Int := (Nat.pow 2 (8 * count.toNat) : Nat)
    let half := span / 2
    let tooBig := if signed then n ≠ 0 && (n ≥ half || n < -half) else n ≥ span
    if tooBig then fail "int too big to convert" .tooLarge
    else
      let bs := Word.bytesLE (if n < 0 then n + span else n).toNat count.toNat
      .ok (if little then bs else bs.reverse)

/-- Decodes bytes; no bytes are zero. -/
def ofBytes (data : List UInt8) (order : String) (signed : Bool) : Except Failure Int := do
  let little ← littleEndian? order
  let bs := if little then data.reverse else data
  let n : Int := Word.ofBytesBE bs
  .ok (if signed && bs.head?.any (· ≥ 128) then n - (Nat.pow 2 (8 * bs.length) : Nat) else n)

end FlowCompiler.BigInteger
