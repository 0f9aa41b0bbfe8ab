import FlowCompiler.Failure

/-!
# Machine words

Integers of a compiled program are words of 64 bits: addition, subtraction, multiplication and shifts
wrap.  Where a program asks for overflow to be detected the checked operations below are used, both
while folding constants at compile time and as the meaning of the checked operations of a trace.
-/

namespace FlowCompiler.Word

/-- The number of bits of a word. -/
def bits : Nat := 64

def overflow : Failure := .arith .wordOverflow

/-- Keeps the low `width` bits, with the sign extended when `signed`.  Widths of a whole word and
widths below zero keep the word as it is. -/
def maskBits (n : Int64) (width : Int) (signed : Bool) : Int64 :=
  if width ≥ 64 || width < 0 then n
  else
    let mask : UInt64 := ((1 : UInt64) <<< (UInt64.ofNat width.toNat)) - 1
    let v := n.toUInt64 &&& mask
    let top : UInt64 := if width = 0 then 0 else (1 : UInt64) <<< (UInt64.ofNat (width.toNat - 1))
    if signed && v &&& top != 0 then (v ||| mask.complement).toInt64 else v.toInt64

/-- `a + b`, or the overflow failure. -/
def addChecked (a b : Int64) : Except Failure Int64 :=
  let s := a + b
  if decide (s > a) != decide (b > 0) then .error overflow else .ok s

/-- `a - b`, or the overflow failure. -/
def subChecked (a b : Int64) : Except Failure Int64 :=
  let s := a - b
  if decide (s < a) != decide (b > 0) then .error overflow else .ok s

/-- `a * b`, or the overflow failure. -/
def mulChecked (a b : Int64) : Except Failure Int64 :=
  if a = 0 || b = 0 then .ok 0
  else if (a = -1 && b = Int64.minValue) || (b = -1 && a = Int64.minValue) then .error overflow
  else
    let p := a * b
    if p / b != a then .error overflow else .ok p

/-- `-a`, or the overflow failure for the least word. -/
def negChecked (a : Int64) : Except Failure Int64 :=
  if a = Int64.minValue then .error overflow else .ok (-a)

/-- `a` shifted left by `n`, or the overflow failure when a bit other than the sign is lost. -/
def shiftLeftChecked (a : Int64) (n : Nat) : Except Failure Int64 :=
  if n ≥ 64 then (if a = 0 then .ok 0 else .error overflow)
  else
    let k := Int64.ofNat n
    let r := a <<< k
    if r >>> k != a then .error overflow else .ok r

/-- `a ≤ b < c`. -/
def between (a b c : Int64) : Bool := a ≤ b && b < c

/-- The exponent of a power of two. -/
def highestBit (n : UInt64) : Except Failure Nat :=
  if n = 0 || n &&& (n - 1) != 0 then .error (.plain s!"{n} is not a power of two")
  else .ok n.toNat.log2

/-- The bytes of `n` from the lowest up, `count` of them. -/
def bytesLE (n : Nat) : (count : Nat) → List UInt8
  | 0 => []
  | k + 1 => UInt8.ofNat n :: bytesLE (n / 256) k

/-- The number that bytes from the highest down stand for. -/
def ofBytesBE (bs : List UInt8) : Nat := bs.foldl (fun acc b => acc * 256 + b.toNat) 0

/-- Reverses the order of the lowest `count` bytes. -/
def byteswap (n : UInt64) (count : Nat) : UInt64 := UInt64.ofNat (ofBytesBE (bytesLE n.toNat count))

/-- The high word and the low word of a product. -/
def mulWide (a b : UInt64) : UInt64 × UInt64 :=
  (UInt64.ofNat (a.toNat * b.toNat / 18446744073709551616), UInt64.ofNat (a.toNat * b.toNat))

/-- A sum and the carry out of it. -/
def addCarry (a b : UInt64) : UInt64 × UInt64 :=
  (UInt64.ofNat (a.toNat + b.toNat), UInt64.ofNat ((a.toNat + b.toNat) / 18446744073709551616))

/-- Whether an integer is a word. -/
def fits (n : Int) : Bool := -9223372036854775808 ≤ n && n ≤ 9223372036854775807

end FlowCompiler.Word

/-! ## Integer literals

A literal may have blanks around it, a sign, and a prefix that fixes its base.  With base zero the
prefix decides, and a literal that starts with a zero digit is octal. -/

namespace FlowCompiler

/-- A literal taken apart: sign, base and digits. -/
structure Numeral where
  negative : Bool
  base : Nat
  digits : List Char
deriving Repr

namespace Numeral

def isBlank (c : Char) : Bool :=
  c = ' ' || c = '\t' || c = '\n' || c = '\r' || c.toNat = 11 || c.toNat = 12

def trimRight (cs : List Char) : List Char := (cs.reverse.dropWhile isBlank).reverse
def trim (cs : List Char) : List Char := trimRight (cs.dropWhile isBlank)

/-- The value of a digit; letters count from ten on, and anything else is no digit of any base. -/
def digitValue (c : Char) : Nat :=
  if '0' ≤ c && c ≤ '9' then c.toNat - '0'.toNat
  else if 'a' ≤ c && c ≤ 'z' then c.toNat - 'a'.toNat + 10
  else if 'A' ≤ c && c ≤ 'Z' then c.toNat - 'A'.toNat + 10
  else 99

/-- The base that a leading mark asks for. -/
def markBase : List Char → Option Nat
  | '0' :: c :: _ =>
    if c = 'x' || c = 'X' then some 16
    else if c = 'o' || c = 'O' then some 8
    else if c = 'b' || c = 'B' then some 2
    else none
  | _ => none

/-- Strips a sign and the blanks after it. -/
def stripSign : List Char → Bool × List Char
  | '-' :: r => (true, r.dropWhile isBlank)
  | '+' :: r => (false, r.dropWhile isBlank)
  | cs => (false, cs)

/-- The base of the digits, and the digits without the mark that named it. -/
def stripMark (base : Nat) (cs : List Char) : Nat × List Char :=
  match markBase cs with
  | some b =>
    if base = 0 || base = b then (b, cs.drop 2)
    else (base, cs)
  | none =>
    if base ≠ 0 then (base, cs)
    else match cs with
      | '0' :: _ :: _ => (8, cs)
      | _ => (10, cs)

def badLiteral (base : Int) : Failure := .badLiteral s!"invalid literal for int() with base {base}"

/-- Takes a literal apart. -/
def parse (s : String) (base : Int) : Except Failure Numeral :=
  if base ≠ 0 && (base < 2 || base > 36) then .error (.badLiteral "int() base must be >= 2 and <= 36")
  else
    let (negative, body) := stripSign (trim s.toList)
    let (b, digits) := stripMark base.toNat body
    if digits.isEmpty || digits.any (fun c => digitValue c ≥ b) then .error (badLiteral base)
    else .ok { negative, base := b, digits }

/-- Reads digits behind those already in `acc`; nothing when the number exceeds the limit, or a word on the way. -/
def accumulate (base limit : UInt64) : (acc : UInt64) → List Char → Option UInt64
  | acc, [] => some acc
  | acc, c :: cs =>
    let (hi, lo) := Word.mulWide acc base
    let (sum, carry) := Word.addCarry lo (UInt64.ofNat (digitValue c))
    if hi != 0 || carry != 0 || sum > limit then none else accumulate base limit sum cs

/-- The greatest magnitude of a word of a sign. -/
def limit (negative : Bool) : UInt64 := if negative then 9223372036854775808 else 9223372036854775807

/-- A literal as a word.  The least word has no positive counterpart, so a magnitude is made negative from one below. -/
def toWord (s : String) (base : Int) : Except Failure Int64 := do
  let n ← parse s base
  match accumulate (UInt64.ofNat n.base) (limit n.negative) 0 n.digits with
  | none => .error (.literalTooLarge (String.ofList (trim s.toList)))
  | some acc => .ok (if n.negative then -(acc - 1).toInt64 - 1 else acc.toInt64)

end Numeral
end FlowCompiler
