import FlowCompiler.Machine.Double

/-!
# The shortest decimal of a double

The fewest decimal digits that read back as the same double, and of those the nearest to it.  The
search is over exact natural numbers: for each number of digits the two neighbours of the value on
that decimal grid are tested against the interval of reals that round to the double.
-/

namespace FlowCompiler
namespace Decimal

/-- A positive decimal `0.d₁d₂… × 10 ^ point`, the digits as one number of `count` digits. -/
structure Digits where
  value : Nat
  count : Nat
  point : Int

/-- Ten to an integer power, as a ratio. -/
def pow10 (k : Int) : Nat × Nat := if k ≥ 0 then (Nat.pow 10 k.toNat, 1) else (1, Nat.pow 10 (-k).toNat)

/-- The rounding interval of `m * 2 ^ (e - 1075)` in units of `2 ^ -1076`: lower end, value, upper end. -/
def interval (m e : Nat) : Nat × Nat × Nat :=
  let s := Nat.pow 2 (e + 1)
  let low := if m = Nat.pow 2 52 && e > 1 then s / 4 else s / 2
  (m * s - low, m * s, m * s + s / 2)

/-- The candidate `k * 10 ^ unit` as a ratio over `2 ^ -1076`, compared with an interval end. -/
def compareScaled (k : Nat) (unit : Int) (x : Nat) : Ordering :=
  let (p, q) := pow10 unit
  compare (k * p * Nat.pow 2 1076) (x * q)

/-- Whether a candidate reads back: inside the interval, the ends counted when `closed`. -/
def readsBack (closed : Bool) (lo hi : Nat) (k : Nat) (unit : Int) : Bool :=
  match compareScaled k unit lo, compareScaled k unit hi with
  | .gt, .lt => true
  | .eq, _ => closed
  | _, .eq => closed
  | _, _ => false

/-- The floor of `x * 2 ^ -1076 / 10 ^ unit`. -/
def floorScaled (x : Nat) (unit : Int) : Nat :=
  let (p, q) := pow10 unit
  x * q / (p * Nat.pow 2 1076)

/-- The number of decimal digits. -/
def width (n : Nat) : Nat := (toString n).length

/-- The best decimal with `n` digits, when one reads back. -/
def withDigits? (closed : Bool) (lo x hi : Nat) (top : Int) (n : Nat) : Option Digits :=
  let unit := top - n
  let k := floorScaled x unit
  let mk (k : Nat) : Digits := { value := k, count := width k, point := unit + width k }
  let below := readsBack closed lo hi k unit && k > 0
  let above := readsBack closed lo hi (k + 1) unit
  if below && above then
    -- the nearer of the two; an exact tie goes to the even one
    let (p, q) := pow10 unit
    let twice := 2 * x * q
    let mid := (2 * k + 1) * p * Nat.pow 2 1076
    some (mk (if twice < mid then k else if twice > mid then k + 1 else if k % 2 = 0 then k else k + 1))
  else if below then some (mk k)
  else if above then some (mk (k + 1))
  else none

/-- Drops zeros at the end, of which a carry may leave some. -/
def dropZeros : (fuel : Nat) → Digits → Digits
  | 0, d => d
  | f + 1, d => if d.value % 10 = 0 && d.count > 1 then dropZeros f { d with value := d.value / 10, count := d.count - 1 } else d

/-- The shortest digits of a finite double other than zero. -/
def shortest (d : Double) : Digits :=
  let (m, e) := d.significand
  let (lo, x, hi) := interval m e
  -- the power of ten just above the value
  let whole := floorScaled x (-400)
  let top : Int := (width whole : Int) - 400
  let found := (List.range 17).findSome? fun i => withDigits? (m % 2 = 0) lo x hi top (i + 1)
  dropZeros 20 (found.getD { value := 0, count := 1, point := 1 })

def pad (width : Nat) (s : String) : String := String.ofList (List.replicate (width - s.length) '0') ++ s

/-- The default text of a double: positional for decimal exponents from -4 up to `upTo`, scientific with at
least two exponent digits otherwise. -/
def text (upTo : Int) (d : Double) : String :=
  let sign := if d.isNegative then "-" else ""
  if d.isNaN then "NaN"
  else if d.isInfinite then (if d.isNegative then "-Inf" else "+Inf")
  else if d.isZero then sign ++ "0"
  else
    let g := shortest d
    let ds := toString g.value
    let exp := g.point - 1
    if exp < -4 || exp ≥ upTo then
      let rest := (ds.drop 1).toString
      let frac := if rest = "" then "" else "." ++ rest
      sign ++ (ds.take 1).toString ++ frac ++ "e" ++ (if exp < 0 then "-" else "+") ++ pad 2 (toString exp.natAbs)
    else if g.point ≤ 0 then
      sign ++ "0." ++ String.ofList (List.replicate (-g.point).toNat '0') ++ ds
    else if g.point ≥ g.count then
      sign ++ ds ++ String.ofList (List.replicate (g.point - g.count).toNat '0')
    else
      sign ++ (ds.take g.point.toNat).toString ++ "." ++ (ds.drop g.point.toNat).toString

end Decimal

/-- The text of a double in messages and dumps. -/
def Double.text (d : Double) : String := Decimal.text 6 d

end FlowCompiler
