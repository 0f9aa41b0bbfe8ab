import FlowCompiler.Machine.Word

/-!
# Bounds of integers

What is known of an integer while a trace is optimized: a lower and an upper bound, each of which may be
missing.  The operations give a bound of the result of the machine's operation; where the machine's
result may wrap around they give up that end, or both.
-/

namespace FlowCompiler.Trace

structure Bound where
  lower : Option Int64 := none
  upper : Option Int64 := none
deriving DecidableEq, Repr, Inhabited

namespace Bound

def unbounded : Bound := {}
def between (lo hi : Int64) : Bound := ⟨some lo, some hi⟩
def exactly (n : Int64) : Bound := between n n
def atLeast (lo : Int64) : Bound := ⟨some lo, none⟩
def atMost (hi : Int64) : Bound := ⟨none, some hi⟩
def zero : Bound := exactly 0

def text (b : Bound) : String :=
  let lo := (b.lower.map fun n => toString n.toInt).getD "-inf"
  let hi := (b.upper.map fun n => toString n.toInt).getD "+inf"
  s!"[{lo}, {hi}]"

def isBounded (b : Bound) : Bool := b.lower.isSome && b.upper.isSome

/-- The only value, if there is just one. -/
def const? (b : Bound) : Option Int64 :=
  match b.lower, b.upper with
  | some lo, some hi => if lo = hi then some lo else none
  | _, _ => none

/-- Whether the lower bound admits a value. -/
def aboveLower (b : Bound) (v : Int64) : Bool := b.lower.all fun lo => decide (lo ≤ v)
def belowUpper (b : Bound) (v : Int64) : Bool := b.upper.all fun hi => decide (v ≤ hi)

def contains (b : Bound) (v : Int64) : Bool := b.aboveLower v && b.belowUpper v

/-- Whether another bound lies inside. -/
def containsBound (b other : Bound) : Bool :=
  (b.lower.all fun lo => other.lower.any fun o => decide (lo ≤ o))
    && (b.upper.all fun hi => other.upper.any fun o => decide (o ≤ hi))

/-! ## Tightening

Each operation gives the new bound and whether it differs. -/

def makeLe (b other : Bound) : Bound × Bool :=
  match other.upper with
  | some o => if b.upper.all fun hi => decide (o < hi) then ({ b with upper := some o }, true) else (b, false)
  | none => (b, false)

def makeGe (b other : Bound) : Bound × Bool :=
  match other.lower with
  | some o => if b.lower.all fun lo => decide (lo < o) then ({ b with lower := some o }, true) else (b, false)
  | none => (b, false)

/-- The sum of an end and a number, missing when it overflows. -/
def addEnd (x : Option Int64) (n : Int64) : Option Int64 := x.bind fun v => (Word.addChecked v n).toOption

def subEnd (x : Option Int64) (n : Int64) : Option Int64 := x.bind fun v => (Word.subChecked v n).toOption

def shifted (b : Bound) (n : Int64) : Bound := ⟨addEnd b.lower n, addEnd b.upper n⟩

def makeLt (b other : Bound) : Bound × Bool := b.makeLe (other.shifted (-1))
def makeGt (b other : Bound) : Bound × Bool := b.makeGe (other.shifted 1)

def intersect (b other : Bound) : Bound × Bool :=
  let (b, low) := b.makeGe other
  let (b, high) := b.makeLe other
  (b, low || high)

/-! ## Comparison -/

def knownLt (b other : Bound) : Bool :=
  match b.upper, other.lower with
  | some hi, some lo => hi < lo
  | _, _ => false

def knownLe (b other : Bound) : Bool :=
  match b.upper, other.lower with
  | some hi, some lo => hi ≤ lo
  | _, _ => false

def knownGt (b other : Bound) : Bool := other.knownLt b
def knownGe (b other : Bound) : Bool := other.knownLe b

def knownNonNegative (b : Bound) : Bool := b.lower.any fun lo => decide (0 ≤ lo)

/-! ## Arithmetic -/

def add (b other : Bound) : Bound :=
  ⟨other.lower.bind (addEnd b.lower), other.upper.bind (addEnd b.upper)⟩

def sub (b other : Bound) : Bound :=
  ⟨other.upper.bind (subEnd b.lower), other.lower.bind (subEnd b.upper)⟩

/-- The least and the greatest of some values. -/
def hull : List Int64 → Bound
  | [] => unbounded
  | v :: vs => vs.foldl (fun b w => ⟨b.lower.map (min · w), b.upper.map (max · w)⟩) (exactly v)

/-- The bound spanned by the values at the four corners; unbounded when one of them fails. -/
def corners (b other : Bound) (f : Int64 → Int64 → Option Int64) : Bound :=
  match b.lower, b.upper, other.lower, other.upper with
  | some x, some x', some y, some y' =>
    match f x y, f x y', f x' y, f x' y' with
    | some p, some q, some r, some s => hull [p, q, r, s]
    | _, _, _, _ => unbounded
  | _, _, _, _ => unbounded

def mul (b other : Bound) : Bound := b.corners other fun x y => (Word.mulChecked x y).toOption

/-- Division toward zero; a divisor that may be zero bounds nothing. -/
def div (b other : Bound) : Bound :=
  if other.contains 0 then unbounded
  else b.corners other fun x y => if y = -1 && x = Int64.minValue then none else some (x / y)

/-- Whether the values are amounts to shift by. -/
def isShift (b : Bound) : Bool := b.knownGe zero && b.knownLt (exactly 64)

def lshift (b other : Bound) : Bound :=
  if other.isShift then b.corners other fun x y => (Word.shiftLeftChecked x y.toInt.toNat).toOption else unbounded

def rshift (b other : Bound) : Bound :=
  if other.isShift then b.corners other fun x y => some (x >>> y) else unbounded

/-- The least number of the form 2^k - 1 that is not below `n`. -/
def nextPow2M1 (n : Int64) : Int64 :=
  let n := n ||| (n >>> 1)
  let n := n ||| (n >>> 2)
  let n := n ||| (n >>> 4)
  let n := n ||| (n >>> 8)
  let n := n ||| (n >>> 16)
  n ||| (n >>> 32)

end Bound
end FlowCompiler.Trace
