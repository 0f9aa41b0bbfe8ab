import FlowCompiler.Trace.Store

/-!
# Constant pointers in code

A constant pointer in machine code has to be known to the garbage collector.  An object that may move is
either pinned, or put into an array that an operation in front of its use reads it from; the collector
then updates the array.
-/

namespace FlowCompiler.Trace

/-- Which objects may move: the young ones that are not pinned. -/
structure Generations where
  young : List (Ref × Bool) := []
  pinned : List Ref := []
  maxPinned : Int := 0
deriving Inhabited

namespace Generations

def track (g : Generations) (r : Ref) (young : Bool) : Generations :=
  { g with young := (r, young) :: g.young.filter (·.1 ≠ r) }

def promote (g : Generations) (r : Ref) : Generations := g.track r false

def canMove (g : Generations) (r : Ref) : Bool := (g.young.lookup r).getD false && !g.pinned.contains r

/-- Pins an object, if the limit allows. -/
def pin (g : Generations) (r : Ref) : Bool × Generations :=
  if g.pinned.contains r then (true, g)
  else if (g.pinned.length : Int) ≥ g.maxPinned then (false, g)
  else (true, { g with pinned := g.pinned ++ [r] })

/-- Whether an object can be written into code as it is; it is pinned if need be. -/
def fix (g : Generations) (r : Ref) : Bool × Generations := if g.canMove r then g.pin r else (true, g)

end Generations

/-- Where the constant pointers of some operations go. -/
structure PointerPlan where
  /-- The objects that the code refers to. -/
  refs : List Ref := []
  /-- The objects that are read from the array, in the order of their indices. -/
  movable : List Ref := []
deriving Inhabited

namespace PointerPlan

def place (p : PointerPlan) (g : Generations) (r : Ref) : PointerPlan × Generations :=
  if p.refs.contains r || p.movable.contains r then (p, g)
  else match g.fix r with
    | (true, g) => ({ p with refs := p.refs ++ [r] }, g)
    | (false, g) => ({ p with movable := p.movable ++ [r] }, g)

/-- The objects that the constant arguments of an operation point to. -/
def pointers (op : Op) : List Ref := op.args.filterMap fun v => v.const?.bind Const.ref?

def make (g : Generations) (ops : List Op) : PointerPlan × Generations :=
  (ops.flatMap pointers).foldl (fun (p, g) r => p.place g r) ({}, g)

/-- The place of an argument in the array, if it is read from there. -/
def index? (p : PointerPlan) (v : Value) : Option Nat :=
  (v.const?.bind Const.ref?).bind fun r => p.movable.idxOf? r

end PointerPlan

/-- Operations with their constant pointers in order. -/
structure PinnedCode where
  ops : List Op
  refs : List Ref
  tracked : Nat
deriving Inhabited

namespace PinnedCode

/-- The operation that reads an object from the array, and its result. -/
def load (array : Ref) (d : ArrayId) (i : Nat) : StoreM (Op × Value) := do
  let b ← Store.newBox .ref
  pure ({ code := .getarrayitemGc, args := [.ofRef array, .ofInt i], result := some b, descr := some (.array d) }, .box b)

/-- An operation behind the operations that read its movable arguments. -/
def expand (p : PointerPlan) (array : Ref) (d : ArrayId) (op : Op) : StoreM (List Op) := do
  let parts ← op.args.mapM fun v => do
    match p.index? v with
    | some i => do
      let (l, w) ← load array d i
      pure ([l], w)
    | none => pure ([], v)
  let loads := parts.flatMap Prod.fst
  pure (if loads.isEmpty then [op] else loads ++ [op.change op.code (some (parts.map Prod.snd))])

/-- Makes the constant pointers of some operations known to the collector. -/
def make (g : Generations) (ops : List Op) : StoreM (PinnedCode × Generations) := do
  let (p, g) := PointerPlan.make g ops
  if p.movable.isEmpty then pure ({ ops, refs := p.refs, tracked := 0 }, g)
  else do
    let d ← modifyGet fun s => (s.arrays.size, { s with arrays := s.arrays.push { name := "MovableObjects", item := .ref } })
    let array ← Store.newObject (.array d (p.movable.map Value.ofRef).toArray)
    let out ← ops.mapM (expand p array d)
    pure ({ ops := out.flatten, refs := p.refs ++ [array], tracked := p.movable.length }, g)

end PinnedCode
end FlowCompiler.Trace
