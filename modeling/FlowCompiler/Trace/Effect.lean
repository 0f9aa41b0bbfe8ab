import FlowCompiler.Trace.Value

/-!
# Effects of calls

A call is described by how strong its side effects are, and by the fields and arrays that it may read
and write.  A call with random effects may touch everything.
-/

namespace FlowCompiler.Trace

/-- The strength of the effects of a call, weakest first. -/
inductive EffectLevel where
  | elidableCannotRaise
  | loopInvariant
  | cannotRaise
  | elidableOrMemoryError
  | elidableCanRaise
  | canRaise
  | forcesVirtual
  | random
deriving DecidableEq, Repr, Inhabited

namespace EffectLevel

def number : EffectLevel → Nat
  | elidableCannotRaise => 0
  | loopInvariant => 1
  | cannotRaise => 2
  | elidableOrMemoryError => 3
  | elidableCanRaise => 4
  | canRaise => 5
  | forcesVirtual => 6
  | random => 7

def ofNumber (n : Nat) : EffectLevel :=
  ([elidableCannotRaise, loopInvariant, cannotRaise, elidableOrMemoryError, elidableCanRaise, canRaise, forcesVirtual][n]?).getD
    random

end EffectLevel

/-! Calls that the optimizer knows by number; those on unicode strings are `unicodeOffset` above those
on byte strings. -/

namespace Special

def none : Nat := 0
def toUnicode : Nat := 2
def shrinkArray : Nat := 3
def dictLookup : Nat := 4
def concat : Nat := 22
def slice : Nat := 23
def equal : Nat := 24
def equalSliceCheckNull : Nat := 25
def equalSliceNonNull : Nat := 26
def equalSliceChar : Nat := 27
def equalNonNull : Nat := 28
def equalNonNullChar : Nat := 29
def equalCheckNullChar : Nat := 30
def equalLengthOk : Nat := 31
def compare : Nat := 32
def unicodeOffset : Nat := 20

def isUnicode (n : Nat) : Bool := concat + unicodeOffset ≤ n && n ≤ compare + unicodeOffset

end Special

structure Effect where
  level : EffectLevel
  special : Nat := 0
  /-- Sorted and without repetition. -/
  readFields : List FieldId := []
  writeFields : List FieldId := []
  readArrays : List ArrayId := []
  writeArrays : List ArrayId := []
  /-- May change a field that rarely changes. -/
  canInvalidate : Bool := false
  canCollect : Bool := false
  /-- For the lookup in a dictionary: its entries and their array. -/
  dictDescrs : List Descr := []
deriving Inhabited

namespace Effect

/-- The result depends on the arguments only. -/
def levelIsElidable : EffectLevel → Bool
  | .elidableCannotRaise | .elidableOrMemoryError | .elidableCanRaise => true
  | _ => false

def isElidable (e : Effect) : Bool := levelIsElidable e.level

def sortedIds (xs : List Nat) : List Nat := (xs.mergeSort fun a b => decide (a ≤ b)).eraseDups

/-- The effect of a call: random effects have no sets, and what cannot be observed to write writes
nothing. -/
def make (e : Effect) : Effect :=
  if e.level = .random then { level := .random, special := e.special, canInvalidate := true, canCollect := true }
  else
    let writes := !e.isElidable && e.level ≠ .loopInvariant
    { e with
      readFields := sortedIds e.readFields
      readArrays := sortedIds e.readArrays
      writeFields := if writes then sortedIds e.writeFields else []
      writeArrays := if writes then sortedIds e.writeArrays else [] }

def randomEffects : Effect := make { level := .random }

def hasRandomEffects (e : Effect) : Bool := e.level == .random

/-- Whether the call may raise; an error for lack of memory counts unless it is to be ignored. -/
def mayRaise (e : Effect) (ignoreMemoryError : Bool) : Bool :=
  e.level.number > (if ignoreMemoryError then 3 else 2)

def forcesVirtuals (e : Effect) : Bool := e.level.number ≥ 6

def writesField (e : Effect) (f : FieldId) : Bool := e.hasRandomEffects || e.writeFields.contains f
def readsField (e : Effect) (f : FieldId) : Bool := e.hasRandomEffects || e.readFields.contains f
def writesArray (e : Effect) (a : ArrayId) : Bool := e.hasRandomEffects || e.writeArrays.contains a
def readsArray (e : Effect) (a : ArrayId) : Bool := e.hasRandomEffects || e.readArrays.contains a

def text (e : Effect) : String :=
  if e.hasRandomEffects then "<EffectInfo random>"
  else s!"<EffectInfo extra={e.level.number} oopspec={e.special} rf={e.readFields.length} wf={e.writeFields.length} ra={e.readArrays.length} wa={e.writeArrays.length}>"

end Effect
end FlowCompiler.Trace
