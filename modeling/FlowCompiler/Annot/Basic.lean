import FlowCompiler.Machine.Word
import FlowCompiler.Flow.Graph

/-!
# Annotations

The abstract value of a variable: a finite description of everything the variable may hold when the
program runs.  Lists, dictionaries, classes and the compile-time values that a program calls have
definitions of their own, which annotations mention by number.
-/

/-! ## Kinds of annotations

Every annotation has a kind, and the kinds form a tree: a truth value is an integer, an integer is a
float, a character is a string.  Operations on two annotations are chosen by the pair of their kinds.
The pairs above a pair form a grid with two parents for each, and they are searched in the order that
the C3 rule gives: a pair comes before its parents, and the pair with the wider left side first. -/

namespace FlowCompiler

inductive Kind where
  | object
  | impossible
  | none
  | float
  | integer
  | bool
  | stringOrUnicode
  | string
  | char
  | unicode
  | unichar
  | tuple
  | list
  | dict
  | inst
  | pbc
  | iterator
  | builtin
  | builtinMethod
  | type
  | weakref
deriving DecidableEq, Repr, Inhabited

namespace Kind

/-- All kinds with their names. -/
def names : List (Kind × String) :=
  [ (object, "Object"), (impossible, "Impossible"), (none, "None"), (float, "Float"), (integer, "Integer"),
    (bool, "Bool"), (stringOrUnicode, "StringOrUnicode"), (string, "String"), (char, "Char"),
    (unicode, "Unicode"), (unichar, "UniChar"), (tuple, "Tuple"), (list, "List"), (dict, "Dict"),
    (inst, "Instance"), (pbc, "PBC"), (iterator, "Iterator"), (builtin, "Builtin"),
    (builtinMethod, "BuiltinMethod"), (type, "Type"), (weakref, "WeakRef") ]

def text (k : Kind) : String := (names.lookup k).getD "Kind?"

def ofText? (s : String) : Option Kind := (names.find? fun e => e.2 == s).map Prod.fst

/-- The next wider kind; the kind of all objects has none. -/
def parent? : Kind → Option Kind
  | object => Option.none
  | integer => some float
  | bool => some integer
  | string => some stringOrUnicode
  | char => some string
  | unicode => some stringOrUnicode
  | unichar => some unicode
  | builtinMethod => some builtin
  | _ => some object

def ancestorsAux : (fuel : Nat) → Kind → List Kind
  | 0, _ => []
  | n + 1, k => k :: (match k.parent? with
    | some p => ancestorsAux n p
    | Option.none => [])

/-- The kind and all wider ones, from narrow to wide; no chain has more than five. -/
def ancestors (k : Kind) : List Kind := ancestorsAux 5 k

/-- Whether a kind is another one or narrower. -/
def isSub (k other : Kind) : Bool := k.ancestors.contains other

end Kind

/-! ### The order of pairs -/

namespace Linearization

variable {α : Type} [DecidableEq α]

/-- The first head that stands in no tail. -/
def nextHead? (seqs : List (List α)) : Option α :=
  (seqs.filterMap List.head?).find? fun c => seqs.all fun s => !s.tail.contains c

/-- Merges sequences so that the order of each is kept; stuck when every head waits in some tail. -/
def merge : (fuel : Nat) → List (List α) → Option (List α)
  | 0, _ => some []
  | n + 1, seqs =>
    let seqs := seqs.filter fun s => !s.isEmpty
    if seqs.isEmpty then some []
    else match nextHead? seqs with
      | some c => (merge n (seqs.map fun s => if s.head? = some c then s.tail else s)).map (c :: ·)
      | none => none

/-- The linear order of the grid above the pair of the heads of two chains. -/
def pairs : (left right : List α) → Option (List (α × α))
  | a :: as, b :: bs => do
    let wideLeft ← pairs as (b :: bs)
    let wideRight ← pairs (a :: as) bs
    let bases := (as.head?.map (·, b)).toList ++ (bs.head?.map (a, ·)).toList
    let seqs := [wideLeft, wideRight, bases]
    let rest ← merge ((as.length + 1) * (bs.length + 1) + 1) seqs
    pure ((a, b) :: rest)
  | _, _ => some []
termination_by left right => left.length + right.length

end Linearization

namespace Kind

/-- The pairs above a pair of kinds, in the order in which a handler is looked for. -/
def pairOrder (a b : Kind) : List (Kind × Kind) := (Linearization.pairs a.ancestors b.ancestors).getD []

/-- The place of a kind in the list of all kinds. -/
def index (k : Kind) : Nat := names.findIdx fun e => e.1 = k

/-- The order of every pair, row by row. -/
def orderTable : Array (List (Kind × Kind)) :=
  (names.flatMap fun (a, _) => names.map fun (b, _) => pairOrder a b).toArray

/-- The order of a pair as the table has it. -/
def tabledOrder (a b : Kind) : List (Kind × Kind) :=
  (orderTable[a.index * names.length + b.index]?).getD []

/-- The handler of a pair of kinds among the registered ones, with the pair under which it was found;
a later registration of a pair replaces an earlier one. -/
def lookupPair {β : Type} (handlers : List ((Kind × Kind) × β)) (a b : Kind) : Option ((Kind × Kind) × β) :=
  (tabledOrder a b).findSome? fun p => (handlers.reverse.find? fun h => h.1 = p)

end Kind
end FlowCompiler

/-! ## Integer ranges

Integers are annotated with a closed range of words.  When two different ranges meet, the ends of the
range around both move outwards to one of few points: the extreme words, `2^k - 1` and `-2^k`.  A range
can move outwards only about a hundred times, so the analysis ends. -/

namespace FlowCompiler

/-- The closed range of words from `lo` to `hi`. -/
structure Range where
  lo : Int
  hi : Int
deriving DecidableEq, Repr, Inhabited

namespace Range

def minWord : Int := -(Nat.pow 2 63 : Nat)
def maxWord : Int := (Nat.pow 2 63 : Nat) - 1

/-- All words. -/
def full : Range := ⟨minWord, maxWord⟩

/-- The words that are not negative. -/
def nonneg : Range := ⟨0, maxWord⟩

def isFull (r : Range) : Bool := r == full

def contains (r o : Range) : Bool := decide (r.lo ≤ o.lo) && decide (o.hi ≤ r.hi)

def text (r : Range) : String := s!"[{r.lo},{r.hi}]"

/-- The smallest range around both. -/
def hull (r o : Range) : Range := ⟨min r.lo o.lo, max r.hi o.hi⟩

/-- The number of binary digits. -/
def bitLength (n : Nat) : Nat := if n = 0 then 0 else n.log2 + 1

/-- The largest point at or below a word. -/
def quantizeDown (v : Int) : Int :=
  if v ≥ 0 then
    if v = maxWord then v else (Nat.pow 2 (bitLength (v.toNat + 1) - 1) : Nat) - 1
  else if v = minWord then v
  else
    let k := bitLength ((-v).toNat - 1)
    if k ≥ 63 then minWord else -(Nat.pow 2 k : Nat)

/-- The smallest point at or above a word. -/
def quantizeUp (v : Int) : Int :=
  if v < 0 then
    if v = minWord then v else -(Nat.pow 2 (bitLength (-v).toNat - 1) : Nat)
  else
    let k := bitLength v.toNat
    if k ≥ 63 then maxWord else (Nat.pow 2 k : Nat) - 1

/-- The range of two different ranges that meet. -/
def widen (a b : Range) : Range :=
  let h := a.hull b
  ⟨quantizeDown h.lo, quantizeUp h.hi⟩

/-- Whether an integer is a word. -/
def isWord (n : Int) : Bool := decide (minWord ≤ n) && decide (n ≤ maxWord)

/-- A range when both its ends are words. -/
def ofEnds? (lo hi : Int) : Option Range := if isWord lo && isWord hi then some ⟨lo, hi⟩ else none

end Range

/-- What is known of an integer: its width and sign, the range, and its value when that is constant. -/
structure IntFact where
  const : Option Int := none
  unsigned : Bool := false
  bits : Nat := 64
  nonneg : Bool := false
  range : Option Range := none
deriving DecidableEq, Repr, Inhabited

namespace IntFact

/-- Sets the range; an unsigned integer has none, and all words are no range. -/
def setRange (i : IntFact) (r : Range) : IntFact :=
  if i.unsigned then { i with range := none, nonneg := true }
  else if r.isFull then { i with range := none, nonneg := false }
  else { i with range := some r, nonneg := decide (r.lo ≥ 0) }

/-- A signed word. -/
def signed (nonneg : Bool) : IntFact := if nonneg then { nonneg, range := some .nonneg } else {}

def ofRange (lo hi : Int) : IntFact := ({} : IntFact).setRange ⟨lo, hi⟩

def ofWidth (bits : Nat) (unsigned : Bool) : IntFact := { bits, unsigned, nonneg := unsigned }

def ofConst (n : Int) : IntFact := ({ const := some n } : IntFact).setRange ⟨n, n⟩

/-- A truth value as an integer. -/
def ofBool : Option Bool → IntFact
  | some b => ofConst (if b then 1 else 0)
  | none => ofRange 0 1

def getRange (i : IntFact) : Range := i.range.getD (if i.nonneg then .nonneg else .full)

/-- The machine type of the integer. -/
def typeName (i : IntFact) : String :=
  if i.unsigned then (if i.bits > 64 then "r_ulonglonglong" else "r_uint")
  else if i.bits > 64 then "r_longlonglong"
  else if i.bits ≠ 64 then s!"r_int{i.bits}"
  else "int"

/-- The least fact that holds of both: equal constants stay, and different ranges are widened. -/
def union (a b : IntFact) : IntFact :=
  let out : IntFact :=
    { bits := max a.bits b.bits, unsigned := a.unsigned || b.unsigned,
      const := if a.const = b.const then a.const else none }
  if out.unsigned then { out with nonneg := true }
  else if a.range.isNone && b.range.isNone then
    if a.nonneg && b.nonneg then { out with nonneg := true, range := some .nonneg } else out
  else if a.getRange = b.getRange then out.setRange a.getRange
  else out.setRange (a.getRange.widen b.getRange)

/-! ### Arithmetic -/

/-- The range of the products of two ranges, when all of them are words. -/
def mulRange? (a b : Range) : Option Range :=
  let ps := [a.lo * b.lo, a.lo * b.hi, a.hi * b.lo, a.hi * b.hi]
  if ps.all Range.isWord then
    some ⟨ps.foldl min (a.lo * b.lo), ps.foldl max (a.lo * b.lo)⟩
  else none

/-- The range of an operation on signed operands; none when nothing is known. -/
def arithRange? (op : String) (a b : IntFact) : Option Range :=
  let ra := a.getRange
  let rb := b.getRange
  let both := a.nonneg && b.nonneg
  match op with
  | "add" | "inplace_add" | "add_ovf" =>
    Range.ofEnds? (ra.lo + rb.lo) (ra.hi + rb.hi) <|> (if both then some .nonneg else none)
  | "sub" | "inplace_sub" | "sub_ovf" => Range.ofEnds? (ra.lo - rb.hi) (ra.hi - rb.lo)
  | "mul" | "inplace_mul" | "mul_ovf" => mulRange? ra rb <|> (if both then some .nonneg else none)
  | "floordiv" | "div" | "rshift" => if both then some ⟨0, ra.hi⟩ else none
  | "mod" => if both then some ⟨0, min ra.hi (max (rb.hi - 1) 0)⟩ else none
  | "and_" =>
    if both then some ⟨0, min ra.hi rb.hi⟩
    else if a.nonneg then some ⟨0, ra.hi⟩
    else if b.nonneg then some ⟨0, rb.hi⟩
    else none
  | "or_" | "xor" => if both then some .nonneg else none
  | _ => none

/-- The result of a binary operation. -/
def arith (op : String) (a b : IntFact) : IntFact :=
  let out : IntFact := { bits := max a.bits b.bits, unsigned := a.unsigned || b.unsigned }
  if out.unsigned then { out with nonneg := true }
  else match arithRange? op a b with
    | none => out
    | some r =>
      let out := out.setRange r
      if a.const.isSome && b.const.isSome && r.lo = r.hi then { out with const := some r.lo } else out

/-- The range of a unary operation other than `pos`; none when nothing is known. -/
def unaryRange? (op : String) (r : Range) : Option Range :=
  match op with
  | "neg" => if r.lo = Range.minWord then none else some ⟨-r.hi, -r.lo⟩
  | "abs" =>
    if r.lo = Range.minWord then some .nonneg
    else
      let lo := if r.lo > 0 then r.lo else if r.hi < 0 then -r.hi else 0
      some ⟨lo, max (-r.lo) r.hi⟩
  | "invert" => some ⟨-r.hi - 1, -r.lo - 1⟩
  | _ => none

/-- The result of a unary operation. -/
def unary (op : String) (a : IntFact) : IntFact :=
  if a.unsigned then ofWidth a.bits true
  else if op = "pos" then a
  else
    let out : IntFact := { bits := a.bits }
    match unaryRange? op a.getRange with
    | none => out
    | some r =>
      let out := out.setRange r
      match out.range with
      | some q => if a.const.isSome && q.lo = q.hi then { out with const := some q.lo } else out
      | none => out

end IntFact

abbrev ListDefId := Nat
abbrev DictDefId := Nat
abbrev ItemId := Nat
abbrev ClassDefId := Nat
abbrev DescId := Nat

/-- Something that is known of a variable whenever a truth value has the given outcome. -/
structure Fact (α : Type) where
  outcome : Bool
  var : VarId
  value : α

inductive Annot where
  | object
  | impossible
  | none
  /-- A truth value, with what is known of other variables by its outcome. -/
  | bool (const : Option Bool) (facts : List (Fact Annot))
  | int (i : IntFact)
  /-- The tag tells apart the annotations of constants that differ from themselves. -/
  | float (const : Option Double) (tag : Nat)
  | char (const : Option UInt8) (noNul : Bool)
  | unichar (const : Option Int) (noNul : Bool)
  | str (const : Option String) (nullable noNul : Bool)
  | unicode (const : Option String) (nullable noNul : Bool)
  /-- The tag tells apart tuples that were made apart. -/
  | tuple (tag : Nat) (const : Option ObjId) (items : List Annot)
  | list (d : ListDefId)
  | dict (d : DictDefId)
  /-- An instance of a class, or of an unknown one; flags are sorted. -/
  | inst (cls : Option ClassDefId) (nullable : Bool) (flags : List String)
  /-- One of several compile-time values, sorted by number. -/
  | pbc (descs : List DescId) (nullable : Bool)
  | iter (container : Annot) (variant : String)
  | builtin (name : String)
  | method (name : String) (self : Annot)
  /-- A type, which is that of the variables `vars`; the tag tells apart types that were made apart. -/
  | type (const : Option Datum) (vars : List VarId) (tag : Nat)
  /-- A weak reference to instances of a class; without a class it is dead. -/
  | weakref (cls : Option ClassDefId)
deriving Inhabited

namespace Annot

def kind : Annot → Kind
  | object => .object
  | impossible => .impossible
  | none => .none
  | bool _ _ => .bool
  | int _ => .integer
  | float _ _ => .float
  | char _ _ => .char
  | unichar _ _ => .unichar
  | str _ _ _ => .string
  | unicode _ _ _ => .unicode
  | tuple _ _ _ => .tuple
  | list _ => .list
  | dict _ => .dict
  | inst _ _ _ => .inst
  | pbc _ _ => .pbc
  | iter _ _ => .iterator
  | builtin _ => .builtin
  | method _ _ => .builtinMethod
  | type _ _ _ => .type
  | weakref _ => .weakref

/-- A truth value of which nothing is known. -/
def someBool : Annot := bool Option.none []
def constBool (b : Bool) : Annot := bool (some b) []
def someFloat : Annot := float Option.none 0
def someStr (nullable noNul : Bool) : Annot := str Option.none nullable noNul
def someUnicode (nullable noNul : Bool) : Annot := unicode Option.none nullable noNul
def someChar (noNul : Bool) : Annot := char Option.none noNul
def someUnichar (noNul : Bool) : Annot := unichar Option.none noNul
def someInt (nonneg : Bool) : Annot := int (.signed nonneg)
def constInt (n : Int) : Annot := int (.ofConst n)
def intRange (lo hi : Int) : Annot := int (.ofRange lo hi)
def someType : Annot := type Option.none [] 0

def constChar (c : UInt8) : Annot := char (some c) (c ≠ 0)
def constUnichar (c : Int) : Annot := unichar (some c) (c ≠ 0)

/-- Whether a text has no character zero. -/
def lacksNul (s : String) : Bool := !s.toList.contains (Char.ofNat 0)

def constStr (s : String) : Annot := str (some s) false (lacksNul s)
def constUnicode (s : String) : Annot := unicode (some s) false (lacksNul s)

/-- An instance that is never nothing and has no flags. -/
def instOf (c : ClassDefId) : Annot := inst (some c) false []

def isImpossible : Annot → Bool
  | impossible => true
  | _ => false

def isNone : Annot → Bool
  | none => true
  | _ => false

/-- Whether the value is known at compile time. -/
def isConst : Annot → Bool
  | none => true
  | bool c _ => c.isSome
  | int i => i.const.isSome
  | float c _ => c.isSome
  | char c _ => c.isSome
  | unichar c _ => c.isSome
  | str c _ _ => c.isSome
  | unicode c _ _ => c.isSome
  | tuple _ c _ => c.isSome
  | pbc ds nullable => ds.length == 1 && !nullable
  | builtin _ => true
  | type c _ _ => c.isSome
  | _ => false

def canBeNone : Annot → Bool
  | object => true
  | none => true
  | str _ n _ => n
  | unicode _ n _ => n
  | list _ => true
  | dict _ => true
  | inst _ n _ => n
  | pbc _ n => n
  | _ => false

/-- What is known of other variables by the outcome of a truth value. -/
def facts : Annot → List (Fact Annot)
  | bool _ fs => fs
  | _ => []

/-- The annotation without nothing. -/
def nonnull : Annot → Annot
  | str c _ z => str c false z
  | unicode c _ z => unicode c false z
  | inst c _ fs => inst c false fs
  | pbc ds _ => if ds.isEmpty then impossible else pbc ds false
  | none => impossible
  | a => a

/-- The annotation with nothing, for those that can hold it. -/
def nullable? : Annot → Option Annot
  | a@(str _ n z) => some (if n then a else someStr true z)
  | a@(unicode _ n z) => some (if n then a else someUnicode true z)
  | inst c _ fs => some (inst c true fs)
  | pbc ds _ => some (pbc ds true)
  | a@(list _) => some a
  | a@(dict _) => some a
  | none => some none
  | object => some object
  | _ => Option.none

mutual

/-- The annotation without its constant; a tuple is made anew, and `tag` tells it apart. -/
def notConst (tag : Nat) : Annot → Annot
  | bool _ _ => someBool
  | int i => int { i with const := Option.none }
  | float _ _ => someFloat
  | char _ z => someChar z
  | unichar _ z => someUnichar z
  | str _ n z => someStr n z
  | unicode _ n z => someUnicode n z
  | type _ _ _ => someType
  | tuple _ _ items => tuple tag Option.none (notConsts tag items)
  | a => a

def notConsts (tag : Nat) : List Annot → List Annot
  | [] => []
  | a :: r => notConst tag a :: notConsts tag r

end

/-- Adds a fact to those of one outcome and variable; `improve` joins it with an earlier one. -/
def addFact (improve : Annot → Annot → Annot) (fs : List (Fact Annot)) (f : Fact Annot) : List (Fact Annot) :=
  if fs.any fun g => g.outcome == f.outcome && g.var == f.var then
    fs.map fun g => if g.outcome == f.outcome && g.var == f.var then { g with value := improve g.value f.value } else g
  else fs ++ [f]

/-- The fact of one outcome and variable. -/
def findFact? (fs : List (Fact Annot)) (outcome : Bool) (v : VarId) : Option Annot :=
  (fs.find? fun g => g.outcome == outcome && g.var == v).map Fact.value

/-- Renames the variables of facts; a variable with several names stands for each of them, and a later
fact of one name replaces an earlier one. -/
def renameFacts (names : VarId → List VarId) (fs : List (Fact Annot)) : List (Fact Annot) :=
  fs.foldl (fun out f => (names f.var).foldl (fun out v =>
    addFact (fun _ new => new) out { f with var := v }) out) []

end Annot
end FlowCompiler
