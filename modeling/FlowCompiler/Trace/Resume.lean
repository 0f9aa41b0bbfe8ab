import FlowCompiler.Trace.Operation

/-!
# Resume data

When a guard fails, the state that the interpreter goes on with is rebuilt from what the machine saved.
The resume data of a guard number every saved value: small integers are in the number itself, other
constants, live boxes and virtual objects are entries of tables.  A virtual object is one that was never
allocated; its entry holds its shape and the numbers of its contents, and an object that occurs twice,
or inside itself, has one entry.
-/

namespace FlowCompiler.Trace

/-! ## Numbers -/

inductive Tag where
  | const
  | int
  | box
  | virtual
deriving DecidableEq, Repr

namespace Tag

def code : Tag → Int32
  | const => 0
  | int => 1
  | box => 2
  | virtual => 3

def ofCode (n : Int32) : Tag := if n = 0 then const else if n = 1 then int else if n = 2 then box else virtual

def text : Tag → String
  | const => "CONST"
  | int => "INT"
  | box => "BOX"
  | virtual => "VIRTUAL"

end Tag

/-- The number of a saved value: the lowest two bits are its kind, the others an index or an integer. -/
structure Tagged where
  word : Int32
deriving DecidableEq, Repr, Inhabited

namespace Tagged

def make (value : Int) (t : Tag) : Tagged := ⟨(Int32.ofInt value <<< 2) ||| t.code⟩

def tag (x : Tagged) : Tag := Tag.ofCode (x.word &&& 3)
def value (x : Tagged) : Int := (x.word >>> 2).toInt

/-- A hole. -/
def unassigned : Tagged := make (-1) .box

def smallest : Int := -(Nat.pow 2 28 : Nat)
def largest : Int := (Nat.pow 2 28 : Nat) - 1

/-- Integers that are numbered by themselves. -/
def isSmall (n : Int) : Bool := smallest ≤ n && n ≤ largest

def text (x : Tagged) : String :=
  if x = unassigned then "UNASSIGNED" else s!"{x.tag.text}({x.value})"

end Tagged

/-! ## Virtual objects -/

inductive ShapeKind where
  | struct
  | array
  /-- A string of which every character is known by itself. -/
  | plain
  | concat
  /-- A part of another string: the string, the start and the length. -/
  | slice
  | other (n : Nat)
deriving DecidableEq, Repr, Inhabited

namespace ShapeKind

def number : ShapeKind → Nat
  | struct => 0
  | array => 1
  | plain => 2
  | concat => 3
  | slice => 4
  | other n => n

def ofNumber (n : Nat) : ShapeKind := ([struct, array, plain, concat, slice][n]?).getD (other n)

end ShapeKind

/-- The shape of a virtual object; its contents are `α`. -/
structure Shape (α : Type) where
  kind : ShapeKind
  size : Option SizeId := none
  cls : Option Ref := none
  fields : List FieldId := []
  array : Option ArrayId := none
  unicode : Bool := false
  items : List α
deriving Inhabited

/-- A store that was put off until after a guard; without index it goes to a field. -/
structure Pending (α : Type) where
  descr : Descr
  target : α
  value : α
  index : Option Int
deriving Inhabited

structure ResumeData where
  numbering : List Tagged := []
  consts : Array Const := #[]
  virtuals : Array (Shape Tagged) := #[]
  pending : List (Pending Tagged) := []
  /-- What the machine has to save, in the order of the numbers of boxes. -/
  live : Array Box := #[]
deriving Inhabited

/-! ## Numbering -/

/-- How a value is represented at a guard: by a value or, for a virtual object, by its shape. -/
inductive Resolved where
  | value (v : Option Value)
  | virtual (s : Shape (Option Value))

structure Numbering where
  data : ResumeData := {}
  /-- The values that virtual objects are known by. -/
  keys : List (Value × Nat) := []

abbrev NumberM := StateM Numbering

namespace NumberM

def addConst (c : Const) : NumberM Tagged := modifyGet fun s =>
  match s.data.consts.findIdx? (· == c) with
  | some i => (.make i .const, s)
  | none => (.make s.data.consts.size .const, { s with data := { s.data with consts := s.data.consts.push c } })

def addBox (b : Box) : NumberM Tagged := modifyGet fun s =>
  match s.data.live.findIdx? (· == b) with
  | some i => (.make i .box, s)
  | none => (.make s.data.live.size .box, { s with data := { s.data with live := s.data.live.push b } })

def numberConst : Const → NumberM Tagged
  | .int n => if Tagged.isSmall n.toInt then pure (.make n.toInt .int) else addConst (.int n)
  | c => addConst c

/-- Enters a virtual object before its contents, which may refer back to it. -/
def enterVirtual (key : Value) (s : Shape (Option Value)) : NumberM Nat := modifyGet fun n =>
  let i := n.data.virtuals.size
  (i, { n with
    keys := (key, i) :: n.keys
    data := { n.data with virtuals := n.data.virtuals.push { s with items := [] } } })

def fillVirtual (i : Nat) (nums : List Tagged) : NumberM Unit := modify fun n =>
  { n with data := { n.data with virtuals := n.data.virtuals.modify i fun s => { s with items := nums } } }

/-- The number of a value.  Virtual objects inside each other are at most `fuel` deep. -/
def number (resolve : Value → Resolved) : (fuel : Nat) → Option Value → NumberM Tagged
  | _, none => pure .unassigned
  | 0, _ => pure .unassigned
  | n + 1, some v => do
    match resolve v with
    | .value none => pure .unassigned
    | .value (some (.const c)) => numberConst c
    | .value (some (.box b)) => addBox b
    | .virtual s =>
      match (← get).keys.lookup v with
      | some i => pure (.make i .virtual)
      | none => do
        let i ← enterVirtual v s
        let nums ← s.items.mapM (number resolve n)
        fillVirtual i nums
        pure (.make i .virtual)

end NumberM

/-- The resume data of a guard; `describe` names descriptors in a failure. -/
def ResumeData.build (resolve : Value → Resolved) (fuel : Nat) (describe : Descr → String) (fail : List (Option Value))
    (pending : List (Pending (Option Value))) : Except Failure ResumeData := do
  let (numbering, s) := (fail.mapM (NumberM.number resolve fuel)).run {}
  let (s, stores) ← pending.foldlM (fun (s, out) p => do
    let (target, s) := (NumberM.number resolve fuel p.target).run s
    if target.tag = .virtual then
      throw (.plain s!"pending field {describe p.descr} stores into a virtual")
    let (value, s) := (NumberM.number resolve fuel p.value).run s
    pure (s, out ++ [{ descr := p.descr, target, value, index := p.index : Pending Tagged }])) (s, ([] : List (Pending Tagged)))
  pure { s.data with numbering, pending := stores }

end FlowCompiler.Trace
