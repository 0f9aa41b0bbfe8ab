import FlowCompiler.Failure
import FlowCompiler.LowLevel.Type
import FlowCompiler.Text.Quoted

/-!
# Validity of types, and their interning

A valid type respects the layout rules: a part of variable size stands last, bare arrays have no
garbage-collection header, raw structures hold no collected ones by value, and no forward reference is
left open.  The interner gives one representative to all types of one shape.
-/

namespace FlowCompiler
namespace Types

def gcFlag (gc : Bool) : String := "gc=" ++ boolText gc

/-- A pointer with a stated flag; the flag must be the container's. -/
def makePtr (s : Types) (pointee : NodeId) (gc : Bool) : Except Failure LowType :=
  if s.isGC pointee != gc then .error (.plain s!"{gcFlag gc} pointer cannot point to {s.nodeName pointee}")
  else .ok (.ptr pointee)

/-- Resolves a forward reference, once. -/
def become (s : Types) (f t : NodeId) : Except Failure Types :=
  match s.node f with
  | .forward gc none =>
    if s.isGC t != gc then .error (.plain s!"forward reference {gcFlag gc} cannot become {s.nodeName t}")
    else .ok (s.set f (.forward gc (some t)))
  | .forward _ (some old) => .error (.plain s!"forward reference already resolved to {s.nodeName old}")
  | _ => .ok s

def makeWeakRef (s : Types) (pointee : NodeId) : Except Failure (NodeId × Types) :=
  if s.isGC pointee then .ok (s.add (.weakref pointee))
  else .error (.plain s!"weakref target must be a gc pointer, got {s.text (.ptr pointee)}")

/-- The size of a handle. -/
def handleSize (s : Types) (id : NodeId) : Except Failure Int :=
  match s.node id with
  | .handle _ _ (some n) =>
    if n < 0 then .error (.wrapped s!"size of {s.nodeName id}" (.plain "probe failed")) else .ok n
  | _ => .error (.plain s!"size of {s.nodeName id} is not discoverable")

/-- What is wrong with one field of a structure. -/
def fieldProblem? (s : Types) (id : NodeId) (gc isLast : Bool) (name : String) (t : LowType) : Option String :=
  match s.resolve t with
  | .node f =>
    if s.isVarSized f && !isLast then
      some s!"{s.nodeName id}: variable-sized field {Quoted.quote name} must be last"
    else match s.node f with
      | .struct _ _ _ true => if gc then none else
        some s!"{s.nodeName id}: raw struct cannot inline gc struct {s.nodeName f}"
      | .array _ _ _ true => some s!"{s.nodeName id}: gc array cannot be inlined as field {Quoted.quote name}"
      | _ => none
  | _ => none

/-- Whether a structure that announces a type pointer fails to start with one. -/
def typePtrProblem? (s : Types) (id : NodeId) (fields : List (String × LowType)) (h : StructHints) : Option String :=
  if h.typePtr && (s.super? id).isNone && (fields.head?.map Prod.fst) != some "typeptr" then
    some s!"{s.nodeName id}: typeptr-bearing struct must start with typeptr"
  else none

abbrev Seen := List LowType

/-- Checks types one after another, each unless it was seen before. -/
def validateAll (step : Seen → LowType → Except Failure Seen) (seen : Seen) : List LowType → Except Failure Seen
  | [] => .ok seen
  | t :: ts => do validateAll step (← step seen t) ts

/-- Checks the fields of a structure, each right before the types inside it. -/
def validateFields (s : Types) (id : NodeId) (gc : Bool) (step : Seen → LowType → Except Failure Seen) (seen : Seen) :
    List (String × LowType) → Except Failure Seen
  | [] => .ok seen
  | (name, t) :: rest =>
    match s.fieldProblem? id gc rest.isEmpty name t with
    | some p => .error (.plain p)
    | none => do s.validateFields id gc step (← step seen (s.resolve t)) rest

def validateGroup (s : Types) (id : NodeId) (step : Seen → LowType → Except Failure Seen) (seen : Seen) :
    List NodeId → Except Failure Seen
  | [] => .ok seen
  | m :: rest =>
    if s.isGC m then .error (.plain s!"{s.nodeName id}: group members must be raw structs")
    else do s.validateGroup id step (← step seen (.node m)) rest

def fail? (p : Option String) : Except Failure Unit :=
  match p with
  | some p => .error (.plain p)
  | none => .ok ()

/-- Checks one node with the check of types inside it given. -/
def validateNode (s : Types) (id : NodeId) (step : Seen → LowType → Except Failure Seen) (seen : Seen) :
    Except Failure Seen :=
  match s.node id with
  | .forward _ _ => .error (.plain "unresolved forward reference")
  | .struct _ fields h gc => do
    let seen ← s.validateFields id gc step seen fields
    fail? (s.typePtrProblem? id fields h)
    .ok seen
  | .array of bare _ gc =>
    if bare && gc then .error (.plain s!"{s.nodeName id}: bare arrays carry no gc header")
    else if s.typeIsVarSized of then .error (.plain s!"{s.nodeName id}: array items cannot be variable-sized")
    else step seen of
  | .fixed of n => if n < 0 then .error (.plain s!"{s.nodeName id}: negative length") else step seen of
  | .func args result => do step (← validateAll step seen args) result
  | .weakref pointee =>
    if s.isGC pointee then step seen (.ptr pointee) else .error (.plain s!"{s.nodeName id}: target must be gc")
  | .group _ members => s.validateGroup id step seen members
  | .handle _ _ _ => .ok seen

def validateAux (s : Types) : (fuel : Nat) → Seen → LowType → Except Failure Seen
  | 0, seen, _ => .ok seen
  | n + 1, seen, t =>
    let t := s.resolve t
    if seen.contains t then .ok seen
    else
      let seen := t :: seen
      match t with
      | .prim _ => .ok seen
      | .ptr pointee => s.validateAux n seen (.node pointee)
      | .node id => s.validateNode id (s.validateAux n) seen

/-- Checks a type and every type reachable from it. -/
def validate (s : Types) (t : LowType) : Except Failure Unit :=
  (s.validateAux (2 * s.fuel) [] t).map fun _ => ()

end Types

/-- One representative for every shape, in the order of first mention. -/
structure Interner where
  entries : List (String × LowType) := []
deriving Inhabited

namespace Interner

/-- The interner that knows the named primitives. -/
def initial : Interner := { entries := LowType.named.map fun (n, t) => ("P:" ++ n, t) }

def intern (i : Interner) (s : Types) (t : LowType) : Interner × LowType :=
  let t := s.resolve t
  let k := s.key t
  match i.entries.lookup k with
  | some r => (i, r)
  | none => ({ entries := i.entries ++ [(k, t)] }, t)

def lookup (i : Interner) (s : Types) (t : LowType) : Option LowType := i.entries.lookup (s.key (s.resolve t))

/-- The names of the interned structures, sorted. -/
def names (i : Interner) (s : Types) : List String :=
  let ns := i.entries.filterMap fun (_, t) => match t with
    | .node id => s.structName? id
    | _ => none
  ns.mergeSort fun a b => decide (a ≤ b)

end Interner
end FlowCompiler
