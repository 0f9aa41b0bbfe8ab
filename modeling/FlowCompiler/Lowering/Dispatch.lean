import FlowCompiler.Lowering.Call

/-!
# Lowering an operation

How an operation is lowered is chosen by the kinds of its first two arguments, then by the representation of
the first one.  An operation whose result is known, and that does nothing else, is replaced by the result.
-/

namespace FlowCompiler.Typing

/-! ## Builtin functions -/

def lowerRange (name : String) : Lowering := fun h => do
  let n := h.count - 1
  if n < 1 || n > 3 then unrepresented s!"{name}() takes 1 to 3 arguments"
  let args ← inputArgs h (.impossible :: List.replicate n .signed)
  let (start, stop, step) := match args with
    | [_, stop] => (signedConst 0, stop, signedConst 1)
    | [_, start, stop] => (start, stop, signedConst 1)
    | [_, start, stop, step] => (start, stop, step)
    | _ => (signedConst 0, signedConst 0, signedConst 1)
  if n = 3 then
    if let some c ← constArg? h 3 then
      if integerConst true c = some (.int 0) then unrepresented s!"{name}() step must not be zero"
  lowerToHelper "ll_range" (← lowType h.result) [start, stop, step]

def lowerExtreme (name : String) : Lowering := fun h => do
  let t ← lowType h.result
  match h.count with
  | 2 => do
    let v ← ownArg h 1
    raisesHere
    lowerToHelper ("ll_" ++ name ++ "_list") t [v]
  | 3 => do
    let args ← inputArgs h [.impossible, h.result, h.result]
    lowerToHelper ("ll_" ++ name) t (args.drop 1)
  | _ => unrepresented s!"{name}() takes one or two arguments"

def lowerInstantiate : Lowering := fun h => do
  match ← constArg? h 1 with
  | some (.cls c) => do
    let d ← (Ana.uniqueClassDef c : Typing ClassDefId)
    let r ← instanceRepr (some d)
    let v ← allocInstance (some d)
    ok (← convertVar v r h.result)
  | some v => do unrepresented s!"instantiate({(← host).text v})"
  | none => do
    let root ← typeRepr
    instantiateVia h (← inputArg h root 1)

def lowerBuiltinIsinstance : Lowering := fun h => do
  let cls ← constArg? h 2
  match h.repr 1 with
  | .inst c => do
    match cls with
    | some d => lowerIsinstance c 1 d h
    | none => do
      let v ← inputArg h (.inst c) 1
      let table ← inputArg h (← typeRepr) 2
      lowerToHelper "ll_isinstance" .bool [v, table]
  | r => do unrepresented s!"isinstance on {← reprText r} is not known at compile time"

/-- The builtin functions that stand for an operation of their name. -/
def operationBuiltins : List String := ["len", "bool", "int", "float", "str", "chr", "unichr", "ord", "abs", "hash"]

/-- Calls of builtin functions; `again` lowers an operation from the start. -/
def lowerBuiltin (again : Lowering) (name : String) : Lowering := fun h => do
  if h.name ≠ "simple_call" then pure .noMethod
  else if operationBuiltins.contains name then
    if h.count ≠ 2 then unrepresented s!"{name}() takes exactly one argument"
    else again (h.shift name)
  else match name with
    | "intmask" | "r_uint" | "r_longlong" | "r_ulonglong" | "ovfcheck" => do ok (← inputArg h h.result 1)
    | "we_are_translated" => ok (boolConst true)
    | "isinstance" => lowerBuiltinIsinstance h
    | "issubclass" => do
      match ← constArg? h 2 with
      | none => unrepresented "issubclass with a non-constant class"
      | some c => do
        let table ← inputArg h (← typeRepr) 1
        ok (← subclassTest table c)
    | "range" | "xrange" => lowerRange name h
    | "min" | "max" => lowerExtreme name h
    | "list" => do
      let v ← ownArg h 1
      lowerToHelper "ll_list_from" (← lowType h.result) [v]
    | "instantiate" => lowerInstantiate h
    | _ => fail Code.missingOperation s!"no lowering for builtin {name}"

/-- Calls of methods of builtin types. -/
def lowerMethod (i : Nat) : Lowering := fun h => do
  if h.name ≠ "simple_call" then pure .noMethod
  else
    let k ← methodLayout i
    let sub := { h with annots := k.selfAnnot :: h.annots.drop 1, reprs := k.self :: h.reprs.drop 1 }
    match k.self with
    | .text u => lowerTextMethod u k.name sub
    | .list j => lowerListMethod j k.name sub
    | .dict j => lowerDictMethod j k.name sub
    | r => do fail Code.missingOperation s!"no lowering for method {k.name} of {← reprText r}"

/-! ## Choosing a lowering -/

/-- Operations on a first argument of a representation. -/
def lowerByRepr (again : Lowering) (r : Representation) : Lowering := fun h => do
  match r with
  | .prim p => match p.cls with
    | .int => lowerInt p h
    | .bool => lowerBool h
    | .float => lowerFloat h
    | .char => lowerChar false h
    | .unichar => lowerChar true h
    | _ => pure .noMethod
  | .text u => lowerText u h
  | .tuple i => lowerTuple i h
  | .list i => lowerList i h
  | .dict i => lowerDict i h
  | .iter i => lowerIter i h
  | .inst c => lowerInstance c h
  | .cls c => lowerClass c h
  | .functions i => lowerFunctions i h
  | .methods i => lowerMethods i h
  | .classes i => lowerClasses i h
  | .frozen i => lowerFrozen i h
  | .frozenMethod i => lowerFrozenMethod i h
  | .builtin name => lowerBuiltin again name h
  | .method i => lowerMethod i h
  | .weakref c => lowerWeakref c h
  | _ => pure .noMethod

/-- Lowerings by the kinds of the first two arguments. -/
def pairLowerings (name : String) : PairLowerings := objectPairs name ++ numberPairs name ++ sequencePairs name

def lowerByPair : Lowering := fun h => do
  match h.annots with
  | a :: b :: _ =>
    match Kind.lookupPair (pairLowerings h.name) a.kind b.kind with
    | some (_, f) => f h
    | none => pure .noMethod
  | _ => pure .noMethod

def missing {α : Type} (h : HighOp) (r : Representation) : Typing α := do throw (.missing h.op.name (← reprText r))

/-- Whether two constants are one. -/
def lowerIdentity : Lowering := fun h => do
  let (r0, r1) := (h.repr 0, h.repr 1)
  let (t0, t1) := (← lowType r0, ← lowType r1)
  if t0 = .void && t1 = .void then
    let c0 := (← constArg? h 0).getD .nil
    let c1 := (← constArg? h 1).getD .nil
    ok (boolConst (c0.same c1))
  else if t1 = .void then do lowerTo "ptr_iszero" [← inputArg h r0 0] .bool
  else if t0 = .void then do lowerTo "ptr_iszero" [← inputArg h r1 1] .bool
  else
    let args ← inputArgs h [r0, r0]
    match t0 with
    | .ptr _ => lowerTo "ptr_eq" args .bool
    | .prim p => lowerTo (p.opKind ++ "eq") args .bool
    | .node _ => missing h r0

/-- The truth of a constant. -/
def constTruth : Datum → Bool
  | .nil => false
  | .nothing => false
  | .bool b => b
  | .int n => n ≠ 0
  | .count n => n ≠ 0
  | .str s => s ≠ ""
  | _ => true

def lowerTruth : Lowering := fun h => do
  let r := h.repr 0
  match ← lowType r with
  | .ptr _ => do lowerTo "ptr_nonzero" [← inputArg h r 0] .bool
  | t =>
    if t = .void then do ok (boolConst (constTruth ((← constArg? h 0).getD .nil)))
    else missing h r

/-- Tries lowerings in order; the last one is taken whatever it comes to. -/
def orElse (first second : Lowering) : Lowering := fun h => do
  match ← first h with
  | .noMethod => second h
  | r => pure r

def lowerNew : Lowering := fun h => do
  match h.result with
  | .list i => newList i h
  | .dict i => newDict i h
  | .tuple i => newTuple i h
  | r => missing h r

/-- The lowering when nothing else applies. -/
def lowerLast : Lowering := fun h =>
  match h.reprs with
  | r :: _ => if h.name = "bool" then lowerTruth h else missing h r
  | [] => missing h h.result

def lowerFrom (again : Lowering) : Lowering := fun h => do
  match h.name with
  | "newlist" | "newdict" | "newtuple" => lowerNew h
  | "same_as" | "hint" => do ok (← inputArg h h.result 0)
  | "is_" => orElse lowerByPair lowerIdentity h
  | _ =>
    match h.reprs with
    | [] => missing h h.result
    | r :: _ => orElse lowerByPair (orElse (lowerByRepr again r) lowerLast) h

def lowerAux : (fuel : Nat) → Lowering
  | 0 => lowerLast
  | n + 1 => lowerFrom (lowerAux n)

/-- Lowers an operation; a builtin function that stands for an operation is one step, and no such step
leads to another. -/
def lower : Lowering := lowerAux 3

/-! ## Known results -/

/-- Operations without an effect. -/
def foldableOps : List String :=
  [ "add", "sub", "mul", "floordiv", "div", "mod", "truediv", "and_", "or_", "xor", "lshift", "rshift", "add_ovf",
    "sub_ovf", "mul_ovf", "lshift_ovf", "lt", "le", "eq", "ne", "gt", "ge", "is_", "bool", "neg", "pos", "abs", "invert",
    "len", "type", "issubtype", "same_as", "hint", "int", "float", "ord", "getattr" ]

/-- Builtin functions without an effect. -/
def foldableBuiltins : List String := ["isinstance", "issubclass", "we_are_translated", "len"]

def isFoldable (h : HighOp) : Bool :=
  h.resultAnnot.isConst && (foldableOps.contains h.name || (h.name = "simple_call" && match h.annots with
    | .builtin name :: _ => foldableBuiltins.contains name
    | _ => false))

/-- Lowers an operation into the list of operations, and has the last one define the result. -/
def lowerOp (h : HighOp) : Typing Unit := do
  let res ← if isFoldable h then do
      let v ← inputConst h.result (← Ana.constOf h.resultAnnot)
      cannotRaise
      pure (Lowered.value v)
    else lower h
  let out := (← get).out
  if let some f := out.error then throw f
  if out.raising.isNone && !h.handlers.isEmpty && !out.ops.isEmpty then
    modify fun t => { t with out := { t.out with raising := some (t.out.ops.size - 1) } }
  let resultType ← lowType h.result
  let v ← match res with
    | .value v => pure v
    | _ => do
      if resultType ≠ .void then inconsistent s!"{h.name} produced no value for {← reprText h.result}"
      pure (voidConst .nil)
  match (← flow).typeOf v with
  | some t =>
    let s ← types
    if !s.equal t resultType then inconsistent s!"{h.name} returned {s.text t}, expected {s.text resultType}"
  | none => pure ()
  match h.op.result with
  | none => pure ()
  | some result => do
    changeFlow fun s => s.updateVar result fun k => { k with concrete := some resultType }
    let last := out.ops.back?
    let fromLast := match v, last with
      | .var x, some op => op.result == some x && !h.op.args.contains (.var x)
      | _, _ => false
    if fromLast then
      modify fun t => { t with out := { t.out with
        ops := t.out.ops.modify (t.out.ops.size - 1) fun op => { op with result := some result } } }
    else
      modify fun t => { t with out := { t.out with
        ops := t.out.ops.push { name := "same_as", args := [v], result := some result } } }

end FlowCompiler.Typing
