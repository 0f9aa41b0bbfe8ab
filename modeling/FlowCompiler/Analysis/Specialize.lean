import FlowCompiler.Analysis.Describe
import FlowCompiler.Flow.Template

/-!
# Specialization

The directive of a function says which of its calls share a flow graph: all of them, those with the
same constants or types in some arguments, or those of one call site.  A function may also be run at
compile time on every combination of its arguments, or have its result given by the policy.
-/

namespace FlowCompiler.Ana

/-- What a call of a function is: a graph to be analysed, or an annotation at once. -/
inductive Special where
  | graph (g : GraphId)
  | value (a : Annot)

/-- The name and the parameters of a directive such as `specialize:arg(0, 1)`. -/
def parseDirective (defaultTag tag : String) : Except Failure (String × List String) := do
  let tag := tag.trimAscii.toString
  let tag := if tag = "" then defaultTag else tag
  let (kind, name) := match tag.toList.span (· ≠ ':') with
    | (k, _ :: r) => (String.ofList k, String.ofList r)
    | (k, []) => ("specialize", String.ofList k)
  let (name, params) ← match name.toList.span (· ≠ '(') with
    | (n, _ :: r) =>
      if r.getLast? = some ')' then
        let parts := (String.ofList r.dropLast).splitOn ","
        .ok (String.ofList n, (parts.map fun p => p.trimAscii.toString).filter (· ≠ ""))
      else .error (.annotator Code.badSpecialization s!"broken specialize directive parms: {tag}")
    | (n, []) => .ok (String.ofList n, [])
  let (name, params) ← match kind with
    | "specialize" => .ok (name, params)
    | "override" => .ok ("override", name :: params)
    | _ => .error (.annotator Code.badSpecialization s!"unknown directive kind {Quoted.quote kind} in {tag}")
  if ["default", "memo", "arg", "argtype", "arg_or_var", "ll_and_arg", "call_location", "override"].contains name then
    .ok (name, params)
  else .error (.annotator Code.badSpecialization s!"{Quoted.quote name} specialize tag not defined in annotation policy")

/-! ## Keys -/

/-- The text of a constant in a key and in names: equal for equal constants only.  A constant with an identity of its own shows where it lies. -/
def constKey (h : HostStore) (v : Datum) : String :=
  let byAddress (name : String) : String := name ++ "@" ++ h.addressText v
  let byValue : String := HostStore.typeText v ++ "@%!p(" ++ HostStore.typeText v ++ "=" ++ h.text v ++ ")"
  match v with
  | .nil => "None"
  | .str s => Quoted.quote s
  | .nothing => "None@%!p(annotation.NoneValue=\x7b\x7d)"
  | .none => "None@%!p(program.noneType=\x7b\x7d)"
  | .builtinName name => "annotation.BuiltinRef@%!p(annotation.BuiltinRef=" ++ name ++ ")"
  | .fn _ => byAddress (h.text v)
  | .cls _ => byAddress (h.text v)
  | .inst _ => byAddress (h.text v)
  | .bound _ => byAddress (h.text v)
  | .builtin _ => byAddress (h.text v)
  | .shape _ => byAddress (h.text v)
  | .consts _ => byAddress (HostStore.typeText v)
  | .list _ => byAddress (HostStore.typeText v)
  | .dict _ => byAddress (HostStore.typeText v)
  | .weakref _ => byAddress (HostStore.typeText v)
  | .tuple _ => byAddress (HostStore.typeText v)
  | .unicode _ => byValue
  | .char _ => byValue
  | .unichar _ => byValue
  | .foreign => byValue
  | v => h.text v

/-- The name of a specialization: the letters, digits and underscores of its parts. -/
def variantName (parts : List String) : String :=
  String.intercalate "_" (parts.map fun p => String.ofList (p.toList.filter fun c => c = '_' || c.isAlphanum))

/-! ## Graphs -/

/-- The fresh graph of a function's specialization. -/
def buildGraph (f : FuncId) (d : FunctionDesc) (variant : String) : Ana GraphId := do
  let w ← get
  let k := w.prog.host.func f
  match k.body with
  | .absent => fail Code.unsupported s!"{d.name} has no flow graph builder"
  | .failing => throw (.wrapped s!"building graph of {d.name}" (.plain "builder failed"))
  | .once g used =>
    if used then
      throw (.wrapped s!"building graph of {d.name}"
        (.plain s!"graph of {k.name} already used; supply a builder for variant {Quoted.quote variant}"))
    modify fun w => { w with prog := { w.prog with host :=
      { w.prog.host with functions := w.prog.host.functions.modify f fun k => { k with body := .once g true } } } }
    pure g
  | .template t => modifyGet fun w =>
    let (g, prog) := t.build k.name k.signature k.defaults w.prog
    (g, { w with prog })

/-- The graph of a specialization under a key, built when it is first asked for. -/
def cachedGraph (d : DescId) (key variant : String) : Ana Special := do
  let fd := (← get).funcDesc d
  match fd.cache.lookup key with
  | some g => pure (.graph g)
  | none => do
    let g ← buildGraph fd.func fd variant
    modify fun w =>
      let flow := w.prog.flow.updateGraph g fun k =>
        { k with name := if variant ≠ "" && k.name = fd.name then fd.name ++ "__" ++ variant else k.name
                 func := k.func <|> some fd.func }
      { w with prog := { w.prog with flow }, graphOwner := w.graphOwner.insert g d }
    modify (·.updateFuncDesc d fun k => { k with cache := k.cache ++ [(key, g)] })
    pure (.graph g)

/-- A decimal numeral with an optional sign. -/
def parseIndex? (s : String) : Option Int :=
  let digits (cs : List Char) : Option Int :=
    if cs.isEmpty || !cs.all Char.isDigit then none
    else some (cs.foldl (fun n c => n * 10 + (c.toNat - 48)) 0)
  match s.toList with
  | '-' :: cs => (digits cs).map (- ·)
  | '+' :: cs => digits cs
  | cs => digits cs

/-- The argument indices of a directive. -/
def parseIndices (d : FunctionDesc) (params : List String) (n : Nat) : Ana (List Nat) :=
  params.mapM fun p =>
    let bad : Ana Nat := fail Code.badSpecialization s!"{d.name}: bad argument index {Quoted.quote p}"
    match parseIndex? p with
    | some i => if 0 ≤ i && i < n then pure i.toNat else bad
    | none => bad

def cellAt (cells : List Annot) (i : Nat) : Annot := (cells[i]?).getD .impossible

/-! ## Directives -/

/-- One graph for all calls; calls with an instance that is accessed directly have one of their own. -/
def specializeDefault (d : DescId) (cells : List Annot) : Ana (Special × List Annot) := do
  let w ← get
  let closed := (w.prog.host.func (w.funcDesc d).func).specTag = "dont_look_inside"
  let direct : Annot → Bool := fun
    | .inst _ _ flags => flags.contains "access_directly"
    | _ => false
  if closed then
    let cells := cells.map fun
      | .inst c m flags => .inst c m (flags.filter (· ≠ "access_directly"))
      | a => a
    return (← cachedGraph d "" "", cells)
  else
    let key := if cells.any direct then "AccessDirect" else ""
    return (← cachedGraph d key (variantName [key]), cells)

/-- The key of an argument's constant. -/
def constPart (a : Annot) : Ana String := do
  let v ← constOf a
  pure (constKey (← host) v)

def graphByParts (d : DescId) (lead : String) (parts : List String) : Ana Special :=
  cachedGraph d (lead ++ String.intercalate "," parts) (variantName parts)

/-- A graph for every value of some arguments, which are constant. -/
def specializeByValue (d : DescId) (cells : List Annot) (params : List String) : Ana Special := do
  let fd := (← get).funcDesc d
  let idx ← parseIndices fd params cells.length
  let parts ← idx.mapM fun i => do
    let a := cellAt cells i
    if !a.isConst then
      fail Code.badSpecialization s!"specialize:arg({i}) of {fd.name}: argument is not constant: {← text a}"
    constPart a
  graphByParts d "arg:" parts

/-- A graph for every value of some arguments, and one for those that are not constant. -/
def specializeByValueOrVar (d : DescId) (cells : List Annot) (params : List String) : Ana Special := do
  let idx ← parseIndices ((← get).funcDesc d) params cells.length
  let parts ← idx.mapM fun i => do
    let a := cellAt cells i
    if a.isConst then constPart a else pure "var"
  graphByParts d "argvar:" parts

/-- A graph for every type of some arguments, or of all. -/
def specializeByType (d : DescId) (cells : List Annot) (params : List String) : Ana Special := do
  let idx ← parseIndices ((← get).funcDesc d) params cells.length
  let idx := if params.isEmpty then List.range cells.length else idx
  let w ← get
  let parts := idx.map fun i => w.typeName (cellAt cells i)
  graphByParts d "argtype:" parts

/-- A graph for the types of all arguments and the values of some. -/
def specializeLowLevel (d : DescId) (cells : List Annot) (params : List String) : Ana Special := do
  let fd := (← get).funcDesc d
  let idx ← parseIndices fd params cells.length
  let w ← get
  let types := cells.map w.typeName
  let values ← idx.mapM fun i => do
    let a := cellAt cells i
    if !a.isConst then
      fail Code.badSpecialization s!"specialize:ll_and_arg({i}) of {fd.name}: argument is not constant"
    constPart a
  graphByParts d "ll:" (types ++ values)

/-- A graph for every call site. -/
def specializeBySite (d : DescId) (site : Option PosKey) : Ana Special := do
  let fd := (← get).funcDesc d
  match site with
  | none => fail Code.badSpecialization s!"specialize:call_location of {fd.name} needs a call site"
  | some pos =>
    let key := s!"loc:{(pos.block).getD 0}:{pos.index}"
    cachedGraph d key s!"at_{fd.cache.length}"

/-- The values that an argument of a compile-time call may have. -/
def memoChoices (name : String) (i : Nat) (a : Annot) : Ana (List Datum) := do
  match a with
  | .pbc ds nullable => do
    let vs ← ds.mapM valueOfDesc
    pure (if nullable then vs ++ [.none] else vs)
  | .bool none _ => pure [.bool false, .bool true]
  | a => do
    if !a.isConst then
      fail Code.badSpecialization s!"specialize:memo of {name}: argument {i} is not a constant or PBC: {← text a}"
    return [← constOf a]

/-- All ways to choose one from each. -/
def combinations {α : Type} : List (List α) → List (List α)
  | [] => [[]]
  | xs :: rest => xs.flatMap fun x => (combinations rest).map (x :: ·)

/-- The result of a compile-time call for one combination of arguments. -/
def memoResult (d : DescId) (table : MemoTable) (combo : List Datum) : Ana Annot := do
  let h ← host
  let key := String.intercalate "," (combo.map (constKey h))
  match ((← get).funcDesc d).memo.lookup key with
  | some a => pure a
  | none => do
    let entry := String.intercalate "|" (combo.map h.text)
    match table.rows.lookup entry <|> table.fallback with
    | none =>
      let shown := String.intercalate " " (combo.map (h.textAux (h.objects.size + 2) false))
      throw (.wrapped s!"memo {((← get).funcDesc d).name}[{shown}]" (.plain s!"no entry {entry}"))
    | some v => do
      let a ← immutable v
      modify (·.updateFuncDesc d fun k => { k with memo := k.memo ++ [(key, a)] })
      pure a

/-- Runs the function at compile time on every combination of arguments. -/
def specializeMemo (d : DescId) (cells : List Annot) : Ana Special := do
  let w ← get
  let fd := w.funcDesc d
  match (w.prog.host.func fd.func).memo with
  | none => fail Code.badSpecialization s!"specialize:memo of {fd.name} needs a compile-time implementation"
  | some table => do
    let choices ← cells.zipIdx.mapM fun (a, i) => memoChoices fd.name i a
    let r ← (combinations choices).foldlM (fun acc combo => do
      let a ← memoResult d table combo
      union acc a) Annot.impossible
    pure (.value r)

/-- The result that the policy gives. -/
def specializeOverride (params : List String) : Ana Special := do
  let name := params.headD ""
  match (← get).policy.overrides.lookup name with
  | some (some a) => pure (.value a)
  | some none => throw (.plain "override failed")
  | none => fail Code.badSpecialization s!"no override {Quoted.quote name} registered"

/-- The specialization that the directive of a function asks for, read once. -/
def directiveOf (d : DescId) : Ana (String × List String) := do
  let w ← get
  let fd := w.funcDesc d
  match fd.special with
  | some s => pure s
  | none =>
    match parseDirective w.policy.defaultTag (w.prog.host.func fd.func).special with
    | .ok s => do
      modify (·.updateFuncDesc d fun k => { k with special := some s })
      pure s
    | .error f => throw f

/-- Applies the declared types of a function to the arguments of a call. -/
def normalizeArgs (d : DescId) (cells : List Annot) : Ana (List Annot) := do
  let w ← get
  let fd := w.funcDesc d
  let k := w.prog.host.func fd.func
  match k.enforce.isEmpty, k.declared with
  | false, some _ => fail Code.enforceAndSignature s!"{fd.name}: signature and enforceargs cannot both be used"
  | false, none => enforceArgs fd.name k.enforce cells
  | true, some (specs, _) => enforceArgs fd.name specs cells
  | true, none => pure cells

/-- The operation at a position, when there is one. -/
def opAt? (w : World) (pos : PosKey) : Option FlowOp :=
  match pos.block with
  | some b => if 0 ≤ pos.index then (w.prog.flow.block b).ops[pos.index.toNat]? else none
  | none => none

/-- Chooses the graph or the result of a call, and the arguments it has then. -/
def specialize (d : DescId) (cells : List Annot) (site : Option PosKey) : Ana (Special × List Annot) := do
  let w ← get
  let site := site <|> (w.position.filter fun p => (opAt? w p).isSome)
  let cells ← normalizeArgs d cells
  let (name, params) ← directiveOf d
  match name with
  | "memo" => return (← specializeMemo d cells, cells)
  | "arg" => return (← specializeByValue d cells params, cells)
  | "argtype" => return (← specializeByType d cells params, cells)
  | "arg_or_var" => return (← specializeByValueOrVar d cells params, cells)
  | "ll_and_arg" => return (← specializeLowLevel d cells params, cells)
  | "call_location" => return (← specializeBySite d site, cells)
  | "override" => return (← specializeOverride params, cells)
  | _ => specializeDefault d cells

end FlowCompiler.Ana
