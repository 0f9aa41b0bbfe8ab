import FlowCompiler.Proofs.Steps.Classes
import FlowCompiler.Proofs.Steps.Templates

/-!
# Steps that call

A call chooses a graph, which is built when it is first asked for, enters its first block and makes one family of all
that may be called.  These are the only changes on the way that are not calm.
-/

namespace FlowCompiler

/-- The families of two descriptions become one. -/
def World.joinFamilies (w : World) (d e : DescId) : World :=
  match w.callPartition.join (w.rowKey d) (w.rowKey e) with
  | (p, some (i, j)) =>
    let other := (w.callFamilies[j]?).getD default
    { w with callPartition := p, callFamilies := w.callFamilies.modify i fun f => Ana.absorbCalls f other }
  | (p, none) => { w with callPartition := p }

/-- A call is counted, and its row is added. -/
def CallFamily.record (f : CallFamily) (shape : CallShape) (row : Row) : CallFamily :=
  if row.isEmpty then { f with sites := f.sites + 1 } else Ana.addRow { f with sites := f.sites + 1 } shape row

def World.recordRow (w : World) (i : Nat) (shape : CallShape) (row : Row) : World :=
  { w with callFamilies := w.callFamilies.modify i fun f => f.record shape row }

namespace Ana

/-! ## Joining families -/

/-- The family of a description takes part in that of another one. -/
def joinTo (d e : DescId) : Ana Unit := do
  let _ ← callFamilyOf e
  modify fun w => w.joinFamilies d e

theorem mergeCallFamilies_cons (d : DescId) (rest : List DescId) :
    mergeCallFamilies (d :: rest) = callFamilyOf d >>= fun _ => rest.forM (joinTo d) := by
  refine bind_congr fun _ => (bind_pure_unit ..).trans (forIn_yield (fun e u => ?_) rest)
  unfold joinTo
  rw [bind_assoc]
  rfl

/-! ## Rows of calls -/

/-- Writes the graph of a key into a row. -/
def putGraph (row : Row) (x : DescId × GraphId) : Row := row.filter (fun e => !(e.1 == x.1)) ++ [x]

/-- Adds the graph that a call of a description uses to a row. -/
def addGraph (args : CallArgs) (site : Option PosKey) (row : Row) (d : DescId) : Ana Row := do
  let w ← get
  match (w.desc d).kind with
  | .frozen => fail Code.unsupported s!"{w.descText d} has no graph"
  | .cls => fail Code.unsupported s!"{w.descText d} has no graph"
  | _ => pure ()
  match ← graphOfCall d args site with
  | some g => pure (putGraph row (w.rowKey d, g))
  | none => pure row

/-- A method is also given the instance it is bound to. -/
def siteShape (isMethod : Bool) (args : CallArgs) : CallShape := if isMethod then { args.shape with count := args.shape.count + 1 } else args.shape

theorem considerFunctions_eq (ds : List DescId) (args : CallArgs) (site : Option PosKey) (isMethod : Bool) :
    considerFunctions ds args site isMethod = (do
      let row ← ds.foldlM (addGraph args site) []
      mergeCallFamilies ds
      let i ← callFamilyOf (ds.headD 0)
      modify fun w => w.recordRow i (siteShape isMethod args) (row.mergeSort fun a b => a.1 ≤ b.1)) := by
  refine congrArg (· >>= _) (forIn_foldlM (fun d row => ?_) ds [])
  unfold addGraph
  rw [bind_assoc]
  refine bind_congr fun w => ?_
  have graph : (do
      match ← graphOfCall d args site with
      | some g => pure (.yield (row.filter (·.1 ≠ w.rowKey d) ++ [(w.rowKey d, g)]))
      | none => pure (.yield row) : Ana (ForInStep Row)) = (do
      match ← graphOfCall d args site with
      | some g => pure (putGraph row (w.rowKey d, g))
      | none => pure row) >>= fun row => pure (.yield row) := by
    rw [bind_assoc]
    refine bind_congr fun g => ?_
    cases g with
    | none => rfl
    | some g =>
      have hfilter : row.filter (fun e => decide (e.1 ≠ w.rowKey d)) = row.filter fun e => !(e.1 == w.rowKey d) :=
        List.filter_congr fun e _ => decide_not
      rw [pure_bind, hfilter]
      rfl
  cases (w.desc d).kind with
  | frozen => rfl
  | cls => rfl
  | function => exact graph
  | method => exact graph
  | frozenMethod => exact graph

/-! ## Relations of steps that call -/

/-- A relation between states that new graphs, entered blocks and families of calls keep to as well. -/
class CallFrame (R : World → World → Prop) : Prop extends CalmFrame R where
  graphs : ∀ {w : World} {p : Program}, w.prog.Extends p → R w { w with prog := p }
  enter : ∀ (k : Knot) (g : GraphId) (b : BlockId) (cells : List Annot), Along R k (addPendingBlock g b cells)
  family : ∀ (k : Knot) (d : DescId), Along R k (callFamilyOf d)
  join : ∀ (w : World) (d e : DescId), R w (w.joinFamilies d e)
  row : ∀ (w : World) (i : Nat) (shape : CallShape) (row : Row), R w (w.recordRow i shape row)

/-- The same of a relation that only staid changes need to keep to. -/
class StaidCallFrame (R : World → World → Prop) : Prop extends StaidFrame R where
  graphs : ∀ {w : World} {p : Program}, w.prog.Extends p → R w { w with prog := p }
  enter : ∀ (k : Knot) (g : GraphId) (b : BlockId) (cells : List Annot), Along R k (addPendingBlock g b cells)
  family : ∀ (k : Knot) (d : DescId), Along R k (callFamilyOf d)
  join : ∀ (w : World) (d e : DescId), R w (w.joinFamilies d e)
  row : ∀ (w : World) (i : Nat) (shape : CallShape) (row : Row), R w (w.recordRow i shape row)

attribute [instance] StaidCallFrame.enter StaidCallFrame.family

instance {R : World → World → Prop} [CallFrame R] : StaidCallFrame R :=
  ⟨CallFrame.graphs, CallFrame.enter, CallFrame.family, CallFrame.join, CallFrame.row⟩

namespace Along

variable {R : World → World → Prop} {k : Knot} {α : Type}

section

variable [Frame R]

instance bindingOf? (v : VarId) : Along R k (.bindingOf? v) := bind

instance located (pos : PosKey) (m : Ana α) [h : Along R k m] : Along R k (.located pos m) := by
  unfold Ana.located
  infer_instance

instance checkTop (a b u : Annot) : Along R k (.checkTop a b u) := by
  unfold Ana.checkTop
  split <;> infer_instance

end

variable [StaidCallFrame R]

/-! ## Arguments -/

instance flatPositional (a : CallArgs) : Along R k (.flatPositional a) := by
  unfold Ana.flatPositional
  split <;> infer_instance

instance fixedUnpack (a : CallArgs) (n : Nat) : Along R k (.fixedUnpack a n) := bind

instance placeKeyword (names : List String) (cells : List (Option Annot)) (x : String × Annot) : Along R k (.placeKeyword names cells x) := by
  unfold Ana.placeKeyword
  split <;> infer_instance

instance matchSignature (a : CallArgs) (sig : Signature) (defaults : List Annot) : Along R k (.matchSignature a sig defaults) := by
  refine seq fun positional => when (g := fun _ => seq fun cells => bind (h := mapM (h := fun x => ?_)))
  obtain ⟨cell, i⟩ := x
  cases cell with
  | some v => infer_instance
  | none =>
    refine ite (h := ?_)
    split <;> infer_instance

theorem updateFrozenFamily (i : Nat) (f : FrozenFamily → FrozenFamily) :
    Along R k (modify fun w => { w with frozenFamilies := w.frozenFamilies.modify i f } : Ana PUnit) :=
  calmly fun _ => .of_eq

section

variable [KnotAlong R k]

instance parseArguments (d : DescId) (a : CallArgs) : Along R k (.parseArguments d a) := by
  refine seq fun w => seq fun defaults => tryCatch (g := fun f => ?_)
  split <;> infer_instance

/-! ## Specialization -/

instance parseIndices (d : FunctionDesc) (params : List String) (n : Nat) : Along R k (.parseIndices d params n) := by
  refine mapM (h := fun p => ?_)
  split <;> infer_instance

instance constPart (a : Annot) : Along R k (.constPart a) := bind

instance buildGraph (f : FuncId) (d : FunctionDesc) (variant : String) : Along R k (.buildGraph f d variant) := by
  refine seq fun w => ?_
  dsimp only
  split
  · infer_instance
  · infer_instance
  · refine when (g := fun _ => bind (h := calmly fun _ => .of_eq))
  · exact ⟨fun w => StaidCallFrame.graphs (GraphTemplate.build_extends ..)⟩

instance cachedGraph (d : DescId) (key variant : String) : Along R k (.cachedGraph d key variant) := by
  have name (g : GraphId) (f : Graph → Graph) : Along R k (modify fun w =>
      { w with prog := { w.prog with flow := w.prog.flow.updateGraph g f }, graphOwner := w.graphOwner.insert g d } : Ana PUnit) := by
    refine ⟨fun w => ?_⟩
    have named : R w { w with prog := { w.prog with flow := w.prog.flow.updateGraph g f } } :=
      StaidCallFrame.graphs ⟨.of_eq rfl rfl (Nat.le_refl _), rfl⟩
    exact Frame.trans named (StaidFrame.staid (.of_eq rfl rfl rfl rfl rfl))
  refine seq fun w => ?_
  dsimp only
  split <;> infer_instance

instance graphByParts (d : DescId) (lead : String) (parts : List String) : Along R k (.graphByParts d lead parts) := cachedGraph ..

instance specializeDefault (d : DescId) (cells : List Annot) : Along R k (.specializeDefault d cells) := bind

instance specializeByValue (d : DescId) (cells : List Annot) (params : List String) : Along R k (.specializeByValue d cells params) := bind

instance specializeByValueOrVar (d : DescId) (cells : List Annot) (params : List String) : Along R k (.specializeByValueOrVar d cells params) := bind

instance specializeByType (d : DescId) (cells : List Annot) (params : List String) : Along R k (.specializeByType d cells params) := bind

instance specializeLowLevel (d : DescId) (cells : List Annot) (params : List String) : Along R k (.specializeLowLevel d cells params) := bind

instance specializeBySite (d : DescId) (site : Option PosKey) : Along R k (.specializeBySite d site) := by
  unfold Ana.specializeBySite
  cases site <;> infer_instance

instance memoChoices (name : String) (i : Nat) (a : Annot) : Along R k (.memoChoices name i a) := by
  unfold Ana.memoChoices
  split <;> infer_instance

instance memoResult (d : DescId) (table : MemoTable) (combo : List Datum) : Along R k (.memoResult d table combo) := by
  refine seq fun h => seq fun w => ?_
  split
  · infer_instance
  · dsimp only
    split <;> infer_instance

instance specializeMemo (d : DescId) (cells : List Annot) : Along R k (.specializeMemo d cells) := by
  refine seq fun w => ?_
  dsimp only
  split <;> infer_instance

instance specializeOverride (params : List String) : Along R k (.specializeOverride params) := by
  refine seq fun w => ?_
  split <;> infer_instance

instance directiveOf (d : DescId) : Along R k (.directiveOf d) := by
  refine seq fun w => ?_
  dsimp only
  split
  · infer_instance
  · split <;> infer_instance

instance normalizeArgs (d : DescId) (cells : List Annot) : Along R k (.normalizeArgs d cells) := by
  refine seq fun w => ?_
  dsimp only
  split <;> infer_instance

instance specialize (d : DescId) (cells : List Annot) (site : Option PosKey) : Along R k (.specialize d cells site) := by
  refine seq fun w => seq fun cells => seq fun x => ?_
  obtain ⟨name, params⟩ := x
  dsimp only
  split <;> infer_instance

/-! ## Families -/

instance joinTo (d e : DescId) : Along R k (.joinTo d e) := by
  have join : Along R k (modify fun w => w.joinFamilies d e : Ana PUnit) := ⟨fun w => StaidCallFrame.join w d e⟩
  unfold Ana.joinTo
  infer_instance

instance mergeCallFamilies (ds : List DescId) : Along R k (.mergeCallFamilies ds) := by
  cases ds with
  | nil => exact pure _
  | cons d rest =>
    rw [mergeCallFamilies_cons]
    infer_instance

instance frozenFamilyOf (d : DescId) : Along R k (.frozenFamilyOf d) := calmlyGet fun _ => .of_eq

instance frozenFamily (i : Nat) : Along R k (.frozenFamily i) := bind

instance setFrozenValue (i : Nat) (name : String) (a : Annot) : Along R k (.setFrozenValue i name a) := by
  have update := updateFrozenFamily (R := R) (k := k) i
  unfold Ana.setFrozenValue
  infer_instance

set_option synthInstance.maxSize 1000 in
instance mergeFrozen (d e : DescId) : Along R k (.mergeFrozen d e) := by
  have update (i : Nat) := updateFrozenFamily (R := R) (k := k) i
  have parted (p : Partition DescId Nat) : Along R k (modify fun w => { w with frozenPartition := p } : Ana PUnit) :=
    calmly fun _ => .of_eq
  refine seq fun _ => seq fun _ => seq fun w => ?_
  obtain ⟨p, joined⟩ := w.frozenPartition.join d e
  cases joined <;> infer_instance

instance classPartition (attr : String) : Along R k (.classPartition attr) := bind

instance setClassPartition (attr : String) (p : Partition DescId Nat) : Along R k (.setClassPartition attr p) :=
  calmly fun _ => .of_eq

instance classFamilyOf (attr : String) (d : DescId) : Along R k (.classFamilyOf attr d) := by
  have made : Along R k (modify fun w => { w with classFamilies := w.classFamilies.push { descs := [d] } } : Ana PUnit) :=
    calmly fun _ => .of_eq
  unfold Ana.classFamilyOf
  infer_instance

instance classFamily (i : Nat) : Along R k (.classFamily i) := bind

instance setClassFamily (i : Nat) (f : ClassAttrFamily → ClassAttrFamily) : Along R k (.setClassFamily i f) :=
  calmly fun _ => .of_eq

instance mergeClassAttr (attr : String) (d e : DescId) : Along R k (.mergeClassAttr attr d e) := by
  refine seq fun _ => seq fun _ => seq fun q => ?_
  obtain ⟨p, joined⟩ := q.join d e
  cases joined <;> infer_instance

/-! ## Attributes of compile-time values -/

instance frozenAttr? (i : InstId) (name : String) : Along R k (.frozenAttr? i name) := by
  refine seq fun h => ?_
  dsimp only
  split
  · infer_instance
  · split <;> infer_instance

instance readFrozenAttr (d : DescId) (name : String) : Along R k (.readFrozenAttr d name) := by
  have learn (a : Annot) : Along R k (modify (·.updateDesc d fun
      | .frozen i cache => .frozen i (setDict cache name a)
      | k => k) : Ana PUnit) := by
    refine calmly fun w => .updateDesc d (fun t e => ?_) fun t => ?_ <;> cases t <;> simp [Desc.key, Desc.kind, Desc.known]
  refine seq fun w => ?_
  split
  · split
    · infer_instance
    · refine seq fun v => ?_
      cases v <;> infer_instance
  · infer_instance

instance reflowOthers (ps : Array PosKey) (pos : PosKey) : Along R k (.reflowOthers ps pos) := inferInstanceAs (Along R k (.reflowAll _))

instance mixedSet (attr : String) (ds : List DescId) (nullable : Bool) : Along R k (.mixedSet attr ds nullable : Ana α) := bind

set_option synthInstance.maxSize 1000 in
instance frozenGetattr (ds : List DescId) (nullable : Bool) (attr : String) : Along R k (.frozenGetattr ds nullable attr) := by
  have update (i : Nat) := updateFrozenFamily (R := R) (k := k) i
  unfold Ana.frozenGetattr
  infer_instance

instance classGetattr (ds : List DescId) (nullable : Bool) (attr : String) : Along R k (.classGetattr ds nullable attr) := by
  refine seq fun _ => seq fun pos => seq fun i => seq fun _ => seq fun f => ?_
  refine seq fun actual => seq fun f' => seq fun w => ?_
  exact ite

instance pbcGetattr (ds : List DescId) (nullable : Bool) (attr : String) : Along R k (.pbcGetattr ds nullable attr) := by
  unfold Ana.pbcGetattr
  split
  · infer_instance
  · refine seq fun w => ?_
    split <;> infer_instance

/-! ## Bindings -/

instance annotationOf? (o : Operand) : Along R k (.annotationOf? o) := by
  cases o <;> (unfold Ana.annotationOf?; infer_instance)

instance bindingOrImpossible (o : Operand) : Along R k (.bindingOrImpossible o) := by
  unfold Ana.bindingOrImpossible
  infer_instance

/-! ## Calling -/

instance addPendingGraph (g : GraphId) (cells : List Annot) : Along R k (.addPendingGraph g cells) := by
  refine seq fun w => ?_
  split <;> infer_instance

instance returnAnnot (g : GraphId) : Along R k (.returnAnnot g) := bind

instance recursiveCall (g : GraphId) (whence : Option PosKey) (cells : List Annot) : Along R k (.recursiveCall g whence cells) := by
  refine seq fun w => when (g := fun _ => ?_)
  cases whence with
  | none => infer_instance
  | some pos =>
    refine bind (h := calmly fun w => .of_idle (.updateProgress (fun _ => rfl) (fun _ => rfl) id id))

set_option synthInstance.maxSize 1000 in
instance callFunction (d : DescId) (whence : Option PosKey) (args : CallArgs) (prev : Annot) (site : Option PosKey) :
    Along R k (.callFunction d whence args prev site) := by
  refine seq fun w => when (g := fun _ => seq fun cells => seq fun x => ?_)
  obtain ⟨special, cells⟩ := x
  cases special with
  | value a => infer_instance
  | graph g =>
    refine seq fun result => ?_
    split
    · infer_instance
    · refine seq fun expected => ?_
      cases expected <;> infer_instance

instance callClass (d : DescId) (whence : Option PosKey) (args : CallArgs) : Along R k (.callClass d whence args) := by
  refine seq fun w => seq fun c => seq fun a => ?_
  split <;> infer_instance

instance callee (d : DescId) (args : CallArgs) : Along R k (.callee d args) := by
  refine seq fun w => ?_
  split
  · split <;> infer_instance
  all_goals infer_instance

instance callDesc (d : DescId) (whence : Option PosKey) (args : CallArgs) (prev : Annot) (site : Option PosKey) :
    Along R k (.callDesc d whence args prev site) := by
  refine seq fun w => ?_
  split <;> infer_instance

set_option synthInstance.maxSize 1000 in
instance callPbc (ds : List DescId) (args : CallArgs) (whence : Option PosKey) : Along R k (.callPbc ds args whence) := by
  refine seq fun w => ?_
  dsimp only
  split <;> infer_instance

/-! ## Call tables -/

instance graphOfCall (d : DescId) (args : CallArgs) (site : Option PosKey) : Along R k (.graphOfCall d args site) := by
  refine seq fun x => seq fun cells => seq fun y => ?_
  obtain ⟨special, -⟩ := y
  cases special <;> infer_instance

instance addGraph (args : CallArgs) (site : Option PosKey) (row : Row) (d : DescId) : Along R k (.addGraph args site row d) := by
  refine seq fun w => ?_
  have graph : Along R k (do
      match ← .graphOfCall d args site with
      | some g => Pure.pure (putGraph row (w.rowKey d, g))
      | none => Pure.pure row) := by
    refine seq fun g => ?_
    cases g <;> infer_instance
  split
  · infer_instance
  · infer_instance
  · exact graph

instance considerFunctions (ds : List DescId) (args : CallArgs) (site : Option PosKey) (isMethod : Bool) :
    Along R k (.considerFunctions ds args site isMethod) := by
  have record (i : Nat) (row : Row) : Along R k (modify fun w => w.recordRow i (siteShape isMethod args) row : Ana PUnit) :=
    ⟨fun w => StaidCallFrame.row w i _ row⟩
  rw [considerFunctions_eq]
  infer_instance

set_option synthInstance.maxSize 1000 in
instance calledClassDefs (ds : List DescId) (result : Annot) : Along R k (.calledClassDefs ds result) := by
  unfold Ana.calledClassDefs
  split
  · split <;> infer_instance
  · refine seq fun found => seq fun w => ?_
    split <;> infer_instance

instance considerClasses (ds : List DescId) (args : CallArgs) (result : Annot) (site : Option PosKey) :
    Along R k (.considerClasses ds args result site) := by
  refine seq fun _ => seq fun defs => ?_
  cases defs with
  | none => infer_instance
  | some defs =>
    refine bind (h := filterMapM (h := fun x => ?_))
    obtain ⟨d, c⟩ := x
    refine seq fun a => ?_
    split
    · refine seq fun w => ?_
      split <;> infer_instance
    all_goals infer_instance

instance considerCall (ds : List DescId) (nullable : Bool) (args : CallArgs) (result : Annot) (site : Option PosKey) :
    Along R k (.considerCall ds nullable args result site) := by
  unfold Ana.considerCall
  split
  · infer_instance
  · refine seq fun w => ?_
    split <;> infer_instance

instance callShapeOf (op : FlowOp) : Along R k (.callShapeOf op) := by
  unfold Ana.callShapeOf
  split <;> infer_instance

instance argsOfCall (op : FlowOp) : Along R k (.argsOfCall op) := by
  unfold Ana.argsOfCall
  split <;> infer_instance

end
end Along

/-! ## Sites -/

def resultOf (op : FlowOp) : Ana Annot :=
  match op.result with
  | some v => do pure ((← bindingOf? v).getD .impossible)
  | none => pure .impossible

/-- Records the call of compile-time values at a site. -/
def considerAt (pos : PosKey) (op : FlowOp) (ds : List DescId) (nullable : Bool) : Ana Unit := do
  let args ← argsOfCall op
  let result ← resultOf op
  modify fun w => { w with position := some pos }
  located pos (considerCall ds nullable args result (some pos))
  modify fun w => { w with position := none }

/-- Records the call at a site, when it is one of compile-time values. -/
def considerSite (pos : PosKey) : Ana Unit := do
  let w ← get
  match opAt? w pos with
  | none => pure ()
  | some op =>
    match ← bindingOrImpossible ((op.args.head?).getD default) with
    | .pbc ds nullable => considerAt pos op ds nullable
    | _ => pure ()

theorem computeAtFixpoint_eq : computeAtFixpoint = atPosition none (do
    (← get).progress.sites.toList.forM considerSite
    (← get).emulated.forM fun c => considerCall c.descs c.nullable { positional := c.args } .impossible none
    modify fun w => { w with emulated := [] }) := by
  unfold computeAtFixpoint
  congr 1
  refine bind_congr fun w => ?_
  rw [← Array.forIn_toList, forIn_yield (f := considerSite)]
  · refine bind_congr fun _ => bind_congr fun w => ?_
    rw [forIn_yield fun _ _ => rfl]
  · intro pos u
    unfold considerSite
    rw [bind_assoc]
    refine bind_congr fun w => ?_
    cases opAt? w pos with
    | none => rfl
    | some op =>
      rw [bind_assoc]
      refine bind_congr fun a => ?_
      cases a with
      | pbc ds nullable =>
        unfold considerAt resultOf
        cases op.result <;> simp only [bind_assoc]
      | _ => rfl

namespace Along

variable {R : World → World → Prop} [StaidCallFrame R] {k : Knot}

section

variable [KnotAlong R k]

instance resultOf (op : FlowOp) : Along R k (.resultOf op) := by
  unfold Ana.resultOf
  split <;> infer_instance

instance considerAt (pos : PosKey) (op : FlowOp) (ds : List DescId) (nullable : Bool) : Along R k (.considerAt pos op ds nullable) := by
  have move (pos : Option PosKey) : Along R k (modify fun w => { w with position := pos } : Ana PUnit) := calmly fun _ => .of_eq
  unfold Ana.considerAt
  infer_instance

instance considerSite (pos : PosKey) : Along R k (.considerSite pos) := by
  refine seq fun w => ?_
  cases opAt? w pos with
  | none => infer_instance
  | some op =>
    refine seq fun a => ?_
    split <;> infer_instance

instance computeAtFixpoint : Along R k .computeAtFixpoint := by
  have forget : Along R k (modify fun w => { w with emulated := [] } : Ana PUnit) := calmly fun _ => .of_eq
  rw [computeAtFixpoint_eq]
  infer_instance

end

theorem knotAux [CalmFrame R] (n : Nat) : KnotAlong R (Ana.knotAux n) := by
  induction n with
  | zero => exact ⟨fun _ => ⟨Frame.refl R⟩, fun _ => ⟨Frame.refl R⟩, fun _ _ => ⟨Frame.refl R⟩, fun _ _ _ => ⟨Frame.refl R⟩⟩
  | succ n ih =>
    exact ⟨fun v => ⟨(annotateConstant v).to_after⟩, fun v => ⟨(describe v).to_after⟩, fun d key => ⟨(defineClass d key).to_after⟩,
      fun ds args whence => ⟨(callPbc ds args whence).to_after⟩⟩

instance knot [CalmFrame R] : KnotAlong R Ana.knot := knotAux 2000

end Along
end Ana
end FlowCompiler
