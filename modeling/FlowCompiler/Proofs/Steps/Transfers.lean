import Mathlib.Tactic.SplitIfs
import FlowCompiler.Proofs.Steps.Calls
import FlowCompiler.Analysis.Flow

/-!
# Steps of operations

What an operation makes of its arguments is found in tables of handlers.  Besides calling, all that they do is to
record where compile-time values are called.
-/

namespace FlowCompiler.Ana

variable {name : String} {hs : PairHandlers} {f : BuiltinTransfer}

/-- A relation between states that steps of operations keep to as well. -/
class OpFrame (R : World → World → Prop) : Prop extends CallFrame R where
  site : ∀ (k : Knot) (pos : PosKey), Along R k (recordCallSite pos)

attribute [instance] OpFrame.site

namespace Along

variable {R : World → World → Prop} {k : Knot} {α : Type}

/-! ## Shared steps -/

section

variable [Frame R]

instance unsupported (text : String) : Along R k (.unsupported text : Ana α) := inferInstanceAs (Along R k (.fail _ _))

instance ok (a : Annot) : Along R k (.ok a) := pure _

instance foldEqualAnnots (a b : Annot) : Along R k (.foldEqualAnnots a b) := ite

end

variable [OpFrame R]

instance listDefHere : Along R k .listDefHere := by
  have note (pos : PosKey) (d : ListDefId) : Along R k (modify fun w => { w with listDefAt := w.listDefAt.insert pos d } : Ana PUnit) :=
    calmly fun _ => .of_eq
  refine seq fun w => ?_
  cases w.position with
  | none => infer_instance
  | some pos =>
    refine seq fun w => ?_
    split <;> infer_instance

instance newListHere (items : List Annot) : Along R k (.newListHere items) := bind

instance listHere (items : List Annot) : Along R k (.listHere items) := bind

instance dictDefHere : Along R k .dictDefHere := by
  have note (pos : PosKey) (d : DictDefId) : Along R k (modify fun w => { w with dictDefAt := w.dictDefAt.insert pos d } : Ana PUnit) :=
    calmly fun _ => .of_eq
  refine seq fun w => ?_
  cases w.position with
  | none => infer_instance
  | some pos =>
    refine seq fun w => ?_
    split <;> infer_instance

/-! ## Methods of builtin types -/

section

variable (c : OpContext) (args : List Annot)

instance checkArity (name : String) (lo hi : Nat) : Along R k (.checkArity name args lo hi) := ite

instance listPut (name : String) (count item : Nat) : Along R k (.listPut name count item c args) := bind

instance listExtend : Along R k (.listExtend c args) := by
  refine seq fun _ => seq fun _ => ?_
  split <;> infer_instance

instance listPop : Along R k (.listPop c args) := bind

instance listRearrange : Along R k (.listRearrange c args) := bind

instance listIndex : Along R k (.listIndex c args) := bind

instance dictGet : Along R k (.dictGet c args) := bind

instance dictSetDefault : Along R k (.dictSetDefault c args) := bind

instance dictPop : Along R k (.dictPop c args) := by
  refine seq fun _ => seq fun _ => seq fun v => ?_
  split <;> infer_instance

instance entryOf (d : DictDefId) (pos : PosKey) : Along R k (.entryOf d pos) := bind

instance dictUpdate : Along R k (.dictUpdate c args) := by
  refine seq fun _ => ?_
  split <;> infer_instance

instance dictIter (variant : String) : Along R k (.dictIter variant c args) := ok _

instance toStr : Along R k (.toStr c args) := ok _

instance toUnicode : Along R k (.toUnicode c args) := ok _

instance formatMethod : Along R k (.formatMethod c args) := bind

theorem listMethod?_some : listMethod? name = some f → Along R k (f c args) := by
  unfold listMethod?
  split <;> rintro ⟨⟩ <;> infer_instance

theorem dictMethod?_some : dictMethod? name = some f → Along R k (f c args) := by
  unfold dictMethod?
  split <;> rintro ⟨⟩ <;> infer_instance

theorem strMethod?_some : strMethod? name = some f → Along R k (f c args) := by
  unfold strMethod?
  split_ifs
  case neg => split <;> rintro ⟨⟩ <;> infer_instance
  all_goals
    rintro ⟨⟩
    infer_instance

theorem unicodeMethod?_some : unicodeMethod? name = some f → Along R k (f c args) := by
  unfold unicodeMethod?
  split_ifs
  case neg => split <;> rintro ⟨⟩ <;> infer_instance
  all_goals
    rintro ⟨⟩
    infer_instance

theorem method?_some {t : Kind} (h : method? t name = some f) : Along R k (f c args) := by
  obtain ⟨t', -, h'⟩ := List.exists_of_findSome?_eq_some h
  unfold ownMethod? at h'
  split at h'
  · exact listMethod?_some c args h'
  · exact dictMethod?_some c args h'
  · exact strMethod?_some c args h'
  · exact unicodeMethod?_some c args h'
  · cases h'

end

section

variable [KnotAlong R k]

instance valueOfType? (t : Datum) : Along R k (.valueOfType? t) := by
  unfold Ana.valueOfType?
  split
  · infer_instance
  · refine seq fun h => ?_
    split <;> infer_instance
  all_goals infer_instance

/-! ## One value -/

variable (c : OpContext)

instance unaryArith : Along R k (.unaryArith c) := by
  unfold Ana.unaryArith
  dsimp only
  split
  · split <;> infer_instance
  · infer_instance
  · split <;> infer_instance

instance truthFacts (v : VarId) (a : Annot) : Along R k (.truthFacts v a) := by
  have known (fs : List (Fact Annot)) : Along R k (do
      match a with
      | .int i =>
        if i.unsigned then Pure.pure fs
        else do
          let r := i.getRange
          let fs ← if r.lo = 0 && r.hi > 0 then .addFact fs true v (.intRange 1 r.hi) else Pure.pure fs
          .addFact fs false v (.constInt 0)
      | _ => Pure.pure fs) := by
    cases a <;> infer_instance
  exact ite

instance truthOf (a : Annot) (v : Option VarId) : Along R k (.truthOf a v) := by
  unfold Ana.truthOf
  split
  · infer_instance
  · split <;> infer_instance

instance boolOp : Along R k (.boolOp c) := bind

instance lenOf (pos : PosKey) (a : Annot) : Along R k (.lenOf pos a) := by
  unfold Ana.lenOf
  split <;> infer_instance

instance toStringOp : Along R k (.toStringOp c) := by
  unfold Ana.toStringOp
  split <;> infer_instance

instance toIntOp : Along R k (.toIntOp c) := by
  unfold Ana.toIntOp
  split <;> infer_instance

instance toFloatOp : Along R k (.toFloatOp c) := by
  unfold Ana.toFloatOp
  split <;> infer_instance

instance ordOf (a : Annot) : Along R k (.ordOf a) := by
  unfold Ana.ordOf
  split <;> infer_instance

instance typeOp : Along R k (.typeOp c) := bind

instance issubtypeOp : Along R k (.issubtypeOp c) := by
  unfold Ana.issubtypeOp
  refine when (g := fun _ => ?_)
  split
  · refine ite (g := seq fun d => seq fun a => ?_)
    cases a <;> infer_instance
  · infer_instance

instance iterOp : Along R k (.iterOp c) := by
  unfold Ana.iterOp
  split <;> infer_instance

instance nextOp : Along R k (.nextOp c) := by
  unfold Ana.nextOp
  split
  · split
    case h_5 => split <;> infer_instance
    all_goals infer_instance
  · infer_instance

instance constContains (container item : Datum) : Along R k (.constContains container item) := by
  unfold Ana.constContains
  split
  · split <;> infer_instance
  · split
    · refine seq fun h => ?_
      split <;> infer_instance
    · infer_instance

instance containsOp : Along R k (.containsOp c) := by
  unfold Ana.containsOp
  refine when (g := fun _ => ?_)
  dsimp only
  split <;> infer_instance

set_option synthInstance.maxSize 1000 in
instance newDictOp : Along R k (.newDictOp c) := ite

instance getsliceOp : Along R k (.getsliceOp c) := by
  unfold Ana.getsliceOp
  split <;> infer_instance

instance setsliceOp : Along R k (.setsliceOp c) := by
  unfold Ana.setsliceOp
  split
  · rename_i d _
    have put : Along R k (match c.arg 3 with
        | .list e => do
          .resizeList d
          .generalizeList d (← .readList e c.pos)
          Pure.pure none
        | a => do .unsupported s!"setslice from {← Ana.text a}" : Ana (Option Annot)) := by
      split <;> infer_instance
    exact ite
  · infer_instance

instance hashOp : Along R k (.hashOp c) := bind

instance delattrOp : Along R k (.delattrOp c) := by
  unfold Ana.delattrOp
  split <;> infer_instance

/-! ## Two values -/

variable (a b : Annot)

instance compareObjects : Along R k (.compareObjects c a b) := by
  refine seq fun eq => ?_
  split <;> infer_instance

instance identical? : Along R k (.identical? a b) := ite

instance identityFacts (fs : List (Fact Annot)) (v : Option VarId) (other self : Annot) : Along R k (.identityFacts fs v other self) := by
  unfold Ana.identityFacts
  cases v with
  | none => infer_instance
  | some v =>
    dsimp only
    split
    · refine ite (h := seq fun d => seq fun a => ?_)
      cases a <;> infer_instance
    · infer_instance

instance isOp : Along R k (.isOp c a b) := bind

instance intArith : Along R k (.intArith c a b) := ok _

instance intTrueDiv : Along R k (.intTrueDiv c a b) := ok _

instance intPow : Along R k (.intPow c a b) := ok _

instance floatArith : Along R k (.floatArith c a b) := ok _

instance boolLogic : Along R k (.boolLogic c a b) := by
  unfold Ana.boolLogic
  split <;> infer_instance

instance compareFloats : Along R k (.compareFloats c a b) := by
  unfold Ana.compareFloats
  split <;> infer_instance

instance narrowFact (fs : List (Fact Annot)) (outcome : Bool) (o : Compared) (bound : Range) : Along R k (.narrowFact fs outcome o bound) := by
  unfold Ana.narrowFact
  split <;> infer_instance

instance compareInts : Along R k (.compareInts c a b) := by
  unfold Ana.compareInts
  dsimp only
  split <;> infer_instance

instance strConcat : Along R k (.strConcat c a b) := by
  unfold Ana.strConcat
  split <;> infer_instance

instance unicodeConcat : Along R k (.unicodeConcat c a b) := by
  unfold Ana.unicodeConcat
  split <;> infer_instance

instance compareStrings : Along R k (.compareStrings c a b) := by
  unfold Ana.compareStrings
  split <;> infer_instance

instance strLike : Along R k (.strLike c a b) := ok _

instance strGetItem : Along R k (.strGetItem c a b) := ok _

instance unicodeGetItem : Along R k (.unicodeGetItem c a b) := ok _

instance tupleConcat : Along R k (.tupleConcat c a b) := bind

instance tupleGetItem : Along R k (.tupleGetItem c a b) := by
  unfold Ana.tupleGetItem
  dsimp only
  split
  · infer_instance
  · split <;> infer_instance

instance listConcat : Along R k (.listConcat c a b) := bind

instance listRepeat : Along R k (.listRepeat c a b) := bind

instance listGetItem : Along R k (.listGetItem c a b) := bind

instance listSetItem : Along R k (.listSetItem c a b) := ite

instance listDelItem : Along R k (.listDelItem c a b) := bind

instance dictGetItem : Along R k (.dictGetItem c a b) := bind

instance dictSetItem : Along R k (.dictSetItem c a b) := ite

instance dictDelItem : Along R k (.dictDelItem c a b) := bind

/-! ## Builtin functions -/

variable (args : List Annot)

instance convertTo (a : Annot) : Along R k (.convertTo a c args) := ite

instance isInstance? (a typ : Annot) : Along R k (.isInstance? a typ) := by
  unfold Ana.isInstance?
  split
  · infer_instance
  · infer_instance
  · refine seq fun _ => ite (g := ?_)
    split <;> infer_instance

instance builtinIsinstance : Along R k (.builtinIsinstance c args) := by
  refine seq fun _ => ite (g := seq fun d => seq fun typ => ?_)
  cases typ with
  | none => infer_instance
  | some typ =>
    refine seq fun known => ?_
    split <;> infer_instance

instance builtinIssubclass : Along R k (.builtinIssubclass c args) := by
  refine seq fun _ => ite (h := seq fun x => seq fun y => ?_)
  split <;> infer_instance

instance builtinRange : Along R k (.builtinRange c args) := by
  refine seq fun _ => ?_
  infer_instance

instance builtinBool : Along R k (.builtinBool c args) := by
  unfold Ana.builtinBool
  split
  · infer_instance
  · refine seq fun _ => seq fun r => ?_
    split
    case h_2 => split <;> infer_instance
    all_goals infer_instance

instance builtinFloat : Along R k (.builtinFloat c args) := by
  refine seq fun _ => ?_
  split
  · split <;> infer_instance
  · infer_instance

instance builtinAbs : Along R k (.builtinAbs c args) := by
  refine seq fun _ => ?_
  split
  · infer_instance
  · split <;> infer_instance

instance builtinExtreme (pick : Int → Int → Int) : Along R k (.builtinExtreme pick c args) := by
  unfold Ana.builtinExtreme
  split <;> infer_instance

instance builtinList : Along R k (.builtinList c args) := by
  unfold Ana.builtinList
  split
  · infer_instance
  · refine seq fun _ => ?_
    split <;> infer_instance

instance builtinInstantiate : Along R k (.builtinInstantiate c args) := by
  refine seq fun _ => ?_
  split
  · refine bind (h := mapM (h := fun d => seq fun w => ?_))
    split <;> infer_instance
  · infer_instance

theorem builtin?_some : builtin? name = some f → Along R k (f c args) := by
  unfold builtin?
  split <;> rintro ⟨⟩ <;> infer_instance

/-! ## Attributes and calls -/

instance getattrOp : Along R k (.getattrOp c) := by
  unfold Ana.getattrOp
  split
  · infer_instance
  · split
    case h_5 => exact ite
    all_goals infer_instance

instance setattrOp : Along R k (.setattrOp c) := by
  unfold Ana.setattrOp
  refine when (g := fun _ => ?_)
  split
  · infer_instance
  · split <;> infer_instance

instance builtinArgs : Along R k (.builtinArgs c) := bind

instance callOp : Along R k (.callOp c) := by
  unfold Ana.callOp
  split
  · infer_instance
  · refine seq fun args => ?_
    split
    · exact builtin?_some c args ‹_›
    · infer_instance
  · refine seq fun args => ?_
    split
    · exact method?_some c _ ‹_›
    · infer_instance
  · refine when (g := fun _ => ?_)
    split <;> infer_instance
  · infer_instance

/-! ## Tables -/

theorem unary?_some {f : Transfer} : unary? name = some f → Along R k (f c) := by
  unfold unary?
  split <;> rintro ⟨⟩ <;> infer_instance

instance transferUnary (name : String) : Along R k (.transferUnary name c) := by
  unfold Ana.transferUnary
  split
  · infer_instance
  · have handler : Along R k _ := unary?_some c ‹_›
    infer_instance

end

/-- All handlers of a table keep to a relation. -/
class Handled (R : World → World → Prop) (k : Knot) (hs : PairHandlers) : Prop where
  to_along : ∀ x ∈ hs, ∀ c a b, Along R k (x.2 c a b)

namespace Handled

instance nil : Handled R k [] := ⟨nofun⟩

instance cons {ks : Kind × Kind} {f : PairTransfer} [h : ∀ c a b, Along R k (f c a b)] [t : Handled R k hs] : Handled R k ((ks, f) :: hs) :=
  ⟨List.forall_mem_cons.2 ⟨h, t.to_along⟩⟩

instance ints {f : PairTransfer} [∀ c a b, Along R k (f c a b)] [Handled R k hs] : Handled R k (onInts f :: hs) := cons

instance floats [Handled R k hs] : Handled R k (onFloats :: hs) := cons

end Handled

section

variable [KnotAlong R k] (c : OpContext)

theorem pairHandlers?_some : pairHandlers? name = some hs → Handled R k hs := by
  unfold pairHandlers? comparisons
  split <;> try split_ifs
  all_goals rintro ⟨⟩
  all_goals infer_instance

instance transfer : Along R k (.transfer c) := by
  unfold Ana.transfer
  dsimp only
  split
  · split
    · rename_i a b _ hs _ _ _ f hf
      obtain ⟨p, -, hp⟩ := List.exists_of_findSome?_eq_some hf
      exact (pairHandlers?_some hs).to_along _ (List.mem_reverse.1 (List.mem_of_find?_eq_some hp)) c a b
    · infer_instance
  · infer_instance

end
end Along
end FlowCompiler.Ana

/-! ## Steps of the flow

Analysing a block widens bindings and enters the targets of its links, and the fixed point is reached by taking blocks
from the queue.  With that all changes of the analysis are named: a relation that they keep to holds of every run. -/

namespace FlowCompiler.Ana

theorem after_takePending (k : Knot) (w : World) : ∃ pending queue back,
    takePending.after k w = w.updateProgress fun p => { p with pending, queue, queueBack := back } := by
  have taken : takePending.after k w = Prod.snd _ := rfl
  rw [taken]
  dsimp only
  cases nextPending w.progress w.progress.queue with
  | some x => exact ⟨_, _, _, rfl⟩
  | none =>
    cases nextPending w.progress w.progress.queueBack.reverse with
    | some x => exact ⟨_, _, _, rfl⟩
    | none => exact ⟨_, _, _, rfl⟩

/-- A relation between states that recording the calls keeps to, and what is done about graphs that never return. -/
class EndFrame (R : World → World → Prop) : Prop extends CallFrame R where
  unreturned : ∀ (w : World) (v : VarId), w.progress.bindings[v]? = none → R w (w.bindTo v .impossible)

/-- A relation between states that the analysis keeps to. -/
class FlowFrame (R : World → World → Prop) : Prop extends OpFrame R, EndFrame R where
  bind : ∀ (k : Knot) (v : VarId) (a : Annot), Along R k (setBinding v a)
  take : ∀ k : Knot, Along R k takePending

attribute [instance] FlowFrame.bind FlowFrame.take

namespace Along

variable {R : World → World → Prop} {k : Knot}

section

variable [Frame R]

instance exceptionClass (name : String) : Along R k (.exceptionClass name) := bind

instance renamed (names : VarId → List VarId) (a : Annot) : Along R k (.renamed names a) := by
  unfold Ana.renamed
  split <;> infer_instance

instance refine (a b : Annot) : Along R k (.refine a b) := by
  unfold Ana.refine
  split <;> infer_instance

instance markFollowed (l : LinkId) : Along R k (.markFollowed l) :=
  idly fun _ => .updateProgress (fun _ => rfl) (fun _ => rfl) id id fun h => Std.HashMap.mem_insert.2 (.inr h)

instance instancesOf (defs : List ClassDefId) : Along R k (.instancesOf defs) := unionOf _

instance notifyCallers (b : BlockId) : Along R k (.notifyCallers b) := by
  refine .seq fun w => ?_
  split <;> infer_instance

instance checkBlocked : Along R k .checkBlocked := by
  refine .seq fun w => ?_
  dsimp only
  split <;> infer_instance

instance setAnnotated (b : BlockId) (g : Option GraphId) : Along R k (.setAnnotated b g) :=
  idly fun _ => .updateProgress (fun _ => rfl) (fun _ => rfl) (fun h => Std.HashMap.mem_insert.2 (.inr h)) id

end

section

variable [StaidCallFrame R] [KnotAlong R k]

instance exceptionsOf (op : FlowOp) : Along R k (.exceptionsOf op) := by
  unfold Ana.exceptionsOf
  cases op.args <;> infer_instance

/-! ### Links -/

instance passed (names : VarId → List VarId) (known : VarId → Option Annot) (os : List Operand) : Along R k (.passed names known os) := by
  induction os with
  | nil => exact pure _
  | cons o os ih =>
    refine .seq fun a => ?_
    split
    · infer_instance
    · refine .seq fun a => ?_
      split <;> infer_instance

instance followLink (g : GraphId) (id : LinkId) (known : VarId → Option Annot) : Along R k (.followLink g id known) := by
  refine .seq fun w => .seq fun inputs => ?_
  cases inputs <;> infer_instance

set_option synthInstance.maxSize 1000 in
instance followRaiseLink [∀ v a, Along R k (.setBinding v a)] (g : GraphId) (id : LinkId) (exc : Annot) : Along R k (.followRaiseLink g id exc) := by
  refine .seq fun w => ?_
  dsimp only
  cases varOf? (w.prog.flow.link id).lastException <;> cases varOf? (w.prog.flow.link id).lastExcValue <;> infer_instance

instance handlerClass (exitCase : Datum) : Along R k (.handlerClass exitCase) := by
  unfold Ana.handlerClass
  split <;> infer_instance

instance followRaising [∀ v a, Along R k (.setBinding v a)] (g : GraphId) (raised : Bool) (exits : List LinkId) (excs : List ClassDefId) :
    Along R k (.followRaising g raised exits excs) := by
  induction exits generalizing excs with
  | nil => exact pure _
  | cons id rest ih =>
    refine .seq fun w => ?_
    split <;> infer_instance

end

variable [FlowFrame R] [KnotAlong R k]

/-! ### Operations -/

instance considerOp (pos : PosKey) (op : FlowOp) : Along R k (.considerOp pos op) := by
  have args (os : List Operand) : Along R k (considerOp.args os) := by
    induction os with
    | nil => exact pure _
    | cons o os ih =>
      refine .seq fun a => ?_
      split <;> infer_instance
  refine .seq fun as => ?_
  cases as with
  | none => infer_instance
  | some as =>
    refine .seq fun r => ?_
    split
    · infer_instance
    · cases op.result <;> infer_instance

instance switchAnnot? (b : Block) : Along R k (.switchAnnot? b) := by
  unfold Ana.switchAnnot?
  split <;> infer_instance

instance followExits (g : GraphId) (b : BlockId) (exits : List LinkId) (raised : Bool) : Along R k (.followExits g b exits raised) := by
  refine .seq fun w => ?_
  dsimp only
  split
  · infer_instance
  · refine .seq fun a => .bind (h := forIn (h := fun id _ => .seq fun w => ?_))
    split <;> infer_instance

/-! ### Blocks -/

instance liveExits (b : Block) : Along R k (.liveExits b) := by
  refine .seq fun a => ?_
  cases a <;> infer_instance

instance runOps (g : GraphId) (b : BlockId) (t : Block) (i : Nat) (ops : List FlowOp) : Along R k (.runOps g b t i ops) := by
  induction ops generalizing i with
  | nil => exact pure _
  | cons op ops ih =>
    refine .seq fun r => ?_
    split <;> infer_instance

instance processBlock (g : GraphId) (b : BlockId) : Along R k (.processBlock g b) := by
  have unblock : Along R k (modify fun w => w.updateProgress fun p => { p with blocked := p.blocked.erase b } : Ana PUnit) :=
    idly fun _ => .updateProgress (fun _ => rfl) (fun _ => rfl) id id
  have block (i : Nat) : Along R k (modify fun w => w.updateProgress fun p => { p with blocked := p.blocked.insert b (g, i) } : Ana PUnit) :=
    idly fun _ => .updateProgress (fun _ => rfl) (fun _ => rfl) id id
  refine .seq fun _ => .seq fun _ => .seq fun w => .seq fun e => ?_
  cases e <;> infer_instance

/-! ### The fixed point -/

set_option synthInstance.maxSize 1000 in
instance step : Along R k .step := by
  have count : Along R k (modify fun w => w.updateProgress fun p => { p with steps := p.steps + 1 } : Ana PUnit) :=
    idly fun _ => .updateProgress (fun _ => rfl) (fun _ => rfl) id id
  refine .seq fun x => ?_
  split <;> infer_instance

instance drain (n : Nat) : Along R k (.drain n) := by
  induction n with
  | zero => exact throw _
  | succ n ih =>
    unfold Ana.drain
    infer_instance

set_option synthInstance.maxSize 1000 in
instance settle (n : Nat) : Along R k (.settle n) := by
  induction n with
  | zero => exact throw _
  | succ n ih =>
    unfold Ana.settle
    infer_instance

end Along

/-- A graph that never returns returns the impossible. -/
def bindReturn (g : GraphId) : Ana Unit := do
  let v := (← get).prog.flow.returnVar g
  if (← bindingOf? v).isNone then bindVar v .impossible

/-- Records all calls, and binds what is never returned. -/
def lastRound : Ana Unit := do
  computeAtFixpoint
  (← get).progress.graphs.toList.forM bindReturn

theorem complete_eq : complete = (do
    settle visitLimit
    (← get).progress.graphs.toList.forM bindReturn) := by
  refine bind_congr fun _ => bind_congr fun w => ?_
  rw [← Array.forIn_toList, forIn_yield (f := bindReturn), bind_pure]
  intro g u
  unfold bindReturn
  rw [bind_assoc]
  refine bind_congr fun w => ?_
  rw [bind_assoc]
  refine bind_congr fun a => ?_
  cases a <;> rfl

namespace Along

variable {R : World → World → Prop} {k : Knot}

instance bindReturn [EndFrame R] (g : GraphId) : Along R k (.bindReturn g) := by
  refine ⟨fun w => ?_⟩
  have hbinding : Ana.bindingOf? (w.prog.flow.returnVar g) k w = .ok w.progress.bindings[w.prog.flow.returnVar g]? w := rfl
  unfold Ana.bindReturn
  rw [after_get, after_bind_of_ok hbinding]
  cases h : w.progress.bindings[w.prog.flow.returnVar g]? with
  | none => exact EndFrame.unreturned w _ h
  | some a => exact Frame.refl R w

instance complete [FlowFrame R] [KnotAlong R k] : Along R k .complete := by
  rw [complete_eq]
  infer_instance

end Along
end FlowCompiler.Ana
