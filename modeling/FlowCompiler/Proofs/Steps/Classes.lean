import FlowCompiler.Analysis.Call
import FlowCompiler.Proofs.Attributes.Trees

/-!
# Steps that describe and define

Descriptions and class definitions are made and filled, attributes move up and constants are annotated.  All that is
calm: it does not touch graphs, bindings, call sites and families of calls.  What a description is called by stays.

Only the definition of a new class adds to the classes; all else is staid as well and leaves them where they are.
-/

namespace FlowCompiler

open Array

/-- The description that a call table has a column for, by what a description is of. -/
def Desc.key (d : DescId) : Desc → DescId
  | .method m => m.func
  | .frozenMethod f _ => f
  | _ => d

theorem World.rowKey_eq (w : World) (d : DescId) : w.rowKey d = (w.desc d).key d := rfl

/-- A change of the state that leaves graphs, low-level objects, bindings, call sites and call families as they are.  Blocks may start to
wait, and descriptions may be added. -/
structure World.Calm (w w' : World) : Prop where
  flow : w'.prog.flow = w.prog.flow
  low : w'.prog.low = w.prog.low
  bindings : w'.progress.bindings = w.progress.bindings
  sites : w'.progress.sites = w.progress.sites
  annotated : ∀ {b : BlockId}, b ∈ w.progress.annotated → b ∈ w'.progress.annotated
  pending : ∀ {b : BlockId}, b ∈ w.progress.pending → b ∈ w'.progress.pending
  followed : ∀ {l : LinkId}, l ∈ w.progress.followed → l ∈ w'.progress.followed
  callPartition : w'.callPartition = w.callPartition
  callFamilies : w'.callFamilies = w.callFamilies
  descs : w.descs.size ≤ w'.descs.size
  desc : ∀ {d : Nat}, d - 1 < w.descs.size → w'.rowKey d = w.rowKey d ∧ (w'.desc d).kind = (w.desc d).kind

variable (d : DescId) (c : ClassDefId) {f : ClassDesc → ClassDesc}

namespace World.Calm

variable {w w' w'' : World}

theorem of_idle (h : w.Idle w') : w.Calm w' where
  flow := h.flow
  low := h.low
  bindings := h.bindings
  sites := h.sites
  annotated := h.annotated
  pending := h.pending
  followed := h.followed
  callPartition := h.callPartition
  callFamilies := h.callFamilies
  descs := h.descs.length_le
  desc {d} hd := by
    have hdesc : w'.desc d = w.desc d := by
      rw [h.toLater.desc (getElem?_eq_getElem hd), World.desc, getElem?_eq_getElem hd]
      rfl
    rw [rowKey_eq, rowKey_eq, hdesc]
    exact ⟨rfl, rfl⟩

theorem of_eq (h₁ : w'.prog.flow = w.prog.flow) (h₂ : w'.progress = w.progress) (h₃ : w'.callPartition = w.callPartition)
    (h₄ : w'.callFamilies = w.callFamilies) (h₅ : w'.descs = w.descs) (h₆ : w'.prog.low = w.prog.low := by rfl) : w.Calm w' where
  flow := h₁
  low := h₆
  bindings := by rw [h₂]
  sites := by rw [h₂]
  annotated hb := by rwa [h₂]
  pending hb := by rwa [h₂]
  followed hl := by rwa [h₂]
  callPartition := h₃
  callFamilies := h₄
  descs := Nat.le_of_eq (congrArg Array.size h₅).symm
  desc _ := by simp only [World.rowKey, World.desc, h₅, and_self]

theorem push (w : World) (t : Desc) : w.Calm { w with descs := w.descs.push t } where
  flow := rfl
  low := rfl
  bindings := rfl
  sites := rfl
  annotated := id
  pending := id
  followed := id
  callPartition := rfl
  callFamilies := rfl
  descs := by simp
  desc hd := by simp only [World.rowKey, World.desc, getElem?_push_lt hd, getElem?_eq_getElem hd, and_self]

theorem updateDesc {f : Desc → Desc} (hf : ∀ t e, (f t).key e = t.key e ∧ (f t).kind = t.kind) : w.Calm (w.updateDesc d f) where
  flow := rfl
  low := rfl
  bindings := rfl
  sites := rfl
  annotated := id
  pending := id
  followed := id
  callPartition := rfl
  callFamilies := rfl
  descs := by simp [World.updateDesc]
  desc {e} he := by
    have hdesc : (w.updateDesc d f).desc e = if d - 1 = e - 1 then f (w.desc e) else w.desc e := by
      simp only [World.desc, World.updateDesc, getElem?_modify, getElem?_eq_getElem he]
      split <;> rfl
    rw [rowKey_eq, rowKey_eq, hdesc]
    split
    · exact hf ..
    · exact ⟨rfl, rfl⟩

theorem updateClassDesc (f : ClassDesc → ClassDesc) : w.Calm (w.updateClassDesc d f) := by
  refine updateDesc d fun t e => ?_
  cases t <;> exact ⟨rfl, rfl⟩

end World.Calm

/-- The class definitions that a description knows. -/
def Desc.known : Desc → List (String × ClassDefId)
  | .cls c => c.classDefs
  | _ => []

theorem World.known_eq (w : World) (d : DescId) : (w.classDesc d).classDefs = (w.desc d).known := by
  unfold World.classDesc
  cases w.desc d <;> rfl

/-- A calm change after which the same classes are below the same bases and known by the same descriptions. -/
structure World.Staid (w w' : World) : Prop extends w.Calm w' where
  tree : w.SameTree w'
  known : ∀ d, (w'.desc d).known = (w.desc d).known

namespace World.Staid

variable {w w' : World}

theorem of_idle (h : w.Idle w') : w.Staid w' := ⟨.of_idle h, .of_eq h.classDefs, fun d => by rw [← known_eq, ← known_eq, h.classDesc]⟩

theorem of_eq (h₁ : w'.prog.flow = w.prog.flow := by rfl) (h₂ : w'.progress = w.progress := by rfl)
    (h₃ : w'.callPartition = w.callPartition := by rfl) (h₄ : w'.callFamilies = w.callFamilies := by rfl)
    (h₅ : w'.descs = w.descs := by rfl) (h₆ : w'.prog.low = w.prog.low := by rfl)
    (h₇ : w'.classDefs = w.classDefs := by rfl) : w.Staid w' :=
  ⟨.of_eq h₁ h₂ h₃ h₄ h₅ h₆, .of_eq h₇, fun d => by rw [World.desc, World.desc, h₅]⟩

theorem push (w : World) {t : Desc} (h : t.known = []) : w.Staid { w with descs := w.descs.push t } := by
  refine ⟨.push w t, .of_eq rfl, fun d => ?_⟩
  rw [World.desc, World.desc, getElem?_push]
  split
  · rename_i e
    rw [e, getElem?_size]
    exact h
  · rfl

theorem updateDesc {f : Desc → Desc} (hf : ∀ t e, (f t).key e = t.key e ∧ (f t).kind = t.kind)
    (hk : ∀ t, (f t).known = t.known) : w.Staid (w.updateDesc d f) := by
  refine ⟨.updateDesc d hf, .of_eq rfl, fun e => ?_⟩
  rw [World.desc, World.desc, World.updateDesc, getElem?_modify]
  split
  · cases w.descs[e - 1]? with
    | none => rfl
    | some t => exact hk t
  · rfl

theorem updateFuncDesc (f : FunctionDesc → FunctionDesc) : w.Staid (w.updateFuncDesc d f) :=
  updateDesc d (fun t _ => by cases t <;> exact ⟨rfl, rfl⟩) fun t => by cases t <;> rfl

theorem updateClassDesc (hf : ∀ t, (f t).classDefs = t.classDefs) : w.Staid (w.updateClassDesc d f) := by
  refine updateDesc d (fun t _ => by cases t <;> exact ⟨rfl, rfl⟩) fun t => ?_
  cases t with
  | cls c => exact hf c
  | _ => rfl

theorem updateClassDef {f : ClassDef → ClassDef} (hf : ∀ t, (f t).base = t.base ∧ (f t).subs = t.subs ∧ (f t).desc = t.desc) :
    w.Staid (w.updateClassDef c f) :=
  ⟨.of_eq rfl rfl rfl rfl rfl, .updateClassDef w c (fun t => (hf t).1) (fun t => (hf t).2.1) fun t => (hf t).2.2, fun _ => rfl⟩

end World.Staid

namespace Ana

/-! ## Relations of steps that describe -/

/-- A relation between states that calm changes keep to. -/
class CalmFrame (R : World → World → Prop) : Prop extends Frame R where
  calm : ∀ {w w' : World}, w.Calm w' → R w w'

/-- A relation between states that staid changes keep to. -/
class StaidFrame (R : World → World → Prop) : Prop extends Frame R where
  staid : ∀ {w w' : World}, w.Staid w' → R w w'

instance {R : World → World → Prop} [CalmFrame R] : StaidFrame R := ⟨fun h => CalmFrame.calm h.toCalm⟩

/-- The steps that come back to each other keep to a relation. -/
class KnotAlong (R : World → World → Prop) (k : Knot) : Prop where
  immutable : ∀ v, Along R k (Ana.immutable v)
  descOf : ∀ v, Along R k (Ana.descOf v)
  classDefOf : ∀ d key, Along R k (Ana.classDefOf d key)
  pbcCall : ∀ ds args whence, Along R k (Ana.pbcCall ds args whence)

attribute [instance] KnotAlong.immutable KnotAlong.descOf KnotAlong.classDefOf KnotAlong.pbcCall

namespace Along

variable {R : World → World → Prop} [StaidFrame R] {k : Knot} {α : Type}

theorem calmlyGet {f : World → α × World} (h : ∀ w : World, w.Staid (f w).2) : Along R k (MonadState.modifyGet f : Ana α) :=
  ⟨fun w => StaidFrame.staid (h w)⟩

theorem calmly {f : World → World} (h : ∀ w : World, w.Staid (f w)) : Along R k (modify f : Ana PUnit) := calmlyGet h

theorem addDesc {t : Desc} (h : t.known = []) : Along R k (.addDesc t) := calmlyGet fun w => .push w h

instance addFunction (f : FunctionDesc) : Along R k (.addDesc (.function f)) := addDesc rfl

instance addFrozen (i : InstId) (xs : List (String × Annot)) : Along R k (.addDesc (.frozen i xs)) := addDesc rfl

instance addFrozenMethod (f z : DescId) : Along R k (.addDesc (.frozenMethod f z)) := addDesc rfl

theorem updateClassDesc (h : ∀ t, (f t).classDefs = t.classDefs) : Along R k (modify (·.updateClassDesc d f)) := calmly fun _ => .updateClassDesc d h

instance updateFuncDesc (d : DescId) (f : FunctionDesc → FunctionDesc) : Along R k (modify (·.updateFuncDesc d f)) :=
  calmly fun _ => .updateFuncDesc d f

theorem updateClassDef {f : ClassDef → ClassDef}
    (h : ∀ t, (f t).base = t.base ∧ (f t).subs = t.subs ∧ (f t).desc = t.desc) : Along R k (modify (·.updateClassDef c f)) :=
  calmly fun _ => .updateClassDef c h

instance updateAttribute (a : AttrId) (f : Attribute → Attribute) : Along R k (modify (·.updateAttribute a f)) :=
  calmly fun _ => .of_eq

/-! ## Class dictionaries -/

instance bindUnder (f : DescId) (c : ClassDefId) (name : String) : Along R k (.bindUnder f c name) := methodDesc _

instance bindCallables (a : Annot) (c : ClassDefId) (name : String) : Along R k (.bindCallables a c name) := by
  unfold Ana.bindCallables
  split <;> infer_instance

section

variable [KnotAlong R k]

instance classValue (d : DescId) (c : Option ClassDefId) (name : String) : Along R k (.classValue d c name) := by
  refine seq fun w => ?_
  dsimp only
  cases (w.classDesc d).dict.lookup name with
  | none => infer_instance
  | some entry =>
    cases entry <;> cases c <;> infer_instance

instance readClassAttr (d : DescId) (name : String) : Along R k (.readClassAttr d name) := by
  refine seq fun w => ?_
  split <;> infer_instance

instance addClassEntry (d : DescId) (name : String) (v : Datum) (fromMixin : Bool) : Along R k (.addClassEntry d name v fromMixin) := by
  have enter (e : ClassEntry) : Along R k (modify fun w => w.updateClassDesc d fun c => { c with dict := setDict c.dict name e }) :=
    updateClassDesc d fun _ => rfl
  refine seq fun h => ?_
  dsimp only
  split <;> infer_instance

/-! ## Attributes -/

instance addAttribute (a : Attribute) : Along R k (.addAttribute a) := calmlyGet fun _ => .of_eq

instance attrModified (a : AttrId) (c : ClassDefId) : Along R k (.attrModified a c) := bind

instance sourceValue (s : AttrSource) (c : ClassDefId) (name : String) : Along R k (.sourceValue s c name) := by
  unfold Ana.sourceValue
  cases s with
  | cls d => infer_instance
  | inst i =>
    refine seq fun h => ?_
    split <;> infer_instance

instance addConstantSource (a : AttrId) (c : ClassDefId) (s : AttrSource) : Along R k (.addConstantSource a c s) := by
  unfold Ana.addConstantSource
  cases s <;> infer_instance

set_option synthInstance.maxSize 1000 in
instance mergeAttribute (a other : AttrId) (c : ClassDefId) : Along R k (.mergeAttribute a other c) := bind

instance attrMutated (a : AttrId) (home : ClassDefId) : Along R k (.attrMutated a home) := by
  have enforce (w : World) : Along R k (match (w.classDesc (w.classDef home).desc).enforced with
      | some names =>
        if !names.contains (w.attr a).name then do
          modify (·.updateAttribute a fun k => { k with allowed := false })
          if !(w.attr a).readonly then
            .fail Code.noAttribute s!"the attribute {Quoted.quote (w.attr a).name} goes here to {w.className home}, but it is forbidden here"
        else Pure.pure ()
      | none => Pure.pure ()) := by
    split <;> infer_instance
  refine seq fun _ => seq fun _ => seq fun w => ?_
  dsimp only
  split
  · exact when
  · exact enforce w

instance feedAttribute (a : AttrId) (c home : ClassDefId) (s : AttrSource) : Along R k (.feedAttribute a c home s) := bind

instance addSource (c : ClassDefId) (name : String) (s : AttrSource) : Along R k (.addSource c name s) := by
  have sub (w : World) (d : ClassDefId) (u : PUnit) : Along R k (do
      match w.attrOf? d name with
      | some a => .feedAttribute a c d s
      | none => Pure.pure ()
      Pure.pure (ForInStep.yield u)) := by
    split <;> infer_instance
  have wait : Along R k (modify (·.updateClassDef c fun t =>
      { t with sources := setDict t.sources name ((t.sources.lookup name).getD [] ++ [s]) }) : Ana PUnit) :=
    updateClassDef c fun _ => ⟨rfl, rfl, rfl⟩
  refine seq fun w => ?_
  split <;> infer_instance

instance takeAttribute (c : ClassDefId) (name : String) : Along R k (.takeAttribute c name) := by
  have drop : Along R k (modify (·.updateClassDef c fun t =>
      { t with attrs := dropKey t.attrs name, sources := dropKey t.sources name }) : Ana PUnit) := updateClassDef c fun _ => ⟨rfl, rfl, rfl⟩
  unfold Ana.takeAttribute
  infer_instance

instance generalizeHere (c : ClassDefId) (name : String) (value : Option Annot) : Along R k (.generalizeHere c name value) := by
  have place (a : AttrId) : Along R k (modify (·.updateClassDef c fun t => { t with attrs := setDict t.attrs name a }) : Ana PUnit) :=
    updateClassDef c fun _ => ⟨rfl, rfl, rfl⟩
  refine seq fun w => seq fun taken => seq fun a => ?_
  refine bind (h := forIn (h := fun x _ => ?_)) (g := fun _ => seq fun _ => bind (h := forIn (h := fun x _ => ?_)))
  · obtain ⟨sub, old, ss⟩ := x
    cases old <;> infer_instance
  · obtain ⟨sub, old, ss⟩ := x
    infer_instance

instance generalizeAttr (c : ClassDefId) (name : String) (value : Option Annot) : Along R k (.generalizeAttr c name value) := bind

instance locateAttr (c : ClassDefId) (name : String) : Along R k (.locateAttr c name) := by
  refine seq fun w => ?_
  split <;> infer_instance

instance findAttr (c : ClassDefId) (name : String) : Along R k (.findAttr c name) := bind

/-! ## Reading and writing -/

instance readClassOf (c : ClassDefId) (pos : PosKey) : Along R k (.readClassOf c pos) := by
  have read : Along R k (modify (·.updateClassDef c fun t => { t with classReads := insertPos t.classReads pos }) : Ana PUnit) :=
    updateClassDef c fun _ => ⟨rfl, rfl, rfl⟩
  unfold Ana.readClassOf
  infer_instance

instance filterMethods (c : ClassDefId) (ds : List DescId) (nullable : Bool) (flags : List String) :
    Along R k (.filterMethods c ds nullable flags) := by
  refine seq fun w => ?_
  refine bind (h := forIn (h := fun d s => ?_)) (g := fun s => ?_)
  · obtain ⟨out, up⟩ := s
    cases w.desc d <;> cases up <;> infer_instance
  · obtain ⟨out, up⟩ := s
    cases up <;> infer_instance

instance fieldList (desc : DescId) (name : String) (l : ListDefId) : Along R k (.fieldList desc name l) := by
  have forbid (up : DescId) : Along R k (modify (·.updateClassDesc up fun t => { t with invalidAttrs := name :: t.invalidAttrs }) : Ana PUnit) :=
    updateClassDesc up fun _ => rfl
  refine seq fun w => ?_
  dsimp only
  refine when (g := fun _ => ?_)
  split
  · infer_instance
  · refine seq fun _ => seq fun _ => seq fun _ => seq fun copy => ?_
    infer_instance

instance getInstanceAttr (c : ClassDefId) (name : String) (flags : List String) (pos : PosKey) : Along R k (.getInstanceAttr c name flags pos) := by
  refine ite (g := seq fun a => seq fun _ => seq fun w => ?_)
  split <;> infer_instance

set_option synthInstance.maxSize 1000 in
instance setInstanceAttr (c : ClassDefId) (name : String) (v : Annot) : Along R k (.setInstanceAttr c name v) := by
  unfold Ana.setInstanceAttr
  cases v <;> infer_instance

/-! ## Describing -/

instance sortBases (c : ClassId) : Along R k (.sortBases c) := bind

instance addMixins (d : DescId) (c : ClassId) (mixins : List ClassId) (below : Option ClassId) : Along R k (.addMixins d c mixins below) := bind

instance enforcedAttrs (c : HostClass) (base : Option ClassDesc) : Along R k (.enforcedAttrs c base) := by
  unfold Ana.enforcedAttrs
  cases base with
  | none => infer_instance
  | some b =>
    dsimp only
    cases b.enforced <;> infer_instance

set_option synthInstance.maxSize 1000 in
instance fillDict (d : DescId) (c : ClassId) : Along R k (.fillDict d c) := bind

instance fillBase (d : DescId) (b : ClassId) : Along R k (.fillBase d b) := by
  have base (b : DescId) : Along R k (modify (·.updateClassDesc d fun t => { t with base := some b }) : Ana PUnit) := updateClassDesc d fun _ => rfl
  unfold Ana.fillBase
  infer_instance

instance fillClassDesc (d : DescId) (c : ClassId) : Along R k (.fillClassDesc d c) := by
  have fill (enforced : Option (List String)) (fields : List (String × Rank)) : Along R k (modify (·.updateClassDesc d fun t =>
      { t with enforced, immutableFields := fields }) : Ana PUnit) := updateClassDesc d fun _ => rfl
  unfold Ana.fillClassDesc
  infer_instance

set_option synthInstance.maxSize 1000 in
instance newClassDesc (c : ClassId) : Along R k (.newClassDesc c) := by
  have add (t : HostClass) :
      Along R k (.addDesc (.cls { cls := c, name := t.name, settled := t.settled, special := t.special, immutable := t.immutable })) := addDesc rfl
  have known (d : DescId) : Along R k (modify fun w => { w with descIndex := w.descIndex.insert (.cls c) d } : Ana PUnit) :=
    calmly fun _ => .of_eq
  have forgotten : Along R k (modify fun w => { w with descIndex := w.descIndex.erase (.cls c) } : Ana PUnit) :=
    calmly fun _ => .of_eq
  unfold Ana.newClassDesc
  infer_instance

instance frozenMethodDesc (f z : DescId) : Along R k (.frozenMethodDesc f z) := by
  have index (d : DescId) : Along R k (modify fun w => { w with frozenMethodIndex := w.frozenMethodIndex.insert (f, z) d } : Ana PUnit) :=
    calmly fun _ => .of_eq
  refine seq fun w => ?_
  split <;> infer_instance

instance register (v : Datum) (d : DescId) : Along R k (.register v d) := by
  have index : Along R k (modify fun w => { w with descIndex := w.descIndex.insert v d } : Ana PUnit) := calmly fun _ => .of_eq
  unfold Ana.register
  infer_instance

instance describe (v : Datum) : Along R k (.describe v) := by
  refine seq fun w => ?_
  split
  · infer_instance
  · refine seq fun h => ?_
    split
    case h_4 => split <;> infer_instance
    all_goals infer_instance

/-! ## Defining classes -/

instance uniqueClassDef (c : ClassId) : Along R k (.uniqueClassDef c) := bind

instance seeNewSubclass (c : ClassDefId) : Along R k (.seeNewSubclass c) := bind

instance atPosition (pos : Option PosKey) (m : Ana α) [h : Along R k m] : Along R k (.atPosition pos m) := by
  have move (pos : Option PosKey) : Along R k (modify fun w => { w with position := pos } : Ana PUnit) := calmly fun _ => .of_eq
  refine seq fun w => seq fun _ => seq fun r => seq fun _ => ?_
  cases r <;> infer_instance

instance emulateCall (key : EmulationKey) (a : Annot) (args : List Annot) : Along R k (.emulateCall key a args) := by
  unfold Ana.emulateCall
  split
  · refine bind (h := calmly fun _ => .of_eq)
  · infer_instance
  · infer_instance

instance baseDef (d : DescId) : Along R k (.baseDef d) := by
  refine seq fun w => ?_
  split <;> infer_instance

instance addSources (c : ClassDefId) (d : DescId) : Along R k (.addSources c d) := bind

set_option synthInstance.maxSize 1000 in
instance callFinalizer (c : ClassDefId) (d : DescId) : Along R k (.callFinalizer c d) := bind

/-! ## Prebuilt constants -/

set_option synthInstance.maxSize 1000 in
instance seeMutable (i : InstId) (c : ClassId) : Along R k (.seeMutable i c) := by
  have see : Along R k (modify fun w => { w with seenMutable := i :: w.seenMutable } : Ana PUnit) := calmly fun _ => .of_eq
  unfold Ana.seeMutable
  infer_instance

instance prebuiltClass (i : InstId) : Along R k (.prebuiltClass i) := bind

set_option synthInstance.maxSize 1000 in
instance constantList (v : Datum) (xs : List Datum) : Along R k (.constantList v xs) := by
  have cache (a : Annot) : Along R k (modify fun w => { w with immutableCache := w.immutableCache.insert v a } : Ana PUnit) :=
    calmly fun _ => .of_eq
  unfold Ana.constantList
  infer_instance

set_option synthInstance.maxSize 1000 in
instance constantDict (v : Datum) (xs ys : List Datum) : Along R k (.constantDict v xs ys) := by
  have cache (a : Annot) : Along R k (modify fun w => { w with immutableCache := w.immutableCache.insert v a } : Ana PUnit) :=
    calmly fun _ => .of_eq
  unfold Ana.constantDict
  infer_instance

instance constantBig (n : Int) : Along R k (.constantBig n) := ite

instance describedConstant (v : Datum) : Along R k (.describedConstant v) := bind

instance annotateConstant (v : Datum) : Along R k (.annotateConstant v) := by
  refine seq fun h => ?_
  cases v
  case tuple o =>
    dsimp only
    cases h.object o <;> infer_instance
  case list o =>
    refine seq fun w => ?_
    split
    · infer_instance
    · cases h.object o <;> infer_instance
  case dict o =>
    refine seq fun w => ?_
    split
    · infer_instance
    · cases h.object o <;> infer_instance
  case builtin o =>
    dsimp only
    cases h.object o <;> infer_instance
  case weakref o =>
    dsimp only
    split <;> infer_instance
  all_goals infer_instance

/-! ## Declared types -/

instance annotateSpec (s : TypeSpec) : Along R k (.annotateSpec s) := by
  induction s with
  | basic b z m =>
    unfold Ana.annotateSpec
    cases b <;> infer_instance
  | inst c m =>
    unfold Ana.annotateSpec
    infer_instance
  | list item ih =>
    unfold Ana.annotateSpec
    infer_instance
  | dict key item ih ih' =>
    unfold Ana.annotateSpec
    infer_instance

instance argMismatch (name : String) (i : Nat) (spec : TypeSpec) (a : Annot) : Along R k (.argMismatch name i spec a : Ana α) := bind

instance checkItem (name : String) (i : Nat) (spec : TypeSpec) (a : Annot) : Along R k (.checkItem name i spec a) := by
  refine seq fun expected => ?_
  cases expected with
  | none => infer_instance
  | some e =>
    dsimp only
    split <;> infer_instance

instance enforceArg (name : String) (i : Nat) (spec : TypeSpec) (a : Annot) : Along R k (.enforceArg name i spec a) := by
  unfold Ana.enforceArg
  split
  · infer_instance
  · split <;> infer_instance
  · split <;> infer_instance
  · refine seq fun expected => ?_
    cases expected <;> infer_instance

instance enforceArgs (name : String) (specs : List TypeSpec) (cells : List Annot) : Along R k (.enforceArgs name specs cells) := ite

end

end Along

namespace Along

variable {R : World → World → Prop} [CalmFrame R] {k : Knot} [KnotAlong R k]

/-! ## New classes -/

instance enterClass (d : DescId) (key : String) (base : Option ClassDefId) : Along R k (.enterClass d key base) := by
  have define (c : ClassDef) : Along R k (modify fun w => { w with classDefs := w.classDefs.push c } : Ana PUnit) :=
    ⟨fun w => CalmFrame.calm (.of_eq rfl rfl rfl rfl rfl)⟩
  have list (b : ClassDefId) (f : ClassDef → ClassDef) : Along R k (modify (·.updateClassDef b f) : Ana PUnit) :=
    ⟨fun w => CalmFrame.calm (.of_eq rfl rfl rfl rfl rfl)⟩
  have know (f : ClassDesc → ClassDesc) : Along R k (modify (·.updateClassDesc d f) : Ana PUnit) := ⟨fun w => CalmFrame.calm (.updateClassDesc d f)⟩
  unfold Ana.enterClass
  infer_instance

instance newClassDef (d : DescId) (key : String) : Along R k (.newClassDef d key) := bind

instance defineClass (d : DescId) (key : String) : Along R k (.defineClass d key) := by
  refine seq fun w => ?_
  split <;> infer_instance

end Along
end Ana
end FlowCompiler
