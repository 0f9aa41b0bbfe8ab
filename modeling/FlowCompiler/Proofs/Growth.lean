import FlowCompiler.Proofs.Keeps
import FlowCompiler.Trace.Execute

/-!
# Stores that grow

Executing an operation changes the contents of objects and makes new ones, but an object keeps its class, and
an array its length; the boxes of a frame keep their values, and loops and labels stay as they are.
`Store.Extends` says so of two stores, and `Extending` of everything that works on a store, whether it fails
or not.  Executing is followed once, for every property of steps that executing has `Inherited` from what
it is made of.
-/

namespace FlowCompiler.Trace

open Array

/-- What never changes of an object. -/
def Object.shape : Object → Object
  | .struct d c _ => .struct d c []
  | .array d items => .array d (Array.replicate items.size default)
  | .str _ u => .str [] u
  | o => o

/-- The loops and labels that a store knows of. -/
def Store.tokens (s : Store) : Array Cell × Array Target := (s.cells, s.targets)

variable (code : Opcode) {f : Frame → Frame} (v : Option Value) (descr : Option Descr)

namespace Store

variable {s : Store} {i : FrameId}

@[simp] theorem size_updateFrame (s : Store) (i : FrameId) (f : Frame → Frame) : (s.updateFrame i f).frames.size = s.frames.size := size_modify

theorem frame_updateFrame (hi : i < s.frames.size) : (s.updateFrame i f).frame i = f (s.frame i) := by
  simp only [Store.frame, Store.updateFrame, getElem?_modify, if_true, getElem?_eq_getElem hi]
  rfl

end Store

/-- A later store: objects keep their shape and frames the values of boxes. -/
structure Store.Extends (s s' : Store) : Prop where
  size : s.objects.size ≤ s'.objects.size
  shape : ∀ r < s.objects.size, (s'.object r).shape = (s.object r).shape
  frames : s'.frames.size = s.frames.size
  env : ∀ i, (s'.frame i).env = (s.frame i).env
  tokens : s'.tokens = s.tokens

namespace Store.Extends

variable (s : Store)

theorem refl : s.Extends s := ⟨Nat.le_refl _, fun _ _ => rfl, rfl, fun _ => rfl, rfl⟩

theorem trans {s t u : Store} (h : s.Extends t) (h' : t.Extends u) : s.Extends u where
  size := Nat.le_trans h.size h'.size
  shape r hr := (h'.shape r (Nat.lt_of_lt_of_le hr h.size)).trans (h.shape r hr)
  frames := h'.frames.trans h.frames
  env i := (h'.env i).trans (h.env i)
  tokens := h'.tokens.trans h.tokens

theorem of_eq {s s' : Store} (ho : s'.objects = s.objects) (hf : s'.frames = s.frames) (ht : s'.tokens = s.tokens) : s.Extends s' where
  size := Nat.le_of_eq (by rw [ho])
  shape r _ := by simp only [Store.object, ho]
  frames := by rw [hf]
  env i := by simp only [Store.frame, hf]
  tokens := ht

theorem push (o : Object) : s.Extends { s with objects := s.objects.push o } where
  size := by simp
  shape r hr := by simp [Store.object, getElem?_push, Nat.ne_of_lt hr]
  frames := rfl
  env _ := rfl
  tokens := rfl

theorem updateObject (r : Ref) {f : Object → Object} (hf : (f (s.object r)).shape = (s.object r).shape) : s.Extends (s.updateObject r f) where
  size := by simp [Store.updateObject]
  shape q hq := by
    simp only [Store.object, Store.updateObject, getElem?_modify] at hf ⊢
    split
    · rename_i e
      subst e
      simpa [hq] using hf
    · rfl
  frames := rfl
  env _ := rfl
  tokens := rfl

theorem updateFrame (i : FrameId) (hf : ∀ x, (f x).env = x.env) : s.Extends (s.updateFrame i f) where
  size := Nat.le_refl _
  shape _ _ := rfl
  frames := size_updateFrame s i f
  env j := by
    simp only [Store.frame, Store.updateFrame, getElem?_modify]
    split
    · cases s.frames[j]? <;> simp [hf]
    · rfl
  tokens := rfl

theorem classOf? {s s' : Store} (h : s.Extends s') {r c : Ref} (hc : s.classOf? r = some c) : s'.classOf? r = some c := by
  rcases Nat.lt_or_ge r s.objects.size with hr | hr
  · have hs := h.shape r hr
    simp only [Store.classOf?] at hc ⊢
    cases ho : s.object r <;> rw [ho] at hs hc <;> cases hc
    cases ho' : s'.object r <;> rw [ho'] at hs <;> cases hs
    rfl
  · rw [Store.classOf?, Store.object, getElem?_eq_none hr] at hc
    cases hc

end Store.Extends

/-! ## Properties of executing -/

/-- The same store with other frames. -/
def Store.withFrames (s : Store) (fs : Array Frame) : Store := { s with frames := fs }

/-- A property of the steps from a store on that executing inherits from what it is made of: steps one after another, reading what is not
of a frame, and changes that concern neither a frame nor a guard and extend the store. -/
structure Inherited (K : ∀ ε α : Type, Store → EStateM ε Store α → Prop) : Prop where
  pure {ε α : Type} (a : α) (s : Store) : K ε α s (Pure.pure a)
  throw {ε α : Type} (e : ε) (s : Store) : K ε α s (MonadExcept.throw e)
  bind {ε α β : Type} {m : EStateM ε Store α} {f : α → EStateM ε Store β} {s : Store} (hm : K ε α s m) (hf : ∀ a t, K ε β t (f a)) : K ε β s (m >>= f)
  get {ε β : Type} {f : Store → EStateM ε Store β} {s : Store} (hf : ∀ s fs, f (s.withFrames fs) = f s) (h : K ε β s (f s)) :
    K ε β s (MonadState.get >>= f)
  modifyGet {ε α : Type} {f : Store → α × Store} {s : Store} (hf : ∀ s fs, f (s.withFrames fs) = ((f s).1, (f s).2.withFrames fs))
    (hg : ∀ s, (f s).2.guards = s.guards) (he : s.Extends (f s).2) : K ε α s (MonadState.modifyGet f)
  onStore {α : Type} {m : StoreM α} {s : Store} (h : K Failure α s m) : K ExecError α s (Exec.onStore m)

namespace Inherited

variable {K : ∀ ε α : Type, Store → EStateM ε Store α → Prop} {ε α β γ : Type} {s : Store}

section

variable (hK : Inherited K)
include hK

/-! ### Objects -/

theorem updateObject (r : Ref) {f : Object → Object} (hf : (f (s.object r)).shape = (s.object r).shape) :
    K ε _ s (MonadState.modifyGet fun s => (PUnit.unit, s.updateObject r f)) :=
  hK.modifyGet (fun _ _ => rfl) (fun _ => rfl) (.updateObject s r hf)

theorem setField (r : Ref) (f : FieldId) (v : Value) : K ε _ s (MonadState.modifyGet fun s => (PUnit.unit, s.updateObject r fun
    | .struct d c fs => .struct d c (Store.setField fs f v)
    | o => o)) := by
  apply hK.updateObject
  cases s.object r <;> rfl

theorem setItem (r : Ref) (i : Nat) (v : Value) : K ε _ s (MonadState.modifyGet fun s => (PUnit.unit, s.updateObject r fun
    | .array d items => .array d (items.setIfInBounds i v)
    | o => o)) := by
  apply hK.updateObject
  cases s.object r <;> simp [Object.shape]

theorem newObject (o : Object) (s : Store) : K _ _ s (Store.newObject o) := hK.modifyGet (fun _ _ => rfl) (fun _ => rfl) (.push s o)

theorem newStruct (size : Option SizeId) (cls : Option Ref) (s : Store) : K _ _ s (Store.newStruct size cls) :=
  hK.get (fun _ _ => rfl) (hK.newObject _ s)

theorem newArray (d : ArrayId) (n : Nat) (s : Store) : K _ _ s (Store.newArray d n) := hK.get (fun _ _ => rfl) (hK.newObject _ s)

theorem intern (cs : List Int) (u : Bool) (s : Store) : K _ _ s (Store.intern cs u) := by
  refine hK.get (fun _ _ => rfl) ?_
  split
  · exact hK.pure _ _
  · exact hK.bind (hK.newObject _ _) fun _ _ =>
      hK.bind (hK.modifyGet (fun _ _ => rfl) (fun _ => rfl) (.of_eq rfl rfl rfl)) fun _ => hK.pure _

theorem apply (f : StringFunction) (args : List Value) (s : Store) : K _ _ s (f.apply args) := by
  refine hK.get (fun _ _ => rfl) ?_
  split
  · exact hK.bind (hK.intern _ _ _) fun _ => hK.pure _
  · exact hK.bind (hK.intern _ _ _) fun _ => hK.pure _
  · exact hK.pure _ _

end

/-! ### Rebuilding -/

variable (K) in
/-- The same property of reading resume data. -/
def Read (m : ReadM α) : Prop := ∀ rd s, K _ _ s (m.run rd)

variable {m : ReadM α} (hK : Inherited K)
include hK

theorem read_pure (a : α) : Read K (.pure a : ReadM α) := fun _ => hK.pure _

theorem read_throw (f : Failure) : Read K (MonadExcept.throw f : ReadM α) := fun _ => hK.throw _

theorem read_bind {f : α → ReadM β} (hm : Read K m) (hf : ∀ a, Read K (f a)) : Read K (m >>= f) :=
  fun rd s => hK.bind (hm rd s) fun p => hf p.1 p.2

theorem read_get {f : Reader → ReadM β} (h : ∀ rd, Read K (f rd)) : Read K (MonadState.get >>= f) :=
  hK.read_bind (fun _ => hK.pure _) h

theorem read_lift {m : StoreM α} (h : ∀ s, K _ _ s m) : Read K (liftM m) := fun _ s => hK.bind (h s) fun _ => hK.pure _

theorem read_store {f : Store → ReadM β} (hf : ∀ s fs, f (s.withFrames fs) = f s) (h : ∀ s, Read K (f s)) : Read K (Reader.store >>= f) :=
  fun rd s => hK.get (f := fun s => (f s).run rd) (fun s fs => by rw [hf]) (h s rd s)

theorem read_remember (i : Nat) (r : Ref) : Read K (Reader.remember i r) := fun _ => hK.pure _

theorem read_forM {xs : List γ} {f : γ → ReadM PUnit} (h : ∀ x, Read K (f x)) : Read K (xs.forM f) := by
  induction xs with
  | nil => exact hK.read_pure _
  | cons x xs ih => exact hK.read_bind (h x) fun _ => ih

theorem read_mapM {xs : List γ} {f : γ → ReadM β} (h : ∀ x, Read K (f x)) : Read K (xs.mapM f) := by
  induction xs with
  | nil => exact hK.read_pure _
  | cons x xs ih =>
    rw [List.mapM_cons]
    exact hK.read_bind (h x) fun _ => hK.read_bind ih fun _ => hK.read_pure _

theorem charsOf (v : Option Value) : Read K (Reader.charsOf v) := by
  refine hK.read_store (fun _ _ => rfl) fun s => ?_
  split
  · exact hK.read_pure _
  · exact hK.read_throw _

theorem numberOf (v : Option Value) : Read K (Reader.numberOf v) := hK.read_store (fun _ _ => rfl) fun _ => hK.read_pure _

section

variable {decode : Tagged → ReadM (Option Value)} (hd : ∀ x, Read K (decode x))
include hd

theorem readString (shape : Shape Tagged) : Read K (Reader.readString decode shape) := by
  unfold Reader.readString
  split
  · refine hK.read_mapM fun n => hK.read_bind (hd n) fun v => ?_
    split
    · exact hK.read_store (fun _ _ => rfl) fun _ => hK.read_pure _
    · exact hK.read_pure _
  · exact hK.read_bind (hK.read_mapM fun n => hK.read_bind (hd n) hK.charsOf) fun _ => hK.read_pure _
  · exact hK.read_bind (hd _) fun _ => hK.read_bind (hK.charsOf _) fun _ => hK.read_bind (hd _) fun _ => hK.read_bind (hK.numberOf _) fun _ =>
      hK.read_bind (hd _) fun _ => hK.read_bind (hK.numberOf _) fun _ => hK.read_pure _
  · exact hK.read_throw _

theorem readFields (r : Ref) (fs : List (FieldId × Tagged)) : Read K (Reader.readFields decode r fs) := by
  refine hK.read_forM fun p => hK.read_bind (hd p.2) fun v => ?_
  split
  · exact hK.read_pure _
  · exact hK.read_lift fun _ => hK.setField r _ _

theorem readItems (r : Ref) (ns : List (Tagged × Nat)) : Read K (Reader.readItems decode r ns) := by
  refine hK.read_forM fun p => hK.read_bind (hd p.1) fun v => ?_
  split
  · exact hK.read_pure _
  · exact hK.read_lift fun _ => hK.setItem r _ _

theorem allocate (i : Nat) : Read K (Reader.allocate decode i) := by
  refine hK.read_get fun rd => ?_
  dsimp only
  split
  · exact hK.read_bind (hK.read_lift (hK.newStruct _ _)) fun r => hK.read_bind (hK.read_remember i r) fun _ =>
      hK.read_bind (hK.readFields hd r _) fun _ => hK.read_pure _
  · exact hK.read_bind (hK.read_lift (hK.newArray _ _)) fun r => hK.read_bind (hK.read_remember i r) fun _ =>
      hK.read_bind (hK.readItems hd r _) fun _ => hK.read_pure _
  · exact hK.read_bind (hK.readString hd _) fun _ => hK.read_bind (hK.read_lift (hK.newObject _)) fun r =>
      hK.read_bind (hK.read_remember i r) fun _ => hK.read_pure _

theorem virtual (i : Nat) : Read K (Reader.virtual decode i) := by
  refine hK.read_get fun rd => ?_
  split
  · exact hK.read_pure _
  · exact hK.allocate hd i

end

theorem decode (n : Nat) (x : Tagged) : Read K (Reader.decode n x) := by
  induction n generalizing x with
  | zero => exact hK.read_throw _
  | succ n ih =>
    unfold Reader.decode
    split
    · exact hK.read_pure _
    · dsimp only
      split
      · exact hK.read_pure _
      · exact hK.read_get fun _ => hK.read_pure _
      · exact hK.read_get fun _ => hK.read_pure _
      · exact hK.read_bind (hK.virtual ih _) fun _ => hK.read_pure _

theorem forceAll (data : ResumeData) (live : List Value) (s : Store) : K _ _ s (data.forceAll live) := by
  have hall : Read K Reader.forceAll := hK.read_bind (hK.read_get fun _ => hK.read_pure _) fun d =>
    hK.read_get fun rd => hK.read_mapM fun i => hK.virtual (hK.decode d) i
  unfold ResumeData.forceAll
  split
  · exact hK.throw _ _
  · exact hK.bind (hall _ _) fun _ => hK.pure _

/-! ### Calls -/

variable (hforce : ∀ i s, K _ _ s (Exec.forceFrame i))
include hforce

theorem behave (b : Behaviour) (args : List Const) (s : Store) : K _ _ s (Exec.behave b args) := by
  unfold Exec.behave
  dsimp only
  split
  · exact hK.pure _ _
  · exact hK.pure _ _
  · exact hK.pure _ _
  · exact hK.pure _ _
  · exact hK.throw _ _
  · exact hK.throw _ _
  · split
    · exact hK.bind (hK.setField _ _ _) fun _ => hK.pure _
    · exact hK.pure _ _
  · split
    · refine hK.get (fun _ _ => rfl) ?_
      split
      · exact hK.bind (hK.onStore (hforce _ _)) fun _ => hK.pure _
      · exact hK.pure _ _
    · exact hK.pure _ _
  · exact hK.bind (hK.onStore (hK.apply _ _ _)) fun _ => hK.pure _

theorem callFunction (args : List Value) (s : Store) : K _ _ s (Exec.callFunction code args) := by
  refine hK.get (fun _ _ => rfl) ?_
  split
  · exact hK.throw _ _
  · split
    · exact hK.behave hforce _ _ _
    · exact hK.throw _ _

omit hforce

/-! ### Memory

A store writes an object back that was read from the same store, so the steps are judged from one store on. -/

section

variable {a : Exec.Args} {i : Nat}

theorem structAt {k : Ref × Option SizeId × Option Ref × List (FieldId × Value) → ExecM β}
    (h : ∀ r d c fs, a.store.object r = .struct d c fs → K _ _ s (k (r, d, c, fs))) : K _ _ s (Exec.structAt a i >>= k) := by
  unfold Exec.structAt Exec.Args.object?
  split
  · rename_i r d c fs e
    obtain ⟨r', -, e⟩ := Option.map_eq_some_iff.1 e
    obtain ⟨rfl, ho⟩ := Prod.mk.inj e
    exact h _ d c fs ho
  · exact hK.throw (α := β) _ s

theorem arrayAt {k : Ref × ArrayId × Array Value → ExecM β}
    (h : ∀ r d items, a.store.object r = .array d items → K _ _ s (k (r, d, items))) : K _ _ s (Exec.arrayAt a i >>= k) := by
  unfold Exec.arrayAt Exec.Args.object?
  split
  · rename_i r d items e
    obtain ⟨r', -, e⟩ := Option.map_eq_some_iff.1 e
    obtain ⟨rfl, ho⟩ := Prod.mk.inj e
    exact h _ d items ho
  · exact hK.throw (α := β) _ s

theorem stringAt {k : Ref × List Int × Bool → ExecM β}
    (h : ∀ r cs u, a.store.object r = .str cs u → K _ _ s (k (r, cs, u))) : K _ _ s (Exec.stringAt a i >>= k) := by
  unfold Exec.stringAt Exec.Args.object?
  split
  · rename_i r cs u e
    obtain ⟨r', -, e⟩ := Option.map_eq_some_iff.1 e
    obtain ⟨rfl, ho⟩ := Prod.mk.inj e
    exact h _ cs u ho
  · exact hK.throw (α := β) _ s

theorem indexIn {code : Opcode} {n : Int64} {len : Nat} {k : Nat → ExecM β} (h : ∀ j, K _ _ s (k j)) :
    K _ _ s (Exec.indexIn code n len >>= k) := by
  unfold Exec.indexIn
  split
  · exact hK.throw (α := β) _ s
  · exact h _

theorem setObject {r : Ref} {o : Object} {v : Option Value} (h : o.shape = (s.object r).shape) :
    K _ _ s (do Exec.setObject r o; Pure.pure v) := hK.bind (hK.updateObject r h) fun _ => hK.pure _

end

include hforce

theorem memory (values : List Value) (s : Store) : K _ _ s (Exec.memory code descr values) := by
  refine hK.get (fun _ _ => rfl) ?_
  dsimp only
  split
  iterate 4 exact hK.structAt fun _ _ _ _ _ => hK.pure _ s
  iterate 2 exact hK.structAt fun r d c fs e => hK.setObject (by rw [show s.object r = _ from e]; rfl)
  · exact hK.arrayAt fun _ _ _ _ => hK.pure _ s
  iterate 3 exact hK.arrayAt fun _ _ _ _ => hK.indexIn fun _ => hK.pure _ s
  iterate 2 exact hK.arrayAt fun r d items e => hK.indexIn fun _ => hK.setObject (by rw [show s.object r = _ from e]; simp [Object.shape])
  iterate 2 exact hK.stringAt fun _ _ _ _ => hK.pure _ s
  iterate 2 exact hK.stringAt fun _ _ _ _ => hK.indexIn fun _ => hK.pure _ s
  iterate 2 exact hK.stringAt fun r cs u e => hK.setObject (by rw [show s.object r = _ from e]; rfl)
  iterate 2 exact hK.stringAt fun _ _ _ _ => hK.stringAt fun r cs u e => hK.setObject (by rw [show s.object r = _ from e]; rfl)
  · exact hK.bind (hK.onStore (hK.newStruct _ _ s)) fun _ => hK.pure _
  · exact hK.bind (hK.onStore (hK.newStruct _ _ s)) fun _ => hK.pure _
  iterate 2 exact hK.bind (hK.onStore (hK.newArray _ _ s)) fun _ => hK.pure _
  iterate 2 exact hK.bind (hK.onStore (hK.newObject _ s)) fun _ => hK.pure _
  iterate 6 exact hK.callFunction _ hforce _ s
  · split
    · exact hK.pure _ s
    · exact hK.callFunction _ hforce _ s
  iterate 8 exact hK.pure _ s
  · exact hK.throw _ s

theorem execute (args : List Value) (s : Store) : K _ _ s (Trace.execute code descr args) := by
  refine hK.get (fun _ _ => rfl) ?_
  dsimp only
  split
  · exact hK.memory code descr hforce args s
  · exact hK.throw _ s
  · exact hK.pure _ s
  · exact hK.throw _ s

end Inherited

/-! ## Steps that extend a store -/

/-- A step leads to a later store, also when it fails. -/
def Extending {ε α : Type} (m : EStateM ε Store α) : Prop := ∀ s, (∀ a s', m s = .ok a s' → s.Extends s') ∧ ∀ e s', m s = .error e s' → s.Extends s'

namespace Extending

/-- A step leads from one store to a later one. -/
def From (s : Store) {ε α : Type} (m : EStateM ε Store α) : Prop := (∀ a s', m s = .ok a s' → s.Extends s') ∧ ∀ e s', m s = .error e s' → s.Extends s'

theorem inherited : Inherited fun _ _ s => From s where
  pure a s := by
    refine ⟨fun b s' e => ?_, fun b s' e => ?_⟩
    · cases e
      exact .refl s
    · cases e
  throw e s := by
    refine ⟨fun b s' h => ?_, fun b s' h => ?_⟩
    · cases h
    · cases h
      exact .refl s
  bind {ε α β m f s} hm hf := by
    change (∀ b s', EStateM.bind m f s = .ok b s' → s.Extends s') ∧ ∀ e s', EStateM.bind m f s = .error e s' → s.Extends s'
    unfold EStateM.bind
    split
    · rename_i a s' h
      have h' := hm.1 a s' h
      exact ⟨fun b s'' e => h'.trans ((hf a s').1 b s'' e), fun b s'' e => h'.trans ((hf a s').2 b s'' e)⟩
    · rename_i e' s' h
      refine ⟨fun b s'' h' => ?_, fun b s'' h' => ?_⟩
      · cases h'
      · cases h'
        exact hm.2 e' s' h
  get _ h := h
  modifyGet _ _ he := by
    refine ⟨fun b s' e => ?_, fun b s' e => ?_⟩
    · cases e
      exact he
    · cases e
  onStore {α m s} h := by
    unfold From Exec.onStore
    split
    · rename_i a s' e
      refine ⟨fun b t e' => ?_, fun b t e' => ?_⟩
      · cases e'
        exact h.1 _ _ e
      · cases e'
    · rename_i f s' e
      refine ⟨fun b t e' => ?_, fun b t e' => ?_⟩
      · cases e'
      · cases e'
        exact h.2 _ _ e

theorem newObject (o : Object) : Extending (Store.newObject o) := inherited.newObject o

theorem intern (cs : List Int) (u : Bool) : Extending (Store.intern cs u) := inherited.intern cs u

theorem of_get {ε β : Type} {f : Store → EStateM ε Store β} (h : ∀ s, From s (f s)) : Extending (get >>= f) := h

theorem updateFrame (i : FrameId) (hf : ∀ x, (f x).env = x.env) : Extending (ε := Failure) (modify fun s => s.updateFrame i f) := by
  refine fun s => ⟨fun a s' e => ?_, fun a s' e => ?_⟩
  · cases e
    exact .updateFrame s i hf
  · cases e

theorem keepVirtuals (g : GuardId) (frame : FrameId) : Extending (Exec.keepVirtuals g frame) := by
  refine of_get fun s => ?_
  have hkeep (objs : List Ref) : Extending (ε := Failure) (modify fun s => s.updateFrame frame fun f => { f with saved := some objs }) :=
    updateFrame frame fun _ => rfl
  split
  · exact hkeep _ s
  · exact inherited.bind (inherited.forceAll _ _ s) hkeep

theorem forceFrame (i : FrameId) : Extending (Exec.forceFrame i) := by
  intro s
  refine inherited.bind (updateFrame i (fun f => ?_) s) fun _ => of_get fun s => ?_
  · cases f.pendingGuard <;> rfl
  · split
    · refine of_get (fun t => ?_) s
      split
      · exact keepVirtuals _ _ t
      · exact inherited.pure _ t
    · exact inherited.pure _ s

theorem behave (b : Behaviour) (args : List Const) : Extending (Exec.behave b args) := inherited.behave forceFrame b args

theorem execute (args : List Value) : Extending (Trace.execute code descr args) := inherited.execute code descr forceFrame args

end Extending

/-! ## A frame that is forced -/

namespace Exec

variable {s : Store} {g : GuardId} {j : FrameId}

/-- What is done with the objects that were made for a frame. -/
def keepSaved (j : FrameId) (objs : List Ref) : StoreM Unit := modify fun s => s.updateFrame j fun f => { f with saved := some objs }

theorem keepVirtuals_eq : keepVirtuals g j s = (match (s.guard g).data with
    | none => pure [] >>= keepSaved j
    | some data => data.forceAll (liveValues (s.frame j) data) >>= keepSaved j) s := by
  rw [keepVirtuals]
  rfl

theorem keepVirtuals_blank (h : (s.guard g).data = none) : keepVirtuals g j s = .ok ⟨⟩ (s.updateFrame j fun f => { f with saved := some [] }) := by
  rw [keepVirtuals_eq, h]
  rfl

theorem keepVirtuals_data {data : ResumeData} (h : (s.guard g).data = some data) :
    keepVirtuals g j s = (data.forceAll (liveValues (s.frame j) data) >>= keepSaved j) s := by
  rw [keepVirtuals_eq, h]

/-- A frame is marked as forced, with what the guard behind the call saves. -/
def mark (f : Frame) : Frame :=
  match f.pendingGuard with
  | some g => { f with forced := true, descr := g.descr, values := resolveAll f (g.fail.getD []) }
  | none => { f with forced := true }

/-- A forced frame keeps its virtual objects. -/
def settle (j : FrameId) (s : Store) : EStateM.Result Failure Store Unit :=
  match (s.frame j).descr with
  | some (.guard g) => if (s.guard g).isForced then keepVirtuals g j s else .ok ⟨⟩ s
  | _ => .ok ⟨⟩ s

theorem forceFrame_eq : forceFrame j s = settle j (s.updateFrame j mark) := by
  change (match ((s.updateFrame j mark).frame j).descr with
    | some (.guard g) => (get >>= fun s : Store => if (s.guard g).isForced then keepVirtuals g j else pure ⟨⟩ : StoreM Unit)
    | _ => pure ⟨⟩) (s.updateFrame j mark) = _
  rw [settle]
  generalize s.updateFrame j mark = t
  rcases (t.frame j).descr with _ | d
  · rfl
  · cases d with
    | guard g =>
      change (if (t.guard g).isForced then keepVirtuals g j else pure ⟨⟩ : StoreM Unit) t = if (t.guard g).isForced then _ else _
      split <;> rfl
    | _ => rfl

end Exec
end FlowCompiler.Trace
