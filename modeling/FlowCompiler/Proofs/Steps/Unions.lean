import FlowCompiler.Analysis.Union

/-!
# Unions are idle

Unions, and what is made of lists, dictionaries and descriptions of methods, change no binding, no graph and no
family of calls.
-/

/-! ## What steps of the analysis may change

A step leads from a state to a later one, also when it fails.  What can be said of all steps is said by a relation
between states; it carries over from the parts of a step to the whole, so that it is enough to look at the places
where the state is changed.

Most changes are idle: they touch neither classes, graphs and bindings nor call sites, families of calls and low-level
objects, and descriptions and tags are only added. -/

namespace FlowCompiler

open List

/-- A later state of the analysis, with the same classes and attributes. -/
structure World.Later (w w' : World) : Prop where
  classDefs : w'.classDefs = w.classDefs
  attributes : w'.attributes = w.attributes
  descs : w.descs.toList <+: w'.descs.toList
  nextTag : w.nextTag ≤ w'.nextTag

namespace World.Later

theorem refl (w : World) : w.Later w := ⟨rfl, rfl, prefix_refl _, Nat.le_refl _⟩

theorem trans {w w' w'' : World} (h : w.Later w') (h' : w'.Later w'') : w.Later w'' :=
  ⟨h'.classDefs.trans h.classDefs, h'.attributes.trans h.attributes, h.descs.trans h'.descs, Nat.le_trans h.nextTag h'.nextTag⟩

theorem desc {w w' : World} (h : w.Later w') {d : DescId} {k : Desc} (hd : w.descs[d - 1]? = some k) : w'.desc d = k := by
  obtain ⟨rest, e⟩ := h.descs
  rw [← Array.getElem?_toList] at hd
  have hlt := (List.getElem?_eq_some_iff.1 hd).1
  rw [World.desc, ← Array.getElem?_toList, ← e, List.getElem?_append_left hlt, hd]
  rfl

end World.Later

/-- A later state in which no class has been described. -/
structure World.Still (w w' : World) : Prop extends w.Later w' where
  classDesc : ∀ d, w'.classDesc d = w.classDesc d
  descIndex : w'.descIndex = w.descIndex

namespace World.Still

theorem refl (w : World) : w.Still w := ⟨.refl w, fun _ => rfl, rfl⟩

theorem trans {w w' w'' : World} (h : w.Still w') (h' : w'.Still w'') : w.Still w'' :=
  ⟨h.toLater.trans h'.toLater, fun d => (h'.classDesc d).trans (h.classDesc d), h'.descIndex.trans h.descIndex⟩

theorem of_eq {w w' : World} (h₁ : w'.classDefs = w.classDefs) (h₂ : w'.attributes = w.attributes) (h₃ : w'.descs = w.descs)
    (h₄ : w'.nextTag = w.nextTag) (h₅ : w'.descIndex = w.descIndex) : w.Still w' :=
  ⟨⟨h₁, h₂, h₃ ▸ prefix_refl _, Nat.le_of_eq h₄.symm⟩, fun d => by rw [World.classDesc, World.classDesc, World.desc, World.desc, h₃], h₅⟩

theorem push (w : World) {k : Desc} (h : ∀ c, k ≠ .cls c) : w.Still { w with descs := w.descs.push k } := by
  refine ⟨⟨rfl, rfl, by simp, Nat.le_refl _⟩, fun d => ?_, rfl⟩
  rw [World.classDesc, World.classDesc, World.desc, World.desc, Array.getElem?_push]
  by_cases e : d - 1 = w.descs.size
  · rw [if_pos e, Array.getElem?_eq_none (Nat.le_of_eq e.symm)]
    cases k with
    | cls c => exact absurd rfl (h c)
    | _ => rfl
  · rw [if_neg e]

end World.Still

/-! ### Bindings -/

namespace World

/-- What a variable is known to hold. -/
def bound (w : World) (v : VarId) : Annot := (w.progress.bindings[v]?).getD .impossible

/-- The state in which a variable is bound to an annotation. -/
def bindTo (w : World) (v : VarId) (a : Annot) : World := w.updateProgress fun p => { p with bindings := p.bindings.insert v a }

theorem bound_bindTo (w : World) (v u : VarId) (a : Annot) : (w.bindTo v a).bound u = if v = u then a else w.bound u := by
  change ((w.progress.bindings.insert v a)[u]?).getD _ = _
  rw [Std.HashMap.getElem?_insert]
  by_cases h : v = u
  · simp [h]
  · simp [h, bound]

end World

/-! ### Idle steps -/

/-- What most steps of the analysis do not touch. -/
def World.core (w : World) := (w.prog.flow, w.prog.low, w.classDefs, w.attributes, w.descs, w.nextTag, w.descIndex, w.callPartition, w.callFamilies)

/-- A later state with the same graphs, bindings, call sites and families of calls.  Blocks may start to wait. -/
structure World.Idle (w w' : World) : Prop extends w.Still w' where
  flow : w'.prog.flow = w.prog.flow
  low : w'.prog.low = w.prog.low
  bindings : w'.progress.bindings = w.progress.bindings
  sites : w'.progress.sites = w.progress.sites
  annotated : ∀ {b : BlockId}, b ∈ w.progress.annotated → b ∈ w'.progress.annotated
  pending : ∀ {b : BlockId}, b ∈ w.progress.pending → b ∈ w'.progress.pending
  followed : ∀ {l : LinkId}, l ∈ w.progress.followed → l ∈ w'.progress.followed
  callPartition : w'.callPartition = w.callPartition
  callFamilies : w'.callFamilies = w.callFamilies

namespace World.Idle

variable {w w' w'' : World}

theorem refl (w : World) : w.Idle w := ⟨.refl w, rfl, rfl, rfl, rfl, id, id, id, rfl, rfl⟩

theorem trans (h : w.Idle w') (h' : w'.Idle w'') : w.Idle w'' where
  toStill := h.toStill.trans h'.toStill
  flow := h'.flow.trans h.flow
  low := h'.low.trans h.low
  bindings := h'.bindings.trans h.bindings
  sites := h'.sites.trans h.sites
  annotated hb := h'.annotated (h.annotated hb)
  pending hb := h'.pending (h.pending hb)
  followed hl := h'.followed (h.followed hl)
  callPartition := h'.callPartition.trans h.callPartition
  callFamilies := h'.callFamilies.trans h.callFamilies

theorem of_core (h : w'.core = w.core) (hp : w'.progress = w.progress) : w.Idle w' := by
  simp only [core, Prod.mk.injEq] at h
  obtain ⟨h₁, hl, h₂, h₃, h₄, h₅, h₆, h₇, h₈⟩ := h
  exact ⟨.of_eq h₂ h₃ h₄ h₅ h₆, h₁, hl, by rw [hp], by rw [hp], fun hb => by rwa [hp], fun hb => by rwa [hp], fun hl => by rwa [hp], h₇, h₈⟩

theorem updateProgress {f : Progress → Progress} (hb : ∀ p, (f p).bindings = p.bindings) (hs : ∀ p, (f p).sites = p.sites)
    (ha : ∀ {p : Progress} {b : BlockId}, b ∈ p.annotated → b ∈ (f p).annotated)
    (hp : ∀ {p : Progress} {b : BlockId}, b ∈ p.pending → b ∈ (f p).pending)
    (hl : ∀ {p : Progress} {l : LinkId}, l ∈ p.followed → l ∈ (f p).followed := by exact id) : w.Idle (w.updateProgress f) :=
  ⟨.of_eq rfl rfl rfl rfl rfl, rfl, rfl, hb _, hs _, ha, hp, hl, rfl, rfl⟩

theorem push (w : World) {t : Desc} (h : ∀ c, t ≠ .cls c) : w.Idle { w with descs := w.descs.push t } :=
  ⟨.push w h, rfl, rfl, rfl, rfl, id, id, id, rfl, rfl⟩

end World.Idle

namespace Ana

theorem of_bind_ok {α β : Type} {m : Ana α} {f : α → Ana β} {k : Knot} {w w'' : World} {b : β}
    (h : (m >>= f) k w = .ok b w'') : ∃ a w', m k w = .ok a w' ∧ f a k w' = .ok b w'' := by
  change EStateM.bind (m k) (fun a => f a k) w = _ at h
  unfold EStateM.bind at h
  split at h
  · exact ⟨_, _, ‹_›, h⟩
  · cases h

variable {w w' : World} {e : Failure}

theorem bind_of_ok {α β : Type} {m : Ana α} {f : α → Ana β} {k : Knot} {a : α} (h : m k w = .ok a w') : (m >>= f) k w = f a k w' := by
  change EStateM.bind (m k) (fun a => f a k) w = _
  rw [EStateM.bind, h]

theorem bind_of_error {α β : Type} {m : Ana α} {f : α → Ana β} {k : Knot} (h : m k w = .error e w') : (m >>= f) k w = .error e w' := by
  change EStateM.bind (m k) (fun a => f a k) w = _
  rw [EStateM.bind, h]

/-- What is not needed to handle a failure is not run. -/
theorem tryCatch_of_ok {α : Type} {m : Ana α} {f : Failure → Ana α} {k : Knot} {a : α} (h : m k w = .ok a w') : (tryCatch m f) k w = .ok a w' := by
  change EStateM.tryCatch (m k) (fun e => f e k) w = _
  unfold EStateM.tryCatch
  rw [h]

theorem tryCatch_of_error {α : Type} {m : Ana α} {f : Failure → Ana α} {k : Knot} (h : m k w = .error e w') : (tryCatch m f) k w = f e k w' := by
  change EStateM.tryCatch (m k) (fun e => f e k) w = _
  unfold EStateM.tryCatch
  rw [h]
  rfl

theorem forIn_yield {m : Type → Type} [Monad m] [LawfulMonad m] {γ : Type} {f : γ → m PUnit} {g : γ → PUnit → m (ForInStep PUnit)}
    (h : ∀ x u, g x u = (do f x; pure (.yield u))) (xs : List γ) : forIn xs PUnit.unit g = xs.forM f := by
  induction xs with
  | nil => rfl
  | cons x xs ih =>
    rw [forIn_cons, h, bind_assoc]
    exact bind_congr fun _ => (pure_bind ..).trans ih

theorem forIn_foldlM {β γ : Type} {f : β → γ → Ana β} {g : γ → β → Ana (ForInStep β)}
    (h : ∀ x b, g x b = (do pure (.yield (← f b x)))) (xs : List γ) (b : β) : forIn xs b g = xs.foldlM f b := by
  induction xs generalizing b with
  | nil => rfl
  | cons x xs ih =>
    rw [forIn_cons, h, foldlM_cons, bind_assoc]
    exact bind_congr fun b => (pure_bind ..).trans (ih b)

/-! ### Relations that steps keep to -/

/-- A relation between states that idle changes keep to. -/
class Frame (R : World → World → Prop) : Prop where
  trans : ∀ {w w' w'' : World}, R w w' → R w' w'' → R w w''
  idle : ∀ {w w' : World}, w.Idle w' → R w w'

theorem Frame.refl (R : World → World → Prop) [Frame R] (w : World) : R w w := Frame.idle (.refl w)

instance : Frame World.Idle := ⟨.trans, id⟩

instance : Frame World.Still := ⟨.trans, World.Idle.toStill⟩

/-- The state after a step, whether it succeeds or fails. -/
def after {α : Type} (m : Ana α) (k : Knot) (w : World) : World :=
  match m k w with
  | .ok _ w' => w'
  | .error _ w' => w'

/-- What holds after the second of two steps when the first succeeds, and after the first when it fails, holds after
both. -/
theorem after_bind {α β : Type} {m : Ana α} {f : α → Ana β} {k : Knot} {P : World → Prop}
    (hf : ∀ a w', m k w = .ok a w' → P ((f a).after k w')) (he : ∀ e w', m k w = .error e w' → P w') : P ((m >>= f).after k w) := by
  change P (match EStateM.bind (m k) (fun a => f a k) w with
    | .ok _ w' => w'
    | .error _ w' => w')
  unfold EStateM.bind
  cases h : m k w with
  | ok a w' => exact hf a w' h
  | error e w' => exact he e w' h

theorem after_get {α : Type} (f : World → Ana α) (k : Knot) (w : World) : (get >>= f).after k w = (f w).after k w := rfl

theorem after_bind_of_ok {α β : Type} {m : Ana α} {f : α → Ana β} {k : Knot} {a : α} (h : m k w = .ok a w') :
    (m >>= f).after k w = (f a).after k w' := by
  rw [after, after, bind_of_ok h]

theorem after_of_ok {α : Type} {m : Ana α} {k : Knot} {a : α} (h : m k w = .ok a w') : m.after k w = w' := by
  rw [after, h]

theorem after_of_error {α : Type} {m : Ana α} {k : Knot} {f : Failure} (h : m k w = .error f w') : m.after k w = w' := by
  rw [after, h]

/-- What a step returns when it succeeds. -/
def result? {α : Type} (m : Ana α) (k : Knot) (w : World) : Option α :=
  match m k w with
  | .ok a _ => some a
  | .error _ _ => none

theorem ok_of_result {α : Type} {m : Ana α} {k : Knot} {a : α} (h : m.result? k w = some a) : m k w = .ok a (m.after k w) := by
  unfold result? at h
  unfold after
  cases e : m k w with
  | ok b w' =>
    rw [e] at h
    exact congrArg (EStateM.Result.ok · w') (Option.some.inj h)
  | error f w' =>
    rw [e] at h
    cases h

/-- A step keeps to a relation. -/
class Along (R : World → World → Prop) (k : Knot) {α : Type} (m : Ana α) : Prop where
  to_after : ∀ w, R w (m.after k w)

theorem Along.of_ok {R : World → World → Prop} {k : Knot} {α : Type} (m : Ana α) [h : Along R k m] {a : α}
    (e : m k w = .ok a w') : R w w' := after_of_ok e ▸ h.to_after w

theorem Along.of_error {R : World → World → Prop} {k : Knot} {α : Type} (m : Ana α) [h : Along R k m] {f : Failure}
    (e : m k w = .error f w') : R w w' := after_of_error e ▸ h.to_after w

namespace Along

variable {R : World → World → Prop} [Frame R] {k : Knot} {α β γ : Type}

instance pure (a : α) : Along R k (Pure.pure a : Ana α) := ⟨Frame.refl R⟩

instance throw (f : Failure) : Along R k (MonadExcept.throw f : Ana α) := ⟨Frame.refl R⟩

instance get : Along R k (MonadState.get : Ana World) := ⟨Frame.refl R⟩

theorem modifyGet {f : World → α × World} (h : ∀ w : World, w.Idle (f w).2) : Along R k (MonadState.modifyGet f : Ana α) :=
  ⟨fun w => Frame.idle (h w)⟩

theorem idly {f : World → World} (h : ∀ w : World, w.Idle (f w)) : Along R k (modify f : Ana PUnit) := modifyGet h

instance bind {m : Ana α} {f : α → Ana β} [h : Along R k m] [g : ∀ a, Along R k (f a)] : Along R k (m >>= f) :=
  ⟨fun _ => after_bind (fun a w' e => Frame.trans (of_ok m e) ((g a).to_after w')) fun _ _ e => of_error m e⟩

theorem seq {m : Ana α} {f : α → Ana β} [Along R k m] (_ : ∀ a, Along R k (f a)) : Along R k (m >>= f) := bind

instance tryCatch {m : Ana α} {f : Failure → Ana α} [h : Along R k m] [g : ∀ e, Along R k (f e)] : Along R k (MonadExcept.tryCatch m f) := by
  refine ⟨fun w => ?_⟩
  have hw := h.to_after w
  unfold after at hw ⊢
  change R w (match EStateM.tryCatch (m k) (fun e => f e k) w with
    | .ok _ w' => w'
    | .error _ w' => w')
  unfold EStateM.tryCatch
  cases h : m k w with
  | ok a w' =>
    rw [h] at hw
    exact hw
  | error e w' =>
    rw [h] at hw
    exact Frame.trans hw ((g e).to_after w')

instance ite {c : Prop} [Decidable c] {m m' : Ana α} [h : Along R k m] [g : Along R k m'] : Along R k (if c then m else m') := by
  split
  · exact h
  · exact g

/-- A step that is only taken on a condition, and what follows in both cases. -/
instance (priority := 2000) when {c : Prop} [Decidable c] {m : Ana PUnit} {f : PUnit → Ana α} [h : Along R k m]
    [g : ∀ u, Along R k (f u)] : Along R k (if c then m >>= f else f ⟨⟩) := ite

instance foldlM {xs : List γ} {f : β → γ → Ana β} [h : ∀ b x, Along R k (f b x)] {b : β} : Along R k (xs.foldlM f b) := by
  induction xs generalizing b with
  | nil => exact pure _
  | cons x xs ih =>
    rw [foldlM_cons]
    exact bind

instance mapM {xs : List γ} {f : γ → Ana β} [h : ∀ x, Along R k (f x)] : Along R k (xs.mapM f) := by
  induction xs with
  | nil => exact pure _
  | cons x xs ih =>
    rw [mapM_cons]
    infer_instance

instance filterMapM {xs : List γ} {f : γ → Ana (Option β)} [h : ∀ x, Along R k (f x)] : Along R k (xs.filterMapM f) := by
  induction xs with
  | nil => exact pure _
  | cons x xs ih =>
    rw [filterMapM_cons]
    refine seq fun y => ?_
    cases y <;> infer_instance

instance forIn {xs : List γ} {f : γ → β → Ana (ForInStep β)} [h : ∀ x b, Along R k (f x b)] {b : β} : Along R k (ForIn.forIn xs b f) := by
  induction xs generalizing b with
  | nil => exact pure _
  | cons x xs ih =>
    rw [forIn_cons]
    refine seq fun s => ?_
    cases s with
    | done _ => exact pure _
    | yield _ => exact ih

theorem each {xs : List γ} {f : γ → Ana PUnit} (h : ∀ x ∈ xs, Along R k (f x)) : Along R k (xs.forM f) := by
  induction xs with
  | nil => exact pure _
  | cons x xs ih =>
    have hx := h x (by simp)
    have hxs := ih fun y hy => h y (by simp [hy])
    change Along R k (f x >>= fun _ => xs.forM f)
    infer_instance

instance forM {xs : List γ} {f : γ → Ana PUnit} [h : ∀ x, Along R k (f x)] : Along R k (xs.forM f) := each fun x _ => h x

instance optionForM {x : Option γ} {f : γ → Ana PUnit} [h : ∀ y, Along R k (f y)] : Along R k (x.forM f) := by
  cases x with
  | none => exact pure _
  | some y => exact h y

end Along
end Ana
end FlowCompiler

namespace FlowCompiler.Ana
namespace Along

variable {R : World → World → Prop} [Frame R] {k : Knot} {α : Type}

/-! ## Failures and readers -/

instance fail (code text : String) : Along R k (Ana.fail code text : Ana α) := throw _

instance text (a : Annot) : Along R k (Ana.text a) := bind

instance host : Along R k Ana.host := bind

instance positionOrZero : Along R k Ana.positionOrZero := bind

instance schedule (g : GraphId) (b : BlockId) : Along R k (Ana.schedule g b) := by
  refine idly fun w => .updateProgress (fun p => ?_) (fun p => ?_) (fun {p c} hc => ?_) (fun {p c} hc => ?_) fun {p l} hl => ?_
  · split <;> rfl
  · split <;> rfl
  · split <;> exact hc
  · split
    · exact hc
    · simp [hc]
  · split <;> exact hl

instance reflow (pos : PosKey) : Along R k (Ana.reflow pos) := by
  have met (b : BlockId) : Along R k (modify fun w => w.updateProgress fun p => { p with annotated := p.annotated.insert b none } : Ana PUnit) :=
    idly fun w => .updateProgress (fun _ => rfl) (fun _ => rfl) (fun hc => by simp [hc]) id
  unfold Ana.reflow
  split <;> infer_instance

instance reflowAll (ps : Array PosKey) : Along R k (Ana.reflowAll ps) := by
  unfold Ana.reflowAll Array.forM
  rw [← Array.foldlM_toList]
  infer_instance

/-! ## Items -/

instance setItem (i : ItemId) (f : ListItem → ListItem) : Along R k (Ana.setItem i f) := idly fun _ => .of_core rfl rfl

instance setStep (i : ItemId) (step : Int) : Along R k (Ana.setStep i step) := by
  unfold Ana.setStep tooLate
  infer_instance

instance patchHolders (i : ItemId) : Along R k (Ana.patchHolders i) := by
  refine idly fun w => ?_
  generalize (w.item i).holders = hs
  induction hs generalizing w with
  | nil => exact .refl w
  | cons h hs ih =>
    rw [List.foldl_cons]
    refine .trans ?_ (ih _)
    cases h <;> exact .of_core rfl rfl

instance growItem (i : ItemId) (a : Annot) : Along R k (Ana.growItem i a) := bind

instance mergeFlags (i j : ItemId) : Along R k (Ana.mergeFlags i j) := by
  unfold Ana.mergeFlags changeUnallowed
  infer_instance

section

variable {u : Annot → Annot → Ana Annot} [∀ a b, Along R k (u a b)]

instance mergeItems (i j : ItemId) : Along R k (Ana.mergeItems u i j) := by
  unfold Ana.mergeItems tooLate
  refine ite (h := seq fun w => ?_)
  generalize (if (w.item j).frozen = true then (j, i) else (i, j)) = roles
  obtain ⟨self, other⟩ := roles
  refine when (g := fun _ => seq fun _ => seq fun _ => seq fun _ => seq fun _ => seq fun _ => ?_)
  refine seq fun _ => seq fun _ => when (g := fun _ => seq fun _ => when (g := fun _ => ?_))
  infer_instance

instance mergeDicts (depth : Nat) (d e : DictDefId) : Along R k (Ana.mergeDicts depth u d e) := bind

instance mergeFacts (fs gs : List (Fact Annot)) : Along R k (Ana.mergeFacts u fs gs) := by
  refine bind (h := mapM (h := fun f => ?_))
  split <;> infer_instance

end

/-! ## Descriptions and constants -/

instance orderDesc (d : DescId) : Along R k (Ana.orderDesc d) := idly fun _ => .of_core rfl rfl

instance methodDesc (m : MethodDesc) : Along R k (Ana.methodDesc m) := by
  have add : Along R k (Ana.addDesc (.method m)) := modifyGet fun w => .push w nofun
  have index (d : DescId) : Along R k (modify fun w => { w with methodIndex := w.methodIndex.insert m d } : Ana PUnit) :=
    idly fun _ => .of_core rfl rfl
  refine seq fun w => ?_
  split <;> infer_instance

instance simplifyMethods (ds : List DescId) : Along R k (Ana.simplifyMethods ds) := bind

instance newPbc (ds : List DescId) (b : Bool) : Along R k (Ana.newPbc ds b) := by
  unfold Ana.newPbc
  dsimp only
  split
  · refine seq fun w => ?_
    split <;> infer_instance
  · infer_instance

instance freshTag : Along R k Ana.freshTag :=
  modifyGet fun _ => ⟨⟨⟨rfl, rfl, List.prefix_refl _, Nat.le_succ _⟩, fun _ => rfl, rfl⟩, rfl, rfl, rfl, rfl, id, id, id, rfl, rfl⟩

instance addObject (o : HostObject) : Along R k (Ana.addObject o) := modifyGet fun _ => .of_core rfl rfl

instance valueOfDesc (d : DescId) : Along R k (Ana.valueOfDesc d) := by
  refine seq fun w => ?_
  split
  case h_5 => split <;> infer_instance
  all_goals infer_instance

instance constOf (a : Annot) : Along R k (Ana.constOf a) := by
  unfold Ana.constOf
  split <;> infer_instance

instance newTuple (xs : List Annot) : Along R k (Ana.newTuple xs) := bind

instance constFloat (d : Double) : Along R k (Ana.constFloat d) := ite

instance typeOf (c : Option Datum) (vs : List VarId) : Along R k (Ana.typeOf c vs) := ite

/-! ## Unions -/

instance unionAux (fuel : Nat) (effects : Bool) (a b : Annot) : Along R k (Ana.unionAux fuel effects a b) := by
  induction fuel generalizing effects a b with
  | zero => exact throw _
  | succ n ih =>
    unfold Ana.unionAux
    split <;> infer_instance

instance union (a b : Annot) : Along R k (Ana.union a b) := unionAux ..

instance unionOf (as : List Annot) : Along R k (Ana.unionOf as) := foldlM

instance contains (a b : Annot) : Along R k (Ana.contains a b) := by
  have go : Along R k (Ana.contains.go a b) := by
    unfold Ana.contains.go
    infer_instance
  unfold Ana.contains
  split
  · infer_instance
  · split <;> infer_instance

instance improveChecked (a b : Annot) : Along R k (Ana.improveChecked a b) := by
  unfold Ana.improveChecked
  split
  · unfold improveInstances
    refine seq fun w => ?_
    dsimp only
    split <;> infer_instance
  · infer_instance
  · infer_instance

instance improve (a b : Annot) : Along R k (Ana.improve a b) := inferInstanceAs (Along R k (MonadExcept.tryCatch _ _))

instance addFact (fs : List (Fact Annot)) (outcome : Bool) (v : VarId) (a : Annot) : Along R k (Ana.addFact fs outcome v a) := by
  unfold Ana.addFact
  split <;> infer_instance

/-! ## Definitions -/

instance addItem (it : ListItem) : Along R k (Ana.addItem it) := modifyGet fun _ => .of_core rfl rfl

instance newListDef (a : Annot) (mutated resized : Bool) : Along R k (Ana.newListDef a mutated resized) := by
  have define (i : ItemId) : Along R k (modify fun w => { w with listDefs := w.listDefs.push i } : Ana PUnit) := idly fun _ => .of_core rfl rfl
  unfold Ana.newListDef
  infer_instance

instance newDictDef (a b : Annot) : Along R k (Ana.newDictDef a b) := by
  have define (d : DictDef) : Along R k (modify fun w => { w with dictDefs := w.dictDefs.push d } : Ana PUnit) := idly fun _ => .of_core rfl rfl
  unfold Ana.newDictDef
  infer_instance

instance listItemOf (d : ListDefId) : Along R k (Ana.listItemOf d) := bind

instance keyItemOf (d : DictDefId) : Along R k (Ana.keyItemOf d) := bind

instance valueItemOf (d : DictDefId) : Along R k (Ana.valueItemOf d) := bind

instance generalizeItem (i : ItemId) (a : Annot) : Along R k (Ana.generalizeItem i a) := by
  unfold Ana.generalizeItem tooLate
  infer_instance

instance generalizeList (d : ListDefId) (a : Annot) : Along R k (Ana.generalizeList d a) := bind

instance generalizeKey (d : DictDefId) (a : Annot) : Along R k (Ana.generalizeKey d a) := bind

instance generalizeValue (d : DictDefId) (a : Annot) : Along R k (Ana.generalizeValue d a) := bind

instance readItem (i : ItemId) (pos : PosKey) : Along R k (Ana.readItem i pos) := bind

instance readList (d : ListDefId) (pos : PosKey) : Along R k (Ana.readList d pos) := bind

instance readKey (d : DictDefId) (pos : PosKey) : Along R k (Ana.readKey d pos) := bind

instance readValue (d : DictDefId) (pos : PosKey) : Along R k (Ana.readValue d pos) := bind

instance mutateItem (i : ItemId) : Along R k (Ana.mutateItem i) := by
  unfold Ana.mutateItem tooLate
  infer_instance

instance mutateList (d : ListDefId) : Along R k (Ana.mutateList d) := bind

instance resizeList (d : ListDefId) : Along R k (Ana.resizeList d) := by
  unfold Ana.resizeList tooLate changeUnallowed
  infer_instance

instance generalizeStep (d : ListDefId) (step : Int) : Along R k (Ana.generalizeStep d step) := bind

instance neverResize (d : ListDefId) : Along R k (Ana.neverResize d) := by
  unfold Ana.neverResize changeUnallowed
  infer_instance

instance markImmutable (d : ListDefId) : Along R k (Ana.markImmutable d) := by
  unfold Ana.markImmutable changeUnallowed
  infer_instance

instance unionDicts (d e : DictDefId) : Along R k (Ana.unionDicts d e) := mergeDicts ..

end Along

/-! ## What unions leave as they are

Merging lists and dictionaries changes their items, has readers analysed again and may make descriptions of
methods.  It does not touch classes and their attributes, and descriptions and tags are only added.
-/

/-- A step leads to a later state, also when it fails. -/
structure Keeps {α : Type} (m : Ana α) : Prop where
  still : ∀ k w, (∀ a w', m k w = .ok a w' → w.Still w') ∧ ∀ f w', m k w = .error f w' → w.Still w'

namespace Keeps

variable {α β γ : Type}

theorem along {m : Ana α} (h : Keeps m) (k : Knot) : Along World.Still k m := by
  refine ⟨fun w => ?_⟩
  unfold after
  split
  · exact (h.still k w).1 _ _ ‹_›
  · exact (h.still k w).2 _ _ ‹_›

theorem idle {m : Ana α} [h : ∀ k, Along World.Still k m] : Keeps m := by
  refine ⟨fun k w => ?_⟩
  have hw := (h k).to_after w
  unfold after at hw
  constructor <;> intro a w' e
  · rwa [e] at hw
  · rwa [e] at hw

theorem later {m : Ana α} (h : Keeps m) {k : Knot} {w w' : World} {a : α} (e : m k w = .ok a w') : w.Later w' := ((h.still k w).1 a w' e).toLater

theorem pure (a : α) : Keeps (Pure.pure a : Ana α) := idle

theorem bind {m : Ana α} {f : α → Ana β} (hm : Keeps m) (hf : ∀ a, Keeps (f a)) : Keeps (m >>= f) := by
  have hm := hm.along
  have hf (k : Knot) (a : α) := (hf a).along k
  exact idle

theorem mapM {xs : List γ} {f : γ → Ana β} (h : ∀ x ∈ xs, Keeps (f x)) : Keeps (xs.mapM f) := by
  induction xs with
  | nil => exact pure _
  | cons x xs ih =>
    rw [List.mapM_cons]
    exact bind (h x (by simp)) fun _ => bind (ih fun y hy => h y (by simp [hy])) fun _ => pure _

/-! ### Unions -/

theorem addObject (o : HostObject) : Keeps (Ana.addObject o) := idle

theorem constOf (a : Annot) : Keeps (Ana.constOf a) := idle

theorem unionAux (fuel : Nat) (effects : Bool) (a b : Annot) : Keeps (Ana.unionAux fuel effects a b) := idle

theorem union (a b : Annot) : Keeps (Ana.union a b) := idle

end Keeps
end FlowCompiler.Ana
