import FlowCompiler.Proofs.Resume.Forcing
import FlowCompiler.Proofs.Tokens.Passes

/-!
# Parts of loops that are not attached

A part of a loop is optimized together with what was traced behind its label, entered in the tables of its loop, and sent to the engine.
When the optimizer refuses the trace, loops and labels are as they were (`Untouched`), whatever the optimizer tried.  When the engine
refuses the code, the loop has the label of the part and counts it all the same (`HalfDone`), and a jump to the loop that had one label to
go to has two of them now.
-/

namespace FlowCompiler.Trace

open Array

variable {ε σ V α β γ : Type}

/-! ## What is seen of a session -/

/-- The code that can be entered. -/
def CodeCache.entered (c : CodeCache) := (c.units, c.loops, c.bridges, c.labels)

def Engine.visible (e : Engine) := (e.store.tokens, e.code.entered)

/-- What later compilations see of a session: the loops and labels, the code, and the entries of loops. -/
def Session.visible (s : Session) := (s.engine.visible, s.entries)

/-- That, and when the loops were used. -/
def Session.kept (s : Session) := (s.visible, s.ages)

variable {seen : Session → γ} {inputs : List Box} {l : Loop} {ops : List Op}

namespace Keeps

instance visible {m : SessionM α} [h : Keeps Session.kept m] : Keeps Session.visible m := ⟨fun s => congrArg Prod.fst (h.kept s)⟩

/-! ### The engine -/

instance pinnedLoad (array : Ref) (d : ArrayId) (i : Nat) : Keeps Store.tokens (PinnedCode.load array d i) := bind

instance pinnedExpand (p : PointerPlan) (array : Ref) (d : ArrayId) (op : Op) : Keeps Store.tokens (PinnedCode.expand p array d op) := by
  refine bind (h := mapM (h := fun v => ?_))
  split <;> infer_instance

instance pinnedMake (g : Generations) (ops : List Op) : Keeps Store.tokens (PinnedCode.make g ops) := by
  have newArray : Keeps Store.tokens (ε := Failure) (modifyGet fun s : Store =>
      (s.arrays.size, { s with arrays := s.arrays.push { name := "MovableObjects", item := .ref } })) := .besideGet fun _ => rfl
  have newObject (o : Object) : Keeps Store.tokens (Store.newObject o) := (Extending.newObject o).keeps
  unfold PinnedCode.make
  infer_instance

/-- What is seen of an engine whose store changes depends on what is seen of the store. -/
theorem engineStore {view : Store → V} {seen : Engine → γ} (h : ∀ e s, view s = view e.store → seen { e with store := s } = seen e)
    {m : StoreM α} [k : Keeps view m] : Keeps seen (Engine.onStore m) := by
  refine ⟨fun e => ?_⟩
  have kept := k.kept e.store
  unfold after at kept
  unfold after Engine.onStore EStateM.run
  cases run : m e.store <;> rw [run] at kept <;> exact h e _ kept

instance engineOnStore {m : StoreM α} [Keeps Store.tokens m] : Keeps Engine.visible (Engine.onStore m) :=
  engineStore fun e _ kept => congrArg (·, e.code.entered) kept

instance assemble (name : String) (inputs : List Box) (ops : List Op) : Keeps Engine.visible (Engine.assemble name inputs ops) := by
  have generations (g : Generations) : Keeps Engine.visible (ε := Failure) (modify fun e : Engine =>
      { e with code := { e.code with generations := g } }) := .beside fun _ => rfl
  refine seq fun e => seq fun p => seq fun _ => seq fun e => ?_
  split <;> infer_instance

/-! ### Sessions -/

theorem sessionEngine {view : Engine → V} (h : ∀ s e, view e = view s.engine → seen { s with engine := e } = seen s)
    {m : EngineM α} [k : Keeps view m] : Keeps seen (Session.onEngine m) := by
  refine ⟨fun s => ?_⟩
  have kept := k.kept s.engine
  unfold after at kept
  unfold after Session.onEngine EStateM.run
  dsimp only
  cases run : m s.engine <;> rw [run] at kept <;> exact h s _ kept

instance sessionOnEngine {m : EngineM α} [Keeps Engine.visible m] : Keeps Session.kept (Session.onEngine m) :=
  sessionEngine fun s _ kept => congrArg (fun v => ((v, s.entries), s.ages)) kept

instance sessionOnStore {m : StoreM α} [Keeps Store.tokens m] : Keeps Session.kept (Session.onStore m) :=
  inferInstanceAs (Keeps Session.kept (Session.onEngine _))

instance assignGuards (ops : List Op) : Keeps Session.kept (Session.assignGuards ops) := by
  unfold Session.assignGuards
  infer_instance

instance sessionOptimize (ops : List Op) : Keeps Session.kept (Session.optimize ops) := by
  refine ⟨fun s => ?_⟩
  have seen {o : OptimizeState} (h : o.store.tokens = s.engine.store.tokens) :
      ({ s with engine := { s.engine with store := o.store } } : Session).kept = s.kept :=
    congrArg (fun tokens => (((tokens, s.engine.code.entered), s.entries), s.ages)) h
  have whole : Session.optimize ops s = match Trace.optimize s.engine.store s.settings s.table ops with
      | .ok _ o => .ok (o.ops, o.watches) { s with engine := { s.engine with store := o.store } }
      | .error f o => .error f { s with engine := { s.engine with store := o.store } } := by
    change (match Trace.optimize s.engine.store s.settings s.table ops with
      | .ok () o => _
      | .error f o => _ : SessionM (List Op × List Nat)) s = _
    cases Trace.optimize s.engine.store s.settings s.table ops <;> rfl
  cases run : Trace.optimize s.engine.store s.settings s.table ops with
  | ok u o =>
    rw [run] at whole
    exact after_of_ok whole ▸ seen (of_ok OptimizeState.tokens (OptimizeM.propagate _ ops) run)
  | error f o =>
    rw [run] at whole
    exact after_of_error whole ▸ seen (of_error OptimizeState.tokens (OptimizeM.propagate _ ops) run)

instance closePart (label : Op) (body : List Op) (jumpArgs : List Value) (cell : CellId) :
    Keeps Session.kept (Session.closePart label body jumpArgs cell) := by
  unfold Session.closePart Session.store
  refine tryCatch (g := fun f => seq fun s => ?_)
  split <;> infer_instance

theorem unlessSeen (h : ∀ s n, seen { s with summary := { s.summary with aborted := n } } = seen s) {m : SessionM α}
    [Keeps seen m] : Keeps seen (Session.unlessInvalid m) := by
  have aborted : Keeps seen (ε := Failure) (modify fun s : Session =>
      { s with summary := { s.summary with aborted := s.summary.aborted + 1 } }) := .beside fun s => h s _
  unfold Session.unlessInvalid
  infer_instance

instance unlessInvalid {m : SessionM α} [Keeps Session.kept m] : Keeps Session.kept (Session.unlessInvalid m) := unlessSeen fun _ _ => rfl

/-! ### Sending units -/

instance prepareGuard (token : Option CellId) (op : Op) : Keeps Session.kept (Session.prepareGuard token op) := by
  have counted (c : Counter) : Keeps Session.kept (ε := Failure) (modify fun s : Session => { s with counter := c }) := .beside fun _ => rfl
  have noted (g : GuardId) (f : GuardDescr → GuardDescr) : Keeps Store.tokens (ε := Failure) (modify fun s : Store => s.updateGuard g f) :=
    .beside fun _ => rfl
  unfold Session.prepareGuard
  split <;> infer_instance

end Keeps

/-! ## Steps of the engine that are refused -/

theorem Engine.compileBridge_error {guard : Descr} {cell : Option CellId} {e e' : Engine} {f : Failure}
    (h : compileBridge guard inputs ops cell e = .error f e') : e'.visible = e.visible := by
  obtain ⟨_, _, e₁, h⟩ := Sure.of_bind_error h
  cases e₁
  rcases of_bind_error h with h | ⟨⟨u, a⟩, e₁, ha, h⟩
  · exact Keeps.of_error visible (assemble _ _ _) h
  · obtain ⟨_, _, e₂, h⟩ := Sure.of_bind_error h
    cases e₂
    refine Eq.trans ?_ (Keeps.of_ok visible (assemble _ _ _) ha)
    split at h
    · cases h
      rfl
    · cases h

theorem Engine.compileLoop_error {cell : CellId} {e e' : Engine} {f : Failure}
    (h : compileLoop inputs ops cell e = .error f e') : e'.visible = e.visible := by
  obtain ⟨_, _, e₁, h⟩ := Sure.of_bind_error h
  cases e₁
  exact Keeps.of_error visible (assemble _ _ _) (Sure.error_of_bind h)

namespace Session

variable {s s' : Session} {f : Failure}

instance sureOnStore {m : StoreM α} [h : Sure m] : Sure (onStore m) := by
  refine ⟨fun s => ?_⟩
  obtain ⟨a, t, e⟩ := h.ok s.engine.store
  exact ⟨a, _, onStore_ok e⟩

instance sureNewCell : Sure Store.newCell := inferInstanceAs (Sure (modifyGet _))

instance sureStore : Sure store := .bind

instance surePrepareGuard (token : Option CellId) (op : Op) : Sure (prepareGuard token op) := by
  unfold prepareGuard
  split <;> infer_instance

instance sureAddUnit (number : Int) (kind : UnitKind) (l : Loop) (a : Assembly) : Sure (addUnit number kind l a) := inferInstanceAs (Sure (modify _))

instance sureWatchFields (cell : CellId) (watches : List Nat) : Sure (watchFields cell watches) := inferInstanceAs (Sure (onStore _))

theorem compiling_error {unit : String} {m : EngineM α} (h : compiling unit m s = .error f s') :
    ∃ e t, m s.engine = .error e t ∧ f = .backend unit e ∧ s' = { s with engine := t } := by
  change EStateM.tryCatch (onEngine m) (fun f => throw (.backend unit f)) s = _ at h
  unfold EStateM.tryCatch onEngine EStateM.run at h
  dsimp only at h
  cases run : m s.engine with
  | ok a t =>
    rw [run] at h
    cases h
  | error e t =>
    rw [run] at h
    cases h
    exact ⟨e, t, rfl, rfl, rfl⟩

/-- The engine takes a bridge, or leaves the session as it was. -/
theorem sendBridge_error {g : GuardId} (h : sendBridge g l s = .error f s') : (∃ unit e, f = .backend unit e) ∧ s'.visible = s.visible := by
  obtain ⟨_, _, e, h⟩ := Sure.of_bind_error h
  cases e
  obtain ⟨_, s₁, prepared, h⟩ := Sure.of_bind_error h
  obtain ⟨_, _, e, h⟩ := Sure.of_bind_error h
  cases e
  have h := Sure.error_of_bind (h := fun a => by split <;> infer_instance) h
  obtain ⟨e, t, refused, rfl, rfl⟩ := compiling_error h
  refine ⟨⟨_, _, rfl⟩, ?_⟩
  have := Keeps.of_ok visible (l.ops.forM (prepareGuard _)) prepared
  exact (congrArg (·, s₁.entries) (Engine.compileBridge_error refused)).trans this

theorem visible_eq_iff : s'.visible = s.visible ↔ s'.engine.store.cells = s.engine.store.cells ∧
    s'.engine.store.targets = s.engine.store.targets ∧ s'.engine.code.entered = s.engine.code.entered ∧ s'.entries = s.entries := by
  simp only [visible, Engine.visible, Store.tokens, Prod.mk.injEq, and_assoc]

/-- What a unit that the engine refuses leaves behind: at most a loop that nobody enters. -/
structure Refused (s s' : Session) : Prop where
  code : s'.engine.code.entered = s.engine.code.entered
  entries : s'.entries = s.entries
  targets : s'.engine.store.targets = s.engine.store.targets
  cells : ∃ more, s'.engine.store.cells = s.engine.store.cells ++ more

theorem Refused.of_visible (h : s'.visible = s.visible) : Refused s s' := by
  obtain ⟨cells, targets, code, entries⟩ := visible_eq_iff.1 h
  exact ⟨code, entries, targets, #[], by rw [cells, append_empty]⟩

theorem sendLoop_error {kind : UnitKind} {cell : CellId} (h : sendLoop l kind cell s = .error f s') :
    (∃ unit e, f = .backend unit e) ∧ ∃ number, s'.visible = ({ s with engine := { s.engine with
      store := s.engine.store.updateCell cell fun k => { k with number } } } : Session).visible := by
  obtain ⟨_, _, e, h⟩ := Sure.of_bind_error h
  cases e
  obtain ⟨_, _, e, h⟩ := Sure.of_bind_error h
  cases e
  obtain ⟨_, _, e, h⟩ := Sure.of_bind_error h
  cases e
  obtain ⟨_, s₁, prepared, h⟩ := Sure.of_bind_error h
  obtain ⟨e, t, refused, rfl, rfl⟩ := compiling_error (Sure.error_of_bind h)
  refine ⟨⟨_, _, rfl⟩, s.lastNumber + 1, ?_⟩
  have kept := Keeps.of_ok visible (l.ops.forM (prepareGuard _)) prepared
  exact (congrArg (·, s₁.entries) (Engine.compileLoop_error refused)).trans kept

theorem attach_error {key : ResumeKey} (h : attach key l s = .error f s') : (∃ unit e, f = .backend unit e) ∧ Refused s s' := by
  cases key with
  | guard g =>
    obtain ⟨backend, same⟩ := sendBridge_error (Sure.error_of_bind h)
    exact ⟨backend, .of_visible same⟩
  | entry key =>
    obtain ⟨_, _, e, h⟩ := Sure.of_bind_error h
    cases e
    obtain ⟨backend, number, same⟩ := sendLoop_error (Sure.error_of_bind h)
    refine ⟨backend, ?_⟩
    have fresh : (s.engine.store.cells.push {}).modify s.engine.store.cells.size (fun k => { k with number }) =
        s.engine.store.cells.push { number } := by
      refine ext_getElem? fun i => ?_
      rw [getElem?_modify, getElem?_push, getElem?_push]
      split_ifs <;> first | rfl | omega
    obtain ⟨cells, targets, code, entries⟩ := visible_eq_iff.1 same
    exact ⟨code, entries, targets, #[{ number }], by rw [cells, ← push_eq_append]; exact fresh⟩

theorem change_bind (g : Store → Store) (k : PUnit → SessionM α) (s : Session) :
    (onStore (modify g) >>= k) s = k ⟨⟩ { s with engine := { s.engine with store := g s.engine.store } } :=
  bind_of_ok (onStore_ok rfl)

/-! ## Labels -/

/-- A label knows its place and belongs to a loop. -/
def linkLabel (cell : CellId) (s : Store) (op : Op) : Store :=
  match op.code, op.descr with
  | .label, some (.target t) => s.updateTarget t fun x => { x with label := some op, cell := x.cell <|> some cell }
  | _, _ => s

theorem linkTargets_ok (cell : CellId) (ops : List Op) (s : Session) :
    linkTargets cell ops s = .ok () { s with engine := { s.engine with store := ops.foldl (linkLabel cell) s.engine.store } } := by
  induction ops generalizing s with
  | nil => rfl
  | cons op ops ih =>
    have first : (match op.code, op.descr with
        | .label, some (.target t) =>
          onStore (modify fun s => s.updateTarget t fun x => { x with label := some op, cell := x.cell <|> some cell })
        | _, _ => pure () : SessionM Unit) s = .ok () { s with engine := { s.engine with store := linkLabel cell s.engine.store op } } := by
      unfold linkLabel
      split
      · rename_i hc hd
        simp only [hc, hd]
        rfl
      · rfl
    exact (bind_of_ok first).trans (ih _)

theorem label_linkLabel (cell : CellId) (s : Store) (op : Op) (t : TargetId) : ((linkLabel cell s op).target t).label = (s.target t).label ∨
      op.code = .label ∧ op.descr = some (.target t) ∧ ((linkLabel cell s op).target t).label = some op := by
  unfold linkLabel
  split
  · rename_i u hc hd
    simp only [Store.target, Store.updateTarget, getElem?_modify]
    by_cases e : u = t
    · subst e
      rw [if_pos rfl]
      cases s.targets[u]? with
      | none => exact .inl rfl
      | some x => exact .inr ⟨hc, hd, rfl⟩
    · exact .inl (by rw [if_neg e])
  · exact .inl rfl

theorem label_foldl_linkLabel (cell : CellId) (ops : List Op) (s : Store) (t : TargetId) :
    ((ops.foldl (linkLabel cell) s).target t).label = (s.target t).label ∨
      ∃ op ∈ ops, op.code = .label ∧ op.descr = some (.target t) ∧ ((ops.foldl (linkLabel cell) s).target t).label = some op := by
  induction ops generalizing s with
  | nil => exact .inl rfl
  | cons op ops ih =>
    rcases ih (linkLabel cell s op) with same | ⟨later, hlater, found⟩
    · rcases label_linkLabel cell s op t with same' | ⟨hc, hd, linked⟩
      · exact .inl (same.trans same')
      · exact .inr ⟨op, by simp, hc, hd, same.trans linked⟩
    · exact .inr ⟨later, by simp [hlater], found⟩

theorem cells_foldl_linkLabel (cell : CellId) (ops : List Op) (s : Store) : (ops.foldl (linkLabel cell) s).cells = s.cells := by
  induction ops generalizing s with
  | nil => rfl
  | cons op ops ih =>
    refine (ih _).trans ?_
    unfold linkLabel
    split <;> rfl

/-! ## A part that is not attached -/

/-- The end label of a part belongs to a loop, unless it belongs to one already. -/
def adopt (cell : CellId) (target : TargetId) (s : Store) : Store := s.updateTarget target fun t => { t with cell := t.cell <|> some cell }

/-- A loop gets the label of a part, and one part more is counted. -/
def extended (target : TargetId) (k : Cell) : Cell :=
  { k with targets := if k.targets.contains target then k.targets else k.targets ++ [target], retraces := k.retraces + 1 }

/-- Loops and labels are left as they were, but the end label of the part may have found its loop. -/
structure Untouched (part : Loop) (cell : CellId) (s s' : Session) : Prop where
  cells : s'.engine.store.cells = s.engine.store.cells
  labels : ∀ t, (s'.engine.store.target t).label = (s.engine.store.target t).label
  owners : ∀ t, (s'.engine.store.target t).cell = (s.engine.store.target t).cell ∨ (s.engine.store.target t).cell = none ∧
    (s'.engine.store.target t).cell = some cell ∧ ∃ label, partLabel? part = some (label, t)
  code : s'.engine.code.entered = s.engine.code.entered
  entries : s'.entries = s.entries

/-- A loop has the label of a part that was not attached to it, and counts the part. -/
structure HalfDone (part : Loop) (cell : CellId) (s s' : Session) : Prop where
  counted : ∃ label target, partLabel? part = some (label, target) ∧ s'.engine.store.cell cell = extended target (s.engine.store.cell cell)
  others : ∀ c < s.engine.store.cells.size, c ≠ cell → s'.engine.store.cell c = s.engine.store.cell c
  labels : ∀ t, (s'.engine.store.target t).label = (s.engine.store.target t).label ∨
    ∃ op, op.code = .label ∧ op.descr = some (.target t) ∧ (s'.engine.store.target t).label = some op
  code : s'.engine.code.entered = s.engine.code.entered
  entries : s'.entries = s.entries

variable {key : String} {trace : Recording} {start : Nat} {jumpArgs : List Value} {part : Loop} {resume : ResumeKey} {cell : CellId}
  {label : Op} {target : TargetId}

theorem Untouched.of_visible (h : s'.visible = s.visible) : Untouched part cell s s' := by
  obtain ⟨cells, targets, code, entries⟩ := visible_eq_iff.1 h
  have same (t : TargetId) : s'.engine.store.target t = s.engine.store.target t := by rw [Store.target, Store.target, targets]
  exact ⟨cells, fun t => by rw [same], fun t => .inl (by rw [same]), code, entries⟩

theorem Untouched.of_adopt (found : partLabel? part = some (label, target)) (cells : s'.engine.store.cells = s.engine.store.cells)
    (targets : s'.engine.store.targets = (adopt cell target s.engine.store).targets) (code : s'.engine.code.entered = s.engine.code.entered)
    (entries : s'.entries = s.entries) : Untouched part cell s s' := by
  have adopted (t : TargetId) : s'.engine.store.target t = (if target = t then (s.engine.store.targets[t]?).map fun x =>
      { x with cell := x.cell <|> some cell } else s.engine.store.targets[t]?).getD default := by
    rw [Store.target, targets, adopt, Store.updateTarget, getElem?_modify]
  refine ⟨cells, fun t => ?_, fun t => ?_, code, entries⟩
  · rw [adopted, Store.target]
    split_ifs <;> cases s.engine.store.targets[t]? <;> rfl
  · rw [adopted, Store.target]
    split_ifs with e
    · subst e
      cases s.engine.store.targets[target]? with
      | none => exact .inl rfl
      | some x =>
        cases hx : x.cell with
        | none => exact .inr ⟨hx, by simp [hx], label, found⟩
        | some c => exact .inl (by simp [hx])
    · exact .inl rfl

/-- The loop of a part as it is when the code of the part is sent to the engine. -/
def linked (cell : CellId) (target : TargetId) (out : List Op) (s : Store) : Store :=
  (out.foldl (linkLabel cell) (s.updateCell cell fun k =>
    { k with targets := if k.targets.contains target then k.targets else k.targets ++ [target] })).updateCell cell fun k =>
    { k with retraces := k.retraces + 1 }

theorem Untouched.halfDone {out : List Op} {t : Session} (h : Untouched part cell s t) (inside : cell < s.engine.store.cells.size)
    (found : partLabel? part = some (label, target))
    (refused : Refused { t with engine := { t.engine with store := linked cell target out t.engine.store } } s') : HalfDone part cell s s' := by
  obtain ⟨more, cells⟩ := refused.cells
  have earlier (c : CellId) (hc : c < s.engine.store.cells.size) :
      s'.engine.store.cell c = if cell = c then extended target (s.engine.store.cell c) else s.engine.store.cell c := by
    have before : s.engine.store.cells[c]? = some (s.engine.store.cell c) := by simp [Store.cell, hc]
    have linkedCells : (linked cell target out t.engine.store).cells = (s.engine.store.cells.modify cell fun k =>
        { k with targets := if k.targets.contains target then k.targets else k.targets ++ [target] }).modify cell fun k =>
        { k with retraces := k.retraces + 1 } := by
      simp only [linked, Store.updateCell, cells_foldl_linkLabel, h.cells]
    have size : c < ((s.engine.store.cells.modify cell fun k =>
        { k with targets := if k.targets.contains target then k.targets else k.targets ++ [target] }).modify cell fun k =>
        { k with retraces := k.retraces + 1 }).size := by simpa using hc
    rw [Store.cell, cells, linkedCells, getElem?_append_left size, getElem?_modify, getElem?_modify, before]
    split_ifs <;> rfl
  refine ⟨⟨label, target, found, ?_⟩, fun c hc hne => ?_, fun u => ?_, refused.code.trans h.code, refused.entries.trans h.entries⟩
  · rw [earlier cell inside, if_pos rfl]
  · rw [earlier c hc, if_neg fun e => hne e.symm]
  · have later : s'.engine.store.target u = (out.foldl (linkLabel cell) (t.engine.store.updateCell cell fun k =>
        { k with targets := if k.targets.contains target then k.targets else k.targets ++ [target] })).target u := by
      rw [Store.target, refused.targets]
      rfl
    rw [later, ← h.labels u]
    rcases label_foldl_linkLabel cell out _ u with same | ⟨op, -, hc, hd, linked⟩
    · exact .inl same
    · exact .inr ⟨op, hc, hd, linked⟩

/-- What becomes of a part that is compiled. -/
def Ends (part : Loop) (cell : CellId) (s : Session) : EStateM.Result Failure Session (Option TargetId) → Prop
  | .ok (some _) _ => True
  | .ok none s' => Untouched part cell s s'
  | .error f s' => Untouched part cell s s' ∨ (∃ unit e, f = .backend unit e) ∧ HalfDone part cell s s'

theorem ends_compileRetrace (inside : cell < s.engine.store.cells.size) :
    Ends part cell s (compileRetrace key trace start jumpArgs part resume cell s) := by
  refine bind_cases (fun body s₁ assigned => ?_) fun e s₁ refused => .inl (.of_visible (Keeps.of_error visible (assignGuards _) refused))
  obtain ⟨cells₁, targets₁, code₁, entries₁⟩ := visible_eq_iff.1 (Keeps.of_ok visible (assignGuards _) assigned)
  cases found : partLabel? part with
  | none => exact .inl (.of_visible (visible_eq_iff.2 ⟨cells₁, targets₁, code₁, entries₁⟩))
  | some p =>
    obtain ⟨label, target⟩ := p
    have untouched {s₂ : Session} (h : s₂.visible = ({ s₁ with engine := { s₁.engine with
        store := adopt cell target s₁.engine.store } } : Session).visible) : Untouched part cell s s₂ := by
      obtain ⟨cells₂, targets₂, code₂, entries₂⟩ := visible_eq_iff.1 h
      refine .of_adopt found (cells₂.trans cells₁) (targets₂.trans ?_) (code₂.trans code₁) (entries₂.trans entries₁)
      simp only [adopt, Store.updateTarget, targets₁]
    dsimp only
    rw [change_bind]
    refine bind_cases (fun r s₂ closed => ?_) fun e s₂ refused => .inl (untouched (Keeps.of_error visible (unlessInvalid _) refused))
    have same₂ := Keeps.of_ok visible (unlessInvalid _) closed
    cases r with
    | none => exact untouched same₂
    | some p =>
      obtain ⟨out, watches⟩ := p
      have left := untouched same₂
      dsimp only
      rw [change_bind, bind_of_ok (linkTargets_ok ..), change_bind]
      refine bind_cases (fun _ s₃ _ => trivial) fun f s₃ refused => .inr ?_
      obtain ⟨backend, refused⟩ := attach_error refused
      exact ⟨backend, left.halfDone inside found refused⟩

/-- **A part that is not attached** leaves its loop as it was, unless the engine refused the code: then the loop has the label of the part
all the same, and counts it. -/
theorem retrace_failed (inside : cell < s.engine.store.cells.size)
    (failed : ∀ t s', compileRetrace key trace start jumpArgs part resume cell s ≠ .ok (some t) s') :
    Untouched part cell s (after (compileRetrace key trace start jumpArgs part resume cell) s) ∨
      (∃ unit f s', compileRetrace key trace start jumpArgs part resume cell s = .error (.backend unit f) s') ∧
        HalfDone part cell s (after (compileRetrace key trace start jumpArgs part resume cell) s) := by
  have ends : Ends part cell s (compileRetrace key trace start jumpArgs part resume cell s) := ends_compileRetrace inside
  unfold after
  cases run : compileRetrace key trace start jumpArgs part resume cell s with
  | ok r s' =>
    rw [run] at ends
    cases r with
    | none => exact .inl ends
    | some t => exact absurd run (failed t s')
  | error f s' =>
    rw [run] at ends
    rcases ends with untouched | ⟨⟨unit, e, rfl⟩, half⟩
    · exact .inl untouched
    · exact .inr ⟨⟨unit, e, s', rfl⟩, half⟩

/-- A loop with one label, and a guard that has its bridge already. -/
def bridgedLoop : Session where
  engine :=
    { store := { cells := #[{ targets := [0] }], targets := #[{ cell := some 0 }, {}], guards := #[{ code := .guardTrue }] }
      code := { bridges := [(.guard 0, 0)] } }

/-- A part that is nothing but its end label. -/
def endingPart : Loop := { inputs := [], ops := [{ code := .label, args := [], descr := some (.target 1) }] }

/-- The engine refused what it was sent. -/
def isRefusal : EStateM.Result Failure Session (Option TargetId) → Bool
  | .error (.backend _ _) _ => true
  | _ => false

theorem bridgedLoop_refuses : ∃ unit f s',
    compileRetrace "L" { inputs := [], ops := [] } 0 [] endingPart (.guard 0) 0 bridgedLoop = .error (.backend unit f) s' := by
  have refused : isRefusal (compileRetrace "L" { inputs := [], ops := [] } 0 [] endingPart (.guard 0) 0 bridgedLoop) = true := by
    decide +kernel
  generalize compileRetrace "L" { inputs := [], ops := [] } 0 [] endingPart (.guard 0) 0 bridgedLoop = run at refused
  rw [isRefusal.eq_def] at refused
  split at refused
  · exact ⟨_, _, _, rfl⟩
  · cases refused

theorem retrace_failed_bridged : 0 < bridgedLoop.engine.store.cells.size ∧
    (∀ t s', compileRetrace "L" { inputs := [], ops := [] } 0 [] endingPart (.guard 0) 0 bridgedLoop ≠ .ok (some t) s') ∧
    (Untouched endingPart 0 bridgedLoop (after (compileRetrace "L" { inputs := [], ops := [] } 0 [] endingPart (.guard 0) 0) bridgedLoop) ∨
      (∃ unit f s', compileRetrace "L" { inputs := [], ops := [] } 0 [] endingPart (.guard 0) 0 bridgedLoop = .error (.backend unit f) s') ∧
        HalfDone endingPart 0 bridgedLoop (after (compileRetrace "L" { inputs := [], ops := [] } 0 [] endingPart (.guard 0) 0) bridgedLoop)) := by
  have failed (t : TargetId) (s' : Session) :
      compileRetrace "L" { inputs := [], ops := [] } 0 [] endingPart (.guard 0) 0 bridgedLoop ≠ .ok (some t) s' := by
    obtain ⟨_, _, _, e⟩ := bridgedLoop_refuses
    rw [e]
    exact nofun
  exact ⟨by decide, failed, retrace_failed (by decide) failed⟩

/-- The bridge is refused, since the guard has one: the loop has two labels instead of one, and counts a part that it does not have. -/
theorem retrace_counted : (∃ unit f s', compileRetrace "L" { inputs := [], ops := [] } 0 [] endingPart (.guard 0) 0 bridgedLoop = .error
    (.backend unit f) s') ∧ (bridgedLoop.engine.store.cell 0).targets = [0] ∧ (bridgedLoop.engine.store.cell 0).retraces = 0 ∧
    ((after (compileRetrace "L" { inputs := [], ops := [] } 0 [] endingPart (.guard 0) 0) bridgedLoop).engine.store.cell 0).targets = [0, 1] ∧
    ((after (compileRetrace "L" { inputs := [], ops := [] } 0 [] endingPart (.guard 0) 0) bridgedLoop).engine.store.cell 0).retraces = 1 :=
  ⟨bridgedLoop_refuses, by decide +kernel, by decide +kernel, by decide +kernel, by decide +kernel⟩

end Session
end FlowCompiler.Trace
