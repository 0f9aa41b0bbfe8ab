import FlowCompiler.Proofs.Growth
import FlowCompiler.Proofs.Resume.RoundTrip
import FlowCompiler.Trace.Session.Exit

/-!
# Forced frames

When a call forces the frame that it was called from, all virtual objects of the guard behind the call are allocated and kept with the
frame, and the guard fails when the call returns.  The failure decodes the resume data of the guard once more, with a reader that knows
nothing of the first one.  Each of the two decodings gives a virtual object one object (`Decoding`), but they share none:
`forced_exit` says so of whatever happens between the two moments (`Meanwhile`).
-/

namespace FlowCompiler.Trace

open List

/-! ## One decoding -/

/-- What a decoding leaves: an object for each of the virtual objects in a table. -/
structure Decoding (c : Setting) (table : List (Nat × Ref)) (s : Store) : Prop where
  indices : (table.map Prod.fst).Nodup
  refs : (table.map Prod.snd).Nodup
  fresh : ∀ e ∈ table, c.store.objects.size ≤ e.2 ∧ e.2 < s.objects.size
  contents : ∀ i r, (i, r) ∈ table → ∃ shape o, c.data.virtuals[i]? = some shape ∧ s.objects[r]? = some o ∧ Realizes s (shape.map (c.value table)) o

variable {table : List (Nat × Ref)} {objs : List Ref}

theorem Decoding.updateFrame {c : Setting} {s : Store} (h : Decoding c table s) (i : FrameId) (f : Frame → Frame) :
    Decoding c table (s.updateFrame i f) := by
  refine ⟨h.indices, h.refs, h.fresh, fun i r hi => ?_⟩
  obtain ⟨shape, o, hshape, ho, hreal⟩ := h.contents i r hi
  refine ⟨shape, o, hshape, ho, ?_⟩
  cases hreal with
  | struct hk => exact .struct hk
  | array hk => exact .array hk
  | plain hk => exact .plain hk
  | concat hk hparts => exact .concat hk hparts
  | slice hk hitems hcs => exact .slice hk hitems hcs

namespace Setting

variable {c : Setting} {p : Progress} {rank : Nat → Nat}

/-- Resume data from which the saved values can be rebuilt.  Those that the optimizer makes for a guard are such. -/
structure Rebuildable (c : Setting) : Prop where
  sound : ∃ rank, c.Sound rank
  numbering : ∀ x ∈ c.data.numbering, c.InRange x
  pending : ∀ q ∈ c.data.pending, c.Storable q ∧ c.InRange q.value

theorem Good.decoding (h : c.Good [] [] p) : Decoding c p.allocated (c.storeAt p) where
  indices := h.nodup
  refs := h.refs
  fresh := h.fresh
  contents i r hi := by
    obtain ⟨shape, hshape, hdone⟩ := h.entry i r hi
    obtain ⟨o, ho, hreal⟩ := (hdone.resolve_left fun e => not_mem_nil e.1).realizes
    exact ⟨shape, o, hshape, ho, hreal⟩

/-- **Forcing.**  Every virtual object is allocated, in the order of their indices. -/
theorem forceAll_spec (hc : c.Sound rank) (hlive : c.live.size = c.data.live.size) :
    ∃ p objs, c.data.forceAll c.live.toList c.store = .ok objs (c.storeAt p) ∧ c.Good [] [] p ∧
      List.Forall₂ (fun i r => (i, r) ∈ p.allocated) (List.range c.data.virtuals.size) objs := by
  have hstart : c.Good [] [] ⟨[], c.store.objects⟩ := good_start c
  have hforce : c.Runs [] [] ((List.range c.data.virtuals.size).mapM (Reader.virtual (Reader.decode (c.data.virtuals.size + 2))))
      ⟨[], c.store.objects⟩ fun p objs => List.Forall₂ (fun i r => (i, r) ∈ p.allocated) (List.range c.data.virtuals.size) objs := by
    refine .mapM (R := fun p i r => (i, r) ∈ p.allocated) (fun p p' i r hg _ hi => hg.allocated.mem hi) (k := 0) ?_ hstart (Nat.zero_le _)
    intro i hi p hp _
    obtain ⟨shape, hshape⟩ : ∃ shape, c.data.virtuals[i]? = some shape := ⟨_, Array.getElem?_eq_getElem (mem_range.1 hi)⟩
    exact virtual_spec (decode_spec hc _) hc hshape (.inl rfl) hp (by omega)
  obtain ⟨p, objs, he, -, hp, hobjs⟩ := hforce
  refine ⟨p, objs, ?_, hp, hobjs⟩
  have hrun : Reader.forceAll (c.reader ⟨[], c.store.objects⟩) c.store = .ok (objs, c.reader p) (c.storeAt p) :=
    (ReadM.bind_ok (m := Reader.depth) rfl).trans ((ReadM.bind_ok (m := get) rfl).trans he)
  unfold ResumeData.forceAll
  rw [make_live hlive]
  change EStateM.bind (Reader.forceAll (c.reader ⟨[], c.store.objects⟩)) (fun r => pure r.1) c.store = _
  rw [EStateM.bind, hrun]
  rfl

/-- **Rebuilding** as a decoding. -/
theorem Rebuildable.decoding (hc : c.Rebuildable) (hlive : c.live.size = c.data.live.size) :
    ∃ p, c.data.rebuild c.live.toList c.store = .ok (c.data.numbering.map (c.value p.allocated)) (c.storeAt p) ∧
      (∀ x ∈ c.data.numbering, Known p.allocated x) ∧ Decoding c p.allocated (c.storeAt p) := by
  obtain ⟨rank, sound⟩ := hc.sound
  obtain ⟨p, hrun, hknown, -, hgood⟩ := rebuild_spec sound hlive hc.numbering hc.pending
  obtain ⟨same, size⟩ := foldl_perform_objects (c.value p.allocated) c.data.pending c.store
  have hstore : (c.onStore (c.data.pending.foldl (Pending.perform (c.value p.allocated)) c.store)).storeAt p = c.storeAt p := by
    rw [same]
    rfl
  have decoding := hgood.decoding
  rw [hstore] at decoding
  refine ⟨p, hrun, hknown, decoding.indices, decoding.refs, fun e he => ?_, decoding.contents⟩
  exact size ▸ decoding.fresh e he

end Setting

/-! ## Forcing a frame -/

open Exec (forceFrame keepVirtuals liveValues)

variable {s s' : Store} {frame : FrameId} {g : GuardId} {op : Op} {data : ResumeData} {f : Frame}

/-- What a reader gets from a frame that has left, or is taken for one. -/
def moment (s : Store) (f : Frame) (data : ResumeData) : Setting := ⟨data, (liveValues f data).toArray, s⟩

theorem moment_live (s : Store) (f : Frame) (data : ResumeData) : (moment s f data).live.size = data.live.size := by
  simp [moment, liveValues]

/-- A frame that is forced before the guard of an operation. -/
def forcedBefore (op : Op) (f : Frame) : Frame := { f with forced := true, descr := op.descr, values := Exec.resolveAll f (op.fail.getD []) }

theorem updateFrame_congr {h h' : Frame → Frame} (inside : frame < s.frames.size) (e : h (s.frame frame) = h' (s.frame frame)) :
    s.updateFrame frame h = s.updateFrame frame h' := by
  have here : s.frames[frame]? = some (s.frame frame) := by simp [Store.frame, inside]
  exact congrArg (fun frames => { s with frames }) (Setting.modify_congr here e)

/-- The virtual objects of the guard behind the call are allocated and kept. -/
theorem forceFrame_ok (pending : (s.frame frame).pendingGuard = some op) (inside : frame < s.frames.size)
    (descr : op.descr = some (.guard g)) (forced : (s.guard g).isForced = true) (hdata : (s.guard g).data = some data)
    (hforce : data.forceAll (liveValues (forcedBefore op (s.frame frame)) data) (s.updateFrame frame (forcedBefore op)) = .ok objs s') :
    forceFrame frame s = .ok () (s'.updateFrame frame fun f => { f with saved := some objs }) := by
  have marked : s.updateFrame frame Exec.mark = s.updateFrame frame (forcedBefore op) :=
    updateFrame_congr inside (by simp only [Exec.mark, pending, forcedBefore])
  have here : (s.updateFrame frame (forcedBefore op)).frame frame = forcedBefore op (s.frame frame) := Store.frame_updateFrame inside
  have kept : keepVirtuals g frame (s.updateFrame frame (forcedBefore op)) =
      .ok () (s'.updateFrame frame fun f => { f with saved := some objs }) := by
    rw [Exec.keepVirtuals_data (show ((s.updateFrame frame (forcedBefore op)).guard g).data = some data from hdata), here]
    change EStateM.bind _ (Exec.keepSaved frame) _ = _
    rw [EStateM.bind, hforce]
    rfl
  rw [Exec.forceFrame_eq, marked, Exec.settle, here, show (forcedBefore op (s.frame frame)).descr = some (.guard g) from descr]
  dsimp only
  rw [if_pos (show ((s.updateFrame frame (forcedBefore op)).guard g).isForced = true from forced), kept]

/-! ## Between forcing and failing -/

/-- What is left alone until the guard of a forced frame fails: the heap only grows, and nobody takes the objects. -/
structure Meanwhile (g : GuardId) (frame : FrameId) (s s' : Store) : Prop where
  objects : s.objects.size ≤ s'.objects.size
  guard : (s'.guard g).code = (s.guard g).code ∧ (s'.guard g).data = (s.guard g).data
  saved : (s'.frame frame).saved = (s.frame frame).saved

theorem Meanwhile.trans {s'' : Store} (h : Meanwhile g frame s s') (h' : Meanwhile g frame s' s'') : Meanwhile g frame s s'' :=
  ⟨Nat.le_trans h.objects h'.objects, ⟨h'.guard.1.trans h.guard.1, h'.guard.2.trans h.guard.2⟩, h'.saved.trans h.saved⟩

theorem Meanwhile.updateFrame {h : Frame → Frame} (g : GuardId) (frame : FrameId) (s : Store) (i : FrameId) (same : ∀ f, (h f).saved = f.saved) :
    Meanwhile g frame s (s.updateFrame i h) := by
  refine ⟨Nat.le_refl _, ⟨rfl, rfl⟩, ?_⟩
  simp only [Store.frame, Store.updateFrame, Array.getElem?_modify]
  split
  · cases s.frames[frame]? with
    | none => rfl
    | some f => exact same f
  · rfl

/-- The call returns, and the guard behind it fails because the frame was forced. -/
theorem forced_fails {call : Op} {outcome : Except ExecError (Option Value)} {c : CodeCache} {p : Position} (inside : frame < s.frames.size)
    (forced : (s.frame frame).forced = true) (code : op.code = .guardNotForced ∨ op.code = .guardNotForced2)
    (alone : op.descr.bind c.bridge? = none) : ∃ s',
    Run.guard c frame p op (s.updateFrame frame (Run.finishOp call outcome)) = .ok .exit s' ∧ Meanwhile g frame s s' ∧
      (s'.frame frame).descr = op.descr := by
  have returned : ∀ f, (Run.finishOp call outcome f).saved = f.saved ∧ (Run.finishOp call outcome f).forced = f.forced := by
    intro f
    unfold Run.finishOp
    rcases outcome with e | v
    · cases e <;> cases call.result <;> exact ⟨rfl, rfl⟩
    · cases call.result <;> exact ⟨rfl, rfl⟩
  have inside' : frame < (s.updateFrame frame (Run.finishOp call outcome)).frames.size := by simpa using inside
  have fails : Run.holds (s.updateFrame frame (Run.finishOp call outcome))
      ((s.updateFrame frame (Run.finishOp call outcome)).frame frame) op = false := by
    rw [Store.frame_updateFrame inside]
    rcases code with code | code <;> simp [Run.holds, code, (returned _).2, forced]
  refine ⟨(s.updateFrame frame (Run.finishOp call outcome)).updateFrame frame (Run.save op (op.fail.getD [])), ?_, ?_, ?_⟩
  · change (if Run.holds (s.updateFrame frame (Run.finishOp call outcome)) _ op = true then _ else _ : StoreM Advance) _ = _
    rw [if_neg (by rw [fails]; decide), alone]
    rfl
  · exact (Meanwhile.updateFrame g frame s frame fun f => (returned f).1).trans (Meanwhile.updateFrame g frame _ frame fun _ => rfl)
  · rw [Store.frame_updateFrame inside']
    rfl

/-! ## The exit -/

namespace Session

variable {σ : Session} {α β : Type}

theorem onStore_ok {m : StoreM α} {a : α} {t : Store} (h : m σ.engine.store = .ok a t) :
    onStore m σ = .ok a { σ with engine := { σ.engine with store := t } } := by
  have engine : Engine.onStore m σ.engine = .ok a { σ.engine with store := t } := by
    rw [Engine.onStore, show m.run σ.engine.store = .ok a t from h]
  rw [onStore, onEngine]
  rw [show (Engine.onStore m).run σ.engine = _ from engine]

/-- The exit of a frame that was forced: the saved values rebuilt, and the objects that forcing has made. -/
theorem readExit_forced {values : List (Option Value)} {t : Store} (descr : (σ.engine.store.frame frame).descr = some (.guard g))
    (forced : (σ.engine.store.guard g).isForced = true) (hdata : (σ.engine.store.guard g).data = some data)
    (hrebuild : data.rebuild (liveValues (σ.engine.store.frame frame) data) σ.engine.store = .ok values t)
    (same : t = { σ.engine.store with objects := t.objects }) (saved : (σ.engine.store.frame frame).saved = some objs) :
    readExit frame σ = .ok { kind := .guard, descr := .guard g, values := some values, virtuals := objs }
      { σ with engine := { σ.engine with store := t.updateFrame frame fun f => { f with saved := none } } } := by
  have store_ok (τ : Session) : store τ = .ok τ.engine.store τ := rfl
  have read : rebuildSaved g frame σ = .ok (some values) { σ with engine := { σ.engine with store := t } } := by
    unfold rebuildSaved
    rw [bind_of_ok (store_ok σ), hdata]
    exact bind_of_ok (onStore_ok hrebuild)
  have frame_eq : t.frame frame = σ.engine.store.frame frame := by
    rw [same]
    rfl
  have taken : takeVirtuals g frame { σ with engine := { σ.engine with store := t } } =
      .ok objs { σ with engine := { σ.engine with store := t.updateFrame frame fun f => { f with saved := none } } } := by
    unfold takeVirtuals
    have forced' : (t.guard g).isForced = true := by
      rw [same]
      exact forced
    rw [bind_of_ok (store_ok _)]
    rw [if_pos forced', frame_eq, saved]
    exact bind_of_ok (onStore_ok rfl)
  unfold readExit
  rw [bind_of_ok (store_ok σ)]
  rw [descr]
  exact (bind_of_ok read).trans (bind_of_ok taken)

end Session

/-- What the reader gets that forces a frame. -/
def forcedMoment (s : Store) (frame : FrameId) (op : Op) (data : ResumeData) : Setting :=
  moment (s.updateFrame frame (forcedBefore op)) (forcedBefore op (s.frame frame)) data

theorem known_value {c : Setting} {x : Tagged} (nodup : (table.map Prod.fst).Nodup) (known : Known table x)
    (virtual : x.tag = .virtual) : ∃ r, (x.value.toNat, r) ∈ table ∧ c.value table x = some (.ofRef r) := by
  obtain ⟨⟨i, r⟩, hr, hi : i = x.value.toNat⟩ := mem_map.1 (known virtual)
  subst hi
  have assigned : x ≠ .unassigned := by
    rintro rfl
    simp [Tagged.unassigned, Tagged.tag_make] at virtual
  refine ⟨r, hr, ?_⟩
  rw [Setting.value, if_neg assigned, virtual]
  simp [lookup_of_mem nodup hr]

theorem nodup_of_forall₂ {α β : Type} {R : α → β → Prop} {as : List α} {bs : List β} (h : List.Forall₂ R as bs)
    (inj : ∀ a a' b, R a b → R a' b → a = a') (nodup : as.Nodup) : bs.Nodup := by
  induction h with
  | nil => exact nodup_nil
  | @cons a b as bs hab hrest ih =>
    rw [nodup_cons] at nodup ⊢
    refine ⟨fun hb => ?_, ih nodup.2⟩
    obtain ⟨a', ha', hab'⟩ := exists_of_forall₂' hrest hb
    exact nodup.1 (inj a a' b hab hab' ▸ ha')

/-- **A forced frame.**  Forcing succeeds and makes one object for every virtual object of the guard.  Whatever happens until the guard
fails, its exit hands these objects over and has the saved values, in which every virtual object that they mention is one object again;
but it is none of those that were handed over.  So the saved values refer to what forcing has made only if they mention no virtual
object at all. -/
theorem forced_exit {rank : Nat → Nat} (pending : (s.frame frame).pendingGuard = some op) (inside : frame < s.frames.size)
    (descr : op.descr = some (.guard g)) (forced : (s.guard g).isForced = true) (hdata : (s.guard g).data = some data)
    (sound : (forcedMoment s frame op data).Sound rank) :
    ∃ s' objs table, forceFrame frame s = .ok () s' ∧ Decoding (forcedMoment s frame op data) table s' ∧
      List.Forall₂ (fun i r => (i, r) ∈ table) (List.range data.virtuals.size) objs ∧ objs.Nodup ∧
      ∀ σ : Session, Meanwhile g frame s' σ.engine.store → (σ.engine.store.frame frame).descr = some (.guard g) →
        (moment σ.engine.store (σ.engine.store.frame frame) data).Rebuildable →
        ∃ exit σ' table', Session.readExit frame σ = .ok exit σ' ∧ exit.virtuals = objs ∧
          exit.values = some (data.numbering.map ((moment σ.engine.store (σ.engine.store.frame frame) data).value table')) ∧
          (∀ x ∈ data.numbering, Known table' x) ∧
          Decoding (moment σ.engine.store (σ.engine.store.frame frame) data) table' σ'.engine.store ∧
          (∀ e ∈ table', e.2 ∉ objs) ∧
          ((∀ x ∈ data.numbering, x.tag = .virtual → ∃ r ∈ exit.virtuals,
              (moment σ.engine.store (σ.engine.store.frame frame) data).value table' x = some (.ofRef r)) ↔
            ∀ x ∈ data.numbering, x.tag ≠ .virtual) := by
  obtain ⟨p, objs, hforce, hgood, hobjs⟩ := Setting.forceAll_spec sound (moment_live ..)
  have hforce : data.forceAll (liveValues (forcedBefore op (s.frame frame)) data) (s.updateFrame frame (forcedBefore op)) =
      .ok objs ((forcedMoment s frame op data).storeAt p) := by simpa [forcedMoment, moment] using hforce
  have decoding := hgood.decoding
  refine ⟨_, objs, p.allocated, forceFrame_ok pending inside descr forced hdata hforce, decoding.updateFrame _ _, hobjs, ?_, ?_⟩
  · refine nodup_of_forall₂ hobjs (fun i j r hi hj => ?_) nodup_range
    exact congrArg Prod.fst (inj_on_of_nodup_map decoding.refs hi hj rfl)
  · intro σ meanwhile descr' rebuildable
    obtain ⟨p', hrebuild, hknown, decoding'⟩ := rebuildable.decoding (moment_live ..)
    have hrebuild : data.rebuild (liveValues (σ.engine.store.frame frame) data) σ.engine.store =
        .ok (data.numbering.map ((moment σ.engine.store (σ.engine.store.frame frame) data).value p'.allocated))
          ((moment σ.engine.store (σ.engine.store.frame frame) data).storeAt p') := by
      simpa [moment] using hrebuild
    have inside' : frame < ((forcedMoment s frame op data).storeAt p).frames.size := by
      simpa [forcedMoment, moment, Setting.storeAt] using inside
    have saved : (σ.engine.store.frame frame).saved = some objs := by
      rw [meanwhile.saved, Store.frame_updateFrame inside']
    have forced' : (σ.engine.store.guard g).isForced = true := by
      rw [GuardDescr.isForced, meanwhile.guard.1]
      exact forced
    have apart : ∀ e ∈ p'.allocated, e.2 ∉ objs := by
      intro e he hr
      obtain ⟨i, -, hi⟩ := exists_of_forall₂' hobjs hr
      have before := (decoding.fresh _ hi).2
      have after := (decoding'.fresh e he).1
      have between := meanwhile.objects
      exact absurd (Nat.lt_of_lt_of_le before between) (Nat.not_lt.2 after)
    refine ⟨_, _, p'.allocated, Session.readExit_forced descr' forced' (meanwhile.guard.2.trans hdata) hrebuild rfl saved, rfl, rfl, hknown,
      decoding'.updateFrame _ _, apart, fun shared x hx virtual => ?_, fun none x hx virtual => absurd virtual (none x hx)⟩
    obtain ⟨r, hr, e⟩ := shared x hx virtual
    obtain ⟨r', hr', e'⟩ := known_value decoding'.indices (hknown x hx) virtual
    obtain rfl : r = r' := by simpa [Value.ofRef] using e.symm.trans e'
    exact apart _ hr' hr

/-- The resume data of a guard that saves one virtual structure with the number five in its only field. -/
def oneVirtual : ResumeData := { numbering := [.make 0 .virtual], virtuals := #[{ kind := .struct, fields := [0], items := [.make 5 .int] }] }

/-- The guard behind a call. -/
def notForced : Op := { code := .guardNotForced, args := [], descr := some (.guard 0), fail := some [] }

/-- A frame in the middle of the call. -/
def calling : Store := { guards := #[{ code := .guardNotForced, data := some oneVirtual }], frames := #[{ pendingGuard := some notForced }] }

theorem sound_oneVirtual (s : Store) (f : Frame) : (moment s f oneVirtual).Sound fun _ => 0 := by
  have only {i : Nat} {shape : Shape Tagged} (h : (moment s f oneVirtual).data.virtuals[i]? = some shape) :
      shape = { kind := .struct, fields := [0], items := [.make 5 .int] } := by
    cases i with
    | zero => exact (Option.some.inj h).symm
    | succ i => simp [moment, oneVirtual] at h
  refine ⟨fun i shape h n hn virtual => ?_, fun i shape h => ?_⟩
  · rw [only h, mem_singleton] at hn
    subst hn
    exact absurd virtual (by decide)
  · rw [only h]
    exact ⟨nodup_singleton 0, rfl⟩

theorem forced_exit_calling : ∃ s' objs σ exit σ', forceFrame 0 calling = .ok () s' ∧ Meanwhile 0 0 s' σ.engine.store ∧
    Session.readExit 0 σ = .ok exit σ' ∧ exit.virtuals = objs ∧ objs.length = 1 ∧ ∃ r, exit.values = some [some (.ofRef r)] ∧ r ∉ objs := by
  obtain ⟨s', objs, table, run, -, each, -, after⟩ := @forced_exit calling 0 0 notForced oneVirtual (fun _ => 0) rfl (by decide) rfl
    (by decide) rfl (sound_oneVirtual ..)
  have left : (match forceFrame 0 calling with
      | .ok _ s => (s.frame 0).forced && decide (0 < s.frames.size)
      | .error _ _ => false) = true := by decide +kernel
  rw [run, Bool.and_eq_true, decide_eq_true_eq] at left
  obtain ⟨s'', -, meanwhile, descr⟩ := @forced_fails s' 0 0 notForced { code := .callMayForce, args := [] } (.ok none) {} ⟨0, 1⟩ left.2 left.1
    (.inl rfl) rfl
  obtain ⟨exit, σ', table', leaves, handed, rebuilt, known, decoding, apart, -⟩ := after { engine := { store := s'' } } meanwhile descr
    ⟨⟨_, sound_oneVirtual ..⟩, fun x hx _ => by
      rw [mem_singleton.1 hx]
      exact (by decide : (Tagged.make 0 .virtual).value.toNat < 1), fun q hq => nomatch hq⟩
  obtain ⟨r, hr, value⟩ := known_value decoding.indices (known _ (mem_singleton.2 rfl)) (by decide)
  refine ⟨s', objs, _, exit, σ', run, meanwhile, leaves, handed, each.length_eq.symm, r, ?_, apart _ hr⟩
  rw [rebuilt, oneVirtual, map_singleton, value]

/-- The rest of the call: it returns, and the guard behind it fails. -/
def afterCall : StoreM Unit := do
  modify fun s => s.updateFrame 0 (Run.finishOp { code := .callMayForce, args := [] } (.ok none))
  let _ ← Run.guard {} 0 ⟨0, 1⟩ notForced

/-- **Two objects of one virtual object.**  Forcing has made the object 0, and the saved value is the object 1. -/
theorem forced_twice : (match (forceFrame 0 >>= fun _ => afterCall) calling with
      | .ok _ s => (match Session.readExit 0 { engine := { store := s } } with
        | .ok exit _ => (exit.virtuals, exit.values)
        | .error _ _ => ([], none))
      | .error _ _ => ([], none)) = ([0], some [some (.ofRef 1)]) := by
  decide +kernel

end FlowCompiler.Trace
