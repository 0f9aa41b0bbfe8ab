import FlowCompiler.Proofs.Peeling.Copies

/-!
# A step of a body and of its copy

The machine takes a step with an operation in one store and with its twin in another.  The stores differ in the frame only, and there
the operands have the same values under their two names.  So the steps do the same: both go on, with the result under its two names
again, or both leave, with the same values saved, or both fail.
-/

namespace FlowCompiler.Trace

open List

/-- What is known has the same values under its names in two frames. -/
def Frame.Agrees (known : List Box) (r : Peel.Renaming) (f f' : Frame) : Prop :=
  ∀ b ∈ known, ∃ v, Exec.resolve f (.box b) = some v ∧ Exec.resolve f' (r.value (.box b)) = some v

/-- Two frames in which a body and its copy are at the same place. -/
structure Abreast (gs : Array GuardDescr) (i : FrameId) (known : List Box) (r : Peel.Renaming) (s s' : Store) : Prop where
  apart : Apart gs i s s'
  inside : i < s.frames.size
  idle : (s.frame i).pendingGuard = none
  agrees : (s.frame i).Agrees known r (s'.frame i)

/-! ## Operands -/

namespace Frame.Agrees

variable {known : List Box} {r r' : Peel.Renaming} {f f' g g' : Frame} {op op' : Op} {gs : Array GuardDescr}

theorem resolve (h : f.Agrees known r f') {v : Value} (hv : ∀ b, v = .box b → b ∈ known) :
    ∃ w, Exec.resolve f v = some w ∧ Exec.resolve f' (r.value v) = some w := by
  cases v with
  | const c => exact ⟨_, rfl, rfl⟩
  | box b => exact h b (hv b rfl)

theorem resolve_congr (h : f.Agrees known r f') (hg : g.env = f.env) (hg' : g'.env = f'.env) : g.Agrees known r g' := by
  intro b hb
  obtain ⟨v, e, e'⟩ := h b hb
  refine ⟨v, ?_, ?_⟩
  · rw [← e, Exec.resolve, Exec.resolve, hg]
  · rw [← e']
    cases r.value (.box b) with
    | const c => rfl
    | box x => rw [Exec.resolve, Exec.resolve, hg']

theorem of_mem_args (ht : Peel.Twin gs known r op r' op') {v : Value} (hv : v ∈ op.args) : ∀ b, v = .box b → b ∈ known := by
  rintro b rfl
  exact ht.fits.uses b (mem_append_left _ (mem_filterMap.2 ⟨_, hv, rfl⟩))

section

variable (h : f.Agrees known r f') (ht : Peel.Twin gs known r op r' op')
include h ht

theorem operands : Run.operands f' op' = Run.operands f op := by
  simp only [Run.operands, Exec.resolveAll, ht.args, map_map]
  refine map_congr_left fun v hv => ?_
  obtain ⟨w, e, e'⟩ := h.resolve (of_mem_args ht hv)
  exact e'.trans e.symm

theorem arguments : Run.arguments f' op' = Run.arguments f op := by
  have hzip (f : Frame) (op : Op) : Run.arguments f op = op.args.map fun v => (Exec.resolve f v).getD (.const (.zero v.kind)) := by
    simp only [Run.arguments, Run.operands, Exec.resolveAll, map_map]
    rw [zip_map_right, map_map]
    induction op.args with
    | nil => rfl
    | cons v vs ih => exact congrArg _ ih
  rw [hzip, hzip, ht.args, map_map]
  refine map_congr_left fun v hv => ?_
  obtain ⟨w, e, e'⟩ := h.resolve (of_mem_args ht hv)
  change (Exec.resolve f' (r.value v)).getD _ = _
  rw [e, e']
  rfl

theorem fails : Exec.resolveAll f' (op'.fail.getD []) = Exec.resolveAll f (op.fail.getD []) := by
  have hmap : op'.fail.getD [] = (op.fail.getD []).map (·.map r.value) := by
    rw [ht.fail]
    cases op.fail <;> rfl
  rw [hmap, Exec.resolveAll, Exec.resolveAll, map_map]
  refine map_congr_left fun o ho => ?_
  cases o with
  | none => rfl
  | some v =>
    obtain ⟨w, e, e'⟩ := h.resolve (v := v) (by
      rintro b rfl
      exact ht.fits.uses b (mem_append_right _ (mem_filterMap.2 ⟨_, ho, rfl⟩)))
    exact e'.trans e.symm

theorem finishArgs : Exec.resolveAll f' (op'.args.map some) = Exec.resolveAll f (op.args.map some) := h.operands ht

end

theorem rebind {res res' : Option Box} (val : Box → Value) (h : f.Agrees known r f') (hres : Peel.Rebound known r res r' res')
    (hval : ∀ b c, c.kind = b.kind → val c = val b) (hg : g.env = match res with
      | some b => f.env.insert b (some (val b))
      | none => f.env)
    (hg' : g'.env = match res' with
      | some c => f'.env.insert c (some (val c))
      | none => f'.env) : g.Agrees (res.toList ++ known) r' g' := by
  cases hres with
  | none => exact h.resolve_congr hg hg'
  | @some b c _ hb hkind hkeep hfresh =>
    intro x hx
    by_cases hxb : x = b
    · subst hxb
      refine ⟨val x, ?_, ?_⟩
      · simp [Exec.resolve, hg]
      · rw [hb]
        simp [Exec.resolve, hg', hval x c hkind]
    · have hx' : x ∈ known := by simpa [hxb] using hx
      obtain ⟨v, e, e'⟩ := h x hx'
      refine ⟨v, ?_, ?_⟩
      · have hne : ¬ b = x := fun e => hxb e.symm
        rw [← e]
        simp [Exec.resolve, hg, Std.HashMap.getElem?_insert, hne]
      · rw [hkeep x hx' hxb, ← e']
        cases hv : r.value (.box x) with
        | const k => rfl
        | box y =>
          have hne : ¬ c = y := fun e => hfresh x hx' hxb (e ▸ hv)
          simp [Exec.resolve, hg', Std.HashMap.getElem?_insert, hne]

end Frame.Agrees

/-! ## Guards -/

/-- Whether an operation asks whether the one before it has overflowed. -/
def Op.asksOverflow (op : Op) : Bool := op.code == .guardNoOverflow || op.code == .guardOverflow

/-- Whether an operation says anew whether there was an overflow. -/
def Op.setsOverflow (op : Op) : Bool := !op.isGuard && op.code != .forceToken

theorem Store.isSubclassAux_withFrames (s : Store) (fs : Array Frame) (other : Ref) (n : Nat) (c : Ref) :
    (s.withFrames fs).isSubclassAux other n c = s.isSubclassAux other n c := by
  induction n generalizing c with
  | zero => rfl
  | succ n ih =>
    simp only [Store.isSubclassAux, ih]
    rfl

theorem Run.catches_withFrames (s : Store) (fs : Array Frame) (exc cls : Option Ref) :
    Run.catches (s.withFrames fs) exc cls = Run.catches s exc cls := by
  simp only [Run.catches, Store.isSubclass, Store.isSubclassAux_withFrames]
  rfl

theorem Run.passGuard_eq {op : Op} {f : Frame} (h : op.code ≠ .guardException → op.result = none) : Run.passGuard op f = { f with
      env := match op.result with
        | some b => f.env.insert b (some (.const (.ptr f.exc)))
        | none => f.env
      exc := if op.code = .guardException then none else f.exc } := by
  unfold Run.passGuard
  by_cases hc : op.code = .guardException
  · simp only [hc, if_true]
    cases op.result <;> rfl
  · rw [h hc, if_neg hc, if_neg hc]

namespace Abreast

variable {gs : Array GuardDescr} {i : FrameId} {known : List Box} {r r' : Peel.Renaming} {s s' : Store} {op op' : Op}

theorem inside' (h : Abreast gs i known r s s') : i < s'.frames.size := h.apart.size ▸ h.inside

theorem holds (h : Abreast gs i known r s s') (ht : Peel.Twin gs known r op r' op')
    (ho : op.asksOverflow = true → (s'.frame i).overflow = (s.frame i).overflow) : Run.holds s' (s'.frame i) op' = Run.holds s (s.frame i) op := by
  have hframes : Run.holds s' (s'.frame i) op' = Run.holds s (s'.frame i) op' := by
    rw [h.apart.rest]
    simp only [Run.holds, Run.catches_withFrames]
    rfl
  rw [hframes]
  simp only [Run.holds, ht.code, h.agrees.operands ht, h.apart.here.exc, h.apart.here.forced, h.apart.here.token]
  split <;> first
    | rfl
    | (rename_i hc; rw [ho (by simp [Op.asksOverflow, hc])])

theorem updateFrame (h : Abreast gs i known r s s') {known' : List Box} {f f' : Frame → Frame}
    (hf : (f (s.frame i)).Alike gs (f' (s'.frame i))) (hidle : (f (s.frame i)).pendingGuard = none)
    (ha : (f (s.frame i)).Agrees known' r' (f' (s'.frame i))) : Abreast gs i known' r' (s.updateFrame i f) (s'.updateFrame i f') where
  apart := h.apart.updateFrame hf
  inside := by simpa using h.inside
  idle := by rw [Store.frame_updateFrame h.inside, hidle]
  agrees := by
    rw [Store.frame_updateFrame h.inside, Store.frame_updateFrame h.inside']
    exact ha

end Abreast

/-- Two runs have left a frame: the stores are the same, and so is the frame, but for the values of boxes and for the descriptor, which
is that of an operation in one of them and of its twin in the other. -/
structure Departed (i : FrameId) (op op' : Op) (s s' : Store) : Prop where
  rest : s' = s.withFrames s'.frames
  others : ∀ j, j ≠ i → s'.frame j = s.frame j
  descr : (s.frame i).descr = op.descr
  frame : s'.frame i = { s.frame i with descr := op'.descr, env := (s'.frame i).env, overflow := (s'.frame i).overflow }

/-- Two steps succeed together, or fail together, though not with the same words. -/
inductive Parallel {α : Type} (P : α → Store → α → Store → Prop) : EStateM.Result Failure Store α → EStateM.Result Failure Store α → Prop
  | ok {a a' : α} {s s' : Store} (h : P a s a' s') : Parallel P (.ok a s) (.ok a' s')
  | error (e e' : Failure) (s s' : Store) : Parallel P (.error e s) (.error e' s')

/-- Two steps go on, or they leave by an operation and its twin. -/
inductive Onward (i : FrameId) (op op' : Op) (q q' : Position) (P : Store → Store → Prop) : Advance → Store → Advance → Store → Prop
  | next {s s' : Store} (h : P s s') : Onward i op op' q q' P (.next q) s (.next q') s'
  | exit {s s' : Store} (h : Departed i op op' s s') : Onward i op op' q q' P .exit s .exit s'

theorem Parallel.bind {α β : Type} {P : α → Store → α → Store → Prop} {Q : β → Store → β → Store → Prop} {m m' : StoreM α}
    {f f' : α → StoreM β} {s s' : Store} (h : Parallel P (m s) (m' s')) (hf : ∀ a t a' t', P a t a' t' → Parallel Q (f a t) (f' a' t')) :
    Parallel Q ((m >>= f) s) ((m' >>= f') s') := by
  change Parallel Q (EStateM.bind m f s) (EStateM.bind m' f' s')
  unfold EStateM.bind
  cases hm : m s <;> cases hm' : m' s' <;> rw [hm, hm'] at h <;> cases h
  · exact hf _ _ _ _ ‹_›
  · exact .error _ _ _ _

namespace Abreast

variable {gs : Array GuardDescr} {i : FrameId} {known : List Box} {r r' : Peel.Renaming} {s s' : Store} {op op' : Op}

theorem depart (h : Abreast gs i known r s s') {vs vs' : List (Option Value)}
    (hv : Exec.resolveAll (s'.frame i) vs' = Exec.resolveAll (s.frame i) vs) :
    Departed i op op' (s.updateFrame i (Run.save op vs)) (s'.updateFrame i (Run.save op' vs')) where
  rest := by
    rw [h.apart.rest]
    rfl
  others j hj := by rw [Store.frame_updateFrame_of_ne hj, Store.frame_updateFrame_of_ne hj, h.apart.others j hj]
  descr := by
    rw [Store.frame_updateFrame h.inside]
    rfl
  frame := by
    rw [Store.frame_updateFrame h.inside, Store.frame_updateFrame h.inside']
    have hidle' : (s'.frame i).pendingGuard = none := by
      have hp := h.apart.here.pending
      rw [h.idle] at hp
      cases hp' : (s'.frame i).pendingGuard with
      | none => rfl
      | some g =>
        rw [hp'] at hp
        cases hp
    simp only [Run.save, hv, h.apart.here.token, h.apart.here.exc, h.apart.here.forced, h.apart.here.saved, h.idle, hidle']

theorem passGuard (h : Abreast gs i known r s s') (ht : Peel.Twin gs known r op r' op') (hg : op.isGuard = true) :
    Abreast gs i (op.result.toList ++ known) r' (s.updateFrame i (Run.passGuard op)) (s'.updateFrame i (Run.passGuard op')) := by
  have hres : op.code ≠ .guardException → op.result = none := ht.fits.result hg
  have hres' : op'.code ≠ .guardException → op'.result = none := by
    intro hc
    have hr := ht.result
    rw [hres (ht.code ▸ hc)] at hr
    generalize op'.result = res' at hr
    cases hr
    rfl
  have hx := h.apart.here
  refine h.updateFrame ?_ ?_ (h.agrees.rebind (fun _ => .const (.ptr (s.frame i).exc)) ht.result (fun _ _ _ => rfl) ?_ ?_)
  · rw [Run.passGuard_eq hres, Run.passGuard_eq hres', ht.code, hx.exc]
    exact ⟨hx.token, rfl, hx.forced, hx.saved, hx.descr, hx.pending⟩
  · rw [Run.passGuard_eq hres]
    exact h.idle
  · rw [Run.passGuard_eq hres]
  · rw [Run.passGuard_eq hres', hx.exc]

end Abreast

/-! ## Executed operations -/

theorem execute_guard (code : Opcode) (g g' : GuardId) (args : List Value) :
    execute code (some (.guard g')) args = execute code (some (.guard g)) args := by
  have hmemory : Exec.memory code (some (.guard g')) args = Exec.memory code (some (.guard g)) args := by
    cases code <;> rfl
  simp only [execute, hmemory]

namespace Run

/-- What is left of an operation that has been executed. -/
def conclude (i : FrameId) (op : Op) (outcome : Except ExecError (Option Value)) (s : Store) : EStateM.Result Failure Store Unit :=
  match isFatal outcome with
  | some e => .error (.wrapped s!"llgraph: {s.opText op}" (.plain (e.message s))) (s.updateFrame i (finishOp op outcome))
  | none => .ok ⟨⟩ (s.updateFrame i (finishOp op outcome))

theorem perform_eq (i : FrameId) (op : Op) (s : Store) : perform i op s = match execute op.code op.descr (arguments (s.frame i) op) s with
      | .ok v t => conclude i op (.ok v) t
      | .error e t => conclude i op (.error e) t := by
  have hend (outcome : Except ExecError (Option Value)) (t : Store) : (do
      set (t.updateFrame i (finishOp op outcome))
      match isFatal outcome with
      | some e => throw (.wrapped s!"llgraph: {t.opText op}" (.plain (e.message t)))
      | none => pure () : StoreM Unit) s = conclude i op outcome t := by
    unfold conclude
    cases isFatal outcome <;> rfl
  have hread : (get : StoreM Store) s = .ok s s := rfl
  unfold perform
  rw [bind_of_ok hread]
  cases h : execute op.code op.descr (arguments (s.frame i) op) s with
  | ok v t =>
    simp only [EStateM.run, h]
    exact hend (.ok v) t
  | error e t =>
    simp only [EStateM.run, h]
    exact hend (.error e) t

/-- A call that may force the frame knows the guard behind it. -/
def expect (unit : CompiledUnit) (pc : Nat) (op : Op) (f : Frame) : Frame :=
  if op.code = .callMayForce then { f with pendingGuard := unit.ops[pc + 1]? } else f

theorem executeOp_eq {i : FrameId} {unit : CompiledUnit} {pc : Nat} {op : Op} {s : Store} (h : op.code ≠ .forceToken) :
    executeOp i unit pc op s = perform i op (s.updateFrame i (expect unit pc op)) := by
  rw [executeOp, if_neg h]
  by_cases hc : op.code = .callMayForce
  · rw [if_pos hc]
    have e : expect unit pc op = fun f => { f with pendingGuard := unit.ops[pc + 1]? } := funext fun f => if_pos hc
    rw [e]
    rfl
  · rw [if_neg hc]
    have e : expect unit pc op = id := funext fun f => if_neg hc
    rw [e, Store.updateFrame_id]
    rfl

variable {gs : Array GuardDescr} {i : FrameId} {known : List Box} {r r' : Peel.Renaming} {s s' : Store} {op op' : Op}

theorem env_of_execute (i : FrameId) (code : Opcode) (descr : Option Descr) (args : List Value) (s : Store) :
    (∀ v t, execute code descr args s = .ok v t → (t.frame i).env = (s.frame i).env ∧ t.frames.size = s.frames.size) ∧
    ∀ e t, execute code descr args s = .error e t → (t.frame i).env = (s.frame i).env ∧ t.frames.size = s.frames.size :=
  ⟨fun v t h => have hext := (Extending.execute _ _ _ s).1 v t h; ⟨hext.env i, hext.frames⟩,
    fun e t h => have hext := (Extending.execute _ _ _ s).2 e t h; ⟨hext.env i, hext.frames⟩⟩

/-- Behind an operation the result has its two names, and both frames know the same about an overflow. -/
def Behind (gs : Array GuardDescr) (i : FrameId) (known : List Box) (r : Peel.Renaming) (s s' : Store) : Prop :=
  Abreast gs i known r s s' ∧ (s'.frame i).overflow = (s.frame i).overflow

section

variable (h : Apart gs i s s') (hi : i < s.frames.size) (ha : (s.frame i).Agrees known r (s'.frame i)) (ht : Peel.Twin gs known r op r' op')
include h hi ha ht

theorem conclude_twin (outcome : Except ExecError (Option Value)) :
    Parallel (fun _ s _ s' => Behind gs i (op.result.toList ++ known) r' s s') (conclude i op outcome s) (conclude i op' outcome s') := by
  unfold conclude
  cases isFatal outcome with
  | some e => exact .error _ _ _ _
  | none =>
    refine .ok ⟨⟨h.updateFrame ?_, ?_, ?_, ?_⟩, ?_⟩
    · rw [finishOp_eq, finishOp_eq, h.here.exc]
      exact ⟨h.here.token, rfl, h.here.forced, h.here.saved, h.here.descr, .none⟩
    · simpa using hi
    · rw [Store.frame_updateFrame hi, finishOp_eq]
    · rw [Store.frame_updateFrame hi, Store.frame_updateFrame (h.size ▸ hi)]
      refine ha.rebind (fun b => resultOf b outcome) ht.result (fun b c e => ?_) (finishOp_env _ _ _) (finishOp_env _ _ _)
      unfold resultOf
      simp only [e]
    · rw [Store.frame_updateFrame hi, Store.frame_updateFrame (h.size ▸ hi), finishOp_overflow, finishOp_overflow]

theorem perform_twin : Parallel (fun _ s _ s' => Behind gs i (op.result.toList ++ known) r' s s') (perform i op s) (perform i op' s') := by
  have hsame : execute op'.code op'.descr (arguments (s'.frame i) op') s' = execute op.code op.descr (arguments (s.frame i) op) s' := by
    rw [ha.arguments ht, ht.code]
    rcases ht.descr with e | ⟨g, g', e, e'⟩
    · rw [e]
    · rw [e, e', execute_guard]
  rw [perform_eq, perform_eq, hsame]
  have hagree := Blind.execute op.code op.descr (arguments (s.frame i) op) s s' h
  obtain ⟨hok, herror⟩ := env_of_execute i op.code op.descr (arguments (s.frame i) op) s
  obtain ⟨hok', herror'⟩ := env_of_execute i op.code op.descr (arguments (s.frame i) op) s'
  cases e : execute op.code op.descr (arguments (s.frame i) op) s <;>
    cases e' : execute op.code op.descr (arguments (s.frame i) op) s' <;> rw [e, e'] at hagree <;> cases hagree
  · rename_i hx
    exact conclude_twin hx ((hok _ _ e).2 ▸ hi) (ha.resolve_congr (hok _ _ e).1 (hok' _ _ e').1) ht _
  · rename_i hx
    exact conclude_twin hx ((herror _ _ e).2 ▸ hi) (ha.resolve_congr (herror _ _ e).1 (herror' _ _ e').1) ht _

end

/-- The store with an object for a frame, which a call can force the frame by. -/
def withToken (i : FrameId) (s : Store) : Store := { s with objects := s.objects.push (.frameToken i) }

/-- The frame takes the object. -/
def give (op : Op) (r : Ref) (f : Frame) : Frame :=
  match op.result with
  | some b => { f with env := f.env.insert b (some (.ofRef r)) }
  | none => f

theorem executeOp_token {unit : CompiledUnit} {pc : Nat} (h : op.code = .forceToken) :
    executeOp i unit pc op s = .ok ⟨⟩ ((withToken i s).updateFrame i (give op s.objects.size)) := by
  rw [executeOp, if_pos h]
  rfl

theorem give_eq (op : Op) (r : Ref) (f : Frame) : give op r f = { f with env := match op.result with
    | some b => f.env.insert b (some (.ofRef r))
    | none => f.env } := by
  unfold give
  cases op.result <;> rfl

theorem executeOp_twin {unit unit' : CompiledUnit} {pc pc' : Nat} (h : Abreast gs i known r s s') (ht : Peel.Twin gs known r op r' op')
    (hnext : Option.Rel (fun g g' : Op => Quiet gs g.descr g'.descr) unit.ops[pc + 1]? unit'.ops[pc' + 1]?) :
    Parallel (fun _ t _ t' => Abreast gs i (op.result.toList ++ known) r' t t' ∧
      (op.code ≠ .forceToken ∨ (s'.frame i).overflow = (s.frame i).overflow → (t'.frame i).overflow = (t.frame i).overflow))
      (executeOp i unit pc op s) (executeOp i unit' pc' op' s') := by
  have hx := h.apart.here
  by_cases hc : op.code = .forceToken
  · rw [executeOp_token hc, executeOp_token (ht.code.trans hc)]
    have hpush : Agree (Apart gs i) (.ok s.objects.size (withToken i s) : EStateM.Result Failure Store Ref)
        (.ok s'.objects.size (withToken i s')) := Blind.newObject _ s s' h.apart
    obtain ⟨hsize, hnew⟩ := hpush.of_ok
    have habreast : Abreast gs i known r (withToken i s) (withToken i s') := ⟨hnew, h.inside, h.idle, h.agrees⟩
    rw [hsize]
    refine .ok ⟨habreast.updateFrame ?_ ?_ (h.agrees.rebind (fun _ => .ofRef s.objects.size) ht.result (fun _ _ _ => rfl) ?_ ?_), ?_⟩
    · rw [give_eq, give_eq]
      exact ⟨hx.token, hx.exc, hx.forced, hx.saved, hx.descr, hx.pending⟩
    · rw [give_eq]
      exact h.idle
    · rw [give_eq]
      rfl
    · rw [give_eq]
      rfl
    · rintro (hne | ho)
      · exact absurd hc hne
      · rw [Store.frame_updateFrame habreast.inside', Store.frame_updateFrame habreast.inside, give_eq, give_eq]
        exact ho
  · rw [executeOp_eq hc, executeOp_eq (ht.code ▸ hc)]
    have hexpect (unit : CompiledUnit) (pc : Nat) (op : Op) (f : Frame) : (expect unit pc op f).env = f.env := by
      unfold expect
      split <;> rfl
    have hapart : Apart gs i (s.updateFrame i (expect unit pc op)) (s'.updateFrame i (expect unit' pc' op')) := by
      refine h.apart.updateFrame ?_
      rw [expect, expect, ht.code]
      split
      · exact ⟨hx.token, hx.exc, hx.forced, hx.saved, hx.descr, hnext⟩
      · exact hx
    have hagrees := h.agrees.resolve_congr (hexpect unit pc op _) (hexpect unit' pc' op' _)
    rw [← Store.frame_updateFrame (f := expect unit pc op) h.inside, ← Store.frame_updateFrame (f := expect unit' pc' op') h.inside'] at hagrees
    have hp := perform_twin hapart (by simpa using h.inside) hagrees ht
    generalize perform i op (s.updateFrame i (expect unit pc op)) = x at hp
    generalize perform i op' (s'.updateFrame i (expect unit' pc' op')) = x' at hp
    cases hp with
    | ok hb => exact .ok ⟨hb.1, fun _ => hb.2⟩
    | error e e' t t' => exact .error e e' t t'

/-! ## Steps -/

variable {c c' : CodeCache} {u u' : UnitId} {k k' : Nat}

theorem advance_eq (hop : (c.unit u).ops[k]? = some op) (hs : op.code ≠ .label ∧ op.code ≠ .jump) :
    advance c i ⟨u, k⟩ s = if op.code = .finish then .ok .exit (s.updateFrame i (save op (op.args.map some)))
      else if op.isGuard then guard c i ⟨u, k⟩ op s
      else (executeOp i (c.unit u) k op >>= fun _ => pure (.next ⟨u, k + 1⟩)) s := by
  unfold advance
  rw [hop]
  dsimp only
  rw [if_neg hs.1, if_neg hs.2]
  split
  · rfl
  · split <;> rfl

theorem guard_eq {p : Position} (hb : op.descr.bind c.bridge? = none) :
    guard c i p op s = if holds s (s.frame i) op then .ok (.next { p with pc := p.pc + 1 }) (s.updateFrame i (passGuard op))
      else .ok .exit (s.updateFrame i (save op (op.fail.getD []))) := by
  change (if holds s (s.frame i) op then _ else _ : StoreM Advance) s = _
  split
  · rfl
  · rw [hb]
    rfl

section

variable (hop : (c.unit u).ops[k]? = some op) (hg : op.isGuard = true)
include hop hg

theorem advance_guard : advance c i ⟨u, k⟩ s = guard c i ⟨u, k⟩ op s := by
  have hne (code : Opcode) (h : code.isGuard = false) : op.code ≠ code := by
    rintro rfl
    exact absurd (hg.symm.trans h) (by decide)
  rw [advance_eq hop ⟨hne .label rfl, hne .jump rfl⟩, if_neg (hne .finish rfl), if_pos hg]

theorem advance_pass (he : op.code ≠ .guardException)
    (hb : op.descr.bind c.bridge? = none) (h : holds s (s.frame i) op = true) : advance c i ⟨u, k⟩ s = .ok (.next ⟨u, k + 1⟩) s := by
  have hpass : passGuard op = id := funext fun f => if_neg he
  rw [advance_guard hop hg, guard_eq hb, if_pos h, hpass, Store.updateFrame_id]

theorem advance_leave (hb : op.descr.bind c.bridge? = none)
    (h : holds s (s.frame i) op = false) : advance c i ⟨u, k⟩ s = .ok .exit (s.updateFrame i (save op (op.fail.getD []))) := by
  rw [advance_guard hop hg, guard_eq hb, if_neg (Bool.eq_false_iff.1 h)]

end

/-- A step with an operation and a step with its twin go on together, leave together, or fail together. -/
theorem advance_twin (hop : (c.unit u).ops[k]? = some op) (hop' : (c'.unit u').ops[k']? = some op')
    (hnext : Option.Rel (fun g g' : Op => Quiet gs g.descr g'.descr) (c.unit u).ops[k + 1]? (c'.unit u').ops[k' + 1]?)
    (hb : op.descr.bind c.bridge? = none) (hb' : op'.descr.bind c'.bridge? = none) (h : Abreast gs i known r s s')
    (ht : Peel.Twin gs known r op r' op') (ho : op.asksOverflow = true → (s'.frame i).overflow = (s.frame i).overflow) :
    Parallel (Onward i op op' ⟨u, k + 1⟩ ⟨u', k' + 1⟩ fun t t' => Abreast gs i (op.result.toList ++ known) r' t t' ∧
      (op.setsOverflow = true ∨ (s'.frame i).overflow = (s.frame i).overflow → (t'.frame i).overflow = (t.frame i).overflow))
      (advance c i ⟨u, k⟩ s) (advance c' i ⟨u', k'⟩ s') := by
  have hs' : op'.code ≠ .label ∧ op'.code ≠ .jump := by
    rw [ht.code]
    exact ht.fits.straight
  have hguard' : op'.isGuard = op.isGuard := by rw [Op.isGuard, Op.isGuard, ht.code]
  rw [advance_eq hop ht.fits.straight, advance_eq hop' hs', ht.code, hguard']
  split
  · exact .ok (.exit (h.depart (h.agrees.finishArgs ht)))
  split
  · rename_i hg
    rw [guard_eq hb, guard_eq hb', h.holds ht ho]
    split
    · refine .ok (.next ⟨h.passGuard ht hg, ?_⟩)
      rintro (hsets | heq)
      · simp [Op.setsOverflow, hg] at hsets
      · have hover (op : Op) (f : Frame) : (passGuard op f).overflow = f.overflow := by
          unfold passGuard
          split
          · split <;> rfl
          · rfl
        rw [Store.frame_updateFrame h.inside, Store.frame_updateFrame h.inside', hover, hover, heq]
    · exact .ok (.exit (h.depart (h.agrees.fails ht)))
  · rename_i hg
    refine (executeOp_twin h ht hnext).bind fun _ t _ t' ht' => .ok (.next ⟨ht'.1, fun ho => ht'.2 ?_⟩)
    rcases ho with hsets | heq
    · exact .inl (by simpa [Op.setsOverflow, hg] using hsets)
    · exact .inr heq

end Run

end FlowCompiler.Trace
