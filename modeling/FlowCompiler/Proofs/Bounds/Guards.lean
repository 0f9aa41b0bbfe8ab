import Mathlib.Order.Nat
import FlowCompiler.Proofs.Bounds.Algebra
import FlowCompiler.Proofs.Tokens.Passes
import FlowCompiler.Trace.Optimize.Chain

/-!
# Guards that are removed

A guard is written out, unless what is known says that it holds.  The operations written out only get more, so
that a guard after which there are as many as before was removed.
-/

/-! ## The row of passes

With the passes of bounds and of known values turned on, every operation of a trace that does what it does in
the run leaves the state sound.  Writing an operation out does not change what its operands stand for, since
nothing is virtual. -/

namespace FlowCompiler.Trace.Bounds

open OptimizeM

variable {o : Outcome} {m : Meaning} {op : Op}
variable {s : OptimizeState}

/-! ### Writing out -/

/-- Every entry has a value that stands for it: nothing is virtual. -/
def Boxed (s : OptimizeState) : Prop := ∀ (v : Value) (i : InfoId), s.ids[v]? = some i → ∃ w, (s.info i).box = some w

theorem Sound.boxed (h : Sound o m s) : Boxed s := by
  intro v i hi
  obtain ⟨w, hw, -⟩ := (h.entry i _ (h.ids v i hi)).box
  exact ⟨w, hw⟩

/-- What stands for an argument. -/
def written (emit : Emit) (v : Value) : OptimizeM Value := do
  match (← get).id? v with
  | some i => force emit i
  | none => pure v

variable {ops : List Op} {emit next : Emit}

theorem force_eq {i : InfoId} {w : Value} (h : (s.info i).box = some w) : force emit i s = .ok w s := by
  have hinfo : info i s = .ok (s.info i) s := rfl
  change forceAux emit (4 * s.infos.size + 8) i s = _
  rw [forceAux, bind_eq hinfo, h]
  rfl

theorem written_eq (emit : Emit) (v : Value) (hb : Boxed s) :
    ∃ w, written emit v s = .ok w s ∧ (s.id? v = none ∧ w = v ∨ ∃ i, s.id? v = some i ∧ (s.info i).box = some w) := by
  have hget : (get : OptimizeM OptimizeState) s = .ok s s := rfl
  rw [written, bind_eq hget]
  cases hi : s.id? v with
  | none => exact ⟨v, rfl, .inl ⟨rfl, rfl⟩⟩
  | some i =>
    obtain ⟨k, -, hk⟩ := Option.bind_eq_some_iff.1 hi
    obtain ⟨w, hw⟩ := hb k i hk
    exact ⟨w, force_eq hw, .inr ⟨i, rfl, hw⟩⟩

theorem writtenArgs_eq (emit : Emit) (args : List Value) (hb : Boxed s) : ∃ args', args.mapM (written emit) s = .ok args' s ∧
      List.Forall₂ (fun v w => s.id? v = none ∧ w = v ∨ ∃ i, s.id? v = some i ∧ (s.info i).box = some w) args args' := by
  induction args with
  | nil => exact ⟨[], rfl, .nil⟩
  | cons v rest ih =>
    obtain ⟨w, hw, ew⟩ := written_eq emit v hb
    obtain ⟨ws, hws, ews⟩ := ih
    refine ⟨w :: ws, ?_, .cons ew ews⟩
    rw [List.mapM_cons, bind_eq hw, bind_eq hws]
    rfl

theorem writtenArgs_spec {args : List Value} (hp : ∀ v ∈ args, (o.val v).Plain) :
    Preserves (Sound o) m (args.mapM (written emit)) fun args' _ => args'.map o.val = args.map o.val := by
  intro s hs a s' e
  obtain ⟨args', h, h'⟩ := writtenArgs_eq emit args hs.boxed
  cases h.symm.trans e
  refine ⟨m, le_refl m, hs, ?_⟩
  clear h e
  induction h' with
  | nil => rfl
  | @cons v w rest ws h _ ih =>
    have hval : o.val w = o.val v := by
      rcases h with ⟨-, rfl⟩ | ⟨i, hi, hw⟩
      · rfl
      · obtain ⟨u, hu, e⟩ := (hs.entry i _ (hs.entry_of_id? (hp v (by simp)) hi).1).box
        cases hu.symm.trans hw
        exact e
    simp [hval, ih fun u hu => hp u (by simp [hu])]

theorem guardData_keeps : Safe (Sound o) m (guardData op) := by
  refine Preserves.get fun s _ => ?_
  refine Preserves.bind (Q := fun _ _ => True) (Preserves.modify fun s hs => ⟨m, le_refl m, { hs with }, trivial⟩) fun _ m₁ h₁ _ => ?_
  split
  · exact Preserves.throw
  · split
    · refine Preserves.bind (Q := fun _ _ => True) (Preserves.modify fun s hs => ⟨m₁, le_refl _, { hs with store := ?_ }, trivial⟩)
        fun _ _ _ _ => Preserves.pure trivial
      obtain ⟨gs, e⟩ := hs.store
      exact ⟨_, by rw [e]; rfl⟩
    · exact Preserves.pure trivial

theorem writeOut_spec (n : Nat) : Algebra.Writes o (writeOut n) := by
  intro m op hp ht
  cases n with
  | zero => exact Preserves.throw
  | succ n =>
    refine (writtenArgs_spec hp).bind fun args m₁ h₁ hargs => ?_
    have hpush (f : OptimizeState → Op × Option ResumeData) (m' : Meaning) : Safe (Sound o) m' (modify fun s => { s with out := s.out.push (f s) }) :=
      Preserves.modify fun s hs => ⟨m', le_refl m', { hs with }, trivial⟩
    have hrest {m' : Meaning} (op : Op) : Safe (Sound o) m' (do
        if op.isGuard then
          let data ← guardData op
          let fail := data.live.toList.map fun b => some (.box b)
          modify fun s => { s with out := s.out.push ({ op with fail := some fail }, some data) }
        else modify fun s => { s with out := s.out.push (op, none) }) :=
      Preserves.ite (fun _ => Preserves.bind guardData_keeps fun _ _ _ _ => hpush _ _) fun _ => hpush _ _
    refine Preserves.ite (fun h0 => ?_) fun _ => hrest _
    refine Preserves.bind (Q := fun _ _ => True) (Preserves.modify fun s hs => ⟨m₁, le_refl _, { hs with written := ?_ }, trivial⟩)
      fun _ _ _ _ => hrest _
    intro t args' hw
    rw [Std.HashMap.getElem?_insert] at hw
    split at hw
    · rename_i e
      cases hw
      rw [← eq_of_beq e, hargs]
      exact ((ht.mono h₁).resolve_left h0).2
    · exact hs.written t args' hw

theorem write_spec : Algebra.Writes o write := fun m op hp ht => Preserves.get fun _ _ => writeOut_spec _ m op hp ht

theorem jump_spec (hn : Algebra.Writes o next) : Algebra.Writes o (Simplify.jump next) := by
  intro m op hp ht
  unfold Simplify.jump
  split
  · refine Preserves.get fun s _ => ?_
    dsimp only
    split
    · exact hn m _ hp (.inl rfl)
    · exact hn m _ hp (.inl rfl)
    · exact Preserves.throw
  · exact hn m op hp ht

theorem simplify_spec (hn : Algebra.Writes o next) : Algebra.Writes o (Simplify.pass next) := by
  intro m op hp ht
  unfold Simplify.pass
  split
  · exact hn m _ hp (.inl rfl)
  · exact hn m _ hp (.inl rfl)
  · exact hn m _ (fun v hv => hp v (List.mem_of_mem_take hv)) (.inl rfl)
  iterate 4 exact Preserves.pure trivial
  · split
    · exact jump_spec hn m _ hp (.inl rfl)
    · refine Preserves.bind (Q := fun _ _ => True) (Preserves.modify fun s hs => ⟨m, le_refl m, { hs with }, trivial⟩)
        fun _ m₁ h₁ _ => hn m₁ op hp (ht.mono h₁)
    · exact hn m op hp ht
  · exact jump_spec hn m op hp ht
  · exact hn m op hp ht

/-! ### The chain -/

/-- The passes of this theory: bounds, known values, and what every chain ends with. -/
def passes : List Pass := [.bounds, .algebra, .simplify]

/-- What is asked of an operation of a trace: it does what it does in the run, without wrapping around. -/
structure Regular (o : Outcome) (op : Op) : Prop where
  obeys : o.Obeys op
  exact : o.Exact op
  names : op.NamesValue

theorem through_spec (restart : Emit) (h : Regular o op) (ht : m.Tagged o op) : Safe (Sound o) m (through restart passes op) :=
  pass_spec (Algebra.pass_spec (simplify_spec write_spec)) h.obeys h.names ht

theorem send_spec (n : Nat) (h : Regular o op) : Safe (Sound o) m (send passes n op) := by
  cases n with
  | zero => exact Preserves.pure trivial
  | succ n =>
    refine (tagged_spec op).bind fun op' m₁ h₁ htag => ?_
    obtain ⟨ht, t, rfl⟩ := htag
    have hrest {m₂ : Meaning} (hle : m₁ ≤ m₂) : Safe (Sound o) m₂ (through (send passes n) passes { op with tag := t }) :=
      through_spec _ ⟨h.obeys, h.exact, h.names⟩ (ht.mono hle)
    split
    · rename_i r hr
      refine Preserves.bind (Q := fun _ _ => True) (Preserves.modify fun s hs => ⟨m₁, le_refl _, { hs with producers := ?_ }, trivial⟩)
        fun _ m₂ h₂ _ => hrest h₂
      intro b p hb
      rw [Std.HashMap.getElem?_insert] at hb
      split at hb
      · rename_i e
        cases hb
        rw [← eq_of_beq e]
        exact ⟨hr, h.obeys, h.exact, ht⟩
      · exact hs.producers b p hb
    · exact hrest (le_refl _)

theorem propagate_spec (h : ∀ op ∈ ops, Regular o op) : Safe (Sound o) m (propagate passes ops) := by
  have hcopy (op : Op) (hop : Regular o op) : Regular o op.copy := ⟨hop.obeys, hop.exact, hop.names⟩
  refine Preserves.bind (Preserves.forIn fun op hop m' _ => ?_) fun _ _ _ _ => Preserves.pure trivial
  exact send_spec _ (hcopy op (h op hop))

theorem sound_start (o : Outcome) (settings : TraceSettings) (table : CallTable) (hpasses : Pass.enabled settings.enable = passes) :
    Sound o ⟨[], [], [], fun _ => False⟩ (.start o.store settings table) where
  infos_size := rfl
  bounds_size := rfl
  tags_eq := rfl
  ids v i h := by simp [OptimizeState.start] at h
  constIds c i h := by simp [OptimizeState.start] at h
  entry i c h := by simp [Meaning.Entry] at h
  consts i h := h.elim
  bound b n h := by simp [Meaning.BoundOf] at h
  bools i h := by simp [OptimizeState.start] at h
  once p h := by simp [OptimizeState.start] at h
  producers b op h := by simp [OptimizeState.start] at h
  written t args h := by simp [OptimizeState.start] at h
  store := ⟨o.store.guards, rfl⟩
  remembersPure := by simp [OptimizeState.start, hpasses, passes]

/-- After a trace whose operations are regular everything that is held is true of the run. -/
theorem sound_of_optimize {settings : TraceSettings} {table : CallTable} (hpasses : Pass.enabled settings.enable = passes)
    (hops : ∀ op ∈ ops, Regular o op) (h : optimize o.store settings table ops = .ok () s) : ∃ m, Sound o m s := by
  rw [optimize, hpasses] at h
  obtain ⟨m, -, hs, -⟩ := propagate_spec hops _ (sound_start o settings table hpasses) () s h
  exact ⟨m, hs⟩

end FlowCompiler.Trace.Bounds

namespace FlowCompiler.Trace.Bounds

open OptimizeM

/-! ## Guards -/

variable {W : Type} {c : OptimizeM α} {f : α → OptimizeM β} {d : OptimizeM α}

/-- A computation writes something out, unless `H`. -/
def Settles (I : W → OptimizeState → Prop) (w : W) (H : Prop) {α : Type} (c : OptimizeM α) : Prop :=
  ∀ s, I w s → ∀ a s', c s = .ok a s' → s.out.size < s'.out.size ∨ H

namespace Settles

variable {I : W → OptimizeState → Prop} {w : W} {H : Prop} {α β : Type}

theorem pure {a : α} (h : H) : Settles I w H (Pure.pure a : OptimizeM α) := fun _ _ _ _ _ => .inr h

theorem throw {f : Failure} : Settles I w H (MonadExcept.throw f : OptimizeM α) := by
  intro s _ a s' e
  cases e

theorem throw_bind {f : Failure} {k : α → OptimizeM β} : Settles I w H (MonadExcept.throw f >>= k) := by
  intro s _ a s' e
  cases e

theorem of_false (h : Settles I w False c) : Settles I w H c := fun s hs a s' e => (h s hs a s' e).imp_right False.elim

theorem ite {p : Prop} [Decidable p] (hc : p → Settles I w H c) (hd : ¬ p → Settles I w H d) : Settles I w H (if p then c else d) := by
  split
  · exact hc ‹_›
  · exact hd ‹_›

theorem get {f : OptimizeState → OptimizeM β} (h : ∀ s, I w s → Settles I w H (f s)) : Settles I w H (MonadState.get >>= f) :=
  fun s hs a s' e => h s hs s hs a s' e

/-- Nothing is lost by what goes before and does not write. -/
theorem bind [Preorder W] {c : OptimizeM α} {Q : α → W → Prop} {f : α → OptimizeM β} (hc : Preserves I w c Q) [Trace.Keeps OptimizeState.out c]
    (hf : ∀ a w', w ≤ w' → Q a w' → Settles I w' H (f a)) : Settles I w H (c >>= f) := by
  intro s hs b s'' e
  obtain ⟨a, s', e', e⟩ := of_bind_ok e
  obtain ⟨w', h', hs', hq⟩ := hc s hs a s' e'
  exact Trace.Keeps.of_ok OptimizeState.out c e' ▸ hf a w' h' hq s' hs' b s'' e

/-- Nothing is lost by what comes after and does not write. -/
theorem followed (hc : Settles I w H c) [h : ∀ a, Trace.Keeps OptimizeState.out (f a)] : Settles I w H (c >>= f) := by
  intro s hs b s'' e
  obtain ⟨a, s', e', e⟩ := of_bind_ok e
  exact Trace.Keeps.of_ok OptimizeState.out (f a) e ▸ hc s hs a s' e'

end Settles

section Write

variable {o : Outcome} {m : Meaning} {op : Op} {α β : Type}

/-- Something is written out, whatever the state. -/
def Emits (c : OptimizeM α) : Prop := ∀ s a s', c s = .ok a s' → s.out.size < s'.out.size

theorem Emits.bind [Trace.Keeps OptimizeState.out c] (hf : ∀ a, Emits (f a)) : Emits (c >>= f) := by
  intro s b s'' e
  obtain ⟨a, s', e', e⟩ := of_bind_ok e
  exact Trace.Keeps.of_ok OptimizeState.out c e' ▸ hf a s' b s'' e

theorem Emits.push (x : Op × Option ResumeData) : Emits (modify fun s => { s with out := s.out.push x } : OptimizeM Unit) := by
  intro s a s' e
  cases e
  simp

instance guardData_keeps_out (op : Op) : Trace.Keeps OptimizeState.out (guardData op) := by
  have store (f : OptimizeState → Store) : Trace.Keeps OptimizeState.out (modify fun s => { s with store := f s } : OptimizeM PUnit) :=
    .beside fun _ => rfl
  refine .seq fun s => .seq fun _ => ?_
  split
  · infer_instance
  · split <;> infer_instance

variable {I : W → OptimizeState → Prop} {w : W}

theorem settles_write (hI : ∀ w s, I w s → Boxed s) : Settles I w False (write op) := by
  have hpush (op : Op) : Emits (do
      if op.isGuard then
        let data ← guardData op
        let fail := data.live.toList.map fun b => some (.box b)
        modify fun s => { s with out := s.out.push ({ op with fail := some fail }, some data) }
      else modify fun s => { s with out := s.out.push (op, none) }) := by
    split
    · exact Emits.bind fun _ => Emits.push _
    · exact Emits.push _
  intro s hs a s' e
  left
  change writeOut (s.infos.size + 2) op s = _ at e
  obtain ⟨args, hargs, -⟩ := writtenArgs_eq (writeOut (s.infos.size + 1)) op.args (hI w s hs)
  replace e := (bind_eq hargs).symm.trans e
  by_cases ht : op.tag ≠ 0
  · rw [if_pos ht] at e
    exact Emits.bind (fun _ => hpush _) s a s' e
  · rw [if_neg ht] at e
    exact hpush _ s a s' e

/-- What comes after the passes writes guards out. -/
def Final (I : W → OptimizeState → Prop) (next : Emit) : Prop :=
  ∀ w op, op.isGuard = true → op.code ≠ .guardFutureCondition → Settles I w False (next op)

theorem final_simplify (hI : ∀ w s, I w s → Boxed s) : Final I (Simplify.pass write) := by
  intro m op hg hf
  have hnot {code : Opcode} (h : code.isGuard = false) (e : op.code = code) : False := by
    rw [Op.isGuard, e, h] at hg
    cases hg
  unfold Simplify.pass
  split
  case h_7 => exact (hf ‹_›).elim
  case h_10 => exact settles_write hI
  all_goals exact (hnot rfl ‹_›).elim

/-! ## What a removed guard would have found -/

/-- A guard that is left out holds. -/
def Needless (o : Outcome) (op : Op) : Prop :=
  let x := o.val (op.arg 0)
  let y := o.val (op.arg 1)
  match op.code with
  | .guardTrue => x.num ≠ 0
  | .guardFalse => x.num = 0
  | .guardValue => x = y
  | .guardNonnull => ∃ r, x = .ptr (some r)
  | .guardIsnull => x = .null
  | .guardClass | .guardNonnullClass => o.HasClass x y
  | .guardNoOverflow | .guardFutureCondition => True
  | _ => False

/-- What is asked of a guard to be judged: operands that are plain, and references where they are expected. -/
structure Judged (o : Outcome) (op : Op) : Prop where
  guard : op.isGuard = true
  result : op.code ≠ .guardException → op.result = none
  plain : ∀ v ∈ op.args, (o.val v).Plain
  kinds : ∀ k, op.code.operandKind = some k → (o.val (op.arg 0)).kind = k

variable {next : Emit}

theorem Judged.plain_arg (h : Judged o op) (i : Nat) : (o.val (op.arg i)).Plain := by
  rw [Op.arg]
  cases hi : op.args[i]? with
  | none => exact o.plain_value _
  | some v => exact h.plain _ (List.mem_of_getElem? hi)

/-! ### Known values -/

section Algebra

open FlowCompiler.Trace.Algebra

section

variable (hn : Final (Sound o) next) (h : Judged o op)
include hn h

theorem settles_guardBool (hc : op.code = .guardTrue ∨ op.code = .guardFalse) : Settles (Sound o) m (Needless o op) (guardBool next op) := by
  refine Settles.bind (constIntOf_spec (h.plain_arg 0)) fun n m₁ _ hn' => ?_
  split
  · rename_i k
    refine Settles.ite (fun hk => Settles.pure ?_) fun _ => Settles.throw
    rw [Needless, hn' k rfl]
    rcases hc with e | e <;> simp [e] at hk ⊢ <;> exact hk
  · refine Settles.of_false (Settles.followed (hn m₁ op h.guard ?_))
    rcases hc with e | e <;> simp [e]

theorem settles_guardNonNull (hc : op.code = .guardNonnull) : Settles (Sound o) m (Needless o op) (guardNonNull next op) := by
  refine Settles.bind (idOf_spec (h.plain_arg 0)) fun i m₁ _ hi => ?_
  refine Settles.bind (info_spec hi.1) fun x m₂ _ hx => ?_
  refine Settles.ite (fun hnon => Settles.pure ?_) fun _ => Settles.ite (fun _ => Settles.throw) fun _ => ?_
  · rw [Needless, hc]
    exact Describes.nonNull_of_isNonNull hx.1 (h.kinds .ref (hc ▸ rfl)) hnon
  · exact Settles.of_false (Settles.followed (hn m₂ op h.guard (by simp [hc])))

theorem settles_guardIsNull (hc : op.code = .guardIsnull) : Settles (Sound o) m (Needless o op) (guardIsNull next op) := by
  refine Settles.bind (infoOf_spec (h.plain_arg 0)) fun x m₁ _ hx => ?_
  refine Settles.ite (fun hnull => Settles.pure ?_) fun _ => Settles.ite (fun _ => Settles.throw) fun _ => ?_
  · rw [Needless, hc]
    exact Describes.eq_null hx.1 hnull
  · exact Settles.of_false (Settles.followed (hn m₁ op h.guard (by simp [hc])))

theorem settles_guardClass (hc : op.code = .guardClass ∨ op.code = .guardNonnullClass) :
    Settles (Sound o) m (Needless o op) (guardClass next op) := by
  have hf : op.code ≠ .guardFutureCondition := by rcases hc with e | e <;> simp [e]
  refine Settles.bind (idOf_spec (h.plain_arg 0)) fun i m₁ h₁ hi => ?_
  refine Settles.bind (infoOf_spec (h.plain_arg 1)) fun y m₂ h₂ hy => ?_
  refine Settles.bind (classOfConst?_spec hy.1) fun c m₃ h₃ hclass => ?_
  split
  · exact Settles.of_false (hn m₃ op h.guard hf)
  · rename_i cls
    refine Settles.bind (info_spec ((hi.1.mono h₂).mono h₃)) fun x m₄ h₄ hx => ?_
    refine Settles.ite (fun _ => Settles.throw_bind) fun _ => ?_
    split
    · rename_i known hknown
      refine Settles.ite (fun e => Settles.pure ?_) fun _ => Settles.get fun _ _ => Settles.throw
      subst e
      unfold Info.knownClass? at hknown
      split at hknown
      · obtain ⟨r, hr, hk⟩ := hx.1.cls _ hknown
        have hneed : o.HasClass (o.val (op.arg 0)) (o.val (op.arg 1)) := ⟨r, known, hr, hclass _ rfl, hk⟩
        rcases hc with e | e <;> rw [Needless, e] <;> exact hneed
      · cases hknown
    · refine Settles.of_false (Settles.followed ?_)
      split
      · exact hn m₄ _ rfl (by simp [Op.change])
      · exact hn m₄ op h.guard hf

theorem settles_guardValue (hc : op.code = .guardValue) : Settles (Sound o) m (Needless o op) (guardValue next op) := by
  refine Settles.bind (idOf_spec (h.plain_arg 0)) fun i m₁ h₁ hi => ?_
  refine Settles.bind (idOf_spec (h.plain_arg 1)) fun j m₂ h₂ hj => ?_
  refine Settles.bind (info_spec (hi.1.mono h₂)) fun x m₃ h₃ hx => ?_
  refine Settles.bind (info_spec (hj.1.mono h₃)) fun y m₄ h₄ hy => ?_
  refine Settles.ite (fun hconst => Settles.ite (fun hsame => Settles.pure ?_) fun _ => Settles.get fun _ _ => Settles.throw_bind) fun _ => ?_
  · rw [Needless, hc]
    have hbox := hx.1.const (by simpa [Info.isConst] using hconst)
    obtain ⟨v, hv, ev⟩ := hy.1.box
    rw [← eq_of_beq hsame, hbox] at hv
    cases hv
    exact ev
  refine Settles.ite (fun _ => Settles.throw_bind) fun _ => ?_
  refine Settles.bind (contradictsClass_keeps x y) fun t m₅ h₅ _ => ?_
  refine Settles.ite (fun _ => Settles.throw_bind) fun _ => Settles.get fun s _ => Settles.of_false ?_
  have hgiven {m : Meaning} {given : Op} (hg : given.isGuard = true) (hf : given.code ≠ .guardFutureCondition) : Settles (Sound o) m False (do
        next given
        setConst ((← current given).arg 0).box? (← info j).box) :=
    Settles.followed (hn m given hg hf)
  have hsame : Settles (Sound o) m₅ False (do
      next op
      setConst ((← current op).arg 0).box? (← info j).box) := hgiven h.guard (by simp [hc])
  have htruth (code : Opcode) (hg : code.isGuard = true) (hf : code ≠ .guardFutureCondition) : Settles (Sound o) m₅ False (do
      let given ← tagged (op.change code (some [op.arg 0]))
      next given
      setConst ((← current given).arg 0).box? (← info j).box) := by
    refine Settles.bind (tagged_spec _) fun given m₆ _ hgiv => ?_
    obtain ⟨-, t, rfl⟩ := hgiv
    exact hgiven hg hf
  split
  · exact Settles.ite (fun _ => htruth _ rfl (by simp)) fun _ =>
      Settles.ite (fun _ => htruth _ rfl (by simp)) fun _ => hsame
  · exact hsame

end

theorem pass_of_isGuard (hg : op.isGuard = true) : Algebra.pass next op = simplify next op := by
  have hpure : op.code.isAlwaysPure = false := by
    rw [Op.isGuard] at hg
    cases hc : op.code <;> rw [hc] at hg <;> first | rfl | cases hg
  unfold Algebra.pass
  rw [if_neg (by simp [Op.isAlwaysPure, hpure])]
  change (do
    let known ← if op.isComparison then knownComparison op else pure false
    unless known do simplify next op) = _
  rw [if_neg (by simp [Op.isComparison, Opcode.isComparison, hpure])]
  rfl

theorem settles_algebraGive {H : Prop} (hn : Settles I w H (next op)) : Settles I w H (Algebra.give next op) :=
  Settles.followed hn

/-- The pass of known values leaves out only guards that hold. -/
theorem settles_algebra (hn : Final (Sound o) next) (h : Judged o op) (hf : op.code ≠ .guardFutureCondition) :
    Settles (Sound o) m (Needless o op) (Algebra.pass next op) := by
  have hnot {code : Opcode} (hg : code.isGuard = false) (e : op.code = code) : False := by
    have := h.guard
    rw [Op.isGuard, e, hg] at this
    cases this
  rw [pass_of_isGuard h.guard]
  unfold simplify
  split <;> rename_i hc
  case h_13 => exact settles_guardBool hn h (.inl hc)
  case h_14 => exact settles_guardBool hn h (.inr hc)
  case h_15 => exact settles_guardValue hn h hc
  case h_16 => exact settles_guardNonNull hn h hc
  case h_17 => exact settles_guardIsNull hn h hc
  case h_18 => exact settles_guardClass hn h (.inl hc)
  case h_19 => exact settles_guardClass hn h (.inr hc)
  case h_31 => exact Settles.of_false (settles_algebraGive (hn m op h.guard hf))
  all_goals exact (hnot rfl hc).elim

end Algebra

/-! ### Bounds -/

theorem settles_give [Preorder W] (hI : ∀ w s l, I w s → I w { s with lastBounds := l }) {H : Prop} (hn : ∀ w, Settles I w H (next op)) :
    Settles I w H (give next op) := by
  refine Settles.bind (Preserves.modify (Q := fun _ _ => True) fun s hs => ⟨w, le_refl w, ?_, trivial⟩) fun _ w' _ _ => hn w'
  exact hI w s _ hs

theorem settles_exception (hc : op.code = .guardException) (restart : Emit) :
    Settles (fun (_ : Meaning) s => Boxed s) m False (through restart passes op) := by
  have hlast : ∀ (m : Meaning) (s : OptimizeState) l, Boxed s → Boxed { s with lastBounds := l } := fun _ _ _ h => h
  have hg : op.isGuard = true := by
    rw [Op.isGuard, hc]
    rfl
  have halgebra (m : Meaning) : Settles (fun (_ : Meaning) s => Boxed s) m False (Algebra.pass (Simplify.pass write) op) := by
    have : Algebra.simplify (Simplify.pass write) op = Algebra.give (Simplify.pass write) op := by
      unfold Algebra.simplify
      rw [hc]
    rw [pass_of_isGuard hg, this]
    exact settles_algebraGive (final_simplify (fun _ _ h => h) m op hg (by simp [hc]))
  have : through restart passes op = give (Algebra.pass (Simplify.pass write)) op := by
    change Bounds.pass _ op = _
    unfold Bounds.pass
    rw [hc]
    rfl
  rw [this]
  exact settles_give hlast halgebra

theorem settles_through (h : Judged o op) (restart : Emit) : Settles (Sound o) m (Needless o op) (through restart passes op) := by
  have hlast : ∀ (m : Meaning) (s : OptimizeState) l, Sound o m s → Sound o m { s with lastBounds := l } := fun _ _ _ hs => { hs with }
  have hnot {code : Opcode} (hg : code.isGuard = false) (e : op.code = code) : False := by
    have := h.guard
    rw [Op.isGuard, e, hg] at this
    cases this
  by_cases hf : op.code = .guardFutureCondition
  · exact fun _ _ _ _ _ => .inr (by rw [Needless, hf]; trivial)
  have halgebra (m : Meaning) : Settles (Sound o) m (Needless o op) (Algebra.pass (Simplify.pass write) op) :=
    settles_algebra (final_simplify fun _ _ hs => hs.boxed) h hf
  have hgive : Settles (Sound o) m (Needless o op) (give (Algebra.pass (Simplify.pass write)) op) := settles_give hlast halgebra
  have hback : Settles (Sound o) m (Needless o op) (do
      give (Algebra.pass (Simplify.pass write)) op
      goBack ((← current op).arg 0)) :=
    Settles.followed hgive
  change Settles (Sound o) m (Needless o op) (Bounds.pass (Algebra.pass (Simplify.pass write)) op)
  unfold Bounds.pass
  split <;> rename_i hc
  case h_1 => exact hback
  case h_2 => exact hback
  case h_3 => exact hback
  case h_17 => exact fun _ _ _ _ _ => .inr (by rw [Needless, hc]; trivial)
  case h_18 =>
    refine Settles.get fun s _ => ?_
    split
    · exact Settles.ite (fun _ => hgive) fun _ => Settles.throw
    · exact Settles.throw
  case h_31 => exact hgive
  all_goals exact (hnot rfl hc).elim

/-- Of the guards of a trace only those are left out that hold. -/
theorem settles_send (n : Nat) (h : Judged o op) : Settles (Sound o) m (Needless o op) (send passes (n + 1) op) := by
  by_cases hc : op.code = .guardException
  · -- its result is not known to be what the run makes of it, so that the state need not be sound
    have hsend : Settles (fun (_ : Meaning) s => Boxed s) m False (send passes (n + 1) op) := by
      refine Settles.bind (Preserves.modifyGet (Q := fun op' _ => op'.code = op.code) fun s hs => ⟨m, le_refl m, hs, rfl⟩) fun op' m₁ _ e => ?_
      split
      · refine Settles.bind (Preserves.modify (Q := fun _ _ => True) fun s hs => ⟨m₁, le_refl m₁, ?_, trivial⟩) fun _ m₂ _ _ => ?_
        · exact hs
        · exact settles_exception (e.trans hc) _
      · exact settles_exception (e.trans hc) _
    exact fun s hs a s' e => (hsend s hs.boxed a s' e).imp_right False.elim
  · unfold send
    refine Settles.bind (tagged_spec op) fun op' m₁ _ htag => ?_
    obtain ⟨-, t, rfl⟩ := htag
    split
    · rename_i r hr
      cases (h.result hc).symm.trans hr
    · have hjudged : Judged o { op with tag := t } := ⟨h.guard, h.result, h.plain, h.kinds⟩
      exact settles_through hjudged _

end Write
end FlowCompiler.Trace.Bounds
