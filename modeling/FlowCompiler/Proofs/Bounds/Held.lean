import FlowCompiler.Proofs.Bounds.Observed

/-!
# What is held of a run

The machine comes through the first operations of a trace, and none of them wraps around.  Then what the
optimizer holds after the same operations is true of the run: boxes lie inside their bounds, and constants are
what was computed.  A guard that comes next and is not written out holds.

Without the condition on wrapping around this is wrong.  From `i₀ + 1 < 100` the pass concludes `i₀ ≤ 98`,
which the greatest word does not obey.
-/

namespace FlowCompiler.Trace.Bounds

open OptimizeM Run List

variable {op : Op} {k : Nat}

/-! ## One more operation -/

theorem forIn_concat {γ : Type} (xs : List γ) (x : γ) (f : γ → OptimizeM Unit) :
    (ForIn.forIn (xs ++ [x]) .unit fun x _ => do f x; pure (.yield .unit) : OptimizeM PUnit) = (do
      let _ ← ForIn.forIn xs .unit fun x _ => do f x; pure (.yield PUnit.unit)
      f x) := by
  simp [forIn_yield_eq_foldlM]

theorem propagate_concat (ops : List Op) (op : Op) : propagate passes (ops ++ [op]) = (do propagate passes ops; send passes resends op.copy) := by
  have hflush : flushAll (send passes resends) passes = pure () := rfl
  unfold propagate
  rw [forIn_concat, hflush]
  simp

/-- A trace that is optimized was optimized up to its last operation. -/
theorem of_optimize_concat {σ : Store} {settings : TraceSettings} {table : CallTable} {ops : List Op}
    {s s' : OptimizeState} (hpasses : Pass.enabled settings.enable = passes) (hs : optimize σ settings table ops = .ok () s)
    (h : optimize σ settings table (ops ++ [op]) = .ok () s') : send passes resends op.copy s = .ok () s' := by
  rw [optimize, hpasses] at hs h
  rw [propagate_concat] at h
  exact (bind_eq hs).symm.trans h

variable {σ τ₀ τ : Store} {c : CodeCache} {u : UnitId} {frame : FrameId} {inputs : List Box} {ops : List Op} {once : Const → Const}

/-! ## The guard that comes next -/

/-- A guard that comes after operations which left the frame as it is now.  One on overflow comes right after
an operation that may overflow. -/
structure Follows (ops : List Op) (f : Frame) (g : Op) : Prop where
  guard : g.isGuard = true
  proper : Proper ops ops.length g
  result : g.code ≠ .guardException → g.result = none
  plain : ∀ v ∈ g.args, (f.val v).Plain
  overflow : g.code = .guardNoOverflow → ∃ p, ops.getLast? = some p ∧ p.code.isOvf = true

namespace Observation

theorem compute?_of_isOvf {code : Opcode} (h : code.isOvf = true) (x y : Const) : ∃ e, Exec.compute? code x y = some e := by
  cases code <;> first | exact ⟨_, rfl⟩ | cases h

theorem Witnessed.overflow_eq {t t' : Store} (w : Witnessed τ frame op t t') (ht : (τ.frame frame).Typed)
    (ha : ∀ n, op.code.arity = some n → op.args.length = n) {r : Box} (hr : op.result = some r) (hovf : op.code.isOvf = true)
    (hexact : op.code.Exact ((τ.frame frame).val (op.arg 0)).num ((τ.frame frame).val (op.arg 1)).num) : (t'.frame frame).overflow = false := by
  obtain ⟨e, he⟩ := compute?_of_isOvf hovf ((τ.frame frame).val (op.arg 0)) ((τ.frame frame).val (op.arg 1))
  obtain rfl := w.computes ht ha hr hexact he
  obtain ⟨hg, hl, hf⟩ := not_guard_of_compute? he
  rcases w.stepped with ⟨hc, -⟩ | ⟨hg', -, -⟩ | ⟨hc, _, _, _, _⟩ | ⟨-, -, hx⟩
  · exact absurd hc hl
  · rw [Op.isGuard, hg] at hg'
    cases hg'
  · exact absurd hc hf
  obtain ⟨s₁, s₂, outcome, hext, hok, herror, hfatal, rfl⟩ := hx.exists_outcome
  rw [w.arguments_eq ht (hext.env frame)] at hok herror
  have hrun := execute_of_compute? (s := s₁) (f := τ.frame frame) ha he
  cases outcome with
  | error err =>
    rcases hrun with ⟨k, c, hrun⟩ | hrun <;> cases hrun.symm.trans (herror err rfl)
    cases hfatal
  | ok v =>
    have hext₂ := (Extending.execute _ _ _ s₁).1 _ _ (hok v rfl)
    rw [Store.frame_updateFrame (by rw [hext₂.frames, hext.frames]; exact w.frame_lt), finishOp_overflow]

section

variable (h : Observation σ τ₀ τ c u frame inputs ops once)
include h

theorem last (hop : ops.getLast? = some op) : ∃ t, Witnessed τ frame op t τ := by
  rw [getLast?_eq_getElem?] at hop
  obtain ⟨t, t', w, after⟩ := h.witnessed hop
  obtain rfl := after.eq_of_le (by omega)
  exact ⟨t, w⟩

/-- What the optimizer would have found by a guard that it left out is what the machine finds. -/
theorem holds_of_needless (hexact : ∀ op ∈ ops, h.outcome.Exact op)
    {g : Op} (hg : Follows ops (τ.frame frame) g) (hn : Needless h.outcome g) : holds τ (τ.frame frame) g = true := by
  have harg {n i : Nat} (ha : g.code.arity = some n) (hi : i < n) :
      ((Run.operands (τ.frame frame) g)[i]?).join = some (.const ((τ.frame frame).val (g.arg i))) := by
    have hi : i < g.args.length := by
      rw [hg.proper.arity n ha]
      exact hi
    simp [Run.operands, Exec.resolveAll, Op.arg, getElem?_eq_getElem hi, Frame.resolve_eq h.typed]
  have hclass {x y : Const} (hn : h.outcome.HasClass x y) : hasClass τ (pointee (some (.const x))) (pointee (some (.const y))) = true := by
    obtain ⟨r, k, rfl, rfl, hk⟩ := hn
    change (τ.classOf? r).any (fun cls => some k = some cls) = true
    rw [show τ.classOf? r = some k from hk]
    simp
  unfold Needless at hn
  rw [h.val_outcome] at hn
  unfold holds
  cases hc : g.code <;> rw [hc] at hn <;> dsimp only at hn ⊢
  case guardTrue =>
    rw [harg (n := 1) (hc ▸ rfl) (by decide)]
    exact bne_iff_ne.2 hn
  case guardFalse =>
    rw [harg (n := 1) (hc ▸ rfl) (by decide)]
    exact beq_iff_eq.2 hn
  case guardValue =>
    rw [harg (n := 2) (hc ▸ rfl) (by decide), harg (n := 2) (hc ▸ rfl) (by decide), hn]
    exact beq_self_eq_true _
  case guardNonnull =>
    rw [harg (n := 1) (hc ▸ rfl) (by decide)]
    obtain ⟨r, hr⟩ := hn
    rw [hr]
    rfl
  case guardIsnull =>
    rw [harg (n := 1) (hc ▸ rfl) (by decide), hn]
    rfl
  case guardClass =>
    rw [harg (n := 2) (hc ▸ rfl) (by decide), harg (n := 2) (hc ▸ rfl) (by decide)]
    exact hclass hn
  case guardNonnullClass =>
    rw [harg (n := 2) (hc ▸ rfl) (by decide), harg (n := 2) (hc ▸ rfl) (by decide)]
    exact hclass hn
  case guardNoOverflow =>
    obtain ⟨p, hp, hovf⟩ := hg.overflow hc
    obtain ⟨t, w⟩ := h.last hp
    rw [getLast?_eq_getElem?] at hp
    have hproper := h.proper _ p hp
    obtain ⟨r, hr⟩ := hproper.hasResult (by simp [hovf])
    have hx := hexact p (mem_of_getElem? hp)
    rw [Outcome.Exact, h.val_outcome] at hx
    rw [w.overflow_eq h.typed hproper.arity hr hovf hx]
    rfl

/-! ## The whole prefix -/

theorem regular (hexact : ∀ op ∈ ops, h.outcome.Exact op) : ∀ op ∈ ops, Regular h.outcome op := by
  intro op hop
  obtain ⟨k, hk⟩ := getElem?_of_mem hop
  exact ⟨h.obeys hk (hexact op hop), hexact op hop, (h.proper k op hk).names⟩

theorem judged {g : Op} (hg : Follows ops (τ.frame frame) g) : Judged h.outcome g.copy where
  guard := hg.guard
  result := hg.result
  plain := by
    rw [h.val_outcome]
    exact hg.plain
  kinds k hk := by
    rw [h.val_outcome]
    have hmem : g.arg 0 ∈ g.args := by
      rcases g.code.arity_of_operandKind (by simpa [Op.copy] using hk ▸ Option.some_ne_none k) with ha | ha
      · obtain ⟨a, hargs⟩ := length_eq_one_iff.1 (hg.proper.arity 1 ha)
        simp [Op.arg, hargs]
      · obtain ⟨a, b, hargs⟩ := length_eq_two.1 (hg.proper.arity 2 ha)
        simp [Op.arg, hargs]
    have hkind := hg.proper.kinds k hk (g.arg 0) hmem
    exact (Frame.kind_val h.typed fun e => operandKind_ne_void g.code (hk.trans (congrArg some (hkind.symm.trans e)))).trans hkind

end

end Observation

/-- What the optimizer holds is true of a frame. -/
structure Truthful (f : Frame) (s : OptimizeState) : Prop where
  bound : ∀ b i x, s.id? (.box b) = some i → (s.info i).bound = some x → (s.bound x).contains (f.value b).num = true
  const : ∀ b i, s.id? (.box b) = some i → (s.info i).isConst = true → (s.info i).box = some (.const (f.value b))

theorem Sound.truthful {o : Outcome} {m : Meaning} {s : OptimizeState} {f : Frame} (h : Sound o m s) (hf : o.value = f.value) : Truthful f s := by
  constructor
  · intro b i x hi hx
    obtain ⟨he, -⟩ := h.entry_of_id? (v := .box b) (o.plain_value b) hi
    rw [← hf]
    exact Bound.contains_iff.2 (h.bound x _ ((h.entry i _ he).bound x hx))
  · intro b i hi hc
    obtain ⟨he, -⟩ := h.entry_of_id? (v := .box b) (o.plain_value b) hi
    rw [← hf]
    exact (h.entry i _ he).const (by simpa [Info.isConst] using hc)

/-- **The bounds of the optimizer are those of the run.**  The machine comes through the first operations of a
trace, and no sum, difference, product or shift among them wraps around.  Then after these operations every box
lies inside the bound that the optimizer holds for it, every constant that it holds for a box is the value of
the box, and a guard that comes next and is left out would have held. -/
theorem Observation.bounds_true {settings : TraceSettings} (h : Observation σ τ₀ τ c u frame inputs ops once)
    (hpasses : Pass.enabled settings.enable = passes)
    (hexact : ∀ op ∈ ops, op.code.Exact ((τ.frame frame).val (op.arg 0)).num ((τ.frame frame).val (op.arg 1)).num) :
    ∀ table s, optimize σ settings table ops = .ok () s → Truthful (τ.frame frame) s ∧
      ∀ g s', Follows ops (τ.frame frame) g → optimize σ settings table (ops ++ [g]) = .ok () s' → s'.out.size ≤ s.out.size →
        holds τ (τ.frame frame) g = true := by
  rw [← h.val_outcome] at hexact
  intro table s hs
  obtain ⟨m, hm⟩ := sound_of_optimize (o := h.outcome) hpasses (h.regular hexact) hs
  refine ⟨hm.truthful rfl, fun g s' hg hs' hle => ?_⟩
  refine h.holds_of_needless hexact hg ?_
  have hsend := of_optimize_concat hpasses hs hs'
  exact (settles_send 1 (h.judged hg) s hm () s' hsend).resolve_left (Nat.not_lt.2 hle)

/-! ## A run -/

theorem advance_of_compute {c : CodeCache} {frame : FrameId} {u : UnitId} {s : Store} {x : Const}
    (hop : (c.unit u).ops[k]? = some op) (ha : ∀ n, op.code.arity = some n → op.args.length = n) (ht : (s.frame frame).Typed)
    (hk : ∀ k, Exec.reads? op.code = some k → ∀ v ∈ op.args, ((s.frame frame).val v).kind = k)
    (hc : Exec.compute? op.code ((s.frame frame).val (op.arg 0)) ((s.frame frame).val (op.arg 1)) = some (.ok x)) :
    advance c frame ⟨u, k⟩ s = .ok (.next ⟨u, k + 1⟩) (s.updateFrame frame (finishOp op (.ok (some (.const x))))) := by
  obtain ⟨hg, hl, hf⟩ := not_guard_of_compute? hc
  have hother : op.code ≠ .jump ∧ op.code ≠ .finish ∧ op.code ≠ .callMayForce := by
    cases hcode : op.code <;> rw [hcode] at hc <;> first | exact ⟨by decide, by decide, by decide⟩ | cases hc
  have hargs : arguments (s.frame frame) op = (op.args.map (s.frame frame).val).map .const := by
    rw [arguments, operands, Exec.resolveAll, map_map]
    induction op.args with
    | nil => rfl
    | cons v rest ih => simpa [Frame.resolve_eq ht] using ih
  have hread : Exec.misread? op.code ((op.args.map (s.frame frame).val).map .const) = none := by
    refine Outcome.misread?_eq_none (s := s) fun k hk' => ?_
    simpa [Store.constOf] using hk k hk'
  have hrun := execute_of_read (s := s) ha hc hread
  unfold advance
  rw [hop]
  dsimp only
  rw [if_neg hl, if_neg hother.1, if_neg hother.2.1, if_neg (by simp [Op.isGuard, hg])]
  have hexec : executeOp frame (c.unit u) k op s = .ok () (s.updateFrame frame (finishOp op (.ok (some (.const x))))) := by
    unfold executeOp
    rw [if_neg hf, if_neg hother.2.2]
    have reading (g : Store → StoreM Unit) : (get >>= g) s = g s s := rfl
    refine (reading _).trans ?_
    unfold arguments at hargs
    rw [hargs, EStateM.run, hrun]
    rfl
  change EStateM.bind (executeOp frame (c.unit u) k op) _ s = _
  simp only [EStateM.bind, hexec]
  rfl

theorem advance_of_holds {c : CodeCache} {frame : FrameId} {u : UnitId} {s : Store} (hop : (c.unit u).ops[k]? = some op) (hg : op.isGuard = true)
    (hh : holds s (s.frame frame) op = true) : advance c frame ⟨u, k⟩ s = .ok (.next ⟨u, k + 1⟩) (s.updateFrame frame (passGuard op)) := by
  have hother : op.code ≠ .label ∧ op.code ≠ .jump ∧ op.code ≠ .finish := by
    rw [Op.isGuard] at hg
    cases hcode : op.code <;> rw [hcode] at hg <;> first | exact ⟨by decide, by decide, by decide⟩ | cases hg
  unfold advance
  rw [hop]
  dsimp only
  rw [if_neg hother.1, if_neg hother.2.1, if_neg hother.2.2, if_pos hg]
  change (if holds s (s.frame frame) op = true then _ else _ : StoreM Advance) s = _
  rw [if_pos hh]
  rfl

/-- A trace: `i₁ := i₀ < 100` and a guard that it is true. -/
def compared : List Op :=
  [{ code := .intLt, args := [.box ⟨0, .int⟩, .const (.int 100)], result := some ⟨1, .int⟩ }, { code := .guardTrue, args := [.box ⟨1, .int⟩] }]

def comparedCode : CodeCache := { units := #[{ name := "compared", inputs := [⟨0, .int⟩], ops := compared.toArray }] }

/-- The frame in which the trace ends when `i₀` is zero. -/
def comparedFrame : Frame := { env := ({} : Std.HashMap Box (Option Value)).insert ⟨1, .int⟩ (some (.const (.int 1))) }

theorem comparedFrame_typed : comparedFrame.Typed := by
  intro b v hb
  rw [comparedFrame, Std.HashMap.getElem?_insert] at hb
  split at hb
  · rename_i e
    cases hb
    rw [← eq_of_beq e]
    exact ⟨_, rfl, rfl⟩
  · simp at hb

theorem comparedFrame_plain (b : Box) : (comparedFrame.value b).Plain := by
  rw [Frame.value, comparedFrame, Std.HashMap.getElem?_insert]
  split
  · rename_i c e
    split at e
    · cases e
      exact Const.plain_int _
    · simp at e
  · intro d hd hz
    cases hk : b.kind <;> rw [hk] at hd <;> cases hd
    rfl

theorem comparedFrame_one : comparedFrame.value ⟨1, .int⟩ = .int 1 := by
  simp [comparedFrame, Frame.value]

theorem through_compared : Through comparedCode 0 0 0 2 { frames := #[{}] } { frames := #[comparedFrame] } := by
  have hempty : (({ frames := #[{}] } : Store).frame 0).Typed := by
    intro b v hb
    simp [Store.frame] at hb
  have h0 : advance comparedCode 0 ⟨0, 0⟩ { frames := #[{}] } = .ok (.next ⟨0, 1⟩) { frames := #[comparedFrame] } := by
    have hop : (comparedCode.unit 0).ops[0]? = some compared[0] := rfl
    refine advance_of_compute (x := .int 1) hop (fun n hn => ?_) hempty (fun k hk => ?_) ?_
    · cases hn
      rfl
    · cases hk
      simp [compared, Store.frame, Frame.val, Frame.value, Const.zero, Const.kind]
    · have : (({ frames := #[{}] } : Store).frame 0).value ⟨0, .int⟩ = .int 0 := by
        simp [Store.frame, Frame.value, Const.zero]
      change Exec.compute? .intLt ((({ frames := #[{}] } : Store).frame 0).value ⟨0, .int⟩) (.int 100) = _
      rw [this]
      rfl
  have h1 : advance comparedCode 0 ⟨0, 1⟩ { frames := #[comparedFrame] } = .ok (.next ⟨0, 2⟩) { frames := #[comparedFrame] } := by
    have hop : (comparedCode.unit 0).ops[1]? = some compared[1] := rfl
    refine advance_of_holds hop rfl ?_
    change (((Exec.resolve comparedFrame (.box ⟨1, .int⟩)).bind Value.int?).getD 0 != 0) = true
    rw [Frame.resolve_eq comparedFrame_typed, Frame.val, comparedFrame_one]
    rfl
  exact .step h0 (.step h1 (.here _ _))

theorem mem_compared (h : compared[k]? = some op) :
    k = 0 ∧ op = { code := .intLt, args := [.box ⟨0, .int⟩, .const (.int 100)], result := some ⟨1, .int⟩ } ∨
      k = 1 ∧ op = { code := .guardTrue, args := [.box ⟨1, .int⟩] } := by
  match k with
  | 0 =>
    cases h
    exact .inl ⟨rfl, rfl⟩
  | 1 =>
    cases h
    exact .inr ⟨rfl, rfl⟩
  | k + 2 => cases h

theorem observation_compared :
    Observation {} { frames := #[{}] } { frames := #[comparedFrame] } comparedCode 0 0 [⟨0, .int⟩] compared id where
  code := prefix_refl _
  frame_lt := by decide
  through := through_compared
  wellFormed := by
    refine ⟨fun k op h b hb => ?_, fun j k p q b hp hq hb hb' => ?_, fun op h b hb => ?_⟩
    · rcases mem_compared h with ⟨rfl, rfl⟩ | ⟨rfl, rfl⟩
      · exact .inl (by simpa [Op.boxArgs, Op.boxFails, Value.box?] using hb)
      · refine .inr ⟨0, _, Nat.zero_lt_one, rfl, ?_⟩
        simpa [Op.boxArgs, Op.boxFails, Value.box?, eq_comm] using hb
    · rcases mem_compared hp with ⟨rfl, rfl⟩ | ⟨rfl, rfl⟩
      · rcases mem_compared hq with ⟨rfl, rfl⟩ | ⟨rfl, rfl⟩
        · rfl
        · cases hb'
      · cases hb
    · obtain ⟨k, hk⟩ := getElem?_of_mem h
      rcases mem_compared hk with ⟨rfl, rfl⟩ | ⟨rfl, rfl⟩
      · cases hb
        decide
      · cases hb
  proper k op h := by
    rcases mem_compared h with ⟨rfl, rfl⟩ | ⟨rfl, rfl⟩
    · refine ⟨rfl, fun n hn => ?_, fun κ hκ v hv => ?_, fun _ => ⟨_, rfl⟩, fun hc => ?_, fun hc => ?_⟩
      · cases hn
        rfl
      · cases hκ
        rcases mem_pair.1 hv with rfl | rfl <;> rfl
      · rcases hc with hc | hc <;> cases hc
      · cases hc
    · refine ⟨rfl, fun n hn => ?_, fun κ hκ v hv => ?_, fun hp => ?_, fun _ => ?_, fun hc => ?_⟩
      · cases hn
        rfl
      · cases hκ
      · cases hp
      · exact ⟨⟨1, .int⟩, 0, _, rfl, Nat.zero_lt_one, rfl, rfl, rfl⟩
      · cases hc
  typed := comparedFrame_typed
  plain := comparedFrame_plain
  classes r k h := h
  trusted op h := by
    obtain ⟨k, hk⟩ := getElem?_of_mem h
    rcases mem_compared hk with ⟨rfl, rfl⟩ | ⟨rfl, rfl⟩
    · refine ⟨fun v hv => ?_, fun _ hn => ?_, ?_, ?_, ?_, ?_, ?_, ?_⟩
      · rcases mem_pair.1 hv with rfl | rfl
        · exact comparedFrame_plain _
        · exact Const.plain_int _
      · cases hn
      all_goals
        intro hc
        cases hc
    · refine ⟨fun v hv => ?_, ?_, ?_, ?_, ?_, ?_, ?_, ?_⟩
      · rw [mem_singleton.1 hv]
        exact comparedFrame_plain _
      all_goals
        intro hc
        cases hc

theorem bounds_true_compared : Pass.enabled ["intbounds", "rewrite"] = passes ∧
    ∀ table s, optimize {} { enable := ["intbounds", "rewrite"] } table compared = .ok () s → Truthful comparedFrame s ∧
      ∀ g s', Follows compared comparedFrame g → optimize {} { enable := ["intbounds", "rewrite"] } table (compared ++ [g]) = .ok () s' →
        s'.out.size ≤ s.out.size → holds { frames := #[comparedFrame] } comparedFrame g = true :=
  ⟨by decide, Observation.bounds_true observation_compared (by decide) fun op h => by
    obtain ⟨k, hk⟩ := getElem?_of_mem h
    rcases mem_compared hk with ⟨rfl, rfl⟩ | ⟨rfl, rfl⟩ <;> trivial⟩

end FlowCompiler.Trace.Bounds
