import FlowCompiler.Proofs.Bounds.Forward
import FlowCompiler.Trace.Optimize.Algebra

/-!
# Known values

The pass of known values keeps the state sound: what it folds is what the run computes, what it takes to be
the same is the same, and what it learns from a guard is true when the guard holds.
-/

namespace FlowCompiler.Trace.Algebra

open OptimizeM Bounds List Option

variable {o : Outcome} {m : Meaning} {next : Emit} {op : Op}
variable {x : Info} {c : Const} {eq : Bool} {code : Opcode}

/-- What takes operations that are only written out keeps the state sound. -/
def Writes (o : Outcome) (next : Emit) : Prop := ∀ m op, (∀ v ∈ op.args, (o.val v).Plain) → m.Tagged o op → Safe (Sound o) m (next op)

theorem plain_args (h : o.Obeys op) : ∀ v ∈ op.args, (o.val v).Plain := fun _ hv => h.plain _ (mem_map_of_mem hv)

/-! ## Folding -/

theorem allConst?_spec {args : List Value} (hp : ∀ v ∈ args, (o.val v).Plain) :
    Preserves (Sound o) m (allConst? args) fun r _ => ∀ cs, r = some cs → cs = (args.map o.val).map .const := by
  induction args generalizing m with
  | nil =>
    refine .pure fun cs e => ?_
    cases e
    rfl
  | cons a rest ih =>
    refine (infoOf_spec (hp a (by simp))).bind fun x m₁ h₁ hx => ?_
    split
    · rename_i v hconst hbox
      refine (ih fun v hv => hp v (by simp [hv])).bind fun r m₂ h₂ hr => .pure fun cs e => ?_
      obtain ⟨tail, ht, rfl⟩ := map_eq_some_iff.1 e
      rw [hr tail ht]
      have := hx.1.const (by simpa [Info.isConst] using hconst)
      rw [hbox] at this
      cases this
      rfl
    · exact .pure (by simp)

theorem onExec_spec {α : Type} {c : ExecM α} (hc : ReadsOnly c) :
    Preserves (Sound o) m (onExec c) fun e _ => ∀ a, e = .ok a → ∃ s, c o.store = .ok a s := by
  intro s hs a s' e
  obtain ⟨gs, hstore⟩ := hs.store
  have hrun : c.run s.store = c { o.store with guards := gs } := by rw [hstore]; rfl
  rcases hc o.store gs with ⟨v, h0, h1⟩ | ⟨f, h0, h1⟩
  · rw [h1] at hrun
    simp only [onExec, hrun] at e
    cases e
    refine ⟨m, le_refl m, { hs with store := ⟨gs, rfl⟩ }, fun w ew => ?_⟩
    cases ew
    exact ⟨_, h0⟩
  · rw [h1] at hrun
    simp only [onExec, hrun] at e
    cases e
    exact ⟨m, le_refl m, { hs with store := ⟨gs, rfl⟩ }, fun w ew => by cases ew⟩

theorem fold?_spec (h : o.Obeys op) (hpure : op.code.isAlwaysPure = true) :
    Preserves (Sound o) m (fold? op) fun v _ => ∀ c, v = some c → ∀ r ∈ op.result, c = .const (o.value r) := by
  refine .ite (fun _ => .pure (by simp)) fun _ => ?_
  refine .bind (allConst?_spec (plain_args h)) fun cs m₁ h₁ hcs => ?_
  split
  · exact .pure (by simp)
  · rename_i args
    obtain rfl := hcs args rfl
    refine (onExec_spec (.execute hpure _ _)).bind fun e m₂ h₂ he => ?_
    split
    · rename_i v
      refine .pure fun c ec r hr => ?_
      obtain ⟨s, hs⟩ := he _ rfl
      rw [ec] at hs
      exact h.reads r hr hpure c s hs
    · exact .get fun _ _ => .throw
    · exact .pure (by simp)

/-! ## Arithmetic -/

/-- The number that an operation on two numbers comes down to. -/
def Identity.result (x y : Int64) : Identity → Int64
  | first => x
  | second => y
  | number n => n

/-- The first rule that applies is one of the rules that apply. -/
theorem of_find? {rules : List (Bool × Identity)} {i : Identity} {P : Identity → Prop}
    (h : (rules.find? Prod.fst).map Prod.snd = some i) (hr : ∀ p ∈ rules, p.1 = true → P p.2) : P i := by
  obtain ⟨p, hp, rfl⟩ := map_eq_some_iff.1 h
  exact hr p (mem_of_find?_eq_some hp) (List.find?_some hp)

theorem intBinary?_of_identity? {x y : Int64} {a b : Option Int64} {same : Bool} {i : Identity}
    (h : identity? code a b same = some i) (ha : ∀ n, a = some n → x = n) (hb : ∀ n, b = some n → y = n)
    (hs : same = true → x = y) : Exec.intBinary? code x y = some (.ok (i.result x y)) := by
  have hA (n : Int64) (h : (a == some n) = true) : x = n := ha n (eq_of_beq h)
  have hB (n : Int64) (h : (b == some n) = true) : y = n := hb n (eq_of_beq h)
  unfold identity? at h
  split at h
  case h_11 => cases h
  all_goals
    refine of_find? (P := fun i => Exec.intBinary? _ x y = some (.ok (i.result x y))) h ?_
    simp only [mem_cons, not_mem_nil, or_false, forall_eq_or_imp, forall_eq, Identity.result, Exec.intBinary?,
      some.injEq, Except.ok.injEq, Bool.or_eq_true]
  · exact ⟨fun e => by simp [hB 0 e], fun e => by simp [hA 0 e]⟩
  · exact ⟨fun e => by simp [hB 0 e], fun e => by simp [hA 0 e], fun e => by simp [hs e]⟩
  · exact ⟨fun e => by simp [hB 0 e], fun e => by simp [hA 0 e], fun e => by simp [hs e]⟩
  · exact ⟨fun e => by simp [hB 0 e], fun e => by simp [hs e]⟩
  · exact ⟨fun e => by simp [hB 1 e], fun e => by simp [hA 1 e], fun e => by rcases e with e | e <;> simp [hA 0, hB 0, e]⟩
  · exact ⟨fun e => by rcases e with e | e <;> simp [hA 0, hB 0, e], fun e => by simp [hB (-1) e], fun e => by simp [hA (-1) e],
      fun e => by simp [hs e]⟩
  · exact fun e => by simp [hB 1 e, Exec.divided]
  · exact ⟨fun e => by simp [hB 0 e], fun e => by simp [hA 0 e]⟩
  · exact ⟨fun e => by simp [hB 0 e], fun e => by simp [hA 0 e]⟩
  · have hz : (0 : Int64).toUInt64 = 0 := rfl
    exact ⟨fun e => by simp [hB 0 e, hz], fun e => by simp [hA 0 e, hz]⟩

theorem applyIdentity_spec (h : o.Obeys op) {r : Box} (hr : op.result = some r) (hk : op.code.operandKind = some .int)
    (ha : op.code.arity = some 2) : Safe (Sound o) m (applyIdentity op) := by
  have kx := Const.eq_int_num (h.kind_first hk)
  have ky := Const.eq_int_num (h.kind_second hk ha)
  refine args_spec h fun x y m₂ h₂ hx hy => ?_
  refine (info_spec hx.1).bind fun ix m₃ h₃ hix => ?_
  refine (info_spec (hy.1.mono h₃)).bind fun iy m₄ h₄ hiy => ?_
  have hx₄ := (hx.1.mono h₃).mono h₄
  have hy₄ := (hy.1.mono h₃).mono h₄
  have hsame (e : (x == y) = true) : (o.val (op.arg 0)).num = (o.val (op.arg 1)).num := by
    rw [eq_of_beq e] at hx₄
    rw [some.inj (hx₄.symm.trans hy₄)]
  have hvalue {i : Identity} (hi : identity? op.code ix.constInt? iy.constInt? (x == y) = some i) :
      o.value r = .int (i.result (o.val (op.arg 0)).num (o.val (op.arg 1)).num) := by
    apply h.value_eq hr
    have := intBinary?_of_identity? hi (fun n hn => by rw [hix.1.eq_of_constInt? hn]; rfl)
      (fun n hn => by rw [hiy.1.eq_of_constInt? hn]; rfl) hsame
    exact Outcome.compute?_of_binary this
  split
  · rename_i hi
    refine .bind (setEqual_spec hx₄ fun r' hr' => ?_) fun _ _ _ _ => .pure trivial
    cases hr.symm.trans hr'
    rw [hvalue hi]
    exact kx.symm
  · rename_i hi
    refine .bind (setEqual_spec hy₄ fun r' hr' => ?_) fun _ _ _ _ => .pure trivial
    cases hr.symm.trans hr'
    rw [hvalue hi]
    exact ky.symm
  · rename_i n hi
    refine .bind (setConstInt_spec fun r' hr' => ?_) fun _ _ _ _ => .pure trivial
    cases hr.symm.trans hr'
    exact hvalue hi
  · exact .pure trivial

theorem give_spec (hn : Writes o next) (hp : ∀ v ∈ op.args, (o.val v).Plain) (ht : m.Tagged o op)
    (hb : op.code.returnsBool = true → ∀ r ∈ op.result, o.value r = .int 0 ∨ o.value r = .int 1) : Safe (Sound o) m (give next op) := by
  refine (hn m op hp ht).bind fun _ m₁ h₁ _ => .ite (fun hcond => ?_) fun _ => .pure trivial
  simp only [Bool.and_eq_true, isSome_iff_exists] at hcond
  obtain ⟨hbool, r, hr⟩ := hcond
  refine (resultId_spec hr).bind fun i m₂ h₂ hi => .modify fun s hs => ⟨m₂, le_refl m₂, ?_, trivial⟩
  refine { hs with bools := fun j hj => ?_ }
  rcases Std.HashSet.mem_insert.1 hj with e | hj
  · rw [← eq_of_beq e]
    rcases hb hbool r hr with e | e <;> rw [e] at hi
    · exact .inl hi
    · exact .inr hi
  · exact hs.bools j hj

theorem give_obeys_spec (hn : Writes o next) (h : o.Obeys op) (ht : m.Tagged o op) : Safe (Sound o) m (give next op) :=
  give_spec hn (plain_args h) ht fun hb _ hr => h.bool_value hb hr

theorem floatMul_spec (hn : Writes o next) (h : o.Obeys op) (ht : m.Tagged o op) (hc : op.code = .floatMul) :
    Safe (Sound o) m (floatMul next op) := by
  obtain ⟨r, hr⟩ := h.hasResult (hc ▸ rfl)
  have hunit := Outcome.Does.unit h hc r hr
  rw [← o.val_arg, ← o.val_arg] at hunit
  unfold floatMul
  extract_lets isOne
  -- one of the factors is found to be 1.0
  have isOne_spec {m : Meaning} (v : Value) (hp : (o.val v).Plain) : Preserves (Sound o) m (isOne v)
      fun t _ => t = true → ∃ d, o.val v = .float d ∧ d.numEq (.ofInt 1) = true := by
    refine (infoOf_spec hp).bind fun x m' _ hx => ?_
    obtain ⟨w, hw, e⟩ := hx.1.box
    split
    · rename_i d hbox
      rw [hbox] at hw
      cases hw
      exact .pure fun t => ⟨d, e.symm, t⟩
    · exact .pure (by simp)
  refine (isOne_spec (op.arg 0) (h.plain_arg 0)).bind fun t m₁ h₁ hone => .ite (fun e => ?_) fun _ => ?_
  · obtain ⟨d, hd, h1⟩ := hone e
    refine (idOf_spec (h.plain_arg 1)).bind fun i m₂ h₂ hi => setEqual_spec hi.1 fun r' hr' => ?_
    cases hr.symm.trans hr'
    exact (hunit d).1 hd h1
  refine (isOne_spec (op.arg 1) (h.plain_arg 1)).bind fun t m₂ h₂ hone => .ite (fun e => ?_) fun _ => ?_
  · obtain ⟨d, hd, h1⟩ := hone e
    refine (idOf_spec (h.plain_arg 0)).bind fun i m₃ h₃ hi => setEqual_spec hi.1 fun r' hr' => ?_
    cases hr.symm.trans hr'
    exact (hunit d).2 hd h1
  · exact give_obeys_spec hn h ((ht.mono h₁).mono h₂)

theorem neg_neg (d : Double) : d.neg.neg = d := by
  rw [Double.neg, Double.neg, UInt64.xor_assoc, UInt64.xor_self, UInt64.xor_zero]

theorem floatNeg_spec (hn : Writes o next) (h : o.Obeys op) (ht : m.Tagged o op) (hc : op.code = .floatNeg) :
    Safe (Sound o) m (floatNeg next op) := by
  obtain ⟨r, hr⟩ := h.hasResult (hc ▸ rfl)
  have hgive : Safe (Sound o) m (give next op) := give_obeys_spec hn h ht
  unfold floatNeg
  split
  · exact hgive
  · rename_i b hb
    refine .get fun s hs => ?_
    split
    · rename_i inner hinner
      refine .ite (fun hcode => ?_) fun _ => hgive
      obtain ⟨hres, hobeys, -, htag⟩ := hs.producers b inner hinner
      refine (current_spec htag).bind fun inner' m₁ h₁ hcur => ?_
      obtain ⟨args, hargs, rfl⟩ := hcur
      refine (idOf_spec ((hobeys.congr hargs).plain_arg 0)).bind fun i m₂ h₂ hi => ?_
      rw [o.val_arg_congr hargs] at hi
      refine setEqual_spec hi.1 fun r' hr' => ?_
      cases hr.symm.trans hr'
      have hinnerVal : o.value b = .float (Exec.floatOf (o.val (inner.arg 0))).neg := hobeys.value_eq hres (hcode ▸ rfl)
      have harg : o.val (op.arg 0) = o.value b := by
        cases hv : op.arg 0 <;> rw [hv] at hb <;> cases hb
        rfl
      have hval : o.value r = .float (Exec.floatOf (o.val (op.arg 0))).neg := h.value_eq hr (hc ▸ rfl)
      have hkind := hobeys.kind_first (k := .float) (hcode ▸ rfl)
      rw [hval, harg, hinnerVal]
      cases hd : o.val (inner.arg 0) <;> rw [hd] at hkind <;> cases hkind
      exact congrArg Const.float (neg_neg _)
    · exact hgive

theorem knownComparison_keeps : Safe (Sound o) m (knownComparison op) := by
  refine .get fun s hs => ?_
  rw [hs.remembersPure]
  exact .pure trivial

/-! ## References -/

theorem Describes.eq_null (h : Describes o m x c) (hn : x.isNull = true) : c = .null := by
  simp only [Info.isNull, Info.isConst, Bool.and_eq_true, beq_iff_eq] at hn
  have := h.const hn.1
  rw [hn.2] at this
  cases this
  rfl

theorem Describes.nonNull_of_isNonNull (h : Describes o m x c) (hk : c.kind = .ref) (hn : x.isNonNull = true) : ∃ r, c = .ptr (some r) := by
  unfold Info.isNonNull at hn
  split at hn
  · rename_i hc
    rw [h.const (by simpa [Info.isConst] using hc)] at hn
    cases c with
    | int n => cases hk
    | float d => cases hk
    | ptr p => exact ⟨p.get hn, by simp⟩
  · rename_i hc
    apply h.nonNull
    cases hl : x.level <;> simp [hl, Info.isConst, Level.rank] at hn hc ⊢

/-- Which comparisons of references test for equality. -/
def TestsEqual (code : Opcode) (eq : Bool) : Prop := if eq then code = .ptrEq ∨ code = .instancePtrEq else code = .ptrNe ∨ code = .instancePtrNe

theorem TestsEqual.compute? (h : TestsEqual code eq) (x y : Const) :
    Exec.compute? code x y = some (.ok (.int (if (x.ref? == y.ref?) == eq then 1 else 0))) := by
  cases eq with
  | true => rcases h with rfl | rfl <;> simp [Exec.compute?, Exec.intBinary?, Exec.intCompare?, Exec.floatCompare?,
      Exec.floatBinary?, Exec.intUnary?, Const.ofBool]
  | false => rcases h with rfl | rfl <;> simp [Exec.compute?, Exec.intBinary?, Exec.intCompare?, Exec.floatCompare?,
      Exec.floatBinary?, Exec.intUnary?, Const.ofBool]

theorem TestsEqual.operandKind (h : TestsEqual code eq) :
    code.operandKind = some .ref ∧ code.arity = some 2 ∧ (code.isAlwaysPure || code.isOvf) = true := by
  cases eq <;> rcases h with rfl | rfl <;> decide

theorem comparePointers_spec (hn : Writes o next) (h : o.Obeys op) (ht : m.Tagged o op)
    (hc : TestsEqual op.code eq) : Safe (Sound o) m (comparePointers next op eq) := by
  obtain ⟨hk, ha, hp⟩ := hc.operandKind
  obtain ⟨r, hr⟩ := h.hasResult hp
  have hval := h.value_eq hr (hc.compute? _ _)
  have kx := h.kind_first hk
  have ky := h.kind_second hk ha
  have houtcome {m : Meaning} (same : Bool) (hs : ((o.val (op.arg 0)).ref? == (o.val (op.arg 1)).ref?) = same) :
      Safe (Sound o) m (setConstInt op.result (if same == eq then 1 else 0)) := by
    refine setConstInt_spec fun r' hr' => ?_
    cases hr.symm.trans hr'
    rw [hval, hs]
  have hgive {m : Meaning} {op' : Op} (ht : m.Tagged o op') (hres : op'.result = op.result)
      (hargs : ∀ v ∈ op'.args, (o.val v).Plain) : Safe (Sound o) m (give next op') := by
    refine give_spec hn hargs ht fun _ r' hr' => ?_
    cases hr.symm.trans (hres ▸ hr')
    rw [hval]
    split
    · exact .inr rfl
    · exact .inl rfl
  refine args_spec h fun i j m₂ h₂ hi hj => ?_
  refine (info_spec hi.1).bind fun x m₃ h₃ hx => ?_
  refine (info_spec (hj.1.mono h₃)).bind fun y m₄ h₄ hy => ?_
  refine .ite (fun e => ?_) fun _ => Preserves.ite (fun e => ?_) fun _ => .ite (fun e => ?_) fun _ =>
    Preserves.ite (fun e => ?_) fun _ => .ite (fun e => ?_) fun _ => ?_
  · apply houtcome
    subst e
    rw [some.inj (hi.1.symm.trans hj.1)]
    exact beq_self_eq_true _
  · simp [Info.isVirtual, hx.1.virt, hy.1.virt] at e
  · apply houtcome
    simp only [Bool.or_eq_true, Bool.and_eq_true] at e
    rcases e with ⟨hnull, hnon⟩ | ⟨hnon, hnull⟩
    · obtain ⟨q, hq⟩ := Describes.nonNull_of_isNonNull hy.1 ky hnon
      rw [Describes.eq_null hx.1 hnull, hq]
      rfl
    · obtain ⟨q, hq⟩ := Describes.nonNull_of_isNonNull hx.1 kx hnon
      rw [Describes.eq_null hy.1 hnull, hq]
      rfl
  · refine hgive (.inl rfl) rfl fun v hv => ?_
    rw [mem_singleton.1 hv]
    exact h.plain_arg 1
  · refine hgive (.inl rfl) rfl fun v hv => ?_
    rw [mem_singleton.1 hv]
    exact h.plain_arg 0
  · exact hgive (((ht.mono h₂).mono h₃).mono h₄) rfl (plain_args h)

/-! ## Guards -/

theorem val_of_box? {v : Value} {b : Box} (h : b ∈ v.box?) : o.value b = o.val v := by
  cases v <;> cases h
  rfl

section

variable (hn : Writes o next) (h : o.Obeys op) (ht : m.Tagged o op)
include hn h ht

theorem guardBool_spec (hc : op.code = .guardTrue ∨ op.code = .guardFalse) : Safe (Sound o) m (guardBool next op) := by
  have hg : o.val (op.arg 0) = .int (if op.code = .guardFalse then 0 else 1) := by
    have := h.guard
    rcases hc with e | e <;> rw [e] at this ⊢ <;> exact this
  refine (constIntOf_spec (h.plain_arg 0)).bind fun n m₁ h₁ _ => ?_
  split
  · exact .ite (fun _ => .pure trivial) fun _ => .throw
  · refine (hn m₁ op (plain_args h) (ht.mono h₁)).bind fun _ m₂ h₂ _ => ?_
    refine (current_spec ((ht.mono h₁).mono h₂)).bind fun op' m₃ h₃ hcur => ?_
    obtain ⟨args, hargs, rfl⟩ := hcur
    refine setConstInt_spec fun r hr => ?_
    rw [val_of_box? hr, o.val_arg_congr hargs, hg]

theorem guardNonNull_spec (hc : op.code = .guardNonnull) : Safe (Sound o) m (guardNonNull next op) := by
  have hg := h.guard
  rw [hc] at hg
  obtain ⟨r, hr⟩ := hg
  refine (idOf_spec (h.plain_arg 0)).bind fun i m₁ h₁ hi => ?_
  refine (info_spec hi.1).bind fun x m₂ h₂ hx => ?_
  refine .ite (fun _ => .pure trivial) fun _ => .ite (fun _ => .throw) fun _ => ?_
  refine (hn m₂ op (plain_args h) ((ht.mono h₁).mono h₂)).bind fun _ m₃ h₃ _ => ?_
  exact ensureNonNull_spec (hr ▸ (hi.1.mono h₂).mono h₃)

theorem guardIsNull_spec (hc : op.code = .guardIsnull) : Safe (Sound o) m (guardIsNull next op) := by
  have hg := h.guard
  rw [hc] at hg
  refine (infoOf_spec (h.plain_arg 0)).bind fun x m₁ h₁ hx => ?_
  refine .ite (fun _ => .pure trivial) fun _ => .ite (fun _ => .throw) fun _ => ?_
  refine (hn m₁ op (plain_args h) (ht.mono h₁)).bind fun _ m₂ h₂ _ => ?_
  refine (current_spec ((ht.mono h₁).mono h₂)).bind fun op' m₃ h₃ hcur => ?_
  obtain ⟨args, hargs, rfl⟩ := hcur
  refine setConst_spec fun r hr => ?_
  rw [val_of_box? hr, o.val_arg_congr hargs]
  exact hg

end

theorem classOfConst?_spec (h : Describes o m x c) : Preserves (Sound o) m (classOfConst? x) fun k _ => ∀ r, k = some r → c = .ptr (some r) := by
  refine .get fun s hs => .pure fun r hr => ?_
  have hr := (filter_eq_some_iff.1 hr).1
  unfold Info.constRef? at hr
  split at hr
  · rename_i hc
    rw [h.const (by simpa [Info.isConst] using hc)] at hr
    rcases c with n | d | p <;> simp [Value.const?, Const.ref?] at hr ⊢
    exact hr
  · cases hr

theorem guardClass_spec (hn : Writes o next) (h : o.Obeys op) (ht : m.Tagged o op) (hc : op.code = .guardClass ∨ op.code = .guardNonnullClass) :
    Safe (Sound o) m (guardClass next op) := by
  have hg : o.HasClass (o.val (op.arg 0)) (o.val (op.arg 1)) := by
    have := h.guard
    rcases hc with e | e <;> rw [e] at this <;> exact this
  obtain ⟨r, k, hr, hk, hcls⟩ := hg
  refine (idOf_spec (h.plain_arg 0)).bind fun i m₁ h₁ hi => ?_
  refine (infoOf_spec (h.plain_arg 1)).bind fun y m₂ h₂ hy => ?_
  refine .bind (classOfConst?_spec hy.1) fun c m₃ h₃ hclass => ?_
  have ht₃ := ((ht.mono h₁).mono h₂).mono h₃
  split
  · exact hn m₃ op (plain_args h) ht₃
  · rename_i c'
    cases hk.symm.trans (hclass c' rfl)
    refine (info_spec ((hi.1.mono h₂).mono h₃)).bind fun x m₄ h₄ hx => ?_
    refine .ite (fun _ => .throw_bind) fun _ => ?_
    split
    · exact .ite (fun _ => .pure trivial) fun _ => .get fun _ _ => .throw
    · have hwrite : Safe (Sound o) m₄ (next (if op.code = .guardNonnullClass && x.isNonNull then op.change .guardClass none else op)) := by
        split
        · exact hn m₄ _ (fun v hv => plain_args h v hv) (.inl rfl)
        · exact hn m₄ op (plain_args h) (ht₃.mono h₄)
      refine .bind hwrite fun _ m₅ h₅ _ => ?_
      exact withClass_spec (hr ▸ (((hi.1.mono h₂).mono h₃).mono h₄).mono h₅) hcls

/-- Writes out a guard for a value, perhaps as a guard on a truth value, and keeps what it tells. -/
theorem guardedValue_spec (hn : Writes o next) {given : Op} {j : InfoId} (ht : m.Tagged o given) (hp : ∀ v ∈ given.args, (o.val v).Plain)
    (hval : o.val (given.arg 0) = c) (he : m.Entry j c) (hc : m.consts j) : Safe (Sound o) m (do
      next given
      setConst ((← current given).arg 0).box? (← info j).box) := by
  refine (hn m given hp ht).bind fun _ m₁ h₁ _ => ?_
  refine (current_spec (ht.mono h₁)).bind fun op' m₂ h₂ hcur => ?_
  obtain ⟨args, hargs, rfl⟩ := hcur
  refine (info_spec ((he.mono h₁).mono h₂)).bind fun y m₃ h₃ hy => ?_
  rw [hy.1.const (hy.2 (h₂.2.2.2 j (h₁.2.2.2 j hc)))]
  refine setConst_spec fun r hr => ?_
  rw [val_of_box? hr, o.val_arg_congr hargs]
  exact hval

theorem contradictsClass_keeps (x y : Info) : Safe (Sound o) m (contradictsClass x y) := .get fun _ _ => .pure trivial

theorem guardValue_spec (hn : Writes o next) (h : o.Obeys op) (hv : op.NamesValue) (ht : m.Tagged o op)
    (hc : op.code = .guardValue) : Safe (Sound o) m (guardValue next op) := by
  have hg : o.val (op.arg 0) = o.val (op.arg 1) := by
    have := h.guard
    rw [hc] at this
    exact this
  obtain ⟨c, hlit⟩ := hv hc
  refine args_spec h fun i j m₂ h₂ hi hj => ?_
  refine (info_spec hi.1).bind fun x m₃ h₃ hx => ?_
  refine (info_spec (hj.1.mono h₃)).bind fun y m₄ h₄ hy => ?_
  refine .ite (fun _ => ?_) fun _ => ?_
  · exact .ite (fun _ => .pure trivial) fun _ => .get fun _ _ => .throw_bind
  refine .ite (fun _ => .throw_bind) fun _ => ?_
  refine (contradictsClass_keeps x y).bind fun t m₅ h₅ _ => ?_
  refine .ite (fun _ => .throw_bind) fun _ => .get fun s _ => ?_
  have h₂₅ : m₂ ≤ m₅ := le_trans (le_trans h₃ h₄) h₅
  have hset {m : Meaning} (hle : m₅ ≤ m) {given : Op} (ht : m.Tagged o given) (hp : ∀ v ∈ given.args, (o.val v).Plain)
      (hval : o.val (given.arg 0) = o.val (op.arg 0)) :=
    guardedValue_spec hn ht hp (hval.trans hg) ((hj.1.mono h₂₅).mono hle) (hle.2.2.2 j (h₂₅.2.2.2 j (hj.2 c hlit)))
  have hsame : Safe (Sound o) m₅ (do
      next op
      setConst ((← current op).arg 0).box? (← info j).box) :=
    hset (le_refl m₅) ((ht.mono h₂).mono h₂₅) (plain_args h) rfl
  have htruth (code : Opcode) : Safe (Sound o) m₅ (do
      let given ← tagged (op.change code (some [op.arg 0]))
      next given
      setConst ((← current given).arg 0).box? (← info j).box) := by
    refine (tagged_spec _).bind fun given m₆ h₆ hgiven => ?_
    obtain ⟨htag, t, rfl⟩ := hgiven
    refine hset h₆ htag (fun v hv => ?_) rfl
    rw [mem_singleton.1 hv]
    exact h.plain_arg 0
  split
  · exact .ite (fun _ => htruth _) fun _ => .ite (fun _ => htruth _) fun _ => hsame
  · exact hsame

/-! ## Calls -/

theorem invariantCall_spec (hn : Writes o next) (h : o.Obeys op) (hc : op.code = .callLoopinvariant) : Safe (Sound o) m (invariantCall next op) := by
  have honce (r : Box) (hr : op.result = some r) : o.value r = o.once (o.val (op.arg 0)) := by
    rw [o.val_arg]
    exact Outcome.Does.once h hc r hr
  have hcall (m : Meaning) : Safe (Sound o) m (next (op.change .call none)) := hn m _ (fun v hv => plain_args h v hv) (.inl rfl)
  refine (idOf_spec (h.plain_arg 0)).bind fun f m₁ h₁ hf => ?_
  refine (info_spec hf.1).bind fun x m₂ h₂ hx => ?_
  refine .ite (fun _ => hcall m₂) fun _ => .get fun s hs => ?_
  split
  · rename_i r hlook
    obtain ⟨l₁, l₂, hsplit, -⟩ := lookup_eq_some_iff.1 hlook
    obtain ⟨c, hc, hr⟩ := hs.once (f, r) (by simp [hsplit])
    cases hc.symm.trans (hf.1.mono h₂)
    exact setEqual_spec hr fun r' hr' => honce r' hr'
  · refine (hcall m₂).bind fun _ m₃ h₃ _ => .ite (fun hres => ?_) fun _ => .pure trivial
    obtain ⟨r, hr⟩ := isSome_iff_exists.1 hres
    refine (resultId_spec hr).bind fun i m₄ h₄ hi => .modify fun s hs => ⟨m₄, le_refl m₄, ?_, trivial⟩
    refine { hs with once := fun p hp => ?_ }
    rcases mem_cons.1 hp with rfl | hp
    · exact ⟨_, ((hf.1.mono h₂).mono h₃).mono h₄, honce r hr ▸ hi⟩
    · exact hs.once p hp

theorem conditionalCall_spec (hn : Writes o next) (h : o.Obeys op) (ht : m.Tagged o op) : Safe (Sound o) m (conditionalCall next op) := by
  refine (constIntOf_spec (h.plain_arg 0)).bind fun n m₁ h₁ _ => ?_
  split
  · refine .ite (fun _ => .pure trivial) fun _ => hn m₁ _ (fun v hv => ?_) (.inl rfl)
    apply plain_args h v
    simp only [Op.change] at hv
    split at hv
    · exact hv
    · exact mem_of_mem_drop hv
  · exact give_obeys_spec hn h (ht.mono h₁)

theorem recordClass_spec (h : o.Obeys op) (hc : op.code = .recordKnownClass) : Safe (Sound o) m (recordClass op) := by
  have hk := Outcome.Does.knownClass h hc
  rw [← o.val_arg, ← o.val_arg] at hk
  obtain ⟨r, k, hr, hk, hcls⟩ := hk
  refine (idOf_spec (h.plain_arg 0)).bind fun i m₁ h₁ hi => ?_
  refine (infoOf_spec (h.plain_arg 1)).bind fun y m₂ h₂ hy => ?_
  refine .bind (classOfConst?_spec hy.1) fun c m₃ h₃ hclass => ?_
  have hi₃ := (hi.1.mono h₂).mono h₃
  split
  · rename_i c'
    cases hk.symm.trans (hclass c' rfl)
    refine (info_spec hi₃).bind fun x m₄ h₄ hx => .ite (fun _ => ?_) fun _ => .pure trivial
    exact withClass_spec (hr ▸ hi₃.mono h₄) hcls
  · exact .pure trivial

/-! ## The pass -/

theorem intIsTrue_spec (hn : Writes o next) (h : o.Obeys op) (ht : m.Tagged o op) (hc : op.code = .intIsTrue) : Safe (Sound o) m (do
      let x ← idOf (op.arg 0)
      if (← get).bools.contains x then setEqual op.result x else give next op) := by
  refine (idOf_spec (h.plain_arg 0)).bind fun x m₁ h₁ hx => .get fun s hs => ?_
  refine .ite (fun hb => ?_) fun _ => give_obeys_spec hn h (ht.mono h₁)
  refine setEqual_spec hx.1 fun r hr => ?_
  have hval : o.value r = .int (if (o.val (op.arg 0)).num = 0 then 0 else 1) := h.value_eq hr (hc ▸ rfl)
  rcases hs.bools x (Std.HashSet.contains_iff_mem.1 hb) with e | e
  · rw [hval, some.inj (hx.1.symm.trans e)]
    rfl
  · rw [hval, some.inj (hx.1.symm.trans e)]
    rfl

theorem sameAs_spec (h : o.Obeys op) (hc : op.code = .sameAs) : Safe (Sound o) m (do setEqual op.result (← idOf (op.arg 0))) := by
  refine (idOf_spec (h.plain_arg 0)).bind fun x m₁ h₁ hx => setEqual_spec hx.1 fun r hr => ?_
  exact h.value_eq hr (hc ▸ rfl)

theorem cast_spec (hn : Writes o next) (h : o.Obeys op) (ht : m.Tagged o op) (code : Opcode) : Safe (Sound o) m (do
      next op
      rememberPure code [.box (op.result.getD default)] ((← current op).arg 0)) := by
  refine (hn m op (plain_args h) ht).bind fun _ m₁ h₁ _ => ?_
  exact (current_keeps op).bind fun _ _ _ _ => rememberPure_spec

theorem simplify_spec (hn : Writes o next) (h : o.Obeys op) (hv : op.NamesValue) (ht : m.Tagged o op) : Safe (Sound o) m (simplify next op) := by
  have harith (hk : op.code.operandKind = some .int) (ha : op.code.arity = some 2) (hp : (op.code.isAlwaysPure || op.code.isOvf) = true) :
      Safe (Sound o) m (do unless ← applyIdentity op do give next op) := by
    obtain ⟨r, hr⟩ := h.hasResult hp
    refine (applyIdentity_spec h hr hk ha).bind fun t m₁ h₁ _ => ?_
    exact .ite (fun _ => .pure trivial) fun _ => give_obeys_spec hn h (ht.mono h₁)
  unfold simplify
  split <;> rename_i hc
  iterate 10 exact harith (hc ▸ rfl) (hc ▸ rfl) (hc ▸ rfl)
  · exact floatMul_spec hn h ht hc
  · exact floatNeg_spec hn h ht hc
  · exact guardBool_spec hn h ht (.inl hc)
  · exact guardBool_spec hn h ht (.inr hc)
  · exact guardValue_spec hn h hv ht hc
  · exact guardNonNull_spec hn h ht hc
  · exact guardIsNull_spec hn h ht hc
  · exact guardClass_spec hn h ht (.inl hc)
  · exact guardClass_spec hn h ht (.inr hc)
  · exact comparePointers_spec hn h ht (.inl hc)
  · exact comparePointers_spec hn h ht (.inr hc)
  · exact comparePointers_spec hn h ht (.inl hc)
  · exact comparePointers_spec hn h ht (.inr hc)
  · exact intIsTrue_spec hn h ht hc
  · exact sameAs_spec h hc
  · exact cast_spec hn h ht _
  · exact cast_spec hn h ht _
  · exact invariantCall_spec hn h hc
  · exact conditionalCall_spec hn h ht
  · exact recordClass_spec h hc
  · exact give_obeys_spec hn h ht

theorem pass_spec (hn : Writes o next) : Accepts o (pass next) := by
  intro m op h hv ht
  have hsimplify {m' : Meaning} (hle : m ≤ m') (known : Bool) : Safe (Sound o) m' (if known = true then pure () else simplify next op) :=
    .ite (fun _ => .pure trivial) fun _ => simplify_spec hn h hv (ht.mono hle)
  have hrest {m' : Meaning} (hle : m ≤ m') : Safe (Sound o) m' (do
      let known ← if op.isComparison then knownComparison op else pure false
      unless known do simplify next op) := by
    refine .ite (fun _ => ?_) fun _ => hsimplify hle false
    exact .bind knownComparison_keeps fun t m₁ h₁ _ => hsimplify (le_trans hle h₁) t
  refine .ite (fun hp => .bind (fold?_spec h hp) fun folded m₁ h₁ hc => ?_) fun _ => hrest (le_refl m)
  cases folded with
  | none => exact hrest h₁
  | some c =>
    cases hres : op.result with
    | none => exact .pure trivial
    | some r =>
      rw [hc c rfl r hres]
      exact setConst_spec fun r' hr' => by cases hr'; rfl

end FlowCompiler.Trace.Algebra
