import FlowCompiler.Proofs.Rewriting.Replacement

/-!
# Pointers, truth values and guards

Two values with one entry are equal, and a virtual object is equal only to what has its entry.  A guard for a value that
is 0 or 1 holds when the guard for its truth holds.
-/

namespace FlowCompiler.Trace

open Option

namespace Valuation

variable {ν : Valuation} {op : Op} {st : Store} {f : Frame} {a b : Value} {c d : Const}

theorem holds_guardTrue (hc : op.code = .guardTrue) (hargs : op.args = [a]) (ha : Exec.resolve f a = some (.const c)) :
    Run.holds st f op = (c.num != 0) := by
  simp [Run.holds, Run.operands, Exec.resolveAll, hc, hargs, ha, Value.int?, Const.num]

theorem holds_guardFalse (hc : op.code = .guardFalse) (hargs : op.args = [a]) (ha : Exec.resolve f a = some (.const c)) :
    Run.holds st f op = (c.num == 0) := by
  simp [Run.holds, Run.operands, Exec.resolveAll, hc, hargs, ha, Value.int?, Const.num]

theorem holds_guardValue (hc : op.code = .guardValue) (hargs : op.args = [a, b]) (ha : Exec.resolve f a = some (.const c))
    (hb : Exec.resolve f b = some (.const d)) : Run.holds st f op = decide (c = d) := by
  rw [Bool.eq_iff_iff]
  simp [Run.holds, Run.operands, Exec.resolveAll, hc, hargs, ha, hb]

theorem holds_guardNonnull (hc : op.code = .guardNonnull) (hargs : op.args = [a]) (ha : Exec.resolve f a = some (.const c)) :
    Run.holds st f op = c.ref?.isSome := by
  simp [Run.holds, Run.operands, Exec.resolveAll, hc, hargs, ha, Run.pointee, Value.const?]

theorem holds_guardIsnull (hc : op.code = .guardIsnull) (hargs : op.args = [a]) (ha : Exec.resolve f a = some (.const c)) :
    Run.holds st f op = c.ref?.isNone := by
  simp [Run.holds, Run.operands, Exec.resolveAll, hc, hargs, ha, Run.pointee, Value.const?]

end Valuation

namespace Algebra

open OptimizeM Bounds

section

variable {ν : Valuation} {z : Double} {m : Meaning} {s : OptimizeState} {op : Op} {st : Store}

/-! ## Pointers -/

theorem execute_nullTest {eq : Bool} {d : Option Descr} {b : Box} {p : Option Ref} (hb : st.recordedOf b = .ptr p) :
    execute (nullTest eq) d [.box b] st = .ok (some (.const (.int (if eq then 1 else 0)))) st := by
  have reading (g : Store → ExecM (Option Value)) : (get >>= g) st = g st st := rfl
  have hvalue : st.constOf (([.box b][0]?).getD default) = .ptr p := hb
  unfold execute
  rw [reading]
  simp only [hvalue]
  cases eq <;> rfl

/-- A null test is right for null only, and not for a constant. -/
theorem nullTest_replaces (h : Knows ν z op.args m s) {eq : Bool} (hc : TestsEqual op.code eq) {v : Value} (hv : (ν.val v).kind = .ref)
    (hnull : ν.val v = .null → ν.Executes op (.int (if eq then 1 else 0))) :
    Replaces ν z m s op fun next => give next (op.change (nullTest eq) (some [v])) := by
  refine .done h (.written _) (fun _ => rfl) ⟨rfl, .inr ⟨hc.operandKind.1, ?_, v, rfl, hv, fun e => ⟨_, hnull e, fun st b hb => execute_nullTest hb⟩⟩⟩
  cases eq <;> simp [Op.change, nullTest]

theorem ref?_beq_eq {x y : Const} (hx : x.kind = .ref) (hy : y.kind = .ref) : (x.ref? == y.ref?) = decide (x = y) := by
  cases x <;> cases hx
  cases y <;> cases hy
  rw [Bool.eq_iff_iff]
  simp [Const.ref?]

theorem key?_of_ref {v : Value} (h : (ν.val v).kind = .ref) : v.key? = some v := by
  rcases v with b | n | d | p <;> first | rfl | cases h

section

variable (h : Knows ν z op.args m s)
include h

section

variable (ht : ν.Types op) (hz : ∀ v ∈ op.args, v.Met z)
include ht hz

theorem comparePointers_replaces {eq : Bool} (hc : TestsEqual op.code eq) : Replaces ν z m s op fun next => comparePointers next op eq := by
  obtain ⟨hk, ha, -⟩ := hc.operandKind
  have hargs := ht.args_eq_pair ha
  have hmem := ht.mem_pair ha
  have kx := ht.kinds _ hk _ hmem.1
  have ky := ht.kinds _ hk _ hmem.2
  have hexec : ν.Executes op (.int (if decide (ν.val (op.arg 0) = ν.val (op.arg 1)) == eq then 1 else 0)) :=
    Valuation.executes_of_pair (ht.reads hk) hargs (ref?_beq_eq kx ky ▸ hc.compute? _ _)
  obtain ⟨i, s₁, m₁, e₁, h₁, hs₁, hi, hid, -⟩ := h.idOf_ok (met_arg _ hz 0)
  obtain ⟨j, s₂, m₂, e₂, h₂, hs₂, hj, hjd, hold⟩ := hs₁.idOf_ok (met_arg _ hz 1)
  have hi := hi.mono h₂
  have hid := hold _ _ (hid (by rw [key?_of_ref kx]; nofun))
  have hjd := hjd (by rw [key?_of_ref ky]; nofun)
  have hx := hs₂.entry _ _ hi
  have hy := hs₂.entry _ _ hj
  have houtcome {same : Bool} (e : decide (ν.val (op.arg 0) = ν.val (op.arg 1)) = same) :
      Replaces ν z m₂ s₂ op fun _ => setConstInt op.result (if same == eq then 1 else 0) :=
    .number hs₂ (e ▸ hexec)
  have hequal (e : ν.val (op.arg 0) = ν.val (op.arg 1)) : ν.Executes op (.int (if eq then 1 else 0)) := by
    rw [decide_eq_true e, Bool.true_beq] at hexec
    exact hexec
  refine .after e₁ h₁ (.after e₂ h₂ (.info (.info (.ite (fun h1 => ?_) fun h1 => .ite (fun h2 => ?_) fun _ =>
    .ite (fun h3 => ?_) fun _ => .ite (fun h4 => ?_) fun _ => .ite (fun h5 => ?_) fun _ => ?_))))
  · rw [h1] at hi
    exact houtcome (decide_eq_true (some.inj (hi.symm.trans hj)))
  · refine houtcome (decide_eq_false fun e => h1 ?_)
    rcases Bool.or_eq_true_iff.1 h2 with hvirt | hvirt
    · exact some.inj ((hs₂.apart _ hmem.2 i (e ▸ hi) hvirt).symm.trans hjd)
    · exact some.inj (hid.symm.trans (hs₂.apart _ hmem.1 j (e ▸ hj) hvirt))
  · refine houtcome (decide_eq_false fun e => ?_)
    simp only [Bool.or_eq_true, Bool.and_eq_true] at h3
    rcases h3 with ⟨hnull, hnon⟩ | ⟨hnon, hnull⟩
    · obtain ⟨r, hr⟩ := hy.exists_ptr ky hnon
      rw [hx.eq_null hnull, hr] at e
      cases e
    · obtain ⟨r, hr⟩ := hx.exists_ptr kx hnon
      rw [hy.eq_null hnull, hr] at e
      cases e
  · exact nullTest_replaces hs₂ hc ky fun hnull => hequal ((hx.eq_null h4).trans hnull.symm)
  · exact nullTest_replaces hs₂ hc kx fun hnull => hequal (hnull.trans (hy.eq_null h5).symm)
  · exact .given hs₂

/-! ## Truth values -/

theorem intIsTrue_replaces (hc : op.code = .intIsTrue) : Replaces ν z m s op fun next => (do
      let x ← idOf (op.arg 0)
      if (← get).bools.contains x then setEqual op.result x else give next op) := by
  have hargs := ht.args_eq_single (hc ▸ rfl)
  obtain ⟨i, s₁, m₁, e₁, h₁, hs₁, hi, -, -⟩ := h.idOf_ok (met_arg _ hz 0)
  refine .after e₁ h₁ (.get ?_)
  by_cases hb : i ∈ s₁.bools
  · simp only [Std.HashSet.contains_iff_mem.2 hb, if_true]
    refine .entry hs₁ hi (Valuation.executes_of_single (ht.reads (k := .int) (hc ▸ rfl)) hargs fun _ => ?_).gives
    rcases hs₁.bools i hb with e | e <;> rw [hc, some.inj (hi.symm.trans e)] <;> rfl
  · simp only [Bool.eq_false_iff.2 fun e => hb (Std.HashSet.contains_iff_mem.1 e)]
    exact .given hs₁

theorem sameAs_replaces (hc : op.code = .sameAs) : Replaces ν z m s op fun _ => (do setEqual op.result (← idOf (op.arg 0))) := by
  have hargs := ht.args_eq_single (hc ▸ rfl)
  obtain ⟨i, s₁, m₁, e₁, h₁, hs₁, hi, -, -⟩ := h.idOf_ok (met_arg _ hz 0)
  have hk (k : Kind) (hk : Exec.reads? op.code = some k) : ∀ v ∈ op.args, (ν.val v).kind = k := by
    rw [hc] at hk
    cases hk
  refine .after e₁ h₁ (.entry hs₁ hi (Valuation.executes_of_single hk hargs fun _ => ?_).gives)
  rw [hc]
  rfl

end

/-! ## Guards -/

theorem Replaces.reject {α : Type} {f : Failure} {k : α → Emit → OptimizeM Unit} (hg : op.isGuard = true) :
    Replaces ν z m s op fun next => throw f >>= fun a => k a next :=
  .done h (.rejected f) (fun _ => rfl) hg

theorem guard_given (hg : op.isGuard = true) (learn : OptimizeM Unit) : Replaces ν z m s op fun next => (do next op; learn) :=
  .done h (.guarded op learn) (fun _ => rfl) ⟨hg, hg, fun _ _ _ => rfl⟩

section

variable (ht : ν.Types op) (hz : ∀ v ∈ op.args, v.Met z)
include ht hz

theorem guardBool_replaces (hc : op.code = .guardTrue ∨ op.code = .guardFalse) : Replaces ν z m s op fun next => guardBool next op := by
  have hg : op.isGuard = true := by rcases hc with e | e <;> rw [Op.isGuard, e] <;> rfl
  have ha : op.code.arity = some 1 := by rcases hc with e | e <;> rw [e] <;> rfl
  have hargs := ht.args_eq_single ha
  obtain ⟨i, s₁, m₁, e₁, h₁, hs₁, hi, -, -⟩ := h.idOf_ok (met_arg _ hz 0)
  have hconst : constIntOf (op.arg 0) s = .ok (s₁.info i).constInt? s₁ := (bind_eq (infoOf_of_idOf e₁)).trans rfl
  refine .after hconst h₁ ?_
  cases hn : (s₁.info i).constInt? with
  | none => exact guard_given hs₁ hg _
  | some n =>
    refine .ite (fun e => ?_) fun _ => .done hs₁ (.rejected _) (fun _ => rfl) hg
    refine .done hs₁ .dropped (fun _ => rfl) ⟨hg, fun st f hf => ?_⟩
    have hfirst := hf _ (ht.mem_single ha)
    rw [(hs₁.entry _ _ hi).eq_of_constInt? hn] at hfirst
    rcases hc with hc | hc
    · rw [Valuation.holds_guardTrue hc hargs hfirst]
      simpa [hc] using e
    · rw [Valuation.holds_guardFalse hc hargs hfirst]
      simpa [hc] using e

theorem guardNonNull_replaces (hc : op.code = .guardNonnull) : Replaces ν z m s op fun next => guardNonNull next op := by
  have hg : op.isGuard = true := by rw [Op.isGuard, hc]; rfl
  have ha : op.code.arity = some 1 := by rw [hc]; rfl
  have hmem := ht.mem_single ha
  obtain ⟨i, s₁, m₁, e₁, h₁, hs₁, hi, -, -⟩ := h.idOf_ok (met_arg _ hz 0)
  refine .after e₁ h₁ (.info (.ite (fun hnon => ?_) fun _ => .ite (fun _ => .done hs₁ (.rejected _) (fun _ => rfl) hg) fun _ => guard_given hs₁ hg _))
  refine .done hs₁ .dropped (fun _ => rfl) ⟨hg, fun st f hf => ?_⟩
  obtain ⟨r, hr⟩ := (hs₁.entry _ _ hi).exists_ptr (ht.kinds .ref (hc ▸ rfl) _ hmem) hnon
  rw [Valuation.holds_guardNonnull hc (ht.args_eq_single ha) (hf _ hmem), hr]
  rfl

theorem guardIsNull_replaces (hc : op.code = .guardIsnull) : Replaces ν z m s op fun next => guardIsNull next op := by
  have hg : op.isGuard = true := by rw [Op.isGuard, hc]; rfl
  have ha : op.code.arity = some 1 := by rw [hc]; rfl
  obtain ⟨i, s₁, m₁, e₁, h₁, hs₁, hi, -, -⟩ := h.idOf_ok (met_arg _ hz 0)
  refine .after (infoOf_of_idOf e₁) h₁ (.ite (fun hnull => ?_) fun _ => .ite (fun _ => .done hs₁ (.rejected _) (fun _ => rfl) hg) fun _ =>
    guard_given hs₁ hg _)
  refine .done hs₁ .dropped (fun _ => rfl) ⟨hg, fun st f hf => ?_⟩
  rw [Valuation.holds_guardIsnull hc (ht.args_eq_single ha) (hf _ (ht.mem_single ha)), (hs₁.entry _ _ hi).eq_null hnull]
  rfl

end

end

theorem guardsAlike_truth (ht : ν.Types op) (hc : op.code = .guardValue) {n : Int64} {tag : Nat}
    (hbool : ν.val (op.arg 0) = .int 0 ∨ ν.val (op.arg 0) = .int 1) (hn : ν.val (op.arg 1) = .int n) {code : Opcode}
    (hcode : n = 1 ∧ code = .guardTrue ∨ n = 0 ∧ code = .guardFalse) : ν.GuardsAlike op { op.change code (some [op.arg 0]) with tag } := by
  refine ⟨by rw [Op.isGuard, hc]; rfl, by rcases hcode with ⟨-, rfl⟩ | ⟨-, rfl⟩ <;> rfl, fun st f hf => ?_⟩
  have ha : op.code.arity = some 2 := by rw [hc]; rfl
  obtain ⟨hfirst, hsecond⟩ := ht.mem_pair ha
  rw [Valuation.holds_guardValue hc (ht.args_eq_pair ha) (hf _ hfirst) (hf _ hsecond), hn]
  rcases hcode with ⟨rfl, rfl⟩ | ⟨rfl, rfl⟩
  · rw [Valuation.holds_guardTrue rfl rfl (hf _ hfirst)]
    rcases hbool with e | e <;> rw [e] <;> rfl
  · rw [Valuation.holds_guardFalse rfl rfl (hf _ hfirst)]
    rcases hbool with e | e <;> rw [e] <;> rfl

theorem guardValue_replaces (h : Knows ν z op.args m s) (ht : ν.Types op) (hz : ∀ v ∈ op.args, v.Met z) (hc : op.code = .guardValue) :
    Replaces ν z m s op fun next => guardValue next op := by
  have hg : op.isGuard = true := by rw [Op.isGuard, hc]; rfl
  have ha : op.code.arity = some 2 := by rw [hc]; rfl
  obtain ⟨hfirst, hsecond⟩ := ht.mem_pair ha
  obtain ⟨i, s₁, m₁, e₁, h₁, hs₁, hi, -, -⟩ := h.idOf_ok (met_arg _ hz 0)
  obtain ⟨j, s₂, m₂, e₂, h₂, hs₂, hj, -, -⟩ := hs₁.idOf_ok (met_arg _ hz 1)
  have hi := hi.mono h₂
  have hx := hs₂.entry _ _ hi
  have hy := hs₂.entry _ _ hj
  refine .after e₁ h₁ (.after e₂ h₂ (.info (.info ?_)))
  refine .ite (fun hconst => .ite (fun hsame => ?_) fun _ => .get (.reject hs₂ hg)) fun _ => .ite (fun _ => .reject hs₂ hg) fun _ => ?_
  · refine .done hs₂ .dropped (fun _ => rfl) ⟨hg, fun st f hf => ?_⟩
    rw [hx.const hconst] at hsame
    have e := hy.box _ (eq_of_beq hsame).symm
    rw [Valuation.holds_guardValue hc (ht.args_eq_pair ha) (hf _ hfirst) (hf _ hsecond)]
    exact decide_eq_true e
  obtain ⟨contradicts, hcontradicts⟩ : ∃ b, contradictsClass (s₂.info i) (s₂.info j) s₂ = .ok b s₂ := ⟨_, rfl⟩
  refine .after hcontradicts (le_refl _) (.ite (fun _ => .reject hs₂ hg) fun _ => .get ?_)
  have htruth {n : Int64} {code : Opcode} (hn : (s₂.info j).constInt? = some n) (hb : i ∈ s₂.bools)
      (hcode : n = 1 ∧ code = .guardTrue ∨ n = 0 ∧ code = .guardFalse) : Replaces ν z m₂ s₂ op fun next => (do
        let given ← tagged (op.change code (some [op.arg 0]))
        next given
        setConst ((← current given).arg 0).box? (← info j).box) := by
    refine .after rfl (le_refl _) (.done (hs₂.congr _ rfl rfl rfl rfl rfl) (.guarded _ _) (fun _ => rfl) ?_)
    refine guardsAlike_truth ht hc ?_ (hy.eq_of_constInt? hn) hcode
    exact (hs₂.bools i hb).imp (fun e => some.inj (hi.symm.trans e)) fun e => some.inj (hi.symm.trans e)
  have hgiven : Replaces ν z m₂ s₂ op fun next => (do
      next op
      setConst ((← current op).arg 0).box? (← info j).box) := guard_given hs₂ hg _
  cases hn : (s₂.info j).constInt? with
  | none => exact hgiven
  | some n =>
    refine .ite (fun hone => ?_) fun _ => .ite (fun hzero => ?_) fun _ => hgiven
    · simp only [Bool.and_eq_true, decide_eq_true_iff] at hone
      exact htruth hn (Std.HashSet.contains_iff_mem.1 hone.1) (.inl ⟨hone.2, rfl⟩)
    · simp only [Bool.and_eq_true, decide_eq_true_iff] at hzero
      exact htruth hn (Std.HashSet.contains_iff_mem.1 hzero.1) (.inr ⟨hzero.2, rfl⟩)

/-! ## All of them -/

/-- The operations that the pass simplifies by laws of its own. -/
def hasLaws : Opcode → Bool
  | .intAdd | .intSub | .intMul | .intAnd | .intOr | .intXor | .intFloordiv | .intLshift | .intRshift | .uintRshift
  | .floatMul | .floatNeg | .ptrEq | .instancePtrEq | .ptrNe | .instancePtrNe | .intIsTrue | .sameAs
  | .guardTrue | .guardFalse | .guardValue | .guardNonnull | .guardIsnull => true
  | _ => false

/-- What the pass puts in the place of an operation agrees with it, unless it tests a pointer as a number: then it does for a box with null. -/
theorem simplify_replaces (h : Knows ν z op.args m s) (ht : ν.Types op) (hz : ∀ v ∈ op.args, v.Met z)
    (hc : hasLaws op.code = true) : Replaces ν z m s op fun next => simplify next op := by
  have arithmetic := arithmetic_replaces h ht hz
  unfold hasLaws at hc
  split at hc <;> rename_i hcode <;> simp only [simplify, hcode]
  iterate 10 exact arithmetic (hcode ▸ rfl) (hcode ▸ rfl)
  · exact floatMul_replaces h ht hz hcode
  · exact floatNeg_replaces h ht hcode
  · exact comparePointers_replaces h ht hz (.inl hcode)
  · exact comparePointers_replaces h ht hz (.inr hcode)
  · exact comparePointers_replaces h ht hz (.inl hcode)
  · exact comparePointers_replaces h ht hz (.inr hcode)
  · exact intIsTrue_replaces h ht hz hcode
  · exact sameAs_replaces h ht hz hcode
  · exact guardBool_replaces h ht hz (.inl hcode)
  · exact guardBool_replaces h ht hz (.inr hcode)
  · exact guardValue_replaces h ht hz hcode
  · exact guardNonNull_replaces h ht hz hcode
  · exact guardIsNull_replaces h ht hz hcode
  · cases hc

/-- A product with one, of which nothing is known yet. -/
def productOp : Op := { code := .floatMul, args := [.box ⟨0, .float⟩, .const (.float ⟨0x3FF0000000000000⟩)], result := some ⟨1, .float⟩ }

/-- The other factor is a negative zero. -/
theorem simplify_replaces_product : Replaces (fun _ => .float ⟨0x8000000000000000⟩) ⟨0⟩ ⟨[], [], [], fun _ => False⟩ {} productOp
    fun next => simplify next productOp := by
  refine simplify_replaces (.start _ _ _) ⟨fun n hn => ?_, fun k hk v hv => ?_⟩ (fun v hv => ?_) rfl
  · cases hn
    rfl
  · cases hk
    simp only [productOp, List.mem_cons, List.not_mem_nil, or_false] at hv
    rcases hv with rfl | rfl <;> rfl
  · simp only [productOp, List.mem_cons, List.not_mem_nil, or_false] at hv
    rcases hv with rfl | rfl <;> intro d e hd <;> cases e
    revert hd
    decide

/-! ## The test of a pointer -/

/-- Every pointer passes for null when it is tested in place of a comparison with null, and one that is a constant cannot be tested. -/
theorem nullTest_wrong {eq : Bool} (hc : TestsEqual op.code eq) {v : Value} {r : Ref} (hargs : op.args = [v, .null])
    (hv : ν.val v = .ptr (some r)) (d : Option Descr) : ν.Executes op (.int (if eq then 0 else 1)) ∧
      (∀ st b, st.recordedOf b = .ptr (some r) → execute (nullTest eq) d [.box b] st = .ok (some (.const (.int (if eq then 1 else 0)))) st) ∧
      ∀ st p, execute (nullTest eq) d [.const (.ptr p)] st = .error (.misread .int (.ptr p)) st := by
  refine ⟨Valuation.executes_of_pair (fun k hk => ?_) hargs ?_, fun _ _ => execute_nullTest, fun st p => by cases eq <;> rfl⟩
  · cases Outcome.reads?_of_operandKind hc.operandKind.1 hk
    rw [hargs, List.forall_mem_cons, List.forall_mem_singleton, hv]
    exact ⟨rfl, rfl⟩
  · rw [hc.compute?, hv]
    cases eq <;> rfl

end

def pointer : Box := ⟨0, .ref⟩

def comparisonOp : Op := { code := .ptrEq, args := [.box pointer, .null], result := some ⟨1, .int⟩ }

/-- The pointer is not null, but the test that is written out in place of the comparison says that it is; of a pointer that is a constant
it says nothing. -/
theorem comparison_replaced_wrong : ∃ op' s', (∀ next, simplify next comparisonOp {} = give next op' s') ∧
    Valuation.Executes (fun _ => .ptr (some 0)) comparisonOp (.int 0) ∧
    (∀ st, st.recordedOf pointer = .ptr (some 0) → execute op'.code op'.descr op'.args st = .ok (some (.const (.int 1))) st) ∧
    ∀ st p, execute op'.code op'.descr [.const (.ptr p)] st = .error (.misread .int (.ptr p)) st := by
  have hpointer : idOf (.box pointer) {} = .ok 0 (withEntry {} (.box pointer) { box := some (.box pointer), key := .box pointer }) :=
    idOf_of_none (by simp [OptimizeState.id?, Value.key?]) rfl
  generalize hs : withEntry {} (.box pointer) { box := some (.box pointer), key := .box pointer } = s at hpointer
  have hnone : s.id? .null = none := by
    simp [← hs, OptimizeState.id?, Value.key?, withEntry, Value.null, Const.null]
  obtain ⟨t, ht, hnull⟩ : ∃ t, withEntry s .null { box := some .null, key := .null, level := .constant } = t ∧ idOf .null s = .ok 1 t := by
    subst hs
    exact ⟨_, rfl, idOf_of_none hnone rfl⟩
  have htests : TestsEqual comparisonOp.code true := .inl rfl
  obtain ⟨hright, hwrong, hconst⟩ := @nullTest_wrong (fun _ => .ptr (some 0)) _ true htests (.box pointer) 0 rfl rfl comparisonOp.descr
  refine ⟨comparisonOp.change .intIsZero (some [.box pointer]), t, fun next => (bind_eq hpointer).trans ((bind_eq hnull).trans ?_), hright,
    fun st => hwrong st pointer, hconst⟩
  subst ht hs
  rfl

end Algebra
end FlowCompiler.Trace
