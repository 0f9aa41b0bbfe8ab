import FlowCompiler.Proofs.Bounds.Guards
import FlowCompiler.Proofs.Line

/-!
# The outcome of a run

A run of the machine through a well-formed trace has an outcome: the values that the boxes have at the end.
Every operation of the trace does what the outcome says.  What the machine does not check is asked of the
trace: that memory which is read as if it never changed does not change, and the like.
-/

namespace FlowCompiler.Trace

open Run List

variable {k : Nat} {r : Box} {f : Frame} {x y : Const} {code : Opcode} {e : Except ExecError Const}

/-! ## What is computed -/

theorem compute?_congr (code : Opcode) (x y y' : Const) (h : code.arity ≠ some 2) : Exec.compute? code x y = Exec.compute? code x y' := by
  cases code <;> first | exact absurd rfl h | rfl

theorem arity_of_compute? (h : Exec.compute? code x y = some e) : code.arity = some 1 ∨ code.arity = some 2 := by
  cases code <;> first | exact .inl rfl | exact .inr rfl | cases h

theorem Exec.misread_of_misread? {args : List Value} {e : ExecError} (h : Exec.misread? code args = some e) : ∃ k c, e = .misread k c := by
  obtain ⟨k, -, found⟩ := Option.bind_eq_some_iff.1 h
  obtain ⟨v, -, hv⟩ := exists_of_findSome?_eq_some found
  cases v with
  | box b => cases hv
  | const c =>
    by_cases hk : c.kind = k
    · simp [hk] at hv
    · exact ⟨k, c, (by simpa [hk] using hv.symm)⟩

theorem not_guard_of_compute? (h : Exec.compute? code x y = some e) : code.isGuard = false ∧ code ≠ .label ∧ code ≠ .forceToken := by
  cases code <;> first | exact ⟨rfl, by decide, by decide⟩ | cases h

section

variable {op : Op} {s : Store} (ha : ∀ n, op.code.arity = some n → op.args.length = n)
  (h : Exec.compute? op.code (f.val (op.arg 0)) (f.val (op.arg 1)) = some e)
include ha h

theorem compute?_of_operands : Exec.compute? op.code (s.constOf ((((op.args.map f.val).map .const)[0]?).getD default))
    (s.constOf ((((op.args.map f.val).map .const)[1]?).getD default)) = some e := by
  rw [← h]
  rcases arity_of_compute? h with h1 | h2
  · obtain ⟨a, hargs⟩ := length_eq_one_iff.1 (ha 1 h1)
    simp only [Op.arg, hargs]
    exact compute?_congr _ _ _ _ (by simp [h1])
  · obtain ⟨a, b, hargs⟩ := length_eq_two.1 (ha 2 h2)
    simp only [Op.arg, hargs]
    rfl

theorem execute_of_read (hread : Exec.misread? op.code ((op.args.map f.val).map .const) = none) :
    execute op.code op.descr ((op.args.map f.val).map .const) s = match e with
      | .ok c => .ok (some (.const c)) s
      | .error err => .error err s := by
  have reading (g : Store → ExecM (Option Value)) : (get >>= g) s = g s s := rfl
  unfold execute
  rw [reading]
  rw [compute?_of_operands ha h, hread]
  cases e <;> rfl

theorem execute_of_compute? : (∃ k c, execute op.code op.descr ((op.args.map f.val).map .const) s = .error (.misread k c) s) ∨
    execute op.code op.descr ((op.args.map f.val).map .const) s = match e with
      | .ok c => .ok (some (.const c)) s
      | .error err => .error err s := by
  cases hread : Exec.misread? op.code ((op.args.map f.val).map .const) with
  | none => exact .inr (execute_of_read ha h hread)
  | some err =>
    obtain ⟨k, c, rfl⟩ := Exec.misread_of_misread? hread
    have reading (g : Store → ExecM (Option Value)) : (get >>= g) s = g s s := rfl
    refine .inl ⟨k, c, ?_⟩
    unfold execute
    rw [reading]
    rw [compute?_of_operands ha h, hread]
    rfl

end

/-- What is computed fails when it does not fit into a word, or by dividing by zero. -/
theorem exact_of_error {e : ExecError} (h : Exec.compute? code x y = some (.error e)) (hexact : code.Exact x.num y.num) : ∃ f, e = .failed f := by
  have hdivided {r : Int64} (h : some ((Exec.divided code y.num r).map Const.int) = some (.error e)) : ∃ f, e = .failed f := by
    unfold Exec.divided at h
    split at h
    · cases h
      exact ⟨_, rfl⟩
    · cases h
  cases code
  case intFloordiv => exact hdivided h
  case intMod => exact hdivided h
  case uintFloordiv => exact hdivided h
  case intAddOvf =>
    change some ((Exec.checked (Word.addChecked x.num y.num)).map Const.int) = _ at h
    rw [Word.addChecked_of_exact hexact] at h
    cases h
  case intSubOvf =>
    change some ((Exec.checked (Word.subChecked x.num y.num)).map Const.int) = _ at h
    rw [Word.subChecked_of_exact hexact] at h
    cases h
  case intMulOvf =>
    change some ((Exec.checked (Word.mulChecked x.num y.num)).map Const.int) = _ at h
    obtain ⟨r, hr⟩ := Word.mulChecked_of_exact hexact
    rw [hr] at h
    cases h
  all_goals cases h

/-- The length of what a constant points to. -/
def Store.lengthOf (s : Store) (c : Const) : Int64 :=
  match c.ref?.map s.object with
  | some (.array _ items) => .ofInt items.size
  | some (.str cs _) => .ofInt cs.length
  | _ => 0

namespace Bounds

/-- What is asked of an operation of a trace before it runs.  A guard on a truth value is one on the result of
a comparison. -/
structure Proper (ops : List Op) (k : Nat) (op : Op) : Prop where
  straight : op.isFinal = false
  arity : ∀ n, op.code.arity = some n → op.args.length = n
  kinds : ∀ κ, op.code.operandKind = some κ → ∀ v ∈ op.args, v.kind = κ
  hasResult : (op.code.isAlwaysPure || op.code.isOvf) = true → ∃ r, op.result = some r
  test : op.code = .guardTrue ∨ op.code = .guardFalse → ∃ (b : Box) (j : Nat) (p : Op),
    op.arg 0 = .box b ∧ j < k ∧ ops[j]? = some p ∧ p.result = some b ∧ p.code.isComparison = true
  names : op.NamesValue

/-- What the machine does not check.  No operand is a negative zero; memory that is read as if it never
changed is as it was when the trace was optimized, and at the end; strings hold characters; what is said of
classes and of calls to be made once is true. -/
structure Trusted (σ τ : Store) (f : Frame) (once : Const → Const) (op : Op) : Prop where
  plain : ∀ v ∈ op.args, (f.val v).Plain
  reads : op.code.isAlwaysPure = true → Exec.compute? op.code (f.val (op.arg 0)) (f.val (op.arg 1)) = none →
    ∀ r ∈ op.result, ∀ v s, execute op.code op.descr ((op.args.map f.val).map .const) σ = .ok (some v) s → v = .const (f.value r)
  length : op.code.isLength = true → ∀ r ∈ op.result, f.value r = .int (τ.lengthOf (f.val (op.arg 0))) ∧ 0 ≤ (f.value r).num.toInt
  char : op.code = .strgetitem → ∀ r ∈ op.result, 0 ≤ (f.value r).num.toInt ∧ (f.value r).num.toInt < 256
  scalar : op.code = .unicodegetitem → ∀ r ∈ op.result, 0 ≤ (f.value r).num.toInt
  unit : op.code = .floatMul → ∀ r ∈ op.result, ∀ d, (f.val (op.arg 0) = .float d → d.numEq (Double.ofInt 1) = true → f.value r = f.val (op.arg 1)) ∧
    (f.val (op.arg 1) = .float d → d.numEq (Double.ofInt 1) = true → f.value r = f.val (op.arg 0))
  knownClass : op.code = .recordKnownClass → hasClass τ (f.val (op.arg 0)).ref? (f.val (op.arg 1)).ref? = true
  once : op.code = .callLoopinvariant → ∀ r ∈ op.result, f.value r = once (f.val (op.arg 0))

/-- The machine has come from a store `τ₀` through a trace to a store `τ`; the trace was optimized with the
store `σ`. -/
structure Observation (σ τ₀ τ : Store) (c : CodeCache) (u : UnitId) (frame : FrameId) (inputs : List Box) (ops : List Op)
    (once : Const → Const) : Prop where
  code : ops <+: (c.unit u).ops.toList
  frame_lt : frame < τ₀.frames.size
  through : Through c frame u 0 ops.length τ₀ τ
  wellFormed : WellFormed inputs ops
  proper : ∀ (k : Nat) (op : Op), ops[k]? = some op → Proper ops k op
  typed : (τ.frame frame).Typed
  plain : ∀ b, ((τ.frame frame).value b).Plain
  classes : ∀ r k, σ.classOf? r = some k → τ₀.classOf? r = some k
  trusted : ∀ op ∈ ops, Trusted σ τ (τ.frame frame) once op

variable {σ τ₀ τ : Store} {c : CodeCache} {u : UnitId} {frame : FrameId} {inputs : List Box} {ops : List Op} {once : Const → Const}

namespace Observation

theorem kept (h : Observation σ τ₀ τ c u frame inputs ops once) : Through.Kept ops frame 0 ops.length τ₀ τ :=
  h.through.kept h.code (Nat.le_refl _) (fun op hop => by
    obtain ⟨k, hk⟩ := getElem?_of_mem hop
    exact (h.proper k op hk).straight) h.frame_lt

/-- What the run makes of the boxes. -/
def outcome (h : Observation σ τ₀ τ c u frame inputs ops once) : Outcome where
  value := (τ.frame frame).value
  store := σ
  classOf := τ.classOf?
  length x := if 0 ≤ (τ.lengthOf x).toInt then τ.lengthOf x else 0
  once := once
  kind_value b hb := (Frame.kind_val h.typed (v := .box b) (by simp [Value.kind, hb])).trans hb
  plain_value := h.plain
  classOf_store r k hk := h.kept.classOf? r k (h.classes r k hk)
  length_nonneg x := by
    split
    · assumption
    · decide

theorem val_outcome (h : Observation σ τ₀ τ c u frame inputs ops once) : h.outcome.val = (τ.frame frame).val := by
  funext v
  cases v <;> rfl

/-- An operation as the machine came through it: its operands had the values of the end, and its result has
kept its value. -/
structure Witnessed (τ : Store) (frame : FrameId) (op : Op) (t t' : Store) : Prop where
  stepped : Stepped frame op t t'
  frame_lt : frame < t.frames.size
  operands : ∀ b ∈ op.boxArgs, (t.frame frame).env[b]? = (τ.frame frame).env[b]?
  result : ∀ r, op.result = some r → (t'.frame frame).env[r]? = (τ.frame frame).env[r]?
  classOf? : ∀ r k, t.classOf? r = some k → τ.classOf? r = some k

theorem witnessed (h : Observation σ τ₀ τ c u frame inputs ops once) {op : Op} (hop : ops[k]? = some op) :
    ∃ t t', Witnessed τ frame op t t' ∧ Through c frame u (k + 1) ops.length t' τ := by
  have hk : k < ops.length := (List.getElem?_eq_some_iff.1 hop).1
  have hstraight : ∀ op ∈ ops, op.isFinal = false := fun op hop => by
    obtain ⟨k, hk⟩ := List.getElem?_of_mem hop
    exact (h.proper k op hk).straight
  obtain ⟨t, t', before, step, after⟩ := h.through.split (Nat.zero_le k) hk
  have hb := before.kept h.code (Nat.le_of_lt hk) hstraight h.frame_lt
  have hframe : frame < t.frames.size := hb.frames ▸ h.frame_lt
  have hs := stepped_of_advance ((Through.getElem?_of_isPrefix h.code hk).trans hop) (h.proper k op hop).straight step
  have hm := hs.moved hframe
  have ha := after.kept h.code (Nat.le_refl _) hstraight (hm.frames ▸ hframe)
  refine ⟨t, t', ⟨hs, hframe, fun b hb => ?_, fun r hr => ?_, fun r k hr => ha.classOf? r k (hm.classOf? r k hr)⟩, after⟩
  · have hlater (i : Nat) (q : Op) (hi : k ≤ i) (hq : ops[i]? = some q) : q.result ≠ some b := h.wellFormed.result_ne hop hb hq hi
    rw [ha.env b fun i q hi _ hq => hlater i q (by omega) hq, hm.env b (hlater k op (Nat.le_refl k) hop)]
  · refine (ha.env r fun i q hi _ hq hr' => ?_).symm
    have := h.wellFormed.single k i op q r hop hq hr hr'
    omega

/-! ## Every operation does what the outcome says -/

section

variable {op : Op} {t t' : Store}

section

variable (w : Witnessed τ frame op t t') (ht : (τ.frame frame).Typed)
include w ht

theorem Witnessed.resolve_eq (hf : f.env = (t.frame frame).env) {v : Value} (hv : v ∈ op.args) :
    Exec.resolve f v = some (.const ((τ.frame frame).val v)) := by
  rw [← Frame.resolve_eq ht]
  cases v with
  | const x => rfl
  | box b =>
    simp only [Exec.resolve]
    rw [hf, w.operands b (mem_filterMap.2 ⟨.box b, hv, rfl⟩)]

theorem Witnessed.operands_eq (hf : f.env = (t.frame frame).env) :
    Run.operands f op = op.args.map fun v => some (.const ((τ.frame frame).val v)) := by
  simp only [Run.operands, Exec.resolveAll, map_map]
  exact map_congr_left fun v hv => w.resolve_eq ht hf hv

theorem Witnessed.arguments_eq (hf : f.env = (t.frame frame).env) : arguments f op = (op.args.map (τ.frame frame).val).map .const := by
  rw [arguments, w.operands_eq ht hf]
  induction op.args with
  | nil => rfl
  | cons v rest ih => simpa using ih

theorem Witnessed.value_eq (hr : op.result = some r) (hg : op.isGuard = false) (hl : op.code ≠ .label) (hc : op.code ≠ .forceToken) :
    ∃ s₁ s₂ outcome, (∀ v, outcome = .ok v → execute op.code op.descr ((op.args.map (τ.frame frame).val).map .const) s₁ = .ok v s₂) ∧
      (∀ e, outcome = .error e → execute op.code op.descr ((op.args.map (τ.frame frame).val).map .const) s₁ = .error e s₂) ∧
      isFatal outcome = none ∧ .const ((τ.frame frame).value r) = resultOf r outcome := by
  rcases w.stepped with ⟨e, -⟩ | ⟨hg', -, -⟩ | ⟨e, _, _, _, _⟩ | ⟨-, -, he⟩
  · exact absurd e hl
  · rw [hg] at hg'
    cases hg'
  · exact absurd e hc
  · obtain ⟨s₁, s₂, outcome, hext, hok, herror, hfatal, hs⟩ := he.exists_outcome
    have hargs := w.arguments_eq ht (hext.env frame)
    rw [hargs] at hok herror
    refine ⟨s₁, s₂, outcome, hok, herror, hfatal, ?_⟩
    have hext₂ : s₁.Extends s₂ := by
      cases outcome with
      | ok v => exact (Extending.execute _ _ _ s₁).1 _ _ (hok v rfl)
      | error e => exact (Extending.execute _ _ _ s₁).2 _ _ (herror e rfl)
    have henv := w.result r hr
    have hlt : frame < s₂.frames.size := by
      rw [hext₂.frames, hext.frames]
      exact w.frame_lt
    rw [hs, Store.frame_updateFrame hlt, finishOp_env, hr] at henv
    simp only [Std.HashMap.getElem?_insert_self] at henv
    obtain ⟨x, hx, -⟩ := ht r _ henv.symm
    rw [Frame.value, ← henv, hx]
    exact (Option.some.inj hx).symm

section

variable (ha : ∀ n, op.code.arity = some n → op.args.length = n) (hr : op.result = some r)
include ha hr

theorem Witnessed.computes (hexact : op.code.Exact ((τ.frame frame).val (op.arg 0)).num ((τ.frame frame).val (op.arg 1)).num)
    (hc : Exec.compute? op.code ((τ.frame frame).val (op.arg 0)) ((τ.frame frame).val (op.arg 1)) = some e) :
    e = .ok ((τ.frame frame).value r) := by
  obtain ⟨hg, hl, hf⟩ := not_guard_of_compute? hc
  obtain ⟨s₁, s₂, outcome, hok, herror, hfatal, hvalue⟩ := w.value_eq ht hr hg hl hf
  rcases execute_of_compute? (s := s₁) (f := τ.frame frame) ha hc with ⟨k, c, hrun⟩ | hrun
  · -- a run does not go on behind an operand that is misread
    cases outcome with
    | ok v => cases hrun.symm.trans (hok v rfl)
    | error err =>
      cases hrun.symm.trans (herror err rfl)
      cases hfatal
  cases e with
  | ok x =>
    cases outcome with
    | ok v =>
      cases hrun.symm.trans (hok v rfl)
      cases hvalue
      rfl
    | error err => cases hrun.symm.trans (herror err rfl)
  | error err =>
    cases outcome with
    | ok v => cases hrun.symm.trans (hok v rfl)
    | error err' =>
      cases hrun.symm.trans (herror err' rfl)
      obtain ⟨f, rfl⟩ := exact_of_error hc hexact
      cases hfatal

theorem Witnessed.bool_value (hb : op.code.isComparison = true) : (τ.frame frame).value r = .int 0 ∨ (τ.frame frame).value r = .int 1 := by
  obtain ⟨hpure, hbool⟩ := Bool.and_eq_true_iff.1 hb
  obtain ⟨truth, htruth⟩ := Outcome.compute?_of_returnsBool hbool ((τ.frame frame).val (op.arg 0)) ((τ.frame frame).val (op.arg 1))
  have hexact {code : Opcode} (h : code.returnsBool = true) (m n : Int64) : code.Exact m n := by
    cases code <;> first | exact Bool.noConfusion h | trivial
  rw [← Except.ok.inj (w.computes ht ha hr (hexact hbool _ _) htruth)]
  cases truth
  · exact .inl rfl
  · exact .inr rfl

end

theorem Witnessed.operand_eq {i : Nat} (hi : i < op.args.length) :
    ((Run.operands (t.frame frame) op)[i]?).join = some (.const ((τ.frame frame).val (op.arg i))) := by
  rw [w.operands_eq ht rfl]
  simp [Op.arg, getElem?_eq_getElem hi]

end

theorem ptr_of_ref? {x : Const} {r : Ref} (h : x.ref? = some r) : x = .ptr (some r) := by
  cases x with
  | ptr p => exact congrArg Const.ptr h
  | _ => cases h

theorem hasClass_of_hasClass {o : Outcome} {t : Store} (hcls : ∀ r k, t.classOf? r = some k → o.classOf r = some k)
    (h : hasClass t x.ref? y.ref? = true) : o.HasClass x y := by
  unfold hasClass at h
  split at h
  · rename_i r hr
    obtain ⟨cls, hc, hk⟩ := (Option.any_eq_true ..).1 h
    exact ⟨r, cls, ptr_of_ref? hr, ptr_of_ref? (of_decide_eq_true hk), hcls r cls hc⟩
  · cases h

theorem Witnessed.guardHolds (w : Witnessed τ frame op t t') (h : Observation σ τ₀ τ c u frame inputs ops once)
    (hop : ops[k]? = some op) : h.outcome.GuardHolds op.code ((τ.frame frame).val (op.arg 0)) ((τ.frame frame).val (op.arg 1)) := by
  have hproper := h.proper k op hop
  have hholds (hg : op.isGuard = true) : holds t (t.frame frame) op = true := by
    rcases w.stepped with ⟨hc, -⟩ | ⟨-, hh, -⟩ | ⟨hc, -, -, -, -⟩ | ⟨hg', -, -⟩
    · rw [Op.isGuard, hc] at hg
      cases hg
    · exact hh
    · rw [Op.isGuard, hc] at hg
      cases hg
    · rw [hg] at hg'
      cases hg'
  have harg {n i : Nat} (hn : op.code.arity = some n) (hi : i < n) :
      ((Run.operands (t.frame frame) op)[i]?).join = some (.const ((τ.frame frame).val (op.arg i))) :=
    w.operand_eq h.typed (by rw [hproper.arity n hn]; exact hi)
  -- a truth value is the result of a comparison
  have htest (hc : op.code = .guardTrue ∨ op.code = .guardFalse) :
      (τ.frame frame).val (op.arg 0) = .int 0 ∨ (τ.frame frame).val (op.arg 0) = .int 1 := by
    obtain ⟨b, j, p, hb, -, hp, hr, hcomp⟩ := hproper.test hc
    obtain ⟨_, _, wp, -⟩ := h.witnessed hp
    rw [hb]
    exact wp.bool_value h.typed (h.proper j p hp).arity hr hcomp
  have hclass (hc : op.code = .guardClass ∨ op.code = .guardNonnullClass) :
      h.outcome.HasClass ((τ.frame frame).val (op.arg 0)) ((τ.frame frame).val (op.arg 1)) := by
    have hn : op.code.arity = some 2 := by rcases hc with e | e <;> rw [e] <;> rfl
    have hh := hholds (by rw [Op.isGuard]; rcases hc with e | e <;> rw [e] <;> rfl)
    refine hasClass_of_hasClass (t := t) w.classOf? ?_
    unfold holds at hh
    rcases hc with e | e <;> simp only [e, harg hn (i := 0) (by decide), harg hn (i := 1) (by decide)] at hh <;> exact hh
  cases hc : op.code
  case guardTrue =>
    have hh := hholds (by rw [Op.isGuard, hc]; rfl)
    unfold holds at hh
    simp only [hc, harg (n := 1) (hc ▸ rfl) (i := 0) (by decide)] at hh
    refine (htest (.inl hc)).resolve_left fun e => ?_
    rw [e] at hh
    cases hh
  case guardFalse =>
    have hh := hholds (by rw [Op.isGuard, hc]; rfl)
    unfold holds at hh
    simp only [hc, harg (n := 1) (hc ▸ rfl) (i := 0) (by decide)] at hh
    refine (htest (.inr hc)).resolve_right fun e => ?_
    rw [e] at hh
    cases hh
  case guardValue =>
    have hh := hholds (by rw [Op.isGuard, hc]; rfl)
    unfold holds at hh
    simp only [hc, harg (n := 2) (hc ▸ rfl) (i := 0) (by decide),
      harg (n := 2) (hc ▸ rfl) (i := 1) (by decide)] at hh
    exact Value.const.inj (Option.some.inj (eq_of_beq hh))
  case guardNonnull =>
    have hh := hholds (by rw [Op.isGuard, hc]; rfl)
    unfold holds at hh
    simp only [hc, harg (n := 1) (hc ▸ rfl) (i := 0) (by decide)] at hh
    obtain ⟨r, hr⟩ := Option.isSome_iff_exists.1 hh
    exact ⟨r, ptr_of_ref? hr⟩
  case guardIsnull =>
    have hh := hholds (by rw [Op.isGuard, hc]; rfl)
    unfold holds at hh
    simp only [hc, harg (n := 1) (hc ▸ rfl) (i := 0) (by decide)] at hh
    obtain ⟨a, hargs⟩ := length_eq_one_iff.1 (hproper.arity 1 (hc ▸ rfl))
    have hkind := hproper.kinds .ref (hc ▸ rfl) (op.arg 0) (by simp [Op.arg, hargs])
    have hval := (Frame.kind_val h.typed (v := op.arg 0) (by rw [hkind]; decide)).trans hkind
    cases hx : (τ.frame frame).val (op.arg 0) with
    | ptr p =>
      rw [hx] at hh
      have : p = none := Option.isNone_iff_eq_none.1 hh
      rw [this]
      rfl
    | int n => rw [hx] at hval; cases hval
    | float d => rw [hx] at hval; cases hval
  case guardClass => exact hclass (.inl hc)
  case guardNonnullClass => exact hclass (.inr hc)
  all_goals trivial

theorem operandKind_ne_void (code : Opcode) : code.operandKind ≠ some .void := by
  cases code <;> decide

/-- **Every operation of the trace does what the outcome says**, when it does not wrap around. -/
theorem obeys (h : Observation σ τ₀ τ c u frame inputs ops once) (hop : ops[k]? = some op) (hexact : h.outcome.Exact op) : h.outcome.Obeys op := by
  obtain ⟨t, t', w, -⟩ := h.witnessed hop
  have hproper := h.proper k op hop
  have htrusted := h.trusted op (mem_of_getElem? hop)
  have h0 : h.outcome.operand (op.args.map h.outcome.val) 0 = (τ.frame frame).val (op.arg 0) := by
    rw [← h.outcome.val_arg, h.val_outcome]
  have h1 : h.outcome.operand (op.args.map h.outcome.val) 1 = (τ.frame frame).val (op.arg 1) := by
    rw [← h.outcome.val_arg, h.val_outcome]
  have hexact : op.code.Exact ((τ.frame frame).val (op.arg 0)).num ((τ.frame frame).val (op.arg 1)).num := by
    rw [← h.val_outcome]
    exact hexact
  constructor
  case plain =>
    rw [h.val_outcome]
    exact forall_mem_map.2 htrusted.plain
  case arity => exact fun n hn => (length_map ..).trans (hproper.arity n hn)
  case kinds =>
    rw [h.val_outcome]
    intro κ hκ
    refine forall_mem_map.2 fun v hv => ?_
    have hkind := hproper.kinds κ hκ v hv
    exact (Frame.kind_val h.typed fun e => operandKind_ne_void op.code (hκ.trans (congrArg some (hkind.symm.trans e)))).trans hkind
  case hasResult => exact hproper.hasResult
  case computes =>
    intro r hr e he
    rw [h0, h1] at he
    exact w.computes h.typed hproper.arity hr hexact he
  case reads =>
    intro r hr hpure v s hv
    rw [h.val_outcome] at hv
    cases hc : Exec.compute? op.code ((τ.frame frame).val (op.arg 0)) ((τ.frame frame).val (op.arg 1)) with
    | none => exact htrusted.reads hpure hc r hr v s hv
    | some e =>
      obtain rfl := w.computes h.typed hproper.arity hr hexact hc
      rcases execute_of_compute? (s := h.outcome.store) (f := τ.frame frame) hproper.arity hc with ⟨k, c, hrun⟩ | hrun <;> cases hrun.symm.trans hv
      rfl
  case length =>
    intro hl r hr
    obtain ⟨hlen, hnonneg⟩ := htrusted.length hl r hr
    rw [hlen, Const.num_int] at hnonneg
    rw [h0]
    change (τ.frame frame).value r = .int (if 0 ≤ _ then _ else 0)
    rw [if_pos hnonneg, hlen]
  case char => exact htrusted.char
  case scalar => exact htrusted.scalar
  case unit =>
    rw [h0, h1]
    exact htrusted.unit
  case guard =>
    rw [h0, h1]
    exact w.guardHolds h hop
  case knownClass =>
    intro hc
    rw [h0, h1]
    exact hasClass_of_hasClass (fun _ _ h => h) (htrusted.knownClass hc)
  case once =>
    rw [h0]
    exact htrusted.once

end

end Observation
end Bounds
end FlowCompiler.Trace
