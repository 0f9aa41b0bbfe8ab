import FlowCompiler.Proofs.Words
import FlowCompiler.Trace.Execute

/-!
# What a run makes of the boxes of a trace

In a run of a straight line every box has one value.  An `Outcome` holds these values, with what else a run
fixes once and for all: the classes of objects, the lengths of arrays and strings, and the results of calls
that are made once.  `Outcome.Does` says what a run makes of one operation: the result is what the machine
computes, a guard holds, and memory that is only read does not change.

The operation is given by its parts, so that the statement does not depend on which of several equal
arguments it is written with.
-/

namespace FlowCompiler.Trace

open List

variable {c : Const} {code : Opcode} {args : List Value}

namespace Const

/-- The number that the machine reads from a constant. -/
def num (c : Const) : Int64 := c.int?.getD 0

/-- Not a negative zero: the only number that is equal to another one without being the same. -/
def Plain (c : Const) : Prop := ∀ d, c = .float d → d.isZero = true → d = ⟨0⟩

theorem eq_int_num (h : c.kind = .int) : c = .int c.num := by
  cases c <;> simp_all [kind, num, int?]

theorem plain_int (n : Int64) : (int n).Plain := by
  intro d e
  cases e

@[simp] theorem num_int (n : Int64) : (int n).num = n := rfl

end Const

namespace Opcode

/-- The kind of the operands of an operation that computes, or that is about references only. -/
def operandKind : Opcode → Option Kind
  | intAdd | intSub | intMul | intFloordiv | uintFloordiv | intMod | intAnd | intOr | intXor | intRshift | intLshift
  | uintRshift | intAddOvf | intSubOvf | intMulOvf | intLt | intLe | intEq | intNe | intGt | intGe | uintLt | uintLe
  | uintGt | uintGe | intIsZero | intIsTrue | intNeg | intInvert | intForceGeZero => some .int
  | floatAdd | floatSub | floatMul | floatTruediv | floatNeg | floatAbs | floatLt | floatLe | floatEq | floatNe
  | floatGt | floatGe => some .float
  | ptrEq | ptrNe | instancePtrEq | instancePtrNe | guardNonnull | guardIsnull | guardClass | guardNonnullClass
  | recordKnownClass => some .ref
  | _ => none

theorem arity_of_operandKind (code : Opcode) : code.operandKind ≠ none → code.arity = some 1 ∨ code.arity = some 2 := by
  cases code <;> decide

/-- The operations that give the length of an array or string. -/
def isLength : Opcode → Bool
  | arraylenGc | strlen | unicodelen => true
  | _ => false

theorem isAlwaysPure_of_isLength (h : code.isLength = true) : (code.isAlwaysPure || code.isOvf) = true := by
  cases code <;> first | rfl | cases h

/-- A sum, difference, product or left shift of two words is exact: it does not wrap around. -/
def Exact (code : Opcode) (x y : Int64) : Prop :=
  match code with
  | intAdd | intAddOvf => (x + y).toInt = x.toInt + y.toInt
  | intSub | intSubOvf => (x - y).toInt = x.toInt - y.toInt
  | intMul | intMulOvf => (x * y).toInt = x.toInt * y.toInt
  | intLshift => (x <<< (y &&& 63)).toInt = x.toInt * 2 ^ (y &&& 63).toInt.toNat
  | _ => True

end Opcode

/-! ## Operations that only read -/

/-- A step that changes nothing and does not look at the guards. -/
def ReadsOnly {α : Type} (m : ExecM α) : Prop :=
  ∀ s gs, (∃ a, m s = .ok a s ∧ m { s with guards := gs } = .ok a { s with guards := gs }) ∨
    ∃ e, m s = .error e s ∧ m { s with guards := gs } = .error e { s with guards := gs }

variable (a : Exec.Args) {x : Const} (i : Nat) {descr : Option Descr} {y : Const}

namespace ReadsOnly

variable {α β : Type}

theorem pure (a : α) : ReadsOnly (.pure a : ExecM α) := fun _ _ => .inl ⟨a, rfl, rfl⟩

theorem throw (e : ExecError) : ReadsOnly (MonadExcept.throw e : ExecM α) := fun _ _ => .inr ⟨e, rfl, rfl⟩

theorem bind {m : ExecM α} {f : α → ExecM β} (hm : ReadsOnly m) (hf : ∀ a, ReadsOnly (f a)) : ReadsOnly (m >>= f) := by
  intro s gs
  rcases hm s gs with ⟨a, h, h'⟩ | ⟨e, h, h'⟩
  · have e1 : (m >>= f) s = f a s := by
      change EStateM.bind m f s = _
      simp only [EStateM.bind, h]
    have e2 : (m >>= f) { s with guards := gs } = f a { s with guards := gs } := by
      change EStateM.bind m f _ = _
      simp only [EStateM.bind, h']
    rw [e1, e2]
    exact hf a s gs
  · refine .inr ⟨e, ?_, ?_⟩
    · change EStateM.bind m f s = _
      simp only [EStateM.bind, h]
    · change EStateM.bind m f _ = _
      simp only [EStateM.bind, h']

theorem get {f : Store → ExecM β} (hf : ∀ s, ReadsOnly (f s)) (hg : ∀ s gs, f { s with guards := gs } = f s) : ReadsOnly (MonadState.get >>= f) := by
  intro s gs
  have e : (MonadState.get >>= f : ExecM β) { s with guards := gs } = f s { s with guards := gs } := by
    change f { s with guards := gs } { s with guards := gs } = _
    rw [hg]
  rw [e]
  exact hf s s gs

theorem structAt : ReadsOnly (Exec.structAt a i) := by
  unfold Exec.structAt
  split
  · exact pure _
  · exact throw _

theorem arrayAt : ReadsOnly (Exec.arrayAt a i) := by
  unfold Exec.arrayAt
  split
  · exact pure _
  · exact throw _

theorem stringAt : ReadsOnly (Exec.stringAt a i) := by
  unfold Exec.stringAt
  split
  · exact pure _
  · exact throw _

theorem indexIn (code : Opcode) (i : Int64) (n : Nat) : ReadsOnly (Exec.indexIn code i n) := by
  unfold Exec.indexIn
  split
  · exact throw _
  · exact pure _

theorem execute (h : code.isAlwaysPure = true) (descr : Option Descr) (args : List Value) : ReadsOnly (Trace.execute code descr args) := by
  refine get (fun s => ?_) fun s gs => rfl
  dsimp only
  split
  · unfold Exec.memory
    refine get (fun s => ?_) fun s gs => rfl
    split
    all_goals first
      | exact absurd h (by decide)
      | exact bind (structAt _ _) fun _ => pure _
      | exact bind (arrayAt _ _) fun _ => pure _
      | exact bind (stringAt _ _) fun _ => pure _
      | exact bind (arrayAt _ _) fun _ => bind (indexIn _ _ _) fun _ => pure _
      | exact bind (stringAt _ _) fun _ => bind (indexIn _ _ _) fun _ => pure _
      | exact throw _
  · exact throw _
  · exact pure _
  · exact throw _
end ReadsOnly

/-! ## Outcomes -/

/-- What a run fixes once and for all. -/
structure Outcome where
  /-- The value of each box. -/
  value : Box → Const
  /-- The store that the constants of the trace point into. -/
  store : Store
  /-- The classes of objects. -/
  classOf : Ref → Option Ref
  /-- The lengths of arrays and strings. -/
  length : Const → Int64
  /-- The results of calls that are made once, by the function. -/
  once : Const → Const
  kind_value : ∀ b, b.kind = .int → (value b).kind = .int
  plain_value : ∀ b, (value b).Plain
  classOf_store : ∀ r c, store.classOf? r = some c → classOf r = some c
  length_nonneg : ∀ c, 0 ≤ (length c).toInt

namespace Outcome

variable (o : Outcome)

/-- The constant that a value stands for. -/
def val : Value → Const
  | .box b => o.value b
  | .const c => c

@[simp] theorem val_box (b : Box) : o.val (.box b) = o.value b := rfl

@[simp] theorem val_const (c : Const) : o.val (.const c) = c := rfl

theorem kind_val {v : Value} (h : v.kind = .int) : (o.val v).kind = .int := by
  cases v with
  | box b => exact o.kind_value b h
  | const c => exact h

/-- One of the operands. -/
def operand (xs : List Const) (i : Nat) : Const := (xs[i]?).getD (o.val default)

theorem val_arg (op : Op) (i : Nat) : o.val (op.arg i) = o.operand (op.args.map o.val) i := by
  simp only [Op.arg, operand, List.getElem?_map]
  cases op.args[i]? <;> rfl

theorem val_arg_congr {op : Op} (ha : args.map o.val = op.args.map o.val) (i : Nat) : o.val (({ op with args } : Op).arg i) = o.val (op.arg i) := by
  rw [val_arg, val_arg, ha]

/-- The object that a constant points to is of exactly the class that another one points to. -/
def HasClass (x c : Const) : Prop := ∃ r k, x = .ptr (some r) ∧ c = .ptr (some k) ∧ o.classOf r = some k

/-- What is known when a guard holds.  Guards on truth values are about comparisons. -/
def GuardHolds (code : Opcode) (x y : Const) : Prop :=
  match code with
  | .guardTrue => x = .int 1
  | .guardFalse => x = .int 0
  | .guardValue => x = y
  | .guardNonnull => ∃ r, x = .ptr (some r)
  | .guardIsnull => x = .null
  | .guardClass | .guardNonnullClass => o.HasClass x y
  | _ => True

/-- What a run makes of an operation on given operands. -/
structure Does (code : Opcode) (descr : Option Descr) (result : Option Box) (xs : List Const) : Prop where
  plain : ∀ x ∈ xs, x.Plain
  arity : ∀ n, code.arity = some n → xs.length = n
  kinds : ∀ k, code.operandKind = some k → ∀ x ∈ xs, x.kind = k
  hasResult : (code.isAlwaysPure || code.isOvf) = true → ∃ r, result = some r
  /-- What only computes gives the value of the result. -/
  computes : ∀ r ∈ result, ∀ e, Exec.compute? code (o.operand xs 0) (o.operand xs 1) = some e → e = .ok (o.value r)
  /-- What is read from memory that does not change is what it was in the beginning. -/
  reads : ∀ r ∈ result, code.isAlwaysPure = true → ∀ v s, execute code descr (xs.map .const) o.store = .ok (some v) s → v = .const (o.value r)
  length : code.isLength = true → ∀ r ∈ result, o.value r = .int (o.length (o.operand xs 0))
  char : code = .strgetitem → ∀ r ∈ result, 0 ≤ (o.value r).num.toInt ∧ (o.value r).num.toInt < 256
  scalar : code = .unicodegetitem → ∀ r ∈ result, 0 ≤ (o.value r).num.toInt
  /-- Multiplication by one changes nothing. -/
  unit : code = .floatMul → ∀ r ∈ result, ∀ d, (o.operand xs 0 = .float d → d.numEq (Double.ofInt 1) = true → o.value r = o.operand xs 1) ∧
    (o.operand xs 1 = .float d → d.numEq (Double.ofInt 1) = true → o.value r = o.operand xs 0)
  guard : o.GuardHolds code (o.operand xs 0) (o.operand xs 1)
  knownClass : code = .recordKnownClass → o.HasClass (o.operand xs 0) (o.operand xs 1)
  once : code = .callLoopinvariant → ∀ r ∈ result, o.value r = o.once (o.operand xs 0)

/-- What a run makes of an operation of a trace. -/
def Obeys (op : Op) : Prop := o.Does op.code op.descr op.result (op.args.map o.val)

namespace Obeys

variable {o : Outcome} {op : Op}

section

variable (h : o.Obeys op)
include h

theorem congr (ha : args.map o.val = op.args.map o.val) : o.Obeys { op with args } := by
  rw [Obeys, ha]
  exact h

theorem plain_arg (i : Nat) : (o.val (op.arg i)).Plain := by
  rw [Op.arg]
  cases hi : op.args[i]? with
  | none => exact o.plain_value _
  | some v => exact h.plain _ (mem_map_of_mem (mem_of_getElem? hi))

theorem args_eq_pair (ha : op.code.arity = some 2) : op.args = [op.arg 0, op.arg 1] := by
  have hlen : op.args.length = 2 := by simpa using h.arity 2 ha
  match hargs : op.args, hlen with
  | [a, b], _ => simp [Op.arg, hargs]

theorem args_eq_single (ha : op.code.arity = some 1) : op.args = [op.arg 0] := by
  have hlen : op.args.length = 1 := by simpa using h.arity 1 ha
  match hargs : op.args, hlen with
  | [a], _ => simp [Op.arg, hargs]

theorem kind_first {k : Kind} (hk : op.code.operandKind = some k) : (o.val (op.arg 0)).kind = k := by
  apply h.kinds k hk
  apply mem_map_of_mem
  rcases op.code.arity_of_operandKind (by simp [hk]) with ha | ha
  · rw [h.args_eq_single ha]
    simp [Op.arg]
  · rw [h.args_eq_pair ha]
    simp [Op.arg]

theorem kind_second {k : Kind} (hk : op.code.operandKind = some k) (ha : op.code.arity = some 2) : (o.val (op.arg 1)).kind = k := by
  apply h.kinds k hk
  apply mem_map_of_mem
  rw [h.args_eq_pair ha]
  simp [Op.arg]

theorem value_eq {r : Box} (hr : op.result = some r)
    (hc : Exec.compute? op.code (o.val (op.arg 0)) (o.val (op.arg 1)) = some (.ok c)) : o.value r = c := by
  rw [o.val_arg, o.val_arg] at hc
  have := h.computes r hr _ hc
  cases this
  rfl

theorem not_error {r : Box} {e : ExecError} (hr : op.result = some r) :
    Exec.compute? op.code (o.val (op.arg 0)) (o.val (op.arg 1)) ≠ some (.error e) := by
  intro hc
  rw [o.val_arg, o.val_arg] at hc
  cases h.computes r hr _ hc

theorem guard : o.GuardHolds op.code (o.val (op.arg 0)) (o.val (op.arg 1)) := by
  rw [o.val_arg, o.val_arg]
  exact Does.guard h

end

end Obeys

/-- An operation of a trace does not wrap around. -/
def Exact (op : Op) : Prop := op.code.Exact (o.val (op.arg 0)).num (o.val (op.arg 1)).num

theorem Exact.congr {o : Outcome} {op : Op} (h : o.Exact op) (ha : args.map o.val = op.args.map o.val) : o.Exact { op with args } := by
  rw [Exact, o.val_arg_congr ha, o.val_arg_congr ha]
  exact h

namespace Obeys

variable {o : Outcome} {op : Op} {r : Box}

theorem checked_ok (h : o.Obeys op) (hr : op.result = some r) {e : Except Failure Int64}
    (hc : Exec.compute? op.code (o.val (op.arg 0)) (o.val (op.arg 1)) = some ((Exec.checked e).map .int)) : ∃ n, e = .ok n ∧ o.value r = .int n := by
  cases e with
  | error f => exact absurd hc (h.not_error hr)
  | ok n => exact ⟨n, rfl, h.value_eq hr hc⟩

theorem toInt_add (h : o.Obeys op) (he : o.Exact op) (hr : op.result = some r) (hc : op.code = .intAdd ∨ op.code = .intAddOvf) :
    (o.value r).num.toInt = (o.val (op.arg 0)).num.toInt + (o.val (op.arg 1)).num.toInt := by
  rcases hc with hc | hc
  · rw [h.value_eq hr (by rw [hc]; rfl)]
    rw [Exact, hc] at he
    exact he
  · obtain ⟨n, hn, e⟩ := h.checked_ok hr (by rw [hc]; rfl)
    rw [e]
    exact Word.toInt_of_addChecked hn

theorem toInt_sub (h : o.Obeys op) (he : o.Exact op) (hr : op.result = some r) (hc : op.code = .intSub ∨ op.code = .intSubOvf) :
    (o.value r).num.toInt = (o.val (op.arg 0)).num.toInt - (o.val (op.arg 1)).num.toInt := by
  rcases hc with hc | hc
  · rw [h.value_eq hr (by rw [hc]; rfl)]
    rw [Exact, hc] at he
    exact he
  · obtain ⟨n, hn, e⟩ := h.checked_ok hr (by rw [hc]; rfl)
    rw [e]
    exact Word.toInt_of_subChecked hn

theorem toInt_mul (h : o.Obeys op) (he : o.Exact op) (hr : op.result = some r) (hc : op.code = .intMul ∨ op.code = .intMulOvf) :
    (o.value r).num.toInt = (o.val (op.arg 0)).num.toInt * (o.val (op.arg 1)).num.toInt := by
  rcases hc with hc | hc
  · rw [h.value_eq hr (by rw [hc]; rfl)]
    rw [Exact, hc] at he
    exact he
  · obtain ⟨n, hn, e⟩ := h.checked_ok hr (by rw [hc]; rfl)
    rw [e]
    exact Word.toInt_of_mulChecked hn

theorem toInt_shiftLeft (h : o.Obeys op) (he : o.Exact op) (hr : op.result = some r) (hc : op.code = .intLshift)
    (hy : 0 ≤ (o.val (op.arg 1)).num.toInt ∧ (o.val (op.arg 1)).num.toInt < 64) :
    (o.value r).num.toInt = (o.val (op.arg 0)).num.toInt * 2 ^ (o.val (op.arg 1)).num.toInt.toNat := by
  rw [Exact, hc, Opcode.Exact, Word.and_63 hy] at he
  have e : o.value r = .int ((o.val (op.arg 0)).num <<< ((o.val (op.arg 1)).num &&& 63)) := h.value_eq hr (hc ▸ rfl)
  rw [e, Const.num_int, Word.and_63 hy]
  exact he

end Obeys

theorem compute?_of_returnsBool (h : code.returnsBool = true) (x y : Const) : ∃ t, Exec.compute? code x y = some (.ok (.ofBool t)) := by
  cases code
  case intIsZero =>
    refine ⟨decide (x.num = 0), ?_⟩
    change some (Except.ok (Const.int (if x.num = 0 then 1 else 0))) = _
    by_cases e : x.num = 0 <;> simp [e, Const.ofBool]
  case intIsTrue =>
    refine ⟨decide (x.num ≠ 0), ?_⟩
    change some (Except.ok (Const.int (if x.num = 0 then 0 else 1))) = _
    by_cases e : x.num = 0 <;> simp [e, Const.ofBool]
  all_goals first | exact Bool.noConfusion h | exact ⟨_, rfl⟩

theorem compute?_of_binary {n : Int64} (h : Exec.intBinary? code x.num y.num = some (.ok n)) : Exec.compute? code x y = some (.ok (.int n)) := by
  simp only [Const.num] at h
  simp only [Exec.compute?, h]
  rfl

theorem compute?_of_compare {t : Bool} (hb : Exec.intBinary? code x.num y.num = none)
    (h : Exec.intCompare? code x.num y.num = some t) : Exec.compute? code x y = some (.ok (.ofBool t)) := by
  simp only [Const.num] at hb h
  simp only [Exec.compute?, hb, h]
  rfl

theorem misread?_eq_none {s : Store} (hk : ∀ k, Exec.reads? code = some k → ∀ v ∈ args, (s.constOf v).kind = k) : Exec.misread? code args = none := by
  unfold Exec.misread?
  cases h : Exec.reads? code with
  | none => rfl
  | some k =>
    refine findSome?_eq_none_iff.2 fun v hv => ?_
    have hkind := hk k h v (mem_of_mem_take hv)
    cases v with
    | box b => rfl
    | const c => exact if_pos hkind

theorem reads?_of_operandKind {k k' : Kind} (hk : code.operandKind = some k) (h : Exec.reads? code = some k') : k' = k := by
  cases code <;> cases hk <;> cases h <;> rfl

theorem reads?_of_binary {x y : Int64} (h : (Exec.intBinary? code x y).isSome = true) : Exec.reads? code = some .int := by
  cases code <;> first | rfl | cases h

theorem execute_of_operands {s : Store} (hk : ∀ k, Exec.reads? code = some k → ∀ v ∈ args, (s.constOf v).kind = k)
    (h : Exec.compute? code (s.constOf ((args[0]?).getD default)) (s.constOf ((args[1]?).getD default)) = some (.ok c)) :
    execute code descr args s = .ok (some (.const c)) s := by
  have reading (f : Store → ExecM (Option Value)) : (get >>= f) s = f s s := rfl
  unfold execute
  rw [reading]
  rw [h, misread?_eq_none hk]
  rfl

theorem execute_of_compute {x y c : Const} {s : Store} (hk : ∀ k, Exec.reads? code = some k → x.kind = k ∧ y.kind = k)
    (h : Exec.compute? code x y = some (.ok c)) : execute code descr [.const x, .const y] s = .ok (some (.const c)) s := by
  refine execute_of_operands (fun k hk' => ?_) h
  simpa [Store.constOf] using hk k hk'

theorem Obeys.bool_value {o : Outcome} {op : Op} (h : o.Obeys op) (hb : op.code.returnsBool = true) {r : Box}
    (hr : op.result = some r) : o.value r = .int 0 ∨ o.value r = .int 1 := by
  obtain ⟨t, ht⟩ := compute?_of_returnsBool hb (o.val (op.arg 0)) (o.val (op.arg 1))
  rw [h.value_eq hr ht]
  cases t
  · exact .inl rfl
  · exact .inr rfl

theorem Obeys.of_compute {o : Outcome} {op : Op} {r : Box} {a b : Value}
    (hcode : op.code = .intAdd ∨ op.code = .intSub ∨ op.code = .intMul ∨ op.code = .intAnd) (hr : op.result = some r) (hargs : op.args = [a, b])
    (ha : (o.val a).kind = .int) (hb : (o.val b).kind = .int) (hc : Exec.compute? op.code (o.val a) (o.val b) = some (.ok (o.value r))) :
    o.Obeys op := by
  have hplain {c : Const} (hk : c.kind = .int) : c.Plain := Const.eq_int_num hk ▸ Const.plain_int _
  have h0 : o.operand (op.args.map o.val) 0 = o.val a := by rw [hargs]; rfl
  have h1 : o.operand (op.args.map o.val) 1 = o.val b := by rw [hargs]; rfl
  refine ⟨?_, ?_, ?_, fun _ => ⟨r, hr⟩, ?_, ?_, ?_, ?_, ?_, ?_, ?_, ?_, ?_⟩
  · simp only [hargs, map_cons, map_nil, mem_cons, not_mem_nil, or_false]
    rintro x (rfl | rfl)
    · exact hplain ha
    · exact hplain hb
  · intro n hn
    rw [hargs]
    rcases hcode with e | e | e | e <;> rw [e] at hn <;> cases hn <;> rfl
  · intro k hk x hx
    have hkind : x.kind = .int := by
      simp only [hargs, map_cons, map_nil, mem_cons, not_mem_nil, or_false] at hx
      rcases hx with rfl | rfl
      · exact ha
      · exact hb
    rcases hcode with e | e | e | e <;> rw [e] at hk <;> cases hk <;> exact hkind
  · intro r' hr' e he
    rw [h0, h1, hc] at he
    cases hr.symm.trans hr'
    exact (Option.some.inj he).symm
  · intro r' hr' _ v s he
    cases hr.symm.trans hr'
    rw [hargs] at he
    have reads (k : Kind) (hk : Exec.reads? op.code = some k) : (o.val a).kind = k ∧ (o.val b).kind = k := by
      rcases hcode with e | e | e | e <;> rw [e] at hk <;> cases hk <;> exact ⟨ha, hb⟩
    cases (execute_of_compute reads hc).symm.trans he
    rfl
  all_goals rcases hcode with e | e | e | e <;> simp [e, Opcode.isLength, GuardHolds]

end Outcome
end FlowCompiler.Trace
