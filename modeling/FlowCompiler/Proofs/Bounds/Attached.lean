import FlowCompiler.Proofs.Keeps
import FlowCompiler.Proofs.Bounds.Contained

/-!
# Word operations pass without failure

The optimizer can fail, but what the pass of bounds does with an operation on words cannot: it looks entries up, makes
missing ones and tightens bounds.  It fails only if what takes the operation fails.
-/

namespace FlowCompiler.Trace.Sure

open OptimizeM

variable {next : Emit} {i : InfoId} {v : Value} {b : BoundId} {r : Option Box} {op : Op}

instance update (f : Info → Info) : Sure (update i f) := modify _

instance newBound (c : Bound) : Sure (newBound c) := modifyGet _

instance newInfo (x : Info) : Sure (newInfo x) := modifyGet _

instance info : Sure (info i) := bind

instance describe : Sure (describe v) := by
  unfold OptimizeM.describe
  split <;> infer_instance

instance idOf : Sure (idOf v) := by
  refine seq fun s => ?_
  split
  · infer_instance
  · cases v.key? <;> infer_instance

instance setEqual : Sure (setEqual r i) := by
  cases r <;> (unfold OptimizeM.setEqual; infer_instance)

instance setConstInt (n : Int64) : Sure (setConstInt r n) := by
  cases r with
  | none => exact pure _
  | some r =>
    refine seq fun s => ?_
    split
    · exact ite (h := inferInstanceAs (Sure (_ >>= _))) (g := inferInstanceAs (Sure (_ >>= _)))
    · exact inferInstanceAs (Sure (_ >>= _))

instance getBound : Sure (getBound b) := bind

instance boundId : Sure (boundId i) := by
  refine seq fun x => ?_
  split <;> infer_instance

instance boundOf : Sure (boundOf i) := bind

instance ofResult : Sure (Bounds.ofResult op) := inferInstanceAs (Sure (OptimizeM.idOf _ >>= _))

instance tighten (f : Bound → Bound × Bool) : Sure (tighten b f) := bind

instance current : Sure (current op) := by
  refine ite (g := seq fun s => ?_)
  split <;> infer_instance

instance rememberPure (code : Opcode) (args : List Value) : Sure (rememberPure code args v) := by
  have key : Sure (OptimizeM.pureKey? code args none) := ite
  refine seq fun s => ite (h := seq fun k => ?_)
  split <;> infer_instance

instance mergedAdd? (n : Int64) : Sure (Bounds.mergedAdd? op v n) := by
  have read (v : Value) : Sure (OptimizeM.infoOf v) := bind
  have const (v : Value) : Sure (OptimizeM.constIntOf v) := bind
  unfold Bounds.mergedAdd?
  split
  · infer_instance
  · refine seq fun s => ?_
    split
    · infer_instance
    · refine ite (g := seq fun inner => seq fun x => ?_)
      dsimp only
      refine seq fun k => ?_
      split <;> infer_instance

variable [∀ op, Sure (next op)]

instance give : Sure (Bounds.give next op) := bind

instance withBound (only : Bool) (f : Bound → Bound → Bound) : Sure (Bounds.withBound next op only f) := bind

instance orXor : Sure (Bounds.orXor next op) := by
  refine seq fun x => seq fun y => ite (g := seq fun _ => seq fun a => seq fun b => ?_)
  split <;> infer_instance

instance and : Sure (Bounds.and next op) := by
  refine seq fun x => seq fun y => seq fun _ => seq fun r => ?_
  extract_lets mask
  have masked (n : Int64) : Sure (mask n) := by infer_instance
  clear_value mask
  refine seq fun a => seq fun b => ?_
  split
  · infer_instance
  · infer_instance
  · refine seq fun a => seq fun b => ?_
    split <;> infer_instance

instance add : Sure (Bounds.add next op) := by
  refine seq fun x => seq fun y => seq fun z => ?_
  dsimp only
  refine seq fun u => ?_
  split <;> infer_instance

instance mod : Sure (Bounds.mod next op) := by
  refine seq fun x => seq fun y => seq fun a => seq fun b => seq fun c => seq fun _ => seq fun n => ?_
  split <;> infer_instance

instance lshift : Sure (Bounds.lshift next op) := seq fun _ => seq fun _ => seq fun _ => bind

instance rshift : Sure (Bounds.rshift next op) := by
  refine seq fun x => seq fun y => seq fun a => seq fun b => ?_
  dsimp only
  split <;> infer_instance

instance checked : Sure (Bounds.checked next op) := bind

theorem pass {x y : Int64} (h : (Exec.intBinary? op.code x y).isSome = true) : Sure (Bounds.pass next op) := by
  have other {c : Opcode} (hc : op.code = c) (hnone : Exec.intBinary? c x y = none) {goal : Prop} : goal := by
    rw [hc, hnone] at h
    cases h
  unfold Bounds.pass
  split
  case h_4 | h_5 | h_6 | h_7 | h_8 | h_9 | h_10 | h_11 | h_12 | h_13 | h_14 | h_15 | h_16 | h_31 => infer_instance
  all_goals exact other ‹_› rfl

end FlowCompiler.Trace.Sure

/-!
## The bounds of results contain what is computed

The pass of bounds keeps the bounds of a state true of every valuation in which the operations on words compute their
results, whatever the passes behind it do as long as they keep the same.  An operation that is given on instead of
another one computes the same number, also when a check for overflow was dropped or a remainder became a mask.

Checked arithmetic whose bound has both ends is exact, so that the plain operation executes to the same word.
-/

namespace FlowCompiler.Trace.Bounds

open OptimizeM

/-- What takes operations keeps bounds true, for operations that compute their results. -/
def Keeps (ν : Valuation) (next : Emit) : Prop := ∀ m op, ν.Computes op → Safe (Within ν) m (next op)

section Pass

variable {ν : Valuation} {next : Emit}

/-- The numbers of a valuation, as the arithmetic of the pass asks for them. -/
theorem within_numeric (ν : Valuation) : Numeric (Within ν) (fun v n => ν.num v = n) Meaning.Number Meaning.BoundOf fun _ op => ν.Computes op where
  val_const _ := rfl
  val_unique h h' := h.symm.trans h'
  num_mono := Meaning.Number.mono
  num_unique := Meaning.Number.unique
  bnd_mono := Meaning.BoundOf.mono
  given_mono _ h := h
  idOf h := h ▸ idOf_within _
  info h := (info_within h).mono fun _ _ _ hx => hx.const
  boundId := boundId_within
  bound hs hb := hs.bound _ _ hb
  tighten := tighten_within
  setEqual h he := setEqual_within he h
  setConstInt := setConstInt_within
  current := current_keeps_within
  rememberPure _ _ _ := rememberPure_within
  last _ hs := { hs with }
  sum {m s b op} hs hb hcode := by
    obtain ⟨htag, hsum⟩ := hs.sums b op hb hcode
    refine (current_within htag).mono fun op' _ _ hcur => ?_
    obtain ⟨args, hargs, rfl⟩ := hcur
    exact ⟨_, _, ν.num_arg_congr hargs 0, ν.num_arg_congr hargs 1, hsum⟩
  change {m op r n code p q x y} _ hr hval _ hp hq hbin := ⟨r, n, hr, hp ▸ hq ▸ hbin, hval⟩
  unchecked {m op r n code x y} _ _ hr hval _ hx hy hbin := ⟨r, n, hr, hx ▸ hy ▸ hbin, hval⟩

theorem pass_keeps (hn : Keeps ν next) : Keeps ν (pass next) := by
  intro m op h
  obtain ⟨r, n, hr, hbin, hval⟩ := h
  exact (within_numeric ν).pass hn ⟨r, n, hr, hbin, hval⟩ ⟨hr, rfl, rfl, hval⟩ hbin

end Pass

/-! ### What is executed -/

theorem execute_of_failing {code : Opcode} {x y : Int64} {e : ExecError} {descr : Option Descr} {s : Store} (hk : Exec.reads? code = some .int)
    (h : Exec.compute? code (.int x) (.int y) = some (.error e)) : execute code descr [.const (.int x), .const (.int y)] s = .error e s := by
  have reading (f : Store → ExecM (Option Value)) : (get >>= f) s = f s s := rfl
  have failing : Exec.compute? code (s.constOf (([.const (.int x), .const (.int y)][0]?).getD default))
      (s.constOf (([.const (.int x), .const (.int y)][1]?).getD default)) = some (.error e) := h
  have read : Exec.misread? code [.const (.int x), .const (.int y)] = none := by
    refine Outcome.misread?_eq_none (s := s) fun k hk' => ?_
    cases hk.symm.trans hk'
    simp [Store.constOf, Const.kind]
  unfold execute
  rw [reading]
  rw [failing, read]
  rfl

theorem execute_of_words {code : Opcode} {descr : Option Descr} {x y n : Int64} {s : Store} (h : Exec.intBinary? code x y = some (.ok n)) :
    execute code descr [.const (.int x), .const (.int y)] s = .ok (some (.const (.int n))) s := by
  refine Outcome.execute_of_compute (fun k hk => ?_) (Outcome.compute?_of_binary h)
  cases (Outcome.reads?_of_binary (Option.isSome_iff_exists.2 ⟨_, h⟩)).symm.trans hk
  exact ⟨rfl, rfl⟩

theorem execute_ok {code : Opcode} {descr : Option Descr} {x y n : Int64} {s s' : Store} (hword : (Exec.intBinary? code x y).isSome = true)
    (h : execute code descr [.const (.int x), .const (.int y)] s = .ok (some (.const (.int n))) s') : Exec.intBinary? code x y = some (.ok n) := by
  obtain ⟨e, he⟩ := Option.isSome_iff_exists.1 hword
  have hcomp : Exec.compute? code (.int x) (.int y) = some (e.map .int) := by
    simp only [Exec.compute?, Const.int?, Option.getD_some, he]
  cases e with
  | ok k =>
    rw [execute_of_words he] at h
    cases h
    exact he
  | error f =>
    rw [execute_of_failing (Outcome.reads?_of_binary hword) hcomp] at h
    cases h

/-- The state after a pass bounds a result by what was computed. -/
theorem Within.holds_result {ν : Valuation} {m : Meaning} {s : OptimizeState} (h : Within ν m s) {v : Value} {i : InfoId}
    {b : BoundId} (hi : s.ids[v]? = some i) (hb : (s.info i).bound = some b) : (s.bound b).Holds (ν.num v) :=
  h.bound b _ ((h.entry i _ (h.ids v i hi)).bound b hb)

/-- A checked operation and the plain one both execute to the exact result, which lies in a bound. -/
def ExactIn (checked plain : Opcode) (x y : Int64) (exact : Int) (b : Bound) : Prop :=
  ∃ r : Int64, r.toInt = exact ∧ b.Holds r ∧ ∀ descr s, execute checked descr [.const (.int x), .const (.int y)] s = .ok (some (.const (.int r))) s ∧
    execute plain descr [.const (.int x), .const (.int y)] s = .ok (some (.const (.int r))) s

theorem exactIn_of_binary {checked plain : Opcode} {x y r : Int64} {exact : Int} {b : Bound} (hr : r.toInt = exact) (hb : b.Holds r)
    (hc : Exec.intBinary? checked x y = some (.ok r)) (hp : Exec.intBinary? plain x y = some (.ok r)) : ExactIn checked plain x y exact b :=
  ⟨r, hr, hb, fun _ _ => ⟨execute_of_words hc, execute_of_words hp⟩⟩

/-- A computation gives something in every state. -/
def Succeeds {α : Type} (k : OptimizeM α) : Prop := ∀ s, ∃ a s', k s = .ok a s'

/-- **Bounds contain what is executed.**  Where the bound of a sum, difference or product has both ends, the exact result
is a word inside it, which the checked operation and the plain one both give.  And after the pass of bounds has taken an
operation on words, the bound of its result contains what the operation executes to, if it executes to anything; this
holds for every valuation that the bounds contained before, and whatever takes the operations that the pass gives on, as
long as it keeps the bounds true.  The pass itself does not fail. -/
theorem bounds_contain_executed : (∀ (a b : Bound) (x y : Int64), a.Holds x → b.Holds y →
      ((a.add b).isBounded = true → ExactIn .intAddOvf .intAdd x y (x.toInt + y.toInt) (a.add b)) ∧
      ((a.sub b).isBounded = true → ExactIn .intSubOvf .intSub x y (x.toInt - y.toInt) (a.sub b)) ∧
      ((a.mul b).isBounded = true → ExactIn .intMulOvf .intMul x y (x.toInt * y.toInt) (a.mul b))) ∧
    ∀ (ν : Valuation) (next : Emit) (op : Op) (r : Box) (x y : Int64) (store store' : Store), Keeps ν next →
      (Exec.intBinary? op.code x y).isSome = true → op.result = some r → ν.num (op.arg 0) = x → ν.num (op.arg 1) = y →
      execute op.code op.descr [.const (.int x), .const (.int y)] store = .ok (some (.const (.int (ν.num (.box r))))) store' →
      ∀ (m : Meaning) (s : OptimizeState), Within ν m s → ((∀ op, Succeeds (next op)) → ∃ s', pass next op s = .ok () s') ∧
        ∀ s', pass next op s = .ok () s' → (∃ m', m ≤ m' ∧ Within ν m' s') ∧
          ∀ i b, s'.ids[Value.box r]? = some i → (s'.info i).bound = some b → (s'.bound b).Holds (ν.num (.box r)) := by
  refine ⟨fun a b x y hx hy => ⟨fun h => ?_, fun h => ?_, fun h => ?_⟩, ?_⟩
  · have hexact := Bound.exact_add hx hy h
    refine exactIn_of_binary hexact (Bound.holds_add hx hy hexact) ?_ rfl
    rw [Exec.intBinary?, Word.addChecked_of_exact hexact, Exec.checked]
  · have hexact := Bound.exact_sub hx hy h
    refine exactIn_of_binary hexact (Bound.holds_sub hx hy hexact) ?_ rfl
    rw [Exec.intBinary?, Word.subChecked_of_exact hexact, Exec.checked]
  · have hexact := Bound.exact_mul hx hy h
    refine exactIn_of_binary hexact (Bound.holds_mul hx hy hexact) ?_ rfl
    obtain ⟨p, hp⟩ := Word.mulChecked_of_exact hexact
    have : p = x * y := Int64.toInt_inj.1 ((Word.toInt_of_mulChecked hp).trans hexact.symm)
    rw [Exec.intBinary?, hp, Exec.checked, this]
  · rintro ν next op r x y store store' hn hword hr rfl rfl hexec m s hs
    have hop : ν.Computes op := ⟨r, _, hr, execute_ok hword hexec, rfl⟩
    refine ⟨fun hnext => ?_, fun s' hrun => ?_⟩
    · have (op : Op) : Sure (next op) := ⟨hnext op⟩
      have hpass : Sure (pass next op) := Sure.pass hword
      obtain ⟨_, s', hrun⟩ := hpass.ok s
      exact ⟨s', hrun⟩
    · obtain ⟨m', hm, hs', -⟩ := pass_keeps hn m op hop s hs () s' hrun
      exact ⟨⟨m', hm, hs'⟩, fun i b hi hb => hs'.holds_result hi hb⟩

/-- A quotient of two constants, of which nothing is known yet. -/
def quotientOp : Op := { code := .intFloordiv, args := [.const (.int 7), .const (.int (-2))], result := some ⟨0, .int⟩ }

theorem within_start (ν : Valuation) : Within ν ⟨[], [], [], fun _ => False⟩ {} where
  infos_size := rfl
  bounds_size := rfl
  ids v i h := by simp at h
  entry i n h := nomatch h.choose_spec.1
  bound b n h := nomatch h
  sums b op h := by simp at h
  written t args h := by simp at h

/-- The sum of two bounds with both ends, and a quotient that is computed toward zero. -/
theorem bounds_contain_executed_quotient : ExactIn .intAddOvf .intAdd 1 2 3 ((Bound.between 0 1).add (.between (-2) 2)) ∧
    ∃ s', pass (fun _ => pure ()) quotientOp {} = .ok () s' ∧
      ∀ i b, s'.ids[Value.box ⟨0, .int⟩]? = some i → (s'.info i).bound = some b → (s'.bound b).Holds (-3) := by
  have hone : (Bound.between 0 1).Holds 1 := Bound.holds_between (by decide)
  have htwo : (Bound.between (-2) 2).Holds 2 := Bound.holds_between (by decide)
  refine ⟨(bounds_contain_executed.1 _ _ _ _ hone htwo).1 (by decide), ?_⟩
  have hnext : Keeps (fun _ => .int (-3)) fun _ => pure () := fun _ _ _ => .pure trivial
  obtain ⟨hends, hholds⟩ := bounds_contain_executed.2 (fun _ => .int (-3)) _ quotientOp ⟨0, .int⟩ 7 (-2) {} {} hnext rfl rfl rfl rfl
    rfl ⟨[], [], [], fun _ => False⟩ {} (within_start _)
  obtain ⟨s', hrun⟩ := hends fun _ => Sure.ok
  exact ⟨s', hrun, (hholds s' hrun).2⟩

end FlowCompiler.Trace.Bounds
