import FlowCompiler.Proofs.Rewriting.Replacement
import FlowCompiler.Trace.Optimize.Remembered

/-!
# Comparisons that were made before

A comparison has a reflex, which gives the same for the operands exchanged, and an inverse, which gives the opposite.  The
pass of known values looks for a verdict on the reflex, and then for one on the inverse and on the reflex of the inverse
that is known as a number.  The law of the reflex holds of all constants (`compute?_reflex`).  The law of the inverse
holds of all but one kind: of two doubles that have no order, since one of them is no number, neither is below the other
(`compute?_inverse`, `compute?_of_unordered`).  So a verdict is reused rightly, and an order of doubles found by its inverse
is taken for true where it is false (`opposite_order_wrong`).

The verdicts that are remembered are those that comparisons gave (`find_recalls`).
-/

namespace FlowCompiler.Trace

open Option Std.HashMap

namespace Opcode

variable {code code' : Opcode} {x x' y y' : Const} {t : Bool}

/-- One of the operands of an order of doubles is no number. -/
def Unordered (code : Opcode) (x y : Const) : Prop :=
  (code = .floatLt ∨ code = .floatLe ∨ code = .floatGt ∨ code = .floatGe) ∧ (Exec.floatOf x).Unordered (Exec.floatOf y)

/-- What a comparison gives. -/
def verdict (t : Bool) : Option (Except ExecError Const) := some (.ok (.ofBool t))

theorem verdict_injective {s t : Bool} (h : verdict s = verdict t) : s = t := by
  cases s <;> cases t <;> first | rfl | cases h

/-- The law of exchanged operands holds of every comparison and all constants. -/
theorem compute?_reflex (h : code.reflex? = some code') (x y : Const) : Exec.compute? code' y x = Exec.compute? code x y := by
  cases code <;> cases h
  case intEq => exact congrArg verdict BEq.comm
  case intNe => exact congrArg verdict bne_comm
  case floatEq => exact congrArg verdict (Double.numEq_comm _ _)
  case floatNe => exact congrArg (fun t => verdict !t) (Double.numEq_comm _ _)
  case ptrEq => exact congrArg verdict BEq.comm
  case ptrNe => exact congrArg verdict bne_comm
  all_goals rfl

theorem verdict_not (s s' : Bool) (hs : s = !s') (h : verdict s' = verdict t) : verdict s = verdict !t := by
  rw [hs, verdict_injective h]

/-- The law of opposite relations holds of every comparison, unless it orders what has no order. -/
theorem compute?_inverse (h : code.inverse? = some code') (ho : ¬ code.Unordered x y)
    (ht : Exec.compute? code' x y = verdict t) : Exec.compute? code x y = verdict !t := by
  cases code <;> cases h
  case intEq => exact verdict_not ((_ : Int64) == _) (_ != _) (Bool.not_not _).symm ht
  case intNe => exact verdict_not ((_ : Int64) != _) (_ == _) rfl ht
  case intLt => exact verdict_not (decide ((_ : Int64) < _)) (decide (_ ≥ _)) (by simp [← decide_not]) ht
  case intLe => exact verdict_not (decide ((_ : Int64) ≤ _)) (decide (_ > _)) (by simp [← decide_not]) ht
  case intGt => exact verdict_not (decide ((_ : Int64) > _)) (decide (_ ≤ _)) (by simp [← decide_not]) ht
  case intGe => exact verdict_not (decide ((_ : Int64) ≥ _)) (decide (_ < _)) (by simp [← decide_not]) ht
  case uintLt => exact verdict_not (decide ((_ : UInt64) < _)) (decide (_ ≥ _)) (by simp [← decide_not]) ht
  case uintLe => exact verdict_not (decide ((_ : UInt64) ≤ _)) (decide (_ > _)) (by simp [← decide_not]) ht
  case uintGt => exact verdict_not (decide ((_ : UInt64) > _)) (decide (_ ≤ _)) (by simp [← decide_not]) ht
  case uintGe => exact verdict_not (decide ((_ : UInt64) ≥ _)) (decide (_ < _)) (by simp [← decide_not]) ht
  case floatEq => exact verdict_not (Double.numEq _ _) (!_) (Bool.not_not _).symm ht
  case floatNe => exact verdict_not (!_) (Double.numEq _ _) rfl ht
  case floatLt => exact verdict_not (Double.lt _ _) (Double.le _ _) (Double.lt_eq_not_le fun h => ho ⟨by simp, h⟩) ht
  case floatLe => exact verdict_not (Double.le _ _) (Double.lt _ _) (Double.le_eq_not_lt fun h => ho ⟨by simp, h⟩) ht
  case floatGt => exact verdict_not (Double.lt _ _) (Double.le _ _) (Double.lt_eq_not_le fun h => ho ⟨by simp, h.symm⟩) ht
  case floatGe => exact verdict_not (Double.le _ _) (Double.lt _ _) (Double.le_eq_not_lt fun h => ho ⟨by simp, h.symm⟩) ht
  case ptrEq => exact verdict_not ((_ : Option Ref) == _) (_ != _) (Bool.not_not _).symm ht
  case ptrNe => exact verdict_not ((_ : Option Ref) != _) (_ == _) rfl ht

theorem compute?_of_unordered (h : code.Unordered x y) : Exec.compute? code x y = verdict false := by
  obtain ⟨rfl | rfl | rfl | rfl, h⟩ := h
  · exact congrArg verdict (Double.lt_of_unordered h)
  · exact congrArg verdict (Double.le_of_unordered h)
  · exact congrArg verdict (Double.lt_of_unordered h.symm)
  · exact congrArg verdict (Double.le_of_unordered h.symm)

theorem reflex?_of_inverse? (h : code.inverse? = some code') : code.reflex?.isSome ∧ code'.reflex?.isSome := by
  cases code <;> cases h <;> exact ⟨rfl, rfl⟩

theorem reflex?_of_reflex? (h : code.reflex? = some code') : code'.reflex?.isSome := by
  cases code <;> cases h <;> rfl

theorem unordered_inverse (h : code.inverse? = some code') : code'.Unordered x y ↔ code.Unordered x y := by
  cases code <;> cases h <;> simp [Unordered]

/-- Constants that no comparison tells apart: the two zeros are one number. -/
def Alike (x y : Const) : Prop := x = y ∨ ∃ d e, x = .float d ∧ y = .float e ∧ d.isZero = true ∧ e.isZero = true

theorem compute?_congr_left (h : code.reflex?.isSome) (hx : Alike x x') (y : Const) : Exec.compute? code x y = Exec.compute? code x' y := by
  obtain rfl | ⟨d, e, rfl, rfl, hd, he⟩ := hx
  · rfl
  obtain ⟨hEq, hlt, hle, hgt, hge⟩ := Double.compare_of_isZero hd he (Exec.floatOf y)
  cases code <;> first | exact absurd h (by decide) | skip
  case floatEq => exact congrArg verdict hEq
  case floatNe => exact congrArg (fun t => verdict !t) hEq
  case floatLt => exact congrArg verdict hlt
  case floatLe => exact congrArg verdict hle
  case floatGt => exact congrArg verdict hgt
  case floatGe => exact congrArg verdict hge
  all_goals rfl

theorem compute?_congr (h : code.reflex?.isSome) (hx : Alike x x') (hy : Alike y y') : Exec.compute? code x y = Exec.compute? code x' y' := by
  obtain ⟨code', hc⟩ := isSome_iff_exists.1 h
  have hc' : code'.reflex?.isSome := by cases code <;> cases hc <;> rfl
  rw [compute?_congr_left h hx, ← compute?_reflex hc, ← compute?_reflex hc, compute?_congr_left hc' hy]

end Opcode

variable {i : InfoId}

namespace Algebra

open OptimizeM Bounds Opcode

/-- A value is a zero only if it is the zero that was met, or has an entry. -/
def Found (z : Double) (s : OptimizeState) (v : Value) : Prop := v.Met z ∨ ∃ i, s.id? v = some i

/-- The verdicts that are remembered are true. -/
def Verdicts (m : Meaning) (s : OptimizeState) : Prop :=
  ∀ code i j r, s.pureOps[(⟨code, none, [i, j]⟩ : PureKey)]? = some r → code.reflex?.isSome →
    ∃ x y t, m.Entry i x ∧ m.Entry j y ∧ Exec.compute? code x y = verdict t ∧ m.Entry r (.ofBool t)

/-- What becomes of a comparison. -/
inductive Reuse where
  | kept
  /-- The result is what an entry stands for. -/
  | entry (i : InfoId)
  /-- The result is a number, the opposite of one that is known. -/
  | number (n : Int64)

def Reuse.carryOut (op : Op) : Reuse → OptimizeM Bool
  | kept => pure false
  | entry i => do setEqual op.result i; pure true
  | number n => do setConstInt op.result n; pure true

/-- Another verdict is right for a valuation, unless it is the opposite of one on what has no order. -/
def Reuse.Agrees (ν : Valuation) (m : Meaning) (op : Op) : Reuse → Prop
  | kept => True
  | entry i => ∃ c, m.Entry i c ∧ ν.Executes op c
  | number n => (¬ op.code.Unordered (ν.val (op.arg 0)) (ν.val (op.arg 1)) → ν.Executes op (.int n)) ∧
      (op.code.Unordered (ν.val (op.arg 0)) (ν.val (op.arg 1)) → n = 1 ∧ ν.Executes op (.int 0))

section

variable {ν : Valuation} {z : Double} {args : List Value} {m m' : Meaning} {s s' : OptimizeState} {op : Op} {u v : Value}

theorem Verdicts.mono (h : Verdicts m s) (hle : m ≤ m') (hp : s'.pureOps = s.pureOps) : Verdicts m' s' := by
  intro code i j r hr hc
  obtain ⟨x, y, t, hx, hy, ht, hv⟩ := h code i j r (hp ▸ hr) hc
  exact ⟨x, y, t, hx.mono hle, hy.mono hle, ht, hv.mono hle⟩

theorem alike_seen {k : Value} (hk : v.key? = some k) (hz : z.isZero = true) : Alike (ν.seen z k) (ν.val v) := by
  by_cases hv : v.Met z
  · exact .inl (Valuation.seen_of_key? hk hv)
  · simp only [Value.Met, not_forall] at hv
    obtain ⟨d, rfl, hd, -⟩ := hv
    simp only [Value.key?, hd] at hk
    split at hk
    · cases hk
    · cases hk
      exact .inr ⟨z, d, by rfl, rfl, hz, hd⟩

theorem idOf_pureOps (e : idOf v s = .ok i s') : s'.pureOps = s.pureOps ∧ s'.remembersPure = s.remembersPure := by
  cases hv : s.id? v with
  | some j =>
    cases (idOf_of_some hv).symm.trans e
    exact ⟨rfl, rfl⟩
  | none =>
    obtain ⟨x, bounds, hx, -⟩ := describe_ok v s
    cases (idOf_of_none hv hx).symm.trans e
    exact ⟨rfl, rfl⟩

/-- What is known, also of comparisons. -/
structure Recalls (ν : Valuation) (z : Double) (args : List Value) (m : Meaning) (s : OptimizeState) : Prop where
  knows : Knows ν z args m s
  verdicts : Verdicts m s
  zero : z.isZero = true
  remembers : s.remembersPure = true

theorem Recalls.idOf_ok (h : Recalls ν z args m s) (hv : Found z s v) : ∃ i s' m' x, idOf v s = .ok i s' ∧ m ≤ m' ∧
    Recalls ν z args m' s' ∧ m'.Entry i x ∧ Alike x (ν.val v) ∧ (v.key? ≠ none → s'.id? v = some i) ∧
      ∀ u j, s.id? u = some j → s'.id? u = some j := by
  rcases hv with hv | ⟨i, hi⟩
  · obtain ⟨i, s', m', e, hle, hs', hi, hid, hold⟩ := h.knows.idOf_ok hv
    obtain ⟨hp, hr⟩ := idOf_pureOps e
    exact ⟨i, s', m', _, e, hle, ⟨hs', h.verdicts.mono hle hp, h.zero, hr.trans h.remembers⟩, hi, .inl rfl, hid, hold⟩
  · obtain ⟨k, hk, hid⟩ := bind_eq_some_iff.1 hi
    exact ⟨i, s, m, _, idOf_of_some hi, le_refl m, h, h.knows.ids k i hid, alike_seen hk h.zero, fun _ => hi, fun _ _ hu => hu⟩

theorem key?_ne_none {d : Double} (h : d.isZero = true) : Value.key? (.const (.float d)) ≠ none := by
  have hn : d.isNaN = false := by
    simp only [Double.isZero, Bool.and_eq_true, decide_eq_true_iff] at h
    simp [Double.isNaN, h.1]
  simp [Value.key?, hn, h]

theorem found_of_id (hid : v.key? ≠ none → s.id? v = some i) : Found z s v := by
  by_cases hk : v.key? = none
  · exact .inl fun d hd h0 => absurd (hd ▸ hk) (key?_ne_none h0)
  · exact .inr ⟨i, hid hk⟩

theorem Found.mono (h : Found z s v) (hold : ∀ u j, s.id? u = some j → s'.id? u = some j) : Found z s' v := h.imp id fun ⟨i, hi⟩ => ⟨i, hold _ _ hi⟩

theorem pureKey?_pair (code : Opcode) (u v : Value) (d : Option Descr) : pureKey? code [u, v] d = (do
    let i ← idOf u
    let j ← idOf v
    pure (some ⟨code, d, [i, j]⟩)) := by
  unfold pureKey?
  rw [if_neg (show ¬ [u, v].length > maxKeyArgs from Nat.not_lt.2 (by simp [maxKeyArgs]))]
  simp

/-- The verdict that is recalled is the one that the comparison gives. -/
theorem Recalls.recallPure_ok (h : Recalls ν z args m s) (hu : Found z s u) (hv : Found z s v ∨ v.key? = u.key?) {code : Opcode}
    (hc : code.reflex?.isSome) : ∃ r s' m', recallPure code [u, v] none s = .ok r s' ∧ m ≤ m' ∧ Recalls ν z args m' s' ∧ Found z s' u ∧ Found z s' v ∧
      ∀ i, r = some i → ∃ t, Exec.compute? code (ν.val u) (ν.val v) = verdict t ∧ m'.Entry i (.ofBool t) := by
  obtain ⟨i, s₁, m₁, x, e₁, h₁, hs₁, hi, hx, hid, hold⟩ := h.idOf_ok hu
  have hv₁ : Found z s₁ v := by
    rcases hv with hv | hk
    · exact hv.mono hold
    · refine found_of_id (i := i) fun hne => ?_
      have := hid (hk ▸ hne)
      rwa [OptimizeState.id?, ← hk] at this
  obtain ⟨j, s₂, m₂, y, e₂, h₂, hs₂, hj, hy, hjd, hold₂⟩ := hs₁.idOf_ok hv₁
  refine ⟨s₂.pureOps[(⟨code, none, [i, j]⟩ : PureKey)]?, s₂, m₂, ?_, le_trans h₁ h₂, hs₂, (found_of_id hid).mono hold₂, found_of_id hjd, ?_⟩
  · have hkey : pureKey? code [u, v] none s = .ok (some ⟨code, none, [i, j]⟩) s₂ := by
      rw [pureKey?_pair]
      exact (bind_eq e₁).trans ((bind_eq e₂).trans rfl)
    refine (get_bind _ s).trans ?_
    rw [if_pos h.remembers]
    exact (bind_eq hkey).trans rfl
  · intro r hr
    obtain ⟨x', y', t, hx', hy', ht, hrt⟩ := hs₂.verdicts code i j r hr hc
    cases (hi.mono h₂).symm.trans hx'
    cases hj.symm.trans hy'
    exact ⟨t, (compute?_congr hc hx hy).symm.trans ht, hrt⟩

/-- A step finds a verdict for a comparison that is right, or none. -/
def Reuses (ν : Valuation) (z : Double) (m : Meaning) (s : OptimizeState) (op : Op) (k : OptimizeM Bool) : Prop :=
  ∃ (r : Reuse) (s' : OptimizeState) (m' : Meaning), k s = r.carryOut op s' ∧ m ≤ m' ∧ Recalls ν z op.args m' s' ∧
    Found z s' (op.arg 0) ∧ Found z s' (op.arg 1) ∧ r.Agrees ν m' op

theorem Reuses.kept (h : Recalls ν z op.args m s) (h₀ : Found z s (op.arg 0)) (h₁ : Found z s (op.arg 1)) :
    Reuses ν z m s op (pure false) := ⟨.kept, s, m, rfl, le_refl m, h, h₀, h₁, trivial⟩

theorem Reuses.after {α : Type} {k : OptimizeM α} {f : α → OptimizeM Bool} {a : α} (e : k s = .ok a s') (hle : m ≤ m')
    (h : Reuses ν z m' s' op (f a)) : Reuses ν z m s op (k >>= f) := by
  obtain ⟨r, s'', m'', e', hle', rest⟩ := h
  exact ⟨r, s'', m'', (bind_eq e).trans e', le_trans hle hle', rest⟩

/-- Nothing else is tried when a verdict was found. -/
theorem Reuse.carryOut_orElse {r : Reuse} (hr : r ≠ .kept) (k' : OptimizeM Bool) :
    (do if ← r.carryOut op then pure true else k') = r.carryOut op := by
  cases r with
  | kept => exact absurd rfl hr
  | entry i => simp [Reuse.carryOut]
  | number n => simp [Reuse.carryOut]

theorem Reuses.orElse {k k' : OptimizeM Bool} (h : Reuses ν z m s op k)
    (h' : ∀ s' m', Recalls ν z op.args m' s' → Found z s' (op.arg 0) → Found z s' (op.arg 1) → Reuses ν z m' s' op k') :
    Reuses ν z m s op (do if ← k then pure true else k') := by
  obtain ⟨r, s', m', e, hle, hs', h₀, h₁, ha⟩ := h
  by_cases hr : r = .kept
  · subst hr
    exact .after e hle (h' s' m' hs' h₀ h₁)
  · refine ⟨r, s', m', ?_, hle, hs', h₀, h₁, ha⟩
    change EStateM.bind k _ s = _
    rw [EStateM.bind, e]
    exact congrFun (Reuse.carryOut_orElse hr k') s'

/-- The opposite of a verdict is looked for among those on the operands, or on the operands exchanged. -/
theorem opposite_reuses {code : Opcode} (h : Recalls ν z op.args m s) (hu : Found z s u) (hv : Found z s v) (hc : code.reflex?.isSome)
    (hops : op.args = [u, v] ∨ op.args = [v, u])
    (hright : ∀ t, Exec.compute? code (ν.val u) (ν.val v) = verdict t → Reuse.Agrees ν m op (.number (if t then 0 else 1))) :
    Reuses ν z m s op (knownComparison.opposite op code [u, v]) := by
  obtain ⟨r, s', m', e, hle, hs', hu', hv', hr⟩ := h.recallPure_ok hu (.inl hv) hc
  have hfound : Found z s' (op.arg 0) ∧ Found z s' (op.arg 1) := by
    rcases hops with e | e <;> simp only [Op.arg, e] <;> simp_all
  refine .after e hle ?_
  cases r with
  | none => exact .kept hs' hfound.1 hfound.2
  | some i =>
    obtain ⟨t, ht, hi⟩ := hr i rfl
    refine .after (a := s'.info i) rfl (le_refl m') ?_
    cases hn : (s'.info i).constInt? with
    | none => exact .kept hs' hfound.1 hfound.2
    | some n =>
      have hn : Const.ofBool t = .int n := (hs'.knows.entry _ _ hi).eq_of_constInt? hn
      have hn : 1 - n = if t then 0 else 1 := by cases t <;> cases hn <;> rfl
      refine ⟨.number (1 - n), s', m', rfl, le_refl m', hs', hfound.1, hfound.2, ?_⟩
      rw [hn]
      exact hright t ht

/-- A comparison that was made before, with the operands exchanged or with the opposite outcome, is replaced by what it gives, but for
orders of doubles that are no numbers. -/
theorem knownComparison_reuses {a b : Value} (h : Recalls ν z op.args m s)
    (hk : ∀ k, Exec.reads? op.code = some k → ∀ v ∈ op.args, (ν.val v).kind = k)
    (hargs : op.args = [a, b]) (hb : Found z s b) (ha : Found z s a ∨ a.key? = b.key?) (hc : op.code.inverse?.isSome) :
    Reuses ν z m s op (knownComparison op) := by
  obtain ⟨inverse, hinv⟩ := isSome_iff_exists.1 hc
  obtain ⟨hsome, hsome'⟩ := reflex?_of_inverse? hinv
  obtain ⟨reflex, hrefl⟩ := isSome_iff_exists.1 hsome
  obtain ⟨both, hboth⟩ := isSome_iff_exists.1 hsome'
  have h₀ : op.arg 0 = a := by simp [Op.arg, hargs]
  have h₁ : op.arg 1 = b := by simp [Op.arg, hargs]
  -- whichever operands the opposite was found for, what is wrong for it is wrong on what has no order
  have hopposite {t : Bool} (ht : Exec.compute? inverse (ν.val a) (ν.val b) = verdict t) : Reuse.Agrees ν m op (.number (if t then 0 else 1)) := by
    have hexec {t : Bool} (e : Exec.compute? op.code (ν.val a) (ν.val b) = verdict t) : ν.Executes op (.ofBool t) :=
      Valuation.executes_of_pair hk hargs e
    rw [Reuse.Agrees, h₀, h₁]
    refine ⟨fun ho => ?_, fun ho => ?_⟩
    · have := hexec (compute?_inverse hinv ho ht)
      cases t <;> exact this
    · cases verdict_injective (ht.symm.trans (compute?_of_unordered ((unordered_inverse hinv).2 ho)))
      exact ⟨rfl, hexec (compute?_of_unordered ho)⟩
  refine .after (a := s) rfl (le_refl m) ?_
  simp only [h.remembers, h₀, h₁, hrefl, hinv, hboth, Bool.not_true, Bool.false_eq_true, if_false]
  obtain ⟨r, s', m', e, hle, hs', hb', ha', hr⟩ := h.recallPure_ok hb ha (reflex?_of_reflex? hrefl)
  refine .after e hle ?_
  cases r with
  | some i =>
    obtain ⟨t, ht, hi⟩ := hr i rfl
    rw [compute?_reflex hrefl] at ht
    exact ⟨.entry i, s', m', rfl, le_refl m', hs', h₀ ▸ ha', h₁ ▸ hb', _, hi, Valuation.executes_of_pair hk hargs ht⟩
  | none =>
    refine (opposite_reuses hs' ha' hb' hsome' (.inl hargs) fun t ht => hopposite ht).orElse fun s' m' hs' ha' hb' => ?_
    refine opposite_reuses hs' (h₁ ▸ hb') (h₀ ▸ ha') (reflex?_of_reflex? hboth) (.inr hargs) fun t ht => hopposite ?_
    rw [← compute?_reflex hboth, ht]

end

/-! ## What has no order -/

def left : Box := ⟨0, .float⟩
def right : Box := ⟨1, .float⟩
def below : Box := ⟨2, .int⟩

/-- Whether one double is not below another. -/
def orderOp : Op := { code := .floatGe, args := [.box left, .box right], result := some ⟨3, .int⟩ }

def noNumber : Double := ⟨0x7FF8000000000000⟩

/-- The double on the left is no number. -/
def unordered : Valuation := fun b => if b.kind = .int then .int 0 else .float (if b = left then noNumber else ⟨0⟩)

/-- It is known that one double is not below another. -/
def notBelow : OptimizeState where
  infos := #[{ box := some (.box left), key := .box left }, { box := some (.box right), key := .box right },
    { box := some (.const (.int 0)), key := .box below, level := .constant }]
  ids := ((({} : Std.HashMap Value InfoId).insert (.box left) 0).insert (.box right) 1).insert (.box below) 2
  pureOps := ({} : Std.HashMap PureKey InfoId).insert ⟨.floatLt, none, [0, 1]⟩ 2
  remembersPure := true

def notBelowMeaning : Meaning := ⟨[.float noNumber, .float ⟨0⟩, .int 0], [], [], fun _ => False⟩

theorem informs_notBelow {c : Const} (h : notBelowMeaning.Entry i c) : unordered.Informs (notBelow.info i) c := by
  have hi : i < 3 := (List.getElem?_eq_some_iff.1 h).1
  interval_cases i <;> cases h
  · exact .self (.box left) rfl rfl
  · exact .self (.box right) rfl rfl
  · exact .self (.const (.int 0)) rfl rfl

theorem lt_noNumber : Exec.compute? .floatLt (.float noNumber) (.float ⟨0⟩) = verdict false := compute?_of_unordered ⟨.inl rfl, .inl (by decide)⟩

theorem recalls_notBelow : Recalls unordered ⟨0⟩ orderOp.args notBelowMeaning notBelow where
  knows :=
    { infos_size := rfl
      ids := fun k i h => by
        simp only [notBelow, getElem?_insert, getElem?_empty] at h
        split_ifs at h with hk hk hk <;> cases h <;> cases eq_of_beq hk <;> rfl
      entry := fun i c h => informs_notBelow h
      bools := fun i h => absurd h Std.HashSet.not_mem_empty
      apart := fun v _ i h hv => by
        have hi : i < 3 := (List.getElem?_eq_some_iff.1 h).1
        interval_cases i <;> cases hv
      opposite := fun b op h => by simp [notBelow] at h
      written := fun t args h => by simp [notBelow] at h }
  verdicts := fun code i j r h _ => by
    simp only [notBelow, getElem?_insert, getElem?_empty] at h
    split_ifs at h with hk
    cases h
    cases eq_of_beq hk
    exact ⟨_, _, false, rfl, rfl, lt_noNumber, rfl⟩
  zero := rfl
  remembers := rfl

theorem reads_orderOp : ∀ k, Exec.reads? orderOp.code = some k → ∀ v ∈ orderOp.args, (unordered.val v).kind = k := by
  intro k hk
  cases hk
  decide

/-- The order was asked for a double that is no number. -/
theorem knownComparison_reuses_unordered : orderOp.code.inverse?.isSome ∧
    Reuses unordered ⟨0⟩ notBelowMeaning notBelow orderOp (knownComparison orderOp) :=
  ⟨rfl, knownComparison_reuses recalls_notBelow reads_orderOp rfl (.inl nofun) (.inl (.inl nofun)) rfl⟩

theorem recallPure_notBelow (code : Opcode) {a b : Box} {i j : InfoId} (ha : notBelow.id? (.box a) = some i) (hb : notBelow.id? (.box b) = some j) :
    recallPure code [.box a, .box b] none notBelow = .ok (notBelow.pureOps[(⟨code, none, [i, j]⟩ : PureKey)]?) notBelow := by
  have hkey : pureKey? code [.box a, .box b] none notBelow = .ok (some ⟨code, none, [i, j]⟩) notBelow := by
    rw [pureKey?_pair]
    exact (bind_eq (idOf_of_some ha)).trans ((bind_eq (idOf_of_some hb)).trans rfl)
  exact (get_bind _ notBelow).trans ((bind_eq hkey).trans rfl)

/-- **The opposite of an order is not the order the other way round.**  The number 1 is put in the place of an order that gives 0. -/
theorem opposite_order_wrong : knownComparison orderOp notBelow = Reuse.carryOut orderOp (.number 1) notBelow ∧
    unordered.Executes orderOp (.int 0) := by
  have hleft : notBelow.id? (.box left) = some 0 := by
    simp [OptimizeState.id?, notBelow, Value.key?, getElem?_insert, left, right, below]
  have hright : notBelow.id? (.box right) = some 1 := by
    simp [OptimizeState.id?, notBelow, Value.key?, getElem?_insert, right, below]
  have exchanged : recallPure .floatLe [.box right, .box left] none notBelow = .ok none notBelow := by
    rw [recallPure_notBelow .floatLe hright hleft]
    simp [notBelow]
  have opposite : recallPure .floatLt [.box left, .box right] none notBelow = .ok (some 2) notBelow := by
    rw [recallPure_notBelow .floatLt hleft hright]
    simp [notBelow]
  refine ⟨?_, Valuation.executes_of_pair reads_orderOp rfl (compute?_of_unordered ⟨.inr (.inr (.inr rfl)), .inl (by decide)⟩)⟩
  have known : knownComparison.opposite orderOp .floatLt [.box left, .box right] notBelow =
      Reuse.carryOut orderOp (.number 1) notBelow := (bind_eq opposite).trans rfl
  refine (bind_eq exchanged).trans ?_
  change EStateM.bind (knownComparison.opposite orderOp .floatLt [.box left, .box right]) _ notBelow = _
  rw [EStateM.bind, known]
  have hne : Reuse.number 1 ≠ .kept := Reuse.noConfusion
  exact congrFun (Reuse.carryOut_orElse hne _) notBelow

end Algebra
end FlowCompiler.Trace
