import FlowCompiler.Proofs.Bounds.Numeric

/-!
# Bounds that flow forwards

The pass of bounds keeps the state sound: the bound that it gives to the result of an operation contains the
result, a comparison that it decides comes out as decided, and the operation that it gives on instead of
another one computes the same.
-/

namespace FlowCompiler.Trace

open Int64 Option

/-- A guard for a value names the value. -/
def Op.NamesValue (op : Op) : Prop := op.code = .guardValue → ∃ c, op.arg 1 = .const c

namespace Bounds

open OptimizeM

/-! ## Giving operations on -/

variable {o : Outcome} {m : Meaning} {next : Emit} {op : Op}

/-- What takes operations keeps the state sound, for operations that do what they do in the run. -/
def Accepts (o : Outcome) (next : Emit) : Prop := ∀ m op, o.Obeys op → op.NamesValue → m.Tagged o op → Safe (Sound o) m (next op)

theorem give_spec (hn : Accepts o next) (h : o.Obeys op) (hv : op.NamesValue) (ht : m.Tagged o op) : Safe (Sound o) m (give next op) := by
  refine .bind (.modify fun s hs => ⟨m, le_refl m, ?_, trivial⟩) fun _ m' h' (_ : True) => hn m' op h hv (ht.mono h')
  exact { hs with }

theorem namesValue_change {code : Opcode} {args : Option (List Value)} (h : code ≠ .guardValue) :
    (op.change code args).NamesValue := fun e => absurd e h

section Arithmetic

variable {r : Box}

/-! ### Operations on words -/

/-- An operation on words computes the number of its result. -/
theorem works_of_binary (h : o.Obeys op) (hb : (Exec.intBinary? op.code (o.val (op.arg 0)).num (o.val (op.arg 1)).num).isSome = true) :
    ∃ r n, Works (fun v n => o.val v = .int n) op r (o.val (op.arg 0)).num (o.val (op.arg 1)).num n ∧
      Exec.intBinary? op.code (o.val (op.arg 0)).num (o.val (op.arg 1)).num = some (.ok n) := by
  obtain ⟨e, he⟩ := isSome_iff_exists.1 hb
  have binary : op.code.operandKind = some .int ∧ op.code.arity = some 2 ∧ (op.code.isAlwaysPure || op.code.isOvf) = true := by
    revert he
    cases op.code <;> first | exact fun _ => by decide | exact fun e => nomatch e
  have hcomp : Exec.compute? op.code (o.val (op.arg 0)) (o.val (op.arg 1)) = some (e.map .int) := by
    simp only [Const.num] at he
    simp only [Exec.compute?, he]
  obtain ⟨r, hr⟩ := h.hasResult binary.2.2
  cases e with
  | error f => exact absurd hcomp (h.not_error hr)
  | ok n =>
    exact ⟨r, n, ⟨hr, Const.eq_int_num (h.kind_first binary.1), Const.eq_int_num (h.kind_second binary.1 binary.2.1), h.value_eq hr hcomp⟩, he⟩

/-- The numbers of a run, as the arithmetic of the pass asks for them. -/
theorem sound_numeric (o : Outcome) : Numeric (Sound o) (fun v n => o.val v = .int n) (fun m i n => m.Entry i (.int n)) Meaning.BoundOf
    fun m op => o.Obeys op ∧ op.NamesValue ∧ m.Tagged o op where
  val_const _ := rfl
  val_unique h h' := by cases h.symm.trans h'; rfl
  num_mono := Meaning.Entry.mono
  num_unique h h' := by cases h.symm.trans h'; rfl
  bnd_mono := Meaning.BoundOf.mono
  given_mono hm h := ⟨h.1, h.2.1, h.2.2.mono hm⟩
  idOf h := (idOf_spec (h ▸ Const.plain_int _)).mono fun _ _ _ hi => h ▸ hi.1
  info h := (info_spec h).mono fun x _ _ hx k hk => by cases hx.1.eq_of_constInt? hk; rfl
  boundId h := boundId_spec h
  bound hs hb := hs.bound _ _ hb
  tighten := tighten_spec
  setEqual h he := setEqual_spec he (by simpa using h)
  setConstInt h := setConstInt_spec (by simpa using h)
  current op := current_keeps op
  rememberPure _ _ _ := rememberPure_spec
  last _ hs := { hs with }
  sum {m s b op} hs hb hcode := by
    obtain ⟨hb, hobeys, -, htag⟩ := hs.producers b op hb
    refine (current_spec htag).mono fun op' _ _ hcur => ?_
    obtain ⟨args, hargs, rfl⟩ := hcur
    have hobeys := hobeys.congr hargs
    refine ⟨_, _, Const.eq_int_num (hobeys.kind_first (hcode ▸ rfl)), Const.eq_int_num (hobeys.kind_second (hcode ▸ rfl) (hcode ▸ rfl)), ?_⟩
    exact hobeys.value_eq hb (by rw [hcode]; rfl)
  change h hr hval hcode hp hq hbin := by
    refine ⟨.of_compute ?_ hr rfl (hp ▸ rfl) (hq ▸ rfl) ?_, namesValue_change (by rcases hcode with rfl | rfl <;> decide), .inl rfl⟩
    · rcases hcode with rfl | rfl <;> simp [Op.change]
    · rw [hp, hq, ← Outcome.val_box, hval]
      exact Outcome.compute?_of_binary hbin
  unchecked {m op r n code x y} h hovf hr hval hcode hx hy hbin := by
    refine ⟨.of_compute ?_ hr (h.1.args_eq_pair ?_) (hx ▸ rfl) (hy ▸ rfl) ?_, namesValue_change (by rcases hcode with rfl | rfl | rfl <;> decide),
      .inl rfl⟩
    · rcases hcode with rfl | rfl | rfl <;> simp [Op.change]
    · revert hovf
      cases op.code <;> first | exact fun _ => rfl | exact fun e => nomatch e
    · rw [hx, hy, ← Outcome.val_box, hval]
      exact Outcome.compute?_of_binary hbin

theorem eq_of_decide? {same : Bool} {a b : Bound} {x y : Int64} {t : Bool} (h : decide? code same a b = some t) (ha : a.Holds x) (hb : b.Holds y)
    (hs : same = true → x = y) (hcode : code = .intLt ∨ code = .intGt ∨ code = .intLe ∨ code = .intGe ∨ code = .intEq ∨ code = .intNe) :
    Exec.intCompare? code x y = some t := by
  have hlt (h : a.knownLt b = true) : x < y := Bound.lt_of_knownLt h ha hb
  have hgt (h : a.knownGt b = true) : y < x := Bound.lt_of_knownLt h hb ha
  have hle (h : a.knownLe b = true) : x ≤ y := Bound.le_of_knownLe h ha hb
  have hge (h : a.knownGe b = true) : y ≤ x := Bound.le_of_knownLe h hb ha
  rcases hcode with rfl | rfl | rfl | rfl | rfl | rfl <;>
    simp only [decide?, ite_none_right_eq_some, some.injEq] at h <;>
    obtain ⟨hcond, rfl⟩ := h <;>
    simp only [Exec.intCompare?, some.injEq] <;> grind

theorem compare_spec (hn : Accepts o next) (h : o.Obeys op) (hv : op.NamesValue) (ht : m.Tagged o op)
    (hc : op.code = .intLt ∨ op.code = .intGt ∨ op.code = .intLe ∨ op.code = .intGe ∨
      op.code = .intEq ∨ op.code = .intNe) : Safe (Sound o) m (compare next op) := by
  obtain ⟨r, hr⟩ := h.hasResult (by rcases hc with e | e | e | e | e | e <;> rw [e] <;> rfl)
  refine args_spec h fun x y m₂ h₂ hx hy => ?_
  refine (boundOf_spec hx.1).bind fun a m₃ h₃ ha => ?_
  refine (boundOf_spec (hy.1.mono h₃)).bind fun b m₄ h₄ hb => ?_
  split
  · rename_i t hdec
    refine setConstInt_spec fun r' hr' => ?_
    cases hr.symm.trans hr'
    have hsame : (x == y) = true → (o.val (op.arg 0)).num = (o.val (op.arg 1)).num := by
      intro e
      have := hx.1
      rw [eq_of_beq e] at this
      rw [some.inj (this.symm.trans hy.1)]
    have hcmp := eq_of_decide? hdec ha hb hsame hc
    have hnone : Exec.intBinary? op.code (o.val (op.arg 0)).num (o.val (op.arg 1)).num = none := by
      rcases hc with e | e | e | e | e | e <;> rw [e] <;> rfl
    exact h.value_eq hr (Outcome.compute?_of_compare hnone hcmp)
  · exact give_spec hn h hv (((ht.mono h₂).mono h₃).mono h₄)

theorem length_spec (hn : Accepts o next) (h : o.Obeys op) (hv : op.NamesValue) (ht : m.Tagged o op)
    (hc : op.code.isLength = true) : Safe (Sound o) m (length next op) := by
  obtain ⟨r, hr⟩ := h.hasResult (Opcode.isAlwaysPure_of_isLength hc)
  have hlen : o.value r = .int (o.length (o.val (op.arg 0))) := by
    rw [o.val_arg]
    exact Outcome.Does.length h hc r hr
  refine (give_spec hn h hv ht).bind fun _ m₁ h₁ _ => ?_
  refine (current_spec (ht.mono h₁)).bind fun op' m₂ h₂ hcur => ?_
  obtain ⟨args, hargs, rfl⟩ := hcur
  have hobeys := h.congr hargs
  refine (idOf_spec (hobeys.plain_arg 0)).bind fun x m₃ h₃ hx => ?_
  rw [o.val_arg_congr hargs] at hx
  refine (resultId_spec hr).bind fun z m₄ h₄ hz => ?_
  refine (info_spec hz).bind fun iz m₅ h₅ _ => .ite (fun _ => .pure trivial) fun _ => ?_
  refine (lenId_spec ((hx.1.mono h₄).mono h₅)).bind fun l m₆ h₆ hl => ?_
  refine (boundOf_spec ((hz.mono h₅).mono h₆)).bind fun b m₇ h₇ hb => ?_
  rw [hlen] at hb
  refine (intersect_spec (hl.mono h₇) hb).bind fun _ m₈ h₈ _ => ?_
  refine update_spec (((((hz.mono h₅).mono h₆).mono h₇)).mono h₈) fun y hy => ⟨{ hy with bound := ?_ }, id⟩
  intro b' e
  rw [hlen, ← some.inj e]
  exact (hl.mono h₇).mono h₈

theorem nonneg_of_atLeast {n : Int64} (h : 0 ≤ n.toInt) : ∀ lo ∈ (Bound.atLeast 0).lower, lo ≤ n := by
  intro lo hl
  rw [← some.inj hl, le_iff_toInt_le]
  exact h

theorem noOverflow_spec (hn : Accepts o next) (h : o.Obeys op) (hv : op.NamesValue) (ht : m.Tagged o op) : Safe (Sound o) m (noOverflow next op) := by
  have hgive {m' : Meaning} (hm : m ≤ m') : Safe (Sound o) m' (give next op) := give_spec hn h hv (ht.mono hm)
  refine .get fun s hs => ?_
  split
  · refine .ite (fun _ => ?_) fun _ => .pure trivial
    refine (current_keeps _).bind fun last m₁ h₁ _ => ?_
    -- nothing is remembered, so only the guard itself is left
    split
    · refine .bind rememberPure_spec fun _ m₂ h₂ _ => .bind rememberPure_spec fun _ m₃ h₃ _ => ?_
      refine .bind rememberPure_spec fun _ m₄ h₄ _ => hgive (le_trans h₁ (le_trans h₂ (le_trans h₃ h₄)))
    · refine .bind rememberPure_spec fun _ m₂ h₂ _ => .bind rememberPure_spec fun _ m₃ h₃ _ => ?_
      refine .bind rememberPure_spec fun _ m₄ h₄ _ => hgive (le_trans h₁ (le_trans h₂ (le_trans h₃ h₄)))
    · exact .bind rememberPure_spec fun _ m₂ h₂ _ => hgive (le_trans h₁ h₂)
  · exact hgive (le_refl m)

end Arithmetic

theorem pass_spec (hn : Accepts o next) (h : o.Obeys op) (hv : op.NamesValue) (ht : m.Tagged o op) :
    Safe (Sound o) m (pass next op) := by
  by_cases hbin : (Exec.intBinary? op.code (o.val (op.arg 0)).num (o.val (op.arg 1)).num).isSome = true
  · obtain ⟨r, n, hw, hbin⟩ := works_of_binary h hbin
    exact (sound_numeric o).pass (fun m op h => hn m op h.1 h.2.1 h.2.2) ⟨h, hv, ht⟩ hw hbin
  have hgive : Safe (Sound o) m (give next op) := give_spec hn h hv ht
  have hresult (hp : (op.code.isAlwaysPure || op.code.isOvf) = true) : ∃ r, op.result = some r := h.hasResult hp
  have hguard : Safe (Sound o) m (do
      give next op
      goBack ((← current op).arg 0)) := by
    refine .bind hgive fun _ m₁ h₁ _ => (current_spec (ht.mono h₁)).bind fun op' m₂ h₂ hcur => ?_
    obtain ⟨args, hargs, rfl⟩ := hcur
    exact goBack_spec m₂ _ ((h.congr hargs).plain_arg 0)
  have other {c : Opcode} (hc : op.code = c) (hword : ∀ x y, (Exec.intBinary? c x y).isSome = true) {goal : Prop} : goal := by
    rw [hc] at hbin
    exact absurd (hword _ _) hbin
  unfold pass
  split
  iterate 3 exact hguard
  iterate 13 exact other ‹_› fun _ _ => rfl
  · exact noOverflow_spec hn h hv ht
  · refine .get fun s hs => ?_
    split
    · exact .ite (fun _ => hgive) fun _ => .throw
    · exact .throw
  · exact compare_spec hn h hv ht (.inl ‹_›)
  · exact compare_spec hn h hv ht (.inr (.inl ‹_›))
  · exact compare_spec hn h hv ht (.inr (.inr (.inl ‹_›)))
  · exact compare_spec hn h hv ht (.inr (.inr (.inr (.inl ‹_›))))
  · exact compare_spec hn h hv ht (.inr (.inr (.inr (.inr (.inl ‹_›)))))
  · exact compare_spec hn h hv ht (.inr (.inr (.inr (.inr (.inr ‹_›)))))
  · rename_i hc
    obtain ⟨r, hr⟩ := hresult (hc ▸ rfl)
    have hval : o.value r = .int (if (o.val (op.arg 0)).num < 0 then 0 else (o.val (op.arg 0)).num) :=
      h.value_eq hr (hc ▸ rfl)
    refine (idOf_spec (h.plain_arg 0)).bind fun x m₁ h₁ hx => ?_
    refine (boundOf_spec hx.1).bind fun a m₂ h₂ ha => ?_
    refine .ite (fun hge => setEqual_spec (hx.1.mono h₂) fun r' hr' => ?_) fun _ => give_spec hn h hv ((ht.mono h₁).mono h₂)
    cases hr.symm.trans hr'
    have hpos := Bound.nonneg_of_knownGe hge ha
    rw [hval, if_neg (by rw [Int64.lt_iff_toInt_lt, Int64.toInt_zero]; omega)]
    exact (Const.eq_int_num (h.kind_first (hc ▸ rfl))).symm
  · exact length_spec hn h hv ht (by rw [‹op.code = _›]; rfl)
  · exact length_spec hn h hv ht (by rw [‹op.code = _›]; rfl)
  · exact length_spec hn h hv ht (by rw [‹op.code = _›]; rfl)
  · rename_i hc
    obtain ⟨r, hr⟩ := hresult (hc ▸ rfl)
    have hchar := Outcome.Does.char h hc r hr
    refine Preserves.bind hgive fun _ m₁ h₁ _ => (ofResult_spec hr).bind fun z m₂ h₂ hz => ?_
    refine (makeGe_spec hz (nonneg_of_atLeast hchar.1)).bind fun _ m₃ h₃ _ => ?_
    refine .bind (makeLt_spec (hz.mono h₃) (Bound.holds_atMost (Int64.le_refl 256)) ?_) fun _ _ _ _ => Preserves.pure trivial
    rw [Int64.lt_iff_toInt_lt]
    exact hchar.2
  · rename_i hc
    obtain ⟨r, hr⟩ := hresult (hc ▸ rfl)
    refine Preserves.bind hgive fun _ m₁ h₁ _ => (ofResult_spec hr).bind fun z m₂ h₂ hz => ?_
    exact (makeGe_spec hz (nonneg_of_atLeast (Outcome.Does.scalar h hc r hr))).bind fun _ _ _ _ => Preserves.pure trivial
  · exact hgive

end Bounds
end FlowCompiler.Trace
