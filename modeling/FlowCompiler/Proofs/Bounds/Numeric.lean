import FlowCompiler.Proofs.Bounds.Meaning

/-!
# Arithmetic in the pass of bounds

What the pass does with an operation on two words is judged by numbers alone.  `Numeric` lists what an invariant has to
offer for that: which numbers values, entries and bounds stand for, and that the steps on entries and bounds keep the
invariant.  From it follows, for each operation on words, that the bound given to the result contains the result and that
an operation that is given on instead of another one computes the same.

A bound of a sum, difference, product or shift that has both ends says also that nothing was lost: the exact result lies
between two words, so that it is a word.  So the plain operation may be given on when a check for overflow is dropped.
-/

namespace FlowCompiler.Trace

open Option

/-! ## Bounds with both ends -/

namespace Bound

variable {a b : Bound} {x y : Int64}

theorem ends_of_isBounded (h : b.isBounded = true) : ∃ lo hi, b.lower = some lo ∧ b.upper = some hi := by
  rw [isBounded, Bool.and_eq_true, isSome_iff_exists, isSome_iff_exists] at h
  exact ⟨_, _, h.1.choose_spec, h.2.choose_spec⟩

section

variable (hx : a.Holds x) (hy : b.Holds y)
include hx hy

theorem exact_add (h : (a.add b).isBounded = true) : (x + y).toInt = x.toInt + y.toInt := by
  obtain ⟨lo, hi, hlo, hhi⟩ := ends_of_isBounded h
  obtain ⟨l, hl, hlow⟩ := bind_eq_some_iff.1 hlo
  obtain ⟨u, hu, hhigh⟩ := bind_eq_some_iff.1 hhi
  obtain ⟨v, hv, elow⟩ := toInt_of_addEnd hlow
  obtain ⟨w, hw, ehigh⟩ := toInt_of_addEnd hhigh
  have hx := le_range (hx.1 v hv) (hx.2 w hw)
  have hy := le_range (hy.1 l hl) (hy.2 u hu)
  have hlo := Word.toInt_range lo
  have hhi := Word.toInt_range hi
  rw [Int64.toInt_add, Word.bmod_of_range (by omega)]

theorem exact_sub (h : (a.sub b).isBounded = true) : (x - y).toInt = x.toInt - y.toInt := by
  obtain ⟨lo, hi, hlo, hhi⟩ := ends_of_isBounded h
  obtain ⟨u, hu, hlow⟩ := bind_eq_some_iff.1 hlo
  obtain ⟨l, hl, hhigh⟩ := bind_eq_some_iff.1 hhi
  obtain ⟨v, hv, elow⟩ := toInt_of_subEnd hlow
  obtain ⟨w, hw, ehigh⟩ := toInt_of_subEnd hhigh
  have hx := le_range (hx.1 v hv) (hx.2 w hw)
  have hy := le_range (hy.1 l hl) (hy.2 u hu)
  have hlo := Word.toInt_range lo
  have hhi := Word.toInt_range hi
  rw [Int64.toInt_sub, Word.bmod_of_range (by omega)]

theorem exact_mul (h : (a.mul b).isBounded = true) : (x * y).toInt = x.toInt * y.toInt := by
  rw [Int64.toInt_mul]
  exact Word.bmod_of_range (range_of_corners (cornered_mul a b x y) hx hy h)

/-- The bound of a left shift contains what the machine computes, which is exact unless the bound has no ends. -/
theorem holds_lshift_machine : (a.lshift b).Holds (x <<< (y &&& 63)) := by
  by_cases hs : b.isShift = true
  · have hrange := range_of_isShift hs hy
    rw [Word.and_63 hrange]
    rcases corners_cases a b fun u v => (Word.shiftLeftChecked u v.toInt.toNat).toOption with h | h
    · refine holds_lshift hx hy fun _ => ?_
      rw [Word.toInt_shiftLeft hrange]
      exact Word.bmod_of_range (range_of_corners (cornered_lshift hs hy) hx hy h)
    · rw [lshift, if_pos hs, h]
      exact holds_unbounded _
  · rw [lshift, if_neg hs]
    exact holds_unbounded _

theorem holds_quotient_machine : (a.div b).Holds (x / y) := by
  refine holds_div hx hy fun _ => ?_
  by_cases hmin : x = Int64.minValue ∧ y = -1
  · exact .inr hmin
  · exact .inl (Word.toInt_div hmin)

end

end Bound

namespace Bounds

open Int64 OptimizeM

/-! ## Bits -/

section Bits

variable {a b c : Bound} {x y : Int64}

theorem ends_of_bitBound {f : Int64 → Int64 → Int64} (h : bitBound a b f = some c) (hx : a.Holds x) (hy : b.Holds y) :
    ∃ u v, c = .between 0 (Bound.nextPow2M1 (f u v)) ∧ (0 ≤ x.toInt ∧ x.toInt ≤ u.toInt) ∧ 0 ≤ y.toInt ∧ y.toInt ≤ v.toInt := by
  unfold bitBound at h
  split at h
  · rename_i u v hu hv
    split at h
    · rename_i hge
      cases h
      simp only [Bool.and_eq_true] at hge
      exact ⟨u, v, rfl, ⟨Bound.nonneg_of_knownGe hge.1 hx, le_iff_toInt_le.1 (hx.2 u hu)⟩,
        Bound.nonneg_of_knownGe hge.2 hy, le_iff_toInt_le.1 (hy.2 v hv)⟩
    · cases h
  · cases h

theorem holds_zero_between {n r : Int64} (h : 0 ≤ r.toInt ∧ r.toInt ≤ n.toInt) : (Bound.between 0 n).Holds r := by
  apply Bound.holds_between
  simpa only [le_iff_toInt_le, toInt_zero] using h

/-- Neither of two numbers has more bits than the bits of both have. -/
theorem holds_of_bits {u v r : Int64} {k : Nat} (hx : 0 ≤ x.toInt ∧ x.toInt ≤ u.toInt) (hy : 0 ≤ y.toInt ∧ y.toInt ≤ v.toInt)
    (hr : r.toInt = (k : Int)) (hk : ∀ n, x.toInt.toNat < 2 ^ n → y.toInt.toNat < 2 ^ n → k < 2 ^ n)
    (h0 : x.toInt = 0 → y.toInt = 0 → k = 0) : (Bound.between 0 (Bound.nextPow2M1 (u ||| v))).Holds r := by
  have huv := Word.toInt_or (a := u) (b := v) (by omega) (by omega)
  have hu : u.toInt.toNat ≤ u.toInt.toNat ||| v.toInt.toNat := Nat.left_le_or
  have hv : v.toInt.toNat ≤ u.toInt.toNat ||| v.toInt.toNat := Nat.right_le_or
  apply holds_zero_between
  by_cases hz : (u ||| v).toInt = 0
  · have : u ||| v = 0 := toInt_inj.1 (hz.trans toInt_zero.symm)
    rw [this, hr, h0 (by omega) (by omega)]
    decide
  · have hn := Nat.lt_log2_self (n := (u ||| v).toInt.toNat)
    rw [hr]
    exact ⟨Int.natCast_nonneg k, Bound.le_nextPow2M1 (by omega) (hk _ (by omega) (by omega))⟩

theorem holds_bitBound_or (h : bitBound a b (· ||| ·) = some c) (hx : a.Holds x) (hy : b.Holds y) : c.Holds (x ||| y) := by
  obtain ⟨u, v, rfl, hx, hy⟩ := ends_of_bitBound h hx hy
  refine holds_of_bits hx hy (Word.toInt_or hx.1 hy.1) (fun n => Nat.or_lt_two_pow) fun ex ey => ?_
  rw [ex, ey]
  rfl

theorem holds_bitBound_xor (h : bitBound a b (· ||| ·) = some c) (hx : a.Holds x) (hy : b.Holds y) : c.Holds (x ^^^ y) := by
  obtain ⟨u, v, rfl, hx, hy⟩ := ends_of_bitBound h hx hy
  refine holds_of_bits hx hy (Word.toInt_xor hx.1 hy.1) (fun n => Nat.xor_lt_two_pow) fun ex ey => ?_
  rw [ex, ey]
  rfl

theorem holds_bitBound_and (h : bitBound a b min = some c) (hx : a.Holds x) (hy : b.Holds y) : c.Holds (x &&& y) := by
  obtain ⟨u, v, rfl, hx, hy⟩ := ends_of_bitBound h hx hy
  have h1 := Word.toInt_and_le (a := x) hy.1
  have h2 := Word.toInt_and_le (a := y) hx.1
  rw [Int64.and_comm] at h2
  have hmin : (min u v).toInt = min u.toInt v.toInt := by
    simp only [min]
    split <;> rw [Int64.le_iff_toInt_le] at * <;> omega
  apply holds_zero_between
  refine ⟨h1.1, ?_⟩
  by_cases hz : (min u v).toInt = 0
  · have : min u v = 0 := Int64.toInt_inj.1 (hz.trans Int64.toInt_zero.symm)
    rw [this]
    have : (Bound.nextPow2M1 0).toInt = 0 := by decide
    omega
  · have hn := Nat.lt_log2_self (n := (min u v).toInt.toNat)
    have := Bound.le_nextPow2M1 (n := min u v) (m := (x &&& y).toInt.toNat) (by omega) (by omega)
    omega

end Bits

/-! ## What is asked of an invariant -/

variable {W : Type} [Preorder W] {I : W → OptimizeState → Prop} {Val : Value → Int64 → Prop} {Num : W → InfoId → Int64 → Prop}
  {Bnd : W → BoundId → Int64 → Prop} {Given : W → Op → Prop} {w : W} {op : Op} {r : Box} {x y n : Int64} {i j : InfoId} {b : BoundId}

/-- Values, entries and bounds stand for numbers, the steps on entries and bounds keep the invariant, and an operation
may be given on if it computes the number of its result. -/
structure Numeric (I : W → OptimizeState → Prop) (Val : Value → Int64 → Prop) (Num : W → InfoId → Int64 → Prop)
    (Bnd : W → BoundId → Int64 → Prop) (Given : W → Op → Prop) : Prop where
  val_const : ∀ n, Val (.const (.int n)) n
  val_unique : ∀ {v n k}, Val v n → Val v k → n = k
  num_mono : ∀ {w w' i n}, w ≤ w' → Num w i n → Num w' i n
  num_unique : ∀ {w i n k}, Num w i n → Num w i k → n = k
  bnd_mono : ∀ {w w' b n}, w ≤ w' → Bnd w b n → Bnd w' b n
  given_mono : ∀ {w w' op}, w ≤ w' → Given w op → Given w' op
  idOf : ∀ {w v n}, Val v n → Preserves I w (idOf v) fun i w' => Num w' i n
  info : ∀ {w i n}, Num w i n → Preserves I w (info i) fun x _ => ∀ k, x.constInt? = some k → k = n
  boundId : ∀ {w i n}, Num w i n → Preserves I w (boundId i) fun b w' => Bnd w' b n
  bound : ∀ {w s b n}, I w s → Bnd w b n → (s.bound b).Holds n
  tighten : ∀ {w b n} {f : Bound → Bound × Bool}, Bnd w b n → (∀ x : Bound, x.Holds n → (f x).1.Holds n) → Safe I w (tighten b f)
  setEqual : ∀ {w r i n}, Val (.box r) n → Num w i n → Safe I w (setEqual (some r) i)
  setConstInt : ∀ {w r n}, Val (.box r) n → Safe I w (setConstInt (some r) n)
  current : ∀ {w} (op : Op), Safe I w (current op)
  rememberPure : ∀ {w} (code : Opcode) (args : List Value) (v : Value), Safe I w (rememberPure code args v)
  last : ∀ {w s} (l : Last), I w s → I w { s with lastBounds := l }
  /-- A sum that a box comes from. -/
  sum : ∀ {w s b op}, I w s → s.producers[b]? = some op → op.code = .intAdd → Preserves I w (OptimizeM.current op) fun op' _ =>
    ∃ x y, Val (op'.arg 0) x ∧ Val (op'.arg 1) y ∧ Val (.box b) (x + y)
  change : ∀ {w op r n code p q x y}, Given w op → op.result = some r → Val (.box r) n → code = .intAdd ∨ code = .intAnd → Val p x → Val q y →
    Exec.intBinary? code x y = some (.ok n) → Given w (op.change code (some [p, q]))
  unchecked : ∀ {w op r n code x y}, Given w op → op.code.isOvf = true → op.result = some r → Val (.box r) n →
    code = .intAdd ∨ code = .intSub ∨ code = .intMul → Val (op.arg 0) x → Val (op.arg 1) y → Exec.intBinary? code x y = some (.ok n) →
    Given w (op.change code none)

/-- An operation on two words, with the number of its result. -/
structure Works (Val : Value → Int64 → Prop) (op : Op) (r : Box) (x y n : Int64) : Prop where
  result : op.result = some r
  first : Val (op.arg 0) x
  second : Val (op.arg 1) y
  value : Val (.box r) n

namespace Numeric

section

variable (N : Numeric I Val Num Bnd Given)
include N

theorem boundOf (h : Num w i n) : Preserves I w (OptimizeM.boundOf i) fun b _ => b.Holds n :=
  (N.boundId h).bind fun _ _ _ hb => .get fun _ hs => .pure (N.bound hs hb)

theorem constIntOf {v : Value} (h : Val v n) : Preserves I w (OptimizeM.constIntOf v) fun k _ => ∀ m, k = some m → m = n :=
  Preserves.bind ((N.idOf h).bind fun _ _ _ hi => N.info hi) fun _ _ _ hx => .pure hx

theorem ofResult (hr : op.result = some r) (h : Val (.box r) n) : Preserves I w (Bounds.ofResult op) fun b w' => Bnd w' b n := by
  rw [Bounds.ofResult, resultId, hr]
  exact (N.idOf h).bind fun _ _ _ hi => N.boundId hi

theorem intersect {c : Bound} (hb : Bnd w b n) (hc : c.Holds n) : Safe I w (do let _ ← OptimizeM.tighten b fun d => d.intersect c) :=
  (N.tighten hb fun _ hd => Bound.holds_intersect hd hc).bind fun _ _ _ _ => .pure trivial

theorem makeLt {c : Bound} {k : Int64} (hb : Bnd w b n) (hc : c.Holds k) (h : n < k) : Safe I w (OptimizeM.tighten b fun d => d.makeLt c) :=
  N.tighten hb fun _ hd => Bound.holds_makeLt hd hc h

theorem intersectResult {c : Bound} (hr : op.result = some r) (h : Val (.box r) n) (hc : c.Holds n) :
    Safe I w (do let _ ← OptimizeM.tighten (← Bounds.ofResult op) fun d => d.intersect c) :=
  (N.ofResult hr h).bind fun _ _ _ hb => N.intersect hb hc

theorem args {β : Type} {f : InfoId → InfoId → OptimizeM β} {R : β → W → Prop} (hx : Val (op.arg 0) x) (hy : Val (op.arg 1) y)
    (hf : ∀ i j w', w ≤ w' → Num w' i x → Num w' j y → Preserves I w' (f i j) R) :
    Preserves I w (do let i ← OptimizeM.idOf (op.arg 0); f i (← OptimizeM.idOf (op.arg 1))) R :=
  (N.idOf hx).bind fun i _ h₁ hi => (N.idOf hy).bind fun j w' h' hj => hf i j w' (le_trans h₁ h') (N.num_mono h' hi) hj

theorem merged {p q : Value} {u v : Int64} (h : Given w op) (hr : op.result = some r) (hval : Val (.box r) (x + n)) (hp : Val p u) (hq : Val q v)
    (e : x = u + v) : Preserves I w (do
      match ← OptimizeM.constIntOf q with
      | some k => pure (some (op.change .intAdd (some [p, .const (.int (n + k))])))
      | none => pure none) fun op' w' => ∀ p, op' = some p → Given w' p := by
  refine (N.constIntOf hq).bind fun k w' hw hk => ?_
  split
  · rename_i k
    refine .pure fun p' e' => ?_
    cases e'
    refine N.change (N.given_mono hw h) hr hval (.inl rfl) hp (N.val_const _) ?_
    rw [e, ← hk k rfl, Int64.add_assoc, Int64.add_comm k n]
    rfl
  · exact .pure (by simp)

theorem mergedAdd? {v : Value} (h : Given w op) (hr : op.result = some r) (hv : Val v x) (hval : Val (.box r) (x + n)) :
    Preserves I w (Bounds.mergedAdd? op v n) fun op' w' => ∀ p, op' = some p → Given w' p := by
  have none {w : W} : Preserves I w (pure none : OptimizeM (Option Op)) fun op' w' => ∀ p, op' = some p → Given w' p := .pure (by simp)
  unfold Bounds.mergedAdd?
  split
  · exact none
  · rename_i b
    refine .get fun s hs => ?_
    split
    · exact none
    · rename_i inner hinner
      refine .ite (fun _ => none) fun hcode => ?_
      refine (N.sum hs hinner (by simpa using hcode)).bind fun inner w₁ h₁ hsum => ?_
      obtain ⟨u, k, hu, hk, hbox⟩ := hsum
      obtain rfl := N.val_unique hv hbox
      refine ((N.idOf hu).bind fun _ _ _ hi => N.info hi).bind fun c w₂ h₂ _ => ?_
      have h₂ := N.given_mono (le_trans h₁ h₂) h
      -- whichever of the two arguments is the constant one
      cases c.isConst
      · exact N.merged h₂ hr hval hu hk rfl
      · exact N.merged h₂ hr hval hk hu (Int64.add_comm _ _)

/-- A remainder lies between the divisor and its opposite, and is not negative if the dividend is not. -/
theorem remainder {k : Int64} {nonNegative : Bool} (hr : op.result = some r) (h : Val (.box r) n) (hpos : nonNegative = true → 0 ≤ n.toInt)
    (hlow : -k < n) (hhigh : n < k) : Safe I w (do
      let z ← Bounds.ofResult op
      let _ ← OptimizeM.tighten z fun c => if nonNegative then c.makeGe .zero else c.makeGt (.exactly (-k))
      let _ ← OptimizeM.tighten z fun c => c.makeLt (.exactly k)) := by
  refine (N.ofResult hr h).bind fun z w₁ h₁ hz => ?_
  refine .bind (N.tighten hz fun c hc => ?_) fun _ w₂ h₂ _ => ?_
  · split
    · rename_i hboth
      refine Bound.holds_makeGe hc fun lo hl => ?_
      rw [← some.inj hl, le_iff_toInt_le, toInt_zero]
      exact hpos hboth
    · exact Bound.holds_makeGt hc (Bound.holds_exactly _) hlow
  · exact (N.makeLt (N.bnd_mono h₂ hz) (Bound.holds_exactly k) hhigh).bind fun _ _ _ _ => .pure trivial

theorem masked (h : Given w op) (hw : Works Val op r x y (x % y)) {nonNegative : Bool} (hnonneg : nonNegative = true → 0 ≤ x.toInt)
    {known : Option Int64} : ∀ given, given = (match known with
      | some n => if nonNegative && isPowerOfTwo n then op.change .intAnd (some [op.arg 0, .const (.int (n - 1))]) else op
      | none => op) → (∀ n, known = some n → n = y) → Given w given := by
  rintro given rfl hknown
  split
  · rename_i n
    split
    · rename_i hcond
      simp only [isPowerOfTwo, Bool.and_eq_true, decide_eq_true_eq, beq_iff_eq] at hcond
      have hlt : 0 < n.toInt := by simpa using lt_iff_toInt_lt.1 hcond.2.1
      refine N.change h hw.result hw.value (.inr rfl) hw.first (N.val_const _) ?_
      rw [← hknown n rfl, Word.mod_eq_and (hnonneg hcond.1) hlt hcond.2.2]
      rfl
    · exact h
  · exact h

end

/-! ## Operations on words -/

section

variable {next : Emit} (N : Numeric I Val Num Bnd Given) (hn : ∀ w op, Given w op → Safe I w (next op)) (h : Given w op)
include N hn h

theorem give : Safe I w (Bounds.give next op) :=
  (Preserves.modify fun _ hs => ⟨w, le_refl w, N.last _ hs, trivial⟩).bind fun _ w' hw (_ : True) => hn w' op (N.given_mono hw h)

theorem withBound (hw : Works Val op r x y n) {only : Bool} {f : Bound → Bound → Bound}
    (hf : ∀ a b : Bound, a.Holds x → b.Holds y → (!only || (f a b).isBounded) = true → (f a b).Holds n) :
    Safe I w (Bounds.withBound next op only f) := by
  refine N.args hw.first hw.second fun i j w₂ h₂ hi hj => ?_
  refine (N.give hn (N.given_mono h₂ h)).bind fun _ w₃ h₃ _ => ?_
  refine (N.boundOf (N.num_mono h₃ hi)).bind fun a w₄ h₄ ha => ?_
  refine (N.boundOf (N.num_mono (le_trans h₃ h₄) hj)).bind fun b w₅ h₅ hb => ?_
  exact .ite (fun hc => N.intersectResult hw.result hw.value (hf a b ha hb hc)) fun _ => .pure trivial

theorem orXor (hw : Works Val op r x y (if op.code = .intOr then x ||| y else x ^^^ y)) : Safe I w (Bounds.orXor next op) := by
  obtain ⟨hr, hx, hy, hval⟩ := hw
  unfold Bounds.orXor
  rw [hr]
  refine N.args hx hy fun i j w₂ h₂ hi hj => ?_
  refine .ite (fun e => ?_) fun _ => ?_
  · rw [N.num_unique hi (e ▸ hj), Int64.or_self, Int64.xor_self] at hval
    refine .ite (fun hc => ?_) fun hc => ?_
    · rw [if_pos hc] at hval
      exact N.setEqual hval (e ▸ hj)
    · rw [if_neg hc] at hval
      exact N.setConstInt hval
  · refine (N.give hn (N.given_mono h₂ h)).bind fun _ w₃ h₃ _ => ?_
    refine (N.boundOf (N.num_mono h₃ hi)).bind fun a w₄ h₄ ha => ?_
    refine (N.boundOf (N.num_mono (le_trans h₃ h₄) hj)).bind fun b w₅ h₅ hb => ?_
    split
    · rename_i c hbits
      refine N.intersectResult hr hval ?_
      split
      · exact holds_bitBound_or hbits ha hb
      · exact holds_bitBound_xor hbits ha hb
    · exact .pure trivial

theorem and (hw : Works Val op r x y (x &&& y)) : Safe I w (Bounds.and next op) := by
  refine N.args hw.first hw.second fun i j w₂ h₂ hi hj => ?_
  refine (N.give hn (N.given_mono h₂ h)).bind fun _ w₃ h₃ _ => ?_
  refine (N.ofResult hw.result hw.value).bind fun z w₄ h₄ hz => ?_
  refine (N.info (N.num_mono (le_trans h₃ h₄) hj)).bind fun iy w₅ h₅ hiy => ?_
  refine (N.info (N.num_mono (le_trans h₃ (le_trans h₄ h₅)) hi)).bind fun ix w₆ h₆ hix => ?_
  have hz₆ := N.bnd_mono (le_trans h₅ h₆) hz
  have h₃₆ := le_trans h₃ (le_trans h₄ (le_trans h₅ h₆))
  -- a mask that is not negative bounds the result
  have mask {k : Int64} (hmask : 0 ≤ k.toInt → 0 ≤ (x &&& y).toInt ∧ (x &&& y).toInt ≤ k.toInt) : Safe I w₆ (do
        if k ≥ 0 then
          let _ ← OptimizeM.tighten z fun c => c.intersect (.between 0 k)) := by
    refine .ite (fun hpos => ?_) fun _ => .pure trivial
    exact N.intersect hz₆ (holds_zero_between (hmask (by simpa using le_iff_toInt_le.1 hpos)))
  split
  · rename_i k hk
    exact mask fun hpos => hiy k hk ▸ Word.toInt_and_le hpos
  · rename_i k _ hk
    exact mask fun hpos => hix k hk ▸ Int64.and_comm _ _ ▸ Word.toInt_and_le hpos
  · refine (N.boundOf (N.num_mono h₃₆ hi)).bind fun a w₇ h₇ ha => ?_
    refine (N.boundOf (N.num_mono (le_trans h₃₆ h₇) hj)).bind fun b w₈ h₈ hb => ?_
    split
    · rename_i c hbits
      exact N.intersect (N.bnd_mono (le_trans h₇ h₈) hz₆) (holds_bitBound_and hbits ha hb)
    · exact .pure trivial

omit hn in
/-- A sum is given on, perhaps as a sum of a value and a constant, and bounded if its bound has both ends. -/
theorem sumOf (hn : ∀ w op, Given w op → Safe I w (next op)) {p : Value} (hr : op.result = some r) (hval : Val (.box r) (x + y)) (hp : Val p x)
    (hi : Num w i x) (hj : Num w j y) : Safe I w (do
      let changed ← match (← OptimizeM.info j).constInt? with
        | some n => Bounds.mergedAdd? op p n
        | none => pure none
      Bounds.give next (changed.getD op)
      let a ← OptimizeM.boundOf i
      let b := a.add (← OptimizeM.boundOf j)
      if b.isBounded then
        let _ ← OptimizeM.tighten (← Bounds.ofResult op) fun c => c.intersect b) := by
  refine (N.info hj).bind fun iv w₁ h₁ hiv => ?_
  have finish {w' : W} {changed : Option Op} (hw : w ≤ w') (hchanged : ∀ p, changed = some p → Given w' p) : Safe I w' (do
        Bounds.give next (changed.getD op)
        let a ← OptimizeM.boundOf i
        let b := a.add (← OptimizeM.boundOf j)
        if b.isBounded then
          let _ ← OptimizeM.tighten (← Bounds.ofResult op) fun c => c.intersect b) := by
    have hgiven : Given w' (changed.getD op) := by
      cases changed with
      | none => exact N.given_mono hw h
      | some p => exact hchanged p rfl
    refine (N.give hn hgiven).bind fun _ w₂ h₂ _ => ?_
    refine (N.boundOf (N.num_mono (le_trans hw h₂) hi)).bind fun a w₃ h₃ ha => ?_
    refine (N.boundOf (N.num_mono (le_trans hw (le_trans h₂ h₃)) hj)).bind fun b w₄ h₄ hb => ?_
    exact .ite (fun hc => N.intersectResult hr hval (Bound.holds_add ha hb (Bound.exact_add ha hb hc))) fun _ => .pure trivial
  split
  · rename_i k hk
    have hval' : Val (.box r) (x + k) := hiv k hk ▸ hval
    exact .bind (N.mergedAdd? (N.given_mono h₁ h) hr hp hval') fun changed w₂ h₂ hch => finish (le_trans h₁ h₂) hch
  · exact finish h₁ (by simp)

theorem add (hw : Works Val op r x y (x + y)) : Safe I w (Bounds.add next op) := by
  refine N.args hw.first hw.second fun i j w₂ h₂ hi hj => ?_
  refine (N.info hi).bind fun ix w₃ h₃ _ => ?_
  have h := N.given_mono (le_trans h₂ h₃) h
  -- the two arguments in either order
  cases ix.isConst
  · exact N.sumOf h hn hw.result hw.value hw.first (N.num_mono h₃ hi) (N.num_mono h₃ hj)
  · exact N.sumOf h hn hw.result (Int64.add_comm x y ▸ hw.value) hw.second (N.num_mono h₃ hj) (N.num_mono h₃ hi)

theorem mod (hw : Works Val op r x y (x % y)) (hne : y ≠ 0) : Safe I w (Bounds.mod next op) := by
  obtain ⟨habs, hpos⟩ := Word.toInt_mod_range (a := x) hne
  refine N.args hw.first hw.second fun i j w₂ h₂ hi hj => ?_
  refine (N.boundOf hi).bind fun a w₃ h₃ ha => ?_
  refine (N.boundOf (N.num_mono h₃ hj)).bind fun b w₄ h₄ hb => ?_
  refine (N.info (N.num_mono (le_trans h₃ h₄) hj)).bind fun iy w₅ h₅ hiy => ?_
  have h₂₅ := le_trans h₃ (le_trans h₄ h₅)
  have hnonneg (hboth : (a.knownGe .zero && b.knownGe .zero) = true) : 0 ≤ x.toInt := by
    rw [Bool.and_eq_true] at hboth
    exact Bound.nonneg_of_knownGe hboth.1 ha
  refine (N.give hn (N.masked (N.given_mono (le_trans h₂ h₂₅) h) hw hnonneg _ rfl hiy)).bind fun _ w₆ h₆ _ => ?_
  refine (N.info (N.num_mono (le_trans h₂₅ h₆) hj)).bind fun iy' w₇ h₇ hiy' => ?_
  split
  · exact .pure trivial
  · rename_i k hk
    refine .ite (fun _ => .pure trivial) fun hmin => ?_
    obtain rfl := hiy' k hk
    obtain ⟨hlow, hhigh⟩ := Word.between_abs hmin habs
    exact N.remainder hw.result hw.value (fun hboth => hpos (hnonneg hboth)) hlow hhigh

theorem lshift (hw : Works Val op r x y (x <<< (y &&& 63))) : Safe I w (Bounds.lshift next op) := by
  refine N.args hw.first hw.second fun i j w₂ h₂ hi hj => ?_
  refine (N.give hn (N.given_mono h₂ h)).bind fun _ w₃ h₃ _ => ?_
  refine (N.boundOf (N.num_mono h₃ hi)).bind fun a w₄ h₄ ha => ?_
  refine (N.boundOf (N.num_mono (le_trans h₃ h₄) hj)).bind fun b w₅ h₅ hb => ?_
  refine (N.ofResult hw.result hw.value).bind fun z w₆ h₆ hz => ?_
  refine (N.tighten hz fun _ hc => Bound.holds_intersect hc (Bound.holds_lshift_machine ha hb)).bind fun _ _ _ _ => ?_
  exact .ite (fun _ => (N.current op).bind fun _ _ _ _ => N.rememberPure _ _ _) fun _ => .pure trivial

theorem rshift (hw : Works Val op r x y (x >>> (y &&& 63))) : Safe I w (Bounds.rshift next op) := by
  unfold Bounds.rshift
  rw [hw.result]
  refine N.args hw.first hw.second fun i j w₂ h₂ hi hj => ?_
  refine (N.boundOf hi).bind fun a w₃ h₃ ha => ?_
  refine (N.boundOf (N.num_mono h₃ hj)).bind fun b w₄ h₄ hb => ?_
  have hholds : (a.rshift b).Holds (x >>> (y &&& 63)) := by
    refine Bound.holds_rshift ha hb fun hs => ?_
    rw [Word.and_63 hs]
    exact Word.toInt_shiftRight hs
  dsimp only
  split
  · rename_i k hk
    exact N.setConstInt (Bound.eq_of_const? hk hholds ▸ hw.value)
  · exact (N.give hn (N.given_mono (le_trans h₂ (le_trans h₃ h₄)) h)).bind fun _ _ _ _ => N.intersectResult hw.result hw.value hholds

/-- Checked arithmetic: the exact result lies in the bound, and with both ends of the bound the plain operation computes
it as well. -/
theorem checked (hw : Works Val op r x y n) (hc : op.code = .intAddOvf ∧ Word.addChecked x y = .ok n ∨
      op.code = .intSubOvf ∧ Word.subChecked x y = .ok n ∨ op.code = .intMulOvf ∧ Word.mulChecked x y = .ok n) :
    Safe I w (Bounds.checked next op) := by
  obtain ⟨hr, hx, hy, hval⟩ := hw
  unfold Bounds.checked
  rw [hr]
  refine N.args hx hy fun i j w₂ h₂ hi hj => ?_
  refine .ite (fun hsame => ?_) fun _ => ?_
  · -- the difference of a number and itself
    simp only [Bool.and_eq_true, decide_eq_true_eq] at hsame
    obtain ⟨hcode, rfl⟩ := hsame
    have hdiff : Word.subChecked x y = .ok n := by simpa [hcode] using hc
    have hexact := Word.toInt_of_subChecked hdiff
    rw [N.num_unique hi hj, Int.sub_self] at hexact
    rw [toInt_inj.1 (hexact.trans toInt_zero.symm)] at hval
    exact N.setConstInt hval
  · refine (N.boundOf hi).bind fun a w₃ h₃ ha => ?_
    refine (N.boundOf (N.num_mono h₃ hj)).bind fun b w₄ h₄ hb => ?_
    have h := N.given_mono (le_trans h₂ (le_trans h₃ h₄)) h
    have finish {bound : Bound} {plain : Opcode} (hbound : bound.Holds n) (hovf : op.code.isOvf = true)
          (hplain : plain = .intAdd ∨ plain = .intSub ∨ plain = .intMul) (hcomp : bound.isBounded = true → Exec.intBinary? plain x y = some (.ok n)) :
        Safe I w₄ (do
          Bounds.give next (if bound.isBounded then op.change plain none else op)
          let _ ← OptimizeM.tighten (← Bounds.ofResult op) fun c => c.intersect bound) := by
      have hgiven : Given w₄ (if bound.isBounded then op.change plain none else op) := by
        split
        · rename_i hb
          exact N.unchecked h hovf hr hval hplain hx hy (hcomp hb)
        · exact h
      exact (N.give hn hgiven).bind fun _ _ _ _ => N.intersectResult hr hval hbound
    rcases hc with ⟨e, hop⟩ | ⟨e, hop⟩ | ⟨e, hop⟩
    · rw [e] at finish ⊢
      have hsum := Word.toInt_of_addChecked hop
      refine finish (Bound.holds_add ha hb hsum) rfl (.inl rfl) fun hbounded => ?_
      rw [← toInt_inj.1 ((Bound.exact_add ha hb hbounded).trans hsum.symm)]
      rfl
    · rw [e] at finish ⊢
      have hdiff := Word.toInt_of_subChecked hop
      refine finish (Bound.holds_sub ha hb hdiff) rfl (.inr (.inl rfl)) fun hbounded => ?_
      rw [← toInt_inj.1 ((Bound.exact_sub ha hb hbounded).trans hdiff.symm)]
      rfl
    · rw [e] at finish ⊢
      have hprod := Word.toInt_of_mulChecked hop
      refine finish (Bound.holds_mul ha hb hprod) rfl (.inr (.inr rfl)) fun hbounded => ?_
      rw [← toInt_inj.1 ((Bound.exact_mul ha hb hbounded).trans hprod.symm)]
      rfl

end

theorem divided_ok {code : Opcode} {y q n : Int64} (h : Exec.divided code y q = .ok n) : y ≠ 0 ∧ q = n := by
  unfold Exec.divided at h
  split at h
  · cases h
  · cases h
    exact ⟨‹_›, rfl⟩

theorem checked_ok {e : Except Failure Int64} (h : Exec.checked e = .ok n) : e = .ok n := by
  cases e with
  | error f => cases h
  | ok k =>
    cases h
    rfl

theorem pass {next : Emit} (N : Numeric I Val Num Bnd Given) (hn : ∀ w op, Given w op → Safe I w (next op)) (h : Given w op)
    (hw : Works Val op r x y n) (hbin : Exec.intBinary? op.code x y = some (.ok n)) : Safe I w (Bounds.pass next op) := by
  have other {c : Opcode} (hc : op.code = c) (hnone : ∀ x y, Exec.intBinary? c x y = none) {goal : Prop} : goal := by
    rw [hc, hnone] at hbin
    cases hbin
  have value {c : Opcode} {k : Int64} (hc : op.code = c) (hk : Exec.intBinary? c x y = some (.ok k)) : k = n := by
    rw [hc, hk] at hbin
    cases hbin
    rfl
  unfold Bounds.pass
  split
  case h_4 hc => exact N.orXor hn h (by rw [if_pos hc, value hc rfl]; exact hw)
  case h_5 hc => exact N.orXor hn h (by rw [hc, if_neg (by decide), value hc rfl]; exact hw)
  case h_6 hc => exact N.and hn h (value hc rfl ▸ hw)
  case h_7 hc => exact N.add hn h (value hc rfl ▸ hw)
  case h_8 hc => exact N.withBound hn h hw fun a b ha hb hc' => value hc rfl ▸ Bound.holds_sub ha hb (Bound.exact_sub ha hb hc')
  case h_9 hc => exact N.withBound hn h hw fun a b ha hb hc' => value hc rfl ▸ Bound.holds_mul ha hb (Bound.exact_mul ha hb hc')
  case h_10 hc =>
    rw [hc] at hbin
    obtain ⟨-, rfl⟩ := divided_ok (some.inj hbin)
    exact N.withBound hn h hw fun a b ha hb _ => Bound.holds_quotient_machine ha hb
  case h_11 hc =>
    rw [hc] at hbin
    obtain ⟨hne, rfl⟩ := divided_ok (some.inj hbin)
    exact N.mod hn h hw hne
  case h_12 hc => exact N.lshift hn h (value hc rfl ▸ hw)
  case h_13 hc => exact N.rshift hn h (value hc rfl ▸ hw)
  case h_14 hc =>
    rw [hc] at hbin
    exact N.checked hn h hw (.inl ⟨hc, checked_ok (some.inj hbin)⟩)
  case h_15 hc =>
    rw [hc] at hbin
    exact N.checked hn h hw (.inr (.inl ⟨hc, checked_ok (some.inj hbin)⟩))
  case h_16 hc =>
    rw [hc] at hbin
    exact N.checked hn h hw (.inr (.inr ⟨hc, checked_ok (some.inj hbin)⟩))
  case h_31 => exact N.give hn h
  all_goals exact other ‹_› fun _ _ => rfl

end Numeric
end Bounds
end FlowCompiler.Trace
