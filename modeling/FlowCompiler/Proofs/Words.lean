import Mathlib.Algebra.Group.Int.Defs
import Mathlib.Algebra.Group.Nat.Defs
import FlowCompiler.Machine.Word

/-!
# Words as integers

The operations on words, read as operations on integers.  A checked operation that succeeds is exact, and
so is a shift to the left that a shift to the right undoes.  Division and shifts of words are monotone in
each argument as long as the other one stays on its side of zero; this is what bounds of products,
quotients and shifts rest on.
-/

namespace FlowCompiler.Word

open Nat Int64

variable {a b : Int64} {x y : Int64}

/-! ## Ranges -/

theorem toInt_range (a : Int64) : -9223372036854775808 ≤ a.toInt ∧ a.toInt ≤ 9223372036854775807 := by
  have low := a.le_toInt
  have high := a.toInt_lt
  omega

theorem bmod_of_range {n : Int} (h : -9223372036854775808 ≤ n ∧ n ≤ 9223372036854775807) : n.bmod (2 ^ 64) = n := by
  apply Int.bmod_eq_of_le <;> omega

/-! ## Checked operations -/

theorem toInt_of_addChecked {a b r : Int64} (h : addChecked a b = .ok r) : r.toInt = a.toInt + b.toInt := by
  have ha := toInt_range a
  have hb := toInt_range b
  dsimp only [addChecked] at h
  split at h
  · cases h
  · rename_i hc
    cases h
    simp only [gt_iff_lt, lt_iff_toInt_lt, toInt_add, toInt_zero, bne_iff_ne, ne_eq, Decidable.not_not, decide_eq_decide] at hc
    rw [toInt_add]
    simp only [Int.bmod_def] at *
    omega

theorem toInt_of_subChecked {a b r : Int64} (h : subChecked a b = .ok r) : r.toInt = a.toInt - b.toInt := by
  have ha := toInt_range a
  have hb := toInt_range b
  dsimp only [subChecked] at h
  split at h
  · cases h
  · rename_i hc
    cases h
    simp only [gt_iff_lt, lt_iff_toInt_lt, toInt_sub, toInt_zero, bne_iff_ne, ne_eq, Decidable.not_not, decide_eq_decide] at hc
    rw [toInt_sub]
    simp only [Int.bmod_def] at *
    omega

/-- A truncated quotient times the divisor misses the dividend by less than the divisor. -/
theorem tdiv_mul_close (p b : Int) (hb : b ≠ 0) : (p - p.tdiv b * b).natAbs < b.natAbs := by
  have h := Int.mul_tdiv_add_tmod p b
  have hm : (p.tmod b).natAbs < b.natAbs := by
    rw [Int.natAbs_tmod]
    exact mod_lt _ (Int.natAbs_pos.2 hb)
  have : p - p.tdiv b * b = p.tmod b := by
    rw [Int.mul_comm] at h
    omega
  rw [this]
  exact hm

/-- The wrapped product differs from the product by whole rounds. -/
theorem bmod_eq_sub_rounds (n : Int) : ∃ k : Int, n.bmod (2 ^ 64) = n - k * 18446744073709551616 := by
  have h := Int.bmod_add_bdiv n (2 ^ 64)
  refine ⟨n.bdiv (2 ^ 64), ?_⟩
  have : ((2 ^ 64 : Nat) : Int) = 18446744073709551616 := by decide
  rw [this] at h
  rw [Int.mul_comm]
  omega

theorem toInt_of_mulChecked {a b r : Int64} (h : mulChecked a b = .ok r) : r.toInt = a.toInt * b.toInt := by
  dsimp only [mulChecked] at h
  split at h
  · rename_i hz
    cases h
    simp only [Bool.or_eq_true, decide_eq_true_eq] at hz
    rcases hz with rfl | rfl <;> simp
  · rename_i hz
    split at h
    · cases h
    · rename_i hmin
      split at h
      · cases h
      · rename_i hdiv
        cases h
        simp only [Bool.or_eq_true, decide_eq_true_eq, not_or, Bool.and_eq_true, not_and] at hz hmin
        have hb0 : b.toInt ≠ 0 := fun e => hz.2 (toInt_inj.1 (by simpa using e))
        have hquot : a * b / b = a := by simpa using hdiv
        have hq : ((a * b).toInt.tdiv b.toInt).bmod (2 ^ 64) = a.toInt := by
          rw [← toInt_div, hquot]
        -- the quotient of words wraps only for the least word by -1
        have hexact : (a * b).toInt.tdiv b.toInt = a.toInt := by
          by_cases hb1 : b = -1
          · subst hb1
            have ha : a ≠ Int64.minValue := hmin.2 rfl
            have hne : a.toInt ≠ -9223372036854775808 := fun e => ha (toInt_inj.1 (by rw [e]; decide))
            have hr := toInt_range a
            have hp : (a * -1).toInt = -a.toInt := by
              rw [toInt_mul]
              have : (-1 : Int64).toInt = -1 := by decide
              rw [this, bmod_of_range] <;> omega
            rw [hp]
            have : (-1 : Int64).toInt = -1 := by decide
            rw [this]
            simp
          · have hrange := toInt_range (a * b)
            rw [bmod_of_range] at hq
            · exact hq
            · have hb2 : 2 ≤ b.toInt.natAbs ∨ b.toInt = 1 := by
                have : b.toInt ≠ -1 := fun e => hb1 (toInt_inj.1 (by rw [e]; decide))
                omega
              rcases hb2 with hb2 | hb2
              · have hle : ((a * b).toInt.tdiv b.toInt).natAbs ≤ (a * b).toInt.natAbs / 2 := by
                  rw [Int.natAbs_tdiv]
                  exact div_le_div_left hb2 (by decide)
                omega
              · rw [hb2]
                simpa using hrange
        have hclose := tdiv_mul_close (a * b).toInt b.toInt hb0
        rw [hexact] at hclose
        obtain ⟨k, hk⟩ := bmod_eq_sub_rounds (a.toInt * b.toInt)
        rw [← toInt_mul] at hk
        have hb := toInt_range b
        omega

/-! An exact result is not refused. -/

theorem addChecked_of_exact (h : (a + b).toInt = a.toInt + b.toInt) : addChecked a b = .ok (a + b) := by
  simp only [addChecked, gt_iff_lt, lt_iff_toInt_lt, h, toInt_zero]
  rw [if_neg]
  simp only [bne_iff_ne, ne_eq, Decidable.not_not, decide_eq_decide]
  omega

theorem subChecked_of_exact (h : (a - b).toInt = a.toInt - b.toInt) : subChecked a b = .ok (a - b) := by
  simp only [subChecked, gt_iff_lt, lt_iff_toInt_lt, h, toInt_zero]
  rw [if_neg]
  simp only [bne_iff_ne, ne_eq, Decidable.not_not, decide_eq_decide]
  omega

theorem mulChecked_of_exact (h : (a * b).toInt = a.toInt * b.toInt) : ∃ r, mulChecked a b = .ok r := by
  have hr := toInt_range (a * b)
  have hmin : Int64.minValue.toInt = -9223372036854775808 := by decide
  have hone : (-1 : Int64).toInt = -1 := by decide
  unfold mulChecked
  split
  · exact ⟨0, rfl⟩
  · rename_i hz
    simp only [Bool.or_eq_true, decide_eq_true_eq, not_or] at hz
    have hb0 : b.toInt ≠ 0 := fun e => hz.2 (toInt_inj.1 (by simpa using e))
    rw [if_neg]
    · refine ⟨a * b, if_neg ?_⟩
      have hq : (a * b / b).toInt = a.toInt := by
        rw [toInt_div, h, Int.mul_tdiv_cancel _ hb0, bmod_of_range (toInt_range a)]
      simpa using toInt_inj.1 hq
    · simp only [Bool.or_eq_true, Bool.and_eq_true, decide_eq_true_eq]
      rintro (⟨rfl, rfl⟩ | ⟨rfl, rfl⟩)
      · rw [h, hmin, hone] at hr
        omega
      · rw [h, hmin, hone] at hr
        omega

/-! ## Shifts -/

theorem toNat_toBitVec {a : Int64} (h : 0 ≤ a.toInt) : (a.toBitVec.toNat : Int) = a.toInt := by
  have e := BitVec.toInt_eq_toNat_bmod a.toBitVec
  rw [toInt_toBitVec] at e
  have hlt := a.toBitVec.isLt
  simp only [Int.bmod_def] at e
  omega

/-- An amount to shift by is what is left of it by the machine. -/
theorem and_63 {y : Int64} (h : 0 ≤ y.toInt ∧ y.toInt < 64) : y &&& 63 = y := by
  have hn := toNat_toBitVec h.1
  apply Int64.toBitVec_inj.1
  apply BitVec.eq_of_toNat_eq
  rw [Int64.toBitVec_and, BitVec.toNat_and]
  have : (63 : Int64).toBitVec.toNat = 2 ^ 6 - 1 := by decide
  rw [this, and_two_pow_sub_one_eq_mod]
  exact mod_eq_of_lt (by omega)

theorem toNat_smod_64 {y : Int64} (h : 0 ≤ y.toInt ∧ y.toInt < 64) : (y.toBitVec.smod 64).toNat = y.toInt.toNat := by
  have e : (y.toBitVec.smod 64).toInt = y.toInt := by
    rw [BitVec.toInt_smod, toInt_toBitVec]
    have : (64 : BitVec 64).toInt = 64 := by decide
    rw [this, Int.fmod_eq_emod_of_nonneg _ (by decide)]
    exact Int.emod_eq_of_lt h.1 h.2
  have e2 := BitVec.toInt_eq_toNat_bmod (y.toBitVec.smod 64)
  have hlt := (y.toBitVec.smod 64).isLt
  rw [e] at e2
  simp only [Int.bmod_def] at e2
  omega

theorem toInt_shiftRight (h : 0 ≤ y.toInt ∧ y.toInt < 64) : (x >>> y).toInt = x.toInt / 2 ^ y.toInt.toNat := by
  rw [← Int64.toInt_toBitVec, Int64.toBitVec_shiftRight, BitVec.sshiftRight', BitVec.toInt_sshiftRight,
    Int64.toInt_toBitVec, toNat_smod_64 h, Int.shiftRight_eq_div_pow]
  simp

theorem toInt_shiftLeft (h : 0 ≤ y.toInt ∧ y.toInt < 64) : (x <<< y).toInt = (x.toInt * 2 ^ y.toInt.toNat).bmod (2 ^ 64) := by
  rw [← Int64.toInt_toBitVec, Int64.toBitVec_shiftLeft, BitVec.shiftLeft_eq', BitVec.toInt_shiftLeft, toNat_smod_64 h, shiftLeft_eq]
  have e := BitVec.toInt_eq_toNat_bmod x.toBitVec
  rw [Int64.toInt_toBitVec] at e
  rw [e, Int.bmod_mul_bmod]
  simp

theorem toInt_shiftLeft_of_undone (h : 0 ≤ y.toInt ∧ y.toInt < 64) (hu : (x <<< y) >>> y = x) : (x <<< y).toInt = x.toInt * 2 ^ y.toInt.toNat := by
  obtain ⟨k, hk⟩ := bmod_eq_sub_rounds (x.toInt * 2 ^ y.toInt.toNat)
  rw [← toInt_shiftLeft h] at hk
  have hdiv : (x <<< y).toInt / 2 ^ y.toInt.toNat = x.toInt := by
    rw [← toInt_shiftRight h, hu]
  have hpos : (0 : Int) < 2 ^ y.toInt.toNat := Int.pow_pos (by decide)
  have hsmall : (2 : Int) ^ y.toInt.toNat ≤ 2 ^ 63 := by
    exact_mod_cast Nat.pow_le_pow_right (n := 2) (by decide) (show y.toInt.toNat ≤ 63 by omega)
  have hlow := Int.mul_ediv_self_le (x := (x <<< y).toInt) (Int.ne_of_gt hpos)
  have hhigh := Int.lt_mul_ediv_self_add (x := (x <<< y).toInt) hpos
  rw [hdiv, Int.mul_comm] at hlow hhigh
  omega

theorem toInt_of_shiftLeftChecked {x r : Int64} {n : Nat} (hn : n < 64) (h : shiftLeftChecked x n = .ok r) : r.toInt = x.toInt * 2 ^ n := by
  have hk : (Int64.ofNat n).toInt = n := toInt_ofNat_of_lt (by omega)
  dsimp only [shiftLeftChecked] at h
  rw [if_neg (by omega)] at h
  split at h
  · cases h
  · rename_i hu
    cases h
    have := toInt_shiftLeft_of_undone (x := x) (y := Int64.ofNat n) (by omega) (by simpa using hu)
    rw [this, hk]
    simp

/-! ## Bits of words that are not negative -/

theorem toInt_or (ha : 0 ≤ a.toInt) (hb : 0 ≤ b.toInt) : (a ||| b).toInt = ((a.toInt.toNat ||| b.toInt.toNat : Nat) : Int) := by
  have hna := toNat_toBitVec ha
  have hnb := toNat_toBitVec hb
  have hra := toInt_range a
  have hrb := toInt_range b
  have hlt : a.toInt.toNat ||| b.toInt.toNat < 2 ^ 63 := or_lt_two_pow (by omega) (by omega)
  rw [← Int64.toInt_toBitVec, Int64.toBitVec_or, BitVec.toInt_or]
  rw [show a.toBitVec.toNat = a.toInt.toNat by omega, show b.toBitVec.toNat = b.toInt.toNat by omega]
  apply bmod_of_range
  omega

theorem toInt_xor (ha : 0 ≤ a.toInt) (hb : 0 ≤ b.toInt) : (a ^^^ b).toInt = ((a.toInt.toNat ^^^ b.toInt.toNat : Nat) : Int) := by
  have hna := toNat_toBitVec ha
  have hnb := toNat_toBitVec hb
  have hra := toInt_range a
  have hrb := toInt_range b
  have hlt : a.toInt.toNat ^^^ b.toInt.toNat < 2 ^ 63 := xor_lt_two_pow (by omega) (by omega)
  rw [← Int64.toInt_toBitVec, Int64.toBitVec_xor, BitVec.toInt_xor]
  rw [show a.toBitVec.toNat = a.toInt.toNat by omega, show b.toBitVec.toNat = b.toInt.toNat by omega]
  apply bmod_of_range
  omega

/-- One argument that is not negative bounds the common bits. -/
theorem toInt_and_le (hb : 0 ≤ b.toInt) : 0 ≤ (a &&& b).toInt ∧ (a &&& b).toInt ≤ b.toInt := by
  have hnb := toNat_toBitVec hb
  have hrb := toInt_range b
  have hle : a.toBitVec.toNat &&& b.toBitVec.toNat ≤ b.toBitVec.toNat := and_le_right
  rw [← Int64.toInt_toBitVec, Int64.toBitVec_and, BitVec.toInt_and, bmod_of_range] <;> omega

theorem toInt_and (ha : 0 ≤ a.toInt) (hb : 0 ≤ b.toInt) : (a &&& b).toInt = ((a.toInt.toNat &&& b.toInt.toNat : Nat) : Int) := by
  have hna := toNat_toBitVec ha
  have hnb := toNat_toBitVec hb
  have hrb := toInt_range b
  have hle : a.toBitVec.toNat &&& b.toBitVec.toNat ≤ b.toBitVec.toNat := and_le_right
  rw [← Int64.toInt_toBitVec, Int64.toBitVec_and, BitVec.toInt_and, bmod_of_range]
  · rw [show a.toBitVec.toNat = a.toInt.toNat by omega, show b.toBitVec.toNat = b.toInt.toNat by omega]
  · omega

/-! ## Division toward zero -/

theorem toInt_div (h : ¬ (a = Int64.minValue ∧ b = -1)) : (a / b).toInt = a.toInt.tdiv b.toInt := by
  have ha := toInt_range a
  rw [Int64.toInt_div, bmod_of_range]
  by_cases hb : b = -1
  · subst hb
    have hne : a.toInt ≠ -9223372036854775808 := fun e => h ⟨Int64.toInt_inj.1 (by rw [e]; decide), rfl⟩
    have : (-1 : Int64).toInt = -1 := by decide
    rw [this, Int.tdiv_neg, Int.tdiv_one]
    omega
  · have hb1 : b.toInt ≠ -1 := fun e => hb (Int64.toInt_inj.1 (by rw [e]; decide))
    have habs : (a.toInt.tdiv b.toInt).natAbs ≤ a.toInt.natAbs := by
      rw [Int.natAbs_tdiv]
      exact div_le_self _ _
    by_cases hp : 2 ≤ b.toInt.natAbs
    · have : (a.toInt.tdiv b.toInt).natAbs ≤ a.toInt.natAbs / 2 := by
        rw [Int.natAbs_tdiv]
        exact div_le_div_left hp (by decide)
      omega
    · have : b.toInt = 0 ∨ b.toInt = 1 := by omega
      rcases this with e | e <;> simp only [e, Int.tdiv_zero, Int.tdiv_one] <;> omega

theorem tdiv_le_tdiv {a b c : Int} (hc : 0 < c) (h : a ≤ b) : a.tdiv c ≤ b.tdiv c := by
  rcases Int.le_total 0 a with ha | ha
  · rw [Int.tdiv_eq_ediv_of_nonneg ha, Int.tdiv_eq_ediv_of_nonneg (Int.le_trans ha h)]
    exact Int.ediv_le_ediv hc h
  · have hna : a.tdiv c = -((-a) / c) := by
      rw [← Int.tdiv_eq_ediv_of_nonneg (by omega), Int.neg_tdiv, Int.neg_neg]
    rcases Int.le_total 0 b with hb | hb
    · have h1 := Int.tdiv_nonneg hb (Int.le_of_lt hc)
      have h2 := Int.ediv_nonneg (a := -a) (by omega) (Int.le_of_lt hc)
      omega
    · have hnb : b.tdiv c = -((-b) / c) := by
        rw [← Int.tdiv_eq_ediv_of_nonneg (by omega), Int.neg_tdiv, Int.neg_neg]
      have := Int.ediv_le_ediv hc (show -b ≤ -a by omega)
      omega

theorem tdiv_le_tdiv_left {u c d : Int} (hu : 0 ≤ u) (hc : 0 < c) (h : c ≤ d) : u.tdiv d ≤ u.tdiv c := by
  obtain ⟨u, rfl⟩ := Int.eq_ofNat_of_zero_le hu
  obtain ⟨c, rfl⟩ := Int.eq_ofNat_of_zero_le (Int.le_of_lt hc)
  obtain ⟨d, rfl⟩ := Int.eq_ofNat_of_zero_le (Int.le_trans (Int.le_of_lt hc) h)
  rw [Int.tdiv_eq_ediv_of_nonneg hu, Int.tdiv_eq_ediv_of_nonneg hu]
  exact_mod_cast div_le_div_left (a := u) (b := d) (c := c) (by omega) (by omega)

/-- A remainder has the sign of the dividend and is smaller than the divisor. -/
theorem toInt_mod_range (hb : b ≠ 0) : (a % b).toInt.natAbs < b.toInt.natAbs ∧ (0 ≤ a.toInt → 0 ≤ (a % b).toInt) := by
  have hb0 : b.toInt ≠ 0 := fun e => hb (toInt_inj.1 (by simpa using e))
  rw [toInt_mod, Int.natAbs_tmod]
  exact ⟨mod_lt _ (Int.natAbs_pos.2 hb0), fun h => Int.tmod_nonneg _ h⟩

/-- What is smaller than a number lies between its absolute value and the opposite of that. -/
theorem between_abs {r n : Int64} (hn : n ≠ Int64.minValue) (h : r.toInt.natAbs < n.toInt.natAbs) : -(if n < 0 then -n else n) < r ∧
    r < if n < 0 then -n else n := by
  have hmin : Int64.minValue.toInt = -9223372036854775808 := by decide
  have hrange := toInt_range n
  have hne : n.toInt ≠ Int64.minValue.toInt := fun e => hn (Int64.toInt_inj.1 e)
  have hneg : (-n).toInt = -n.toInt := by
    rw [Int64.toInt_neg, bmod_of_range]
    omega
  simp only [Int64.lt_iff_toInt_lt, Int64.toInt_zero]
  split
  · rw [Int64.neg_neg, hneg]
    omega
  · rw [hneg]
    omega

/-- The remainder by a power of two is the low bits. -/
theorem mod_eq_and {a n : Int64} (ha : 0 ≤ a.toInt) (hn : 0 < n.toInt) (hp : n &&& (n - 1) = 0) : a % n = a &&& (n - 1) := by
  have hr := toInt_range n
  have e1 : (n - 1).toInt = n.toInt - 1 := by
    rw [toInt_sub, bmod_of_range]
    · rfl
    · have : (1 : Int64).toInt = 1 := rfl
      omega
  have hnat : (n - 1).toInt.toNat = n.toInt.toNat - 1 := by omega
  have hpow : n.toInt.toNat &&& (n.toInt.toNat - 1) = 0 := by
    have := toInt_and (a := n) (b := n - 1) (by omega) (by omega)
    rw [hp, hnat] at this
    have hz : (0 : Int64).toInt = 0 := rfl
    omega
  obtain ⟨k, hk⟩ := (and_sub_one_eq_zero_iff_isPowerOfTwo (by omega)).1 hpow
  apply toInt_inj.1
  rw [toInt_and ha (by omega), hnat, hk, and_two_pow_sub_one_eq_mod, toInt_mod,
    Int.tmod_eq_emod_of_nonneg ha, ← hk, Int.natCast_emod, Int.toNat_of_nonneg ha, Int.toNat_of_nonneg (by omega)]

end FlowCompiler.Word
