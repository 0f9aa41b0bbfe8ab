import Mathlib.Data.Int.ModEq
import FlowCompiler.BigInteger

/-!
# Division and powers of integers of any size

Division is computed toward zero and corrected, and the power of a residue is found from a base that is not negative, so that the signs of
both operands have to be put right at the end.  What comes out is one convention for all signs: the remainder has the sign of the divisor.
-/

namespace FlowCompiler.BigInteger

variable {a b q r m n : Int}

/-- A quotient and a remainder that has the sign of the divisor. -/
structure Divides (a b q r : Int) : Prop where
  eq : a = q * b + r
  sign : r = 0 ∨ r.sign = b.sign
  small : r.natAbs < b.natAbs

theorem divides_iff : Divides a b q r ↔ a = q * b + r ∧ (0 ≤ r ∧ r < b ∨ b < r ∧ r ≤ 0) := by
  constructor
  · rintro ⟨eq, rfl | sign, small⟩
    · exact ⟨eq, by omega⟩
    · rcases Int.lt_trichotomy r 0 with h | rfl | h
      · rw [Int.sign_eq_neg_one_of_neg h, eq_comm, Int.sign_eq_neg_one_iff_neg] at sign
        exact ⟨eq, by omega⟩
      · exact ⟨eq, by omega⟩
      · rw [Int.sign_eq_one_of_pos h, eq_comm, Int.sign_eq_one_iff_pos] at sign
        exact ⟨eq, by omega⟩
  · rintro ⟨eq, h | h⟩
    · refine ⟨eq, (Int.lt_or_eq_of_le h.1).symm.imp Eq.symm fun hr => ?_, by omega⟩
      rw [Int.sign_eq_one_of_pos hr, Int.sign_eq_one_of_pos (hr.trans h.2)]
    · refine ⟨eq, (Int.lt_or_eq_of_le h.2).symm.imp_right fun hr => ?_, by omega⟩
      rw [Int.sign_eq_neg_one_of_neg hr, Int.sign_eq_neg_one_of_neg (h.1.trans hr)]

/-- A divisor has one quotient and one remainder of the kind. -/
theorem Divides.unique {q' r' : Int} (h : Divides a b q r) (h' : Divides a b q' r') : q' = q ∧ r' = r := by
  obtain ⟨e, h⟩ := divides_iff.1 h
  obtain ⟨e', h'⟩ := divides_iff.1 h'
  have hdvd : b ∣ r' - r := ⟨q - q', by rw [Int.mul_sub, Int.mul_comm b, Int.mul_comm b]; omega⟩
  have hr : r' - r = 0 := Int.eq_zero_of_dvd_of_natAbs_lt_natAbs hdvd (by omega)
  have hb : b ≠ 0 := by omega
  exact ⟨Int.eq_of_mul_eq_mul_right hb (by omega), by omega⟩

/-- Division toward zero, corrected where the remainder has the other sign. -/
theorem divMod_divides (hb : b ≠ 0) (a : Int) : ∃ q r, divMod a b = .ok (q, r) ∧ Divides a b q r := by
  have eq : a = a.tdiv b * b + a.tmod b := by rw [Int.mul_comm, Int.mul_tdiv_add_tmod]
  have small : (a.tmod b).natAbs < b.natAbs := by
    rw [Int.natAbs_tmod]
    exact Nat.mod_lt _ (Int.natAbs_pos.2 hb)
  unfold divMod
  rw [if_neg hb]
  dsimp only
  split
  · rename_i h
    obtain ⟨hr, hs⟩ : a.tmod b ≠ 0 ∧ (a.tmod b).sign ≠ b.sign := by simpa using h
    refine ⟨_, _, rfl, divides_iff.2 ⟨by rw [Int.sub_mul]; omega, ?_⟩⟩
    rcases Int.lt_or_gt_of_ne hb with hb | hb <;> rcases Int.lt_or_gt_of_ne hr with hr | hr
    · exact absurd (by rw [Int.sign_eq_neg_one_of_neg hr, Int.sign_eq_neg_one_of_neg hb]) hs
    · omega
    · omega
    · exact absurd (by rw [Int.sign_eq_one_of_pos hr, Int.sign_eq_one_of_pos hb]) hs
  · rename_i h
    exact ⟨_, _, rfl, eq, by simpa [or_iff_not_imp_left] using h, small⟩

theorem mod_of_divides (h : Divides a b q r) : mod a b = .ok r := by
  have hb : b ≠ 0 := by have := h.small; omega
  obtain ⟨q', r', e, h'⟩ := divMod_divides hb a
  rw [mod, e, (h'.unique h).2]
  rfl

/-! ## Powers -/

/-- The remainder from the least residue. -/
theorem divides_residue (hm : m ≠ 0) (n : Int) : ∃ q, Divides n m q (if m < 0 ∧ n % m ≠ 0 then n % m + m else n % m) := by
  have hlow := Int.emod_nonneg n hm
  have hhigh := Int.emod_lt_abs n hm
  have eq := Int.mul_ediv_add_emod n m
  rw [Int.abs_eq_natAbs] at hhigh
  split
  · exact ⟨n / m - 1, divides_iff.2 ⟨by rw [Int.sub_mul, Int.mul_comm]; omega, by omega⟩⟩
  · exact ⟨n / m, divides_iff.2 ⟨by rw [Int.mul_comm]; omega, by omega⟩⟩

/-- A function that finds the least residue of a power, for operands that are not negative. -/
def LeastResidue (residue : (base e m : Nat) → Nat) : Prop := ∀ base e m, 0 < m → residue base e m = base ^ e % m

theorem powModAux_eq (fuel base e m acc : Nat) (h : e < 2 ^ fuel) : powModAux fuel base e m acc = acc * base ^ e % m := by
  induction fuel generalizing base e acc with
  | zero =>
    obtain rfl : e = 0 := by simpa using h
    simp [powModAux]
  | succ fuel ih =>
    unfold powModAux
    split
    · rename_i h0
      simp [h0]
    · have square : base ^ e = (base * base) ^ (e / 2) * base ^ (e % 2) := by
        rw [← pow_two, ← pow_mul, ← pow_add, Nat.div_add_mod]
      rw [ih _ _ _ (by omega), square]
      refine .trans (Nat.ModEq.mul_left _ ((Nat.mod_modEq ..).pow _)) ?_
      rcases Nat.mod_two_eq_zero_or_one e with h2 | h2 <;> rw [h2]
      · simp
      · rw [if_pos rfl, pow_one, Nat.mul_comm ((base * base) ^ (e / 2)), ← Nat.mul_assoc]
        exact (Nat.mod_modEq ..).mul_right _

theorem leastResidue_powMod : LeastResidue powMod := fun base e m _ => by
  rw [powMod, powModAux_eq _ _ _ _ _ Nat.lt_log2_self, Nat.one_mul]

theorem powBy_eq_mod {residue : (base e m : Nat) → Nat} (hr : LeastResidue residue) {e : Int} (he : 0 ≤ e) (hm : m ≠ 0) (a : Int) :
    powBy residue a e (some m) = mod (a ^ e.toNat) m := by
  obtain ⟨q, hq⟩ := divides_residue hm (a ^ e.toNat)
  rw [mod_of_divides hq]
  have hk : 0 < m.natAbs := Int.natAbs_pos.2 hm
  have habs (x : Int) : x % m.natAbs = x % m := by rw [← Int.abs_eq_natAbs, Int.emod_abs]
  -- the residue of the power of the residue
  have hpow (n : Nat) : (((a % m.natAbs).toNat ^ n % m.natAbs : Nat) : Int) = a ^ n % m := by
    rw [Int.natCast_mod, Nat.cast_pow, Int.toNat_of_nonneg (Int.emod_nonneg _ (by omega)), habs, habs]
    exact (Int.mod_modEq ..).pow n
  have hbase : (if e = 0 then 1 % m.natAbs else if (a % m.natAbs).toNat = 0 then 0 else residue (a % m.natAbs).toNat e.toNat m.natAbs) =
      (a % m.natAbs).toNat ^ e.toNat % m.natAbs := by
    split
    · rename_i h
      rw [h, Int.toNat_zero, pow_zero]
    · split
      · rename_i h0 h
        rw [h, zero_pow (by omega), Nat.zero_mod]
      · exact hr _ _ _ hk
  unfold powBy
  rw [if_neg (by omega)]
  dsimp only
  rw [if_neg hm, hbase]
  simp only [Bool.and_eq_true, decide_eq_true_eq, ← hpow, ne_eq, Int.natCast_eq_zero]

/-- **Division and powers have one convention for all signs.**  Division by anything but zero gives the one quotient and remainder of
which the remainder has the sign of the divisor, whole or part by part, and division by zero is its only failure.  A power modulo an
integer other than zero is the remainder of the power, wherever the function for powers of residues gives least residues. -/
theorem division_one_convention {residue : (base e m : Nat) → Nat} (hr : LeastResidue residue) (a b : Int) :
    (b ≠ 0 → ∃ q r, divMod a b = .ok (q, r) ∧ floorDiv a b = .ok q ∧ mod a b = .ok r ∧ ∀ q' r', Divides a b q' r' ↔ q' = q ∧ r' = r) ∧
      (divMod a 0 = .error (.arith .zeroDivision) ∧ floorDiv a 0 = .error (.arith .zeroDivision) ∧
        mod a 0 = .error (.arith .zeroDivision)) ∧
      ∀ e m : Int, 0 ≤ e → m ≠ 0 → powBy residue a e (some m) = mod (a ^ e.toNat) m := by
  refine ⟨fun hb => ?_, ⟨rfl, rfl, rfl⟩, fun e m he hm => powBy_eq_mod hr he hm a⟩
  obtain ⟨q, r, e, h⟩ := divMod_divides hb a
  refine ⟨q, r, e, by rw [floorDiv, e]; rfl, mod_of_divides h, fun q' r' => ⟨h.unique, ?_⟩⟩
  rintro ⟨rfl, rfl⟩
  exact h

/-- A power of a negative integer modulo a negative one. -/
theorem division_one_convention_negative : LeastResidue powMod ∧
    pow (-7) 3 (some (-5)) = mod ((-7) ^ 3) (-5) ∧ mod ((-7) ^ 3) (-5) = .ok (-3) :=
  ⟨leastResidue_powMod, (division_one_convention leastResidue_powMod (-7) (-5)).2.2 3 (-5) (by decide) (by decide), rfl⟩

end FlowCompiler.BigInteger
