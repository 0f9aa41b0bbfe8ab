import Mathlib.Data.Int.ModEq
import Mathlib.Data.Nat.Bitwise
import FlowCompiler.Proofs.Words

/-!
# Checked and masked arithmetic

A checked operation gives the integer that the operation gives without a limit wherever a word is that integer, and fails with the
overflow failure wherever none is.  Overflow is only seen afterwards, in the sign of a wrapped sum, or by undoing a wrapped product or
shift, so that every word matters, -2^63 and -1 above all, and every count to shift by.

A masked word is the one number of a width that is congruent to the word.
-/

namespace FlowCompiler.Word

variable {x y : Int64} {m : Except Failure Int64} {z : Int} {w : Nat} {signed : Bool}

/-! ## Checked operations -/

/-- The result is the integer, or the overflow failure where no word is the integer. -/
def Exact (m : Except Failure Int64) (z : Int) : Prop :=
  (∀ r, m = .ok r ↔ r.toInt = z) ∧ ∀ f, m = .error f ↔ f = overflow ∧ ∀ r : Int64, r.toInt ≠ z

/-- An operation that is exact where it succeeds, fails with overflow only, and succeeds where a word is the result. -/
theorem Exact.of_result (hok : ∀ r, m = .ok r → r.toInt = z) (herror : ∀ f, m = .error f → f = overflow)
    (hfits : ∀ r : Int64, r.toInt = z → ∃ r', m = .ok r') : Exact m z := by
  refine ⟨fun r => ⟨hok r, fun h => ?_⟩, fun f => ⟨fun h => ⟨herror f h, fun r hr => ?_⟩, fun h => ?_⟩⟩
  · obtain ⟨r', hr'⟩ := hfits r h
    rw [hr', Int64.toInt_inj.1 (h.trans (hok r' hr').symm)]
  · obtain ⟨r', hr'⟩ := hfits r hr
    cases h.symm.trans hr'
  · cases e : m with
    | ok r => exact absurd (hok r e) (h.2 r)
    | error g => rw [h.1, herror g e]

theorem exact_addChecked (x y : Int64) : Exact (addChecked x y) (x.toInt + y.toInt) := by
  refine .of_result (fun r => toInt_of_addChecked) (fun f h => ?_) fun r hr => ⟨_, addChecked_of_exact ?_⟩
  · dsimp only [addChecked] at h
    split at h <;> cases h
    rfl
  · rw [Int64.toInt_add, ← hr, bmod_of_range (toInt_range r)]

theorem exact_subChecked (x y : Int64) : Exact (subChecked x y) (x.toInt - y.toInt) := by
  refine .of_result (fun r => toInt_of_subChecked) (fun f h => ?_) fun r hr => ⟨_, subChecked_of_exact ?_⟩
  · dsimp only [subChecked] at h
    split at h <;> cases h
    rfl
  · rw [Int64.toInt_sub, ← hr, bmod_of_range (toInt_range r)]

theorem exact_mulChecked (x y : Int64) : Exact (mulChecked x y) (x.toInt * y.toInt) := by
  refine .of_result (fun r => toInt_of_mulChecked) (fun f h => ?_) fun r hr => mulChecked_of_exact ?_
  · dsimp only [mulChecked] at h
    repeat' split at h
    all_goals cases h <;> rfl
  · rw [Int64.toInt_mul, ← hr, bmod_of_range (toInt_range r)]

theorem toInt_minValue : Int64.minValue.toInt = -9223372036854775808 := by decide

theorem exact_negChecked (x : Int64) : Exact (negChecked x) (-x.toInt) := by
  unfold negChecked
  split
  · rename_i h
    refine .of_result nofun (fun f e => (Except.error.inj e).symm) fun r hr => ?_
    rw [h, toInt_minValue] at hr
    have := toInt_range r
    omega
  · rename_i h
    refine .of_result (fun r e => ?_) nofun fun _ _ => ⟨_, rfl⟩
    have hne : x.toInt ≠ Int64.minValue.toInt := fun e => h (Int64.toInt_inj.1 e)
    have := toInt_range x
    rw [toInt_minValue] at hne
    rw [← Except.ok.inj e, Int64.toInt_neg, bmod_of_range]
    omega

theorem shiftLeft_undone {n : Nat} {r : Int64} (hn : n < 64) (hr : r.toInt = x.toInt * 2 ^ n) :
    (x <<< Int64.ofNat n) >>> Int64.ofNat n = x := by
  have hk : (Int64.ofNat n).toInt = n := Int64.toInt_ofNat_of_lt (by omega)
  apply Int64.toInt_inj.1
  rw [toInt_shiftRight (by omega), toInt_shiftLeft (by omega), hk, Int.toNat_natCast, ← hr, bmod_of_range (toInt_range r), hr]
  exact Int.mul_ediv_cancel _ (Int.pow_pos (by decide)).ne'

theorem exact_shiftLeftChecked (x : Int64) (n : Nat) : Exact (shiftLeftChecked x n) (x.toInt * 2 ^ n) := by
  by_cases hn : n < 64
  · refine .of_result (fun r => toInt_of_shiftLeftChecked hn) (fun f h => ?_) fun r hr => ⟨x <<< Int64.ofNat n, ?_⟩
    · dsimp only [shiftLeftChecked] at h
      repeat' split at h
      all_goals cases h <;> rfl
    · simp [shiftLeftChecked, Nat.not_le.2 hn, shiftLeft_undone hn hr]
  · unfold shiftLeftChecked
    rw [if_pos (by omega)]
    split
    · rename_i h
      exact .of_result (fun r e => by rw [← Except.ok.inj e, h]; simp) nofun fun _ _ => ⟨0, rfl⟩
    · rename_i h
      refine .of_result nofun (fun f e => (Except.error.inj e).symm) fun r hr => ?_
      -- whatever is not zero is too large once it is shifted by a whole word
      have hx : x.toInt ≠ 0 := fun e => h (Int64.toInt_inj.1 e)
      have hpow : (2 : Int) ^ 64 ≤ 2 ^ n := by exact_mod_cast Nat.pow_le_pow_right (by decide) (by omega)
      have hle : (2 ^ n : Int).natAbs ≤ r.toInt.natAbs := by
        rw [hr, Int.natAbs_mul]
        exact Nat.le_mul_of_pos_left _ (Int.natAbs_pos.2 hx)
      have := toInt_range r
      omega

/-! ## Masks -/

/-- The numbers of so many bits, with a sign or without. -/
def Spans (width : Nat) (signed : Bool) (v : Int) : Prop :=
  if signed then -2 ^ (width - 1) ≤ v ∧ v < 2 ^ (width - 1) else 0 ≤ v ∧ v < 2 ^ width

theorem Spans.unique {u v : Int} (hw : 1 ≤ w) (hu : Spans w signed u) (hv : Spans w signed v) (h : u ≡ v [ZMOD 2 ^ w]) : u = v := by
  obtain ⟨n, rfl⟩ := Nat.exists_eq_add_of_le' hw
  have hpow : (2 : Int) ^ (n + 1) = 2 * 2 ^ n := by rw [pow_succ, Int.mul_comm]
  refine (Int.sub_eq_zero.1 (Int.eq_zero_of_abs_lt_dvd h.dvd (abs_lt.2 ?_))).symm
  cases signed <;> simp only [Spans, Nat.add_sub_cancel, if_true, Bool.false_eq_true, if_false] at hu hv <;> omega

theorem toInt_toInt64 (v : UInt64) : v.toInt64.toInt = (v.toNat : Int).bmod (2 ^ 64) := BitVec.toInt_eq_toNat_bmod v.toBitVec

theorem toInt_toUInt64 (x : Int64) : x.toInt = (x.toUInt64.toNat : Int).bmod (2 ^ 64) := BitVec.toInt_eq_toNat_bmod x.toBitVec

theorem toNat_bit (h : w < 64) : ((1 : UInt64) <<< UInt64.ofNat w).toNat = 2 ^ w := by
  have hlt : 2 ^ w < 2 ^ 64 := Nat.pow_lt_pow_right (by decide) h
  rw [UInt64.toNat_shiftLeft, UInt64.toNat_ofNat_of_lt' (by simp [UInt64.size]; omega), Nat.mod_eq_of_lt h, Nat.shiftLeft_eq]
  simpa using Nat.mod_eq_of_lt hlt

theorem toNat_mask (h : w < 64) : ((1 : UInt64) <<< UInt64.ofNat w - 1).toNat = 2 ^ w - 1 := by
  rw [UInt64.toNat_sub_of_le, toNat_bit h]
  · rfl
  · rw [UInt64.le_iff_toNat_le, toNat_bit h]
    exact Nat.two_pow_pos w

/-- The highest bit of a number of so many bits is set in the upper half. -/
theorem and_top {k n : Nat} (h : k < 2 ^ (n + 1)) : k &&& 2 ^ n ≠ 0 ↔ 2 ^ n ≤ k := by
  have hpos := Nat.two_pow_pos n
  have hdiv : k / 2 ^ n < 2 := (Nat.div_lt_iff_lt_mul hpos).2 (by omega)
  have hle : 2 ^ n ≤ k ↔ 1 ≤ k / 2 ^ n := by rw [Nat.le_div_iff_mul_le hpos, Nat.one_mul]
  rw [Nat.and_two_pow, Nat.testBit_eq_decide_div_mod_eq, Nat.mod_eq_of_lt hdiv, hle]
  by_cases h1 : k / 2 ^ n = 1
  · simp [h1]
  · simp [h1]
    omega

section

variable {u : UInt64}

theorem toNat_low (h : w < 64) (u : UInt64) : (u &&& ((1 : UInt64) <<< UInt64.ofNat w - 1)).toNat = u.toNat % 2 ^ w := by
  rw [UInt64.toNat_and, toNat_mask h, Nat.and_two_pow_sub_one_eq_mod]

theorem toNat_extend (h : w < 64) (hu : u.toNat < 2 ^ w) :
    (u ||| ((1 : UInt64) <<< UInt64.ofNat w - 1).complement).toNat = u.toNat + (2 ^ 64 - 2 ^ w) := by
  have hpow : 2 ^ 64 = 2 ^ w * 2 ^ (64 - w) := by rw [← pow_add, Nat.add_sub_cancel' h.le]
  have hnot : ((1 : UInt64) <<< UInt64.ofNat w - 1).complement.toNat = 2 ^ w * (2 ^ (64 - w) - 1) := by
    rw [Nat.mul_sub_one, ← hpow]
    refine (UInt64.toNat_not _).trans ?_
    rw [toNat_mask h, Nat.sub_sub, Nat.add_sub_cancel' (Nat.two_pow_pos w)]
    rfl
  rw [UInt64.toNat_or, hnot, Nat.or_comm, ← Nat.two_pow_add_eq_or_of_lt hu, Nat.mul_sub_one, ← hpow, Nat.add_comm]

theorem ofInt_toNat (u : UInt64) : Int64.ofInt u.toNat = u.toInt64 := by
  rw [← Int64.toInt_inj, toInt_toInt64]
  exact Int64.toInt_ofInt

end

/-- A word is masked by its low bits; with a sign, the highest of them counts negative. -/
theorem maskBits_eq {n : Nat} (hlt : n + 1 < 64) (x : Int64) (signed : Bool) : maskBits x (n + 1 : Nat) signed = Int64.ofInt
    ((x.toUInt64.toNat % 2 ^ (n + 1) : Nat) - if signed = true ∧ 2 ^ n ≤ x.toUInt64.toNat % 2 ^ (n + 1) then 2 ^ (n + 1) else 0) := by
  have hlow := toNat_low hlt x.toUInt64
  have hk := Nat.mod_lt x.toUInt64.toNat (Nat.two_pow_pos (n + 1))
  have htop : (x.toUInt64 &&& ((1 : UInt64) <<< UInt64.ofNat (n + 1) - 1) &&& (1 : UInt64) <<< UInt64.ofNat n != 0) =
      decide (2 ^ n ≤ x.toUInt64.toNat % 2 ^ (n + 1)) := by
    rw [Bool.eq_iff_iff, decide_eq_true_eq, bne_iff_ne, ne_eq, ← UInt64.toNat_inj, UInt64.toNat_and, hlow, toNat_bit (by omega)]
    exact and_top hk
  unfold maskBits
  rw [if_neg (show ¬ (decide (((n + 1 : Nat) : Int) ≥ 64) || decide (((n + 1 : Nat) : Int) < 0)) = true by simp; omega)]
  dsimp only
  rw [if_neg (show ¬ ((n + 1 : Nat) : Int) = 0 by omega), Int.toNat_natCast, Nat.add_sub_cancel, htop]
  simp only [Bool.and_eq_true, decide_eq_true_eq]
  split
  · have hpow : (2 : Nat) ^ (n + 1) ≤ 2 ^ 64 := Nat.pow_le_pow_right (by decide) hlt.le
    have hcast : ((2 ^ n : Nat) : Int) = 2 ^ n := Nat.cast_pow ..
    have e : ((x.toUInt64.toNat % 2 ^ (n + 1) + (2 ^ 64 - 2 ^ (n + 1)) : Nat) : Int) =
        (x.toUInt64.toNat % 2 ^ (n + 1) : Nat) - 2 ^ (n + 1) + (2 ^ 64 : Nat) := by omega
    rw [← ofInt_toNat, toNat_extend hlt (by rwa [hlow]), hlow, ← Int64.toInt_inj, Int64.toInt_ofInt, Int64.toInt_ofInt, e]
    exact Int.add_bmod_right ..
  · rw [← ofInt_toNat, hlow, Int.sub_zero]

theorem bmod_modEq (h : w ≤ 64) (n : Int) : n.bmod (2 ^ 64) ≡ n [ZMOD 2 ^ w] := by
  obtain ⟨j, hj⟩ := bmod_eq_sub_rounds n
  obtain ⟨c, hc⟩ : (2 : Int) ^ w ∣ j * 18446744073709551616 := Int.dvd_mul_of_dvd_right (pow_dvd_pow (2 : Int) h)
  rw [hj, hc]
  exact Int.sub_modulus_mul_modEq_iff.2 rfl

/-- A masked word is the one number of the width that is congruent to the word. -/
theorem maskBits_spans (x : Int64) (hw : 1 ≤ w) (h64 : w ≤ 64) (signed : Bool) :
    ∃ v, Spans w signed v ∧ v ≡ x.toInt [ZMOD 2 ^ w] ∧ maskBits x w signed = Int64.ofInt v := by
  have hword := bmod_modEq h64 x.toUInt64.toNat
  rw [← toInt_toUInt64] at hword
  rcases Nat.lt_or_eq_of_le h64 with hlt | rfl
  · obtain ⟨n, rfl⟩ := Nat.exists_eq_add_of_le' hw
    refine ⟨_, ?_, ?_, maskBits_eq hlt x signed⟩
    · have hk := Nat.mod_lt x.toUInt64.toNat (Nat.two_pow_pos (n + 1))
      have hcast : ((2 ^ n : Nat) : Int) = 2 ^ n := Nat.cast_pow ..
      unfold Spans
      cases signed <;> simp only [Nat.add_sub_cancel, if_true, Bool.false_eq_true, if_false, true_and, false_and]
      · omega
      · split <;> omega
    · have hlow : ((x.toUInt64.toNat % 2 ^ (n + 1) : Nat) : Int) ≡ x.toUInt64.toNat [ZMOD 2 ^ (n + 1)] := by
        rw [Int.natCast_mod, Nat.cast_pow]
        exact Int.mod_modEq ..
      refine .trans ?_ (hlow.trans hword.symm)
      split
      · exact Int.sub_modulus_modEq_iff.2 rfl
      · rw [Int.sub_zero]
  · cases signed with
    | true => exact ⟨x.toInt, (toInt_range x).imp_right (by omega), rfl, (Int64.ofInt_toInt x).symm⟩
    | false => exact ⟨x.toUInt64.toNat, ⟨by omega, by exact_mod_cast x.toUInt64.toNat_lt⟩, hword.symm, (ofInt_toNat _).symm⟩

/-- Numbers of a width are words, apart from the upper half of the numbers of a whole word without a sign. -/
theorem toInt_of_spans {v : Int} (h : Spans w signed v) (h64 : w ≤ 64) (hs : signed = true ∨ w < 64) : (Int64.ofInt v).toInt = v := by
  have hhalf : (2 : Int) ^ (w - 1) ≤ 2 ^ 63 := by exact_mod_cast Nat.pow_le_pow_right (by decide) (by omega)
  rw [Int64.toInt_ofInt]
  refine bmod_of_range ?_
  cases signed <;> simp only [Spans, if_true, Bool.false_eq_true, if_false, false_or] at h hs
  · have hw : (2 : Int) ^ w ≤ 2 ^ 63 := by exact_mod_cast Nat.pow_le_pow_right (by decide) (by omega)
    omega
  · omega

/-- **Checked arithmetic is exact and masks keep what they should.**  Each checked operation gives the integer that the operation gives
without a limit, whenever that is a word, and the overflow failure otherwise, whatever the words and the count to shift by.  Masking to a
width of 1 to 64 bits gives the number of that width and sign that is congruent to the word, as a pattern of bits where the width is a
whole word, and masking twice is masking once. -/
theorem arithmetic_exact (x y : Int64) (n : Nat) :
    Exact (addChecked x y) (x.toInt + y.toInt) ∧ Exact (subChecked x y) (x.toInt - y.toInt) ∧ Exact (mulChecked x y) (x.toInt * y.toInt) ∧
      Exact (negChecked x) (-x.toInt) ∧ Exact (shiftLeftChecked x n) (x.toInt * 2 ^ n) ∧
      ∀ w : Nat, 1 ≤ w → w ≤ 64 → ∀ signed,
        (maskBits x w signed).toInt ≡ x.toInt [ZMOD 2 ^ w] ∧
        (∃ v, Spans w signed v ∧ maskBits x w signed = Int64.ofInt v ∧ (signed = true ∨ w < 64 → (maskBits x w signed).toInt = v)) ∧
        maskBits (maskBits x w signed) w signed = maskBits x w signed := by
  refine ⟨exact_addChecked x y, exact_subChecked x y, exact_mulChecked x y, exact_negChecked x, exact_shiftLeftChecked x n,
    fun w hw h64 signed => ?_⟩
  obtain ⟨v, hv, hcong, e⟩ := maskBits_spans x hw h64 signed
  have hself : (Int64.ofInt v).toInt ≡ v [ZMOD 2 ^ w] := by
    rw [Int64.toInt_ofInt]
    exact bmod_modEq h64 v
  rw [e]
  refine ⟨hself.trans hcong, ⟨v, hv, rfl, toInt_of_spans hv h64⟩, ?_⟩
  obtain ⟨v', hv', hcong', e'⟩ := maskBits_spans (Int64.ofInt v) hw h64 signed
  rw [e', hv'.unique hw hv (hcong'.trans hself)]

/-- The least word, where each of the tests for overflow has its exception, and its lowest byte. -/
theorem arithmetic_exact_least : Exact (mulChecked Int64.minValue (-1)) 9223372036854775808 ∧
    Exact (shiftLeftChecked Int64.minValue 64) (-9223372036854775808 * 2 ^ 64) ∧
    maskBits (maskBits (-129) 8 true) 8 true = 127 := by
  obtain ⟨-, -, mul, -, shift, -⟩ := arithmetic_exact Int64.minValue (-1) 64
  have mask := (arithmetic_exact (-129) 0 0).2.2.2.2.2 8 (by decide) (by decide) true
  exact ⟨mul, shift, mask.2.2.trans (by decide)⟩

end FlowCompiler.Word
