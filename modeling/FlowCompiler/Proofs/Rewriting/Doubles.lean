import Mathlib
import FlowCompiler.Machine.Double

/-!
# Order of doubles, and multiplication by one

The machine unpacks a pattern of bits to a sign, a mantissa and an exponent, multiplies, rounds, and packs the result
again.  A pattern unpacks to a `Canonical` number, and packing gives the pattern back (`pack_unpack`).  One has the
mantissa `2 ^ 52`: a product with it is the other factor with 52 zeros behind its mantissa, and rounding shifts exactly
these zeros out (`roundWithAccuracy_mul_pow`).  So a product with one has the bits of the other factor, signed zeros,
infinities and numbers without a leading bit among them.  Only the bits of what is no number may change, since a product
has but one such pattern.

Two numbers are compared by sign, exponent and mantissa, and the sign of a zero is not looked at.  One of the two is below
the other or not (`lt_eq_not_le`), unless one of them is no number: then neither is (`lt_of_unordered`).
-/

namespace FlowCompiler
namespace Binary64

open Float.Model (UnpackedFloat totalExponent)
open Float.Model.UnpackedFloat Nat

/-- The format of double precision. -/
abbrev format : Float.Model.Format := Float.Model.Format.binary64

/-! ## The parts of a pattern -/

section Parts

variable (b : BitVec 64)

def signBit : BitVec 1 := @unpackSign format b
def exponentField : BitVec 11 := @unpackExponent format b
def mantissaField : BitVec 52 := @unpackMantissa format b

theorem toNat_signBit : (signBit b).toNat = b.toNat / 2 ^ 63 % 2 := by
  simp [signBit, unpackSign, shiftRight_eq_div_pow]

theorem toNat_exponentField : (exponentField b).toNat = b.toNat / 2 ^ 52 % 2 ^ 11 := by
  simp [exponentField, unpackExponent, shiftRight_eq_div_pow]

theorem toNat_mantissaField : (mantissaField b).toNat = b.toNat % 2 ^ 52 := by
  simp [mantissaField, unpackMantissa]

theorem toNat_packComponents (s : Sign) (e : BitVec 11) (m : BitVec 52) :
    (packComponents format s e m).toNat = s.toBitVec.toNat * 2 ^ 63 + e.toNat * 2 ^ 52 + m.toNat := by
  have he := e.isLt
  have hm := m.isLt
  rw [packComponents, BitVec.toNat_append, BitVec.toNat_append, ← shiftLeft_add_eq_or_of_lt hm,
    ← shiftLeft_add_eq_or_of_lt he, shiftLeft_eq, shiftLeft_eq]
  omega

theorem toBitVec_ofBitVec (t : BitVec 1) : (Sign.ofBitVec t).toBitVec = t := by
  revert t
  decide

theorem packComponents_fields : packComponents format (Sign.ofBitVec (signBit b)) (exponentField b) (mantissaField b) = b := by
  apply BitVec.eq_of_toNat_eq
  have hb := b.isLt
  rw [toNat_packComponents, toBitVec_ofBitVec, toNat_signBit, toNat_exponentField, toNat_mantissaField]
  omega

theorem eq_zero_iff {n : Nat} (x : BitVec n) : x = 0#n ↔ x.toNat = 0 := by
  rw [← BitVec.toNat_inj, BitVec.toNat_zero]

theorem eq_neg_one_iff (e : BitVec 11) : e = -1#11 ↔ e.toNat = 2047 := by
  rw [← BitVec.toNat_inj]
  rfl

theorem toNat_one_append (m : BitVec 52) : (1#1 ++ m).toNat = 2 ^ 52 + m.toNat := by
  rw [BitVec.toNat_append, ← shiftLeft_add_eq_or_of_lt m.isLt, shiftLeft_eq]
  rfl

end Parts

/-! ## Unpacking and packing -/

section Unpacking

variable {b : BitVec 64} {x : UnpackedFloat}

def sign (b : BitVec 64) : Sign := Sign.ofBitVec (signBit b)

/-- What a pattern stands for. -/
inductive Unpacks (b : BitVec 64) : UnpackedFloat → Prop
  | infinity (he : (exponentField b).toNat = 2047) (hm : (mantissaField b).toNat = 0) : Unpacks b (.infinity (sign b))
  | notANumber (he : (exponentField b).toNat = 2047) (hm : (mantissaField b).toNat ≠ 0) : Unpacks b .notANumber
  | zero (he : (exponentField b).toNat = 0) (hm : (mantissaField b).toNat = 0) : Unpacks b (.zero (sign b))
  | subnormal (he : (exponentField b).toNat = 0) (hm : 0 < (mantissaField b).toNat) :
      Unpacks b (.finite (sign b) (mantissaField b).toNat (-1074) hm)
  | normal (he : (exponentField b).toNat ≠ 0) (he' : (exponentField b).toNat ≠ 2047) :
      Unpacks b (.finite (sign b) (2 ^ 52 + (mantissaField b).toNat) ((exponentField b).toNat - 1075) (Nat.add_pos_left (Nat.two_pow_pos 52) _))

theorem finite_congr {s : Sign} {m m' : Nat} {e e' : Int} {h : 0 < m} (h' : 0 < m') (hm : m = m') (he : e = e') :
    UnpackedFloat.finite s m e h = .finite s m' e' h' := by
  subst hm he
  rfl

theorem unpacks (b : BitVec 64) : Unpacks b (unpack format b) := by
  change Unpacks b (if exponentField b = -1#11 then _ else if exponentField b = 0#11 then _ else _)
  split
  · rename_i he
    rw [eq_neg_one_iff] at he
    split <;> rename_i hm <;> rw [eq_zero_iff] at hm
    · exact .infinity he hm
    · exact .notANumber he hm
  · rename_i hinf
    rw [eq_neg_one_iff] at hinf
    split <;> rename_i he <;> rw [eq_zero_iff] at he
    · by_cases hm : mantissaField b = 0#52
      · exact (dif_pos hm).symm ▸ .zero he ((eq_zero_iff _).1 hm)
      · refine (dif_neg hm).symm ▸ ?_
        have hpos := Nat.pos_of_ne_zero fun h => hm ((eq_zero_iff _).2 h)
        refine finite_congr hpos rfl ?_ ▸ Unpacks.subnormal he hpos
        change _ = ((exponentField b).toNat : Int) - (1023 + 52) + 1
        rw [he]
        rfl
    · refine (finite_congr _ (toNat_one_append _).symm ?_) ▸ .normal he hinf
      rfl

/-- A number as it is unpacked: the mantissa has its leading bit, unless the exponent is the least one. -/
def Canonical : UnpackedFloat → Prop
  | .finite _ m e _ => m < 2 ^ 53 ∧ -1074 ≤ e ∧ e ≤ 971 ∧ (2 ^ 52 ≤ m ∨ e = -1074)
  | _ => True

theorem Unpacks.canonical (h : Unpacks b x) : Canonical x := by
  cases h with
  | infinity => trivial
  | notANumber => trivial
  | zero => trivial
  | subnormal => exact ⟨by omega, by decide, by decide, .inr rfl⟩
  | normal => exact ⟨by omega, by omega, by omega, .inl (by omega)⟩

theorem log2_of_leading {m : Nat} (h : 2 ^ 52 ≤ m) (h' : m < 2 ^ 53) : m.log2 = 52 := (log2_eq_iff (by omega)).2 ⟨h, h'⟩

theorem Unpacks.pack_eq (h : Unpacks b x) (hx : x ≠ .notANumber) : pack format x = b := by
  have hm := (mantissaField b).isLt
  have he := (exponentField b).isLt
  refine Eq.trans ?_ (packComponents_fields b)
  cases h with
  | infinity he hm =>
    rw [(eq_neg_one_iff _).2 he, (eq_zero_iff _).2 hm]
    rfl
  | notANumber => exact absurd rfl hx
  | zero he hm =>
    rw [(eq_zero_iff _).2 he, (eq_zero_iff _).2 hm]
    rfl
  | subnormal he0 hm0 =>
    have hlog : (mantissaField b).toNat.log2 < 52 := (Nat.log2_lt (by omega)).2 hm
    rw [(eq_zero_iff _).2 he0]
    simp only [pack]
    rw [if_neg, if_neg, BitVec.ofNat_toNat, BitVec.setWidth_eq]
    · rfl
    · change ¬ _ + 1 = 53
      omega
    · decide
  | normal he0 he1 =>
    have hlog : (2 ^ 52 + (mantissaField b).toNat).log2 = 52 := log2_of_leading (by omega) (by omega)
    have hbiased : (((exponentField b).toNat - 1075 : Int) + 1023 + 52).toNat = (exponentField b).toNat := by omega
    simp only [pack]
    change (if 2 ^ 11 ≤ (((exponentField b).toNat - 1075 : Int) + 1023 + 52).toNat + 1 then _ else
      if (2 ^ 52 + (mantissaField b).toNat).log2 + 1 = 53 then _ else _) = _
    rw [hbiased, hlog, if_neg (by omega), if_pos rfl]
    congr 1 <;> apply BitVec.eq_of_toNat_eq <;> rw [BitVec.toNat_ofNat]
    · change (((exponentField b).toNat - 1075 : Int) + 1023 + 52).toNat % 2 ^ 11 = _
      omega
    · omega

theorem Unpacks.eq_notANumber_iff (h : Unpacks b x) : x = .notANumber ↔ (exponentField b).toNat = 2047 ∧ (mantissaField b).toNat ≠ 0 := by
  cases h <;> simp_all

end Unpacking

/-! ## Rounding -/

section Rounding

variable {s : Sign} {m : Nat} {e : Int} {h : 0 < m}

theorem log2_mul_pow (h : 0 < m) (k : Nat) : (m * 2 ^ k).log2 = m.log2 + k := by
  induction k with
  | zero => simp
  | succ k ih =>
    have htwo : m * 2 ^ (k + 1) = 2 * (m * 2 ^ k) := by rw [Nat.pow_succ, Nat.mul_comm 2, Nat.mul_assoc]
    rw [htwo, Nat.log2_two_mul (Nat.ne_of_gt (Nat.mul_pos h (Nat.two_pow_pos k))), ih, Nat.add_assoc]

/-- Zeros behind the mantissa are shifted out without a trace. -/
theorem shiftRight_mul_pow (m k : Nat) : (⟨m * 2 ^ k, false, false⟩ : ExtendedMantissa) >>> k = ⟨m, false, false⟩ := by
  change k.repeat ExtendedMantissa.shiftRightOne _ = _
  induction k generalizing m with
  | zero => simp [Nat.repeat]
  | succ k ih =>
    have htwo : m * 2 ^ (k + 1) = m * 2 * 2 ^ k := by rw [pow_succ, mul_comm (2 ^ k), mul_assoc]
    rw [Nat.repeat, htwo, ih]
    simp [ExtendedMantissa.shiftRightOne]

/-- The exponent of a canonical number is the one that rounding aims at. -/
theorem Canonical.targetExponent_eq (hc : Canonical (.finite s m e h)) : format.targetExponent (totalExponent m e) = e := by
  obtain ⟨hm, hlow, -, hlead⟩ := hc
  have hlt : m.log2 < 53 := (log2_lt (by omega)).2 hm
  change max ((m.log2 : Int) + 1 + e - 53) (-1074) = e
  rcases hlead with hlead | rfl
  · rw [log2_of_leading hlead hm]
    omega
  · omega

theorem Canonical.shiftToTargetExponent_mul_pow (hc : Canonical (.finite s m e h)) (k : Nat) :
    shiftToTargetExponent format (m * 2 ^ k) (e - k) .exact = (⟨m, false, false⟩, e) := by
  have htotal : totalExponent (m * 2 ^ k) (e - k) = totalExponent m e := by
    rw [totalExponent, totalExponent, log2_mul_pow h]
    omega
  have hshift : (e - (e - k)).toNat = k := by omega
  unfold shiftToTargetExponent shiftToExponent
  dsimp only
  rw [htotal, hc.targetExponent_eq, hshift]
  exact Prod.ext (shiftRight_mul_pow m k) (Int.sub_add_cancel e k)

/-- A canonical number is rounded to itself, with any number of zeros behind its mantissa. -/
theorem Canonical.roundWithAccuracy_mul_pow (hc : Canonical (.finite s m e h)) (k : Nat) :
    roundWithAccuracy format s (m * 2 ^ k) (e - k) .exact = .finite s m e h := by
  -- what was rounded is shifted once more, by nothing
  have hagain := hc.shiftToTargetExponent_mul_pow 0
  rw [pow_zero, mul_one, Int.natCast_zero, Int.sub_zero] at hagain
  unfold roundWithAccuracy
  rw [hc.shiftToTargetExponent_mul_pow k]
  change (match shiftToTargetExponent format m e .exact with
    | (em, e') => if hz : em.mantissa = 0 then UnpackedFloat.zero s
      else .finite s em.mantissa e' (pos_of_ne_zero hz)) = _
  rw [hagain]
  exact dif_neg (ne_of_gt h)

end Rounding

/-! ## Products -/

/-- One, unpacked. -/
def one : UnpackedFloat := .finite .positive (2 ^ 52) (-52) (Nat.two_pow_pos 52)

theorem sign_mul_comm (s t : Sign) : s * t = t * s := by
  cases s <;> cases t <;> rfl

theorem sign_mul_positive (s : Sign) : s * .positive = s := by
  cases s <;> rfl

theorem mul_comm (x y : UnpackedFloat) : .mul format x y = UnpackedFloat.mul format y x := by
  cases x <;> cases y <;> simp only [UnpackedFloat.mul, sign_mul_comm, Nat.mul_comm, Int.add_comm]

theorem Canonical.mul_one {x : UnpackedFloat} (hc : Canonical x) : .mul format x one = x := by
  cases x with
  | infinity s => exact congrArg _ (sign_mul_positive s)
  | notANumber => rfl
  | zero s => exact congrArg _ (sign_mul_positive s)
  | finite s m e h =>
    change roundWithAccuracy format (s * .positive) (m * 2 ^ 52) (e - (52 : Nat)) .exact = _
    rw [sign_mul_positive]
    exact hc.roundWithAccuracy_mul_pow 52

theorem eq_one_of_beq {x : UnpackedFloat} (h : x.beq one = true) : x = one := by
  rw [UnpackedFloat.beq, one] at h
  cases x with
  | infinity s => cases s <;> cases h
  | notANumber => cases h
  | zero s => cases s <;> cases h
  | finite s m e _ =>
    cases s with
    | negative => cases h
    | positive =>
      simp only [UnpackedFloat.compare, beq_iff_eq, Option.some.injEq, Ordering.then_eq_eq, Int.compare_eq_eq, Nat.compare_eq_eq] at h
      exact finite_congr _ h.2 h.1

/-! ## Order -/

theorem swap_compare_then (e e' : Int) (m m' : Nat) : ((compare e e').then (compare m m')).swap = (compare e' e).then (compare m' m) := by
  rw [Ordering.swap_then, Int.compare_swap, Nat.compare_swap]

theorem compare_swap (x y : UnpackedFloat) : y.compare x = (x.compare y).map .swap := by
  rcases x with (_ | _) | _ | _ | ⟨_ | _, m, e, _⟩ <;> rcases y with (_ | _) | _ | _ | ⟨_ | _, m', e', _⟩ <;> try rfl
  · exact congrArg (fun o => some o.swap) (swap_compare_then e e' m m').symm
  · exact congrArg some (swap_compare_then e e' m m').symm

theorem compare_eq_none_iff (x y : UnpackedFloat) : x.compare y = none ↔ x = .notANumber ∨ y = .notANumber := by
  rcases x with (_ | _) | _ | _ | ⟨_ | _, _, _, _⟩ <;> rcases y with (_ | _) | _ | _ | ⟨_ | _, _, _, _⟩ <;>
    simp [UnpackedFloat.compare]

theorem compare_zero (s t : UnpackedFloat.Sign) (y : UnpackedFloat) : (UnpackedFloat.zero s).compare y = (UnpackedFloat.zero t).compare y := by
  rcases y with (_ | _) | _ | _ | ⟨_ | _, _, _, _⟩ <;> rfl

end Binary64

variable {d : Double}

namespace Double

open Float.Model (UnpackedFloat)
open Binary64

/-! ## Doubles as data -/

/-- The number that a double stands for. -/
def unpacked (d : Double) : UnpackedFloat := UnpackedFloat.unpack format d.bits.toBitVec

theorem unpacks (d : Double) : Unpacks d.bits.toBitVec d.unpacked := Binary64.unpacks _

theorem isNaN_iff (d : Double) : d.isNaN = true ↔ d.unpacked = .notANumber := by
  rw [d.unpacks.eq_notANumber_iff, toNat_exponentField, toNat_mantissaField, isNaN, exponentBits, fraction,
    Bool.and_eq_true, decide_eq_true_iff, decide_eq_true_iff]
  rfl

theorem pack_unpacked (h : d.isNaN = false) : UnpackedFloat.pack format d.unpacked = d.bits.toBitVec :=
  d.unpacks.pack_eq fun e => by simp [(isNaN_iff d).2 e] at h

theorem eq_of_toBitVec {a b : Double} (h : a.bits.toBitVec = b.bits.toBitVec) : a = b := congrArg Double.mk (UInt64.toBitVec_inj.1 h)

/-- The machine works on the number that a double stands for. -/
theorem unpack_ofBits (d : Double) : (Float.Model.ofBits d.bits).unpack = d.unpacked := by
  change UnpackedFloat.unpack format (UnpackedFloat.pack format d.unpacked) = _
  by_cases h : d.unpacked = .notANumber
  · rw [h]
    rfl
  · rw [d.unpacks.pack_eq h]
    rfl

variable (a b : Double)

theorem bits_mul : (a.mul b).bits.toBitVec = UnpackedFloat.pack format (.mul format a.unpacked b.unpacked) := by
  rw [← unpack_ofBits a, ← unpack_ofBits b]
  rfl

protected theorem mul_comm : a.mul b = b.mul a := eq_of_toBitVec (by rw [bits_mul, bits_mul, Binary64.mul_comm])

/-! ## One -/

theorem unpacked_one : (ofInt 1).unpacked = one := by
  have hbits : ofInt 1 = ⟨0x3FF0000000000000⟩ := by decide +kernel
  rw [hbits]
  rfl

theorem unpacked_of_numEq_one (h : d.numEq (ofInt 1) = true) : d.unpacked = one := by
  change UnpackedFloat.beq (Float.Model.ofBits d.bits).unpack (Float.Model.ofBits (ofInt 1).bits).unpack = true at h
  rw [unpack_ofBits, unpack_ofBits, unpacked_one] at h
  exact eq_one_of_beq h

/-- The same double, where all that are no number are the same. -/
def Same (a b : Double) : Prop := a = b ∨ a.isNaN = true ∧ b.isNaN = true

theorem mul_same (h : d.numEq (ofInt 1) = true) : (a.mul d).Same a := by
  have hbits := bits_mul a d
  rw [unpacked_of_numEq_one h, a.unpacks.canonical.mul_one] at hbits
  cases hn : a.isNaN with
  | false => exact .inl (eq_of_toBitVec (hbits.trans (pack_unpacked hn)))
  | true =>
    refine .inr ⟨(isNaN_iff _).2 ?_, hn⟩
    rw [unpacked, hbits, (isNaN_iff a).1 hn]
    rfl

/-! ## Order -/

theorem numEq_eq : a.numEq b = (a.unpacked.compare b.unpacked == some .eq) := by
  rw [← unpack_ofBits a, ← unpack_ofBits b]
  rfl

theorem lt_eq : a.lt b = (a.unpacked.compare b.unpacked == some .lt) := by
  have h : (Float.Model.ofBits a.bits).unpack.lt (Float.Model.ofBits b.bits).unpack = true ↔ a.toFloat < b.toFloat := by
    exact decide_eq_true_iff.symm
  rw [← unpack_ofBits a, ← unpack_ofBits b, Bool.eq_iff_iff, lt, decide_eq_true_iff, ← h]
  rfl

theorem le_eq : a.le b = (a.unpacked.compare b.unpacked).any Ordering.isLE := by
  have h : (Float.Model.ofBits a.bits).unpack.le (Float.Model.ofBits b.bits).unpack = true ↔ a.toFloat ≤ b.toFloat := by
    exact decide_eq_true_iff.symm
  rw [← unpack_ofBits a, ← unpack_ofBits b, Bool.eq_iff_iff, le, decide_eq_true_iff, ← h]
  rfl

theorem numEq_comm : a.numEq b = b.numEq a := by
  rw [numEq_eq, numEq_eq, Binary64.compare_swap a.unpacked]
  rcases a.unpacked.compare b.unpacked with _ | _ | _ | _ <;> rfl

/-- One of two doubles is no number. -/
def Unordered (a b : Double) : Prop := a.isNaN = true ∨ b.isNaN = true

theorem unordered_iff : a.Unordered b ↔ a.unpacked.compare b.unpacked = none := by
  rw [Binary64.compare_eq_none_iff, Unordered, isNaN_iff, isNaN_iff]

theorem lt_of_unordered {a b : Double} (h : a.Unordered b) : a.lt b = false := by
  rw [lt_eq, (unordered_iff a b).1 h]
  rfl

theorem le_of_unordered {a b : Double} (h : a.Unordered b) : a.le b = false := by
  rw [le_eq, (unordered_iff a b).1 h]
  rfl

theorem lt_eq_not_le {a b : Double} (h : ¬ a.Unordered b) : a.lt b = !b.le a := by
  rw [unordered_iff] at h
  rw [lt_eq, le_eq, Binary64.compare_swap a.unpacked]
  rcases hc : a.unpacked.compare b.unpacked with _ | _ | _ | _
  · exact absurd hc h
  all_goals rfl

theorem le_eq_not_lt {a b : Double} (h : ¬ a.Unordered b) : a.le b = !b.lt a := by
  rw [lt_eq_not_le fun h' => h h'.symm, Bool.not_not]

theorem exists_unpacked_zero (h : d.isZero = true) : ∃ s, d.unpacked = .zero s := by
  rw [isZero, Bool.and_eq_true, decide_eq_true_iff, decide_eq_true_iff, exponentBits, fraction] at h
  obtain ⟨he, hm⟩ := h
  rw [← UInt64.toNat_toBitVec] at he hm
  have hu := d.unpacks
  have he : (exponentField d.bits.toBitVec).toNat = 0 := (toNat_exponentField _).trans he
  have hm : (mantissaField d.bits.toBitVec).toNat = 0 := (toNat_mantissaField _).trans hm
  generalize d.unpacked = x at hu
  cases hu with
  | zero => exact ⟨_, rfl⟩
  | infinity he' => omega
  | notANumber he' => omega
  | subnormal _ hm' => omega
  | normal he' => exact absurd he he'

theorem compare_of_isZero {a b : Double} (ha : a.isZero = true) (hb : b.isZero = true) (c : Double) :
    a.numEq c = b.numEq c ∧ a.lt c = b.lt c ∧ a.le c = b.le c ∧ c.lt a = c.lt b ∧ c.le a = c.le b := by
  obtain ⟨s, ha⟩ := exists_unpacked_zero ha
  obtain ⟨t, hb⟩ := exists_unpacked_zero hb
  have left : a.unpacked.compare c.unpacked = b.unpacked.compare c.unpacked := by rw [ha, hb, Binary64.compare_zero s t]
  have right : c.unpacked.compare a.unpacked = c.unpacked.compare b.unpacked := by
    rw [Binary64.compare_swap a.unpacked, left, ← Binary64.compare_swap]
  simp only [numEq_eq, lt_eq, le_eq, left, right, and_self]

end Double
end FlowCompiler
