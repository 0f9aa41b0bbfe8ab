import Mathlib.Data.Int.Bitwise
import FlowCompiler.Proofs.Intervals
import FlowCompiler.Proofs.Integers.Facts

/-!
# Arithmetic on ranges of integers

The range of a result holds the exact results of all values of the operands that are words.  Sums, differences and
products are bounded by those of the ends; of the other operations something is known only for operands that are not
negative.  Both ways to compute a range are monotone, and a larger operand never has the better of the two.
-/

namespace FlowCompiler

open Option Int
namespace IntFact

/-! ## Exact results -/

/-- The exact result of an operation on two integers, when it has one: quotients and remainders are those of the
division that rounds down, and bits are those of the two's complement. -/
def exactResult? (op : String) (x y : Int) : Option Int :=
  match op with
  | "add" | "inplace_add" | "add_ovf" => some (x + y)
  | "sub" | "inplace_sub" | "sub_ovf" => some (x - y)
  | "mul" | "inplace_mul" | "mul_ovf" => some (x * y)
  | "floordiv" | "div" => if y = 0 then none else some (x.fdiv y)
  | "mod" => if y = 0 then none else some (x.fmod y)
  | "and_" => some (x.land y)
  | "or_" => some (x.lor y)
  | "xor" => some (Int.xor x y)
  | "lshift" => if y < 0 then none else some (x * 2 ^ y.toNat)
  | "rshift" => if y < 0 then none else some (x.fdiv (2 ^ y.toNat))
  | _ => none

/-- The exact result of an operation on one integer. -/
def exactUnary? (op : String) (x : Int) : Option Int :=
  match op with
  | "pos" => some x
  | "neg" => some (-x)
  | "abs" => some x.natAbs
  | "invert" => some x.lnot
  | _ => none

end IntFact
namespace Range

variable {a a' b b' r : Range} {x y : Int}

theorem ofEnds?_eq_some_iff {lo hi : Int} : ofEnds? lo hi = some r ↔ IsWord lo ∧ IsWord hi ∧ ⟨lo, hi⟩ = r := by
  simp only [ofEnds?, Bool.and_eq_true, isWord_iff, ite_none_right_eq_some, some.injEq, and_assoc]

/-! ### Products -/

/-- The range from the least to the greatest product of two ends. -/
def corners (a b : Range) : Range :=
  ⟨min (min (min (a.lo * b.lo) (a.lo * b.hi)) (a.hi * b.lo)) (a.hi * b.hi), max (max (max (a.lo * b.lo) (a.lo * b.hi)) (a.hi * b.lo)) (a.hi * b.hi)⟩

/-- All products of two ends are words. -/
def CornersFit (a b : Range) : Prop := IsWord (a.lo * b.lo) ∧ IsWord (a.lo * b.hi) ∧ IsWord (a.hi * b.lo) ∧ IsWord (a.hi * b.hi)

theorem mulRange?_eq_some_iff : IntFact.mulRange? a b = some r ↔ CornersFit a b ∧ corners a b = r := by
  simp only [IntFact.mulRange?, List.all_cons, List.all_nil, Bool.and_true, Bool.and_eq_true, isWord_iff, List.foldl_cons,
    List.foldl_nil, min_self, max_self, ite_none_right_eq_some, some.injEq, CornersFit, corners]

/-- Every product lies between products of ends. -/
theorem mul_mem_corners (hx : x ∈ a) (hy : y ∈ b) : x * y ∈ corners a b := by
  have first := Trace.Bound.mul_extremal_right hx y
  have second (u : Int) := Trace.Bound.mul_extremal hy u
  have low := Trace.Bound.corner_le (f := (· * ·)) first.1 fun u => (second u).1
  have high := Trace.Bound.corner_le (f := fun u v => -(u * v)) (first.2.imp Int.neg_le_neg Int.neg_le_neg) fun u =>
    (second u).2.imp Int.neg_le_neg Int.neg_le_neg
  simp only [Int.neg_le_neg_iff] at high
  simp only [mem_iff, corners]
  omega

theorem lo_mem (h : r.lo ≤ r.hi) : r.lo ∈ r := ⟨le_refl _, h⟩

theorem hi_mem (h : r.lo ≤ r.hi) : r.hi ∈ r := ⟨h, le_refl _⟩

theorem words_corners (h : CornersFit a b) : (corners a b).Words := by
  obtain ⟨⟨_, _⟩, ⟨_, _⟩, ⟨_, _⟩, ⟨_, _⟩⟩ := h
  simp only [Words, IsWord, corners]
  omega

theorem mem_of_contains (h : a'.contains a = true) (hx : x ∈ a) : x ∈ a' := by
  rw [contains_iff] at h
  exact ⟨le_trans h.1 hx.1, le_trans hx.2 h.2⟩

/-- Smaller ranges have products inside. -/
theorem corners_mono (ha : a.lo ≤ a.hi) (hb : b.lo ≤ b.hi) (hca : a'.contains a = true) (hcb : b'.contains b = true) :
    (corners a' b').contains (corners a b) = true ∧ (CornersFit a' b' → CornersFit a b) := by
  have inside {u v : Int} (hu : u ∈ a) (hv : v ∈ b) : u * v ∈ corners a' b' := mul_mem_corners (mem_of_contains hca hu) (mem_of_contains hcb hv)
  have hll := inside (lo_mem ha) (lo_mem hb)
  have hlh := inside (lo_mem ha) (hi_mem hb)
  have hhl := inside (hi_mem ha) (lo_mem hb)
  have hhh := inside (hi_mem ha) (hi_mem hb)
  constructor
  · rw [mem_iff] at hll hlh hhl hhh
    rw [contains_iff]
    constructor
    · conv_rhs => rw [corners]
      exact le_min (le_min (le_min hll.1 hlh.1) hhl.1) hhh.1
    · conv_lhs => rw [corners]
      exact max_le (max_le (max_le hll.2 hlh.2) hhl.2) hhh.2
  · intro h
    have hw := words_corners h
    exact ⟨hw.isWord hll, hw.isWord hlh, hw.isWord hhl, hw.isWord hhh⟩

variable {o o' : Option Range} {c c' : Bool}

end Range
namespace IntFact

/-! ### Bits -/

theorem ldiff_le (m n : Nat) : Nat.ldiff m n ≤ m := by
  have h : Nat.ldiff m n &&& m = Nat.ldiff m n := by
    refine Nat.eq_of_testBit_eq fun i => ?_
    rw [Nat.testBit_and, Nat.testBit_ldiff]
    cases m.testBit i <;> simp
  rw [← h]
  exact Nat.and_le_right

variable {x y : Int}

theorem land_mem_left (y : Int) (h : 0 ≤ x) : 0 ≤ x.land y ∧ x.land y ≤ x := by
  obtain ⟨m, rfl⟩ := eq_ofNat_of_zero_le h
  cases y with
  | ofNat n => exact ⟨natCast_nonneg _, ofNat_le.2 Nat.and_le_left⟩
  | negSucc n => exact ⟨natCast_nonneg _, ofNat_le.2 (ldiff_le m n)⟩

theorem land_mem_right (x : Int) (h : 0 ≤ y) : 0 ≤ x.land y ∧ x.land y ≤ y := by
  obtain ⟨n, rfl⟩ := eq_ofNat_of_zero_le h
  cases x with
  | ofNat m => exact ⟨natCast_nonneg _, ofNat_le.2 Nat.and_le_right⟩
  | negSucc m => exact ⟨natCast_nonneg _, ofNat_le.2 (ldiff_le n m)⟩

theorem lor_nonneg (hx : 0 ≤ x) (hy : 0 ≤ y) : 0 ≤ x.lor y := by
  obtain ⟨m, rfl⟩ := eq_ofNat_of_zero_le hx
  obtain ⟨n, rfl⟩ := eq_ofNat_of_zero_le hy
  exact natCast_nonneg _

theorem xor_nonneg (hx : 0 ≤ x) (hy : 0 ≤ y) : 0 ≤ Int.xor x y := by
  obtain ⟨m, rfl⟩ := eq_ofNat_of_zero_le hx
  obtain ⟨n, rfl⟩ := eq_ofNat_of_zero_le hy
  exact natCast_nonneg _

/-! ## The range of a binary operation -/

/-- A range of an operation: it has a value, and it holds the exact results that are words. -/
structure Encloses (op : String) (a b : IntFact) (r : Range) : Prop where
  words : r.Words
  inhabited : r.lo ≤ r.hi
  exact : ∀ x ∈ a, ∀ y ∈ b, ∀ z ∈ exactResult? op x y, Range.IsWord z → z ∈ r

/-- A range that is computed, or the one that is known of operands that are not negative. -/
theorem orElse_eq_some_iff {r s : Range} : (o <|> if c then some s else none) = some r ↔ o = some r ∨ o = none ∧ c = true ∧ s = r := by
  cases o <;> simp

section Signed

variable {a b a' b' : IntFact} {op : String} {r : Range} (ha : a.Valid) (hb : b.Valid) (sa : a.unsigned = false) (sb : b.unsigned = false)
include ha hb sa sb

theorem both_nonneg_iff : (a.nonneg && b.nonneg) = true ↔ 0 ≤ a.getRange.lo ∧ 0 ≤ b.getRange.lo := by
  rw [Bool.and_eq_true, ha.proper.nonneg_iff sa, hb.proper.nonneg_iff sb]

theorem encloses_nonneg (hop : ∀ x y : Int, 0 ≤ x → 0 ≤ y → ∀ z ∈ exactResult? op x y, 0 ≤ z) (h : (a.nonneg && b.nonneg) = true) :
    Encloses op a b .nonneg where
  words := Range.words_nonneg
  inhabited := by decide
  exact x hx y hy z hz hw := by
    obtain ⟨ha₀, hb₀⟩ := (both_nonneg_iff ha hb sa sb).1 h
    exact (Range.mem_nonneg hw).2 (hop x y (le_trans ha₀ hx.1) (le_trans hb₀ hy.1) z hz)

theorem encloses_add (hop : ∀ x y, exactResult? op x y = some (x + y))
    (h : (Range.ofEnds? (a.getRange.lo + b.getRange.lo) (a.getRange.hi + b.getRange.hi) <|>
      if a.nonneg && b.nonneg then some .nonneg else none) = some r) : Encloses op a b r := by
  rcases orElse_eq_some_iff.1 h with h | ⟨-, h₀, rfl⟩
  · obtain ⟨hlo, hhi, rfl⟩ := Range.ofEnds?_eq_some_iff.1 h
    refine ⟨⟨hlo, hhi⟩, add_le_add ha.inhabited hb.inhabited, fun x hx y hy z hz _ => ?_⟩
    obtain rfl : x + y = z := by simpa [hop] using hz
    exact ⟨add_le_add hx.1 hy.1, add_le_add hx.2 hy.2⟩
  · refine encloses_nonneg ha hb sa sb (fun x y hx hy z hz => ?_) h₀
    obtain rfl : x + y = z := by simpa [hop] using hz
    exact add_nonneg hx hy

omit sa sb in
theorem encloses_sub (hop : ∀ x y, exactResult? op x y = some (x - y))
    (h : Range.ofEnds? (a.getRange.lo - b.getRange.hi) (a.getRange.hi - b.getRange.lo) = some r) : Encloses op a b r := by
  obtain ⟨hlo, hhi, rfl⟩ := Range.ofEnds?_eq_some_iff.1 h
  refine ⟨⟨hlo, hhi⟩, Int.sub_le_sub ha.inhabited hb.inhabited, fun x hx y hy z hz _ => ?_⟩
  obtain rfl : x - y = z := by simpa [hop] using hz
  exact ⟨Int.sub_le_sub hx.1 hy.2, Int.sub_le_sub hx.2 hy.1⟩

theorem encloses_mul (hop : ∀ x y, exactResult? op x y = some (x * y))
    (h : (mulRange? a.getRange b.getRange <|> if a.nonneg && b.nonneg then some .nonneg else none) = some r) :
    Encloses op a b r := by
  rcases orElse_eq_some_iff.1 h with h | ⟨-, h₀, rfl⟩
  · obtain ⟨hfit, rfl⟩ := Range.mulRange?_eq_some_iff.1 h
    have corner := Range.mul_mem_corners (Range.lo_mem ha.inhabited) (Range.lo_mem hb.inhabited)
    refine ⟨Range.words_corners hfit, Int.le_trans corner.1 corner.2, fun x hx y hy z hz _ => ?_⟩
    obtain rfl : x * y = z := by simpa [hop] using hz
    exact Range.mul_mem_corners hx hy
  · refine encloses_nonneg ha hb sa sb (fun x y hx hy z hz => ?_) h₀
    obtain rfl : x * y = z := by simpa [hop] using hz
    exact Int.mul_nonneg hx hy

/-- The result of an operation on operands that are not negative is not above a bound that is a word. -/
theorem encloses_below {hi : Int} (h : (if a.nonneg && b.nonneg then some ⟨0, hi⟩ else none) = some r)
    (hhi : 0 ≤ a.getRange.lo → 0 ≤ b.getRange.lo → 0 ≤ hi ∧ hi ≤ a.getRange.hi)
    (hop : 0 ≤ a.getRange.lo → 0 ≤ b.getRange.lo → ∀ x ∈ a, ∀ y ∈ b, ∀ z ∈ exactResult? op x y, 0 ≤ z ∧ z ≤ hi) : Encloses op a b r := by
  obtain ⟨h₀, e⟩ := ite_none_right_eq_some.1 h
  obtain rfl : (⟨0, hi⟩ : Range) = r := some.inj e
  obtain ⟨ha₀, hb₀⟩ := (both_nonneg_iff ha hb sa sb).1 h₀
  obtain ⟨hi₀, hle⟩ := hhi ha₀ hb₀
  have hw := ha.proper.words.2.2
  refine ⟨⟨show Range.IsWord 0 by decide, ?_, le_trans hle hw⟩, hi₀, fun x hx y hy z hz _ => hop ha₀ hb₀ x hx y hy z hz⟩
  exact le_trans (by decide) hi₀

/-- Quotients, and what is left of the bits after a shift. -/
theorem encloses_quotient (h : (if a.nonneg && b.nonneg then some ⟨0, a.getRange.hi⟩ else none) = some r)
    (hop : ∀ x y : Int, 0 ≤ x → 0 ≤ y → ∀ z ∈ exactResult? op x y, 0 ≤ z ∧ z ≤ x) : Encloses op a b r := by
  have hle := ha.inhabited
  refine encloses_below ha hb sa sb h (fun ha₀ _ => ⟨by omega, le_rfl⟩) fun ha₀ hb₀ x hx y hy z hz => ?_
  obtain ⟨hz₀, hzx⟩ := hop x y (le_trans ha₀ hx.1) (le_trans hb₀ hy.1) z hz
  exact ⟨hz₀, le_trans hzx hx.2⟩

theorem encloses_mod (h : (if a.nonneg && b.nonneg then some ⟨0, min a.getRange.hi (max (b.getRange.hi - 1) 0)⟩ else none) = some r) :
    Encloses "mod" a b r := by
  have hle := ha.inhabited
  refine encloses_below ha hb sa sb h (fun ha₀ _ => by omega) fun ha₀ hb₀ x hx y hy z hz => ?_
  have hx₀ := Int.le_trans ha₀ hx.1
  have hy₀ := Int.le_trans hb₀ hy.1
  obtain ⟨hy', rfl⟩ : y ≠ 0 ∧ x.fmod y = z := by simpa [exactResult?] using hz
  rw [Int.fmod_eq_emod_of_nonneg x hy₀]
  have hpos := Int.emod_nonneg x hy'
  have hlt := Int.emod_lt_of_pos x (lt_of_le_of_ne hy₀ hy'.symm)
  have hself : x % y ≤ x := by
    have := Int.mul_nonneg hy₀ (Int.ediv_nonneg hx₀ hy₀)
    have := Int.mul_ediv_add_emod x y
    omega
  have := hx.2
  have := hy.2
  omega

theorem encloses_and (h : (if a.nonneg && b.nonneg then some ⟨0, min a.getRange.hi b.getRange.hi⟩
      else if a.nonneg then some ⟨0, a.getRange.hi⟩ else if b.nonneg then some ⟨0, b.getRange.hi⟩ else none) = some r) :
    Encloses "and_" a b r := by
  -- A bound that is not negative bounds the result, whatever the other operand is.
  have left (h₀ : a.nonneg = true) : Encloses "and_" a b ⟨0, a.getRange.hi⟩ := by
    have hle := ha.inhabited
    rw [ha.proper.nonneg_iff sa] at h₀
    refine ⟨⟨show Range.IsWord 0 by decide, ha.proper.words.2⟩, le_trans h₀ hle, fun x hx y hy z hz _ => ?_⟩
    obtain rfl : x.land y = z := some.inj hz
    obtain ⟨hz₀, hzx⟩ := land_mem_left y (le_trans h₀ hx.1)
    exact ⟨hz₀, le_trans hzx hx.2⟩
  have right (h₀ : b.nonneg = true) : Encloses "and_" a b ⟨0, b.getRange.hi⟩ := by
    have hle := hb.inhabited
    rw [hb.proper.nonneg_iff sb] at h₀
    refine ⟨⟨show Range.IsWord 0 by decide, hb.proper.words.2⟩, le_trans h₀ hle, fun x hx y hy z hz _ => ?_⟩
    obtain rfl : x.land y = z := some.inj hz
    obtain ⟨hz₀, hzy⟩ := land_mem_right x (le_trans h₀ hy.1)
    exact ⟨hz₀, le_trans hzy hy.2⟩
  split at h
  · rename_i h₀
    obtain rfl := some.inj h
    rw [Bool.and_eq_true] at h₀
    have l := left h₀.1
    have r := right h₀.2
    refine ⟨⟨l.words.1, ?_⟩, le_min l.inhabited r.inhabited, fun x hx y hy z hz hw => ?_⟩
    · rcases le_total a.getRange.hi b.getRange.hi with hle | hle
      · simpa only [min_eq_left hle] using l.words.2
      · simpa only [min_eq_right hle] using r.words.2
    · have hl := l.exact x hx y hy z hz hw
      exact ⟨hl.1, le_min hl.2 (r.exact x hx y hy z hz hw).2⟩
  · split at h
    · obtain rfl := some.inj h
      exact left ‹_›
    · obtain ⟨h₀, e⟩ := ite_none_right_eq_some.1 h
      obtain rfl := some.inj e
      exact right h₀

theorem encloses_arithRange? (h : arithRange? op a b = some r) : Encloses op a b r := by
  unfold arithRange? at h
  split at h
  case h_1 | h_2 | h_3 => exact encloses_add ha hb sa sb (fun _ _ => rfl) h
  case h_4 | h_5 | h_6 => exact encloses_sub ha hb (fun _ _ => rfl) h
  case h_7 | h_8 | h_9 => exact encloses_mul ha hb sa sb (fun _ _ => rfl) h
  case h_10 | h_11 =>
    refine encloses_quotient ha hb sa sb h fun x y hx hy z hz => ?_
    obtain ⟨hy', rfl⟩ : y ≠ 0 ∧ x.fdiv y = z := by simpa [exactResult?] using hz
    rw [Int.fdiv_eq_ediv_of_nonneg x hy]
    exact ⟨Int.ediv_nonneg hx hy, Int.ediv_le_self y hx⟩
  case h_12 =>
    refine encloses_quotient ha hb sa sb h fun x y hx hy z hz => ?_
    obtain ⟨-, rfl⟩ : 0 ≤ y ∧ x.fdiv (2 ^ y.toNat) = z := by simpa [exactResult?] using hz
    have hpow : (0 : Int) ≤ 2 ^ y.toNat := Int.pow_nonneg (by decide)
    rw [Int.fdiv_eq_ediv_of_nonneg x hpow]
    exact ⟨Int.ediv_nonneg hx hpow, Int.ediv_le_self _ hx⟩
  case h_13 => exact encloses_mod ha hb sa sb h
  case h_14 => exact encloses_and ha hb sa sb h
  case h_15 =>
    obtain ⟨h₀, e⟩ := ite_none_right_eq_some.1 h
    obtain rfl := some.inj e
    refine encloses_nonneg ha hb sa sb (fun x y hx hy z hz => ?_) h₀
    obtain rfl : x.lor y = z := some.inj hz
    exact lor_nonneg hx hy
  case h_16 =>
    obtain ⟨h₀, e⟩ := ite_none_right_eq_some.1 h
    obtain rfl := some.inj e
    refine encloses_nonneg ha hb sa sb (fun x y hx hy z hz => ?_) h₀
    obtain rfl : Int.xor x y = z := some.inj hz
    exact xor_nonneg hx hy
  case h_17 => cases h

omit ha hb in
theorem arith_eq_make (op : String) : ∃ c, a.arith op b = make c false (max a.bits b.bits) ((arithRange? op a b).getD .full) ∧
    ∀ n ∈ c, (arithRange? op a b).getD .full = ⟨n, n⟩ := by
  unfold arith
  simp only [sa, sb, Bool.or_self, Bool.false_eq_true, if_false]
  cases arithRange? op a b with
  | none => exact ⟨none, rfl, nofun⟩
  | some r => exact exists_make_of_ends _ r (a.const.isSome && b.const.isSome)

/-- The range of a signed result, which is that of all words when nothing is known. -/
theorem encloses_getD (op : String) : Encloses op a b ((arithRange? op a b).getD .full) := by
  cases h : arithRange? op a b with
  | none => exact ⟨Range.words_full, by decide, fun _ _ _ _ _ _ hw => hw⟩
  | some r => exact encloses_arithRange? ha hb sa sb h

omit ha hb in
theorem getRange_arith (op : String) : (a.arith op b).getRange = (arithRange? op a b).getD .full := by
  obtain ⟨c, e, -⟩ := arith_eq_make sa sb op
  rw [e, getRange_make]

theorem valid_arith_signed (op : String) : (a.arith op b).Valid := by
  obtain ⟨c, e, hc⟩ := arith_eq_make sa sb op
  have h := encloses_getD ha hb sa sb op
  rw [e]
  exact valid_make _ h.words h.inhabited hc

end Signed

/-! ## Larger operands -/

/-- Where the second of two computed ranges is known, the first one is known, too, and lies inside. -/
def Narrows (o o' : Option Range) : Prop := ∀ r' ∈ o', ∃ r ∈ o, r'.contains r = true

theorem narrows_ite {r r' : Range} (hc : c' = true → c = true) (h : c' = true → r'.contains r = true) :
    Narrows (if c then some r else none) (if c' then some r' else none) := by
  intro q hq
  obtain ⟨hc', e⟩ := ite_none_right_eq_some.1 hq
  obtain rfl := some.inj e
  exact ⟨r, if_pos (hc hc'), h hc'⟩

/-- What is known of operands that are not negative is less than what is computed for smaller ones. -/
theorem narrows_orElse (ho : Narrows o o') (hc : c' = true → c = true) (h : c' = true → ∀ r ∈ o, Range.nonneg.contains r = true) :
    Narrows (o <|> if c then some .nonneg else none) (o' <|> if c' then some .nonneg else none) := by
  intro r' hr'
  rcases orElse_eq_some_iff.1 hr' with hr' | ⟨-, hc', rfl⟩
  · obtain ⟨r, hr, hle⟩ := ho r' hr'
    exact ⟨r, orElse_eq_some_iff.2 (.inl hr), hle⟩
  · cases hr : o with
    | none => exact ⟨.nonneg, orElse_eq_some_iff.2 (.inr ⟨rfl, hc hc', rfl⟩), by decide⟩
    | some r => exact ⟨r, rfl, h hc' r hr⟩

theorem narrows_ends {lo hi lo' hi' : Int} (hlo : lo' ≤ lo) (hle : lo ≤ hi) (hhi : hi ≤ hi') :
    Narrows (Range.ofEnds? lo hi) (Range.ofEnds? lo' hi') := by
  intro r' hr'
  obtain ⟨wlo, whi, rfl⟩ := Range.ofEnds?_eq_some_iff.1 hr'
  have hwords : Range.Words ⟨lo', hi'⟩ := ⟨wlo, whi⟩
  refine ⟨⟨lo, hi⟩, Range.ofEnds?_eq_some_iff.2 ⟨?_, ?_, rfl⟩, Range.contains_iff.2 ⟨hlo, hhi⟩⟩
  · exact hwords.isWord ⟨hlo, le_trans hle hhi⟩
  · exact hwords.isWord ⟨le_trans hlo hle, hhi⟩

theorem narrows_mulRange? {r s r' s' : Range} (hr : r.lo ≤ r.hi) (hs : s.lo ≤ s.hi) (hcr : r'.contains r = true)
    (hcs : s'.contains s = true) : Narrows (mulRange? r s) (mulRange? r' s') := by
  intro q hq
  obtain ⟨hfit, rfl⟩ := Range.mulRange?_eq_some_iff.1 hq
  obtain ⟨hle, hsmall⟩ := Range.corners_mono hr hs hcr hcs
  exact ⟨_, Range.mulRange?_eq_some_iff.2 ⟨hsmall hfit, rfl⟩, hle⟩

/-- The bits that two operands have in common, of which one or both may be known not to be negative. -/
theorem narrows_and {na nb na' nb' : Bool} {ha hb ha' hb' : Int} (hna : na' = true → na = true) (hnb : nb' = true → nb = true) (hleft : ha ≤ ha')
    (hright : hb ≤ hb') : Narrows (if na && nb then some ⟨0, min ha hb⟩ else if na then some ⟨0, ha⟩ else if nb then some ⟨0, hb⟩ else none)
      (if na' && nb' then some ⟨0, min ha' hb'⟩ else if na' then some ⟨0, ha'⟩ else if nb' then some ⟨0, hb'⟩ else none) := by
  intro r' hr'
  have inside {hi hi' : Int} (h : hi ≤ hi') : Range.contains ⟨0, hi'⟩ ⟨0, hi⟩ = true := Range.contains_iff.2 ⟨le_rfl, h⟩
  cases na' with
  | true =>
    obtain rfl := hna rfl
    cases nb' with
    | true =>
      obtain rfl := hnb rfl
      obtain rfl := some.inj hr'
      exact ⟨_, rfl, inside (le_min ((min_le_left ha hb).trans hleft) ((min_le_right ha hb).trans hright))⟩
    | false =>
      obtain rfl := some.inj hr'
      cases nb with
      | true => exact ⟨_, rfl, inside ((min_le_left ha hb).trans hleft)⟩
      | false => exact ⟨_, rfl, inside hleft⟩
  | false =>
    cases nb' with
    | true =>
      obtain rfl := hnb rfl
      obtain rfl := some.inj hr'
      cases na with
      | true => exact ⟨_, rfl, inside ((min_le_right ha hb).trans hright)⟩
      | false => exact ⟨_, rfl, inside hright⟩
    | false => cases hr'

section Larger

variable {a b a' b' : IntFact} (ha : a.Valid) (hb : b.Valid) (sa : a.unsigned = false) (sb : b.unsigned = false)
  (ha' : a'.Valid) (hb' : b'.Valid) (sa' : a'.unsigned = false) (sb' : b'.unsigned = false)
  (hca : a'.getRange.contains a.getRange = true) (hcb : b'.getRange.contains b.getRange = true)

include ha sa ha' sa' hca in
theorem nonneg_of_contains (h : a'.nonneg = true) : a.nonneg = true := by
  rw [ha'.proper.nonneg_iff sa'] at h
  rw [ha.proper.nonneg_iff sa]
  exact le_trans h (Range.contains_iff.1 hca).1

include ha hb sa sb ha' hb' sa' sb' hca hcb

/-- Whatever is known of an operation on larger operands is known of it on smaller ones. -/
theorem narrows_arithRange? (op : String) : Narrows (arithRange? op a b) (arithRange? op a' b') := by
  have hboth : (a'.nonneg && b'.nonneg) = true → (a.nonneg && b.nonneg) = true := by
    simp only [Bool.and_eq_true]
    exact And.imp (nonneg_of_contains ha sa ha' sa' hca) (nonneg_of_contains hb sb hb' sb' hcb)
  have hlow (h : (a'.nonneg && b'.nonneg) = true) := (both_nonneg_iff ha hb sa sb).1 (hboth h)
  obtain ⟨hloa, hhia⟩ := Range.contains_iff.1 hca
  obtain ⟨hlob, hhib⟩ := Range.contains_iff.1 hcb
  have hai := ha.inhabited
  have hbi := hb.inhabited
  unfold arithRange?
  split
  case h_1 | h_2 | h_3 =>
    refine narrows_orElse (narrows_ends (by omega) (by omega) (by omega)) hboth fun h r hr => ?_
    obtain ⟨wlo, whi, rfl⟩ := Range.ofEnds?_eq_some_iff.1 hr
    have := hlow h
    exact Range.contains_iff.2 ⟨Int.add_nonneg this.1 this.2, whi.2⟩
  case h_4 | h_5 | h_6 => exact narrows_ends (by omega) (by omega) (by omega)
  case h_7 | h_8 | h_9 =>
    refine narrows_orElse (narrows_mulRange? hai hbi hca hcb) hboth fun h r hr => ?_
    obtain ⟨hfit, rfl⟩ := Range.mulRange?_eq_some_iff.1 hr
    obtain ⟨ha₀, hb₀⟩ := hlow h
    have ha₁ := Int.le_trans ha₀ hai
    have hb₁ := Int.le_trans hb₀ hbi
    refine Range.contains_iff.2 ⟨?_, (Range.words_corners hfit).2.2⟩
    exact le_min (le_min (le_min (Int.mul_nonneg ha₀ hb₀) (Int.mul_nonneg ha₀ hb₁)) (Int.mul_nonneg ha₁ hb₀)) (Int.mul_nonneg ha₁ hb₁)
  case h_10 | h_11 | h_12 => exact narrows_ite hboth fun _ => Range.contains_iff.2 ⟨le_rfl, hhia⟩
  case h_13 => exact narrows_ite hboth fun _ => Range.contains_iff.2 ⟨le_rfl, by dsimp only; omega⟩
  case h_14 =>
    exact narrows_and (nonneg_of_contains ha sa ha' sa' hca) (nonneg_of_contains hb sb hb' sb' hcb) hhia hhib
  case h_15 | h_16 => exact narrows_ite hboth fun _ => by decide
  case h_17 => exact nofun

end Larger

/-! ## Unary operations -/

/-- A range of a unary operation. -/
structure EnclosesUnary (op : String) (a r : Range) : Prop where
  words : r.Words
  inhabited : r.lo ≤ r.hi
  exact : ∀ x ∈ a, ∀ z ∈ exactUnary? op x, Range.IsWord z → z ∈ r

theorem lnot_eq (x : Int) : x.lnot = -x - 1 := by
  cases x with
  | ofNat n =>
    change Int.negSucc n = _
    rw [negSucc_eq, ofNat_eq_natCast]
    omega
  | negSucc n =>
    change (n : Int) = _
    rw [negSucc_eq]
    omega

theorem enclosesUnary_unaryRange? {op : String} {a r : Range} (ha : a.Words) (hle : a.lo ≤ a.hi)
    (h : unaryRange? op a = some r) : EnclosesUnary op a r := by
  obtain ⟨⟨hlo, -⟩, ⟨-, hhi⟩⟩ := ha
  rw [Range.minWord_eq] at hlo
  rw [Range.maxWord_eq] at hhi
  have word {n : Int} (h : -2 ^ 63 ≤ n ∧ n ≤ 2 ^ 63 - 1) : Range.IsWord n := by
    rwa [Range.IsWord, Range.minWord_eq, Range.maxWord_eq]
  unfold unaryRange? at h
  split at h
  case h_1 =>
    split at h
    · cases h
    · rename_i hmin
      obtain rfl := some.inj h
      rw [Range.minWord_eq] at hmin
      refine ⟨⟨word (by dsimp only; omega), word (by dsimp only; omega)⟩, Int.neg_le_neg hle, fun x hx z hz _ => ?_⟩
      obtain rfl : -x = z := some.inj hz
      exact ⟨Int.neg_le_neg hx.2, Int.neg_le_neg hx.1⟩
  case h_2 =>
    split at h
    · obtain rfl := some.inj h
      refine ⟨Range.words_nonneg, by decide, fun x _ z hz hw => ?_⟩
      obtain rfl : (x.natAbs : Int) = z := some.inj hz
      exact (Range.mem_nonneg hw).2 (Int.natCast_nonneg _)
    · rename_i hmin
      obtain rfl := some.inj h
      rw [Range.minWord_eq] at hmin
      refine ⟨⟨word (by dsimp only; omega), word (by dsimp only; omega)⟩, by dsimp only; omega, fun x hx z hz _ => ?_⟩
      obtain rfl : (x.natAbs : Int) = z := some.inj hz
      simp only [Range.mem_iff] at hx ⊢
      omega
  case h_3 =>
    obtain rfl := some.inj h
    refine ⟨⟨word (by dsimp only; omega), word (by dsimp only; omega)⟩, by dsimp only; omega, fun x hx z hz _ => ?_⟩
    obtain rfl : x.lnot = z := some.inj hz
    rw [lnot_eq]
    simp only [Range.mem_iff] at hx ⊢
    omega
  case h_4 => cases h

theorem narrows_unaryRange? {r r' : Range} (op : String) (hr : r.Words) (hle : r.lo ≤ r.hi) (hr' : r'.Words)
    (h : r'.contains r = true) : Narrows (unaryRange? op r) (unaryRange? op r') := by
  obtain ⟨hlo, hhi⟩ := Range.contains_iff.1 h
  have hmin (e : r'.lo ≠ Range.minWord) : r.lo ≠ Range.minWord := fun e' => e (le_antisymm (e' ▸ hlo) hr'.1.1)
  intro q hq
  unfold unaryRange? at hq ⊢
  split at hq
  case h_1 =>
    split at hq
    · cases hq
    · rename_i e
      obtain rfl := some.inj hq
      rw [if_neg (hmin e)]
      exact ⟨_, rfl, Range.contains_iff.2 ⟨Int.neg_le_neg hhi, Int.neg_le_neg hlo⟩⟩
  case h_2 =>
    split at hq
    · obtain rfl := some.inj hq
      split
      · exact ⟨_, rfl, by decide⟩
      · rename_i e
        have hencloses : EnclosesUnary "abs" r _ := enclosesUnary_unaryRange? hr hle (if_neg e)
        have hwords := hencloses.words
        exact ⟨_, rfl, Range.contains_iff.2 ⟨by change 0 ≤ if r.lo > 0 then _ else _; omega, hwords.2.2⟩⟩
    · rename_i e
      obtain rfl := some.inj hq
      rw [if_neg (hmin e)]
      exact ⟨_, rfl, Range.contains_iff.2 ⟨by dsimp only; omega, by dsimp only; omega⟩⟩
  case h_3 =>
    obtain rfl := some.inj hq
    exact ⟨_, rfl, Range.contains_iff.2 ⟨by dsimp only; omega, by dsimp only; omega⟩⟩
  case h_4 => cases hq

theorem enclosesUnary_getD {a : IntFact} (ha : a.Valid) (op : String) : EnclosesUnary op a.getRange ((unaryRange? op a.getRange).getD .full) := by
  cases h : unaryRange? op a.getRange with
  | none => exact ⟨Range.words_full, by decide, fun _ _ _ _ hw => hw⟩
  | some r => exact enclosesUnary_unaryRange? ha.proper.words ha.inhabited h

section Result

variable {a : IntFact} (ha : a.Valid) (sa : a.unsigned = false)
include sa

theorem unary_pos : a.unary "pos" = a := by
  unfold unary
  simp only [sa, Bool.false_eq_true, if_false, if_true]

variable {op : String}

theorem unary_eq_make (hop : op ≠ "pos") : ∃ c, a.unary op = make c false a.bits ((unaryRange? op a.getRange).getD .full) ∧
      ∀ n ∈ c, (unaryRange? op a.getRange).getD .full = ⟨n, n⟩ := by
  unfold unary
  simp only [sa, hop, Bool.false_eq_true, if_false]
  cases unaryRange? op a.getRange with
  | none => exact ⟨none, rfl, nofun⟩
  | some r =>
    dsimp only [getD_some]
    split
    · rename_i q hq
      obtain rfl : r = q := by
        simp only [setRange, Bool.false_eq_true, if_false] at hq
        split at hq
        · cases hq
        · exact some.inj hq
      exact exists_make_of_ends _ r a.const.isSome
    · exact ⟨none, rfl, nofun⟩

theorem getRange_unary (hop : op ≠ "pos") : (a.unary op).getRange = (unaryRange? op a.getRange).getD .full := by
  obtain ⟨c, e, -⟩ := unary_eq_make sa hop
  rw [e, getRange_make]

theorem unsigned_unary_of_signed (op : String) : (a.unary op).unsigned = false := by
  by_cases hop : op = "pos"
  · rw [hop, unary_pos sa]
    exact sa
  · obtain ⟨c, e, -⟩ := unary_eq_make sa hop
    rw [e, make_unsigned]

include ha

theorem valid_unary_signed (op : String) : (a.unary op).Valid := by
  by_cases hop : op = "pos"
  · rw [hop, unary_pos sa]
    exact ha
  · obtain ⟨c, e, hc⟩ := unary_eq_make sa hop
    have h := enclosesUnary_getD ha op
    rw [e]
    exact valid_make _ h.words h.inhabited hc

theorem mem_unary {x z : Int} (hx : x ∈ a) (hz : z ∈ exactUnary? op x) (hw : Range.IsWord z) : z ∈ a.unary op := by
  by_cases hop : op = "pos"
  · obtain rfl := hop
    obtain rfl : x = z := some.inj hz
    rw [unary_pos sa]
    exact hx
  · change z ∈ (a.unary op).getRange
    rw [getRange_unary sa hop]
    exact (enclosesUnary_getD ha op).exact x hx z hz hw

end Result

/-! ## Soundness -/

theorem valid_arith {a b : IntFact} (ha : a.Valid) (hb : b.Valid) (op : String) : (a.arith op b).Valid := by
  cases h : a.unsigned || b.unsigned with
  | true =>
    have e : a.arith op b = ofWidth (max a.bits b.bits) true := by
      unfold arith
      simp only [h, if_true]
      rfl
    rw [e]
    exact valid_ofWidth ..
  | false =>
    obtain ⟨sa, sb⟩ := Bool.or_eq_false_iff.1 h
    exact valid_arith_signed ha hb sa sb op

theorem valid_unary {a : IntFact} (ha : a.Valid) (op : String) : (a.unary op).Valid := by
  cases h : a.unsigned with
  | true =>
    have e : a.unary op = ofWidth a.bits true := by
      unfold unary
      rw [if_pos h]
    rw [e]
    exact valid_ofWidth ..
  | false => exact valid_unary_signed ha h op

/-- All that a fact says holds of a value. -/
structure Tells (i : IntFact) (n : Int) : Prop where
  mem : n ∈ i
  const : ∀ c ∈ i.const, n = c
  nonneg : i.nonneg = true → 0 ≤ n

theorem Valid.tells {i : IntFact} (h : i.Valid) (hi : i.unsigned = false) {n : Int} (hn : n ∈ i) : i.Tells n where
  mem := hn
  const _ hc := h.eq_const hi hc hn
  nonneg h₀ := le_trans ((h.proper.nonneg_iff hi).1 h₀) hn.1

theorem contains_getD (h : Narrows o o') (ho : (o.getD .full).Words) : (o'.getD .full).contains (o.getD .full) = true := by
  cases o' with
  | none => exact Range.contains_iff.2 ⟨ho.1.1, ho.2.2⟩
  | some r' =>
    obtain ⟨r, hr, hle⟩ := h r' rfl
    obtain rfl := hr
    exact hle

/-- The exact result of an operation on signed integers, when it is a word, is one that the annotation of the result
allows; and an operand with a larger range gives a result with a larger range. -/
theorem integer_arithmetic_sound : (∀ (op : String) (a b : IntFact), a.Valid → b.Valid → a.unsigned = false → b.unsigned = false →
      ∀ x ∈ a, ∀ y ∈ b, ∀ z ∈ exactResult? op x y, Range.IsWord z → (a.arith op b).Tells z) ∧
    (∀ (op : String) (a : IntFact), a.Valid → a.unsigned = false → ∀ x ∈ a, ∀ z ∈ exactUnary? op x, Range.IsWord z → (a.unary op).Tells z) ∧
    (∀ (op : String) (a b a' b' : IntFact), a.Valid → b.Valid → a'.Valid → b'.Valid → a.unsigned = false → b.unsigned = false →
      a'.unsigned = false → b'.unsigned = false → a'.getRange.contains a.getRange = true → b'.getRange.contains b.getRange = true →
      (a'.arith op b').getRange.contains (a.arith op b).getRange = true) ∧
    ∀ (op : String) (a a' : IntFact), a.Valid → a'.Valid → a.unsigned = false → a'.unsigned = false →
      a'.getRange.contains a.getRange = true → (a'.unary op).getRange.contains (a.unary op).getRange = true := by
  refine ⟨fun op a b ha hb sa sb x hx y hy z hz hw => ?binary, fun op a ha sa x hx z hz hw => ?unary,
    fun op a b a' b' ha hb ha' hb' sa sb sa' sb' hca hcb => ?largerOperands, fun op a a' ha ha' sa sa' hca => ?largerOperand⟩
  case binary =>
    obtain ⟨c, e, -⟩ := arith_eq_make sa sb op
    have hsigned : (a.arith op b).unsigned = false := by rw [e, make_unsigned]
    refine (valid_arith ha hb op).tells hsigned ?_
    change z ∈ (a.arith op b).getRange
    rw [getRange_arith sa sb]
    exact (encloses_getD ha hb sa sb op).exact x hx y hy z hz hw
  case unary => exact (valid_unary ha op).tells (unsigned_unary_of_signed sa op) (mem_unary ha sa hx hz hw)
  case largerOperands =>
    rw [getRange_arith sa sb, getRange_arith sa' sb']
    exact contains_getD (narrows_arithRange? ha hb sa sb ha' hb' sa' sb' hca hcb op) (encloses_getD ha hb sa sb op).words
  case largerOperand =>
    by_cases hop : op = "pos"
    · rw [hop, unary_pos sa, unary_pos sa']
      exact hca
    · rw [getRange_unary sa hop, getRange_unary sa' hop]
      exact contains_getD (narrows_unaryRange? op ha.proper.words ha.inhabited ha'.proper.words hca) (enclosesUnary_getD ha op).words

/-- The remainder of a negative number, the complement of a range, and products that overflow only for a larger range. -/
theorem arithmetic_on_small_ranges : ((ofRange (-3) 4).arith "mod" (ofConst 7)).Tells 5 ∧ ((ofRange (-3) 4).unary "invert").Tells 2 ∧
      ((ofRange (-3) Range.maxWord).arith "mul" (ofConst 7)).getRange.contains ((ofRange (-3) 4).arith "mul" (ofConst 7)).getRange = true ∧
      ((ofRange (-9) 4).unary "abs").getRange.contains ((ofRange (-3) 4).unary "abs").getRange = true := by
  obtain ⟨binary, unary, largerOperands, largerOperand⟩ := integer_arithmetic_sound
  have small : (ofRange (-3) 4).Valid := valid_ofRange (by decide) (by decide) (by decide)
  have large : (ofRange (-3) Range.maxWord).Valid := valid_ofRange (by decide) (by decide) (by decide)
  have wide : (ofRange (-9) 4).Valid := valid_ofRange (by decide) (by decide) (by decide)
  have seven : (ofConst 7).Valid := valid_ofConst (by decide)
  exact ⟨binary "mod" _ _ small seven rfl rfl (-2) (by decide) 7 (by decide) 5 (by decide) (by decide),
    unary "invert" _ small rfl (-3) (by decide) 2 (by decide) (by decide),
    largerOperands "mul" _ _ _ _ small seven large seven rfl rfl rfl rfl (by decide) (by decide),
    largerOperand "abs" _ _ small wide rfl rfl (by decide)⟩

end IntFact
end FlowCompiler
