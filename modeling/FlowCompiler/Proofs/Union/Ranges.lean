import Mathlib.Algebra.Group.Int.Defs
import Mathlib.Algebra.Group.Nat.Defs
import Mathlib.Order.Defs.LinearOrder
import Mathlib.Order.Lattice
import Mathlib.Data.Int.Order.Basic
import FlowCompiler.Analysis.Union

/-!
# Unions of integers

Ranges that meet are widened to points of a fixed set.  The end of a widened range is the nearest point, which
only depends on the points beyond the end; so it does not matter in which order ranges are widened.
-/

namespace FlowCompiler

open Int

variable {v : Int} {a b : Range}

namespace Range

/-- The ends of widened ranges. -/
def IsPoint (p : Int) : Prop := ∃ k : Nat, k ≤ 63 ∧ (p = 2 ^ k - 1 ∨ p = -2 ^ k)

def IsWord (n : Int) : Prop := minWord ≤ n ∧ n ≤ maxWord

theorem minWord_eq : minWord = -2 ^ 63 := rfl

theorem maxWord_eq : maxWord = 2 ^ 63 - 1 := rfl

theorem bitLength_eq {n : Nat} (h : n ≠ 0) : bitLength n = n.log2 + 1 := if_neg h

theorem bitLength_le {n k : Nat} : bitLength n ≤ k ↔ n < 2 ^ k := by
  rcases Nat.eq_zero_or_pos n with rfl | h
  · exact iff_of_true (Nat.zero_le k) (Nat.two_pow_pos k)
  · rw [bitLength_eq (Nat.pos_iff_ne_zero.1 h), Nat.succ_le_iff, Nat.log2_lt (Nat.pos_iff_ne_zero.1 h)]

theorem two_pow_le {j k : Nat} (h : j ≤ k) : (2 : Int) ^ j ≤ 2 ^ k := by
  exact_mod_cast Nat.pow_le_pow_right Nat.two_pos h

/-! ## Points below -/

theorem quantizeDown_of_nonneg (h : 0 ≤ v) (hv : IsWord v) :
    ∃ k : Nat, k ≤ 63 ∧ quantizeDown v = 2 ^ k - 1 ∧ ∀ j : Nat, j ≤ k ↔ (2 : Int) ^ j ≤ v + 1 := by
  obtain ⟨n, rfl⟩ := eq_ofNat_of_zero_le h
  have hpow (j : Nat) : (2 : Int) ^ j ≤ (n : Int) + 1 ↔ 2 ^ j ≤ n + 1 := by norm_cast
  have hmax : (n : Int) ≤ 2 ^ 63 - 1 := hv.2
  unfold quantizeDown
  rw [if_pos h]
  split
  · rename_i e
    refine ⟨63, Nat.le_refl _, e, fun j => ?_⟩
    have hn : n + 1 = 2 ^ 63 := by
      rw [maxWord_eq] at e
      omega
    rw [hpow, hn, Nat.pow_le_pow_iff_right (by decide)]
  · have hlog (j : Nat) : j ≤ (n + 1).log2 ↔ 2 ^ j ≤ n + 1 := Nat.le_log2 (Nat.succ_ne_zero n)
    refine ⟨(n + 1).log2, ?_, ?_, fun j => by rw [hpow, hlog]⟩
    · have hle : 2 ^ (n + 1).log2 ≤ 2 ^ 63 := by
        have := (hlog _).1 (Nat.le_refl _)
        omega
      exact (Nat.pow_le_pow_iff_right (by decide)).1 hle
    · rw [toNat_natCast, bitLength_eq (Nat.succ_ne_zero n), Nat.add_sub_cancel]
      simp

theorem quantizeDown_of_neg (h : v < 0) (hv : IsWord v) : ∃ k : Nat, k ≤ 63 ∧ quantizeDown v = -2 ^ k ∧ ∀ j : Nat, k ≤ j ↔ -v ≤ (2 : Int) ^ j := by
  obtain ⟨n, hn⟩ := eq_ofNat_of_zero_le (show 0 ≤ -v - 1 by omega)
  obtain rfl : v = -((n : Int) + 1) := by omega
  have hpow (j : Nat) : -(-((n : Int) + 1)) ≤ 2 ^ j ↔ bitLength n ≤ j := by
    rw [bitLength_le, neg_neg]
    norm_cast
  have hmin : -2 ^ 63 ≤ -((n : Int) + 1) := hv.1
  have hle : bitLength n ≤ 63 := by
    rw [← hpow]
    omega
  refine ⟨bitLength n, hle, ?_, fun j => (hpow j).symm⟩
  unfold quantizeDown
  rw [if_neg (by omega), show (-(-((n : Int) + 1))).toNat - 1 = n by omega]
  split
  · rename_i e
    have h63 : ¬ bitLength n ≤ 62 := by
      rw [← hpow]
      rw [minWord_eq] at e
      omega
    rw [e, show bitLength n = 63 by omega, minWord_eq]
  · dsimp only
    split
    · rw [Nat.le_antisymm hle ‹_›, minWord_eq]
    · simp

theorem isPoint_quantizeDown (hv : IsWord v) : IsPoint (quantizeDown v) := by
  rcases Int.lt_or_le v 0 with h | h
  · obtain ⟨k, hk, e, -⟩ := quantizeDown_of_neg h hv
    exact ⟨k, hk, .inr e⟩
  · obtain ⟨k, hk, e, -⟩ := quantizeDown_of_nonneg h hv
    exact ⟨k, hk, .inl e⟩

theorem le_quantizeDown {v p : Int} (hv : IsWord v) (hp : IsPoint p) : p ≤ quantizeDown v ↔ p ≤ v := by
  obtain ⟨j, hj, hp⟩ := hp
  have hone (k : Nat) : (1 : Int) ≤ 2 ^ k := two_pow_le (Nat.zero_le k)
  rcases Int.lt_or_le v 0 with h | h
  · obtain ⟨k, hk, e, hpoint⟩ := quantizeDown_of_neg h hv
    rw [e]
    have := hone k
    have := hone j
    rcases hp with rfl | rfl
    · omega
    · rw [Int.neg_le_neg_iff, ← Int.neg_le_neg_iff (a := v), Int.neg_neg, ← hpoint]
      exact_mod_cast Nat.pow_le_pow_iff_right (by decide)
  · obtain ⟨k, hk, e, hpoint⟩ := quantizeDown_of_nonneg h hv
    rw [e]
    have := hone k
    have := hone j
    rcases hp with rfl | rfl
    · have hpow : (2 : Int) ^ j ≤ 2 ^ k ↔ j ≤ k := by exact_mod_cast Nat.pow_le_pow_iff_right (by decide)
      have := hpoint j
      omega
    · omega

theorem quantizeDown_le (hv : IsWord v) : quantizeDown v ≤ v := (le_quantizeDown hv (isPoint_quantizeDown hv)).1 le_rfl

theorem IsPoint.isWord {p : Int} (h : IsPoint p) : IsWord p := by
  obtain ⟨k, hk, h⟩ := h
  have hpow : (2 : Int) ^ k ≤ 2 ^ 63 := two_pow_le hk
  have hone : (1 : Int) ≤ 2 ^ k := two_pow_le (Nat.zero_le k)
  rw [IsWord, minWord_eq, maxWord_eq]
  omega

theorem quantizeDown_congr {u v : Int} (hu : IsWord u) (hv : IsWord v) (h : ∀ p, IsPoint p → (p ≤ u ↔ p ≤ v)) : quantizeDown u = quantizeDown v := by
  apply le_antisymm
  · rw [le_quantizeDown hv (isPoint_quantizeDown hu), ← h _ (isPoint_quantizeDown hu)]
    exact quantizeDown_le hu
  · rw [le_quantizeDown hu (isPoint_quantizeDown hv), h _ (isPoint_quantizeDown hv)]
    exact quantizeDown_le hv

/-! ## Points above -/

/-- Upwards is downwards seen from the other side. -/
theorem quantizeUp_eq (v : Int) : quantizeUp v = -quantizeDown (-v - 1) - 1 := by
  unfold quantizeUp quantizeDown
  rcases Int.lt_or_le v 0 with h | h
  · have hmin : v = minWord ↔ -v - 1 = maxWord := by
      rw [minWord_eq, maxWord_eq]
      omega
    simp only [if_pos h, if_pos (show -v - 1 ≥ 0 by omega)]
    by_cases e : v = minWord
    · rw [if_pos e, if_pos (hmin.1 e)]
      omega
    · rw [if_neg e, if_neg (mt hmin.2 e), show (-v - 1).toNat + 1 = (-v).toNat by omega]
      omega
  · simp only [if_neg (Int.not_lt.2 h), if_neg (show ¬ -v - 1 ≥ 0 by omega), show (-(-v - 1)).toNat - 1 = v.toNat by omega]
    by_cases e : -v - 1 = minWord
    · rw [if_pos e]
      obtain rfl : v = maxWord := by
        rw [minWord_eq] at e
        rw [maxWord_eq]
        omega
      decide
    · rw [if_neg e]
      split
      · rfl
      · omega

theorem isWord_neg (h : IsWord v) : IsWord (-v - 1) := by
  rw [IsWord, minWord_eq, maxWord_eq] at h ⊢
  omega

theorem isPoint_neg {p : Int} (h : IsPoint p) : IsPoint (-p - 1) := by
  obtain ⟨k, hk, rfl | rfl⟩ := h
  · exact ⟨k, hk, .inr (by omega)⟩
  · exact ⟨k, hk, .inl (by omega)⟩

theorem isPoint_quantizeUp (hv : IsWord v) : IsPoint (quantizeUp v) := by
  rw [quantizeUp_eq]
  exact isPoint_neg (isPoint_quantizeDown (isWord_neg hv))

theorem quantizeUp_le {v p : Int} (hv : IsWord v) (hp : IsPoint p) : quantizeUp v ≤ p ↔ v ≤ p := by
  have := le_quantizeDown (isWord_neg hv) (isPoint_neg hp)
  rw [quantizeUp_eq]
  omega

theorem quantizeUp_congr {u v : Int} (hu : IsWord u) (hv : IsWord v) (h : ∀ p, IsPoint p → (u ≤ p ↔ v ≤ p)) : quantizeUp u = quantizeUp v := by
  rw [quantizeUp_eq, quantizeUp_eq, quantizeDown_congr (isWord_neg hu) (isWord_neg hv)]
  intro p hp
  have := h (-p - 1) (isPoint_neg hp)
  omega

/-! ## Ranges -/

/-- Both ends are words. -/
def Words (r : Range) : Prop := IsWord r.lo ∧ IsWord r.hi

/-- The range of two that meet. -/
def meet (a b : Range) : Range := if a = b then a else a.widen b

theorem words_hull (ha : a.Words) (hb : b.Words) : (a.hull b).Words := by
  obtain ⟨⟨_, _⟩, ⟨_, _⟩⟩ := ha
  obtain ⟨⟨_, _⟩, ⟨_, _⟩⟩ := hb
  refine ⟨⟨?_, ?_⟩, ⟨?_, ?_⟩⟩ <;> simp only [hull] <;> omega

theorem words_widen (ha : a.Words) (hb : b.Words) : (a.widen b).Words :=
  have h := words_hull ha hb
  ⟨(isPoint_quantizeDown h.1).isWord, (isPoint_quantizeUp h.2).isWord⟩

theorem words_meet (ha : a.Words) (hb : b.Words) : (a.meet b).Words := by
  unfold meet
  split
  · exact ha
  · exact words_widen ha hb

theorem hull_comm (a b : Range) : a.hull b = b.hull a := by
  simp only [hull, min_comm, max_comm]

theorem widen_comm (a b : Range) : a.widen b = b.widen a := by
  simp only [widen, hull_comm]

theorem meet_comm (a b : Range) : a.meet b = b.meet a := by
  unfold meet
  rw [widen_comm]
  by_cases h : a = b
  · rw [if_pos h, if_pos h.symm, h]
  · rw [if_neg h, if_neg (Ne.symm h)]

@[simp] theorem meet_self (a : Range) : a.meet a = a := if_pos rfl

/-- What was widened before does not matter. -/
theorem widen_widen {a b c : Range} (ha : a.Words) (hb : b.Words) (hc : c.Words) : (a.widen b).widen c = (a.hull b).widen c := by
  have hab := words_hull ha hb
  have hwide := words_hull (words_widen ha hb) hc
  have hall := words_hull hab hc
  have hlo : quantizeDown ((a.widen b).hull c).lo = quantizeDown ((a.hull b).hull c).lo := by
    refine quantizeDown_congr hwide.1 hall.1 fun p hp => ?_
    have := le_quantizeDown hab.1 hp
    simp only [hull, widen] at this ⊢
    omega
  have hhi : quantizeUp ((a.widen b).hull c).hi = quantizeUp ((a.hull b).hull c).hi := by
    refine quantizeUp_congr hwide.2 hall.2 fun p hp => ?_
    have := quantizeUp_le hab.2 hp
    simp only [hull, widen] at this ⊢
    omega
  simp only [widen] at hlo hhi ⊢
  rw [hlo, hhi]

theorem widen_idem (ha : a.Words) (hb : b.Words) : (a.widen b).widen (a.widen b) = a.widen b := by
  have h := words_hull ha hb
  have hlo := isPoint_quantizeDown h.1
  have hhi := isPoint_quantizeUp h.2
  have elo : quantizeDown (quantizeDown (a.hull b).lo) = quantizeDown (a.hull b).lo :=
    quantizeDown_congr hlo.isWord h.1 fun p hp => le_quantizeDown h.1 hp
  have ehi : quantizeUp (quantizeUp (a.hull b).hi) = quantizeUp (a.hull b).hi := quantizeUp_congr hhi.isWord h.2 fun p hp => quantizeUp_le h.2 hp
  simp only [widen, hull, min_self, max_self] at elo ehi ⊢
  rw [elo, ehi]

/-- A range that was widened takes another one in as if it had not been. -/
theorem widen_meet {a b c : Range} (ha : a.Words) (hb : b.Words) (hc : c.Words) : (a.widen b).meet c = (a.hull b).widen c := by
  rw [← widen_widen ha hb hc, meet]
  split
  · rename_i e
    rw [← e, widen_idem ha hb]
  · rfl

theorem hull_assoc (a b c : Range) : (a.hull b).hull c = a.hull (b.hull c) := by
  simp only [hull, min_assoc, max_assoc]

theorem meet_assoc {a b c : Range} (ha : a.Words) (hb : b.Words) (hc : c.Words) : (a.meet b).meet c = a.meet (b.meet c) := by
  have hself (r : Range) : r.hull r = r := by simp [hull]
  by_cases hab : a = b
  · subst hab
    rw [meet_self]
    by_cases hac : a = c
    · subst hac
      simp
    · have hmeet : a.meet c = a.widen c := if_neg hac
      rw [hmeet, meet_comm, widen_meet ha hc ha, widen, widen, hull_comm (a.hull c), ← hull_assoc, hself]
  · have hmeet : a.meet b = a.widen b := if_neg hab
    rw [hmeet, widen_meet ha hb hc]
    by_cases hbc : b = c
    · subst hbc
      rw [meet_self, hmeet, widen, widen, hull_assoc, hself]
    · have hmeet' : b.meet c = b.widen c := if_neg hbc
      rw [hmeet', meet_comm, widen_meet hb hc ha, widen, widen, hull_comm (b.hull c), hull_assoc]

end Range
namespace Ana

variable {α : Type} [DecidableEq α]

theorem sameOr_eq (a b : Option α) : sameOr a b = if a = b then a else none := by
  simp [sameOr]

@[simp] theorem sameOr_self (a : Option α) : sameOr a a = a := by simp [sameOr]

@[simp] theorem sameOr_none_left (b : Option α) : sameOr none b = none := by cases b <;> simp [sameOr]

@[simp] theorem sameOr_none_right (a : Option α) : sameOr a none = none := by cases a <;> simp [sameOr]

theorem sameOr_comm (a b : Option α) : sameOr a b = sameOr b a := by
  rw [sameOr_eq, sameOr_eq]
  by_cases h : a = b
  · rw [if_pos h, if_pos h.symm, h]
  · rw [if_neg h, if_neg (Ne.symm h)]

theorem sameOr_assoc (a b c : Option α) : sameOr (sameOr a b) c = sameOr a (sameOr b c) := by
  by_cases hab : a = b
  · subst hab
    rw [sameOr_self]
    by_cases hac : a = c
    · simp [hac]
    · have : sameOr a c = none := by rw [sameOr_eq, if_neg hac]
      rw [this, sameOr_none_right]
  · have : sameOr a b = none := by rw [sameOr_eq, if_neg hab]
    rw [this, sameOr_none_left]
    by_cases hbc : b = c
    · rw [hbc, sameOr_self, ← hbc, this]
    · have : sameOr b c = none := by rw [sameOr_eq, if_neg hbc]
      rw [this, sameOr_none_right]

/-- Different constants stay different under what tells them apart. -/
theorem map_sameOr {β : Type} [DecidableEq β] {f : α → β} {a b : Option α} (hf : ∀ x ∈ a, ∀ y ∈ b, f x = f y → x = y) :
    (sameOr a b).map f = sameOr (a.map f) (b.map f) := by
  cases a with
  | none => simp
  | some x =>
    cases b with
    | none => simp
    | some y =>
      by_cases h : x = y
      · simp [h]
      · have hne : f x ≠ f y := fun e => h (hf x rfl y rfl e)
        simp [sameOr_eq, h, hne]

end Ana

variable (c : Option Int) {i : IntFact} (u : Bool) {j : IntFact} (n : Nat) (r : Range)

namespace IntFact

open Ana

/-- What is known of an integer whose range is given.  An unsigned integer has none. -/
def make (const : Option Int) (unsigned : Bool) (bits : Nat) (r : Range) : IntFact := ({ const, unsigned, bits } : IntFact).setRange r

/-- The sign and the range of an integer say the same. -/
def Proper (i : IntFact) : Prop := ∃ r : Range, r.Words ∧ i = make i.const i.unsigned i.bits r

@[simp] theorem make_const : (make c u n r).const = c := by
  unfold make setRange
  split
  · rfl
  · split <;> rfl

@[simp] theorem make_unsigned : (make c u n r).unsigned = u := by
  unfold make setRange
  split
  · rfl
  · split <;> rfl

@[simp] theorem make_bits : (make c u n r).bits = n := by
  unfold make setRange
  split
  · rfl
  · split <;> rfl

theorem proper_make {c : Option Int} {u : Bool} {n : Nat} {r : Range} (h : r.Words) : (make c u n r).Proper := ⟨r, h, by simp⟩

theorem getRange_make : (make c false n r).getRange = r := by
  unfold make setRange
  rw [if_neg (by simp)]
  split
  · rename_i h
    exact (eq_of_beq h).symm
  · rfl

theorem make_unsigned_eq (r r' : Range) : make c true n r = make c true n r' := rfl

theorem isNone_range_make : (make c false n r).range.isNone = decide (r = .full) := by
  unfold make setRange
  rw [if_neg (by simp)]
  split
  · rename_i h
    rw [eq_of_beq h]
    rfl
  · rename_i h
    have : r ≠ .full := fun e => h (by rw [e]; rfl)
    simp [this]

theorem nonneg_make_full : (make c false n .full).nonneg = false := rfl

theorem union_make (c c' : Option Int) (u u' : Bool) (n n' : Nat) (r r' : Range) :
    (make c u n r).union (make c' u' n' r') = make (sameOr c c') (u || u') (max n n') (r.meet r') := by
  cases hu : u || u' with
  | true =>
    simp only [union, make_bits, make_unsigned, make_const, hu, if_true, sameOr_eq]
    rfl
  | false =>
    obtain ⟨rfl, rfl⟩ : u = false ∧ u' = false := by simpa using hu
    simp only [union, make_bits, make_unsigned, make_const, Bool.or_false, Bool.false_eq_true, if_false, isNone_range_make, getRange_make]
    split
    · rename_i h
      obtain ⟨rfl, rfl⟩ : r = .full ∧ r' = .full := by simpa using h
      simp only [nonneg_make_full, Bool.false_and, Bool.false_eq_true, if_false, Range.meet_self, sameOr_eq]
      rfl
    · simp only [sameOr_eq, Range.meet]
      split <;> rfl

theorem Proper.union (hi : i.Proper) (hj : j.Proper) : (i.union j).Proper := by
  obtain ⟨r, hr, ei⟩ := hi
  obtain ⟨s, hs, ej⟩ := hj
  rw [ei, ej, union_make]
  exact proper_make (Range.words_meet hr hs)

theorem union_assoc {i j k : IntFact} (hi : i.Proper) (hj : j.Proper) (hk : k.Proper) : (i.union j).union k = i.union (j.union k) := by
  obtain ⟨r, hr, ei⟩ := hi
  obtain ⟨s, hs, ej⟩ := hj
  obtain ⟨t, ht, ek⟩ := hk
  rw [ei, ej, ek]
  simp only [union_make, sameOr_assoc, Bool.or_assoc, Nat.max_assoc, Range.meet_assoc hr hs ht]

theorem union_comm (hi : i.Proper) (hj : j.Proper) : i.union j = j.union i := by
  obtain ⟨r, hr, ei⟩ := hi
  obtain ⟨s, hs, ej⟩ := hj
  rw [ei, ej, union_make, union_make, sameOr_comm, Bool.or_comm, Nat.max_comm, Range.meet_comm]

theorem union_self (hi : i.Proper) : i.union i = i := by
  obtain ⟨r, hr, ei⟩ := hi
  rw [ei, union_make]
  simp

/-! ## Truth values as integers -/

theorem proper_ofBool (c : Option Bool) : (ofBool c).Proper := by
  have hword : ∀ n : Int, 0 ≤ n ∧ n ≤ 1 → Range.IsWord n := by
    intro n hn
    rw [Range.IsWord, Range.minWord_eq, Range.maxWord_eq]
    omega
  match c with
  | none => exact proper_make (r := ⟨0, 1⟩) ⟨hword 0 (by decide), hword 1 (by decide)⟩
  | some true => exact proper_make (r := ⟨1, 1⟩) ⟨hword 1 (by decide), hword 1 (by decide)⟩
  | some false => exact proper_make (r := ⟨0, 0⟩) ⟨hword 0 (by decide), hword 0 (by decide)⟩

theorem union_ofBool (c c' : Option Bool) : (ofBool c).union (ofBool c') = ofBool (sameOr c c') := by
  rcases c with _ | _ | _ <;> rcases c' with _ | _ | _ <;> decide

end IntFact
end FlowCompiler
