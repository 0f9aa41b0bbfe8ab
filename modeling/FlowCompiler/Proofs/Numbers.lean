import Mathlib.Algebra.Group.Int.Defs
import Mathlib.Algebra.Group.Nat.Defs
import Mathlib.Algebra.Order.Ring.Int
import Mathlib.Data.List.Induction
import FlowCompiler.BigInteger

/-!
# Large integers, their bytes and their literals
-/

/-!
## Integers and their bytes

Writing an integer into a number of bytes and reading bytes as an integer undo each other, in either order of
the bytes, with a sign and without.  `Word.bytesLE` and `Word.ofBytesBE` are the two directions for natural
numbers.  An integer with a sign goes through its residue modulo the number of all byte strings of that length:
writing takes the residue, and reading takes the upper half of the residues for the negative integers.
-/

namespace FlowCompiler

open List Nat

variable {n : Nat} {v : Int}

variable (bs : List UInt8)

namespace Word

/-! ### Bytes of natural numbers -/

@[simp] theorem length_bytesLE (n k : Nat) : (bytesLE n k).length = k := by
  induction k generalizing n with
  | zero => rfl
  | succ k ih => simp [bytesLE, ih]

@[simp] theorem ofBytesBE_concat (b : UInt8) : ofBytesBE (bs ++ [b]) = ofBytesBE bs * 256 + b.toNat := by
  simp [ofBytesBE]

/-- As many bytes as are asked for hold the residue. -/
theorem ofBytesBE_reverse_bytesLE (n k : Nat) : ofBytesBE (bytesLE n k).reverse = n % 256 ^ k := by
  induction k generalizing n with
  | zero => rw [pow_zero, mod_one]; rfl
  | succ k ih =>
    have hbyte : (UInt8.ofNat n).toNat = n % 256 := UInt8.toNat_ofNat'
    rw [bytesLE, reverse_cons, ofBytesBE_concat, ih, hbyte, pow_succ', mod_mul]
    omega

theorem bytesLE_ofBytesBE : bytesLE (ofBytesBE bs) bs.length = bs.reverse := by
  induction bs using List.reverseRecOn with
  | nil => rfl
  | append_singleton bs b ih =>
    have hb := b.toNat_lt
    have hlow : UInt8.ofNat (ofBytesBE bs * 256 + b.toNat) = b := by
      apply UInt8.toNat_inj.1
      rw [UInt8.toNat_ofNat']
      omega
    have hrest : (ofBytesBE bs * 256 + b.toNat) / 256 = ofBytesBE bs := by omega
    rw [length_append, length_singleton, bytesLE, ofBytesBE_concat, hlow, hrest, ih, reverse_append]
    rfl

theorem ofBytesBE_lt : ofBytesBE bs < 256 ^ bs.length := by
  have h := ofBytesBE_reverse_bytesLE (ofBytesBE bs) bs.length
  rw [bytesLE_ofBytesBE, reverse_reverse] at h
  rw [h]
  exact Nat.mod_lt _ (Nat.pow_pos (by decide))

theorem ofBytesBE_cons (b : UInt8) (bs : List UInt8) : ofBytesBE (b :: bs) = b.toNat * 256 ^ bs.length + ofBytesBE bs := by
  induction bs using List.reverseRecOn with
  | nil => simp [ofBytesBE]
  | append_singleton bs c ih =>
    rw [← cons_append, ofBytesBE_concat, ih, ofBytesBE_concat, length_append, length_singleton, pow_succ, add_mul, mul_assoc, add_assoc]

/-- The highest bit is set in the upper half of the numbers of a length. -/
theorem head_ge_iff : bs.head?.any (· ≥ 128) = true ↔ bs ≠ [] ∧ 256 ^ bs.length ≤ 2 * ofBytesBE bs := by
  cases bs with
  | nil => simp
  | cons b bs =>
    have hrest := ofBytesBE_lt bs
    rw [List.head?_cons, Option.any_some, decide_eq_true_eq, ge_iff_le, UInt8.le_iff_toNat_le, ofBytesBE_cons, length_cons, pow_succ]
    simp only [ne_eq, reduceCtorEq, not_false_eq_true, true_and]
    have h128 : (128 : UInt8).toNat = 128 := rfl
    rw [h128]
    constructor
    · intro h
      have := mul_le_mul_right (256 ^ bs.length) h
      omega
    · intro h
      by_contra hlt
      have := mul_le_mul_right (256 ^ bs.length) (show b.toNat ≤ 127 by omega)
      omega

end Word

namespace BigInteger

open Word

/-! ### Residues -/

/-- The integers that a number of bytes can hold. -/
def Representable : (signed : Bool) → (count : Nat) → Int → Prop
  | false, n, v => 0 ≤ v ∧ v < 2 ^ (8 * n)
  | true, 0, v => v = 0
  | true, n + 1, v => -2 ^ (8 * n + 7) ≤ v ∧ v < 2 ^ (8 * n + 7)

/-- How many byte strings of a length there are. -/
def span (n : Nat) : Int := (Nat.pow 2 (8 * n) : Nat)

theorem span_eq (n : Nat) : span n = 2 ^ (8 * n) := by
  rw [span, pow_eq]
  exact cast_pow 2 (8 * n)

theorem span_pos (n : Nat) : 0 < span n := by
  rw [span_eq]
  exact Int.pow_pos (by decide)

theorem natCast_pow_256 (n : Nat) : ((256 ^ n : Nat) : Int) = span n := by
  rw [span, Nat.pow_eq, Nat.pow_mul]

/-- The half of the byte strings that stands for negative integers. -/
theorem span_succ (n : Nat) : span (n + 1) = 2 * 2 ^ (8 * n + 7) := by
  rw [span_eq, Int.mul_comm, ← Int.pow_succ]
  rfl

/-- The test for an integer that does not fit, as it is made: with a sign, zero is let through first. -/
theorem representable_iff (signed : Bool) (n : Nat) (v : Int) : Representable signed n v ↔ ¬ (v < 0 ∧ signed = false) ∧
      ¬ (if signed then v ≠ 0 ∧ (span n / 2 ≤ v ∨ v < -(span n / 2)) else span n ≤ v) := by
  cases signed with
  | false =>
    rw [Representable, span_eq]
    simp only [Bool.false_eq_true, if_false, and_true]
    omega
  | true =>
    cases n with
    | zero =>
      have h0 : span 0 / 2 = 0 := rfl
      rw [Representable, h0]
      simp only [if_true, reduceCtorEq, and_false, not_false_eq_true, true_and]
      omega
    | succ n =>
      have hhalf : span (n + 1) / 2 = 2 ^ (8 * n + 7) := by rw [span_succ]; omega
      have hpos : (0 : Int) < 2 ^ (8 * n + 7) := Int.pow_pos (by decide)
      rw [Representable, hhalf]
      simp only [if_true, reduceCtorEq, and_false, not_false_eq_true, true_and]
      omega

/-- The integer that a residue stands for. -/
def ofResidue (signed : Bool) (n : Nat) (u : Int) : Int := if signed ∧ n ≠ 0 ∧ span n ≤ 2 * u then u - span n else u

/-- The residue of an integer that fits is found by one addition. -/
theorem emod_span {signed : Bool} (h : Representable signed n v) : v % span n = if v < 0 then v + span n else v := by
  have hrange : -span n ≤ v ∧ v < span n ∧ (v < 0 → signed = true) := by
    cases signed with
    | false =>
      rw [Representable, ← span_eq] at h
      omega
    | true =>
      cases n with
      | zero =>
        rw [Representable] at h
        have := span_pos 0
        omega
      | succ n =>
        rw [Representable] at h
        have := span_succ n
        exact ⟨by omega, by omega, fun _ => rfl⟩
  split
  · rw [← Int.add_emod_right, Int.emod_eq_of_lt (by omega) (by omega)]
  · exact Int.emod_eq_of_lt (by omega) (by omega)

theorem ofResidue_emod {signed : Bool} (h : Representable signed n v) : ofResidue signed n (v % span n) = v := by
  rw [emod_span h, ofResidue]
  cases signed with
  | false =>
    rw [Representable] at h
    simp [Int.not_lt.2 h.1]
  | true =>
    cases n with
    | zero =>
      rw [Representable] at h
      simp [h]
    | succ n =>
      rw [Representable] at h
      have hs := span_succ n
      have hn := succ_ne_zero n
      by_cases hv : v < 0
      · rw [if_pos hv, if_pos ⟨rfl, hn, by omega⟩]
        omega
      · rw [if_neg hv, if_neg fun hc => by omega]

theorem representable_ofResidue (signed : Bool) {u : Int} (h0 : 0 ≤ u) (hu : u < span n) :
    Representable signed n (ofResidue signed n u) ∧ ofResidue signed n u % span n = u := by
  have hmod : u % span n = u := Int.emod_eq_of_lt h0 hu
  cases signed with
  | false =>
    rw [ofResidue, if_neg (by simp), Representable, ← span_eq]
    exact ⟨⟨h0, hu⟩, hmod⟩
  | true =>
    cases n with
    | zero =>
      have : span 0 = 1 := rfl
      rw [ofResidue, if_neg (by simp), Representable]
      exact ⟨by omega, hmod⟩
    | succ n =>
      have hs := span_succ n
      rw [ofResidue]
      split
      · rename_i hc
        rw [Representable, Int.sub_emod_right]
        exact ⟨by omega, hmod⟩
      · rename_i hc
        rw [Representable]
        refine ⟨⟨by omega, ?_⟩, hmod⟩
        by_contra hge
        exact hc ⟨rfl, succ_ne_zero n, by omega⟩

/-! ### Writing and reading -/

/-- The order of the bytes; turning them around twice changes nothing. -/
def arrange (little : Bool) (bs : List UInt8) : List UInt8 := if little then bs else bs.reverse

@[simp] theorem arrange_arrange (little : Bool) (bs : List UInt8) : arrange little (arrange little bs) = bs := by
  cases little <;> simp [arrange]

@[simp] theorem length_arrange (little : Bool) (bs : List UInt8) : (arrange little bs).length = bs.length := by
  cases little <;> simp [arrange]

section Order

variable {order : String} {little signed : Bool}

section

variable (ho : littleEndian? order = .ok little)
include ho

theorem toBytes_eq (v : Int) (n : Nat) : toBytes v n order signed = if v < 0 ∧ signed = false then .error (.arith .negativeToUnsigned)
      else if (if signed then v ≠ 0 ∧ (span n / 2 ≤ v ∨ v < -(span n / 2)) else span n ≤ v) then
        fail "int too big to convert" .tooLarge
      else .ok (arrange little (bytesLE (if v < 0 then v + span n else v).toNat n)) := by
  have hn : ¬ (n : Int) < 0 := Int.not_lt.2 (Int.natCast_nonneg n)
  unfold toBytes
  simp only [ho, bind, Except.bind, if_neg hn, Int.toNat_natCast]
  cases signed <;> simp [span, arrange]

theorem toBytes_ok (h : Representable signed n v) : toBytes v n order signed = .ok (arrange little (bytesLE (v % span n).toNat n)) := by
  obtain ⟨hneg, hbig⟩ := (representable_iff signed n v).1 h
  rw [toBytes_eq ho, if_neg hneg, if_neg hbig, emod_span h]

theorem toBytes_error (h : ¬ Representable signed n v) : ∃ f, toBytes v n order signed = .error f := by
  rw [toBytes_eq ho]
  by_cases hneg : v < 0 ∧ signed = false
  · exact ⟨_, if_pos hneg⟩
  · rw [if_neg hneg]
    by_cases hbig : if signed then v ≠ 0 ∧ (span n / 2 ≤ v ∨ v < -(span n / 2)) else span n ≤ v
    · exact ⟨_, if_pos hbig⟩
    · exact absurd ((representable_iff signed n v).2 ⟨hneg, hbig⟩) h

theorem ofBytes_eq (d : List UInt8) : ofBytes d order signed = .ok (ofResidue signed d.length (ofBytesBE (arrange little d).reverse)) := by
  have harr : (if little then d.reverse else d) = (arrange little d).reverse := by
    cases little <;> simp [arrange]
  have hlen : (arrange little d).reverse.length = d.length := by simp
  unfold ofBytes
  simp only [ho, bind, Except.bind, harr, hlen, ofResidue]
  generalize (arrange little d).reverse = bs at hlen ⊢
  have htop : (signed && bs.head?.any (· ≥ 128)) = true ↔ signed = true ∧ d.length ≠ 0 ∧ span d.length ≤ 2 * (ofBytesBE bs : Int) := by
    have hspan : span d.length ≤ 2 * (ofBytesBE bs : Int) ↔ 256 ^ d.length ≤ 2 * ofBytesBE bs := by
      rw [← natCast_pow_256]
      exact_mod_cast Iff.rfl
    rw [Bool.and_eq_true, head_ge_iff, hlen, hspan, ne_eq, ← length_eq_zero_iff, hlen]
  by_cases h : signed = true ∧ d.length ≠ 0 ∧ span d.length ≤ 2 * (ofBytesBE bs : Int)
  · rw [if_pos h, if_pos (htop.2 h)]
    rfl
  · rw [if_neg h, if_neg fun hc => h (htop.1 hc)]

end

theorem littleEndian?_of_name (h : order = "little" ∨ order = "big") : ∃ little, littleEndian? order = .ok little := by
  rcases h with rfl | rfl
  · exact ⟨true, rfl⟩
  · exact ⟨false, rfl⟩

/-- **Writing and reading bytes undo each other.**  An integer is written into a number of bytes exactly if they can
hold it; the bytes are as many as were asked for, and are read as the integer.  Every byte string is read as an integer
that is written into as many bytes as the same string. -/
theorem bytes_inverse (ho : order = "little" ∨ order = "big") :
    (∀ (v : Int) (n : Nat), ((∃ bs, toBytes v n order signed = .ok bs) ↔ Representable signed n v) ∧
      ∀ bs, toBytes v n order signed = .ok bs → bs.length = n ∧ ofBytes bs order signed = .ok v) ∧
    ∀ d : List UInt8, ∃ v, ofBytes d order signed = .ok v ∧ toBytes v d.length order signed = .ok d := by
  obtain ⟨little, ho⟩ := littleEndian?_of_name ho
  refine ⟨fun v n => ?_, fun d => ?_⟩
  · by_cases h : Representable signed n v
    · have hw := toBytes_ok ho h
      refine ⟨⟨fun _ => h, fun _ => ⟨_, hw⟩⟩, fun bs hbs => ?_⟩
      cases hw.symm.trans hbs
      have hres : (((v % span n).toNat % 256 ^ n : Nat) : Int) = v % span n := by
        have h0 := Int.emod_nonneg v (Int.ne_of_gt (span_pos n))
        rw [Int.natCast_mod, natCast_pow_256, Int.toNat_of_nonneg h0, Int.emod_emod_of_dvd v (Int.dvd_refl _)]
      refine ⟨by simp, ?_⟩
      rw [ofBytes_eq ho, arrange_arrange, ofBytesBE_reverse_bytesLE, length_arrange, length_bytesLE, hres, ofResidue_emod h]
    · obtain ⟨f, hf⟩ := toBytes_error ho h
      rw [hf]
      simp [h]
  · have hlt := ofBytesBE_lt (arrange little d).reverse
    rw [length_reverse, length_arrange] at hlt
    have hlt : (ofBytesBE (arrange little d).reverse : Int) < span d.length := by
      rw [← natCast_pow_256]
      exact Int.ofNat_lt.2 hlt
    obtain ⟨hrep, hmod⟩ := representable_ofResidue signed (Int.natCast_nonneg _) hlt
    refine ⟨_, ofBytes_eq ho d, ?_⟩
    rw [toBytes_ok ho hrep, hmod, Int.toNat_natCast]
    have hread := bytesLE_ofBytesBE (arrange little d).reverse
    rw [length_reverse, length_arrange, reverse_reverse] at hread
    rw [hread, arrange_arrange]

/-- The least integer of one byte, and the byte that it is written as. -/
theorem bytes_inverse_least : toBytes (-128) 1 "little" true = .ok [128] ∧ ofBytes [128] "little" true = .ok (-128) := by
  have hw : toBytes (-128) 1 "little" true = .ok [128] := by rfl
  exact ⟨hw, (((bytes_inverse (.inl rfl)).1 (-128) 1).2 [128] hw).2⟩

end Order

end BigInteger
end FlowCompiler

/-!
## The two readers of literals

A literal is taken apart once, by `Numeral.parse`, and its digits are read twice: into a word, with every step
tested for a word that overflows, and into an integer of any size, which has no limit to test.  Both readings are
compared with `Numeral.magnitude`, the number that digits stand for.  What `BigInteger.format` writes in a base has no
blanks and no mark of another base, so that it is taken apart into the digits that were written.
-/

namespace FlowCompiler

variable {base : Nat} {fuel n : Nat} {cs : List Char}

namespace Numeral

/-! ### Digits -/

/-- The number that digits stand for behind those already read. -/
def magnitude (base : Nat) : (acc : Nat) → List Char → Nat
  | acc, [] => acc
  | acc, c :: cs => magnitude base (acc * base + digitValue c) cs

theorem le_magnitude (hb : 0 < base) (acc : Nat) (cs : List Char) : acc ≤ magnitude base acc cs := by
  induction cs generalizing acc with
  | nil => exact Nat.le_refl acc
  | cons c cs ih =>
    calc acc ≤ acc * base := Nat.le_mul_of_pos_right acc hb
      _ ≤ acc * base + digitValue c := Nat.le_add_right _ _
      _ ≤ magnitude base (acc * base + digitValue c) cs := ih _

/-- The two words of a product, the sum with a digit and the limit are tested by words; together they test the number. -/
theorem accumulate_step {acc base limit d : UInt64} (hb : base.toNat ≤ 36) (hd : d.toNat < base.toNat)
    (hacc : acc.toNat ≤ limit.toNat) (hlimit : limit.toNat ≤ 2 ^ 63) :
    let product := Word.mulWide acc base
    let sum := Word.addCarry product.2 d
    if acc.toNat * base.toNat + d.toNat ≤ limit.toNat then
      product.1 = 0 ∧ sum.2 = 0 ∧ sum.1.toNat = acc.toNat * base.toNat + d.toNat
    else (product.1 != 0 || sum.2 != 0 || decide (sum.1 > limit)) = true := by
  have hprod : acc.toNat * base.toNat ≤ limit.toNat * 36 := Nat.mul_le_mul hacc hb
  simp only [Word.mulWide, Word.addCarry, UInt64.toNat_ofNat']
  generalize acc.toNat * base.toNat = p at hprod ⊢
  split
  · rename_i h
    have hp : p % 2 ^ 64 = p := Nat.mod_eq_of_lt (by omega)
    rw [hp, Nat.div_eq_of_lt (by omega), Nat.div_eq_of_lt (by omega), Nat.mod_eq_of_lt (by omega)]
    exact ⟨rfl, rfl, rfl⟩
  · rename_i h
    simp only [Bool.or_eq_true, bne_iff_ne, ne_eq, decide_eq_true_eq, gt_iff_lt, UInt64.lt_iff_toNat_lt, ← UInt64.toNat_inj,
      UInt64.toNat_ofNat', UInt64.toNat_zero]
    omega

/-- Reading digits into a word gives the number if it is within the limit, and nothing otherwise. -/
theorem accumulate_eq (base limit : UInt64) (hbase : 0 < base.toNat ∧ base.toNat ≤ 36) (hlimit : limit.toNat ≤ 2 ^ 63)
    (hcs : ∀ c ∈ cs, digitValue c < base.toNat) (acc : UInt64) (hacc : acc.toNat ≤ limit.toNat) : accumulate base limit acc cs =
      if magnitude base.toNat acc.toNat cs ≤ limit.toNat then some (UInt64.ofNat (magnitude base.toNat acc.toNat cs)) else none := by
  induction cs generalizing acc with
  | nil => rw [accumulate, magnitude, if_pos hacc, UInt64.ofNat_toNat]
  | cons c cs ih =>
    have hc := hcs c List.mem_cons_self
    have hd : (UInt64.ofNat (digitValue c)).toNat = digitValue c := by
      rw [UInt64.toNat_ofNat']
      exact Nat.mod_eq_of_lt (by omega)
    have hstep := accumulate_step hbase.2 (hd.symm ▸ hc) hacc hlimit
    rw [hd] at hstep
    rw [accumulate, magnitude]
    split at hstep
    · rename_i hle
      obtain ⟨hhi, hcarry, hsum⟩ := hstep
      have hfits : ¬ (Word.addCarry (Word.mulWide acc base).2 (UInt64.ofNat (digitValue c))).1 > limit := by
        rw [gt_iff_lt, UInt64.lt_iff_toNat_lt, hsum]
        omega
      simp only [hhi, hcarry, bne_self_eq_false, Bool.false_or, decide_eq_true_eq, if_neg hfits]
      rw [ih (fun c hmem => hcs c (List.mem_cons_of_mem _ hmem)) _ (by rw [hsum]; exact hle), hsum]
    · rename_i hgt
      have hmore := le_magnitude hbase.1 (acc.toNat * base.toNat + digitValue c) cs
      rw [if_neg (by omega)]
      exact if_pos hstep

/-- A base that a mark or the caller asks for is at least two and at most 36, and with no base asked for it is a usual one. -/
theorem stripMark_base (base : Nat) (hbase : base = 0 ∨ 2 ≤ base ∧ base ≤ 36) (cs : List Char) :
    2 ≤ (stripMark base cs).1 ∧ (stripMark base cs).1 ≤ 36 := by
  unfold stripMark
  split
  · rename_i b hmark
    have hb : b = 16 ∨ b = 8 ∨ b = 2 := by
      unfold markBase at hmark
      grind
    grind
  · grind

/-- What is taken apart has a base and at least one digit, and all its digits are of that base. -/
theorem parse_ok {s : String} {base : Int} {n : Numeral} (h : parse s base = .ok n) :
    (2 ≤ n.base ∧ n.base ≤ 36) ∧ n.digits ≠ [] ∧ ∀ c ∈ n.digits, digitValue c < n.base := by
  unfold parse at h
  split at h
  · cases h
  · rename_i hbase
    have hb := stripMark_base base.toNat (by grind) (stripSign (trim s.toList)).2
    simp only at h
    split at h
    · cases h
    · rename_i hdigits
      cases h
      simp only [Bool.or_eq_true, List.isEmpty_iff, List.any_eq_true, decide_eq_true_eq, not_or, not_exists, not_and, ge_iff_le, not_le] at hdigits
      exact ⟨hb, hdigits⟩

theorem parse_error {s : String} {base : Int} {f : Failure} (h : parse s base = .error f) : ∃ text, f = .badLiteral text := by
  unfold parse at h
  split at h
  · cases h
    exact ⟨_, rfl⟩
  · simp only at h
    split at h
    · cases h
      exact ⟨_, rfl⟩
    · cases h

/-- The integer that a literal stands for. -/
def value (n : Numeral) : Int := if n.negative then -(magnitude n.base 0 n.digits : Int) else magnitude n.base 0 n.digits

theorem toNat_limit (negative : Bool) : (limit negative).toNat = if negative then 2 ^ 63 else 2 ^ 63 - 1 := by
  cases negative <;> rfl

/-- The limit lets through exactly the literals whose value is a word. -/
theorem fits_value (n : Numeral) : Word.fits n.value = decide (magnitude n.base 0 n.digits ≤ (limit n.negative).toNat) := by
  rw [Bool.eq_iff_iff, decide_eq_true_eq, toNat_limit, Word.fits, Bool.and_eq_true, decide_eq_true_eq, decide_eq_true_eq, value]
  split <;> omega

/-- A magnitude becomes a word by its sign; starting from one below changes nothing. -/
theorem signed_word (negative : Bool) (m : Nat) : (if negative then -(UInt64.ofNat m - 1).toInt64 - 1 else (UInt64.ofNat m).toInt64) =
      Int64.ofInt (if negative then -(m : Int) else m) := by
  cases negative with
  | false => exact UInt64.toInt64_ofNat'.trans Int64.ofInt_eq_ofNat.symm
  | true =>
    have hone : (1 : UInt64).toInt64 = 1 := rfl
    simp only [if_true]
    rw [UInt64.toInt64_sub, hone, UInt64.toInt64_ofNat', Int64.neg_sub, Int64.ofInt_neg, Int64.ofInt_eq_ofNat]
    grind

theorem toWord_eq (s : String) (base : Int) : toWord s base = (parse s base).bind fun n =>
      if Word.fits n.value then .ok (Int64.ofInt n.value) else .error (.literalTooLarge (String.ofList (trim s.toList))) := by
  unfold toWord
  cases hn : parse s base with
  | error f => rfl
  | ok n =>
    obtain ⟨⟨hlo, hhi⟩, -, hdigits⟩ := parse_ok hn
    have hbase : (UInt64.ofNat n.base).toNat = n.base := by
      rw [UInt64.toNat_ofNat']
      exact Nat.mod_eq_of_lt (by omega)
    have hread := accumulate_eq (UInt64.ofNat n.base) (limit n.negative) (by rw [hbase]; omega)
      (by rw [toNat_limit]; split <;> decide) (by rw [hbase]; exact hdigits) 0 (Nat.zero_le _)
    rw [hbase] at hread
    simp only [bind, Except.bind, hread, fits_value, decide_eq_true_eq]
    rw [UInt64.toNat_zero]
    by_cases h : magnitude n.base 0 n.digits ≤ (limit n.negative).toNat
    · simp only [if_pos h]
      rw [signed_word, value]
    · simp only [if_neg h]

end Numeral

namespace BigInteger

/-! ### Reading into an integer -/

open Numeral

theorem readDigits?_eq (h : ∀ c ∈ cs, digitValue c < base) (acc : Nat) : readDigits? base acc cs = some (magnitude base acc cs) := by
  induction cs generalizing acc with
  | nil => rfl
  | cons c cs ih =>
    rw [readDigits?, if_pos (h c List.mem_cons_self), ih fun c hc => h c (List.mem_cons_of_mem _ hc), magnitude]

theorem digitValue_toLower (c : Char) : digitValue c.toLower = digitValue c := by
  by_cases hc : 65 ≤ c.toNat ∧ c.toNat ≤ 90
  · have hall : ∀ k : Fin 26, digitValue (Char.ofNat (65 + k)).toLower = digitValue (.ofNat (65 + k)) := by decide
    have hk := hall ⟨c.toNat - 65, by omega⟩
    rwa [show 65 + (c.toNat - 65) = c.toNat by omega, Char.ofNat_toNat] at hk
  · have small : ¬ (c.val ≥ 65 ∧ c.val ≤ 90) := by rwa [ge_iff_le, UInt32.le_iff_toNat_le, UInt32.le_iff_toNat_le]
    exact congrArg digitValue (dif_neg small)

theorem magnitude_toLower (base acc : Nat) (cs : List Char) : magnitude base acc (cs.map .toLower) = magnitude base acc cs := by
  induction cs generalizing acc with
  | nil => rfl
  | cons c cs ih => rw [List.map_cons, magnitude, magnitude, digitValue_toLower, ih]

theorem ofText?_eq (hbase : base ≤ 36) (hne : cs ≠ []) (h : ∀ c ∈ cs, digitValue c < base) : ofText? base cs = some (magnitude base 0 cs : Int) := by
  have hread := readDigits?_eq h 0
  cases cs with
  | nil => exact absurd rfl hne
  | cons c cs =>
    have hc := h c List.mem_cons_self
    have hminus : c ≠ '-' := by
      rintro rfl
      exact absurd hc (not_lt.2 (le_trans hbase (by decide)))
    have hplus : c ≠ '+' := by
      rintro rfl
      exact absurd hc (not_lt.2 (le_trans hbase (by decide)))
    unfold ofText?
    split
    rename_i negative ds hsign
    split at hsign
    · simp_all
    · simp_all
    · cases hsign
      simp [hread]

theorem ofLiteral_eq (s : String) (base : Int) : ofLiteral s base = (parse s base).map value := by
  unfold ofLiteral
  cases hn : parse s base with
  | error f => rfl
  | ok n =>
    obtain ⟨⟨-, hhi⟩, hne, hdigits⟩ := parse_ok hn
    have hlower : ∀ c ∈ n.digits.map .toLower, digitValue c < n.base := by
      intro c hc
      obtain ⟨c', hc', rfl⟩ := List.mem_map.1 hc
      rw [digitValue_toLower]
      exact hdigits c' hc'
    have hread := ofText?_eq hhi (by simpa using hne) hlower
    simp only [bind, Except.bind, hread, magnitude_toLower]
    rfl

/-! ### Written numbers -/

theorem digitValue_digitChar {d : Nat} (h : d < 36) : digitValue (digitChar d) = d := by
  have hall : ∀ d : Fin 36, digitValue (digitChar d) = d := by decide
  exact hall ⟨d, h⟩

/-- Reading written digits behind others puts the number behind them; the fuel is enough for bits, so for digits. -/
theorem magnitude_digitsAux (hb : 2 ≤ base ∧ base ≤ 36) (hn : n < 2 ^ fuel) (hfuel : fuel ≠ 0)
    (cs : List Char) : magnitude base 0 (digitsAux base fuel n cs) = magnitude base n cs := by
  induction fuel generalizing n cs with
  | zero => exact absurd rfl hfuel
  | succ fuel ih =>
    have hdigit : digitValue (digitChar (n % base)) = n % base := by
      have := Nat.mod_lt n (show 0 < base by omega)
      exact digitValue_digitChar (by omega)
    have hsplit : n / base * base + n % base = n := Nat.div_add_mod' n base
    rw [digitsAux]
    split
    · rename_i hq
      rw [magnitude, hdigit]
      rw [hq] at hsplit
      rw [hsplit]
    · rename_i hq
      have hless : n / base < 2 ^ fuel := by
        have := Nat.div_le_div_left hb.1 (show 0 < 2 by decide) (a := n)
        rw [Nat.pow_succ] at hn
        omega
      have hmore : fuel ≠ 0 := by
        rintro rfl
        exact hq (Nat.lt_one_iff.1 hless)
      rw [ih hless hmore, magnitude, hdigit, hsplit]

theorem mem_digitsAux (hb : 0 < base) {c : Char} (h : c ∈ digitsAux base fuel n cs) : c ∈ cs ∨ ∃ d < base, c = digitChar d := by
  induction fuel generalizing n cs with
  | zero => exact .inl h
  | succ fuel ih =>
    have hhere : c ∈ digitChar (n % base) :: cs → c ∈ cs ∨ ∃ d < base, c = digitChar d := by
      rw [List.mem_cons]
      rintro (rfl | hc)
      · exact .inr ⟨_, Nat.mod_lt n hb, rfl⟩
      · exact .inl hc
    rw [digitsAux] at h
    split at h
    · exact hhere h
    · exact (ih h).elim hhere .inr

theorem digitChar_plain {d : Nat} (h : d < 36) :
    isBlank (digitChar d) = false ∧ digitChar d ≠ '-' ∧ digitChar d ≠ '+' ∧ (digitChar d = '0' → d = 0) := by
  have hall : ∀ d : Fin 36, isBlank (digitChar d) = false ∧ digitChar d ≠ '-' ∧ digitChar d ≠ '+' ∧ (digitChar d = '0' → d.1 = 0) := by
    decide
  exact hall ⟨d, h⟩

/-- A number that is not zero is written with a first digit that is not zero. -/
theorem digitsAux_head (hb : 2 ≤ base ∧ base ≤ 36) (hn : n < 2 ^ fuel) (hpos : n ≠ 0) (cs : List Char) :
    ∃ c rest, c ≠ '0' ∧ digitsAux base fuel n cs = c :: rest := by
  induction fuel generalizing n cs with
  | zero => exact absurd (Nat.lt_one_iff.1 hn) hpos
  | succ fuel ih =>
    rw [digitsAux]
    split
    · rename_i hq
      have hlt : n < base := (Nat.div_eq_zero_iff_lt (by omega)).1 hq
      refine ⟨digitChar (n % base), cs, fun h0 => hpos ?_, rfl⟩
      rw [Nat.mod_eq_of_lt hlt] at h0
      exact (digitChar_plain (by omega)).2.2.2 h0
    · rename_i hq
      refine ih ?_ hq _
      rw [Nat.pow_succ] at hn
      have := Nat.div_le_div_left hb.1 (show 0 < 2 by decide) (a := n)
      omega

/-- Only the number zero starts with the digit zero, and it ends there. -/
theorem digits_first (hb : 2 ≤ base ∧ base ≤ 36) (n : Nat) :
    digitsAux base (n.log2 + 1) n [] = ['0'] ∨ ∃ c rest, c ≠ '0' ∧ digitsAux base (n.log2 + 1) n [] = c :: rest := by
  by_cases hn : n = 0
  · subst hn
    refine .inl ?_
    rw [digitsAux, Nat.zero_mod, Nat.zero_div, if_pos rfl]
    rfl
  · exact .inr (digitsAux_head hb Nat.lt_log2_self hn [])

theorem dropWhile_of_plain (h : ∀ c ∈ cs, isBlank c = false) : cs.dropWhile isBlank = cs := by
  cases cs with
  | nil => rfl
  | cons c cs => exact List.dropWhile_cons_of_neg (by simp [h c List.mem_cons_self])

theorem trim_of_plain (h : ∀ c ∈ cs, isBlank c = false) : trim cs = cs := by
  rw [trim, dropWhile_of_plain h, trimRight, dropWhile_of_plain (by simpa using h), List.reverse_reverse]

/-- Nothing but a sign is taken from digits. -/
theorem stripSign_of_plain (h : ∀ c ∈ cs, isBlank c = false ∧ c ≠ '-' ∧ c ≠ '+') (negative : Bool) :
    stripSign ((if negative then ['-'] else []) ++ cs) = (negative, cs) := by
  cases negative with
  | true =>
    rw [if_pos rfl, List.singleton_append, stripSign, dropWhile_of_plain fun c hc => (h c hc).1]
  | false =>
    rw [if_neg Bool.false_ne_true, List.nil_append, stripSign]
    · rintro r rfl
      exact (h '-' List.mem_cons_self).2.1 rfl
    · rintro r rfl
      exact (h '+' List.mem_cons_self).2.2 rfl

theorem markBase_digits (hb : 2 ≤ base ∧ base ≤ 36) (n : Nat) : markBase (digitsAux base (n.log2 + 1) n []) = none := by
  rcases digits_first hb n with h | ⟨c, rest, hc, h⟩
  · rw [h]
    rfl
  · rw [h]
    unfold markBase
    split
    · rename_i heq
      exact absurd (List.head_eq_of_cons_eq heq) hc
    · rfl

/-- What is written in a base is taken apart into its sign and the digits. -/
theorem parse_format (hb : 2 ≤ base ∧ base ≤ 36) (v : Int) : parse (format v base "" "") base =
      .ok { negative := decide (v < 0), base := base, digits := digitsAux base (v.natAbs.log2 + 1) v.natAbs [] } := by
  have hne : digitsAux base (v.natAbs.log2 + 1) v.natAbs [] ≠ [] := by
    rcases digits_first hb v.natAbs with h | ⟨c, rest, -, h⟩ <;> simp [h]
  have hmark := markBase_digits hb v.natAbs
  generalize hds : digitsAux base (v.natAbs.log2 + 1) v.natAbs [] = ds at hne hmark ⊢
  have hmem : ∀ c ∈ ds, ∃ d < base, c = digitChar d := by
    intro c hc
    rw [← hds] at hc
    exact (mem_digitsAux (by omega) hc).resolve_left (by simp)
  have hplain : ∀ c ∈ ds, isBlank c = false ∧ c ≠ '-' ∧ c ≠ '+' := by
    intro c hc
    obtain ⟨d, hd, rfl⟩ := hmem c hc
    have hp := digitChar_plain (d := d) (by omega)
    exact ⟨hp.1, hp.2.1, hp.2.2.1⟩
  have hvalue : ∀ c ∈ ds, digitValue c < base := by
    intro c hc
    obtain ⟨d, hd, rfl⟩ := hmem c hc
    rwa [digitValue_digitChar (by omega)]
  have htext : (format v base "" "").toList = (if decide (v < 0) then ['-'] else []) ++ ds := by
    rw [format, digits, hds]
    by_cases hv : v < 0 <;> simp [hv]
  have htrim : trim (format v base "" "").toList = (if decide (v < 0) then ['-'] else []) ++ ds := by
    rw [htext]
    refine trim_of_plain fun c hc => ?_
    rcases List.mem_append.1 hc with hc | hc
    · split at hc
      · rw [List.mem_singleton.1 hc]
        rfl
      · cases hc
    · exact (hplain c hc).1
  have hstrip : stripMark base ds = (base, ds) := by
    unfold stripMark
    rw [hmark]
    exact if_pos (by omega)
  have hgood : ¬ (ds.isEmpty || ds.any fun c => decide (digitValue c ≥ base)) = true := by
    simp only [Bool.or_eq_true, List.isEmpty_iff, List.any_eq_true, decide_eq_true_eq, not_or, not_exists, not_and, ge_iff_le, not_le]
    exact ⟨hne, hvalue⟩
  unfold parse
  rw [if_neg (by simp; omega), htrim, stripSign_of_plain hplain, Int.toNat_natCast]
  simp only [hstrip]
  exact if_neg hgood

theorem ofLiteral_format (hb : 2 ≤ base ∧ base ≤ 36) (v : Int) : ofLiteral (format v base "" "") base = .ok v := by
  have hread : magnitude base 0 (digitsAux base (v.natAbs.log2 + 1) v.natAbs []) = v.natAbs :=
    magnitude_digitsAux hb Nat.lt_log2_self (Nat.succ_ne_zero _) []
  rw [ofLiteral_eq, parse_format hb, Except.map, value, hread]
  congr 1
  by_cases hv : v < 0
  · rw [if_pos (decide_eq_true hv)]
    omega
  · rw [if_neg (by simpa using hv)]
    omega

/-- **Literals have one grammar.**  The two readers refuse the same texts as no literals, and give the same cause; one
that reads integers of any size fails for no other cause.  Where it reads an integer, the reader of words reads the same
if it is a word, and otherwise says that the literal is too large.  Every integer, written in a base that literals can
have, is read back. -/
theorem literals_one_grammar : (∀ (s : String) (base : Int),
      (∀ text, Numeral.toWord s base = .error (.badLiteral text) ↔ ofLiteral s base = .error (.badLiteral text)) ∧
      (∀ f, ofLiteral s base = .error f → ∃ text, f = .badLiteral text) ∧
      ∀ v, ofLiteral s base = .ok v → Numeral.toWord s base = if -2 ^ 63 ≤ v ∧ v ≤ 2 ^ 63 - 1 then .ok (Int64.ofInt v)
          else .error (.literalTooLarge (String.ofList (trim s.toList)))) ∧
    ∀ (v : Int) (base : Nat), 2 ≤ base ∧ base ≤ 36 → ofLiteral (format v base "" "") base = .ok v := by
  refine ⟨fun s base => ?_, fun v base hb => ofLiteral_format hb v⟩
  rw [ofLiteral_eq, toWord_eq]
  cases hn : parse s base with
  | error f =>
    simp only [Except.bind, Except.map, Except.error.injEq, reduceCtorEq, false_imp_iff, implies_true, and_true, true_and]
    rintro g rfl
    exact parse_error hn
  | ok n =>
    have hfits : Word.fits n.value = true ↔ -2 ^ 63 ≤ n.value ∧ n.value ≤ 2 ^ 63 - 1 := by
      rw [Word.fits, Bool.and_eq_true, decide_eq_true_eq, decide_eq_true_eq]
      omega
    simp only [Except.bind, Except.map, reduceCtorEq, false_imp_iff, implies_true, true_and, Except.ok.injEq, hfits]
    refine ⟨fun text => ?_, fun v hv => hv ▸ rfl⟩
    split <;> simp

/-- The least word is the one whose magnitude is no word. -/
theorem literals_one_grammar_least : ofLiteral " -0x8000000000000000" 0 = .ok (-9223372036854775808) ∧
      Numeral.toWord " -0x8000000000000000" 0 = .ok Int64.minValue := by
  have hread : ofLiteral " -0x8000000000000000" 0 = .ok (-9223372036854775808) := by rfl
  exact ⟨hread, ((literals_one_grammar.1 _ _).2.2 _ hread).trans (if_pos (by decide))⟩

end BigInteger
end FlowCompiler
