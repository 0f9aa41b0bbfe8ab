import Mathlib.Data.Finset.Card
import Mathlib.Data.Finset.Range
import Mathlib.Data.Finset.Union
import Mathlib.Data.Nat.Count
import Mathlib.Order.Bounds.Basic
import FlowCompiler.Proofs.Union.Ranges

/-!
# What is known of an integer

A fact about integers is valid when its parts agree: the sign is that of the range, the range has a value, and a
constant is the only value of its range.  Every way to make a fact gives a valid one, and unions keep them valid.
-/

namespace FlowCompiler

variable {n : Int} {r : Range}

namespace Range

instance : Membership Int Range where
  mem r n := r.lo ≤ n ∧ n ≤ r.hi

theorem mem_iff : n ∈ r ↔ r.lo ≤ n ∧ n ≤ r.hi := Iff.rfl

instance (n : Int) (r : Range) : Decidable (n ∈ r) := inferInstanceAs (Decidable (r.lo ≤ n ∧ n ≤ r.hi))

instance (n : Int) : Decidable (IsWord n) := inferInstanceAs (Decidable (minWord ≤ n ∧ n ≤ maxWord))

instance (r : Range) : Decidable r.Words := inferInstanceAs (Decidable (IsWord r.lo ∧ IsWord r.hi))

theorem mem_nonneg (h : IsWord n) : n ∈ nonneg ↔ 0 ≤ n := ⟨And.left, fun hn => ⟨hn, h.2⟩⟩

theorem contains_iff {r o : Range} : r.contains o = true ↔ r.lo ≤ o.lo ∧ o.hi ≤ r.hi := by simp [contains]

theorem isWord_iff : isWord n = true ↔ IsWord n := by simp [isWord, IsWord]

theorem Words.isWord (hr : r.Words) (h : n ∈ r) : IsWord n := ⟨Int.le_trans hr.1.1 h.1, Int.le_trans h.2 hr.2.2⟩

theorem words_full : full.Words := by decide

theorem words_nonneg : nonneg.Words := by decide

theorem words_point (h : IsWord n) : (⟨n, n⟩ : Range).Words := ⟨h, h⟩

theorem contains_meet {a b : Range} (ha : a.Words) (hb : b.Words) : (a.meet b).contains a = true := by
  rw [contains_iff, meet]
  split
  · exact ⟨Int.le_refl _, Int.le_refl _⟩
  · have hull := words_hull ha hb
    have hlo := quantizeDown_le hull.1
    have hhi := (quantizeUp_le hull.2 (isPoint_quantizeUp hull.2)).1 le_rfl
    simp only [Range.hull, widen] at hlo hhi ⊢
    omega

end Range
namespace IntFact

instance : Membership Int IntFact where
  mem i n := n ∈ i.getRange

instance (n : Int) (i : IntFact) : Decidable (n ∈ i) := inferInstanceAs (Decidable (n ∈ i.getRange))

theorem mem_iff {i : IntFact} : n ∈ i ↔ i.getRange.lo ≤ n ∧ n ≤ i.getRange.hi := Iff.rfl

/-- The parts of a fact agree: the sign with the range, and a constant with the range that holds nothing else. -/
structure Valid (i : IntFact) : Prop where
  proper : i.Proper
  inhabited : i.getRange.lo ≤ i.getRange.hi
  const : ∀ n ∈ i.const, i.unsigned = false → i.getRange = ⟨n, n⟩

variable {i j : IntFact}

/-- A signed fact is its constant, its width and its range. -/
theorem Proper.eq_make (h : i.Proper) (hi : i.unsigned = false) : i = make i.const false i.bits i.getRange := by
  obtain ⟨r, hr, e⟩ := h
  rw [hi] at e
  have : i.getRange = r := by rw [e, getRange_make]
  rw [this]
  exact e

theorem Proper.words (h : i.Proper) : i.getRange.Words := by
  obtain ⟨r, hr, e⟩ := h
  cases hi : i.unsigned with
  | true =>
    rw [e, hi]
    exact Range.words_nonneg
  | false =>
    rw [e, hi, getRange_make]
    exact hr

/-- A signed fact says that the integer is not negative just when its range does. -/
theorem Proper.nonneg_iff (h : i.Proper) (hi : i.unsigned = false) : i.nonneg = true ↔ 0 ≤ i.getRange.lo := by
  rw [h.eq_make hi, getRange_make, make, setRange, if_neg (by simp)]
  split
  · rename_i hfull
    rw [eq_of_beq hfull]
    exact ⟨fun h => Bool.noConfusion h, fun h => absurd h (by decide)⟩
  · exact decide_eq_true_iff

theorem Valid.eq_const (h : i.Valid) (hi : i.unsigned = false) {n m : Int} (hc : i.const = some m) (hn : n ∈ i) : n = m := by
  have e := h.const m hc hi
  rw [mem_iff, e] at hn
  exact Int.le_antisymm hn.2 hn.1

/-! ## Making facts -/

theorem valid_make {c : Option Int} (n : Nat) (hr : r.Words) (hne : r.lo ≤ r.hi) (hc : ∀ m ∈ c, r = ⟨m, m⟩) : (make c false n r).Valid where
  proper := proper_make hr
  inhabited := by rwa [getRange_make]
  const m hm _ := by
    rw [getRange_make]
    exact hc m (by simpa using hm)

theorem valid_ofRange {lo hi : Int} (hlo : Range.IsWord lo) (hhi : Range.IsWord hi) (h : lo ≤ hi) : (ofRange lo hi).Valid :=
  valid_make 64 ⟨hlo, hhi⟩ h (by simp)

theorem valid_ofConst (h : Range.IsWord n) : (ofConst n).Valid := valid_make 64 (Range.words_point h) le_rfl (by simp)

theorem valid_ofWidth (bits : Nat) (unsigned : Bool) : (ofWidth bits unsigned).Valid := by
  cases unsigned with
  | true => exact ⟨⟨.full, Range.words_full, rfl⟩, show Range.nonneg.lo ≤ Range.nonneg.hi by decide, by simp [ofWidth]⟩
  | false => exact valid_make (c := none) bits Range.words_full (by decide) (by simp)

theorem make_set_const (c c' : Option Int) (u : Bool) (n : Nat) (r : Range) : ({ make c u n r with const := c' } : IntFact) = make c' u n r := by
  simp only [make, setRange]
  split
  · rfl
  · split <;> rfl

theorem make_set_bits (c : Option Int) (u : Bool) (n n' : Nat) (r : Range) : ({ make c u n r with bits := n' } : IntFact) = make c u n' r := by
  simp only [make, setRange]
  split
  · rfl
  · split <;> rfl

theorem exists_make_of_ends (n : Nat) (r : Range) (constant : Bool) :
    ∃ c, (if constant && decide (r.lo = r.hi) then { make none false n r with const := some r.lo } else make none false n r) =
      make c false n r ∧ ∀ m ∈ c, r = ⟨m, m⟩ := by
  split
  · rename_i h
    simp only [Bool.and_eq_true, decide_eq_true_eq] at h
    refine ⟨some r.lo, make_set_const .., fun m hm => ?_⟩
    obtain rfl := Option.some.inj hm
    obtain ⟨lo, hi⟩ := r
    simpa using h.2.symm
  · exact ⟨none, rfl, nofun⟩

/-! ## Unions -/

theorem getRange_union (hi : i.Proper) (hj : j.Proper) (si : i.unsigned = false) (sj : j.unsigned = false) :
    (i.union j).getRange = i.getRange.meet j.getRange := by
  conv_lhs => rw [hi.eq_make si, hj.eq_make sj]
  rw [union_make]
  exact getRange_make ..

theorem unsigned_union (i j : IntFact) : (i.union j).unsigned = (i.unsigned || j.unsigned) := by
  simp only [union, setRange]
  split
  · rfl
  · rename_i h
    repeat' split
    all_goals rfl

theorem bits_union (i j : IntFact) : (i.union j).bits = max i.bits j.bits := by
  simp only [union, setRange]
  repeat' split
  all_goals rfl

theorem const_union (i j : IntFact) : (i.union j).const = if i.const = j.const then i.const else none := by
  simp only [union, setRange]
  repeat' split
  all_goals rfl

theorem Proper.getRange_of_unsigned (h : i.Proper) (hi : i.unsigned = true) : i.getRange = .nonneg := by
  obtain ⟨r, hr, e⟩ := h
  rw [e, hi]
  rfl

theorem contains_union (hi : i.Proper) (hj : j.Proper) (h : i.unsigned = j.unsigned) : (i.union j).getRange.contains i.getRange = true := by
  cases sj : j.unsigned with
  | true =>
    have hu : (i.union j).unsigned = true := by rw [unsigned_union, h, sj]; rfl
    rw [(hi.union hj).getRange_of_unsigned hu, hi.getRange_of_unsigned (h.trans sj)]
    decide
  | false =>
    rw [getRange_union hi hj (h.trans sj) sj]
    exact Range.contains_meet hi.words hj.words

end IntFact
end FlowCompiler

/-!
## Unions of integers come to rest

Ends of ranges move outwards, and only to points.  There are 128 points, so the two ends have at most that many points
left to move to each; a union that changes anything uses one of them up, or it drops the constant, which it does once.
-/

namespace FlowCompiler

variable {v : Int} {p : Int}

namespace Range

/-! ### The nearest points -/

theorem isGreatest_quantizeDown (hv : IsWord v) : IsGreatest {p | IsPoint p ∧ p ≤ v} (quantizeDown v) := by
  constructor
  · exact ⟨isPoint_quantizeDown hv, quantizeDown_le hv⟩
  · intro p hp
    exact (le_quantizeDown hv hp.1).2 hp.2

theorem le_quantizeUp (hv : IsWord v) : v ≤ quantizeUp v := (quantizeUp_le hv (isPoint_quantizeUp hv)).1 le_rfl

theorem isLeast_quantizeUp (hv : IsWord v) : IsLeast {p | IsPoint p ∧ v ≤ p} (quantizeUp v) := by
  constructor
  · exact ⟨isPoint_quantizeUp hv, le_quantizeUp hv⟩
  · intro p hp
    exact (quantizeUp_le hv hp.1).2 hp.2

theorem quantizeDown_of_isPoint (hp : IsPoint p) : quantizeDown p = p :=
  le_antisymm (quantizeDown_le hp.isWord) ((le_quantizeDown hp.isWord hp).2 le_rfl)

theorem quantizeUp_of_isPoint (hp : IsPoint p) : quantizeUp p = p := le_antisymm ((quantizeUp_le hp.isWord hp).2 le_rfl) (le_quantizeUp hp.isWord)

theorem quantizeDown_mono {u v : Int} (hu : IsWord u) (hv : IsWord v) (h : u ≤ v) : quantizeDown u ≤ quantizeDown v := by
  rw [le_quantizeDown hv (isPoint_quantizeDown hu)]
  exact Int.le_trans (quantizeDown_le hu) h

theorem quantizeUp_mono {u v : Int} (hu : IsWord u) (hv : IsWord v) (h : u ≤ v) : quantizeUp u ≤ quantizeUp v := by
  rw [quantizeUp_le hu (isPoint_quantizeUp hv)]
  exact Int.le_trans h (le_quantizeUp hv)

/-! ### Room to grow -/

/-- All points. -/
def points : Finset Int := (Finset.range 64).image (fun k => (2 : Int) ^ k - 1) ∪ (Finset.range 64).image (fun k => -(2 : Int) ^ k)

theorem mem_points : p ∈ points ↔ IsPoint p := by
  simp only [points, IsPoint, Finset.mem_union, Finset.mem_image, Finset.mem_range]
  constructor
  · rintro (⟨k, hk, rfl⟩ | ⟨k, hk, rfl⟩)
    · exact ⟨k, by omega, .inl rfl⟩
    · exact ⟨k, by omega, .inr rfl⟩
  · rintro ⟨k, hk, rfl | rfl⟩
    · exact .inl ⟨k, by omega, rfl⟩
    · exact .inr ⟨k, by omega, rfl⟩

theorem card_points_le : points.card ≤ 128 := by
  have hcard (f : Nat → Int) : ((Finset.range 64).image f).card ≤ 64 := by
    simpa using Finset.card_image_le (s := Finset.range 64) (f := f)
  calc points.card ≤ _ := Finset.card_union_le _ _
    _ ≤ 64 + 64 := Nat.add_le_add (hcard _) (hcard _)

/-- The points that the lower end may still move to. -/
def below (r : Range) : Finset Int := points.filter (· < r.lo)

/-- The points that the upper end may still move to. -/
def above (r : Range) : Finset Int := points.filter (r.hi < ·)

/-- How often the ends may move. -/
def room (r : Range) : Nat := r.below.card + r.above.card

variable {r s : Range}

theorem below_subset (h : s.lo ≤ r.lo) : s.below ⊆ r.below := by
  intro p hp
  simp only [below, Finset.mem_filter] at hp ⊢
  exact ⟨hp.1, by omega⟩

theorem above_subset (h : r.hi ≤ s.hi) : s.above ⊆ r.above := by
  intro p hp
  simp only [above, Finset.mem_filter] at hp ⊢
  exact ⟨hp.1, by omega⟩

theorem below_ssubset (hs : IsPoint s.lo) (h : s.lo < r.lo) : s.below ⊂ r.below := by
  refine (Finset.ssubset_iff_of_subset (below_subset h.le)).2 ⟨s.lo, ?_, ?_⟩
  · simp [below, mem_points, hs, h]
  · simp [below]

theorem above_ssubset (hs : IsPoint s.hi) (h : r.hi < s.hi) : s.above ⊂ r.above := by
  refine (Finset.ssubset_iff_of_subset (above_subset h.le)).2 ⟨s.hi, ?_, ?_⟩
  · simp [above, mem_points, hs, h]
  · simp [above]

theorem room_le (h : s.contains r = true) : s.room ≤ r.room := by
  rw [contains_iff] at h
  exact Nat.add_le_add (Finset.card_le_card (below_subset h.1)) (Finset.card_le_card (above_subset h.2))

/-- A range that takes in another one and becomes a different one has less room to grow. -/
theorem room_meet_lt (hr : r.Words) (hs : s.Words) (hne : r.meet s ≠ r) : (r.meet s).room < r.room := by
  have hle := contains_iff.1 (contains_meet hr hs)
  have hwide : r.meet s = r.widen s := if_neg fun e => hne (by rw [← e, meet_self])
  have hull := words_hull hr hs
  have hlo : IsPoint (r.meet s).lo := by
    rw [hwide]
    exact isPoint_quantizeDown hull.1
  have hhi : IsPoint (r.meet s).hi := by
    rw [hwide]
    exact isPoint_quantizeUp hull.2
  have hbelow := Finset.card_le_card (below_subset hle.1)
  have habove := Finset.card_le_card (above_subset hle.2)
  by_cases h : (r.meet s).lo < r.lo
  · have := Finset.card_lt_card (below_ssubset hlo h)
    unfold room
    omega
  · have hmoved : r.hi < (r.meet s).hi := by
      by_contra hhi
      refine hne ?_
      rcases hm : r.meet s with ⟨lo, hi⟩
      rw [hm] at h hhi hle
      cases r
      simp only [Range.mk.injEq] at *
      omega
    have := Finset.card_lt_card (above_ssubset hhi hmoved)
    unfold room
    omega

theorem room_le_card (r : Range) : r.room ≤ 256 := by
  have hbelow := Finset.card_filter_le points (· < r.lo)
  have habove := Finset.card_filter_le points (r.hi < ·)
  have := card_points_le
  simp only [room, below, above]
  omega

end Range
namespace IntFact

/-! ### Sequences of unions -/

/-- Facts about integers of one machine type. -/
def Alike (i j : IntFact) : Prop := i.bits = j.bits ∧ i.unsigned = j.unsigned

/-- How often a fact may change: the ends of its range move to a point, or it loses its constant. -/
def room (i : IntFact) : Nat := i.getRange.room + i.const.toList.length

variable {i j : IntFact}

theorem room_le (i : IntFact) : i.room ≤ 257 := by
  have := i.getRange.room_le_card
  have : i.const.toList.length ≤ 1 := by cases i.const <;> simp
  unfold room
  omega

theorem alike_union (h : i.Alike j) : (i.union j).Alike i := by
  rw [Alike, bits_union, unsigned_union, ← h.1, ← h.2]
  simp

theorem const_union_cases (i j : IntFact) : (i.union j).const = i.const ∨ (i.union j).const = none ∧ i.const ≠ none := by
  rw [const_union]
  split
  · exact .inl rfl
  · by_cases h : i.const = none
    · exact .inl h.symm
    · exact .inr ⟨rfl, h⟩

/-- A fact of a machine type is known by its constant and its range. -/
theorem Proper.ext (hi : i.Proper) (hj : j.Proper) (h : i.Alike j) (hc : i.const = j.const) (hr : i.getRange = j.getRange) : i = j := by
  cases hu : i.unsigned with
  | true =>
    obtain ⟨r, -, ei⟩ := hi
    obtain ⟨s, -, ej⟩ := hj
    rw [ei, ej, ← hc, ← h.1, ← h.2, hu]
    exact make_unsigned_eq ..
  | false =>
    rw [hi.eq_make hu, hj.eq_make (h.2 ▸ hu), hc, h.1, hr]

theorem room_union_lt (hi : i.Proper) (hj : j.Proper) (h : i.Alike j) (hne : i.union j ≠ i) : (i.union j).room < i.room := by
  have hcontains := contains_union hi hj h.2
  have hroom := Range.room_le hcontains
  rcases const_union_cases i j with hc | ⟨hc, hi'⟩
  · have hrange : (i.union j).getRange ≠ i.getRange := fun e => hne (Proper.ext (hi.union hj) hi (alike_union h) hc e)
    have hlt : (i.union j).getRange.room < i.getRange.room := by
      cases hu : i.unsigned with
      | true =>
        refine absurd ?_ hrange
        rw [(hi.union hj).getRange_of_unsigned (by rw [unsigned_union, hu]; rfl), hi.getRange_of_unsigned hu]
      | false =>
        have e := getRange_union hi hj hu (h.2 ▸ hu)
        rw [e] at hrange ⊢
        exact Range.room_meet_lt hi.words hj.words hrange
    unfold room
    rw [hc]
    omega
  · obtain ⟨n, hn⟩ := Option.ne_none_iff_exists'.1 hi'
    simp only [room, hc, hn, Option.toList_none, Option.toList_some, List.length_nil, List.length_singleton]
    omega

/-- What is known of an integer that takes in one fact of a sequence after the other. -/
def unions (s : Nat → IntFact) : Nat → IntFact
  | 0 => s 0
  | n + 1 => (unions s n).union (s n)

/-- How often the first unions of a sequence change anything. -/
def changes (s : Nat → IntFact) (n : Nat) : Nat := Nat.count (fun k => unions s (k + 1) ≠ unions s k) n

section Sequence

variable {s : Nat → IntFact} (hs : ∀ n, (s n).Proper) (halike : ∀ n, (s n).Alike (s 0))
include hs halike

theorem proper_unions (n : Nat) : (unions s n).Proper ∧ (unions s n).Alike (s 0) := by
  induction n with
  | zero => exact ⟨hs 0, halike 0⟩
  | succ n ih =>
    have h : (unions s n).Alike (s n) := ⟨ih.2.1.trans (halike n).1.symm, ih.2.2.trans (halike n).2.symm⟩
    have hu := alike_union h
    exact ⟨ih.1.union (hs n), hu.1.trans ih.2.1, hu.2.trans ih.2.2⟩

omit hs halike in
theorem changes_succ (n : Nat) : changes s (n + 1) = changes s n + if unions s (n + 1) ≠ unions s n then 1 else 0 :=
  Nat.count_succ ..

/-- Every change is paid for by the room that was there at the start. -/
theorem changes_add_room_le (n : Nat) : changes s n + (unions s n).room ≤ (s 0).room := by
  induction n with
  | zero => exact (Nat.zero_add _).le
  | succ n ih =>
    have hn := proper_unions hs halike n
    have h : (unions s n).Alike (s n) := ⟨hn.2.1.trans (halike n).1.symm, hn.2.2.trans (halike n).2.symm⟩
    rw [changes_succ]
    split
    · rename_i hne
      have hlt : (unions s (n + 1)).room < (unions s n).room := room_union_lt hn.1 (hs n) h hne
      omega
    · rename_i hsame
      rw [not_not.1 hsame]
      exact ih

theorem changes_le (n : Nat) : changes s n ≤ 257 := by
  have := changes_add_room_le hs halike n
  have := (s 0).room_le
  omega

end Sequence
end IntFact

namespace Ana

theorem unionAux_int (n : Nat) (effects : Bool) (i j : IntFact) (k : Knot) (w : World) :
    unionAux (n + 1) effects (.int i) (.int j) k w = .ok (.int (i.union j)) w := rfl

end Ana

open Range IntFact

/-- Rounding moves a word to the nearest point below or above; the union of facts of one machine type depends neither on
their order nor on how they are grouped, and allows what they allow; and a fact that takes in one fact after the other
changes a bounded number of times. -/
theorem integer_unions_converge :
    (∀ v, IsWord v → IsGreatest {p | IsPoint p ∧ p ≤ v} (quantizeDown v) ∧ IsLeast {p | IsPoint p ∧ v ≤ p} (quantizeUp v) ∧
      quantizeDown (quantizeDown v) = quantizeDown v ∧ quantizeUp (quantizeUp v) = quantizeUp v) ∧
    (∀ u v, IsWord u → IsWord v → u ≤ v → quantizeDown u ≤ quantizeDown v ∧ quantizeUp u ≤ quantizeUp v) ∧
    (∀ a b c : IntFact, a.Proper → b.Proper → c.Proper → a.Alike b → b.Alike c → (a.union b).union c = a.union (b.union c) ∧ a.union b = b.union a ∧
      (a.union b).getRange.contains a.getRange = true ∧ (a.union b).getRange.contains b.getRange = true ∧
      ∀ k w, Ana.union (.int a) (.int b) k w = .ok (.int (a.union b)) w) ∧
    ∀ s : Nat → IntFact, (∀ n, (s n).Proper) → (∀ n, (s n).Alike (s 0)) → ∀ n, changes s n ≤ 257 := by
  refine ⟨fun v hv => ?nearest, fun u v hu hv h => ?monotone, fun a b c ha hb hc hab hbc => ?laws, fun s hs halike => ?bounded⟩
  case nearest =>
    exact ⟨isGreatest_quantizeDown hv, isLeast_quantizeUp hv, quantizeDown_of_isPoint (isPoint_quantizeDown hv),
      quantizeUp_of_isPoint (isPoint_quantizeUp hv)⟩
  case monotone => exact ⟨quantizeDown_mono hu hv h, quantizeUp_mono hu hv h⟩
  case laws =>
    refine ⟨union_assoc ha hb hc, union_comm ha hb, contains_union ha hb hab.2, ?_, fun k w => ?_⟩
    · rw [union_comm ha hb]
      exact contains_union hb ha hab.2.symm
    · exact Ana.unionAux_int (World.annotDepth - 1) true a b k w
  case bounded => exact changes_le hs halike

/-- Constants that count up to a hundred: the second one widens the range, which then grows by points. -/
theorem counting_unions_converge : IsGreatest {p | IsPoint p ∧ p ≤ 5} 3 ∧ quantizeUp 5 ≤ quantizeUp 6 ∧
      (ofConst 5).union (ofConst 6) = (ofConst 6).union (ofConst 5) ∧ ∀ n, changes (fun k => ofConst (min k 100)) n ≤ 257 := by
  have hword (k : Nat) : IsWord (min k 100) := by
    rw [IsWord, minWord_eq, maxWord_eq]
    omega
  have proper (k : Nat) : (ofConst (min k 100)).Proper := (valid_ofConst (hword k)).proper
  have alike (m n : Int) : (ofConst m).Alike (ofConst n) :=
    ⟨(make_bits ..).trans (make_bits ..).symm, (make_unsigned ..).trans (make_unsigned ..).symm⟩
  obtain ⟨nearest, monotone, laws, bounded⟩ := integer_unions_converge
  exact ⟨(nearest 5 (by decide)).1, (monotone 5 6 (by decide) (by decide) (by decide)).2,
    (laws _ _ _ (proper 5) (proper 6) (proper 6) (alike ..) (alike ..)).2.1,
    bounded _ proper fun _ => alike ..⟩

end FlowCompiler
