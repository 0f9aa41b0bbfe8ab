import FlowCompiler.Proofs.Words
import FlowCompiler.Trace.Bound

/-!
# Bounds of integers contain what they are bounds of

`Bound.Holds` says that a word lies inside a bound.  Every operation on bounds keeps it: if the arguments
lie inside theirs, the exact result lies inside the bound that is computed.  The machine's sum, difference,
product or shift may wrap around, and then the bound says nothing about it.

Products, quotients and shifts are bounded by their values at the four corners.  `holds_corners` reduces
each of them to the fact that for one argument fixed the extremes are at the ends of the other.
-/

namespace FlowCompiler.Trace.Bound

open Option Int64 Nat

/-- A word lies inside a bound. -/
def Holds (b : Bound) (v : Int64) : Prop := (∀ lo ∈ b.lower, lo ≤ v) ∧ ∀ hi ∈ b.upper, v ≤ hi

theorem contains_iff {b : Bound} {v : Int64} : b.contains v = true ↔ b.Holds v := by
  rcases b with ⟨lo, hi⟩
  cases lo <;> cases hi <;> simp [contains, aboveLower, belowUpper, Holds]

theorem holds_unbounded (v : Int64) : unbounded.Holds v := by simp [Holds, unbounded]

theorem holds_between {lo hi v : Int64} (h : lo ≤ v ∧ v ≤ hi) : (between lo hi).Holds v := by
  simpa [Holds, between] using h

theorem holds_exactly (v : Int64) : (exactly v).Holds v := holds_between (by simp)

theorem eq_of_holds_exactly {v w : Int64} (h : (exactly v).Holds w) : w = v := by
  simp only [Holds, exactly, between, mem_def, some.injEq, forall_eq'] at h
  exact Int64.le_antisymm h.2 h.1

theorem holds_atLeast {lo v : Int64} (h : lo ≤ v) : (atLeast lo).Holds v := by simpa [Holds, atLeast] using h

theorem holds_atMost {hi v : Int64} (h : v ≤ hi) : (atMost hi).Holds v := by simpa [Holds, atMost] using h

theorem eq_of_const? {b : Bound} {n v : Int64} (hc : b.const? = some n) (h : b.Holds v) : v = n := by
  rcases b with ⟨lo, hi⟩
  cases lo <;> cases hi <;> simp only [const?, reduceCtorEq] at hc
  rename_i lo hi
  split at hc
  · rename_i e
    cases hc
    subst e
    exact eq_of_holds_exactly h
  · cases hc

/-! ## Tightening -/

theorem holds_makeLe {b o : Bound} {v : Int64} (hb : b.Holds v) (ho : ∀ hi ∈ o.upper, v ≤ hi) : (b.makeLe o).1.Holds v := by
  unfold makeLe
  split
  · rename_i hi hu
    split
    · exact ⟨hb.1, by simpa using ho hi hu⟩
    · exact hb
  · exact hb

theorem holds_makeGe {b o : Bound} {v : Int64} (hb : b.Holds v) (ho : ∀ lo ∈ o.lower, lo ≤ v) : (b.makeGe o).1.Holds v := by
  unfold makeGe
  split
  · rename_i lo hl
    split
    · exact ⟨by simpa using ho lo hl, hb.2⟩
    · exact hb
  · exact hb

variable {p n r q : Int64}

theorem toInt_of_addEnd {x : Option Int64} (h : r ∈ addEnd x n) : ∃ v ∈ x, r.toInt = v.toInt + n.toInt := by
  cases x with
  | none => simp [addEnd] at h
  | some v =>
    refine ⟨v, rfl, ?_⟩
    simp only [addEnd, bind_some] at h
    cases hc : Word.addChecked v n with
    | error e => simp [hc, Except.toOption] at h
    | ok w =>
      simp only [hc, Except.toOption, mem_def, some.injEq] at h
      rw [← h]
      exact Word.toInt_of_addChecked hc

theorem toInt_of_subEnd {x : Option Int64} (h : r ∈ subEnd x n) : ∃ v ∈ x, r.toInt = v.toInt - n.toInt := by
  cases x with
  | none => simp [subEnd] at h
  | some v =>
    refine ⟨v, rfl, ?_⟩
    simp only [subEnd, bind_some] at h
    cases hc : Word.subChecked v n with
    | error e => simp [hc, Except.toOption] at h
    | ok w =>
      simp only [hc, Except.toOption, mem_def, some.injEq] at h
      rw [← h]
      exact Word.toInt_of_subChecked hc

theorem holds_makeLt {b o : Bound} {v w : Int64} (hb : b.Holds v) (ho : o.Holds w) (h : v < w) : (b.makeLt o).1.Holds v := by
  apply holds_makeLe hb
  intro hi hu
  obtain ⟨u, hu', e⟩ := toInt_of_addEnd hu
  have hw := ho.2 u hu'
  have : (-1 : Int64).toInt = -1 := by decide
  rw [le_iff_toInt_le] at *
  rw [lt_iff_toInt_lt] at h
  omega

theorem holds_makeGt {b o : Bound} {v w : Int64} (hb : b.Holds v) (ho : o.Holds w) (h : w < v) : (b.makeGt o).1.Holds v := by
  apply holds_makeGe hb
  intro lo hl
  obtain ⟨u, hu', e⟩ := toInt_of_addEnd hl
  have hw := ho.1 u hu'
  have : (1 : Int64).toInt = 1 := by decide
  rw [le_iff_toInt_le] at *
  rw [lt_iff_toInt_lt] at h
  omega

theorem holds_intersect {b o : Bound} {v : Int64} (hb : b.Holds v) (ho : o.Holds v) : (b.intersect o).1.Holds v :=
  holds_makeLe (holds_makeGe hb ho.1) ho.2

/-! ## Comparison -/

section Comparison

variable {b o : Bound} {v w : Int64}

theorem lt_of_knownLt (h : b.knownLt o = true) (hb : b.Holds v) (ho : o.Holds w) : v < w := by
  rcases b with ⟨_, _ | hi⟩ <;> rcases o with ⟨_ | lo, _⟩ <;> simp [knownLt] at h
  have h1 : v ≤ hi := hb.2 hi rfl
  have h2 : lo ≤ w := ho.1 lo rfl
  grind

theorem le_of_knownLe (h : b.knownLe o = true) (hb : b.Holds v) (ho : o.Holds w) : v ≤ w := by
  rcases b with ⟨_, _ | hi⟩ <;> rcases o with ⟨_ | lo, _⟩ <;> simp [knownLe] at h
  have h1 : v ≤ hi := hb.2 hi rfl
  have h2 : lo ≤ w := ho.1 lo rfl
  grind

theorem nonneg_of_knownGe (h : b.knownGe zero = true) (hb : b.Holds v) : 0 ≤ v.toInt := by
  have : (0 : Int64) ≤ v := le_of_knownLe h (holds_exactly 0) hb
  rw [le_iff_toInt_le] at this
  simpa using this

/-- The amounts of a bound of shifts are below the number of bits. -/
theorem range_of_isShift (h : b.isShift = true) (hb : b.Holds v) : 0 ≤ v.toInt ∧ v.toInt < 64 := by
  simp only [isShift, Bool.and_eq_true] at h
  have h2 : v < 64 := lt_of_knownLt h.2 hb (holds_exactly 64)
  rw [lt_iff_toInt_lt] at h2
  exact ⟨nonneg_of_knownGe h.1 hb, by simpa using h2⟩

theorem shift_end (h : b.isShift = true) (hb : b.Holds v) {u : Int64} (hu : u ∈ b.lower.toList ++ b.upper.toList) : 0 ≤ u.toInt ∧ u.toInt < 64 := by
  rcases b with ⟨_ | lo, _ | hi⟩ <;> simp [isShift, knownGe, knownLe, knownLt, zero, exactly, between] at h
  have h1 := hb.1 lo rfl
  have h2 := hb.2 hi rfl
  have e : (64 : Int64).toInt = 64 := by decide
  simp only [le_iff_toInt_le, lt_iff_toInt_lt, toInt_zero, e] at h h1 h2
  simp only [toList_some, List.cons_append, List.nil_append, List.mem_cons, List.not_mem_nil, or_false] at hu
  rcases hu with rfl | rfl <;> omega

end Comparison

/-! ## Sums and differences -/

section Sums

variable {a b : Bound} {x y : Int64}

theorem holds_add (hx : a.Holds x) (hy : b.Holds y) (hr : r.toInt = x.toInt + y.toInt) : (a.add b).Holds r := by
  constructor
  · intro lo hl
    obtain ⟨l, hl', h⟩ := bind_eq_some_iff.1 hl
    obtain ⟨u, hu, e⟩ := toInt_of_addEnd h
    have h1 := hx.1 u hu
    have h2 := hy.1 l hl'
    rw [le_iff_toInt_le] at *
    omega
  · intro hi hl
    obtain ⟨l, hl', h⟩ := bind_eq_some_iff.1 hl
    obtain ⟨u, hu, e⟩ := toInt_of_addEnd h
    have h1 := hx.2 u hu
    have h2 := hy.2 l hl'
    rw [le_iff_toInt_le] at *
    omega

theorem holds_sub (hx : a.Holds x) (hy : b.Holds y) (hr : r.toInt = x.toInt - y.toInt) : (a.sub b).Holds r := by
  constructor
  · intro lo hl
    obtain ⟨l, hl', h⟩ := bind_eq_some_iff.1 hl
    obtain ⟨u, hu, e⟩ := toInt_of_subEnd h
    have h1 := hx.1 u hu
    have h2 := hy.2 l hl'
    rw [le_iff_toInt_le] at *
    omega
  · intro hi hl
    obtain ⟨l, hl', h⟩ := bind_eq_some_iff.1 hl
    obtain ⟨u, hu, e⟩ := toInt_of_subEnd h
    have h1 := hx.2 u hu
    have h2 := hy.1 l hl'
    rw [le_iff_toInt_le] at *
    omega

end Sums

/-! ## Products, quotients and shifts -/

/-- One of the values at the four corners is not above the value inside, if that is so for each argument
alone. -/
theorem corner_le {f : Int → Int → Int} {x₀ x x₁ y₀ y y₁ : Int} (hx : f x₀ y ≤ f x y ∨ f x₁ y ≤ f x y) (hy : ∀ u, f u y₀ ≤ f u y ∨ f u y₁ ≤ f u y) :
    (f x₀ y₀ ≤ f x y ∨ f x₀ y₁ ≤ f x y) ∨ f x₁ y₀ ≤ f x y ∨ f x₁ y₁ ≤ f x y := by
  rcases hx with hx | hx
  · rcases hy x₀ with h | h
    · exact .inl (.inl (Int.le_trans h hx))
    · exact .inl (.inr (Int.le_trans h hx))
  · rcases hy x₁ with h | h
    · exact .inr (.inl (Int.le_trans h hx))
    · exact .inr (.inr (Int.le_trans h hx))

/-- The extremes of a function in one argument are at the ends. -/
def Extremal (g : Int → Int) (lo v hi : Int) : Prop := (g lo ≤ g v ∨ g hi ≤ g v) ∧ (g v ≤ g lo ∨ g v ≤ g hi)

theorem min_le_iff : min p q ≤ r ↔ p ≤ r ∨ q ≤ r := by
  simp only [le_iff_toInt_le, min]
  split <;> omega

theorem le_max_iff : r ≤ max p q ↔ r ≤ p ∨ r ≤ q := by
  simp only [le_iff_toInt_le, max]
  split <;> omega

/-- At the corners of two bounds a word function gives exactly what an integer function gives, and that one has its
extremes at the ends of each argument. -/
structure Cornered (a b : Bound) (f : Int64 → Int64 → Option Int64) (g : Int → Int → Int) (x y : Int64) : Prop where
  exact : ∀ u ∈ a.lower.toList ++ a.upper.toList, ∀ v ∈ b.lower.toList ++ b.upper.toList, ∀ p ∈ f u v, p.toInt = g u.toInt v.toInt
  first : ∀ lo ∈ a.lower, ∀ hi ∈ a.upper, lo ≤ x → x ≤ hi → Extremal (g · y.toInt) lo.toInt x.toInt hi.toInt
  second : ∀ u : Int, ∀ lo ∈ b.lower, ∀ hi ∈ b.upper, lo ≤ y → y ≤ hi → Extremal (g u) lo.toInt y.toInt hi.toInt

section Corners

variable {a b : Bound} {f : Int64 → Int64 → Option Int64} {g : Int → Int → Int} {x y : Int64}

section

variable (h : Cornered a b f g x y) (hx : a.Holds x) (hy : b.Holds y)
include h hx hy

/-- What is inside lies between values at the corners. -/
theorem Cornered.between {x₀ x₁ y₀ y₁ p q s t : Int64} (hx₀ : a.lower = some x₀) (hx₁ : a.upper = some x₁) (hy₀ : b.lower = some y₀)
    (hy₁ : b.upper = some y₁) (hp : f x₀ y₀ = some p) (hq : f x₀ y₁ = some q) (hs : f x₁ y₀ = some s) (ht : f x₁ y₁ = some t) :
    ((p.toInt ≤ g x.toInt y.toInt ∨ q.toInt ≤ g x.toInt y.toInt) ∨ s.toInt ≤ g x.toInt y.toInt ∨ t.toInt ≤ g x.toInt y.toInt) ∧
    ((g x.toInt y.toInt ≤ p.toInt ∨ g x.toInt y.toInt ≤ q.toInt) ∨ g x.toInt y.toInt ≤ s.toInt ∨ g x.toInt y.toInt ≤ t.toInt) := by
  have hgx := h.first x₀ hx₀ x₁ hx₁ (hx.1 x₀ hx₀) (hx.2 x₁ hx₁)
  have hgy u := h.second u y₀ hy₀ y₁ hy₁ (hy.1 y₀ hy₀) (hy.2 y₁ hy₁)
  dsimp only [Extremal] at hgx hgy
  rw [h.exact x₀ (by simp [hx₀]) y₀ (by simp [hy₀]) p hp, h.exact x₀ (by simp [hx₀]) y₁ (by simp [hy₁]) q hq,
    h.exact x₁ (by simp [hx₁]) y₀ (by simp [hy₀]) s hs, h.exact x₁ (by simp [hx₁]) y₁ (by simp [hy₁]) t ht]
  have high := @corner_le (fun u v => -g u v) x₀.toInt x.toInt x₁.toInt y₀.toInt y.toInt y₁.toInt
    (by have := hgx.2; omega) fun u => by have := (hgy u).2; omega
  simp only [Int.neg_le_neg_iff] at high
  exact ⟨corner_le (f := g) hgx.1 fun u => (hgy u).1, high⟩

/-- What is computed exactly lies inside the bound that the corners span. -/
theorem holds_corners (hr : a.isBounded = true → b.isBounded = true → r.toInt = g x.toInt y.toInt) : (a.corners b f).Holds r := by
  rcases a with ⟨_ | x₀, _ | x₁⟩ <;> rcases b with ⟨_ | y₀, _ | y₁⟩ <;>
    try exact holds_unbounded r
  dsimp only [corners]
  split
  · rename_i p q s t hp hq hs ht
    obtain ⟨low, high⟩ := h.between hx hy rfl rfl rfl rfl hp hq hs ht
    rw [← hr rfl rfl] at low high
    simp only [← le_iff_toInt_le] at low high
    simp only [Holds, hull, List.foldl, exactly, between, map_some, mem_def, some.injEq, forall_eq', min_le_iff, le_max_iff]
    grind
  · exact holds_unbounded r

/-- If the corners span a bound with both ends, what is inside is a word. -/
theorem range_of_corners (hb : (a.corners b f).isBounded = true) : -9223372036854775808 ≤ g x.toInt y.toInt ∧
    g x.toInt y.toInt ≤ 9223372036854775807 := by
  unfold corners at hb
  split at hb
  · rename_i x₀ x₁ y₀ y₁ hx₀ hx₁ hy₀ hy₁
    split at hb
    · rename_i p q s t hp hq hs ht
      have := h.between hx hy hx₀ hx₁ hy₀ hy₁ hp hq hs ht
      have rp := Word.toInt_range p
      have rq := Word.toInt_range q
      have rs := Word.toInt_range s
      have rt := Word.toInt_range t
      omega
    · cases hb
  · cases hb

end

theorem corners_cases (a b : Bound) (f : Int64 → Int64 → Option Int64) : (a.corners b f).isBounded = true ∨ a.corners b f = unbounded := by
  unfold corners
  split
  · split
    · exact .inl rfl
    · exact .inr rfl
  · exact .inr rfl

end Corners

theorem mul_extremal {lo v hi : Int} (h : lo ≤ v ∧ v ≤ hi) (u : Int) : Extremal (u * ·) lo v hi := by
  rcases Int.le_total 0 u with hu | hu
  · exact ⟨.inl (Int.mul_le_mul_of_nonneg_left h.1 hu), .inr (Int.mul_le_mul_of_nonneg_left h.2 hu)⟩
  · exact ⟨.inr (Int.mul_le_mul_of_nonpos_left hu h.2), .inl (Int.mul_le_mul_of_nonpos_left hu h.1)⟩

theorem mul_extremal_right {lo v hi : Int} (h : lo ≤ v ∧ v ≤ hi) (u : Int) : Extremal (· * u) lo v hi := by
  simpa only [Int.mul_comm] using mul_extremal h u

theorem ofToOption {α : Type} {e : Except Failure α} {p : α} (h : p ∈ e.toOption) : e = .ok p := by
  cases e with
  | error _ => simp [Except.toOption] at h
  | ok v => simp [Except.toOption] at h; rw [h]

theorem le_range {lo v hi : Int64} (h₁ : lo ≤ v) (h₂ : v ≤ hi) : lo.toInt ≤ v.toInt ∧ v.toInt ≤ hi.toInt :=
  ⟨le_iff_toInt_le.1 h₁, le_iff_toInt_le.1 h₂⟩

theorem cornered_mul (a b : Bound) (x y : Int64) : Cornered a b (fun x y => (Word.mulChecked x y).toOption) (· * ·) x y where
  exact _ _ _ _ _ hp := Word.toInt_of_mulChecked (ofToOption hp)
  first _ _ _ _ h₁ h₂ := mul_extremal_right (le_range h₁ h₂) _
  second u _ _ _ _ h₁ h₂ := mul_extremal (le_range h₁ h₂) u

theorem holds_mul {a b : Bound} {x y r : Int64} (hx : a.Holds x) (hy : b.Holds y) (hr : r.toInt = x.toInt * y.toInt) : (a.mul b).Holds r :=
  holds_corners (cornered_mul a b x y) hx hy fun _ _ => hr

theorem tdiv_extremal {lo v hi u : Int} (h : lo ≤ v ∧ v ≤ hi) (hu : u ≠ 0) : Extremal (Int.tdiv · u) lo v hi := by
  rcases Int.lt_or_gt_of_ne hu with hu | hu
  · have h1 := Word.tdiv_le_tdiv (c := -u) (by omega) h.1
    have h2 := Word.tdiv_le_tdiv (c := -u) (by omega) h.2
    simp only [Int.tdiv_neg] at h1 h2
    dsimp only [Extremal]
    omega
  · have h1 := Word.tdiv_le_tdiv hu h.1
    have h2 := Word.tdiv_le_tdiv hu h.2
    dsimp only [Extremal]
    omega

theorem tdiv_extremal_left {lo v hi : Int} (h : lo ≤ v ∧ v ≤ hi) (h0 : 0 < lo ∨ hi < 0) (u : Int) : Extremal (Int.tdiv u) lo v hi := by
  -- the signs of dividend and divisor only change the sign of the quotient
  have pos (lo v hi u : Int) (h : lo ≤ v ∧ v ≤ hi) (h0 : 0 < lo) (hu : 0 ≤ u) : u.tdiv hi ≤ u.tdiv v ∧ u.tdiv v ≤ u.tdiv lo :=
    ⟨Word.tdiv_le_tdiv_left hu (by omega) h.2, Word.tdiv_le_tdiv_left hu h0 h.1⟩
  dsimp only [Extremal]
  rcases h0 with h0 | h0 <;> rcases Int.le_total 0 u with hu | hu
  · have := pos lo v hi u h h0 hu
    omega
  · have := pos lo v hi (-u) h h0 (by omega)
    simp only [Int.neg_tdiv] at this
    omega
  · have := pos (-hi) (-v) (-lo) u (by omega) (by omega) hu
    simp only [Int.tdiv_neg] at this
    omega
  · have := pos (-hi) (-v) (-lo) (-u) (by omega) (by omega) (by omega)
    simp only [Int.tdiv_neg, Int.neg_tdiv, Int.neg_neg] at this
    omega

theorem side_of_not_contains {b : Bound} (h : b.contains 0 = false) {lo hi : Int64} (hl : lo ∈ b.lower)
    (hh : hi ∈ b.upper) : 0 < lo.toInt ∨ hi.toInt < 0 := by
  simp only [mem_def] at hl hh
  simp only [contains, aboveLower, belowUpper, hl, hh, all_some, Bool.and_eq_false_iff, decide_eq_false_iff_not, le_iff_toInt_le, toInt_zero] at h
  omega

/-- The quotient of the least word by -1 is the only one that is not exact; a bound of quotients that has it
inside has it at a corner. -/
theorem holds_div {a b : Bound} {x y r : Int64} (hx : a.Holds x) (hy : b.Holds y)
    (hr : y ≠ 0 → r.toInt = x.toInt.tdiv y.toInt ∨ x = Int64.minValue ∧ y = -1) : (a.div b).Holds r := by
  unfold div
  split
  · exact holds_unbounded r
  rename_i h0
  have hy0 : y ≠ 0 := by
    rintro rfl
    exact h0 (contains_iff.2 hy)
  simp only [Bool.not_eq_true] at h0
  rcases hr hy0 with hr | ⟨rfl, rfl⟩
  · refine holds_corners (g := Int.tdiv) ⟨?_, ?_, ?_⟩ hx hy fun _ _ => hr
    · intro u hu v hv p hp
      simp only [mem_def, ite_none_left_eq_some, Bool.and_eq_true, decide_eq_true_eq, some.injEq] at hp
      rw [← hp.2, Word.toInt_div]
      exact fun e => hp.1 ⟨e.2, e.1⟩
    · intro lo _ hi _ h₁ h₂
      apply tdiv_extremal (le_range h₁ h₂)
      exact fun e => hy0 (toInt_inj.1 (e.trans toInt_zero.symm))
    · intro u lo hl hi hh h₁ h₂
      exact tdiv_extremal_left (le_range h₁ h₂) (side_of_not_contains h0 hl hh) u
  · rcases a with ⟨_ | x₀, _ | x₁⟩ <;> rcases b with ⟨_ | y₀, _ | y₁⟩ <;>
      try exact holds_unbounded r
    -- here the corner is missing
    have e0 : x₀ = Int64.minValue := by
      have h := hx.1 x₀ rfl
      have := Word.toInt_range x₀
      have hm : Int64.minValue.toInt = -9223372036854775808 := by decide
      rw [le_iff_toInt_le] at h
      exact toInt_inj.1 (by omega)
    have e1 : y₁ = -1 := by
      have h := hy.2 y₁ rfl
      have hlow := hy.1 y₀ rfl
      have hs : 0 < y₀.toInt ∨ y₁.toInt < 0 := side_of_not_contains h0 rfl rfl
      have hm : (-1 : Int64).toInt = -1 := by decide
      rw [le_iff_toInt_le] at h hlow
      exact toInt_inj.1 (by omega)
    subst e0 e1
    simp [corners, holds_unbounded]

theorem ediv_pow_le {u : Int} (hu : 0 ≤ u) {m n : Nat} (h : m ≤ n) : u / 2 ^ n ≤ u / 2 ^ m := by
  obtain ⟨k, rfl⟩ := Nat.exists_eq_add_of_le h
  rw [Int.pow_add, ← Int.ediv_ediv_of_nonneg (Int.le_of_lt (Int.pow_pos (by decide)))]
  exact Int.ediv_le_self _ (Int.ediv_nonneg hu (Int.le_of_lt (Int.pow_pos (by decide))))

theorem le_ediv_pow {u : Int} (hu : u < 0) {m n : Nat} (h : m ≤ n) : u / 2 ^ m ≤ u / 2 ^ n := by
  obtain ⟨k, rfl⟩ := Nat.exists_eq_add_of_le h
  have hpos (i : Nat) : (0 : Int) < 2 ^ i := Int.pow_pos (by decide)
  rw [Int.pow_add, ← Int.ediv_ediv_of_nonneg (Int.le_of_lt (hpos m)), Int.le_ediv_iff_mul_le (hpos k)]
  have hneg : u / 2 ^ m < 0 := Int.ediv_neg_of_neg_of_pos hu (hpos m)
  have := Int.mul_le_mul_of_nonpos_left (Int.le_of_lt hneg) (show (1 : Int) ≤ 2 ^ k from hpos k)
  omega

theorem holds_rshift {a b : Bound} {x y r : Int64} (hx : a.Holds x) (hy : b.Holds y)
    (hr : 0 ≤ y.toInt ∧ y.toInt < 64 → r.toInt = x.toInt / 2 ^ y.toInt.toNat) : (a.rshift b).Holds r := by
  unfold rshift
  split
  case isFalse => exact holds_unbounded r
  rename_i hs
  have hmem {v : Int64} (hv : v ∈ b.lower.toList ++ b.upper.toList) : 0 ≤ v.toInt ∧ v.toInt < 64 := shift_end hs hy hv
  refine holds_corners (g := fun u v => u / 2 ^ v.toNat) ⟨?_, ?_, ?_⟩ hx hy fun _ _ => hr (range_of_isShift hs hy)
  · intro u _ v hv p hp
    simp only [mem_def, some.injEq] at hp
    rw [← hp]
    exact Word.toInt_shiftRight (hmem hv)
  · intro lo _ hi _ h₁ h₂
    have hr := le_range h₁ h₂
    have hpos : (0 : Int) < 2 ^ y.toInt.toNat := Int.pow_pos (by decide)
    exact ⟨.inl (Int.ediv_le_ediv hpos hr.1), .inr (Int.ediv_le_ediv hpos hr.2)⟩
  · intro u lo hl hi hh h₁ h₂
    have hr := le_range h₁ h₂
    have h1 : lo.toInt.toNat ≤ y.toInt.toNat := by omega
    have h2 : y.toInt.toNat ≤ hi.toInt.toNat := by omega
    rcases Int.le_total 0 u with hu | hu
    · exact ⟨.inr (ediv_pow_le hu h2), .inl (ediv_pow_le hu h1)⟩
    · rcases Int.lt_or_eq_of_le hu with hu | rfl
      · exact ⟨.inl (le_ediv_pow hu h1), .inr (le_ediv_pow hu h2)⟩
      · simp [Extremal]

theorem cornered_lshift {a b : Bound} {x y : Int64} (hs : b.isShift = true) (hy : b.Holds y) :
    Cornered a b (fun x y => (Word.shiftLeftChecked x y.toInt.toNat).toOption) (fun u v => u * 2 ^ v.toNat) x y where
  exact u _ v hv p hp := by
    have := shift_end hs hy hv
    exact Word.toInt_of_shiftLeftChecked (by omega) (ofToOption hp)
  first _ _ _ _ h₁ h₂ := mul_extremal_right (le_range h₁ h₂) _
  second u lo _ hi _ h₁ h₂ := by
    have hr := le_range h₁ h₂
    have hpow {m n : Nat} (h : m ≤ n) : (2 : Int) ^ m ≤ 2 ^ n := by exact_mod_cast Nat.pow_le_pow_right (by decide) h
    exact mul_extremal ⟨hpow (show lo.toInt.toNat ≤ y.toInt.toNat by omega),
      hpow (show y.toInt.toNat ≤ hi.toInt.toNat by omega)⟩ u

theorem holds_lshift {a b : Bound} {x y r : Int64} (hx : a.Holds x) (hy : b.Holds y)
    (hr : 0 ≤ y.toInt ∧ y.toInt < 64 → r.toInt = x.toInt * 2 ^ y.toInt.toNat) : (a.lshift b).Holds r := by
  unfold lshift
  split
  case isFalse => exact holds_unbounded r
  rename_i hs
  exact holds_corners (cornered_lshift hs hy) hx hy fun _ _ => hr (range_of_isShift hs hy)

/-! ## Bits -/

/-- If the `j` bits from bit `k` down are set, one step of doubling sets `2 * j` of them. -/
theorem testBit_or_shiftRight {n k j : Nat} (h : ∀ i, i ≤ k → k < i + j → n.testBit i = true) :
    ∀ i, i ≤ k → k < i + 2 * j → (n ||| n >>> j).testBit i = true := by
  intro i hi hk
  rw [testBit_or, testBit_shiftRight, Bool.or_eq_true]
  by_cases hc : k < i + j
  · exact .inl (h i hi hc)
  · exact .inr (h (j + i) (by omega) (by omega))

theorem toNat_or_shiftRight {n s : Int64} (hn : 0 ≤ n.toInt) (hs : 0 ≤ s.toInt ∧ s.toInt < 64) : 0 ≤ (n ||| (n >>> s)).toInt ∧
      (n ||| (n >>> s)).toInt.toNat = n.toInt.toNat ||| n.toInt.toNat >>> s.toInt.toNat := by
  have hnat : n.toInt = (n.toInt.toNat : Int) := (Int.toNat_of_nonneg hn).symm
  have hshift : (n >>> s).toInt = ((n.toInt.toNat >>> s.toInt.toNat : Nat) : Int) := by
    rw [Word.toInt_shiftRight hs, shiftRight_eq_div_pow]
    push_cast
    rw [← hnat]
  have hpos : 0 ≤ (n >>> s).toInt := by
    rw [hshift]
    exact Int.natCast_nonneg _
  rw [Word.toInt_or hn hpos, hshift, Int.toNat_natCast]
  exact ⟨Int.natCast_nonneg _, Int.toNat_natCast _⟩

/-- All bits up to the highest are set. -/
theorem testBit_nextPow2M1 (hn : 0 < n.toInt) : 0 ≤ (nextPow2M1 n).toInt ∧
      ∀ i, i ≤ n.toInt.toNat.log2 → (nextPow2M1 n).toInt.toNat.testBit i = true := by
  have hrange := Word.toInt_range n
  have htop : n.toInt.toNat.log2 < 64 := (log2_lt (by omega)).2 (by omega)
  -- after each step, the number of leading bits that are set has doubled
  have step {m : Int64} {j : Nat} (s : Int64) (hs : s.toInt = j) (hj : j < 64) (hm : 0 ≤ m.toInt)
      (h : ∀ i, i ≤ n.toInt.toNat.log2 → n.toInt.toNat.log2 < i + j → m.toInt.toNat.testBit i = true) :
      0 ≤ (m ||| (m >>> s)).toInt ∧ ∀ i, i ≤ n.toInt.toNat.log2 → n.toInt.toNat.log2 < i + 2 * j →
        (m ||| (m >>> s)).toInt.toNat.testBit i = true := by
    obtain ⟨h0, e⟩ := toNat_or_shiftRight (n := m) (s := s) hm (by omega)
    rw [e, show s.toInt.toNat = j by omega]
    exact ⟨h0, testBit_or_shiftRight h⟩
  have h0 : ∀ i, i ≤ n.toInt.toNat.log2 → n.toInt.toNat.log2 < i + 1 → n.toInt.toNat.testBit i = true := by
    intro i hi hk
    have : i = n.toInt.toNat.log2 := by omega
    rw [this]
    exact testBit_log2 (by omega)
  obtain ⟨p1, h1⟩ := step 1 (by decide) (by decide) (Int.le_of_lt hn) h0
  obtain ⟨p2, h2⟩ := step 2 (by decide) (by decide) p1 h1
  obtain ⟨p4, h4⟩ := step 4 (by decide) (by decide) p2 h2
  obtain ⟨p8, h8⟩ := step 8 (by decide) (by decide) p4 h4
  obtain ⟨p16, h16⟩ := step 16 (by decide) (by decide) p8 h8
  obtain ⟨p32, h32⟩ := step 32 (by decide) (by decide) p16 h16
  exact ⟨p32, fun i hi => h32 i hi (by omega)⟩

/-- What has no more bits than a number is not above the next number with all bits set. -/
theorem le_nextPow2M1 {m : Nat} (hn : 0 < n.toInt) (hm : m < 2 ^ (n.toInt.toNat.log2 + 1)) : (m : Int) ≤ (nextPow2M1 n).toInt := by
  obtain ⟨h0, hbits⟩ := testBit_nextPow2M1 hn
  have hle : m ≤ (nextPow2M1 n).toInt.toNat := by
    apply Nat.le_of_testBit
    intro i hi
    apply hbits i
    have : 2 ^ i ≤ m := Nat.ge_two_pow_of_testBit hi
    have := (Nat.pow_lt_pow_iff_right (a := 2) (by decide)).1 (Nat.lt_of_le_of_lt this hm)
    omega
  omega

end FlowCompiler.Trace.Bound
