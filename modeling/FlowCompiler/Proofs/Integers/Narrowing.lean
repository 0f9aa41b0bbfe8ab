import FlowCompiler.Analysis.Flow
import FlowCompiler.Proofs.Steps.Unions
import FlowCompiler.Proofs.Integers.Facts

/-!
# What comparisons tell of integers

On either outcome of a comparison, both operands are inside a bound that the other one's range gives.  What is added as
a fact is what the bound and the operand's own range have in common, so the values with that outcome are kept; and a
link on which a fact is known passes what the variable's range and the fact have in common.
-/

namespace FlowCompiler

open List

variable {n : Int} {v : VarId} {a b : Annot} {op : Comparison} {fs : List (Fact Annot)}

/-- The comparisons of two integers. -/
inductive Comparison where
  | lt
  | le
  | eq
  | ne
  | gt
  | ge
deriving DecidableEq, Repr

namespace Comparison

def name : Comparison → String
  | lt => "lt"
  | le => "le"
  | eq => "eq"
  | ne => "ne"
  | gt => "gt"
  | ge => "ge"

/-- The value of a comparison. -/
def holds : Comparison → Int → Int → Bool
  | lt, x, y => decide (x < y)
  | le, x, y => decide (x ≤ y)
  | eq, x, y => decide (x = y)
  | ne, x, y => decide (x ≠ y)
  | gt, x, y => decide (y < x)
  | ge, x, y => decide (y ≤ x)

theorem compareIntegers_name (op : Comparison) (x y : Int) : Ana.compareIntegers op.name x y = op.holds x y := by
  rw [Bool.eq_iff_iff]
  cases op <;> simp [Ana.compareIntegers, Ana.compareBy, name, holds] <;> omega

variable {l r : Range} {x y : Int}

theorem holds_of_compareRanges? {b : Bool} (hx : x ∈ l) (hy : y ∈ r) (h : Ana.compareRanges? op.name l r = some b) : op.holds x y = b := by
  rw [Range.mem_iff] at hx hy
  unfold Ana.compareRanges? at h
  cases op
  case lt | le =>
    simp only [name] at h
    split at h
    · cases h
      simp only [holds, decide_eq_true_eq]
      omega
    · split at h
      · cases h
        simp only [holds, decide_eq_false_iff_not]
        omega
      · cases h
  case eq | ne =>
    simp only [name] at h
    split at h
    · rename_i hapart
      cases h
      simp only [Bool.or_eq_true, decide_eq_true_eq] at hapart
      simp only [holds, decide_eq_true_eq, decide_eq_false_iff_not]
      omega
    · cases h
  case gt | ge => cases h

theorem isWord_succWord (h : Range.IsWord n) : Range.IsWord (Ana.succWord n) := by
  rw [Range.IsWord, Range.minWord_eq, Range.maxWord_eq] at h ⊢
  unfold Ana.succWord
  rw [Range.maxWord_eq]
  omega

theorem isWord_predWord (h : Range.IsWord n) : Range.IsWord (Ana.predWord n) := by
  rw [Range.IsWord, Range.minWord_eq, Range.maxWord_eq] at h ⊢
  unfold Ana.predWord
  rw [Range.minWord_eq]
  omega

theorem succWord_le {n m : Int} (hm : Range.IsWord m) (h : n < m) : Ana.succWord n ≤ m := by
  have := hm.2
  unfold Ana.succWord
  omega

theorem le_predWord {n m : Int} (hn : Range.IsWord n) (h : n < m) : n ≤ Ana.predWord m := by
  have := hn.1
  unfold Ana.predWord
  omega

theorem words_of_comparisonBounds (op : Comparison) (hl : l.Words) (hr : r.Words) : ∀ p ∈ Ana.comparisonBounds op.name l r, p.2.2.Words := by
  have lo : Range.IsWord Range.minWord := by decide
  have hi : Range.IsWord Range.maxWord := by decide
  cases op
  case lt =>
    simp only [Ana.comparisonBounds, name, forall_mem_cons, not_mem_nil, false_implies, implies_true, and_true]
    exact ⟨⟨lo, isWord_predWord hr.2⟩, ⟨isWord_succWord hl.1, hi⟩, ⟨hr.1, hi⟩, ⟨lo, hl.2⟩⟩
  case le =>
    simp only [Ana.comparisonBounds, name, forall_mem_cons, not_mem_nil, false_implies, implies_true, and_true]
    exact ⟨⟨lo, hr.2⟩, ⟨hl.1, hi⟩, ⟨isWord_succWord hr.1, hi⟩, ⟨lo, isWord_predWord hl.2⟩⟩
  case eq | ne =>
    simp only [Ana.comparisonBounds, name, forall_mem_cons, not_mem_nil, false_implies, implies_true, and_true]
    exact ⟨hr, hl⟩
  case gt | ge => exact nofun

theorem mem_of_comparisonBounds (hl : l.Words) (hr : r.Words) (hx : x ∈ l) (hy : y ∈ r) :
    ∀ p ∈ Ana.comparisonBounds op.name l r, op.holds x y = p.1 → (if p.2.1 then x else y) ∈ p.2.2 := by
  have wx := hl.isWord hx
  have wy := hr.isWord hy
  have hx' := hx
  have hy' := hy
  rw [Range.mem_iff] at hx' hy'
  cases op
  case lt =>
    simp only [Ana.comparisonBounds, name, holds, forall_mem_cons, not_mem_nil, false_implies, implies_true, and_true,
      if_true, Bool.false_eq_true, if_false, decide_eq_true_eq, decide_eq_false_iff_not, Range.mem_iff]
    refine ⟨fun h => ⟨wx.1, ?_⟩, fun h => ⟨?_, wy.2⟩, fun h => ⟨by omega, wx.2⟩, fun h => ⟨wy.1, by omega⟩⟩
    · exact le_predWord wx (by omega)
    · exact succWord_le wy (by omega)
  case le =>
    simp only [Ana.comparisonBounds, name, holds, forall_mem_cons, not_mem_nil, false_implies, implies_true, and_true,
      if_true, Bool.false_eq_true, if_false, decide_eq_true_eq, decide_eq_false_iff_not, Range.mem_iff]
    refine ⟨fun h => ⟨wx.1, by omega⟩, fun h => ⟨by omega, wy.2⟩, fun h => ⟨?_, wx.2⟩, fun h => ⟨wy.1, ?_⟩⟩
    · exact succWord_le wx (by omega)
    · exact le_predWord wy (by omega)
  case eq =>
    simp only [Ana.comparisonBounds, name, holds, forall_mem_cons, not_mem_nil, false_implies, implies_true, and_true,
      if_true, Bool.false_eq_true, if_false, decide_eq_true_eq]
    exact ⟨fun h => h ▸ hy, fun h => h ▸ hx⟩
  case ne =>
    simp only [Ana.comparisonBounds, name, holds, forall_mem_cons, not_mem_nil, false_implies, implies_true, and_true,
      if_true, Bool.false_eq_true, if_false, decide_eq_false_iff_not, ne_eq, not_not]
    exact ⟨fun h => h ▸ hy, fun h => h ▸ hx⟩
  case gt | ge => exact nofun

end Comparison

/-! ## Annotations of integers -/

namespace Annot

/-- The integers that an annotation allows; only those of integers allow any. -/
def Allows : Annot → Int → Prop
  | int i, n => n ∈ i
  | _, _ => False

/-- What a comparison tells of an operand: a range of signed integers, or that there is none. -/
inductive Narrowing : Annot → Prop
  | impossible : Narrowing impossible
  | int {i : IntFact} (valid : i.Valid) (signed : i.unsigned = false) : Narrowing (int i)

theorem Narrowing.eq_impossible_iff {a : Annot} (h : a.Narrowing) : a = .impossible ↔ ∀ n, ¬ a.Allows n := by
  constructor
  · rintro rfl n
    exact id
  · intro hall
    cases h with
    | impossible => rfl
    | int valid _ => exact absurd ⟨Int.le_refl _, valid.inhabited⟩ (hall _)

theorem Narrowing.range {r : Range} (hr : r.Words) : Narrowing (if r.lo > r.hi then .impossible else intRange r.lo r.hi) := by
  split
  · exact .impossible
  · exact .int (IntFact.valid_ofRange hr.1 hr.2 (by omega)) (IntFact.make_unsigned ..)

theorem allows_range {r : Range} : (if r.lo > r.hi then .impossible else intRange r.lo r.hi).Allows n ↔ n ∈ r := by
  split
  · simp only [Allows, Range.mem_iff, false_iff]
    omega
  · change n ∈ (IntFact.ofRange r.lo r.hi).getRange ↔ _
    rw [show (IntFact.ofRange r.lo r.hi).getRange = r from IntFact.getRange_make ..]

end Annot
namespace Ana

variable {k : Knot} {w : World}

/-! ## Facts about integers -/

theorem contains_of_narrowing (ha : a.Narrowing) (hb : b.Narrowing) : ∃ c, contains a b k w = .ok c w := by
  cases hb with
  | impossible => exact ⟨true, rfl⟩
  | int _ _ =>
    cases ha with
    | impossible => exact ⟨_, tryCatch_of_ok rfl⟩
    | int _ _ => exact ⟨_, tryCatch_of_ok rfl⟩

theorem improveChecked_of_narrowing (ha : a.Narrowing) :
    improveChecked a b k w = (do if ← contains b a then pure a else pure (if ← contains a b then b else a) : Ana Annot) k w := by
  cases ha <;> rfl

theorem improve_of_narrowing (ha : a.Narrowing) (hb : b.Narrowing) : ∃ c, improve a b k w = .ok c w ∧ (c = a ∨ c = b) := by
  obtain ⟨covered, hcovered⟩ := contains_of_narrowing (k := k) (w := w) hb ha
  obtain ⟨inside, hinside⟩ := contains_of_narrowing (k := k) (w := w) ha hb
  have checked : improveChecked a b k w = .ok (if covered then a else if inside then b else a) w := by
    rw [improveChecked_of_narrowing ha, bind_of_ok hcovered]
    cases covered with
    | true => rfl
    | false =>
      change (contains a b >>= fun inside => pure (if inside then b else a) : Ana Annot) k w = _
      rw [bind_of_ok hinside]
      rfl
  refine ⟨_, tryCatch_of_ok checked, ?_⟩
  cases covered <;> cases inside <;> simp

/-- Facts of one outcome allow the values of their variables. -/
def Told (value : VarId → Int) (outcome : Bool) (fs : List (Fact Annot)) : Prop := ∀ f ∈ fs, f.outcome = outcome → f.value.Allows (value f.var)

theorem mem_of_findFact? {t : Bool} {a : Annot} (h : Annot.findFact? fs t v = some a) : ⟨t, v, a⟩ ∈ fs := by
  obtain ⟨f, hf, rfl⟩ := Option.map_eq_some_iff.1 h
  have hp := List.find?_some hf
  simp only [Bool.and_eq_true, beq_iff_eq] at hp
  obtain ⟨rfl, rfl⟩ := hp
  exact mem_of_find?_eq_some hf

theorem mem_of_mem_addFact {f g : Fact Annot} (h : g ∈ Annot.addFact (fun _ new => new) fs f) : g ∈ fs ∨ g = f := by
  unfold Annot.addFact at h
  split at h
  · obtain ⟨e, he, rfl⟩ := mem_map.1 h
    split
    · rename_i hsame
      simp only [Bool.and_eq_true, beq_iff_eq] at hsame
      obtain ⟨t, v, a⟩ := f
      obtain ⟨rfl, rfl⟩ := hsame
      exact .inr rfl
    · exact .inl he
  · simpa using h

theorem addFact_of_narrowing {a : Annot} (hfs : ∀ f ∈ fs, f.value.Narrowing) (ha : a.Narrowing) (t : Bool) (v : VarId) :
    ∃ fs', addFact fs t v a k w = .ok fs' w ∧ (∀ f ∈ fs', f.value.Narrowing) ∧
      ∀ value outcome, Told value outcome fs → (t = outcome → a.Allows (value v)) → Told value outcome fs' := by
  cases h : Annot.findFact? fs t v with
  | none =>
    refine ⟨fs ++ [⟨t, v, a⟩], ?_, ?_, fun value outcome hold hnew => ?_⟩
    · unfold addFact
      rw [h]
      rfl
    · simpa [or_imp, forall_and] using ⟨hfs, ha⟩
    · simpa [Told, or_imp, forall_and] using ⟨hold, hnew⟩
  | some old =>
    have hmem := mem_of_findFact? h
    obtain ⟨better, hbetter, hone⟩ := improve_of_narrowing (k := k) (w := w) (hfs _ hmem) ha
    refine ⟨Annot.addFact (fun _ new => new) fs ⟨t, v, better⟩, ?_, fun f hf => ?_, fun value outcome hold hnew f hf hout => ?_⟩
    · unfold addFact
      rw [h]
      dsimp only
      rw [bind_of_ok hbetter]
      rfl
    · rcases mem_of_mem_addFact hf with hf | rfl
      · exact hfs f hf
      · rcases hone with rfl | rfl
        · exact hfs _ hmem
        · exact ha
    · rcases mem_of_mem_addFact hf with hf | rfl
      · exact hold f hf hout
      · rcases hone with rfl | rfl
        · exact hold _ hmem hout
        · exact hnew hout

/-- What a bound and the range of an operand have in common. -/
def Compared.within (o : Compared) (bound : Range) : Range := ⟨max bound.lo o.range.lo, min bound.hi o.range.hi⟩

theorem narrowFact_cases (fs : List (Fact Annot)) (t : Bool) (o : Compared) (bound : Range) :
    narrowFact fs t o bound = pure fs ∨ ∃ v ∈ o.var, narrowFact fs t o bound =
      addFact fs t v (if (o.within bound).lo > (o.within bound).hi then .impossible else .intRange (o.within bound).lo (o.within bound).hi) := by
  unfold narrowFact
  split
  · rename_i v i hv hi
    dsimp only
    split
    · exact .inl rfl
    · exact .inr ⟨v, hv, rfl⟩
  · exact .inl rfl

theorem narrowFact_spec (hfs : ∀ f ∈ fs, f.value.Narrowing) (t : Bool) {o : Compared} {bound : Range} (ho : o.range.Words) (hb : bound.Words) :
    ∃ fs', narrowFact fs t o bound k w = .ok fs' w ∧ (∀ f ∈ fs', f.value.Narrowing) ∧
      ∀ value outcome, Told value outcome fs → (t = outcome → ∀ v ∈ o.var, value v ∈ o.range ∧ value v ∈ bound) → Told value outcome fs' := by
  rcases narrowFact_cases fs t o bound with e | ⟨v, hv, e⟩
  · rw [e]
    exact ⟨fs, rfl, hfs, fun _ _ h _ => h⟩
  · have hr : (o.within bound).Words := by
      obtain ⟨⟨_, _⟩, ⟨_, _⟩⟩ := ho
      obtain ⟨⟨_, _⟩, ⟨_, _⟩⟩ := hb
      simp only [Range.Words, Range.IsWord, Compared.within]
      omega
    obtain ⟨fs', hrun, hn, htold⟩ := addFact_of_narrowing (k := k) (w := w) hfs (.range hr) t v
    rw [e]
    refine ⟨fs', hrun, hn, fun value outcome hold h => htold value outcome hold fun hout => ?_⟩
    obtain ⟨h₁, h₂⟩ := h hout v hv
    exact Annot.allows_range.2 ⟨max_le h₂.1 h₁.1, le_min h₂.2 h₁.2⟩

/-- The operand that a bound is of. -/
def operand (l r : Compared) (isLeft : Bool) : Compared := if isLeft then l else r

variable {l : Compared} {c : OpContext} {r : Compared}

theorem foldlM_narrowFact (hl : l.range.Words) (hr : r.range.Words) (bounds : List (Bool × Bool × Range))
    (hbounds : ∀ p ∈ bounds, p.2.2.Words) (fs : List (Fact Annot)) (hfs : ∀ f ∈ fs, f.value.Narrowing) :
    ∃ fs', (bounds.foldlM (fun fs (outcome, isLeft, bound) => narrowFact fs outcome (operand l r isLeft) bound) fs : Ana _) k w = .ok fs' w ∧
      (∀ f ∈ fs', f.value.Narrowing) ∧ ∀ value outcome, Told value outcome fs → (∀ p ∈ bounds, p.1 = outcome → ∀ v ∈ (operand l r p.2.1).var,
        value v ∈ (operand l r p.2.1).range ∧ value v ∈ p.2.2) → Told value outcome fs' := by
  induction bounds generalizing fs with
  | nil => exact ⟨fs, rfl, hfs, fun _ _ h _ => h⟩
  | cons p bounds ih =>
    obtain ⟨t, isLeft, bound⟩ := p
    obtain ⟨hbound, hbounds⟩ := forall_mem_cons.1 hbounds
    have ho : (operand l r isLeft).range.Words := by cases isLeft <;> assumption
    obtain ⟨fs₁, h₁, hn₁, told₁⟩ := narrowFact_spec (k := k) (w := w) hfs t ho hbound
    obtain ⟨fs₂, h₂, hn₂, told₂⟩ := ih hbounds fs₁ hn₁
    refine ⟨fs₂, ?_, hn₂, fun value outcome hold h => ?_⟩
    · rw [foldlM_cons, bind_of_ok h₁]
      exact h₂
    · obtain ⟨hp, hrest⟩ := forall_mem_cons.1 h
      exact told₂ value outcome (told₁ value outcome hold hp) hrest

/-- What a comparison whose operands stand in this order tells of them. -/
def compareOrdered (op : Comparison) (l r : Compared) : Ana (Option Annot) := do
  let fs ← (comparisonBounds op.name l.range r.range).foldlM (fun fs (outcome, isLeft, bound) => narrowFact fs outcome (operand l r isLeft) bound) []
  ok (.bool (compareRanges? op.name l.range r.range) fs)

/-- What is known of a comparison holds of all values of the operands: the outcome, and for each outcome the facts. -/
def Judges (op : Comparison) (x y : Range) (v u : Option VarId) (const : Option Bool) (fs : List (Fact Annot)) : Prop :=
  ∀ (value : VarId → Int), ∀ m ∈ x, ∀ n ∈ y, (∀ a ∈ v, value a = m) → (∀ a ∈ u, value a = n) →
    (∀ t ∈ const, op.holds m n = t) ∧ Told value (op.holds m n) fs

theorem compareOrdered_spec (op : Comparison) (hl : l.range.Words) (hr : r.range.Words) :
    ∃ const fs, compareOrdered op l r k w = .ok (some (.bool const fs)) w ∧ (∀ f ∈ fs, f.value.Narrowing) ∧
      Judges op l.range r.range l.var r.var const fs := by
  obtain ⟨fs, hrun, hn, htold⟩ := foldlM_narrowFact (k := k) (w := w) hl hr _ (op.words_of_comparisonBounds hl hr) [] nofun
  refine ⟨compareRanges? op.name l.range r.range, fs, ?_, hn, fun value x hx y hy hv hu =>
    ⟨fun t ht => ?_, htold value _ nofun fun p hp hout a ha => ?_⟩⟩
  · unfold compareOrdered
    rw [bind_of_ok hrun]
    rfl
  · exact Comparison.holds_of_compareRanges? hx hy ht
  · have hbound := Comparison.mem_of_comparisonBounds hl hr hx hy p hp hout.symm
    cases hleft : p.2.1 with
    | true =>
      rw [hleft] at ha hbound
      rw [hv a ha]
      exact ⟨hx, hbound⟩
    | false =>
      rw [hleft] at ha hbound
      rw [hu a ha]
      exact ⟨hy, hbound⟩

theorem Judges.swap {op op' : Comparison} {x y : Range} {v u : Option VarId} {const : Option Bool}
    (h : Judges op y x u v const fs) (hop : ∀ m n, op'.holds m n = op.holds n m) : Judges op' x y v u const fs := by
  intro value m hm n hn hv hu
  rw [hop]
  exact h value n hn m hm hu hv

/-- What a comparison tells of its operands: those that ask for a greater left one are turned around. -/
def compareEither (op : Comparison) (left right : Compared) : Ana (Option Annot) :=
  match op with
  | .gt => compareOrdered .lt right left
  | .ge => compareOrdered .le right left
  | op => compareOrdered op left right

theorem compareEither_spec (op : Comparison) (hl : l.range.Words) (hr : r.range.Words) :
    ∃ const fs, compareEither op l r k w = .ok (some (.bool const fs)) w ∧ (∀ f ∈ fs, f.value.Narrowing) ∧
      Judges op l.range r.range l.var r.var const fs := by
  cases op
  case gt =>
    obtain ⟨const, fs, hrun, hn, hj⟩ := compareOrdered_spec (k := k) (w := w) .lt hr hl
    exact ⟨const, fs, hrun, hn, hj.swap fun _ _ => rfl⟩
  case ge =>
    obtain ⟨const, fs, hrun, hn, hj⟩ := compareOrdered_spec (k := k) (w := w) .le hr hl
    exact ⟨const, fs, hrun, hn, hj.swap fun _ _ => rfl⟩
  all_goals exact compareOrdered_spec _ hl hr

theorem compareInts_eq (hop : c.op.name = op.name) (a b : Annot) :
    compareInts c a b = match (toInteger a).const, (toInteger b).const, (toInteger a).unsigned || (toInteger b).unsigned with
      | some m, some n, false => ok (.constBool (op.holds m n))
      | _, _, true => ok .someBool
      | _, _, false => compareEither op ⟨c.var? 0, a, (toInteger a).getRange⟩ ⟨c.var? 1, b, (toInteger b).getRange⟩ := by
  unfold compareInts
  simp only [hop, Comparison.compareIntegers_name]
  cases op <;> rfl

theorem compareInts_spec (hop : c.op.name = op.name) (ha : (toInteger a).Valid) (hb : (toInteger b).Valid) :
    ∃ const fs, compareInts c a b k w = .ok (some (.bool const fs)) w ∧ (∀ f ∈ fs, f.value.Narrowing) ∧
      Judges op (toInteger a).getRange (toInteger b).getRange (c.var? 0) (c.var? 1) const fs := by
  have ranges := compareEither_spec (k := k) (w := w) op (l := ⟨c.var? 0, a, (toInteger a).getRange⟩)
    (r := ⟨c.var? 1, b, (toInteger b).getRange⟩) ha.proper.words hb.proper.words
  rw [compareInts_eq hop]
  cases hu : (toInteger a).unsigned || (toInteger b).unsigned with
  | true =>
    refine ⟨none, [], ?_, nofun, fun _ _ _ _ _ _ _ => ⟨nofun, nofun⟩⟩
    cases (toInteger a).const <;> cases (toInteger b).const <;> rfl
  | false =>
    obtain ⟨sa, sb⟩ := Bool.or_eq_false_iff.1 hu
    cases hm : (toInteger a).const with
    | none => exact ranges
    | some m =>
      cases hn : (toInteger b).const with
      | none => exact ranges
      | some n =>
        refine ⟨some (op.holds m n), [], rfl, nofun, fun value x hx y hy _ _ => ⟨fun t ht => ?_, nofun⟩⟩
        obtain rfl := ha.eq_const sa hm hx
        obtain rfl := hb.eq_const sb hn hy
        exact Option.some.inj ht

/-! ## Links -/

/-- What the range of an integer and a fact about it have in common, or that there is nothing. -/
structure Meets (i : IntFact) (s r : Annot) : Prop where
  narrowing : r.Narrowing
  allows : ∀ n, r.Allows n ↔ n ∈ i ∧ s.Allows n

/-- A fact rules an integer out only when no value has both. -/
theorem Meets.eq_impossible_iff {i : IntFact} {s r : Annot} (h : Meets i s r) : r = .impossible ↔ ∀ n, ¬ (n ∈ i ∧ s.Allows n) := by
  rw [h.narrowing.eq_impossible_iff]
  exact forall_congr' fun n => not_congr (h.allows n)

variable {i : IntFact} {s : Annot}

theorem refine_int_int {j : IntFact} (hi : i.unsigned = false) (hj : j.unsigned = false) : refine (.int i) (.int j) =
    if max i.getRange.lo j.getRange.lo > min i.getRange.hi j.getRange.hi then pure .impossible
    else if i.const.isSome then pure (.int i)
    else pure (.int { IntFact.ofRange (max i.getRange.lo j.getRange.lo) (min i.getRange.hi j.getRange.hi) with bits := i.bits }) := by
  unfold refine
  simp only [hi, hj]
  rfl

theorem refine_int (hi : i.Valid) (si : i.unsigned = false) (hs : s.Narrowing) : ∃ r, refine (.int i) s k w = .ok r w ∧ Meets i s r := by
  cases hs with
  | impossible =>
    refine ⟨.impossible, ?_, .impossible, fun n => by simp [Annot.Allows]⟩
    have hcovered : contains .impossible (.int i) k w = .ok false w := tryCatch_of_ok rfl
    rfl
  | @int j hj sj =>
    rw [refine_int_int si sj]
    split
    · refine ⟨.impossible, rfl, .impossible, fun n => ?_⟩
      simp only [Annot.Allows, IntFact.mem_iff, false_iff]
      omega
    · rename_i hmeet
      cases hc : i.const with
      | some m =>
        -- A constant that the fact allows is its whole range.
        refine ⟨.int i, rfl, .int hi si, fun n => ⟨fun hn => ⟨hn, ?_⟩, And.left⟩⟩
        have e := hi.const m hc si
        have hn' := IntFact.mem_iff.1 hn
        change n ∈ j
        rw [IntFact.mem_iff]
        simp only [e] at hmeet hn'
        omega
      | none =>
        have e : ({ IntFact.ofRange (max i.getRange.lo j.getRange.lo) (min i.getRange.hi j.getRange.hi) with bits := i.bits } : IntFact) =
            .make none false i.bits ⟨max i.getRange.lo j.getRange.lo, min i.getRange.hi j.getRange.hi⟩ := IntFact.make_set_bits ..
        have hwords : Range.Words ⟨max i.getRange.lo j.getRange.lo, min i.getRange.hi j.getRange.hi⟩ := by
          obtain ⟨⟨_, _⟩, ⟨_, _⟩⟩ := hi.proper.words
          obtain ⟨⟨_, _⟩, ⟨_, _⟩⟩ := hj.proper.words
          simp only [Range.Words, Range.IsWord]
          omega
        rw [e]
        refine ⟨_, rfl, .int (IntFact.valid_make _ hwords (Int.not_lt.1 hmeet) (by simp)) (IntFact.make_unsigned ..), fun n => ?_⟩
        simp only [Annot.Allows, IntFact.mem_iff, IntFact.getRange_make]
        omega

variable {names : VarId → List VarId} {known : VarId → Option Annot}

/-- What a variable or a constant is passed as; none when a fact rules it out. -/
def passOne (names : VarId → List VarId) (known : VarId → Option Annot) (o : Operand) : Ana (Option Annot) := do
  let a := (← annotationOf? o).getD .impossible
  match o.var?.bind known with
  | none => return some (← renamed names a)
  | some c =>
    match ← refine a c with
    | .impossible => pure none
    | a => return some (← renamed names a)

/-- An annotation that some value has. -/
def possible? : Annot → Option Annot
  | .impossible => none
  | a => some a

/-- The operands after those that have been passed. -/
def passedOn (names : VarId → List VarId) (known : VarId → Option Annot) (post : List Operand) (ins : Option (List Annot)) :
    Ana (Option (List Annot)) :=
  match ins with
  | none => pure none
  | some ins => return (← passed names known post).map (ins ++ ·)

theorem passed_cons (o : Operand) (rest : List Operand) :
    passed names known (o :: rest) = passOne names known o >>= fun a => passedOn names known rest (a.map ([·])) := by
  unfold passOne passed
  rw [bind_assoc]
  refine bind_congr fun a => ?_
  cases o.var?.bind known with
  | none =>
    rw [bind_assoc]
    rfl
  | some c =>
    rw [bind_assoc]
    refine bind_congr fun b => ?_
    cases b
    case impossible => rfl
    all_goals
      rw [bind_assoc]
      rfl

theorem passedOn_append (ins : Option (List Annot)) (pre post : List Operand)
    (h : passed names known (pre ++ post) = passed names known pre >>= passedOn names known post) :
    passedOn names known (pre ++ post) ins = passedOn names known pre ins >>= passedOn names known post := by
  cases ins with
  | none => rfl
  | some ins =>
    simp only [passedOn, h, bind_assoc]
    refine bind_congr fun outs => ?_
    cases outs with
    | none => rfl
    | some outs => simp [passedOn, Function.comp_def]

theorem passed_append (pre post : List Operand) : passed names known (pre ++ post) = passed names known pre >>= passedOn names known post := by
  induction pre with
  | nil =>
    change _ = (do return (← passed names known post).map ([] ++ ·) : Ana _)
    simp
  | cons o pre ih =>
    rw [cons_append, passed_cons, passed_cons, bind_assoc]
    exact bind_congr fun a => passedOn_append _ pre post ih

theorem passOne_var (hknown : known v = some s) : passOne names known (.var v) k w = (do
    match ← refine ((w.progress.bindings[v]?).getD .impossible) s with
    | .impossible => pure none
    | a => return some (← renamed names a) : Ana _) k w := by
  have hfact : (Operand.var v).var?.bind known = some s := hknown
  have hread : annotationOf? (.var v) k w = .ok w.progress.bindings[v]? w := rfl
  unfold passOne
  rw [bind_of_ok hread]
  simp only [hfact]

/-- Only a variable that a fact rules out is not passed. -/
theorem of_passOne_none {o : Operand} {w' : World} (h : passOne names known o k w = .ok none w') : ∃ v s, o = .var v ∧ known v = some s ∧
    refine ((w.progress.bindings[v]?).getD .impossible) s k w = .ok .impossible w' := by
  cases hfact : o.var?.bind known with
  | none =>
    obtain ⟨a, w₁, -, h⟩ := of_bind_ok h
    simp only [hfact] at h
    obtain ⟨b, w₂, -, h⟩ := of_bind_ok h
    cases h
  | some s =>
    obtain ⟨v, hv, hknown⟩ := Option.bind_eq_some_iff.1 hfact
    cases o with
    | const d t => cases hv
    | var u =>
      obtain rfl : u = v := Option.some.inj hv
      rw [passOne_var hknown] at h
      obtain ⟨a, w₁, hrefine, h⟩ := of_bind_ok h
      refine ⟨u, s, rfl, hknown, ?_⟩
      split at h
      · cases h
        exact hrefine
      · obtain ⟨b, w₂, -, h⟩ := of_bind_ok h
        cases h

/-- Only a variable that a fact rules out keeps a link from being followed. -/
theorem exists_ruled_out {args : List Operand} {w' : World} (h : passed names known args k w = .ok none w') :
    ∃ pre v post ins w₁ s, args = pre ++ .var v :: post ∧ passed names known pre k w = .ok (some ins) w₁ ∧ known v = some s ∧
      refine ((w₁.progress.bindings[v]?).getD .impossible) s k w₁ = .ok .impossible w' := by
  induction args generalizing w with
  | nil => cases h
  | cons o rest ih =>
    rw [passed_cons] at h
    obtain ⟨a, w₁, ha, h⟩ := of_bind_ok h
    cases a with
    | none =>
      cases h
      obtain ⟨v, s, rfl, hknown, hrefine⟩ := of_passOne_none ha
      exact ⟨[], v, rest, [], w, s, rfl, rfl, hknown, hrefine⟩
    | some a =>
      obtain ⟨ins, w₂, hrest, h⟩ := of_bind_ok h
      cases ins with
      | some ins => cases h
      | none =>
        cases h
        obtain ⟨pre, v, post, ins, w₃, s, rfl, hpre, hknown, hrefine⟩ := ih hrest
        refine ⟨o :: pre, v, post, a :: ins, w₃, s, rfl, ?_, hknown, hrefine⟩
        rw [passed_cons, bind_of_ok ha]
        exact bind_of_ok hpre

/-- What is passed for a variable, when the operands before it have been passed. -/
def passedNext (names : VarId → List VarId) (known : VarId → Option Annot) (post : List Operand) (ins : List Annot) (r : Annot) :
    Ana (Option (List Annot)) :=
  match r with
  | .impossible => pure none
  | r => passedOn names known post (some (ins ++ [r]))

/-- A variable about which a fact is known is passed as what its range and the fact have in common, and the link is not
followed when that is nothing. -/
theorem passed_meets {pre post : List Operand} {ins : List Annot} {w₁ : World} (hi : i.Valid) (si : i.unsigned = false) (hs : s.Narrowing)
    (hknown : known v = some s) (hpre : passed names known pre k w = .ok (some ins) w₁) (hb : w₁.progress.bindings[v]? = some (.int i)) : ∃ r,
    Meets i s r ∧ passed names known (pre ++ .var v :: post) k w = passedNext names known post ins r k w₁ := by
  obtain ⟨r, hrefine, hmeets⟩ := refine_int (k := k) (w := w₁) hi si hs
  refine ⟨r, hmeets, ?_⟩
  have hread : (w₁.progress.bindings[v]?).getD .impossible = .int i := by rw [hb, Option.getD_some]
  have hone : passOne names known (.var v) k w₁ = .ok (possible? r) w₁ := by
    rw [passOne_var hknown, hread, bind_of_ok hrefine]
    cases hmeets.narrowing <;> rfl
  rw [passed_append, bind_of_ok hpre]
  change (do return (← passed names known (.var v :: post)).map (ins ++ ·) : Ana _) k w₁ = _
  rw [passed_cons, bind_assoc, bind_of_ok hone]
  cases hmeets.narrowing with
  | impossible => rfl
  | int _ _ =>
    simp only [possible?, Option.map_some, passedOn, passedNext, bind_assoc, pure_bind, Option.map_map, append_assoc]
    rfl

/-- What a comparison of integers tells is true of all values of its operands: the outcome, when the ranges settle it, and
on either outcome what is known of the operands.  A link on which a fact is known passes exactly the values of a variable
that the fact allows, and is left out only for a variable of which no value is left. -/
theorem comparison_narrowing_sound : (∀ (op : Comparison) (c : OpContext) (a b : Annot) (k : Knot) (w : World), c.op.name = op.name →
      (toInteger a).Valid → (toInteger b).Valid → ∃ const fs, compareInts c a b k w = .ok (some (.bool const fs)) w ∧ (∀ f ∈ fs, f.value.Narrowing) ∧
        ∀ value : VarId → Int, ∀ x ∈ toInteger a, ∀ y ∈ toInteger b, (∀ v ∈ c.var? 0, value v = x) → (∀ v ∈ c.var? 1, value v = y) →
          (∀ t ∈ const, op.holds x y = t) ∧ ∀ f ∈ fs, f.outcome = op.holds x y → f.value.Allows (value f.var)) ∧
    (∀ (i : IntFact) (s : Annot) (k : Knot) (w : World), i.Valid → i.unsigned = false → s.Narrowing →
      ∃ r, refine (.int i) s k w = .ok r w ∧ r.Narrowing ∧ (∀ n, r.Allows n ↔ n ∈ i ∧ s.Allows n) ∧ (r = .impossible ↔ ∀ n, ¬ (n ∈ i ∧ s.Allows n))) ∧
    ∀ (names : VarId → List VarId) (known : VarId → Option Annot) (k : Knot) (w : World),
      (∀ v pre post ins w₁ i s, i.Valid → i.unsigned = false → s.Narrowing → known v = some s →
        passed names known pre k w = .ok (some ins) w₁ → w₁.progress.bindings[v]? = some (.int i) →
        ∃ r, Meets i s r ∧ passed names known (pre ++ .var v :: post) k w = passedNext names known post ins r k w₁) ∧
      ∀ args w', passed names known args k w = .ok none w' →
        ∃ pre v post ins w₁ s, args = pre ++ .var v :: post ∧ passed names known pre k w = .ok (some ins) w₁ ∧ known v = some s ∧
          ∀ i, w₁.progress.bindings[v]? = some (.int i) → i.Valid → i.unsigned = false → s.Narrowing → ∀ n, ¬ (n ∈ i ∧ s.Allows n) := by
  refine ⟨fun op c a b k w hop ha hb => ?comparison, fun i s k w hi si hs => ?refinement, fun names known k w => ⟨?passed, ?left⟩⟩
  case comparison => exact compareInts_spec hop ha hb
  case refinement =>
    obtain ⟨r, hrun, hmeets⟩ := refine_int (k := k) (w := w) hi si hs
    exact ⟨r, hrun, hmeets.narrowing, hmeets.allows, hmeets.eq_impossible_iff⟩
  case passed =>
    intro v pre post ins w₁ i s hi si hs hknown hpre hb
    exact passed_meets hi si hs hknown hpre hb
  case left =>
    intro args w' h
    obtain ⟨pre, v, post, ins, w₁, s, e, hpre, hknown, hrefine⟩ := exists_ruled_out h
    refine ⟨pre, v, post, ins, w₁, s, e, hpre, hknown, fun i hb hi si hs => ?_⟩
    obtain ⟨r, hrun, hmeets⟩ := refine_int (k := k) (w := w₁) hi si hs
    rw [hb, Option.getD_some, hrun] at hrefine
    exact hmeets.eq_impossible_iff.1 (EStateM.Result.ok.inj hrefine).1

/-- The operation that asks whether the first variable is below the second. -/
def asksBelow : OpContext := { op := { name := "lt", args := [.var 1, .var 2], result := some 3 }, pos := {}, args := [] }

/-- A variable that holds a number up to ten. -/
def upToTen : World := ({} : World).bindTo 1 (.intRange 0 10)

/-- A number up to ten is compared with one between five and seven; a link on which it is above ten is not followed. -/
theorem narrowing_up_to_ten : (∃ const fs, compareInts asksBelow (.intRange 0 10) (.intRange 5 7) knot {} = .ok (some (.bool const fs)) {} ∧
      (∀ t ∈ const, t = true) ∧ ∀ f ∈ fs, f.outcome = true → f.value.Allows (if f.var = 1 then 3 else 6)) ∧
    (∃ r, refine (.intRange 0 10) (.intRange 5 7) knot {} = .ok r {} ∧ r ≠ .impossible) ∧
    passed (fun _ => []) (fun _ => some (.intRange 11 12)) [.var 1] knot upToTen = .ok none upToTen ∧
    ∃ pre v post, [Operand.var 1] = pre ++ .var v :: post := by
  obtain ⟨comparison, refinement, link⟩ := comparison_narrowing_sound
  have ten : (IntFact.ofRange 0 10).Valid := IntFact.valid_ofRange (by decide) (by decide) (by decide)
  have seven : (IntFact.ofRange 5 7).Valid := IntFact.valid_ofRange (by decide) (by decide) (by decide)
  have above : (IntFact.ofRange 11 12).Valid := IntFact.valid_ofRange (by decide) (by decide) (by decide)
  have ruledOut : passed (fun _ => []) (fun _ => some (.intRange 11 12)) [.var 1] knot upToTen = .ok none upToTen := by
    have hbound : upToTen.progress.bindings[1]? = some (.intRange 0 10) := Std.HashMap.getElem?_insert_self
    obtain ⟨r, hmeets, hrun⟩ := (link (fun _ => []) (fun _ => some (.intRange 11 12)) knot upToTen).1 1 [] [] [] upToTen _ _ ten rfl
      (.int above rfl) rfl rfl hbound
    obtain rfl : r = .impossible := by
      refine hmeets.eq_impossible_iff.2 fun n ⟨hten, habove⟩ => ?_
      have h₁ : n ≤ 10 := hten.2
      have h₂ : 11 ≤ n := habove.1
      omega
    exact hrun
  refine ⟨?_, ?_, ruledOut, ?_⟩
  · obtain ⟨const, fs, hrun, -, hjudges⟩ := comparison .lt asksBelow (.intRange 0 10) (.intRange 5 7) knot {} rfl ten seven
    obtain ⟨hconst, hfacts⟩ := hjudges (fun v => if v = 1 then 3 else 6) 3 (by decide) 6 (by decide)
      (fun v hv => if_pos (Option.some.inj hv).symm) fun v hv => if_neg (by rw [← Option.some.inj hv]; decide)
    exact ⟨const, fs, hrun, fun t ht => (hconst t ht).symm, hfacts⟩
  · obtain ⟨r, hrun, -, -, hne⟩ := refinement (IntFact.ofRange 0 10) (.intRange 5 7) knot {} ten rfl (.int seven rfl)
    exact ⟨r, hrun, fun e => hne.1 e 6 ⟨by decide, show (6 : Int) ∈ IntFact.ofRange 5 7 by decide⟩⟩
  · obtain ⟨pre, v, post, -, -, -, e, -⟩ := (link _ _ knot upToTen).2 _ _ ruledOut
    exact ⟨pre, v, post, e⟩

end Ana
end FlowCompiler
