import FlowCompiler.Proofs.Union.Upper

/-!
# What a join takes in

Of two lists that meet, a join keeps the first one.  So joins are not commutative where there are lists and
dictionaries, but an annotation that has been taken in stays taken in: a join takes both of its sides in, and what is
taken in by one side is taken in by the whole.

A test for equality tells whether a join has added anything.
-/

namespace FlowCompiler.Annot

open Ana

variable {S : Scope} {w : World}
variable {g : Group} {a b : Annot}

/-! ## Absorption -/

/-- The annotations of a scope that are no lists and no dictionaries, and hold none. -/
def Scope.leaves (S : Scope) : Scope := { S with containers := False }

/-- Whether annotations of a group have no annotations inside, and no definitions. -/
def Group.simple : Group → Bool
  | .tuple | .list | .dict | .iter | .method => false
  | _ => true

theorem Fits.leaves {a : Annot} (ha : Fits S a) (hg : a.group? = some g) (h : g.simple = true) : Fits S.leaves a := by
  cases ha <;> cases hg
  all_goals first
    | constructor <;> assumption
    | cases h

/-- It is enough to look at annotations of the same group. -/
theorem join_absorb_of_group (ha : Fits S a) (hb : Fits S b) (hg : a.group? = some g)
    (h : b.group? = some g → join S.world (join S.world a b) a = join S.world a b) : join S.world (join S.world a b) a = join S.world a b := by
  rcases group_cases b with rfl | rfl | rfl | ⟨g', hg'⟩
  · simp
  · rw [join_impossible_right, join_self ha]
  · rw [join_assoc ha hb ha, join_none_left hg, ← join_none_right (w := S.world) hg, ← join_assoc ha ha hb, join_self ha]
  · by_cases e : g = g'
    · exact h (e ▸ hg')
    · rw [join_of_ne hg hg' e, join_object_left]

theorem join_absorb_simple (ha : Fits S a) (hb : Fits S b) (hg : a.group? = some g) (hs : g.simple = true) :
    join S.world (join S.world a b) a = join S.world a b :=
  join_absorb_of_group ha hb hg fun hg' => join_absorb_left (S := S.leaves) id (ha.leaves hg hs) (hb.leaves hg' hs)

theorem joins_absorb {xs ys : List Annot} (hl : xs.length = ys.length)
    (h : ∀ x ∈ xs, ∀ y ∈ ys, join S.world (join S.world x y) x = join S.world x y) :
    joins S.world (joins S.world xs ys) xs = joins S.world xs ys := by
  induction xs generalizing ys with
  | nil => cases ys <;> rfl
  | cons x xs ih =>
    cases ys with
    | nil => cases hl
    | cons y ys =>
      simp only [joins, List.cons.injEq]
      exact ⟨h x (by simp) y (by simp), ih (Nat.succ.inj hl) fun u hu v hv => h u (by simp [hu]) v (by simp [hv])⟩

/-- **A join takes its first side in.** -/
theorem join_absorb (ha : Fits S a) (hb : Fits S b) : join S.world (join S.world a b) a = join S.world a b := by
  have fits := ha
  induction ha generalizing b
  case object | impossible => simp
  case none =>
    rcases group_cases b with rfl | rfl | rfl | ⟨g, hg⟩
    · rfl
    · rfl
    · rfl
    · rw [join_none_left hg, join_none_right_of (orNone_group hg), orNone_orNone]
  case bool | int | float | char | unichar | str | unicode | inst | pbc | builtin | type | weakref =>
    exact join_absorb_simple fits hb rfl rfl
  all_goals
    refine join_absorb_of_group fits hb rfl fun hg => ?_
    cases hb <;> cases hg
  case tuple.tuple.refl hxs ih ys hys =>
    rw [join_tuple]
    split
    · rename_i hl
      rw [join_tuple, if_pos (length_joins hl), joins_absorb hl fun x hx y hy => ih x hx (hys y hy) (hxs x hx)]
    · simp
  case list.list.refl | dict.dict.refl => rfl
  case iter.iter.refl hc ih _ _ h =>
    rw [join_iter]
    split
    · rw [join_iter, if_pos rfl, ih h hc]
    · simp
  case method.method.refl hs ih _ _ h =>
    rw [join_method]
    split
    · rw [join_method, if_pos rfl, ih h hs]
    · simp

/-- What is between two annotations of a group is of the group. -/
theorem group_between {a b c : Annot} (ha : a.group? = some g) (hc : c.group? = some g) (hab : join S.world a b = a)
    (hbc : join S.world b c = b) : b.group? = some g := by
  rcases group_cases b with rfl | rfl | rfl | ⟨g', hg'⟩
  · rw [join_object_right] at hab
    rw [← hab] at ha
    cases ha
  · rw [join_impossible_left] at hbc
    rw [hbc] at hc
    cases hc
  · rw [join_none_left hc] at hbc
    rcases orNone_group hc with h | h <;> rw [hbc] at h <;> cases h
  · by_cases e : g = g'
    · rw [hg', e]
    · rw [join_of_ne ha hg' e] at hab
      rw [← hab] at ha
      cases ha

/-! ## Equality -/

mutual

theorem equal_plain (w : World) : (a b : Annot) → w.equal a.plain b.plain = w.equal a b
  | .tuple _ _ xs, b => by
    cases b
    case tuple ys => exact itemsEqual_plains w xs ys
    all_goals rfl
  | .iter c v, b => by
    cases b
    case iter c' v' => exact congrArg (v == v' && ·) (equal_plain w c c')
    all_goals rfl
  | .method x s, b => by
    cases b
    case method y s' => exact congrArg (x == y && ·) (equal_plain w s s')
    all_goals rfl
  | .object, b | .impossible, b | .none, b | .bool _ _, b | .int _, b | .char _ _, b | .unichar _ _, b | .str _ _ _, b
  | .unicode _ _ _, b | .list _, b | .dict _, b | .inst _ _ _, b | .pbc _ _, b | .builtin _, b | .type _ _ _, b
  | .weakref _, b | .float .none _, b | .float (some _) _, b => by cases b <;> rfl

theorem itemsEqual_plains (w : World) : (xs ys : List Annot) → w.itemsEqual (plains xs) (plains ys) = w.itemsEqual xs ys
  | [], ys => by cases ys <;> rfl
  | x :: xs, ys => by
    cases ys with
    | nil => rfl
    | cons y ys =>
      rw [plains, plains, World.itemsEqual, World.itemsEqual, equal_plain w x y, itemsEqual_plains w xs ys]

end

theorem group_of_equal (h : w.equal a b = true) : a.group? = b.group? := by
  cases a
  case float c t => cases c <;> cases b <;> first | rfl | exact Bool.noConfusion (show false = true from h)
  all_goals cases b <;> first | rfl | exact Bool.noConfusion (show false = true from h)

theorem type_of_equal {c c' : Option Datum} {vs vs' : List VarId} {t t' : Nat} (hc : ∀ d ∈ c, d.Sharp)
    (h : w.equal (type c vs t) (type c' vs' t') = true) : c = c' ∧ vs = vs' := by
  simp only [World.equal, Bool.and_eq_true, beq_iff_eq] at h
  refine ⟨?_, h.1⟩
  rcases c with - | x <;> rcases c' with - | y
  · rfl
  · cases h.2
  · cases h.2
  · rw [of_decide_eq_true ((hc x rfl y).symm.trans h.2)]

/-- Simple annotations are equal if they are the same, up to the tags of types. -/
theorem eq_of_equal (ha : Fits S a) (hb : Fits S b) (hs : ∀ g, a.group? = some g → g.simple = true ∧ g ≠ .type) (h : w.equal a b = true) : a = b := by
  have hg := group_of_equal h
  cases ha
  case tuple | list | dict | iter | method => cases (hs _ rfl).1
  case type => exact absurd rfl (hs .type rfl).2
  all_goals cases hb <;> cases hg <;> try exact Bool.noConfusion (show false = true from h)
  case float.float.refl c hc c' hc' =>
    rcases c with - | x <;> rcases c' with - | y
    · rfl
    · exact Bool.noConfusion (show false = true from h)
    · exact Bool.noConfusion (show false = true from h)
    · have e : x.numEq y = true ∨ x = y := by simpa [World.equal, or_comm] using h
      rcases e with e | rfl
      · rw [S.numEq x y (hc x rfl) (hc' y rfl)] at e
        rw [of_decide_eq_true e]
      · rfl
  all_goals simp_all [World.equal]

theorem itemsEqual_trans {xs ys zs : List Annot} (h : w.itemsEqual xs ys = true) (h' : w.itemsEqual ys zs = true)
    (each : ∀ x ∈ xs, ∀ y ∈ ys, ∀ z ∈ zs, w.equal x y = true → w.equal y z = true → w.equal x z = true) : w.itemsEqual xs zs = true := by
  induction xs generalizing ys zs with
  | nil =>
    cases ys with
    | nil => exact h'
    | cons y ys => cases h
  | cons x xs ih =>
    rcases ys with - | ⟨y, ys⟩
    · cases h
    rcases zs with - | ⟨z, zs⟩
    · cases h'
    simp only [World.itemsEqual, Bool.and_eq_true] at h h' ⊢
    exact ⟨each x (by simp) y (by simp) z (by simp) h.1 h'.1,
      ih h.2 h'.2 fun u hu v hv t ht => each u (by simp [hu]) v (by simp [hv]) t (by simp [ht])⟩

/-- **Equality is transitive** on annotations that fit together. -/
theorem equal_trans {a b c : Annot} (ha : Fits S a) (hb : Fits S b) (hc : Fits S c) (h : w.equal a b = true)
    (h' : w.equal b c = true) : w.equal a c = true := by
  have hg := group_of_equal h
  have hg' := group_of_equal h'
  induction ha generalizing b c
  case object | impossible | none | bool | int | float | char | unichar | str | unicode | inst | pbc | builtin | weakref =>
    rwa [eq_of_equal (by constructor <;> assumption) hb (by rintro g ⟨⟩ <;> exact ⟨rfl, by decide⟩) h]
  all_goals
    cases hb <;> cases hg
    cases hc <;> cases hg'
  case tuple.tuple.refl.tuple.refl hxs ih ys hys zs hzs =>
    exact itemsEqual_trans h h' fun x hx y hy z hz e e' =>
      ih x hx (hys y hy) (hzs z hz) e e' (group_of_equal e) (group_of_equal e')
  case type.type.refl.type.refl hx _ _ _ _ _ hy _ _ _ _ _ _ _ _ =>
    obtain ⟨rfl, rfl⟩ := type_of_equal hx h
    obtain ⟨rfl, rfl⟩ := type_of_equal hx h'
    exact h
  all_goals simp only [World.equal, Bool.and_eq_true, beq_iff_eq] at h h' ⊢
  case list.list.refl.list.refl => exact h.trans h'
  case dict.dict.refl.dict.refl => exact ⟨h.1.trans h'.1, h.2.trans h'.2⟩
  case iter.iter.refl.iter.refl ih _ _ hy _ _ hz | method.method.refl.method.refl ih _ _ hy _ _ hz =>
    exact ⟨h.1.trans h'.1, ih hy hz h.2 h'.2 (group_of_equal h.2) (group_of_equal h'.2)⟩

/-- It is enough to look at annotations of the same group, and at nothing. -/
theorem join_eq_self_of_group (hg : a.group? = some g) (hj : (join S.world a b).group? = some g)
    (hnone : a.orNone.group? = some g → a.orNone = a) (hsame : b.group? = some g → join S.world a b = a) : join S.world a b = a := by
  rcases group_cases b with rfl | rfl | rfl | ⟨g', hg'⟩
  · rw [join_object_right] at hj
    cases hj
  · rw [join_impossible_right]
  · rw [join_none_right hg] at hj ⊢
    exact hnone hj
  · by_cases e : g = g'
    · exact hsame (e ▸ hg')
    · rw [join_of_ne hg hg' e] at hj
      cases hj

theorem joins_eq_self {xs ys : List Annot} (hl : xs.length = ys.length) (h : w.itemsEqual (joins S.world xs ys) xs = true)
    (each : ∀ x ∈ xs, ∀ y ∈ ys, w.equal (join S.world x y) x = true → join S.world x y = x) : joins S.world xs ys = xs := by
  induction xs generalizing ys with
  | nil => cases ys <;> rfl
  | cons x xs ih =>
    cases ys with
    | nil => cases hl
    | cons y ys =>
      simp only [joins, World.itemsEqual, Bool.and_eq_true, List.cons.injEq] at h ⊢
      exact ⟨each x (by simp) y (by simp) h.1, ih (Nat.succ.inj hl) h.2 fun u hu v hv => each u (by simp [hu]) v (by simp [hv])⟩

/-- **A join that is equal to its first side has added nothing to it**, where types with a tag are those of variables. -/
theorem join_eq_self_of_equal (hT : ∀ t, t ≠ 0 → (S.types t).2 ≠ []) (ha : Fits S a) (hb : Fits S b)
    (h : w.equal (join S.world a b) a = true) : join S.world a b = a := by
  have hj := group_of_equal h
  induction ha generalizing b
  case object | impossible | none | bool | int | float | char | unichar | str | unicode | inst | pbc | builtin | weakref =>
    exact eq_of_equal (Fits.join (by constructor <;> assumption) hb) (by constructor <;> assumption)
      (by rw [hj]; rintro g ⟨⟩ <;> exact ⟨rfl, by decide⟩) h
  all_goals
    refine join_eq_self_of_group rfl hj (by rintro ⟨⟩ <;> rfl) fun hg => ?_
    cases hb <;> cases hg
  case tuple.tuple.refl ih ys hys =>
    rw [join_tuple] at h hj ⊢
    split at h
    · rename_i hl
      rw [if_pos hl, joins_eq_self hl h fun x hx y hy e => ih x hx (hys y hy) e (group_of_equal e)]
    · cases h
  case list.list.refl | dict.dict.refl => rfl
  case iter.iter.refl ih _ _ hy =>
    rw [join_iter] at h hj ⊢
    split at h
    · rename_i e
      simp only [World.equal, Bool.and_eq_true] at h
      rw [if_pos e, ih hy h.2 (group_of_equal h.2)]
    · cases h
  case method.method.refl ih _ _ hy =>
    rw [join_method] at h hj ⊢
    split at h
    · rename_i e
      simp only [World.equal, Bool.and_eq_true] at h
      rw [if_pos e, ih hy h.2 (group_of_equal h.2)]
    · cases h
  case type.type.refl c vs t hc h0 ht _ _ _ _ _ _ =>
    rw [join_type_type hc] at h hj ⊢
    split at h
    · rename_i e
      rw [if_pos e]
    · rename_i e
      obtain ⟨hcc, hvs⟩ := type_of_equal (fun d hd => hc d (sameOr_mem hd).1) h
      have ht0 : t = 0 := by
        by_contra hne
        exact hT t hne ((congrArg Prod.snd (ht hne)).trans hvs.symm)
      rw [if_neg e, hcc, ← hvs, ht0]

end FlowCompiler.Annot
