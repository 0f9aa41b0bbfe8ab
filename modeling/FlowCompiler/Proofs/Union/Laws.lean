import FlowCompiler.Proofs.Union.Join

/-!
# The laws of joins

Joins are associative, and apart from lists and dictionaries commutative and idempotent, on annotations that
fit together.
-/

namespace FlowCompiler.Annot

open Ana

variable {S : Scope}
variable {g : Group} {a b c : Annot}

/-! ## Nothing -/

/-- Whether annotations of a group can hold nothing. -/
def Group.nullable : Group → Bool
  | .text | .wide | .list | .dict | .inst | .pbc => true
  | _ => false

theorem orNone_of_not_nullable {a : Annot} (h : a.group? = some g) (hg : g.nullable = false) : a.orNone = object := by
  cases a <;> cases h <;> first | rfl | cases hg

/-- Nothing can be added before or after a join, where no character is joined with it. -/
theorem join_orNone {a b : Annot} {g g' : Group} (ha : Fits S a) (hb : Fits S b) (hn : S.nothing) (hg : a.group? = some g)
    (hg' : b.group? = some g') : join S.world a.orNone b = (join S.world a b).orNone ∧ join S.world a b.orNone = (join S.world a b).orNone := by
  have hchar : ¬ S.characters := fun h => S.apart ⟨h, hn⟩
  by_cases e : g = g'
  swap
  · -- only the top is above both
    rw [join_of_ne hg hg' e]
    constructor
    · rcases orNone_group hg with h | h
      · rw [h]
        exact join_object_left b
      · rw [join_of_ne h hg' e]
        rfl
    · rcases orNone_group hg' with h | h
      · rw [h]
        exact join_object_right a
      · rw [join_of_ne hg h e]
        rfl
  subst e
  cases hnull : g.nullable with
  | false =>
    rw [orNone_of_not_nullable hg hnull, orNone_of_not_nullable hg' hnull, join_object_left, join_object_right]
    rcases join_group (w := S.world) hg hg' with h | h
    · rw [h]
      exact ⟨rfl, rfl⟩
    · rw [orNone_of_not_nullable h hnull]
      exact ⟨rfl, rfl⟩
  | true =>
  cases ha <;> cases hg <;> cases hnull <;> cases hb <;> cases hg'
  case str.refl.refl.str.refl c m z h c' m' z' h' =>
    cases m <;> cases m' <;> simp_all [orNone, nullable?, someStr]
  case unicode.refl.refl.unicode.refl c m z h c' m' z' h' =>
    cases m <;> cases m' <;> simp_all [orNone, nullable?, someUnicode]
  case inst.refl.refl.inst.refl c m fs h c' m' fs' h' =>
    simp only [orNone, nullable?, Option.getD_some, join_inst, Bool.true_or, Bool.or_true]
    constructor
    all_goals
      split
      · rfl
      · split
        · split <;> rfl
        · rfl
  case pbc.refl.refl.pbc.refl => simp [orNone, nullable?]
  case list.refl.refl.list.refl => simp [orNone, nullable?]
  case dict.refl.refl.dict.refl => simp [orNone, nullable?]
  all_goals exact absurd ‹S.characters› hchar

theorem orNone_orNone (a : Annot) : a.orNone.orNone = a.orNone := by
  cases a
  case str c m z => cases m <;> rfl
  case unicode c m z => cases m <;> rfl
  all_goals rfl

theorem join_none_right_of {a : Annot} (h : a = object ∨ a.group? = some g) : join S.world a none = a.orNone := by
  rcases h with rfl | h
  · rfl
  · exact join_none_right h

theorem join_none_left_of {a : Annot} (h : a = object ∨ a.group? = some g) : join S.world none a = a.orNone := by
  rcases h with rfl | h
  · rfl
  · exact join_none_left h

/-- The join of annotations of groups is the top, or of the group of both. -/
theorem join_group_or {a b : Annot} {g g' : Group} (ha : a.group? = some g) (hb : b.group? = some g') :
    join S.world a b = object ∨ g = g' ∧ (join S.world a b).group? = some g := by
  by_cases e : g = g'
  · subst e
    exact (join_group ha hb).imp_right fun h => ⟨rfl, h⟩
  · exact .inl (join_of_ne ha hb e)

/-! ## Associativity -/

variable (S a b c) in
/-- It does not matter which two are joined first. -/
abbrev Assoc : Prop := join S.world (join S.world a b) c = join S.world a (join S.world b c)

theorem join_assoc_of_group (ha : Fits S a) (hb : Fits S b) (hc : Fits S c) (hg : a.group? = some g)
    (h : b.group? = some g → c.group? = some g → Assoc S a b c) : Assoc S a b c := by
  unfold Assoc
  rcases group_cases b with rfl | rfl | rfl | ⟨g', hg'⟩
  · simp
  · simp
  · rw [join_none_right hg]
    rcases group_cases c with rfl | rfl | rfl | ⟨g'', hg''⟩
    · simp
    · rw [join_impossible_right, join_impossible_right, join_none_right hg]
    · rw [join_none_right_of (orNone_group hg), orNone_orNone]
      exact (join_none_right hg).symm
    · obtain ⟨h1, h2⟩ := join_orNone ha hc hb.nothing hg hg''
      rw [join_none_left hg'', h1, h2]
  · rcases group_cases c with rfl | rfl | rfl | ⟨g'', hg''⟩
    · simp
    · simp
    · rw [join_none_right hg', (join_orNone ha hb hc.nothing hg hg').2]
      exact join_none_right_of ((join_group_or hg hg').imp_right (·.2))
    · by_cases e : g = g' ∧ g = g''
      · obtain ⟨rfl, rfl⟩ := e
        exact h hg' hg''
      · -- on both sides annotations of different groups are joined
        have hleft : join S.world (join S.world a b) c = object := by
          rcases join_group_or (S := S) hg hg' with hab | ⟨e', hab⟩
          · rw [hab, join_object_left]
          · exact join_of_ne hab hg'' fun e'' => e ⟨e', e''⟩
        have hright : join S.world a (join S.world b c) = object := by
          rcases join_group_or (S := S) hg' hg'' with hbc | ⟨e', hbc⟩
          · rw [hbc, join_object_right]
          · exact join_of_ne hg hbc fun e'' => e ⟨e'', e''.trans e'⟩
        rw [hleft, hright]

theorem join_none_assoc {b c : Annot} (hn : S.nothing) (hb : Fits S b) (hc : Fits S c) : Assoc S none b c := by
  unfold Assoc
  rcases group_cases b with rfl | rfl | rfl | ⟨g, hg⟩
  · simp
  · simp
  · rcases group_cases c with rfl | rfl | rfl | ⟨g, hg⟩
    · rfl
    · rfl
    · rfl
    · change join S.world none c = join S.world none (join S.world none c)
      rw [join_none_left hg, join_none_left_of (orNone_group hg), orNone_orNone]
  · rw [join_none_left hg]
    rcases group_cases c with rfl | rfl | rfl | ⟨g', hg'⟩
    · simp
    · simp [join_none_left hg]
    · rw [join_none_right_of (orNone_group hg), join_none_right hg, join_none_left_of (orNone_group hg)]
    · rw [(join_orNone hb hc hn hg hg').1]
      exact (join_none_left_of ((join_group_or hg hg').imp_right (·.2))).symm

theorem joins_assoc {xs ys zs : List Annot} (h : ∀ x ∈ xs, ∀ y ∈ ys, ∀ z ∈ zs, Assoc S x y z) :
    joins S.world (joins S.world xs ys) zs = joins S.world xs (joins S.world ys zs) := by
  induction xs generalizing ys zs with
  | nil => cases ys <;> cases zs <;> rfl
  | cons x xs ih =>
    match ys, zs with
    | [], [] => rfl
    | [], z :: zs => rfl
    | y :: ys, [] => rfl
    | y :: ys, z :: zs =>
      simp only [joins, List.cons.injEq]
      exact ⟨h x (by simp) y (by simp) z (by simp),
        ih fun u hu v hv t ht => h u (by simp [hu]) v (by simp [hv]) t (by simp [ht])⟩

/-! ### Numbers -/

theorem join_float_none (c : Option Double) : join S.world (float c 0) (float .none 0) = float .none 0 := by
  cases c <;> rfl

theorem join_none_float (c : Option Double) : join S.world (float .none 0) (float c 0) = float .none 0 := by
  cases c <;> rfl

section

variable (ha : Fits S a) (hb : Fits S b) (hc : Fits S c)
include ha hb hc

theorem join_assoc_number (ga : a.group? = some .number) (gb : b.group? = some .number) (gc : c.group? = some .number) : Assoc S a b c := by
  unfold Assoc
  cases ha <;> cases ga <;> cases hb <;> cases gb <;> cases hc <;> cases gc
  case float.refl.float.refl.float.refl x hx y hy z hz =>
    rw [join_float_float hx hy, join_float_float hy hz, join_float_float (fun _ h => hx _ (sameOr_mem h).1) hz,
      join_float_float hx fun _ h => hy _ (sameOr_mem h).1, sameOr_assoc]
  case float.refl.float.refl.bool.refl x hx y hy z =>
    rw [join_float_float hx hy, join_float_bool, join_float_bool, join_float_none]
  case float.refl.float.refl.int.refl x hx y hy z hz =>
    rw [join_float_float hx hy, join_float_int, join_float_int, join_float_none]
  case bool.refl.float.refl.float.refl x y hy z hz =>
    rw [join_float_float hy hz, join_bool_float, join_bool_float, join_none_float]
  case int.refl.float.refl.float.refl x hx y hy z hz =>
    rw [join_float_float hy hz, join_int_float, join_int_float, join_none_float]
  case bool.refl.bool.refl.bool.refl x y z => simp [sameOr_assoc]
  -- truth values are integers, and an integer is a float of which nothing is known
  all_goals simp only [join_bool_bool, join_bool_int, join_int_bool, join_int_int, join_float_int, join_int_float, join_float_bool,
      join_bool_float, join_float_none, join_none_float, ← IntFact.union_ofBool]
  all_goals refine congrArg int (IntFact.union_assoc ?_ ?_ ?_) <;> first | assumption | exact IntFact.proper_ofBool _

/-! ### Texts -/

theorem join_assoc_text (ga : a.group? = some .text) (gb : b.group? = some .text) (gc : c.group? = some .text) : Assoc S a b c := by
  unfold Assoc
  have hmap (x y : Option UInt8) : (sameOr x y).map textOf = sameOr (x.map textOf) (y.map textOf) := map_sameOr fun _ _ _ _ => textOf_inj
  cases ha <;> cases ga <;> cases hb <;> cases gb <;> cases hc <;> cases gc
  all_goals simp [hmap, sameOr_assoc, Bool.and_assoc, Bool.or_assoc]

theorem join_assoc_wide (ga : a.group? = some .wide) (gb : b.group? = some .wide) (gc : c.group? = some .wide) : Assoc S a b c := by
  unfold Assoc
  have hmap {x y : Option Int} (hx : ∀ n ∈ x, ((Char.ofNat n.toNat).toNat : Int) = n)
      (hy : ∀ n ∈ y, ((Char.ofNat n.toNat).toNat : Int) = n) : (sameOr x y).map wideOf = sameOr (x.map wideOf) (y.map wideOf) :=
    map_sameOr fun _ h _ h' => wideOf_inj (hx _ h) (hy _ h')
  cases ha <;> cases ga <;> cases hb <;> cases gb <;> cases hc <;> cases gc
  case unichar.refl.unichar.refl.unicode.refl x z hs hx y z' hs' hy c m z'' h =>
    simp [hmap hx hy, sameOr_assoc, Bool.and_assoc]
  case unicode.refl.unichar.refl.unichar.refl c m z'' h x z hs hx y z' hs' hy =>
    simp [hmap hx hy, sameOr_assoc, Bool.and_assoc]
  all_goals simp [sameOr_assoc, Bool.and_assoc, Bool.or_assoc]

end

/-! ### Instances, types and weak references -/

theorem join_elim_left {α : Type} (o : Option α) (f : α → Annot) (b : Annot) :
    join S.world (o.elim object f) b = o.elim object fun k => join S.world (f k) b := by
  cases o with
  | none => exact join_object_left b
  | some k => rfl

theorem join_elim_right {α : Type} (a : Annot) (o : Option α) (f : α → Annot) :
    join S.world a (o.elim object f) = o.elim object fun k => join S.world a (f k) := by
  cases o with
  | none => exact join_object_right a
  | some k => rfl

theorem elim_elim {α β : Type} (o : Option α) (g : α → Option β) (f : β → Annot) :
    (o.elim object fun k => (g k).elim object f) = (o.bind g).elim object f := by
  cases o <;> rfl

theorem join_inst_some (x y : ClassDefId) (m m' : Bool) (fs gs : List String) : join S.world (inst (some x) m fs) (inst (some y) m' gs) =
      (S.world.commonBase? x y).elim object fun k => inst (some k) (m || m') (fs.filter gs.contains) := by
  rw [join_inst]
  by_cases h : x = y
  · subst h
    rw [if_pos rfl, World.commonBase?_self S.ordered]
    rfl
  · rw [if_neg (by simpa using h)]
    dsimp only
    cases S.world.commonBase? x y <;> rfl

theorem join_inst_none (m m' : Bool) (fs gs : List String) :
    join S.world (inst .none m fs) (inst .none m' gs) = inst .none (m || m') (fs.filter gs.contains) := by
  rw [join_inst, if_pos rfl]

theorem join_inst_none_some (y : ClassDefId) (m m' : Bool) (fs gs : List String) : join S.world (inst .none m fs) (inst (some y) m' gs) = object := by
  rw [join_inst, if_neg (by simp)]

theorem join_inst_some_none (x : ClassDefId) (m m' : Bool) (fs gs : List String) : join S.world (inst (some x) m fs) (inst .none m' gs) = object := by
  rw [join_inst, if_neg (by simp)]

variable (x y z : Option ClassDefId)

theorem join_assoc_inst (m m' m'' : Bool) (fs gs hs : List String) : Assoc S (inst x m fs) (inst y m' gs) (inst z m'' hs) := by
  unfold Assoc
  match x, y, z with
  | Option.none, .none, .none => simp only [join_inst_none, Bool.or_assoc, filter_contains_assoc]
  | .none, .none, some z =>
    rw [join_inst_none, join_inst_none_some, join_inst_none_some, join_object_right]
  | Option.none, some y, .none =>
    rw [join_inst_none_some, join_inst_some_none, join_object_left, join_object_right]
  | .none, some y, some z =>
    rw [join_inst_none_some, join_object_left, join_inst_some, join_elim_right]
    cases S.world.commonBase? y z with
    | none => rfl
    | some k => exact (join_inst_none_some ..).symm
  | some x, Option.none, .none => rw [join_inst_some_none, join_object_left, join_inst_none, join_inst_some_none]
  | some x, Option.none, some z =>
    rw [join_inst_some_none, join_inst_none_some, join_object_left, join_object_right]
  | some x, some y, .none =>
    rw [join_inst_some_none, join_object_right, join_inst_some, join_elim_left]
    cases S.world.commonBase? x y with
    | none => rfl
    | some k => exact join_inst_some_none ..
  | some x, some y, some z =>
    simp only [join_inst_some, join_elim_left, join_elim_right, elim_elim, filter_contains_assoc, Bool.or_assoc]
    rw [World.commonBase?_assoc S.ordered]

theorem join_weakref_some (x y : ClassDefId) :
    join S.world (weakref (some x)) (weakref (some y)) = (S.world.commonBase? x y).elim object fun k => weakref (some k) := by
  rw [join_weakref]
  dsimp only
  cases S.world.commonBase? x y <;> rfl

theorem join_weakref_none_left : join S.world (weakref .none) (weakref y) = weakref y := rfl

theorem join_weakref_none_right : join S.world (weakref x) (weakref .none) = weakref x := by
  cases x <;> rfl

theorem join_assoc_weakref : Assoc S (weakref x) (weakref y) (weakref z) := by
  unfold Assoc
  match x, y, z with
  | Option.none, Option.none, z => rfl
  | .none, some y, .none => rfl
  | Option.none, some y, some z => simp only [join_weakref_none_left, join_weakref_some, join_elim_right]
  | some x, .none, z => rfl
  | some x, some y, .none => simp only [join_weakref_none_right, join_weakref_some, join_elim_left]
  | some x, some y, some z =>
    simp only [join_weakref_some, join_elim_left, join_elim_right, elim_elim]
    rw [World.commonBase?_assoc S.ordered]

theorem join_assoc_type (ha : Fits S a) (hb : Fits S b) (hc : Fits S c) (ga : a.group? = some .type)
    (gb : b.group? = some .type) (gc : c.group? = some .type) : Assoc S a b c := by
  unfold Assoc
  cases ha <;> cases ga
  case type.refl x xs t hx h0 ht =>
  cases hb <;> cases gb
  case type.refl y ys t' hy h0' ht' =>
  cases hc <;> cases gc
  case type.refl z zs t'' hz h0'' ht'' =>
  have hxy : ∀ d ∈ sameOr x y, d.Sharp := fun d hd => hx d (sameOr_mem hd).1
  rw [join_type_type hx, join_type_type hy]
  by_cases e : t = t' ∧ t ≠ 0
  · obtain ⟨rfl, hne⟩ := e
    obtain ⟨rfl, rfl⟩ := Prod.mk.inj ((ht hne).symm.trans (ht' hne))
    rw [if_pos ⟨rfl, hne⟩]
    by_cases e' : t = t'' ∧ t ≠ 0
    · rw [if_pos e', join_type_type hx, join_type_type hx, if_pos e', if_pos ⟨rfl, hne⟩]
    · rw [if_neg e', join_type_type hx, join_type_type hx, if_neg e', if_neg (fun h => hne h.1), ← sameOr_assoc, sameOr_self]
  · rw [if_neg e, join_type_type hxy, if_neg (fun h => h.2 rfl)]
    by_cases e' : t' = t'' ∧ t' ≠ 0
    · obtain ⟨rfl, hne⟩ := e'
      obtain ⟨rfl, rfl⟩ := Prod.mk.inj ((ht' hne).symm.trans (ht'' hne))
      rw [if_pos ⟨rfl, hne⟩, join_type_type hx, if_neg e, sameOr_assoc, sameOr_self]
    · rw [if_neg e', join_type_type hx, if_neg (fun h => h.2 h.1), sameOr_assoc]

section
variable {α κ : Type} [DecidableEq κ] {F : α → Annot} {t : α → κ} {o : α → α → α}

section

variable (hF : ∀ x y, join S.world (F x) (F y) = if t x = t y then F (o x y) else object)
include hF

/-- Annotations that are joined only where a tag of theirs is the same. -/
theorem join_assoc_of_tag (ht : ∀ {x y}, t x = t y → t (o x y) = t x) {x y z : α} (h : o (o x y) z = o x (o y z)) : Assoc S (F x) (F y) (F z) := by
  rw [Assoc, hF x, hF y]
  by_cases e : t x = t y
  · by_cases e' : t y = t z
    · rw [if_pos e, if_pos e', hF, hF, ht e, ht e', if_pos (e.trans e'), if_pos e, h]
    · rw [if_pos e, if_neg e', hF, ht e, if_neg (e ▸ e'), join_object_right]
  · rw [if_neg e, join_object_left]
    split
    · rename_i e'
      rw [hF, ht e', if_neg e]
    · rw [join_object_right]

theorem join_comm_of_tag {x y : α} (h : t x = t y → o x y = o y x) : join S.world (F x) (F y) = join S.world (F y) (F x) := by
  rw [hF, hF]
  by_cases e : t x = t y
  · rw [if_pos e, if_pos e.symm, h e]
  · rw [if_neg e, if_neg (Ne.symm e)]

end

end

/-- **It does not matter which of three annotations are joined first.** -/
theorem join_assoc (ha : Fits S a) (hb : Fits S b) (hc : Fits S c) : Assoc S a b c := by
  have fits := ha
  induction ha generalizing b c
  case object => simp [Assoc]
  case impossible => rfl
  case none h => exact join_none_assoc h hb hc
  all_goals refine join_assoc_of_group fits hb hc rfl fun hg hg' => ?_
  case bool | int | float => exact join_assoc_number fits hb hc rfl hg hg'
  case char | str => exact join_assoc_text fits hb hc rfl hg hg'
  case unichar | unicode => exact join_assoc_wide fits hb hc rfl hg hg'
  case type => exact join_assoc_type fits hb hc rfl hg hg'
  all_goals
    cases hb <;> cases hg
    cases hc <;> cases hg'
  case tuple.tuple.refl.tuple.refl hxs ih ys hys zs hzs =>
    exact join_assoc_of_tag (join_tuple 0 0 Option.none Option.none) length_joins
      (joins_assoc fun x hx y hy z hz => ih x hx (hys y hy) (hzs z hz) (hxs x hx))
  case list.list.refl.list.refl | dict.dict.refl.dict.refl => rfl
  case inst.inst.refl.inst.refl => exact join_assoc_inst ..
  case pbc.pbc.refl.pbc.refl =>
    rw [Assoc, join_pbc, join_pbc, join_pbc, join_pbc, Bool.or_assoc]
    refine congrArg (pbc · _) (sortDescs_congr fun d => ?_)
    simp [mem_sortDescs, or_assoc]
  case iter.iter.refl.iter.refl x v hx ih y v' hy z v'' hz =>
    exact join_assoc_of_tag (F := fun p => iter p.1 p.2) (t := Prod.snd) (o := fun p q => (join S.world p.1 q.1, p.2)) (fun _ _ => join_iter ..)
      (fun _ => rfl) (x := (x, v)) (y := (y, v')) (z := (z, v'')) (Prod.ext (ih hy hz hx) rfl)
  case builtin.builtin.refl.builtin.refl => exact join_assoc_of_tag (o := fun x _ => x) join_builtin (fun _ => rfl) rfl
  case method.method.refl.method.refl x s hs ih y t ht z u hu =>
    exact join_assoc_of_tag (F := fun p => method p.1 p.2) (t := Prod.fst) (o := fun p q => (p.1, join S.world p.2 q.2)) (fun _ _ => join_method ..)
      (fun _ => rfl) (x := (x, s)) (y := (y, t)) (z := (z, u)) (Prod.ext rfl (ih ht hu hs))
  case weakref.weakref.refl.weakref.refl => exact join_assoc_weakref ..

/-! ## Idempotence and commutativity -/

theorem joins_self {xs : List Annot} (h : ∀ x ∈ xs, join S.world x x = x) : joins S.world xs xs = xs := by
  induction xs with
  | nil => rfl
  | cons x xs ih =>
    simp only [joins, List.cons.injEq]
    exact ⟨h x (by simp), ih fun y hy => h y (by simp [hy])⟩

theorem join_self {a : Annot} (ha : Fits S a) : join S.world a a = a := by
  induction ha with
  | object => rfl
  | impossible => rfl
  | none h => rfl
  | bool x => simp
  | int hi => rw [join_int_int, IntFact.union_self hi]
  | float hx => rw [join_float_float hx hx, sameOr_self]
  | char x z hs => simp
  | unichar z hs hx => simp
  | str z hs => simp
  | unicode z hs => simp
  | tuple hxs ih => rw [join_tuple, if_pos rfl, joins_self ih]
  | list d h => rfl
  | dict d h => rfl
  | @inst x m fs hfs =>
    have hflags : fs.filter fs.contains = fs := List.filter_eq_self.2 fun f hf => by simpa using hf
    rw [join_inst, if_pos rfl, hflags, Bool.or_self]
  | @pbc ds m hds hd =>
    have hdescs : sortDescs (ds ++ ds) = sortDescs ds := sortDescs_congr fun d => by simp
    rw [join_pbc, Bool.or_self, hdescs, sortDescs_eq hds]
  | iter v hx ih => rw [join_iter, if_pos rfl, ih]
  | builtin x => rw [join_builtin, if_pos rfl]
  | method x hs ih => rw [join_method, if_pos rfl, ih]
  | @type x vs t hx h0 ht =>
    rw [join_type_type hx]
    split
    · rfl
    · rename_i h
      have ht0 : t = 0 := by simpa using h
      rw [sameOr_self, ht0, h0 ht0]
  | weakref x =>
    cases x with
    | none => rfl
    | some x =>
      rw [join_weakref_some, World.commonBase?_self S.ordered]
      rfl

theorem joins_comm {xs ys : List Annot} (h : ∀ x ∈ xs, ∀ y ∈ ys, join S.world x y = join S.world y x) :
    joins S.world xs ys = joins S.world ys xs := by
  induction xs generalizing ys with
  | nil => cases ys <;> rfl
  | cons x xs ih =>
    cases ys with
    | nil => rfl
    | cons y ys =>
      simp only [joins, List.cons.injEq]
      exact ⟨h x (by simp) y (by simp), ih fun u hu v hv => h u (by simp [hu]) v (by simp [hv])⟩

theorem join_comm_of_group {a b : Annot} (hg : a.group? = some g)
    (h : b.group? = some g → join S.world a b = join S.world b a) : join S.world a b = join S.world b a := by
  rcases group_cases b with rfl | rfl | rfl | ⟨g', hg'⟩
  · simp
  · simp
  · rw [join_none_left hg, join_none_right hg]
  · by_cases e : g = g'
    · exact h (e ▸ hg')
    · rw [join_of_ne hg hg' e, join_of_ne hg' hg (Ne.symm e)]

/-- The order of two annotations does not matter, where lists and dictionaries are not merged. -/
theorem join_comm (hS : ¬ S.containers) {a b : Annot} (ha : Fits S a) (hb : Fits S b) : join S.world a b = join S.world b a := by
  induction ha generalizing b
  case object | impossible => simp
  case none =>
    rcases group_cases b with rfl | rfl | rfl | ⟨g, hg⟩
    · rfl
    · rfl
    · rfl
    · rw [join_none_left hg, join_none_right hg]
  all_goals
    refine join_comm_of_group rfl fun hg => ?_
    cases hb <;> cases hg
  case bool.bool.refl => simp [sameOr_comm]
  case bool.int.refl x i hi | int.bool.refl i hi x => simp [IntFact.union_comm hi (IntFact.proper_ofBool x)]
  case int.int.refl i hi j hj => simp [IntFact.union_comm hi hj]
  case float.float.refl x hx y hy => rw [join_float_float hx hy, join_float_float hy hx, sameOr_comm]
  case bool.float.refl | int.float.refl | float.bool.refl | float.int.refl => simp
  case tuple.tuple.refl hxs ih ys hys =>
    exact join_comm_of_tag (join_tuple 0 0 .none .none) fun _ => joins_comm fun x hx y hy => ih x hx (hys y hy)
  case list.list.refl h _ _ | dict.dict.refl h _ _ => exact absurd h hS
  case inst.inst.refl x m fs hfs y m' gs hgs =>
    match x, y with
    | .none, Option.none => rw [join_inst_none, join_inst_none, Bool.or_comm, filter_contains_comm hfs hgs]
    | .none, some y => rw [join_inst_none_some, join_inst_some_none]
    | some x, Option.none => rw [join_inst_none_some, join_inst_some_none]
    | some x, some y =>
      rw [join_inst_some, join_inst_some, Bool.or_comm, filter_contains_comm hfs hgs, World.commonBase?_comm S.ordered]
  case pbc.pbc.refl =>
    rw [join_pbc, join_pbc, Bool.or_comm]
    refine congrArg (pbc · _) (sortDescs_congr fun d => ?_)
    simp [or_comm]
  case iter.iter.refl x v hx ih y v' hy =>
    exact join_comm_of_tag (F := fun p => iter p.1 p.2) (t := Prod.snd) (o := fun p q => (join S.world p.1 q.1, p.2)) (fun _ _ => join_iter ..)
      (x := (x, v)) (y := (y, v')) fun e => Prod.ext (ih hy) e
  case builtin.builtin.refl => exact join_comm_of_tag (o := fun x _ => x) join_builtin id
  case method.method.refl x s hs ih y t ht =>
    exact join_comm_of_tag (F := fun p => method p.1 p.2) (t := Prod.fst) (o := fun p q => (p.1, join S.world p.2 q.2)) (fun _ _ => join_method ..)
      (x := (x, s)) (y := (y, t)) fun e => Prod.ext e (ih ht)
  case type.type.refl x xs t hx h0 ht y ys t' hy h0' ht' =>
    rw [join_type_type hx, join_type_type hy]
    by_cases e : t = t' ∧ t ≠ 0
    · obtain ⟨rfl, hne⟩ := e
      obtain ⟨rfl, rfl⟩ := Prod.mk.inj ((ht hne).symm.trans (ht' hne))
      rfl
    · have e' : ¬ (t' = t ∧ t' ≠ 0) := fun h => e ⟨h.1.symm, h.1 ▸ h.2⟩
      rw [if_neg e, if_neg e', sameOr_comm]
  case weakref.weakref.refl x y =>
    match x, y with
    | .none, y => rw [join_weakref_none_left, join_weakref_none_right]
    | some x, Option.none => rfl
    | some x, some y => rw [join_weakref_some, join_weakref_some, World.commonBase?_comm S.ordered]
  all_goals simp [sameOr_comm, Bool.and_comm, Bool.or_comm]

end FlowCompiler.Annot
