import FlowCompiler.Proofs.Union.Laws
import FlowCompiler.Proofs.Union.Methods

/-!
# The order of unions

A union that succeeds gives the join of what its annotations say, whatever state it runs in; a tuple that it
makes has a tag that no tuple had before.  So the laws of joins carry over to unions: they may be grouped in
any way, and where no lists and dictionaries are merged, taken in any order.
-/

namespace FlowCompiler.Annot

open Ana List

variable {S : Scope} {w w' : World} {a b : Annot}
variable {k : Knot} {r : Annot} {n n' : Nat} {τ : Nat → Annot} {as : List Annot}

/-! ## What annotations say -/

/-- An annotation without annotations inside. -/
def isLeaf (a : Annot) : Bool := a.group?.all fun g => !(g = .tuple || g = .iter || g = .method)

theorem group?_plain (a : Annot) : a.plain.group? = a.group? := by cases a <;> rfl

theorem isLeaf_congr (h : a.group? = b.group?) : a.isLeaf = b.isLeaf := by rw [isLeaf, isLeaf, h]

theorem plain_eq_self (h : a.isLeaf = true) : a.plain = a := by
  cases a <;> first | rfl | cases h

theorem eq_of_plain_eq {p : Annot} (hp : p.isLeaf = true) (h : a.plain = p) : a = p := by
  have ha : a.isLeaf = true := by rw [isLeaf_congr (group?_plain a).symm, h, hp]
  rw [← h, plain_eq_self ha]

theorem plain_orNone (a : Annot) : a.orNone.plain = a.plain.orNone := by
  cases a
  case str c m z => cases m <;> rfl
  case unicode c m z => cases m <;> rfl
  all_goals rfl

theorem isLeaf_orNone (a : Annot) : a.orNone.isLeaf = true := by
  cases a
  case str c m z => cases m <;> rfl
  case unicode c m z => cases m <;> rfl
  all_goals rfl

/-- The join of annotations that are not nested in the same way is not nested. -/
theorem isLeaf_join (ha : a ≠ impossible) (hb : b ≠ impossible) (h : a.group? = b.group? → a.isLeaf = true) : (join w a b).isLeaf = true := by
  rcases group_cases a with rfl | rfl | rfl | ⟨g, hg⟩
  · rw [join_object_left]
    rfl
  · exact absurd rfl ha
  · rcases group_cases b with rfl | rfl | rfl | ⟨g', hg'⟩
    · rfl
    · rfl
    · rfl
    · rw [join_none_left hg', isLeaf_orNone]
  · rcases group_cases b with rfl | rfl | rfl | ⟨g', hg'⟩
    · rw [join_object_right]
      rfl
    · exact absurd rfl hb
    · rw [join_none_right hg, isLeaf_orNone]
    · by_cases e : g = g'
      · subst e
        rcases join_group hg hg' with e | e
        · rw [e]
          rfl
        · rw [isLeaf_congr (e.trans hg.symm), h (hg.trans hg'.symm)]
      · rw [join_of_ne hg hg' e]
        rfl

/-- What tells tuples apart does not matter where the annotations inside do not meet. -/
theorem plain_join (h : a.group? = b.group? → a.isLeaf = true) : (join w a b).plain = join w a.plain b.plain := by
  rcases group_cases a with rfl | rfl | rfl | ⟨g, hg⟩
  · rw [join_object_left]
    exact (join_object_left _).symm
  · rfl
  · rcases group_cases b with rfl | rfl | rfl | ⟨g', hg'⟩
    · rfl
    · rfl
    · rfl
    · rw [join_none_left hg', plain_orNone]
      exact (join_none_left ((group?_plain b).trans hg')).symm
  · rcases group_cases b with rfl | rfl | rfl | ⟨g', hg'⟩
    · rw [join_object_right]
      exact (join_object_right _).symm
    · rw [join_impossible_right]
      exact (join_impossible_right _).symm
    · rw [join_none_right hg, plain_orNone]
      exact (join_none_right ((group?_plain a).trans hg)).symm
    · by_cases e : g = g'
      · subst e
        have hleaf := h (hg.trans hg'.symm)
        have leaf {x : Annot} (hx : x.group? = some g) : x.plain = x := plain_eq_self ((isLeaf_congr (hx.trans hg.symm)).trans hleaf)
        rw [leaf hg, leaf hg']
        rcases join_group hg hg' with e | e
        · rw [e]
          rfl
        · exact leaf e
      · rw [join_of_ne hg hg' e, join_of_ne ((group?_plain a).trans hg) ((group?_plain b).trans hg') e]
        rfl

theorem join_iter_plain (c c' : Annot) (v v' : String) : join w (iter c v).plain (iter c' v').plain =
    if v = v' then iter (join w c.plain c'.plain) v else object := join_iter ..

theorem join_method_plain (x y : String) (a b : Annot) : join w (method x a).plain (method y b).plain =
    if x = y then method x (join w a.plain b.plain) else object := join_method ..

theorem length_plains (xs : List Annot) : (plains xs).length = xs.length := by
  induction xs with
  | nil => rfl
  | cons x xs ih => exact congrArg (· + 1) ih

theorem join_tuple_plain (t t' : Nat) (c c' : Option ObjId) (xs ys : List Annot) : join w (tuple t c xs).plain (tuple t' c' ys).plain =
    if xs.length = ys.length then tuple 0 .none (joins w (plains xs) (plains ys)) else object := by
  rw [← length_plains xs, ← length_plains ys]
  exact join_tuple ..

variable {xs ys : List Annot}

theorem itemsEqual_of_plains (h : plains xs = plains ys)
    (hx : ∀ p ∈ plains xs, ∀ x y, x.plain = p → y.plain = p → w.equal x y = true) : w.itemsEqual xs ys = true := by
  induction xs generalizing ys with
  | nil =>
    cases ys with
    | nil => rfl
    | cons y ys => cases h
  | cons x xs ih =>
    cases ys with
    | nil => cases h
    | cons y ys =>
      obtain ⟨e, es⟩ := List.cons.inj h
      rw [World.itemsEqual, Bool.and_eq_true]
      exact ⟨hx x.plain (by simp [plains]) x y rfl e.symm, ih es fun p hp => hx p (by simp [plains, hp])⟩

theorem equal_self_of_leaf (hp : Fits S a) (h : a.isLeaf = true) : w.equal a a = true := by
  cases hp
  case tuple => cases h
  case iter => cases h
  case method => cases h
  case float c hc => cases c <;> simp [World.equal]
  case type c vs t hc h0 ht =>
    cases c with
    | none => simp [World.equal]
    | some d => simp [World.equal, hc d rfl d]
  all_goals simp [World.equal, World.factsEqual]

theorem equal_of_plain {p : Annot} (hp : Fits S p) (ha : a.plain = p) (hb : b.plain = p) : w.equal a b = true := by
  have leaf {p a b : Annot} (hp : Fits S p) (h : p.isLeaf = true) (ha : a.plain = p) (hb : b.plain = p) : w.equal a b = true := by
    rw [eq_of_plain_eq h ha, eq_of_plain_eq h hb]
    exact equal_self_of_leaf hp h
  induction hp generalizing a b
  case tuple xs hxs ih =>
    cases a <;> simp only [plain, reduceCtorEq, tuple.injEq] at ha
    cases b <;> simp only [plain, reduceCtorEq, tuple.injEq] at hb
    refine itemsEqual_of_plains (ha.2.2.trans hb.2.2.symm) fun p hp x y hx hy => ?_
    exact ih p (ha.2.2 ▸ hp) hx hy
  case iter v h ih =>
    cases a <;> simp only [plain, reduceCtorEq, iter.injEq] at ha
    cases b <;> simp only [plain, reduceCtorEq, iter.injEq] at hb
    simp [World.equal, ih ha.1 hb.1, ha.2, hb.2]
  case method x h ih =>
    cases a <;> simp only [plain, reduceCtorEq, method.injEq] at ha
    cases b <;> simp only [plain, reduceCtorEq, method.injEq] at hb
    simp [World.equal, ih ha.2 hb.2, ha.1, hb.1]
  all_goals exact leaf (by constructor <;> assumption) rfl ha hb

/-! ## Tags -/

mutual

/-- Tuples with one tag say the same, and all tags are in use. -/
def Tagged (τ : Nat → Annot) (n : Nat) : Annot → Prop
  | tuple t _ xs => t < n ∧ τ t = tuple 0 Option.none (plains xs) ∧ TaggedAll τ n xs
  | iter c _ => Tagged τ n c
  | method _ s => Tagged τ n s
  | _ => True

def TaggedAll (τ : Nat → Annot) (n : Nat) : List Annot → Prop
  | [] => True
  | x :: xs => Tagged τ n x ∧ TaggedAll τ n xs

end

/-- Tags that are in use keep what they stand for. -/
def Agree (n : Nat) (τ τ' : Nat → Annot) : Prop := ∀ t < n, τ' t = τ t

theorem Agree.refl (n : Nat) (τ : Nat → Annot) : Agree n τ τ := fun _ _ => rfl

theorem Agree.trans {τ τ' τ'' : Nat → Annot} (h : Agree n τ τ') (h' : Agree n' τ' τ'') (hn : n ≤ n') : Agree n τ τ'' :=
  fun t ht => (h' t (Nat.lt_of_lt_of_le ht hn)).trans (h t ht)

theorem Agree.update (n : Nat) (τ : Nat → Annot) (a : Annot) : Agree n τ (Function.update τ n a) :=
  fun _ ht => Function.update_of_ne (Nat.ne_of_lt ht) ..

mutual

theorem Tagged.mono {τ τ' : Nat → Annot} (h : Agree n τ τ') (hn : n ≤ n') : (a : Annot) → Tagged τ n a → Tagged τ' n' a
  | .tuple t _ xs, ht => ⟨Nat.lt_of_lt_of_le ht.1 hn, (h t ht.1).trans ht.2.1, .mono h hn xs ht.2.2⟩
  | .iter c _, ht => .mono h hn c ht
  | .method _ s, ht => .mono h hn s ht
  | .object, _ | .impossible, _ | .none, _ | .bool _ _, _ | .int _, _ | .float _ _, _ | .char _ _, _ | .unichar _ _, _ | .str _ _ _, _
  | .unicode _ _ _, _ | .list _, _ | .dict _, _ | .inst _ _ _, _ | .pbc _ _, _ | .builtin _, _ | .type _ _ _, _ | .weakref _, _ => trivial

theorem TaggedAll.mono {τ τ' : Nat → Annot} (h : Agree n τ τ') (hn : n ≤ n') : (xs : List Annot) → TaggedAll τ n xs → TaggedAll τ' n' xs
  | [], _ => trivial
  | x :: xs, ht => ⟨.mono h hn x ht.1, .mono h hn xs ht.2⟩

end

theorem tagged_of_leaf {n : Nat} (h : a.isLeaf = true) : Tagged τ n a := by
  cases a <;> trivial

/-! ## One union -/

theorem of_newTuple (h : newTuple xs k w = .ok r w') : ∃ c, r = tuple w.nextTag c xs ∧ w.nextTag < w'.nextTag := by
  obtain ⟨t, w₁, h₁, h⟩ := of_bind_ok h
  cases h₁
  split at h
  · obtain ⟨cs, w₂, h₂, h⟩ := of_bind_ok h
    obtain ⟨o, w₃, h₃, h⟩ := of_bind_ok h
    cases h
    have l₂ := (Keeps.mapM fun a _ => .constOf a).later h₂
    have l₃ := (Keeps.addObject _).later h₃
    exact ⟨_, rfl, Nat.lt_of_lt_of_le (Nat.lt_succ_self _) (l₂.trans l₃).nextTag⟩
  · cases h
    exact ⟨_, rfl, Nat.lt_succ_self _⟩

theorem plain_eq_of_tag {n t : Nat} {c c' : Option ObjId}
    (h : Tagged τ n (tuple t c xs)) (h' : Tagged τ n (tuple t c' ys)) : (tuple t c xs).plain = (tuple t c' ys).plain :=
  h.2.1.symm.trans h'.2.1

theorem newPbc_eq {ds : List DescId} (m : Bool) (h : ∀ d ∈ ds, S.world.IsPlainDesc d) (hw : S.world.Later w) (k : Knot) :
    newPbc ds m k w = .ok (pbc (sortDescs ds) m) w := by
  unfold newPbc
  have hmem (d : DescId) (hd : d ∈ sortDescs ds) : S.world.IsPlainDesc d := h d (mem_sortDescs.1 hd)
  generalize sortDescs ds = es at hmem
  rcases es with - | ⟨d, - | ⟨d', rest⟩⟩
  · rfl
  · rfl
  · obtain ⟨x, hx, hne⟩ := hmem d mem_cons_self
    refine (bind_of_ok (m := get) rfl).trans ?_
    rw [hw.desc hx]
    cases x
    case method x => exact absurd rfl (hne x)
    all_goals rfl

theorem simpleUnion?_congr (h : w'.classDefs = w.classDefs) (a b : Annot) : simpleUnion? w' a b = simpleUnion? w a b := by
  unfold simpleUnion?
  simp only [World.commonBase?_congr h]

/-- What a union that succeeds gives: the join, in which tuples with one tag still say the same. -/
structure Gives (S : Scope) (τ : Nat → Annot) (w w' : World) (a b r : Annot) : Prop where
  plain : r.plain = join S.world a.plain b.plain
  tagged : ∃ τ', Agree w.nextTag τ τ' ∧ Tagged τ' w'.nextTag r

theorem Gives.of_tagged (hp : r.plain = join S.world a.plain b.plain) (hw : w.Later w') (ht : Tagged τ w.nextTag r) : Gives S τ w w' a b r :=
  ⟨hp, τ, .refl _ _, ht.mono (.refl _ _) hw.nextTag⟩

/-- The specification of a union. -/
def UnionSpec (S : Scope) (u : Annot → Annot → Ana Annot) : Prop :=
  ∀ a b τ k w r w', S.world.Later w → Fits S a.plain → Fits S b.plain → Tagged τ w.nextTag a → Tagged τ w.nextTag b →
    u a b k w = .ok r w' → Gives S τ w w' a b r

theorem mapM_union {u : Annot → Annot → Ana Annot} (hu : UnionSpec S u) (hk : ∀ a b, Keeps (u a b)) {xs ys rs : List Annot} (hw : S.world.Later w)
    (hx : ∀ x ∈ plains xs, Fits S x) (hy : ∀ y ∈ plains ys, Fits S y) (tx : TaggedAll τ w.nextTag xs) (ty : TaggedAll τ w.nextTag ys)
    (hl : xs.length = ys.length) (h : ((xs.zip ys).mapM fun (x, y) => u x y) k w = .ok rs w') : plains rs = joins S.world (plains xs) (plains ys) ∧
    ∃ τ', Agree w.nextTag τ τ' ∧ TaggedAll τ' w'.nextTag rs := by
  induction xs generalizing ys rs τ w with
  | nil =>
    cases h
    exact ⟨rfl, τ, .refl _ _, trivial⟩
  | cons x xs ih =>
    cases ys with
    | nil => cases hl
    | cons y ys =>
      rw [zip_cons_cons, mapM_cons] at h
      obtain ⟨r, w₁, h₁, h⟩ := of_bind_ok h
      obtain ⟨rs', w₂, h₂, h⟩ := of_bind_ok h
      cases h
      obtain ⟨hp, τ₁, hτ₁, ht₁⟩ := hu x y τ k w r w₁ hw (hx _ (by simp [plains])) (hy _ (by simp [plains])) tx.1 ty.1 h₁
      have l₁ : w.Later w₁ := (hk x y).later h₁
      have l₂ : w₁.Later w' := (Keeps.mapM fun p _ => hk p.1 p.2).later h₂
      obtain ⟨hps, τ₂, hτ₂, ht₂⟩ := ih (hw.trans l₁) (fun z hz => hx z (by simp [plains, hz]))
        (fun z hz => hy z (by simp [plains, hz])) (tx.2.mono hτ₁ l₁.nextTag) (ty.2.mono hτ₁ l₁.nextTag) (Nat.succ.inj hl) h₂
      refine ⟨?_, τ₂, hτ₁.trans hτ₂ l₁.nextTag, ht₁.mono hτ₂ l₂.nextTag, ht₂⟩
      simp only [plains, joins, hp, hps]

theorem fits_of_tuple {t : Nat} {c : Option ObjId} (h : Fits S (tuple t c xs).plain) : ∀ x ∈ plains xs, Fits S x := by
  rw [plain] at h
  cases h
  assumption

theorem fits_of_iter {c : Annot} {v : String} (h : Fits S (iter c v).plain) : Fits S c.plain := by
  rw [plain] at h
  cases h
  assumption

theorem fits_of_method {x : String} {s : Annot} (h : Fits S (method x s).plain) : Fits S s.plain := by
  rw [plain] at h
  cases h
  assumption

/-- **A union that succeeds gives the join.** -/
theorem unionAux_spec (fuel : Nat) (effects : Bool) : UnionSpec S (unionAux fuel effects) := by
  induction fuel generalizing effects with
  | zero =>
    intro a b τ k w r w' hw fa fb ta tb h
    cases h
  | succ n ih =>
    intro a b τ k w r w' hw fa fb ta tb h
    have later : w.Later w' := (Keeps.unionAux (n + 1) effects a b).later h
    unfold unionAux at h
    split at h
    · cases h
      exact .of_tagged rfl later tb
    · cases h
      exact .of_tagged (join_impossible_right _).symm later ta
    · rename_i c fs c' gs
      cases fa
      cases fb
      cases h
      exact ⟨rfl, τ, .refl _ _, trivial⟩
    · rename_i t o xs t' o' ys
      split at h
      · rename_i e
        cases h
        obtain rfl : t = t' := by simpa using e
        refine .of_tagged ?_ later ta
        rw [← plain_eq_of_tag ta tb, join_self fa]
      · split at h
        · rename_i e
          cases h
          refine .of_tagged ?_ later trivial
          rw [join_tuple_plain, if_neg e]
          rfl
        · rename_i e
          have e : xs.length = ys.length := by simpa using e
          obtain ⟨rs, w₁, h₁, h₂⟩ := of_bind_ok h
          obtain ⟨hp, τ₁, hτ₁, ht₁⟩ := mapM_union (ih effects) (Keeps.unionAux n effects) hw (fits_of_tuple fa) (fits_of_tuple fb) ta.2.2 tb.2.2 e h₁
          have l₁ : w.Later w₁ := (Keeps.mapM fun p _ => .unionAux n effects p.1 p.2).later h₁
          obtain ⟨o, rfl, hlt⟩ := of_newTuple h₂
          -- the next tag is free, so it may stand for the new tuple
          have hτ₂ := Agree.update w₁.nextTag τ₁ (tuple 0 .none (plains rs))
          refine ⟨?_, _, hτ₁.trans hτ₂ l₁.nextTag, hlt, Function.update_self .., ht₁.mono hτ₂ (Nat.le_of_lt hlt)⟩
          rw [join_tuple_plain, if_pos e, ← hp]
          rfl
    · rename_i d e
      obtain ⟨w₀, w₁, h₀, h⟩ := of_bind_ok h
      cases h₀
      split at h
      · cases h
        exact .of_tagged rfl later trivial
      · split at h
        · cases h
        · obtain ⟨-, w₁, -, h⟩ := of_bind_ok h
          cases h
          exact .of_tagged rfl later trivial
    · rename_i d e
      obtain ⟨w₀, w₁, h₀, h⟩ := of_bind_ok h
      cases h₀
      split at h
      · cases h
        exact .of_tagged rfl later trivial
      · split at h
        · cases h
        · obtain ⟨-, w₁, -, h⟩ := of_bind_ok h
          cases h
          exact .of_tagged rfl later trivial
    · rename_i ds m es m'
      have hd : ∀ d ∈ ds ++ es, S.world.IsPlainDesc d := by
        cases fa
        cases fb
        rename_i h₁ _ h₂
        exact fun d hd => (mem_append.1 hd).elim (h₁ d) (h₂ d)
      rw [newPbc_eq (m || m') hd hw] at h
      cases h
      exact .of_tagged rfl later trivial
    · rename_i c v c' v'
      split at h
      · rename_i e
        cases h
        refine .of_tagged ?_ later trivial
        rw [join_iter_plain, if_neg e]
        rfl
      · rename_i e
        obtain ⟨r', w₁, h₁, h⟩ := of_bind_ok h
        cases h
        obtain ⟨hp, τ₁, hτ₁, ht₁⟩ := ih effects c c' τ k w r' w' hw (fits_of_iter fa) (fits_of_iter fb) ta tb h₁
        refine ⟨?_, τ₁, hτ₁, ht₁⟩
        rw [join_iter_plain, if_pos (by simpa using e), ← hp]
        rfl
    · rename_i x s y s'
      split at h
      · rename_i e
        cases h
        refine .of_tagged ?_ later trivial
        rw [join_method_plain, if_neg e]
        rfl
      · rename_i e
        obtain ⟨r', w₁, h₁, h⟩ := of_bind_ok h
        cases h
        obtain ⟨hp, τ₁, hτ₁, ht₁⟩ := ih effects s s' τ k w r' w' hw (fits_of_method fa) (fits_of_method fb) ta tb h₁
        refine ⟨?_, τ₁, hτ₁, ht₁⟩
        rw [join_method_plain, if_pos (by simpa using e), ← hp]
        rfl
    · rename_i ha hb hbool htuple hlist hdict hpbc hiter hmethod
      cases h
      have hleaf : a.group? = b.group? → a.isLeaf = true := by
        intro e
        cases a
        case tuple =>
          cases b <;> cases e
          exact (htuple _ _ _ _ _ _ rfl rfl).elim
        case iter =>
          cases b <;> cases e
          exact (hiter _ _ _ _ rfl rfl).elim
        case method =>
          cases b <;> cases e
          exact (hmethod _ _ _ _ rfl rfl).elim
        all_goals rfl
      rw [simpleUnion?_congr hw.classDefs, ← join.eq_10 S.world a b ha hb hbool htuple hlist hdict hpbc hiter hmethod]
      exact .of_tagged (plain_join hleaf) later (tagged_of_leaf (isLeaf_join ha hb hleaf))

/-! ## Several unions -/

/-- An annotation of a state that fits in.  Its tuples may be constants, and have the tags of any other tuples that say the same. -/
structure Known (S : Scope) (τ : Nat → Annot) (w : World) (a : Annot) : Prop where
  fits : Fits S a.plain
  tagged : Tagged τ w.nextTag a

theorem Known.later {τ τ' : Nat → Annot} (h : Known S τ w a) (hτ : Agree w.nextTag τ τ') (hw : w.Later w') : Known S τ' w' a :=
  ⟨h.fits, h.tagged.mono hτ hw.nextTag⟩

theorem union_step (hw : S.world.Later w) (ha : Known S τ w a) (hb : Known S τ w b) (h : union a b k w = .ok r w') :
    w.Later w' ∧ r.plain = join S.world a.plain b.plain ∧ ∃ τ', Agree w.nextTag τ τ' ∧ Known S τ' w' r := by
  obtain ⟨hp, τ', hτ, ht⟩ := unionAux_spec World.annotDepth true a b τ k w r w' hw ha.fits hb.fits ha.tagged hb.tagged h
  refine ⟨(Keeps.union a b).later h, hp, τ', hτ, ?_, ht⟩
  rw [hp]
  exact ha.fits.join hb.fits

section

variable {z r : Annot} (hw : S.world.Later w) (hz : Known S τ w z) (has : ∀ a ∈ as, Known S τ w a) (h : as.foldlM union z k w = .ok r w')
include hw hz has h

/-- A run of unions joins what its annotations say, and gives an annotation that fits in as well. -/
theorem known_run : w.Later w' ∧ r.plain = (as.map plain).foldl (join S.world) z.plain ∧ ∃ τ', Agree w.nextTag τ τ' ∧ Known S τ' w' r := by
  induction as generalizing z w τ with
  | nil =>
    cases h
    exact ⟨.refl _, rfl, τ, .refl _ _, hz⟩
  | cons a as ih =>
    rw [foldlM_cons] at h
    obtain ⟨y, w₁, h₁, h⟩ := of_bind_ok h
    obtain ⟨l₁, hp, τ₁, hτ₁, hy⟩ := union_step hw hz (has a (by simp)) h₁
    obtain ⟨l₂, hr, τ₂, hτ₂, known⟩ := ih (hw.trans l₁) hy (fun b hb => (has b (by simp [hb])).later hτ₁ l₁) h
    rw [hp] at hr
    exact ⟨l₁.trans l₂, hr, τ₂, hτ₁.trans hτ₂ l₁.nextTag, known⟩

theorem union_run : r.plain = (as.map plain).foldl (join S.world) z.plain := (known_run hw hz has h).2.1

end

theorem Fits.foldl_join {z : Annot} (hz : Fits S z) (has : ∀ a ∈ as, Fits S a) : Fits S (as.foldl (.join S.world) z) := by
  induction as generalizing z with
  | nil => exact hz
  | cons a as ih => exact ih (hz.join (has a (by simp))) fun b hb => has b (by simp [hb])

theorem foldl_join_perm (hS : ¬ S.containers) {as bs : List Annot} (h : as.Perm bs) {z : Annot} (hz : Fits S z)
    (has : ∀ a ∈ as, Fits S a) : as.foldl (join S.world) z = bs.foldl (join S.world) z := by
  induction h generalizing z with
  | nil => rfl
  | cons a _ ih => exact ih (hz.join (has a (by simp))) fun b hb => has b (by simp [hb])
  | swap a b as =>
    have ha := has a (by simp)
    have hb := has b (by simp)
    simp only [foldl_cons, join_assoc hz ha hb, join_assoc hz hb ha, join_comm hS ha hb]
  | trans h₁ _ ih₁ ih₂ => rw [ih₁ hz has, ih₂ hz fun a ha => has a (h₁.mem_iff.2 ha)]

/-! ### Sets of methods -/

variable {ds es rs : List DescId} {b b' : Bool} {xs : List (List DescId × Bool)}

theorem union_methods (ho : w.Ordered) (hz : rs = ds ∧ w.MethodsIndexed ∧ AllMethods w ds ∨ Simplified w ds rs) (hes : AllMethods w es)
    (h : union (pbc rs b) (pbc es b') k w = .ok r w') : w.Names w' ∧ ∃ ts, r = pbc ts (b || b') ∧ Simplified w' (ds ++ es) ts := by
  change newPbc (rs ++ es) (b || b') k w = _ at h
  obtain ⟨ts, w₁, h₁, n, hs⟩ : ∃ ts w₁, newPbc (rs ++ es) (b || b') k w = .ok (pbc ts (b || b')) w₁ ∧ w.Names w₁ ∧ Simplified w₁ (ds ++ es) ts := by
    rcases hz with ⟨rfl, hw, hds⟩ | hs
    · exact newPbc_simplified hw (hds.append hes) (b || b') k
    · exact hs.append ho hes (b || b') k
  cases h₁.symm.trans h
  exact ⟨n, ts, rfl, hs⟩

theorem union_methods_run (ho : w.Ordered) (hz : rs = ds ∧ w.MethodsIndexed ∧ AllMethods w ds ∨ Simplified w ds rs)
    (hw : w.MethodsIndexed) (has : ∀ x ∈ xs, AllMethods w x.1) (h : (xs.map fun x => pbc x.1 x.2).foldlM union (pbc rs b) k w = .ok r w') :
    w.Names w' ∧ ∃ ts, r = pbc ts (b || xs.any Prod.snd) ∧ (xs = [] ∧ ts = rs ∨ xs ≠ [] ∧ Simplified w' (ds ++ xs.flatMap Prod.fst) ts) := by
  induction xs generalizing rs ds b w with
  | nil =>
    cases h
    exact ⟨.refl _, rs, by simp, .inl ⟨rfl, rfl⟩⟩
  | cons x xs ih =>
    rw [map_cons, foldlM_cons] at h
    obtain ⟨y, w₁, h₁, h⟩ := of_bind_ok h
    obtain ⟨n₁, ts₁, rfl, hs₁⟩ := union_methods ho hz (has x mem_cons_self) h₁
    have has₁ (x' : List DescId × Bool) (hx : x' ∈ xs) : AllMethods w₁ x'.1 := (has x' (mem_cons_of_mem x hx)).later hw n₁
    obtain ⟨n, ts, hr, last⟩ := ih (ho.congr n₁.classDefs) (.inr hs₁) hs₁.indexed has₁ h
    refine ⟨n₁.trans n, ts, by rw [hr, any_cons, Bool.or_assoc], .inr ⟨cons_ne_nil x xs, ?_⟩⟩
    rw [flatMap_cons, ← append_assoc]
    rcases last with ⟨rfl, rfl⟩ | ⟨-, last⟩
    · simpa using hs₁.names n
    · exact last

theorem unionOf_methods (ho : w.Ordered) (hw : w.MethodsIndexed) (has : ∀ x ∈ xs, AllMethods w x.1)
    (h : unionOf (xs.map fun x => pbc x.1 x.2) k w = .ok r w') :
    w.Names w' ∧ (xs.length ≤ 1 ∧ r = (xs.map fun x => pbc x.1 x.2).headD impossible ∨
      1 < xs.length ∧ ∃ ts, r = pbc ts (xs.any Prod.snd) ∧ Simplified w' (xs.flatMap Prod.fst) ts) := by
  cases xs with
  | nil =>
    cases h
    exact ⟨.refl _, .inl ⟨Nat.zero_le _, rfl⟩⟩
  | cons x xs =>
    -- the first set is joined with the impossible and stays as it is
    obtain ⟨n, ts, hr, last⟩ := union_methods_run ho (.inl ⟨rfl, hw, has x mem_cons_self⟩) hw (fun x' hx => has x' (mem_cons_of_mem x hx)) h
    refine ⟨n, ?_⟩
    rcases last with ⟨rfl, rfl⟩ | ⟨hne, last⟩
    · exact .inl ⟨Nat.le_refl _, by simpa using hr⟩
    · exact .inr ⟨Nat.succ_lt_succ (length_pos_of_ne_nil hne), ts, hr, last⟩

theorem equal_of_simplified {ts ts' : List DescId} {v v' : World} (n : w.Names v') (h : Simplified w ds ts) (h' : Simplified v' es ts')
    (same : ∀ d, d ∈ es ↔ d ∈ ds) (hb : b = b') : v.equal (pbc ts b) (pbc ts' b') = true := by
  rw [(h.names n).unique (h'.congr fun d => (same d).symm), hb]
  simp [World.equal]

section

variable {v w₁ w₂ v₁ v₂ v' : World} {ab bc l : Annot} (u : World)

theorem union_grouped {b c : Annot} (hv : S.world.Later v) (ha : Known S τ S.world a) (hb : Known S τ S.world b) (hc : Known S τ S.world c)
    (h₁ : union a b k S.world = .ok ab w₁) (h₂ : union ab c k w₁ = .ok l w₂) (h₃ : union b c k v = .ok bc v₁)
    (h₄ : union a bc k v₁ = .ok r v₂) : u.equal l r = true := by
  obtain ⟨l₁, p₁, τ₁, t₁, k₁⟩ := union_step (.refl _) ha hb h₁
  obtain ⟨l₂, p₂, -⟩ := union_step l₁ k₁ (hc.later t₁ l₁) h₂
  obtain ⟨l₃, p₃, τ₃, t₃, k₃⟩ := union_step hv (hb.later (.refl _ _) hv) (hc.later (.refl _ _) hv) h₃
  obtain ⟨l₄, p₄, -⟩ := union_step (hv.trans l₃) ((ha.later (.refl _ _) hv).later t₃ l₃) k₃ h₄
  refine equal_of_plain ((ha.fits.join hb.fits).join hc.fits) ?_ ?_
  · rw [p₂, p₁]
  · rw [p₄, p₃, join_assoc ha.fits hb.fits hc.fits]

theorem unionOf_perm {bs : List Annot} (hv : S.world.Later v) (hS : ¬ S.containers) (has : ∀ a ∈ as, Known S τ S.world a) (hp : as.Perm bs)
    (h₁ : unionOf as k S.world = .ok l w') (h₂ : unionOf bs k v = .ok r v') : u.equal l r = true := by
  have bot {w : World} : Known S τ w impossible := ⟨.impossible, trivial⟩
  have fits : ∀ p ∈ as.map plain, Fits S p := by
    intro p hp
    obtain ⟨a, ha, rfl⟩ := mem_map.1 hp
    exact (has a ha).fits
  have hl := union_run (.refl _) bot has h₁
  have hr := union_run hv bot (fun b hb => (has b (hp.mem_iff.2 hb)).later (.refl _ _) hv) h₂
  refine equal_of_plain (Fits.foldl_join .impossible fits) hl ?_
  rw [hr]
  exact (foldl_join_perm hS (hp.map plain) .impossible fits).symm

theorem union_methods_grouped {fs : List DescId} {m₁ m₂ m₃ : Bool} (ho : w.Ordered) (hw : w.MethodsIndexed) (hds : AllMethods w ds)
    (hes : AllMethods w es) (hfs : AllMethods w fs) (h₁ : union (pbc ds m₁) (pbc es m₂) k w = .ok ab w₁)
    (h₂ : union ab (pbc fs m₃) k w₁ = .ok l w₂) (n : w₂.Names v) (h₃ : union (pbc es m₂) (pbc fs m₃) k v = .ok bc v₁)
    (h₄ : union (pbc ds m₁) bc k v₁ = .ok r v₂) : u.equal l r = true := by
  obtain ⟨n₁, ts₁, rfl, s₁⟩ := union_methods ho (.inl ⟨rfl, hw, hds⟩) hes h₁
  obtain ⟨n₂, ts₂, rfl, s₂⟩ := union_methods (ho.congr n₁.classDefs) (.inr s₁) (hfs.later hw n₁) h₂
  have before := (n₁.trans n₂).trans n
  have ho' := ho.congr before.classDefs
  obtain ⟨n₃, ts₃, rfl, s₃⟩ := union_methods ho' (.inl ⟨rfl, before.indexed hw, hes.later hw before⟩) (hfs.later hw before) h₃
  have swap : union (pbc ds m₁) (pbc ts₃ (m₂ || m₃)) k v₁ = union (pbc ts₃ (m₂ || m₃)) (pbc ds m₁) k v₁ := by
    change newPbc (ds ++ ts₃) (m₁ || (m₂ || m₃)) k v₁ = newPbc (ts₃ ++ ds) (m₂ || m₃ || m₁) k v₁
    have same : sortDescs (ds ++ ts₃) = sortDescs (ts₃ ++ ds) := sortDescs_congr fun d => by simp [or_comm]
    rw [newPbc, newPbc, same, Bool.or_comm m₁]
  rw [swap] at h₄
  obtain ⟨n₄, ts₄, rfl, s₄⟩ := union_methods (ho'.congr n₃.classDefs) (.inr s₃) (hds.later hw (before.trans n₃)) h₄
  refine equal_of_simplified ((n.trans n₃).trans n₄) s₂ s₄ (fun d => ?_) ?_
  · simp only [mem_append]
    rw [or_comm, or_assoc]
  · rw [Bool.or_comm (m₂ || m₃), Bool.or_assoc]

theorem unionOf_methods_perm {ys : List (List DescId × Bool)} (ho : w.Ordered) (hw : w.MethodsIndexed) (has : ∀ x ∈ xs, AllMethods w x.1)
    (hp : xs.Perm ys) (h₁ : unionOf (xs.map fun x => pbc x.1 x.2) k w = .ok l w') (n : w'.Names v)
    (h₂ : unionOf (ys.map fun x => pbc x.1 x.2) k v = .ok r v') : u.equal l r = true := by
  obtain ⟨n₁, hl⟩ := unionOf_methods ho hw has h₁
  have before := n₁.trans n
  have hbs (y : List DescId × Bool) (hy : y ∈ ys) : AllMethods v y.1 := (has y (hp.mem_iff.2 hy)).later hw before
  obtain ⟨n₂, hr⟩ := unionOf_methods (ho.congr before.classDefs) (before.indexed hw) hbs h₂
  rcases hl with ⟨hlen, rfl⟩ | ⟨hlen, ts, rfl, s⟩
  · obtain rfl : xs = ys := by
      match xs, hlen with
      | [], _ => exact hp.nil_eq
      | [x], _ => exact hp.singleton_eq
    rcases hr with ⟨-, rfl⟩ | ⟨hlen', -⟩
    · match xs with
      | [] => rfl
      | x :: _ => simp [World.equal]
    · omega
  · rcases hr with ⟨hlen', -⟩ | ⟨-, ts', rfl, s'⟩
    · have := hp.length_eq
      omega
    · exact equal_of_simplified (n.trans n₂) s s' (fun d => (hp.flatMap_right _).symm.mem_iff) hp.any_eq

end

/-- **Unions do not depend on how they are grouped, nor on the order of annotations.**  The two sides may be
computed one after the other, with other steps in between, and are equal in every state.  Annotations fit
together when they mix no characters with nothing, and none is of a method; the order may only be changed
where there are no lists and dictionaries, whose merging changes what the state has for them.  Sets of methods
may be grouped and ordered in any way, too, if the second side is computed in a state after the first one, which
describes the methods that are made. -/
theorem union_order (S : Scope) (τ : Nat → Annot) (k : Knot) {v : World} (hv : S.world.Later v) :
    (∀ a b c ab bc l r w₁ w₂ v₁ v₂, Known S τ S.world a → Known S τ S.world b → Known S τ S.world c →
      union a b k S.world = .ok ab w₁ → union ab c k w₁ = .ok l w₂ →
      union b c k v = .ok bc v₁ → union a bc k v₁ = .ok r v₂ → ∀ u : World, u.equal l r = true) ∧
    (¬ S.containers → ∀ as bs l r w' v', (∀ a ∈ as, Known S τ S.world a) → as.Perm bs →
      unionOf as k S.world = .ok l w' → unionOf bs k v = .ok r v' → ∀ u : World, u.equal l r = true) ∧
    (S.world.MethodsIndexed → ∀ ds es fs m₁ m₂ m₃ ab bc l r w₁ w₂ v v₁ v₂, AllMethods S.world ds → AllMethods S.world es → AllMethods S.world fs →
      union (pbc ds m₁) (pbc es m₂) k S.world = .ok ab w₁ → union ab (pbc fs m₃) k w₁ = .ok l w₂ → w₂.Names v →
      union (pbc es m₂) (pbc fs m₃) k v = .ok bc v₁ → union (pbc ds m₁) bc k v₁ = .ok r v₂ → ∀ u : World, u.equal l r = true) ∧
    (S.world.MethodsIndexed → ∀ (xs ys : List (List DescId × Bool)) l r w' v v', (∀ x ∈ xs, AllMethods S.world x.1) → xs.Perm ys →
      unionOf (xs.map fun x => pbc x.1 x.2) k S.world = .ok l w' → w'.Names v →
      unionOf (ys.map fun x => pbc x.1 x.2) k v = .ok r v' → ∀ u : World, u.equal l r = true) := by
  refine ⟨?_, ?_, ?_, ?_⟩
  · intro a b c ab bc l r w₁ w₂ v₁ v₂ ha hb hc h₁ h₂ h₃ h₄ u
    exact union_grouped u hv ha hb hc h₁ h₂ h₃ h₄
  · intro hS as bs l r w' v' has hp h₁ h₂ u
    exact unionOf_perm u hv hS has hp h₁ h₂
  · intro hw ds es fs m₁ m₂ m₃ ab bc l r w₁ w₂ v v₁ v₂ hds hes hfs h₁ h₂ n h₃ h₄ u
    exact union_methods_grouped u S.ordered hw hds hes hfs h₁ h₂ n h₃ h₄
  · intro hw xs ys l r w' v v' has hp h₁ n h₂ u
    exact unionOf_methods_perm u S.ordered hw has hp h₁ n h₂

/-- Steps that unions do not come back to. -/
def idle : Knot where
  immutable _ := throw sideEffects
  descOf _ := throw sideEffects
  classDefOf _ _ := throw sideEffects
  pbcCall _ _ _ := throw sideEffects

/-- A class with two subclasses. -/
def siblings : World where
  classDefs := #[{ name := "A", key := "", desc := 1, base := Option.none }, { name := "B", key := "", desc := 2, base := some 1 },
    { name := "C", key := "", desc := 3, base := some 1 }]

def siblingScope : Scope where
  world := siblings
  types _ := (Option.none, [])
  doubles _ := False
  containers := False
  characters := False
  nothing := True
  ordered := by
    intro c b h
    match c with
    | 0 | 1 => cases h
    | 2 | 3 =>
      cases h
      decide
    | c + 4 => cases h
  numEq := numEq_of_false
  apart h := h.1

/-- A method of the first class that is bound to an instance of a class. -/
def boundTo (c : ClassDefId) : MethodDesc := { func := 2, origin := 1, self := some c, name := "m" }

/-- A function among methods, of which that of the first subclass comes first. -/
def amongMethods : World :=
  { siblings with
    descs := #[.method (boundTo 2), .function { func := 0, name := "f" }, .method (boundTo 3), .method (boundTo 1)]
    methodIndex := ((({} : Std.HashMap MethodDesc DescId).insert (boundTo 2) 1).insert (boundTo 3) 3).insert (boundTo 1) 4 }

theorem index_amongMethods : amongMethods.methodIndex[boundTo 2]? = some 1 ∧ amongMethods.methodIndex[boundTo 3]? = some 3 ∧
    amongMethods.methodIndex[boundTo 1]? = some 4 := by
  have h₁₂ : (boundTo 1 == boundTo 2) = false := by decide
  have h₁₃ : (boundTo 1 == boundTo 3) = false := by decide
  have h₃₂ : (boundTo 3 == boundTo 2) = false := by decide
  simp [amongMethods, Std.HashMap.getElem_insert, h₁₂, h₁₃, h₃₂]

theorem methodsIndexed_amongMethods : amongMethods.MethodsIndexed := by
  obtain ⟨h₂, h₃, h₁⟩ := index_amongMethods
  constructor
  · intro m d h
    simp only [amongMethods, Std.HashMap.getElem?_insert, Std.HashMap.getElem?_empty] at h
    split at h
    · rename_i e
      cases h
      rw [← eq_of_beq e]
      exact ⟨by decide, rfl⟩
    · split at h
      · rename_i e
        cases h
        rw [← eq_of_beq e]
        exact ⟨by decide, rfl⟩
      · split at h
        · rename_i e
          cases h
          rw [← eq_of_beq e]
          exact ⟨by decide, rfl⟩
        · cases h
  · intro m d hd h
    match d with
    | 1 =>
      cases h
      exact h₂
    | 2 => cases h
    | 3 =>
      cases h
      exact h₃
    | 4 =>
      cases h
      exact h₁
    | d + 5 => cases h

def methodScope : Scope := { siblingScope with world := amongMethods, ordered := siblingScope.ordered }

/-- Instances of two subclasses and nothing: an instance of their base that may be missing, in any order.  The
methods of a class and of its subclass are joined in any order, too. -/
theorem union_order_siblings : unionOf [instOf 2, instOf 3, none] idle siblings = .ok (inst (some 1) true []) siblings ∧
    (∀ u : World, u.equal (inst (some 1) true []) (inst (some 1) true []) = true) ∧
    unionOf [none, instOf 2, instOf 3] idle siblings = .ok (inst (some 1) true []) siblings ∧
    (∀ u : World, u.equal (inst (some 1) true []) (inst (some 1) true []) = true) ∧
    ∃ l r w v, unionOf [pbc [1] false, pbc [4] false] idle amongMethods = .ok l w ∧ unionOf [pbc [4] false, pbc [1] false] idle w = .ok r v ∧
      ∀ u : World, u.equal l r = true := by
  have known (c : ClassDefId) : Known siblingScope (fun _ => object) siblings (instOf c) := ⟨.inst (some c) false .nil, trivial⟩
  have nothing : Known siblingScope (fun _ => object) siblings none := ⟨.none trivial, trivial⟩
  obtain ⟨grouped, ordered, -⟩ := union_order siblingScope (fun _ => object) idle (.refl siblings)
  obtain ⟨-, -, -, ordered'⟩ := union_order methodScope (fun _ => object) idle (.refl amongMethods)
  refine ⟨rfl, ?_, rfl, ?_, ?_⟩
  · exact grouped (instOf 2) (instOf 3) none (instOf 1) (inst (some 3) true []) _ _ siblings siblings siblings siblings
      (known 2) (known 3) nothing rfl rfl rfl rfl
  · refine ordered id [instOf 2, instOf 3, none] [none, instOf 2, instOf 3] _ _ siblings siblings ?_
      (perm_append_singleton none [instOf 2, instOf 3]) rfl rfl
    simpa using ⟨known 2, known 3, nothing⟩
  · have one : AllMethods amongMethods [1] := by
      intro d hd
      cases mem_singleton.1 hd
      exact ⟨by decide, boundTo 2, rfl, .nil⟩
    have four : AllMethods amongMethods [4] := by
      intro d hd
      cases mem_singleton.1 hd
      exact ⟨by decide, boundTo 1, rfl, .nil⟩
    have pair {a b r : Annot} {w w' : World} (h : union a b idle w = .ok r w') : unionOf [a, b] idle w = .ok r w' := by
      refine (bind_of_ok (f := fun x => [b].foldlM union x) (rfl : union impossible a idle w = .ok a w)).trans ?_
      rw [foldlM_cons, bind_of_ok h]
      rfl
    have hw := methodsIndexed_amongMethods
    obtain ⟨ts, w, h, n, -⟩ := newPbc_simplified hw (one.append four) false idle
    obtain ⟨ts', v, h', -⟩ := newPbc_simplified (n.indexed hw) ((four.append one).later hw n) false idle
    refine ⟨_, _, w, v, pair h, pair h', ?_⟩
    exact ordered' hw [([1], false), ([4], false)] [([4], false), ([1], false)] _ _ w w v (by simpa using ⟨one, four⟩) (.swap _ _ _)
      (pair h) (.refl w) (pair h')

/-- Nothing joined with a character is the top, although nothing joined with a text is a text. -/
theorem union_none_char : (do
      let l ← union (← union none (someChar false)) (someStr false false)
      let r ← union none (← union (someChar false) (someStr false false))
      return (l, r, (← get).equal l r) : Ana (Annot × Annot × Bool)) idle {} =
    .ok (object, someStr true false, false) {} := rfl

end FlowCompiler.Annot
