import Mathlib.Data.List.Sort
import Mathlib.Data.String.Basic
import FlowCompiler.Proofs.Hierarchy
import FlowCompiler.Proofs.Union.Ranges

/-!
# Joins of annotations

The union as a function of what annotations say.  Tuples are taken without what tells them apart, and lists
and dictionaries by the first of two that become one.

Annotations fall into groups: numbers, texts, instances and so on.  Different groups have only the top in
common, and the annotation of nothing adds itself to what can hold it.  So the laws of joins are shown group
by group, and once and for all for annotations of different groups.
-/

namespace FlowCompiler.Annot

open Ana

mutual

/-- An annotation without what tells tuples apart. -/
def plain : Annot → Annot
  | tuple _ _ xs => tuple 0 Option.none (plains xs)
  | iter c v => iter c.plain v
  | method x s => method x s.plain
  | a => a

def plains : List Annot → List Annot
  | [] => []
  | a :: r => a.plain :: plains r

end

mutual

/-- The least annotation above two others. -/
def join (w : World) : Annot → Annot → Annot
  | impossible, b => b
  | a, impossible => a
  | bool c _, bool c' _ => bool (sameOr c c') []
  | tuple _ _ xs, tuple _ _ ys => if xs.length ≠ ys.length then object else tuple 0 Option.none (joins w xs ys)
  | list d, list _ => list d
  | dict d, dict _ => dict d
  | pbc ds m, pbc es m' => pbc (sortDescs (ds ++ es)) (m || m')
  | iter c v, iter c' v' => if v ≠ v' then object else iter (join w c c') v
  | method x s, method y s' => if x ≠ y then object else method x (join w s s')
  | a, b => (simpleUnion? w a b).getD object

def joins (w : World) : List Annot → List Annot → List Annot
  | x :: xs, y :: ys => join w x y :: joins w xs ys
  | _, _ => []

end

variable {w : World}

@[simp] theorem join_impossible_left (b : Annot) : join w impossible b = b := rfl

@[simp] theorem join_impossible_right (a : Annot) : join w a impossible = a := by cases a <;> rfl

@[simp] theorem join_object_left (b : Annot) : join w object b = object := by cases b <;> rfl

@[simp] theorem join_object_right (a : Annot) : join w a object = object := by cases a <;> rfl

/-! ## Groups -/

/-- Kinds of annotations that have more in common than the top. -/
inductive Group where
  | number
  | text
  | wide
  | tuple
  | list
  | dict
  | inst
  | pbc
  | iter
  | builtin
  | method
  | type
  | weakref
deriving DecidableEq

/-- The group of an annotation; the bottom, the top and nothing are in none. -/
def group? : Annot → Option Group
  | object | impossible | none => Option.none
  | bool _ _ | int _ | float _ _ => some .number
  | char _ _ | str _ _ _ => some .text
  | unichar _ _ | unicode _ _ _ => some .wide
  | tuple _ _ _ => some .tuple
  | list _ => some .list
  | dict _ => some .dict
  | inst _ _ _ => some .inst
  | pbc _ _ => some .pbc
  | iter _ _ => some .iter
  | builtin _ => some .builtin
  | method _ _ => some .method
  | type _ _ _ => some .type
  | weakref _ => some .weakref

variable (c : Option ClassDefId) (x : String) {a b : Annot} (c' : Option ClassDefId) (y : String) {g : Group}

theorem join_of_ne {g g' : Group} (ha : a.group? = some g) (hb : b.group? = some g') (h : g ≠ g') : join w a b = object := by
  cases a <;> cases ha <;> cases b <;> cases hb <;> first | rfl | exact absurd rfl h

/-! ### Joins inside a group -/

theorem join_float (c c' : Option Double) (t t' : Nat) : join w (float c t) (float c' t') = match c, c' with
    | some x, some y => if x.numEq y || (t == t' && t ≠ 0) then float c t else someFloat
    | _, _ => someFloat := by
  cases c <;> cases c' <;> rfl

theorem join_tuple (t t' : Nat) (k k' : Option ObjId) (xs ys : List Annot) : join w (tuple t k xs) (tuple t' k' ys) =
    if xs.length = ys.length then tuple 0 .none (joins w xs ys) else object := by
  change (if xs.length ≠ ys.length then object else tuple 0 .none (joins w xs ys)) = _
  simp only [ne_eq, ite_not]

theorem join_iter (c c' : Annot) (v v' : String) : join w (iter c v) (iter c' v') = if v = v' then iter (join w c c') v else object := by
  change (if v ≠ v' then object else iter (join w c c') v) = _
  simp only [ne_eq, ite_not]

theorem join_method (a b : Annot) : join w (method x a) (method y b) = if x = y then method x (join w a b) else object := by
  change (if x ≠ y then object else method x (join w a b)) = _
  simp only [ne_eq, ite_not]

theorem join_builtin : join w (builtin x) (builtin y) = if x = y then builtin x else object := by
  change (if (x == y) = true then builtin x else object) = _
  simp only [beq_iff_eq]

theorem join_type (c c' : Option Datum) (vs vs' : List VarId) (t t' : Nat) : join w (type c vs t) (type c' vs' t') =
    if t = t' ∧ t ≠ 0 then type c vs t
    else type (match c, c' with
      | some x, some y => if x.same y then some x else .none
      | _, _ => .none) [] 0 := by
  change (if (t == t' && decide (t ≠ 0)) = true then some _ else some _ : Option Annot).getD object = _
  by_cases h : t = t' ∧ t ≠ 0
  · rw [if_pos (by simpa using h), if_pos h]
    rfl
  · rw [if_neg (by simpa using h), if_neg h]
    rfl

theorem join_weakref : join w (weakref c) (weakref c') = match c, c' with
    | .none, c' => weakref c'
    | c, .none => weakref c
    | some x, some y => match w.commonBase? x y with
      | some base => weakref (some base)
      | .none => object := by
  cases c <;> cases c' <;> rfl

theorem join_inst (m m' : Bool) (fs fs' : List String) : join w (inst c m fs) (inst c' m' fs') =
      if c = c' then inst c (m || m') (fs.filter fs'.contains)
      else match c, c' with
        | some x, some y => match w.commonBase? x y with
          | some base => inst (some base) (m || m') (fs.filter fs'.contains)
          | .none => object
        | _, _ => object := by
  change (if (c == c') = true then some _ else some _ : Option Annot).getD object = _
  by_cases h : c = c'
  · simp [h]
  · rw [if_neg (by simpa using h), if_neg h]
    rfl

theorem join_group (ha : a.group? = some g) (hb : b.group? = some g) : join w a b = object ∨ (join w a b).group? = some g := by
  cases a <;> cases ha <;> cases b <;> cases hb
  case float.refl.float.refl =>
    rw [join_float]
    split
    · split <;> exact .inr rfl
    · exact .inr rfl
  case tuple.refl.tuple.refl =>
    rw [join_tuple]
    split
    · exact .inr rfl
    · exact .inl rfl
  case inst.refl.inst.refl c m fs c' m' fs' =>
    rw [join_inst]
    split
    · exact .inr rfl
    · split
      · split
        · exact .inr rfl
        · exact .inl rfl
      · exact .inl rfl
  case iter.refl.iter.refl =>
    rw [join_iter]
    split
    · exact .inr rfl
    · exact .inl rfl
  case builtin.refl.builtin.refl =>
    rw [join_builtin]
    split
    · exact .inr rfl
    · exact .inl rfl
  case method.refl.method.refl =>
    rw [join_method]
    split
    · exact .inr rfl
    · exact .inl rfl
  case type.refl.type.refl =>
    rw [join_type]
    split <;> exact .inr rfl
  case weakref.refl.weakref.refl =>
    rw [join_weakref]
    split
    · exact .inr rfl
    · exact .inr rfl
    · split
      · exact .inr rfl
      · exact .inl rfl
  all_goals exact .inr rfl

/-! ### Nothing -/

/-- An annotation with nothing; the top where it cannot hold it. -/
def orNone (a : Annot) : Annot := a.nullable?.getD object

theorem join_none_left (h : b.group? = some g) : join w none b = b.orNone := by
  cases b <;> first | rfl | cases h

theorem join_none_right (h : a.group? = some g) : join w a none = a.orNone := by
  cases a <;> first | rfl | cases h

theorem orNone_group (h : a.group? = some g) : a.orNone = object ∨ a.orNone.group? = some g := by
  cases a <;> cases h
  case str.refl c m z => cases m <;> exact .inr rfl
  case unicode.refl c m z => cases m <;> exact .inr rfl
  all_goals first | exact .inl rfl | exact .inr rfl

end FlowCompiler.Annot

/-!
## Annotations that fit together

The annotations on which joins have their laws, and that joins of them are such annotations again.  A character
and nothing do not fit together: nothing turns a character into the top, though it turns a text that the character
is an example of into a text that may be missing.
-/

namespace FlowCompiler

/-- A constant that is one with another only if it is equal to it. -/
def Datum.Sharp (d : Datum) : Prop := ∀ e, d.same e = decide (d = e)

namespace World

/-- A description that is not that of a method. -/
def IsPlainDesc (w : World) (d : DescId) : Prop := ∃ k, w.descs[d - 1]? = some k ∧ ∀ m, k ≠ .method m

end World

variable {xs : List Annot} {ds : List DescId} (i : IntFact) {a : Annot} (c : Option Double) (j : IntFact) {ys : List Annot} {b : Annot}

namespace Annot

open Ana

/-- What annotations that fit together may be about. -/
structure Scope where
  world : World
  /-- What the tag of a type stands for: a constant, and the variables that the type is that of. -/
  types : Nat → Option Datum × List VarId
  doubles : Double → Prop
  /-- Whether there are lists and dictionaries, characters, and nothing. -/
  containers : Prop
  characters : Prop
  nothing : Prop
  ordered : world.Ordered
  numEq : ∀ x y, doubles x → doubles y → x.numEq y = decide (x = y)
  apart : ¬ (characters ∧ nothing)

theorem numEq_of_false (x y : Double) (h : False) : False → x.numEq y = decide (x = y) := h.elim

/-- An annotation of a scope.  Constants, ranges, flags and tags are as they are made; truth values tell
nothing of variables, and no compile-time value is a method. -/
inductive Fits (S : Scope) : Annot → Prop
  | object : Fits S object
  | impossible : Fits S impossible
  | none (h : S.nothing) : Fits S none
  | bool (c : Option Bool) : Fits S (bool c [])
  | int {i : IntFact} (h : i.Proper) : Fits S (int i)
  | float {c : Option Double} (h : ∀ x ∈ c, S.doubles x) : Fits S (float c 0)
  | char (c : Option UInt8) (z : Bool) (h : S.characters) : Fits S (char c z)
  | unichar {c : Option Int} (z : Bool) (h : S.characters) (hc : ∀ n ∈ c, ((Char.ofNat n.toNat).toNat : Int) = n) :
    Fits S (unichar c z)
  | str {c : Option String} {m : Bool} (z : Bool) (h : m = true → c = Option.none) : Fits S (str c m z)
  | unicode {c : Option String} {m : Bool} (z : Bool) (h : m = true → c = Option.none) : Fits S (unicode c m z)
  | tuple {xs : List Annot} (h : ∀ x ∈ xs, Fits S x) : Fits S (tuple 0 Option.none xs)
  | list (d : ListDefId) (h : S.containers) : Fits S (list d)
  | dict (d : DictDefId) (h : S.containers) : Fits S (dict d)
  | inst (c : Option ClassDefId) (m : Bool) {fs : List String} (h : fs.Pairwise (· < ·)) : Fits S (inst c m fs)
  | pbc {ds : List DescId} (m : Bool) (h : ds.Pairwise (· < ·)) (hd : ∀ d ∈ ds, S.world.IsPlainDesc d) : Fits S (pbc ds m)
  | iter {c : Annot} (v : String) (h : Fits S c) : Fits S (iter c v)
  | builtin (x : String) : Fits S (builtin x)
  | method (x : String) {s : Annot} (h : Fits S s) : Fits S (method x s)
  | type {c : Option Datum} {vs : List VarId} {t : Nat} (h : ∀ d ∈ c, d.Sharp) (h0 : t = 0 → vs = [])
    (ht : t ≠ 0 → S.types t = (c, vs)) : Fits S (type c vs t)
  | weakref (c : Option ClassDefId) : Fits S (weakref c)

variable {S : Scope}

/-! ### Parts -/

theorem nodup_eraseDups (ds : List Nat) : ds.eraseDups.Nodup := by
  induction h : ds.length using Nat.strongRecOn generalizing ds with
  | _ n ih =>
    cases ds with
    | nil => simp
    | cons d ds =>
      rw [List.eraseDups_cons, List.nodup_cons]
      refine ⟨by simp [List.mem_eraseDups], ih _ ?_ _ rfl⟩
      rw [← h, List.length_cons]
      exact Nat.lt_succ_of_le (List.length_filter_le ..)

theorem mem_sortDescs {d : DescId} : d ∈ sortDescs ds ↔ d ∈ ds := by
  simp [sortDescs, List.mem_eraseDups]

theorem pairwise_sortDescs (ds : List DescId) : (sortDescs ds).Pairwise (· < ·) := by
  have hle : (sortDescs ds).Pairwise (· ≤ ·) := by
    have hsorted : (sortDescs ds).Pairwise fun a b => decide (a ≤ b) = true :=
      List.pairwise_mergeSort (fun a b c => by simpa using Nat.le_trans) (fun a b => by simpa using Nat.le_total a b) ds.eraseDups
    exact hsorted.imp fun h => of_decide_eq_true h
  have hne : (sortDescs ds).Nodup := (List.mergeSort_perm ..).nodup_iff.2 (nodup_eraseDups ds)
  exact (hle.and hne).imp fun h => Nat.lt_of_le_of_ne h.1 h.2

theorem sortDescs_congr {ds es : List DescId} (h : ∀ d, d ∈ ds ↔ d ∈ es) : sortDescs ds = sortDescs es :=
  (pairwise_sortDescs ds).eq_of_mem_iff (pairwise_sortDescs es) fun d => by rw [mem_sortDescs, mem_sortDescs, h]

theorem sortDescs_eq (h : ds.Pairwise (· < ·)) : sortDescs ds = ds := (pairwise_sortDescs ds).eq_of_mem_iff h fun _ => mem_sortDescs

theorem filter_contains_comm {fs gs : List String} (hf : fs.Pairwise (· < ·)) (hg : gs.Pairwise (· < ·)) :
    fs.filter gs.contains = gs.filter fs.contains :=
  (hf.filter _).eq_of_mem_iff (hg.filter _) fun f => by simp [and_comm]

theorem filter_contains_assoc (fs gs hs : List String) : (fs.filter gs.contains).filter hs.contains = fs.filter (gs.filter hs.contains).contains := by
  rw [List.filter_filter]
  refine List.filter_congr fun f _ => Bool.eq_iff_iff.2 ?_
  simp [and_comm]

/-- A character as a text, which tells characters apart. -/
def textOf (b : UInt8) : String := String.singleton (Char.ofNat b.toNat)

def wideOf (n : Int) : String := String.singleton (Char.ofNat n.toNat)

theorem textOf_inj {b b' : UInt8} (h : textOf b = textOf b') : b = b' := by
  have hc : .ofNat b.toNat = Char.ofNat b'.toNat := String.singleton_inj.1 h
  have hn := congrArg Char.toNat hc
  have hvalid (b : UInt8) : (Char.ofNat b.toNat).toNat = b.toNat := by
    have hlt := b.toNat_lt
    have hvalid : b.toNat.isValidChar := .inl (by omega)
    rw [Char.ofNat, dif_pos hvalid]
    rfl
  rw [hvalid, hvalid] at hn
  exact UInt8.toNat_inj.1 hn

theorem wideOf_inj {n n' : Int} (hn : ((Char.ofNat n.toNat).toNat : Int) = n) (hn' : ((Char.ofNat n'.toNat).toNat : Int) = n')
    (h : wideOf n = wideOf n') : n = n' := by
  have hc : .ofNat n.toNat = Char.ofNat n'.toNat := String.singleton_inj.1 h
  rw [← hn, ← hn', hc]

/-! ### Joins of numbers, texts and types -/

section

variable {w : World}

@[simp] theorem join_bool_bool (c c' : Option Bool) : join w (bool c []) (bool c' []) = bool (sameOr c c') [] := rfl
@[simp] theorem join_bool_int (c : Option Bool) (j : IntFact) : join w (bool c []) (int j) = int ((IntFact.ofBool c).union j) := rfl
@[simp] theorem join_int_bool (c : Option Bool) : join w (int i) (bool c []) = int (i.union (.ofBool c)) := rfl
@[simp] theorem join_int_int : join w (int i) (int j) = int (i.union j) := rfl
@[simp] theorem join_float_int : join w (float c 0) (int j) = float .none 0 := by cases c <;> rfl
@[simp] theorem join_int_float : join w (int i) (float c 0) = float .none 0 := by cases c <;> rfl
@[simp] theorem join_float_bool (c' : Option Bool) : join w (float c 0) (bool c' []) = float .none 0 := by
  cases c <;> rfl
@[simp] theorem join_bool_float (c : Option Bool) (c' : Option Double) : join w (bool c []) (float c' 0) = float .none 0 := by
  cases c' <;> rfl

theorem join_float_float {c c' : Option Double} (h : ∀ x ∈ c, S.doubles x) (h' : ∀ x ∈ c', S.doubles x) :
    join w (float c 0) (float c' 0) = float (sameOr c c') 0 := by
  rw [join_float]
  match c, c' with
  | some x, some y =>
    simp only [S.numEq x y (h x rfl) (h' y rfl), sameOr_eq, Option.some.injEq]
    by_cases e : x = y <;> simp [e, someFloat]
  | some x, .none => simp [someFloat]
  | .none, _ => simp [someFloat]

@[simp] theorem join_char_char (c c' : Option UInt8) (z z' : Bool) : join w (char c z) (char c' z') = char (sameOr c c') (z && z') := rfl
@[simp] theorem join_char_str (c : Option UInt8) (c' : Option String) (z m' z' : Bool) :
    join w (char c z) (str c' m' z') = str (sameOr (c.map textOf) c') m' (z && z') := rfl
@[simp] theorem join_str_char (c : Option String) (c' : Option UInt8) (m z z' : Bool) :
    join w (str c m z) (char c' z') = str (sameOr c (c'.map textOf)) m (z && z') := by
  change str _ (m || false) _ = _
  rw [Bool.or_false]
  rfl
@[simp] theorem join_str_str (c c' : Option String) (m m' z z' : Bool) :
    join w (str c m z) (str c' m' z') = str (sameOr c c') (m || m') (z && z') := rfl

@[simp] theorem join_unichar_unichar (c c' : Option Int) (z z' : Bool) : join w (unichar c z) (unichar c' z') = unichar (sameOr c c') (z && z') := rfl
@[simp] theorem join_unichar_unicode (c : Option Int) (c' : Option String) (z m' z' : Bool) :
    join w (unichar c z) (unicode c' m' z') = unicode (sameOr (c.map wideOf) c') m' (z && z') := rfl
@[simp] theorem join_unicode_unichar (c : Option String) (c' : Option Int) (m z z' : Bool) :
    join w (unicode c m z) (unichar c' z') = unicode (sameOr c (c'.map wideOf)) m (z && z') := by
  change unicode _ (m || false) _ = _
  rw [Bool.or_false]
  rfl
@[simp] theorem join_unicode_unicode (c c' : Option String) (m m' z z' : Bool) :
    join w (unicode c m z) (unicode c' m' z') = unicode (sameOr c c') (m || m') (z && z') := rfl

@[simp] theorem join_list (d e : ListDefId) : join w (list d) (list e) = list d := rfl
@[simp] theorem join_dict (d e : DictDefId) : join w (dict d) (dict e) = dict d := rfl
@[simp] theorem join_pbc (ds es : List DescId) (m m' : Bool) : join w (pbc ds m) (pbc es m') = pbc (sortDescs (ds ++ es)) (m || m') := rfl

/-- Types of the same variables stay; other ones are known by their constant only. -/
theorem join_type_type {c c' : Option Datum} {vs vs' : List VarId} {t t' : Nat} (h : ∀ d ∈ c, d.Sharp) :
    join w (type c vs t) (type c' vs' t') = if t = t' ∧ t ≠ 0 then type c vs t else type (sameOr c c') [] 0 := by
  rw [join_type]
  match c, c' with
  | some x, some y =>
    simp only [h x rfl y, sameOr_eq, Option.some.injEq, decide_eq_true_eq]
  | some x, .none => simp
  | .none, _ => simp

theorem length_joins (h : xs.length = ys.length) : (joins w xs ys).length = xs.length := by
  induction xs generalizing ys with
  | nil => cases ys <;> rfl
  | cons x xs ih =>
    cases ys with
    | nil => cases h
    | cons y ys => exact congrArg (· + 1) (ih (Nat.succ.inj h))

end

/-! ### Joins fit -/

theorem group_cases (b : Annot) : b = object ∨ b = impossible ∨ b = none ∨ ∃ g, b.group? = some g := by
  cases b
  case object => exact .inl rfl
  case impossible => exact .inr (.inl rfl)
  case none => exact .inr (.inr (.inl rfl))
  all_goals exact .inr (.inr (.inr ⟨_, rfl⟩))

theorem Fits.nothing (h : Fits S .none) : S.nothing := by
  cases h
  assumption

theorem Fits.orNone (h : Fits S a) (hn : S.nothing) : Fits S a.orNone := by
  cases h
  case str c m z h =>
    cases m
    · exact .str z fun _ => rfl
    · exact .str z h
  case unicode c m z h =>
    cases m
    · exact .unicode z fun _ => rfl
    · exact .unicode z h
  case none => exact .none hn
  case list d h => exact .list d h
  case dict d h => exact .dict d h
  case inst c m fs h => exact .inst c true h
  case pbc ds m h hd => exact .pbc true h hd
  all_goals exact .object

theorem Fits.join_of_group {g : Group} (ha : Fits S a) (hg : a.group? = some g) (hb : Fits S b)
    (h : b.group? = some g → Fits S (join S.world a b)) : Fits S (join S.world a b) := by
  rcases group_cases b with rfl | rfl | rfl | ⟨g', hg'⟩
  · rw [join_object_right]
    exact .object
  · rwa [join_impossible_right]
  · rw [join_none_right hg]
    exact ha.orNone hb.nothing
  · by_cases e : g' = g
    · exact h (e ▸ hg')
    · rw [join_of_ne hg hg' (Ne.symm e)]
      exact .object

theorem sameOr_mem {α : Type} [DecidableEq α] {a b : Option α} {x : α} (h : x ∈ sameOr a b) : x ∈ a ∧ x ∈ b := by
  rw [sameOr_eq] at h
  split at h
  · rename_i e
    exact ⟨h, e ▸ h⟩
  · cases h

theorem forall_mem_joins {P : Annot → Prop} (h : ∀ x ∈ xs, ∀ y ∈ ys, P (join S.world x y)) : ∀ z ∈ joins S.world xs ys, P z := by
  induction xs generalizing ys with
  | nil =>
    intro z hz
    cases ys <;> cases hz
  | cons x xs ih =>
    cases ys with
    | nil =>
      intro z hz
      cases hz
    | cons y ys =>
      refine List.forall_mem_cons.2 ⟨h x (by simp) y (by simp), ih fun u hu v hv => h u (by simp [hu]) v (by simp [hv])⟩

theorem Fits.join (ha : Fits S a) (hb : Fits S b) : Fits S (join S.world a b) := by
  have fits := ha
  induction ha generalizing b
  case object =>
    rw [join_object_left]
    exact .object
  case impossible => exact hb
  case none h =>
    rcases group_cases b with rfl | rfl | rfl | ⟨g, hg⟩
    · exact .object
    · exact .none h
    · exact .none h
    · rw [join_none_left hg]
      exact hb.orNone h
  all_goals
    refine Fits.join_of_group fits rfl hb fun hg => ?_
    cases hb <;> cases hg
  case bool.bool.refl => exact .bool _
  case bool.int.refl c j h => exact .int ((IntFact.proper_ofBool c).union h)
  case int.bool.refl hi c => exact .int (hi.union (IntFact.proper_ofBool c))
  case int.int.refl hi j h => exact .int (hi.union h)
  case bool.float.refl | int.float.refl | float.bool.refl | float.int.refl => simpa using .float (c := .none) (by simp)
  case float.float.refl hc _ h =>
    rw [join_float_float hc h]
    exact .float fun x hx => hc x (sameOr_mem hx).1
  case char.char.refl hs _ _ _ => exact .char _ _ hs
  case unichar.unichar.refl hs hc _ _ _ _ => exact .unichar _ hs fun n hn => hc n (sameOr_mem hn).1
  case char.str.refl h =>
    rw [join_char_str]
    refine .str _ fun hm => ?_
    rw [h hm, sameOr_none_right]
  case unichar.unicode.refl h =>
    rw [join_unichar_unicode]
    refine .unicode _ fun hm => ?_
    rw [h hm, sameOr_none_right]
  case str.char.refl hs _ _ _ =>
    rw [join_str_char]
    refine .str _ fun hm => ?_
    rw [hs hm, sameOr_none_left]
  case unicode.unichar.refl hs _ _ _ _ =>
    rw [join_unicode_unichar]
    refine .unicode _ fun hm => ?_
    rw [hs hm, sameOr_none_left]
  case str.str.refl hs _ _ _ h | unicode.unicode.refl hs _ _ _ h =>
    constructor
    intro hm
    rcases Bool.or_eq_true_iff.1 hm with hm | hm
    · rw [hs hm, sameOr_none_left]
    · rw [h hm, sameOr_none_right]
  case tuple.tuple.refl hxs ih ys hys =>
    rw [join_tuple]
    split
    · exact .tuple (forall_mem_joins fun x hx y hy => ih x hx (hys y hy) (hxs x hx))
    · exact .object
  case list.list.refl | dict.dict.refl => exact fits
  case inst.inst.refl hfs _ _ _ _ =>
    rw [join_inst]
    split
    · exact .inst _ _ (hfs.filter _)
    · split
      · split
        · exact .inst _ _ (hfs.filter _)
        · exact .object
      · exact .object
  case pbc.pbc.refl hd es m' hes he =>
    refine .pbc _ (pairwise_sortDescs _) fun d h => ?_
    rcases List.mem_append.1 (mem_sortDescs.1 h) with h | h
    · exact hd d h
    · exact he d h
  case iter.iter.refl hc ih _ _ h =>
    rw [join_iter]
    split
    · exact .iter _ (ih h hc)
    · exact .object
  case builtin.builtin.refl =>
    rw [join_builtin]
    split
    · exact fits
    · exact .object
  case method.method.refl hs ih _ _ h =>
    rw [join_method]
    split
    · exact .method _ (ih h hs)
    · exact .object
  case type.type.refl hc h0 ht _ _ _ _ _ _ =>
    rw [join_type_type hc]
    split
    · exact fits
    · exact .type (fun d hd => hc d (sameOr_mem hd).1) (fun _ => rfl) fun h => absurd rfl h
  case weakref.weakref.refl =>
    rw [join_weakref]
    split
    · exact .weakref _
    · exact .weakref _
    · split
      · exact .weakref _
      · exact .object

end Annot
end FlowCompiler
