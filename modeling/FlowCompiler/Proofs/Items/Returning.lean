import Mathlib.Algebra.Order.BigOperators.Group.List
import Mathlib.Data.Set.Card
import Mathlib.Data.Set.Finite.Lattice
import Mathlib.Logic.Relation
import FlowCompiler.Proofs.Items.Slots
import FlowCompiler.Proofs.Union.Upper

/-!
# Unions of containers that contain themselves

A union of lists and dictionaries merges their items, which asks for a union of what the items hold, and so on.  `Asks` says what
each of these tasks asks for, and in which state.  A union returns unless the items that it merges, or writes into the text of a
failure, come back among what they ask for (`ComesBack`): there are finitely many items and merging adds none, and from one item to
the next annotations get smaller.

Items that contain themselves do come back when two of them meet, because they are united before their slots are pointed at one.
-/

/-! ## Unions keep slots in range

A union adds no items: every slot stands for an item that some slot stood for before, so what bounds the items of slots goes on
bounding them, also when the union fails.  Merging two items is given as its parts: one takes the other one in, what they hold is
united, and the slots are pointed at the one.  `Guards` says of such a part which invariant it keeps and how it may fail. -/

namespace FlowCompiler

open List Nat

/-! ### Items in range -/

namespace World

variable {w w' : World} {n : Nat}

/-- The slots stand for items of a range. -/
def Ranged (n : Nat) (w : World) : Prop := ∀ h, w.slot h < n

theorem exists_ranged (w : World) : ∃ n, w.Ranged n := by
  have bounded {α : Type} (xs : Array α) (x : α) (f : α → Nat) : ∃ n, ∀ i : Nat, f (xs[i]?.getD x) ≤ n := by
    refine ⟨f x + (xs.toList.map f).sum, fun i => ?_⟩
    cases h : xs[i]? with
    | none => exact Nat.le_add_right ..
    | some y =>
      have hy : f y ∈ xs.toList.map f := mem_map_of_mem (Array.mem_toList_iff.2 (Array.mem_of_getElem? h))
      exact Nat.le_trans (single_le_sum (fun _ _ => Nat.zero_le _) _ hy) (Nat.le_add_left ..)
  obtain ⟨l, hl⟩ := bounded w.listDefs 0 id
  obtain ⟨m, hm⟩ := bounded w.dictDefs default DictDef.key
  obtain ⟨n, hn⟩ := bounded w.dictDefs default DictDef.value
  refine ⟨l + m + n + 1, fun h => ?_⟩
  cases h with
  | list d => exact Nat.lt_succ_of_le (Nat.le_trans (hl d) (by omega))
  | key d => exact Nat.lt_succ_of_le (Nat.le_trans (hm d) (by omega))
  | value d => exact Nat.lt_succ_of_le (Nat.le_trans (hn d) (by omega))

theorem Ranged.of_sameSlots (h : w.Ranged n) (s : w.SameSlots w') : w'.Ranged n := fun g => s.slot g ▸ h g

theorem slot_of_not_hasSlot {h : Holder} (hh : ¬ w.HasSlot h) : w.slot h = 0 := by
  cases h with
  | list d => simp [slot, listItemId, Array.getElem?_eq_none (Nat.le_of_not_lt hh)]
  | key d =>
    simp only [slot, dictDef, Array.getElem?_eq_none (Nat.le_of_not_lt hh)]
    rfl
  | value d =>
    simp only [slot, dictDef, Array.getElem?_eq_none (Nat.le_of_not_lt hh)]
    rfl

theorem Ranged.points (h : w.Ranged n) {i : ItemId} (hi : i < n) (hs : List Holder) : (hs.foldl (point i) w).Ranged n := by
  intro g
  by_cases hg : w.HasSlot g
  · rw [slot_foldl_point hs i hg]
    split
    · exact hi
    · exact h g
  · rw [slot_of_not_hasSlot (mt (hasSlot_foldl_point hs w i g).1 hg), ← slot_of_not_hasSlot hg]
    exact h g

end World

namespace Ana

open World Annot

variable {I : World → Prop} {E E' : Failure → Prop} {n : Nat} {α β : Type} {u : Annot → Annot → Ana Annot}

/-! ### Steps that keep an invariant -/

/-- A step that keeps an invariant, also when it fails, and fails for reasons of one kind only. -/
def Guards (I : World → Prop) (E : Failure → Prop) (m : Ana α) : Prop := ∀ k w, I w → I (m.after k w) ∧ ∀ e v, m k w = .error e v → E e

namespace Guards

theorem pure (a : α) : Guards I E (.pure a : Ana α) := fun _ _ h => ⟨h, fun _ _ e => by cases e⟩

theorem throw {e : Failure} (h : E e) : Guards I E (MonadExcept.throw e : Ana α) := fun _ _ hw => ⟨hw, fun _ _ e => by cases e; exact h⟩

theorem get : Guards I E (MonadState.get : Ana World) := fun _ _ h => ⟨h, fun _ _ e => by cases e⟩

theorem modifyGet {f : World → α × World} (h : ∀ w : World, I w → I (f w).2) : Guards I E (MonadState.modifyGet f : Ana α) :=
  fun _ w hw => ⟨h w hw, fun _ _ e => by cases e⟩

theorem bind {m : Ana α} {f : α → Ana β} (hm : Guards I E m) (hf : ∀ a, Guards I E (f a)) : Guards I E (m >>= f) := by
  intro k w hw
  obtain ⟨hv, he⟩ := hm k w hw
  refine ⟨after_bind (fun a v e => (hf a k v (after_of_ok e ▸ hv)).1) fun _ _ e => after_of_error e ▸ hv, fun x v h => ?_⟩
  cases e : m k w with
  | ok a v' =>
    rw [bind_of_ok e] at h
    exact (hf a k v' (after_of_ok e ▸ hv)).2 x v h
  | error y v' =>
    rw [bind_of_error e] at h
    cases h
    exact he _ _ e

theorem get_bind {f : World → Ana α} (h : ∀ w : World, I w → Guards I E (f w)) : Guards I E (MonadState.get >>= f) := fun k w hw => h w hw k w hw

theorem tryCatch {m : Ana α} {f : Failure → Ana α} (hm : Guards I E' m) (hf : ∀ e, Guards I E (f e)) : Guards I E (MonadExcept.tryCatch m f) := by
  intro k w hw
  have hv := (hm k w hw).1
  cases e : m k w with
  | ok a v =>
    have caught : (MonadExcept.tryCatch m f) k w = .ok a v := tryCatch_of_ok e
    rw [after_of_ok e] at hv
    exact ⟨after_of_ok caught ▸ hv, fun _ _ h => by cases caught.symm.trans h⟩
  | error x v =>
    have caught : (MonadExcept.tryCatch m f) k w = f x k v := tryCatch_of_error e
    rw [after_of_error e] at hv
    unfold after
    rw [caught]
    exact hf x k v hv

theorem ite {c : Prop} [Decidable c] {m m' : Ana α} (h : c → Guards I E m) (h' : ¬ c → Guards I E m') : Guards I E (if c then m else m') := by
  split
  · exact h ‹_›
  · exact h' ‹_›

theorem mapM {xs : List β} {f : β → Ana α} (h : ∀ x ∈ xs, Guards I E (f x)) : Guards I E (xs.mapM f) := by
  induction xs with
  | nil => exact pure _
  | cons x xs ih =>
    rw [mapM_cons]
    exact bind (h x mem_cons_self) fun _ => bind (ih fun y hy => h y (mem_cons_of_mem _ hy)) fun _ => pure _

theorem mono {m : Ana α} (h : Guards I E m) (weaker : ∀ e, E e → E' e) : Guards I E' m :=
  fun k w hw => ⟨(h k w hw).1, fun e v he => weaker e ((h k w hw).2 e v he)⟩

end Guards

/-! ### Merging, step by step -/

/-- Of two items, the one that takes the other one in. -/
def roles (w : World) (i j : ItemId) : ItemId × ItemId := if (w.item j).frozen then (j, i) else (i, j)

/-- An item takes in the flags, holders and readers of another one; what is left is to unite what they hold. -/
def takeIn (self other : ItemId) : Ana (ListItem × Annot) := do
  mergeFlags self other
  let o := (← get).item other
  setItem self fun s => { s with holders := o.holders ++ s.holders, reads := insertPositions s.reads o.reads }
  pure (o, ((← get).item self).value)

theorem absorbItem_eq (u : Annot → Annot → Ana Annot) (self other : ItemId) : absorbItem u self other = (do
    let (o, value) ← takeIn self other
    let merged ← u value o.value
    settleItem self o value merged) := by
  simp only [absorbItem, takeIn, bind_assoc, pure_bind]

theorem roles_lt {i j : ItemId} (hi : i < n) (hj : j < n) (w : World) : (roles w i j).1 < n := by
  unfold roles
  split
  · exact hj
  · exact hi

/-- An invariant that only looks at slots. -/
def OfSlots (I : World → Prop) : Prop := ∀ w w' : World, w.SameSlots w' → I w → I w'

/-- The failures that merging raises itself, not through a union that it asks for. -/
def Own (e : Failure) : Prop := ∃ code text, e = .annotator code text

namespace Guards

variable (slots : OfSlots I)

include slots

theorem setItem (i : ItemId) (f : ListItem → ListItem) : Guards I E (.setItem i f) := modifyGet fun w hw => slots w _ (sameSlots_updateItem w i f) hw

theorem reflowAll (ps : Array PosKey) : Guards I E (.reflowAll ps) := by
  intro k w hw
  obtain ⟨w', e, r, -⟩ := reflowAll_ok ps k w
  rw [after_of_ok e, e]
  exact ⟨slots w w' r.toSameSlots hw, fun _ _ e => by cases e⟩

omit slots in
theorem fail (code text : String) : Guards I Own (.fail code text : Ana α) := throw ⟨code, text, rfl⟩

theorem mergeFlags (i j : ItemId) : Guards I Own (.mergeFlags i j) := by
  have step (s : Int) : Guards I Own (setStep i s) := by
    exact bind get fun w => ite (fun _ => ite (fun _ => bind (fail _ _) fun _ => setItem slots _ _) fun _ => setItem slots _ _) fun _ => pure _
  refine bind get fun w => bind (setItem slots _ _) fun _ => bind get fun w' => ite (fun _ => ?_) fun _ => ?_
  · exact bind (fail _ _) fun _ => ite (fun _ => step _) fun _ => pure _
  · exact ite (fun _ => step _) fun _ => pure _

theorem takeIn (i j : ItemId) : Guards I Own (.takeIn i j) :=
  bind (mergeFlags slots i j) fun _ => bind get fun _ => bind (setItem slots _ _) fun _ => bind get fun _ => pure _

theorem settleItem {i : ItemId} (points : ∀ (w : World) (hs : List Holder), I w → I (hs.foldl (point i) w)) (o : ListItem) (value merged : Annot) :
    Guards I Own (.settleItem i o value merged) := by
  have patch : Guards I Own (patchHolders i) := by
    intro k w hw
    exact ⟨points w _ hw, fun _ _ e => by cases e⟩
  have grow : Guards I Own (growItem i merged) := bind (setItem slots _ _) fun _ => bind get fun _ => reflowAll slots _
  have last : Guards I Own (do
      if !(← MonadState.get).equal merged o.value then .reflowAll o.reads : Ana Unit) :=
    bind get fun w => ite (fun _ => reflowAll slots _) fun _ => pure _
  have rest (c : Bool) : Guards I Own (do
      patchHolders i
      if c then growItem i merged
      if !(← MonadState.get).equal merged o.value then .reflowAll o.reads : Ana Unit) :=
    bind patch fun _ => ite (fun _ => bind grow fun _ => last) fun _ => last
  exact bind get fun w => bind get fun w' => ite (fun _ => bind (fail _ _) fun _ => rest _) fun _ => rest _

theorem newTuple (xs : List Annot) : Guards I E (.newTuple xs) := by
  intro k w hw
  obtain ⟨a, w', e⟩ := Total.newTuple xs k w
  rw [after_of_ok e, e]
  exact ⟨slots w w' (Quiet.newTuple xs k w a w' e).toSameSlots hw, fun _ _ e => by cases e⟩

theorem newPbc (ds : List DescId) (b : Bool) : Guards I E (.newPbc ds b) := by
  have same {f : World → World} (h : ∀ w, (f w).listDefs = w.listDefs ∧ (f w).dictDefs = w.dictDefs) :
      Guards I E (modify f : Ana PUnit) := modifyGet fun w => slots w _ ⟨(h w).1, (h w).2⟩
  have method (m : MethodDesc) : Guards I E (.methodDesc m) := by
    have add : Guards I E (addDesc (.method m)) := modifyGet fun w => slots w _ ⟨rfl, rfl⟩
    refine bind get fun w => ?_
    split
    · exact pure _
    · exact bind add fun _ => bind (same fun _ => ⟨rfl, rfl⟩) fun _ => bind (same fun _ => ⟨rfl, rfl⟩) fun _ => pure _
  have simplify (ds : List DescId) : Guards I E (simplifyMethods ds) := by
    exact bind get fun w => ite (fun _ => pure _) fun _ => bind (mapM fun m _ => method m) fun _ => bind get fun _ => pure _
  unfold Ana.newPbc
  dsimp only
  split
  · refine bind get fun w => ?_
    split
    · exact bind (simplify _) fun _ => pure _
    · exact pure _
  · exact pure _

end Guards

/-! ### Unions -/

/-- A step that keeps slots in range, however it ends. -/
abbrev Confined (n : Nat) (m : Ana α) : Prop := Guards (World.Ranged n) (fun _ => True) m

namespace Confined

theorem ofSlots_ranged (n : Nat) : OfSlots (World.Ranged n) := fun _ _ s h => h.of_sameSlots s

theorem mergeItems (hu : ∀ a b, Confined n (u a b)) {i j : ItemId} (hi : i < n) (hj : j < n) : Confined n (.mergeItems u i j) := by
  have any {α : Type} {m : Ana α} (h : Guards (World.Ranged n) Own m) : Confined n m := h.mono fun _ _ => trivial
  have absorb (w : World) : Confined n (absorbItem u (roles w i j).1 (roles w i j).2) := by
    rw [absorbItem_eq]
    refine .bind (any (.takeIn (ofSlots_ranged n) _ _)) fun x => .bind (hu _ _) fun _ =>
      any (.settleItem (ofSlots_ranged n) (fun w hs hw => ?_) _ _ _)
    exact hw.points (roles_lt hi hj _) hs
  exact .ite (fun _ => .bind .get fun w => .ite (fun _ => any (.fail _ _)) fun _ => absorb w) fun _ => .pure _

theorem mergeDicts (hu : ∀ a b, Confined n (u a b)) (depth : Nat) (d e : DictDefId) : Confined n (.mergeDicts depth u d e) := by
  refine .get_bind fun w hw => .ite (fun _ => .pure _) fun _ => .ite (fun _ => .throw trivial) fun _ => ?_
  exact .bind (mergeItems hu (hw (.key d)) (hw (.key e))) fun _ => .get_bind fun v hv => mergeItems hu (hv (.value d)) (hv (.value e))

theorem mergeFacts (hu : ∀ a b, Confined n (u a b)) (fs gs : List (Fact Annot)) : Confined n (.mergeFacts u fs gs) := by
  refine .bind (.mapM fun x _ => ?_) fun _ => .pure _
  split
  · exact .tryCatch (.bind (hu _ _) fun _ => .pure _) fun _ => .pure _
  · exact .pure _

/-- **Unions keep slots in range.** -/
theorem unionAux (fuel : Nat) (effects : Bool) (a b : Annot) : Confined n (.unionAux fuel effects a b) := by
  induction fuel generalizing effects a b with
  | zero => exact .throw trivial
  | succ fuel ih =>
    unfold Ana.unionAux
    split
    · exact .pure _
    · exact .pure _
    · exact .bind (mergeFacts (ih false) _ _) fun _ => .pure _
    · exact .ite (fun _ => .pure _) fun _ => .ite (fun _ => .pure _) fun _ =>
        .bind (.mapM fun x _ => ih effects x.1 x.2) fun xs => .newTuple (ofSlots_ranged n) xs
    · exact .get_bind fun w hw => .ite (fun _ => .pure _) fun _ => .ite (fun _ => .throw trivial) fun _ =>
        .bind (mergeItems (ih effects) (hw (.list _)) (hw (.list _))) fun _ => .pure _
    · exact .bind .get fun w => .ite (fun _ => .pure _) fun _ => .ite (fun _ => .throw trivial) fun _ =>
        .bind (mergeDicts (ih effects) fuel _ _) fun _ => .pure _
    · exact .newPbc (ofSlots_ranged n) _ _
    · exact .ite (fun _ => .pure _) fun _ => .bind (ih effects _ _) fun _ => .pure _
    · exact .ite (fun _ => .pure _) fun _ => .bind (ih effects _ _) fun _ => .pure _
    · exact .bind .get fun w => .pure _

end Confined

end Ana

open Relation (TransGen ReflTransGen)

/-! ## Texts -/

namespace Annot

/-- The annotations that the text of an annotation is made of, where they stand in it. -/
def parts : Annot → List Annot
  | tuple _ _ xs => xs
  | iter a _ => [a]
  | method _ a => [a]
  | _ => []

theorem sizeOf_part {x a : Annot} (h : x ∈ a.parts) : sizeOf x < sizeOf a := by
  cases a with
  | tuple t c xs => exact Ana.sizeOf_item t c h
  | iter a y =>
    rw [mem_singleton.1 h, iter.sizeOf_spec]
    omega
  | method y a =>
    rw [mem_singleton.1 h, method.sizeOf_spec]
    omega
  | _ => cases h

end Annot

namespace World

variable {w : World} {a : Annot}

/-- The items whose annotations stand in the text of an annotation; a list that is its own element is only hinted at. -/
def inside (w : World) : Annot → List ItemId
  | .list d => if w.isOwnElement d then [] else [w.listItemId d]
  | .dict d => [(w.dictDef d).key, (w.dictDef d).value]
  | _ => []

theorem text_congr {n m : Nat} (parts : ∀ x ∈ a.parts, w.annotTextAux n x = w.annotTextAux m x)
    (items : ∀ i ∈ w.inside a, w.annotTextAux n (w.item i).value = w.annotTextAux m (w.item i).value) :
    w.annotTextAux (n + 1) a = w.annotTextAux (m + 1) a := by
  cases a with
  | tuple t c xs =>
    unfold annotTextAux
    dsimp only
    rw [map_congr_left (l := xs) parts]
  | iter a x =>
    unfold annotTextAux
    dsimp only
    rw [parts a (mem_singleton_self a)]
  | method x a =>
    unfold annotTextAux
    dsimp only
    rw [parts a (mem_singleton_self a)]
  | list d =>
    unfold inside at items
    unfold annotTextAux
    dsimp only at items ⊢
    split at items
    · rename_i own
      rw [if_pos own, if_pos own]
    · rename_i own
      have h := items (w.listItemId d) mem_cons_self
      rw [if_neg own, if_neg own, listItem, h]
  | dict d =>
    have hk := items (w.dictDef d).key mem_cons_self
    have hv := items (w.dictDef d).value (mem_cons_of_mem _ mem_cons_self)
    unfold annotTextAux
    dsimp only
    rw [hk, hv]
  | _ => rfl

/-- An annotation whose text comes to an end. -/
def Spelled (w : World) (a : Annot) : Prop := ∃ N, ∀ n, N ≤ n → w.annotTextAux n a = w.annotTextAux N a

theorem exists_depth (as : List Annot) (h : ∀ x ∈ as, w.Spelled x) : ∃ N, ∀ x ∈ as, ∀ n, N ≤ n → w.annotTextAux n x = w.annotTextAux N x := by
  induction as with
  | nil => exact ⟨0, nofun⟩
  | cons a as ih =>
    obtain ⟨N, ha⟩ := h a mem_cons_self
    obtain ⟨M, has⟩ := ih fun x hx => h x (mem_cons_of_mem _ hx)
    refine ⟨max N M, fun x hx n hn => ?_⟩
    have hN := le_max_left N M
    have hM := le_max_right N M
    rcases mem_cons.1 hx with rfl | hx
    · rw [ha n (le_trans hN hn), ha _ hN]
    · rw [has x hx n (le_trans hM hn), has x hx _ hM]

theorem spelled_of_parts (parts : ∀ x ∈ a.parts, w.Spelled x) (items : ∀ i ∈ w.inside a, w.Spelled (w.item i).value) : w.Spelled a := by
  obtain ⟨N, h⟩ := exists_depth (a.parts ++ (w.inside a).map fun i => (w.item i).value) fun x hx => by
    rcases mem_append.1 hx with hx | hx
    · exact parts x hx
    · obtain ⟨i, hi, rfl⟩ := mem_map.1 hx
      exact items i hi
  refine ⟨N + 1, fun n hn => ?_⟩
  obtain ⟨n, rfl⟩ := Nat.exists_eq_add_of_lt hn
  refine text_congr (fun x hx => h x (mem_append_left _ hx) _ (by omega)) fun i hi => ?_
  exact h _ (mem_append_right _ (mem_map_of_mem hi)) _ (by omega)

end World

namespace Ana

open World Annot

variable {k : Knot} {w w' v v' : World} {n : Nat} {a b : Annot} {i j : ItemId}

/-! ## What a union asks for -/

/-- What there is to be done in the course of a union. -/
inductive Task
  | unite (a b : Annot)
  | each (xs : List (Annot × Annot))
  | merge (i j : ItemId)
  /-- The text of an annotation. -/
  | text (a : Annot)
  /-- The text of what an item holds. -/
  | spell (i : ItemId)

/-- What a task asks for in a state: another task, and the state in which it is done. -/
inductive Asks (k : Knot) : Task × World → Task × World → Prop
  | tuple {t t' : Nat} {c c' : Option ObjId} {xs ys : List Annot} {w : World} : t ≠ t' → xs.length = ys.length →
      Asks k (.unite (.tuple t c xs) (.tuple t' c' ys), w) (.each (xs.zip ys), w)
  | first {x y : Annot} {rest : List (Annot × Annot)} {w : World} : Asks k (.each ((x, y) :: rest), w) (.unite x y, w)
  | rest {x y r : Annot} {rest : List (Annot × Annot)} {w v : World} :
      Returns (fun n => unionAux n true x y) k w (.ok r v) → Asks k (.each ((x, y) :: rest), w) (.each rest, v)
  | iter {a b : Annot} {x : String} {w : World} : Asks k (.unite (.iter a x) (.iter b x), w) (.unite a b, w)
  | method {a b : Annot} {x : String} {w : World} : Asks k (.unite (.method x a) (.method x b), w) (.unite a b, w)
  | list {d e : ListDefId} {w : World} : w.listItemId d ≠ w.listItemId e →
      Asks k (.unite (.list d) (.list e), w) (.merge (w.listItemId d) (w.listItemId e), w)
  | keys {d e : DictDefId} {w : World} : w.equal (.dict d) (.dict e) = false →
      (w.dictDef d).customEqHash = (w.dictDef e).customEqHash →
      Asks k (.unite (.dict d) (.dict e), w) (.merge (w.dictDef d).key (w.dictDef e).key, w)
  | values {d e : DictDefId} {w v : World} : w.equal (.dict d) (.dict e) = false →
      (w.dictDef d).customEqHash = (w.dictDef e).customEqHash →
      Returns (fun n => mergeItems (unionAux n true) (w.dictDef d).key (w.dictDef e).key) k w (.ok () v) →
      Asks k (.unite (.dict d) (.dict e), w) (.merge (v.dictDef d).value (v.dictDef e).value, v)
  /-- Dictionaries with different equalities are named in the failure. -/
  | mixed {d e : DictDefId} {i : ItemId} {w : World} : w.equal (.dict d) (.dict e) = false →
      (w.dictDef d).customEqHash ≠ (w.dictDef e).customEqHash → i ∈ w.inside (.dict d) ++ w.inside (.dict e) →
      Asks k (.unite (.dict d) (.dict e), w) (.spell i, w)
  | items {i j : ItemId} {o : ListItem} {a : Annot} {w v : World} : i ≠ j →
      takeIn (roles w i j).1 (roles w i j).2 k w = .ok (o, a) v → Asks k (.merge i j, w) (.unite a o.value, v)
  | part {a x : Annot} {w : World} : x ∈ a.parts → Asks k (.text a, w) (.text x, w)
  | inside {a : Annot} {i : ItemId} {w : World} : i ∈ w.inside a → Asks k (.text a, w) (.spell i, w)
  | held {i : ItemId} {w : World} : Asks k (.spell i, w) (.text (w.item i).value, w)

namespace Task

/-- The items that a task is about. -/
def items? : Task → Option (ItemId × Option ItemId)
  | merge i j => some (i, some j)
  | spell i => some (i, none)
  | _ => none

theorem items?_inj {s t : Task} {c : ItemId × Option ItemId} (hs : s.items? = some c) (ht : t.items? = some c) : s = t := by
  unfold items? at hs ht
  split at hs <;> split at ht <;> cases hs <;> cases ht <;> rfl

/-- How much there is to go through until items are met. -/
noncomputable def size : Task → Nat
  | unite a _ => sizeOf a
  | each xs => sizeOf (xs.map Prod.fst)
  | text a => sizeOf a
  | _ => 0

/-- Tasks about items of a range. -/
def Ranged (n : Nat) : Task → Prop
  | merge i j => i < n ∧ j < n
  | spell i => i < n
  | _ => True

end Task

/-- Items come back among what is asked for on their account. -/
def ComesBack (k : Knot) (t : Task) (w : World) : Prop := ∃ (s : Task) (v v' : World), s.items?.isSome ∧
  ReflTransGen (Asks k) (t, w) (s, v) ∧ TransGen (Asks k) (s, v) (s, v')

/-! ## Asking comes to an end -/

theorem size_lt_of_asks {s t : Task} (h : Asks k (t, w) (s, v)) (ht : t.items? = .none) : s.size < t.size := by
  cases h with
  | tuple _ length =>
    simp only [Task.size, map_fst_zip (le_of_eq length), Annot.tuple.sizeOf_spec]
    omega
  | first | rest =>
    simp only [Task.size, map_cons, List.cons.sizeOf_spec]
    omega
  | iter =>
    simp only [Task.size, Annot.iter.sizeOf_spec]
    omega
  | method =>
    simp only [Task.size, Annot.method.sizeOf_spec]
    omega
  | list =>
    simp only [Task.size, Annot.list.sizeOf_spec]
    omega
  | keys | values | mixed =>
    simp only [Task.size, Annot.dict.sizeOf_spec]
    omega
  | part h => exact sizeOf_part h
  | inside h =>
    rename_i a _
    cases a with
    | list d =>
      simp only [Task.size, Annot.list.sizeOf_spec]
      omega
    | dict d =>
      simp only [Task.size, Annot.dict.sizeOf_spec]
      omega
    | _ => cases h
  | items | held => cases ht

theorem Confined.of_returns {α : Type} {f : Nat → Ana α} {x : α} (hf : ∀ m, Confined n (f m)) (h : Returns f k w (.ok x v))
    (hw : w.Ranged n) : v.Ranged n := by
  obtain ⟨N, h⟩ := h
  exact after_of_ok (h N (le_refl N)) ▸ (hf N k w hw).1

theorem inside_ranged (hw : w.Ranged n) (hi : i ∈ w.inside a) : i < n := by
  cases a with
  | list d =>
    change i ∈ (if w.isOwnElement d then [] else [w.listItemId d]) at hi
    split at hi
    · cases hi
    · rw [mem_singleton.1 hi]
      exact hw (.list d)
  | dict d =>
    rcases mem_pair.1 hi with rfl | rfl
    · exact hw (.key d)
    · exact hw (.value d)
  | _ => cases hi

theorem ranged_of_asks {s t : Task} (h : Asks k (t, w) (s, v)) (hw : w.Ranged n) : v.Ranged n ∧ s.Ranged n := by
  have union (m : Nat) (a b : Annot) : Confined n (unionAux m true a b) := .unionAux m true a b
  cases h with
  | tuple | first | iter | method | part | held => exact ⟨hw, trivial⟩
  | rest h => exact ⟨Confined.of_returns (fun m => union m _ _) h hw, trivial⟩
  | list => exact ⟨hw, hw (.list _), hw (.list _)⟩
  | keys => exact ⟨hw, hw (.key _), hw (.key _)⟩
  | values _ _ h =>
    have hv := Confined.of_returns (fun m => .mergeItems (union m) (hw (.key _)) (hw (.key _))) h hw
    exact ⟨hv, hv (.value _), hv (.value _)⟩
  | mixed _ _ h => exact ⟨hw, (mem_append.1 h).elim (inside_ranged hw) (inside_ranged hw)⟩
  | items _ h => exact ⟨after_of_ok h ▸ (Guards.takeIn (Confined.ofSlots_ranged n) _ _ k w hw).1, trivial⟩
  | inside h => exact ⟨hw, inside_ranged hw h⟩

/-- The items that a task may come to. -/
def comes (k : Knot) (t : Task) (w : World) : Set (ItemId × Option ItemId) := {c | ∃ s v, s.items? = some c ∧ ReflTransGen (Asks k) (t, w) (s, v)}

theorem comes_finite {t : Task} (hw : w.Ranged n) (ht : t.Ranged n) : (comes k t w).Finite := by
  have ranged {x y : Task × World} (h : ReflTransGen (Asks k) x y) (hx : x.2.Ranged n ∧ x.1.Ranged n) : y.2.Ranged n ∧ y.1.Ranged n := by
    induction h with
    | refl => exact hx
    | tail _ h ih => exact ranged_of_asks h ih.1
  have below : {i : ItemId | i < n}.Finite := Set.finite_lt_nat n
  have bounded : ({i : ItemId | i < n} ×ˢ insert .none (some '' {i : ItemId | i < n})).Finite := below.prod ((below.image some).insert .none)
  refine bounded.subset fun c hc => ?_
  obtain ⟨s, v, hs, path⟩ := hc
  have hs' := (ranged path ⟨hw, ht⟩).2
  cases s with
  | merge i j =>
    cases hs
    exact ⟨hs'.1, .inr ⟨j, hs'.2, rfl⟩⟩
  | spell i =>
    cases hs
    exact ⟨hs', .inl rfl⟩
  | _ => cases hs

theorem comes_subset {s t : Task} (h : Asks k (t, w) (s, v)) : comes k s v ⊆ comes k t w := fun _ ⟨r, u, hr, path⟩ => ⟨r, u, hr, .head h path⟩

/-- **Asking comes to an end** unless items come back: along the way there are fewer items that may be met, or less is left of
an annotation until one is. -/
theorem acc_of_not_comesBack {t : Task} (hw : w.Ranged n) (ht : t.Ranged n) (h : ¬ ComesBack k t w) : Acc (fun x y => Asks k y x) (t, w) := by
  induction hc : (comes k t w).ncard using Nat.strong_induction_on generalizing t w with | _ c outer => ?_
  induction hs : t.size using Nat.strong_induction_on generalizing t w with | _ m inner => ?_
  refine ⟨_, fun ⟨s, v⟩ ask => ?_⟩
  have finite := comes_finite (k := k) hw ht
  obtain ⟨hv, hs'⟩ := ranged_of_asks ask hw
  have again : ¬ ComesBack k s v := fun ⟨r, u, u', hr, path, back⟩ => h ⟨r, u, u', hr, .head ask path, back⟩
  cases e : t.items? with
  | none =>
    rcases Nat.lt_or_eq_of_le (Set.ncard_le_ncard (comes_subset ask) finite) with lt | eq
    · exact outer _ (hc ▸ lt) hv hs' again rfl
    · exact inner _ (hs ▸ size_lt_of_asks ask e) hv hs' again (eq.trans hc) rfl
  | some x =>
    have left : x ∉ comes k s v := by
      rintro ⟨r, u, hr, path⟩
      obtain rfl := Task.items?_inj e hr
      exact h ⟨t, w, u, by rw [e]; rfl, .refl, .head' ask path⟩
    have lt := Set.ncard_lt_ncard (Set.ssubset_iff_of_subset (comes_subset ask) |>.2 ⟨x, ⟨t, w, e, .refl⟩, left⟩) finite
    exact outer _ (hc ▸ lt) hv hs' again rfl

/-! ## Tasks that are done -/

/-- A task is done in the end. -/
def Task.Ends (k : Knot) : Task → World → Prop
  | .unite a b, w => Finishes (fun n => unionAux n true a b) k w
  | .each xs, w => Finishes (fun n => xs.mapM fun x => unionAux n true x.1 x.2) k w
  | .merge i j, w => Finishes (fun n => mergeItems (unionAux n true) i j) k w
  | .text a, w => w.Spelled a
  | .spell i, w => w.Spelled (w.item i).value

theorem finishes_of_own {α : Type} {m : Ana α} (h : Guards (fun _ => True) Own m) (k : Knot) (w : World) : Finishes (fun _ => m) k w :=
  .const fun v deep => by
    obtain ⟨_, _, e⟩ := (h k w trivial).2 tooDeep v deep
    cases e

theorem mergeItems_finishes (h : ∀ s v, Asks k (.merge i j, w) (s, v) → s.Ends k v) : Finishes (fun n => mergeItems (unionAux n true) i j) k w := by
  have absorb (hne : i ≠ j) : Finishes (fun n => absorbItem (unionAux n true) (roles w i j).1 (roles w i j).2) k w := by
    simp only [absorbItem_eq]
    refine .bind (finishes_of_own (.takeIn (fun _ _ _ _ => trivial) _ _) k w) fun x v hv => ?_
    obtain ⟨N, hv⟩ := hv
    exact .bind (h _ v (.items hne (hv N (le_refl N)))) fun _ u _ =>
      finishes_of_own (.settleItem (fun _ _ _ _ => trivial) (fun _ _ _ => trivial) _ _ _) k u
  exact .ite (fun hne => .get (.ite (fun _ => finishes_of_own (.fail _ _) k w) fun _ => absorb hne)) fun _ => .pure ()

theorem dictText_spelled {d : DictDefId} (h : ∀ i ∈ w.inside (.dict d), w.Spelled (w.item i).value) :
    ∃ N, ∀ n, N ≤ n → w.dictText n d = w.dictText N d := by
  obtain ⟨N, hk⟩ := h (w.dictDef d).key mem_cons_self
  obtain ⟨M, hv⟩ := h (w.dictDef d).value (mem_cons_of_mem _ mem_cons_self)
  have hN := le_max_left N M
  have hM := le_max_right N M
  refine ⟨max N M, fun n hn => ?_⟩
  unfold dictText
  dsimp only
  rw [hk n (le_trans hN hn), hv n (le_trans hM hn), hk _ hN, hv _ hM]

theorem mergeDicts_finishes {d e : DictDefId} (h : ∀ s v, Asks k (.unite (.dict d) (.dict e), w) (s, v) → s.Ends k v)
    (differ : w.equal (.dict d) (.dict e) = false) : Finishes (fun n => mergeDicts n (unionAux n true) d e) k w := by
  refine .get (.ite (fun same => absurd (same.symm.trans differ) nofun) fun _ => .ite (fun mixed => ?_) fun plain => ?_)
  · have mixed : (w.dictDef d).customEqHash ≠ (w.dictDef e).customEqHash := by simpa using mixed
    obtain ⟨N, hd⟩ := dictText_spelled fun i hi => h (.spell i) w (.mixed differ mixed (mem_append_left _ hi))
    obtain ⟨M, he⟩ := dictText_spelled fun i hi => h (.spell i) w (.mixed differ mixed (mem_append_right _ hi))
    refine ⟨.error (.union (w.dictText N d) (w.dictText M e) "mixing custom and default eq/hash dicts") w, ⟨max N M, fun n hn => ?_⟩,
      fun _ deep => by cases deep⟩
    change EStateM.Result.error (Failure.union (w.dictText n d) (w.dictText n e) _) w = _
    rw [hd n (le_trans (le_max_left N M) hn), he n (le_trans (le_max_right N M) hn)]
  · have plain : (w.dictDef d).customEqHash = (w.dictDef e).customEqHash := by simpa using plain
    exact .bind (h _ _ (.keys differ plain)) fun _ v hv => h _ _ (.values differ plain hv)

theorem union_finishes (h : ∀ s v, Asks k (.unite a b, w) (s, v) → s.Ends k v) : Finishes (fun n => unionAux n true a b) k w := by
  refine .succ ?_
  cases a, b using meet_cases with
  | bool c fs c' gs =>
    exact .bind (.of_settles (mergeFacts_settles fun x _ b => unionAux_settles x.value b) fun n => .mergeFacts _ fs gs) fun _ _ _ => .pure _
  | tuple t c xs t' c' ys =>
    refine .ite (fun _ => .pure _) fun tags => .ite (fun _ => .pure _) fun lengths => ?_
    exact .bind (h _ _ (.tuple (by simpa using tags) (Decidable.not_not.1 lengths))) fun xs v _ =>
      .of_total (.newTuple xs)
  | list d e =>
    simp only [unionAux]
    refine .get (.ite (fun _ => .pure _) fun differ => .ite (fun no => absurd no Bool.false_ne_true) fun _ => ?_)
    exact .bind (h _ _ (.list (by simpa using differ))) fun _ _ _ => .pure _
  | dict d e =>
    refine .get (.ite (fun _ => .pure _) fun differ => .ite (fun no => absurd no Bool.false_ne_true) fun _ => ?_)
    exact .bind (mergeDicts_finishes h (by simpa using differ)) fun _ _ _ => .pure _
  | iter a x b y =>
    refine .ite (fun _ => .pure _) fun same => ?_
    obtain rfl := Decidable.not_not.1 same
    exact .bind (h _ _ .iter) fun _ _ _ => .pure _
  | method x a y b =>
    simp only [unionAux]
    refine .ite (fun _ => .pure _) fun same => ?_
    obtain rfl := Decidable.not_not.1 same
    exact .bind (h _ _ .method) fun _ _ _ => .pure _
  | flat a b m total e =>
    simp only [e]
    exact .of_total total

theorem Task.ends_of_asks {t : Task} (h : ∀ s v, Asks k (t, w) (s, v) → s.Ends k v) : t.Ends k w := by
  cases t with
  | unite a b => exact union_finishes h
  | each xs =>
    cases xs with
    | nil => exact .pure []
    | cons x xs =>
      simp only [Task.Ends, mapM_cons]
      exact .bind (h _ _ .first) fun r v hr => .bind (h _ _ (.rest hr)) fun _ _ _ => .pure _
  | merge i j => exact mergeItems_finishes h
  | text a => exact spelled_of_parts (fun x hx => h _ _ (.part hx)) fun i hi => h _ _ (.inside hi)
  | spell i => exact h (.text (w.item i).value) w .held

/-- **A union returns** unless items come back: with enough levels it gives the same whatever their number, and does not run out of
them. -/
theorem union_returns (a b : Annot) (k : Knot) (w : World) (h : ¬ ComesBack k (.unite a b) w) : Finishes (fun n => unionAux n true a b) k w := by
  obtain ⟨n, hw⟩ := w.exists_ranged
  have all : ∀ x : Task × World, Acc (fun x y => Asks k y x) x → x.1.Ends k x.2 := by
    intro x acc
    induction acc with
    | intro x _ ih => exact Task.ends_of_asks fun s v ask => ih (s, v) ask
  exact all (.unite a b, w) (acc_of_not_comesBack hw trivial h)

/-! ## Two lists -/

/-- Two lists, by what their elements are; `hs` are the slots that the item of the first one knows of. -/
def twoLists (a b : Annot) (hs : List Holder) : World :=
  { items := #[{ value := a, holders := hs }, { value := b, holders := [.list 1] }], listDefs := #[0, 1] }

theorem takeIn_twoLists (a b : Annot) (hs : List Holder) (k : Knot) : takeIn 0 1 k (twoLists a b hs) =
    .ok ({ value := b, holders := [.list 1] }, a) (twoLists a b ([.list 1] ++ hs)) := by
  rfl

/-- A list that is its own element meets an empty one. -/
theorem union_returns_emptyList : ¬ ComesBack idle (.unite (.list 0) (.list 1)) (twoLists (.list 0) .impossible [.list 0]) ∧
    Finishes (fun n => unionAux n true (.list 0) (.list 1)) idle (twoLists (.list 0) .impossible [.list 0]) := by
  have last {w : World} {x : Task × World} : ¬ Asks idle (.unite (.list 0) .impossible, w) x := nofun
  have once {w : World} {x : Task × World} (hw : w = twoLists (.list 0) .impossible [.list 0]) (h : Asks idle (.merge 0 1, w) x) :
      x = (.unite (.list 0) .impossible, twoLists (.list 0) .impossible [.list 1, .list 0]) := by
    subst hw
    cases h with
    | items _ h =>
      cases (takeIn_twoLists _ _ _ _).symm.trans h
      rfl
  have never : ¬ ComesBack idle (.unite (.list 0) (.list 1)) (twoLists (.list 0) .impossible [.list 0]) := by
    rintro ⟨s, v, v', shared, path, back⟩
    rcases ReflTransGen.cases_head path with e | ⟨x, ask, path⟩
    · cases e
      cases shared
    cases ask with
    | list _ =>
      rcases ReflTransGen.cases_head path with e | ⟨y, ask, path⟩
      · obtain ⟨x, ask, path⟩ := TransGen.head'_iff.1 back
        cases e
        obtain rfl := once rfl ask
        rcases ReflTransGen.cases_head path with e | ⟨_, ask, -⟩
        · cases e
        · exact last ask
      · obtain rfl := once rfl ask
        rcases ReflTransGen.cases_head path with e | ⟨_, ask, -⟩
        · cases e
          cases shared
        · exact last ask
  exact ⟨never, union_returns _ _ _ _ never⟩

/-- Two lists that are their own elements are merged over and over. -/
theorem tooDeep_twoLists (n : Nat) (hs : List Holder) (k : Knot) :
    ∃ v, unionAux n true (.list 0) (.list 1) k (twoLists (.list 0) (.list 1) hs) = .error tooDeep v := by
  induction n generalizing hs with
  | zero => exact ⟨_, rfl⟩
  | succ n ih =>
    obtain ⟨v, hv⟩ := ih ([.list 1] ++ hs)
    refine ⟨v, ?_⟩
    have absorb : absorbItem (unionAux n true) 0 1 k (twoLists (.list 0) (.list 1) hs) = .error tooDeep v := by
      rw [absorbItem_eq, bind_of_ok (takeIn_twoLists _ _ _ _)]
      exact bind_of_error hv
    have merge : mergeItems (unionAux n true) 0 1 k (twoLists (.list 0) (.list 1) hs) = .error tooDeep v := by
      exact absorb
    rw [unionAux]
    change (mergeItems (unionAux n true) 0 1 >>= fun _ => pure (Annot.list 0)) k (twoLists (.list 0) (.list 1) hs) = _
    exact bind_of_error merge

theorem union_endless : ¬ Finishes (fun n => unionAux n true (.list 0) (.list 1)) idle (twoLists (.list 0) (.list 1) [.list 0]) := by
  rintro ⟨r, ⟨N, h⟩, deep⟩
  obtain ⟨v, hv⟩ := tooDeep_twoLists N [.list 0] idle
  exact deep v ((h N (le_refl N)).symm.trans hv)

end Ana
end FlowCompiler
