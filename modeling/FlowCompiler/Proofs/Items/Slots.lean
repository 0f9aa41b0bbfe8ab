import FlowCompiler.Proofs.Steps.Unions

/-!
# Slots of lists and dictionaries

A list has a slot for its elements, a dictionary one for its keys and one for its values.  Every slot stands for an
item, and slots that have been merged stand for the same one.

Merging changes the items of slots, points slots at other items and has readers analysed again; what each of these
does to slots is said here.
-/

namespace FlowCompiler

open Ana List Array

variable {i : ItemId} {b : BlockId} {j : ItemId}

namespace World

variable {w w' w'' : World} {g h h' : Holder}

/-! ## Slots -/

/-- Whether the definition of a slot has been made. -/
def HasSlot (w : World) : Holder → Prop
  | .list d => d < w.listDefs.size
  | .key d | .value d => d < w.dictDefs.size

/-- The item that a slot stands for. -/
def slot (w : World) : Holder → ItemId
  | .list d => w.listItemId d
  | .key d => (w.dictDef d).key
  | .value d => (w.dictDef d).value

/-- What is known of a slot. -/
def held (w : World) (h : Holder) : ListItem := w.item (w.slot h)

/-- Slots that share an item. -/
structure Joined (w : World) (g h : Holder) : Prop where
  left : w.HasSlot g
  right : w.HasSlot h
  slot : w.slot g = w.slot h

theorem Joined.refl (h : w.HasSlot g) : w.Joined g g := ⟨h, h, rfl⟩

theorem Joined.symm (j : w.Joined g h) : w.Joined h g := ⟨j.right, j.left, j.slot.symm⟩

theorem Joined.trans (j : w.Joined g h) (j' : w.Joined h h') : w.Joined g h' := ⟨j.left, j'.right, j.slot.trans j'.slot⟩

theorem Joined.held (j : w.Joined g h) : w.held g = w.held h := congrArg w.item j.slot

/-- The same definitions, with the same items. -/
structure SameSlots (w w' : World) : Prop where
  listDefs : w'.listDefs = w.listDefs
  dictDefs : w'.dictDefs = w.dictDefs

namespace SameSlots

theorem refl (w : World) : w.SameSlots w := ⟨rfl, rfl⟩

theorem trans (s : w.SameSlots w') (s' : w'.SameSlots w'') : w.SameSlots w'' := ⟨s'.listDefs.trans s.listDefs, s'.dictDefs.trans s.dictDefs⟩

theorem hasSlot (s : w.SameSlots w') (h : Holder) : w'.HasSlot h ↔ w.HasSlot h := by
  cases h <;> simp only [HasSlot, s.listDefs, s.dictDefs]

theorem slot (s : w.SameSlots w') (h : Holder) : w'.slot h = w.slot h := by
  cases h <;> simp only [World.slot, listItemId, dictDef, s.listDefs, s.dictDefs]

theorem joined (s : w.SameSlots w') (g h : Holder) : w'.Joined g h ↔ w.Joined g h :=
  ⟨fun j => ⟨(s.hasSlot g).1 j.left, (s.hasSlot h).1 j.right, (s.slot g).symm.trans (j.slot.trans (s.slot h))⟩,
    fun j => ⟨(s.hasSlot g).2 j.left, (s.hasSlot h).2 j.right, (s.slot g).trans (j.slot.trans (s.slot h).symm)⟩⟩

end SameSlots

/-! ## Items -/

theorem item_updateItem (w : World) (i j : ItemId) (f : ListItem → ListItem) :
    (w.updateItem i f).item j = if i = j ∧ i < w.items.size then f (w.item i) else w.item j := by
  simp only [item, updateItem, Array.getElem?_modify]
  by_cases e : i = j
  · subst e
    by_cases hi : i < w.items.size
    · simp [hi]
    · simp [hi]
  · simp [e]

section

variable (w : World) (i : ItemId) (f : ListItem → ListItem)

theorem sameSlots_updateItem : w.SameSlots (w.updateItem i f) := ⟨rfl, rfl⟩

theorem later_updateItem : w.Later (w.updateItem i f) := ⟨rfl, rfl, prefix_refl _, Nat.le_refl _⟩

theorem size_updateItem : (w.updateItem i f).items.size = w.items.size := by
  simp [updateItem]

end

theorem updateItem_updateItem (w : World) (i : ItemId) (f f' : ListItem → ListItem) :
    (w.updateItem i f).updateItem i f' = w.updateItem i (f' ∘ f) := by
  have e : (w.items.modify i f).modify i f' = w.items.modify i (f' ∘ f) := by
    refine Array.ext_getElem? fun j => ?_
    simp only [Array.getElem?_modify]
    split <;> simp
  simp only [updateItem, e]

theorem updateItem_eq_self {f : ListItem → ListItem} (h : f (w.item i) = w.item i) : w.updateItem i f = w := by
  have e : w.items.modify i f = w.items := by
    refine Array.ext_getElem? fun j => ?_
    simp only [Array.getElem?_modify]
    split
    · rename_i e
      subst e
      cases hi : w.items[i]? with
      | none => rfl
      | some it =>
        rw [item, hi] at h
        exact congrArg some h
    · rfl
  simp only [updateItem, e]

/-! ## Pointing slots at an item -/

/-- The state in which a slot stands for an item. -/
def point (i : ItemId) (w : World) : Holder → World
  | .list d => { w with listDefs := w.listDefs.setIfInBounds d i }
  | .key d => { w with dictDefs := w.dictDefs.modify d fun k => { k with key := i } }
  | .value d => { w with dictDefs := w.dictDefs.modify d fun k => { k with value := i } }

theorem hasSlot_point (w : World) (i : ItemId) (g h : Holder) : (point i w g).HasSlot h ↔ w.HasSlot h := by
  cases g <;> cases h <;> simp [point, HasSlot]

theorem dictDef_modify {d : DictDefId} (hd : d < w.dictDefs.size) (e : DictDefId) (f : DictDef → DictDef) :
    { w with dictDefs := w.dictDefs.modify e f }.dictDef d = if e = d then f (w.dictDef d) else w.dictDef d := by
  simp only [dictDef, Array.getElem?_modify]
  split <;> simp [hd]

theorem slot_point (hh : w.HasSlot h) (i : ItemId) (g : Holder) : (point i w g).slot h = if g = h then i else w.slot h := by
  cases h with
  | list d =>
    have hd : d < w.listDefs.size := hh
    cases g with
    | list e =>
      simp only [point, slot, listItemId, getElem?_setIfInBounds, Holder.list.injEq]
      split
      · rename_i e'
        subst e'
        simp [hd]
      · rfl
    | key e => rfl
    | value e => rfl
  | key d =>
    cases g with
    | list e => rfl
    | key e =>
      simp only [point, slot, dictDef_modify hh, Holder.key.injEq]
      split <;> rfl
    | value e =>
      simp only [point, slot, dictDef_modify hh, reduceCtorEq, if_false]
      split <;> rfl
  | value d =>
    cases g with
    | list e => rfl
    | key e =>
      simp only [point, slot, dictDef_modify hh, reduceCtorEq, if_false]
      split <;> rfl
    | value e =>
      simp only [point, slot, dictDef_modify hh, Holder.value.injEq]
      split <;> rfl

theorem point_eq (w : World) (i : ItemId) (g : Holder) :
    w.Later (point i w g) ∧ (point i w g).items = w.items ∧ (point i w g).progress = w.progress := by
  cases g <;> exact ⟨⟨rfl, rfl, prefix_refl _, Nat.le_refl _⟩, rfl, rfl⟩

theorem foldl_point_eq (hs : List Holder) (w : World) (i : ItemId) : w.Later (hs.foldl (point i) w) ∧
    (hs.foldl (point i) w).items = w.items ∧ (hs.foldl (point i) w).progress = w.progress := by
  induction hs generalizing w with
  | nil => exact ⟨.refl w, rfl, rfl⟩
  | cons g hs ih =>
    obtain ⟨l, hi, hp⟩ := w.point_eq i g
    obtain ⟨l', hi', hp'⟩ := ih (point i w g)
    exact ⟨l.trans l', hi'.trans hi, hp'.trans hp⟩

theorem hasSlot_foldl_point (hs : List Holder) (w : World) (i : ItemId) (h : Holder) : (hs.foldl (point i) w).HasSlot h ↔ w.HasSlot h := by
  induction hs generalizing w with
  | nil => rfl
  | cons g hs ih => exact (ih _).trans (hasSlot_point w i g h)

theorem slot_foldl_point (hs : List Holder) (i : ItemId) (hh : w.HasSlot h) : (hs.foldl (point i) w).slot h = if h ∈ hs then i else w.slot h := by
  induction hs generalizing w with
  | nil => simp
  | cons g hs ih =>
    rw [foldl_cons, ih ((hasSlot_point w i g h).2 hh), slot_point hh]
    by_cases e : g = h
    · simp [e]
    · simp [e, Ne.symm e]

/-! ## Waiting -/

/-- A position that has been analysed waits to be analysed again. -/
def Waits (w : World) (p : PosKey) : Prop := ∀ g b, p.graph = some g → p.block = some b → w.progress.attached = true →
  b ∈ w.progress.annotated → w.progress.annotated[b]? = some none ∧ b ∈ w.progress.pending

/-- A later state with the same definitions and items, in which more positions may wait. -/
structure Roused (w w' : World) : Prop extends w.SameSlots w' where
  later : w.Later w'
  items : w'.items = w.items
  waits : ∀ p, w.Waits p → w'.Waits p

namespace Roused

theorem refl (w : World) : w.Roused w := ⟨.refl w, .refl w, rfl, fun _ => id⟩

theorem trans (r : w.Roused w') (r' : w'.Roused w'') : w.Roused w'' :=
  ⟨r.toSameSlots.trans r'.toSameSlots, r.later.trans r'.later, r'.items.trans r.items, fun p hp => r'.waits p (r.waits p hp)⟩

theorem item (r : w.Roused w') (i : ItemId) : w'.item i = w.item i := by rw [World.item, World.item, r.items]

theorem held (r : w.Roused w') (h : Holder) : w'.held h = w.held h := by rw [World.held, World.held, r.slot, r.item]

theorem of_eq (hl : w.Later w') (h₁ : w'.items = w.items) (h₂ : w'.listDefs = w.listDefs) (h₃ : w'.dictDefs = w.dictDefs)
    (h₄ : w'.progress = w.progress) : w.Roused w' := ⟨⟨h₂, h₃⟩, hl, h₁, fun p hw => by rwa [Waits, h₄]⟩

end Roused

end World

namespace Ana

open World

variable {w w' : World} {k : Knot}

/-- The state in which a block waits. -/
def rouse (g : GraphId) (b : BlockId) (w : World) : World := w.updateProgress fun p =>
  let p := { p with annotated := p.annotated.insert b none }
  if p.pending.contains b then p else { p with pending := p.pending.insert b g, queueBack := b :: p.queueBack }

theorem roused_rouse (w : World) (g : GraphId) (hb : b ∈ w.progress.annotated) : w.Roused (rouse g b w) := by
  have key (q : Progress) (hq : q = (rouse g b w).progress) : q.attached = w.progress.attached ∧
      q.annotated = w.progress.annotated.insert b none ∧ ∀ c, c ∈ q.pending ↔ c = b ∨ c ∈ w.progress.pending := by
    subst hq
    unfold rouse updateProgress
    dsimp only
    split
    · rename_i h
      refine ⟨rfl, rfl, fun c => ⟨.inr, ?_⟩⟩
      rintro (rfl | h')
      · exact h
      · exact h'
    · exact ⟨rfl, rfl, fun c => by rw [Std.HashMap.mem_insert, beq_iff_eq, eq_comm]⟩
  obtain ⟨ha, hm, hp⟩ := key _ rfl
  refine ⟨⟨rfl, rfl⟩, ⟨rfl, rfl, prefix_refl _, Nat.le_refl _⟩, rfl, fun p hw g' c hg hc hat hmem => ?_⟩
  rw [ha] at hat
  rw [hm, hp]
  by_cases e : b = c
  · subst e
    simp
  · have hmem : c ∈ w.progress.annotated := by simpa [hm, e] using hmem
    obtain ⟨h₁, h₂⟩ := hw g' c hg hc hat hmem
    exact ⟨by simpa [Std.HashMap.getElem?_insert, e] using h₁, .inr h₂⟩

theorem waits_rouse (w : World) (g : GraphId) {p : PosKey} (hb : p.block = some b) : (rouse g b w).Waits p := by
  intro g' c hg hc hat hmem
  obtain rfl : b = c := Option.some.inj (hb.symm.trans hc)
  unfold rouse updateProgress
  dsimp only
  split
  · rename_i h
    exact ⟨by simp, h⟩
  · simp

theorem reflow_ok (p : PosKey) (k : Knot) (w : World) : ∃ w', reflow p k w = .ok () w' ∧ w.Roused w' ∧ w'.Waits p := by
  have still (hne : ∀ g b, p.graph = some g → p.block = some b → ¬ (w.progress.attached = true ∧ b ∈ w.progress.annotated)) :
      w.Waits p := fun g b hg hb hat hmem => absurd ⟨hat, hmem⟩ (hne g b hg hb)
  unfold reflow
  rcases hg : p.graph with - | g
  · exact ⟨w, rfl, .refl w, still fun g b hg' => by rw [hg] at hg'; cases hg'⟩
  rcases hb : p.block with - | b
  · exact ⟨w, rfl, .refl w, still fun g b _ hb' => by rw [hb] at hb'; cases hb'⟩
  dsimp only
  rw [bind_of_ok (m := get) rfl]
  split
  · rename_i h
    rw [Bool.and_eq_true] at h
    exact ⟨rouse g b w, rfl, roused_rouse w g h.2, waits_rouse w g hb⟩
  · rename_i h
    rw [Bool.and_eq_true] at h
    refine ⟨w, rfl, .refl w, still fun g' c _ hc => ?_⟩
    obtain rfl : b = c := Option.some.inj (hb.symm.trans hc)
    exact h

theorem reflowAll_ok (ps : Array PosKey) (k : Knot) (w : World) : ∃ w', reflowAll ps k w = .ok () w' ∧ w.Roused w' ∧ ∀ p ∈ ps, w'.Waits p := by
  have each (xs : List PosKey) (w : World) : ∃ w', xs.forM reflow k w = .ok () w' ∧ w.Roused w' ∧ ∀ p ∈ xs, w'.Waits p := by
    induction xs generalizing w with
    | nil => exact ⟨w, rfl, .refl w, by simp⟩
    | cons x xs ih =>
      obtain ⟨w₁, h₁, r₁, hx⟩ := reflow_ok x k w
      obtain ⟨w₂, h₂, r₂, hxs⟩ := ih w₁
      refine ⟨w₂, (bind_of_ok h₁).trans h₂, r₁.trans r₂, fun p hp => ?_⟩
      rcases mem_cons.1 hp with rfl | hp
      · exact r₂.waits p hx
      · exact hxs p hp
  obtain ⟨w', h, r, hw⟩ := each ps.toList w
  refine ⟨w', ?_, r, fun p hp => hw p (mem_toList_iff.2 hp)⟩
  exact (congrFun (congrFun (forM_toArray ps.toList reflow) k) w).trans h

/-! ## Steps -/

theorem patchHolders_eq (i : ItemId) (k : Knot) (w : World) : patchHolders i k w = .ok () ((w.item i).holders.foldl (point i) w) := by
  have agree {f : World → Holder → World} (hf : ∀ w h, f w h = point i w h) :
      (w.item i).holders.foldl f w = (w.item i).holders.foldl (point i) w := by
    rw [show f = point i from funext fun w => funext (hf w)]
  exact congrArg (EStateM.Result.ok ()) (agree fun w h => by cases h <;> rfl)

theorem growItem_ok (i : ItemId) (a : Annot) (k : Knot) (w : World) : ∃ w', growItem i a k w = .ok () w' ∧ (w.updateItem i fun it =>
    { it with value := a }).Roused w' ∧ ∀ p ∈ ((w.updateItem i fun it => { it with value := a }).item i).reads, w'.Waits p := by
  obtain ⟨w', h, r, hw⟩ := reflowAll_ok ((w.updateItem i fun it => { it with value := a }).item i).reads k
    (w.updateItem i fun it => { it with value := a })
  exact ⟨w', h, r, hw⟩

theorem mem_insertPos {ps : Array PosKey} {p q : PosKey} : q ∈ insertPos ps p ↔ q ∈ ps ∨ q = p := by
  unfold insertPos
  split
  · rename_i h
    refine ⟨.inl, ?_⟩
    rintro (hq | rfl)
    · exact hq
    · simpa using h
  · simp

theorem mem_insertPositions {ps qs : Array PosKey} {q : PosKey} : q ∈ insertPositions ps qs ↔ q ∈ ps ∨ q ∈ qs := by
  have fold (xs : List PosKey) (ps : Array PosKey) : q ∈ xs.foldl insertPos ps ↔ q ∈ ps ∨ q ∈ xs := by
    induction xs generalizing ps with
    | nil => simp
    | cons x xs ih => rw [foldl_cons, ih, mem_insertPos, mem_cons, or_assoc]
  rw [insertPositions, ← foldl_toList, fold, mem_toList_iff]

/-- What an item is when it has taken the flags of another one. -/
structure Took (s o it : ListItem) : Prop where
  value : it.value = s.value
  holders : it.holders = s.holders
  reads : it.reads = s.reads
  mutated : it.mutated = (s.mutated || o.mutated)
  resized : it.resized = (s.resized || o.resized)
  immutable : it.immutable = (s.immutable && o.immutable)

theorem of_setStep {step : Int} (h : setStep i step k w = .ok () w') : ∃ f, w' = w.updateItem i f ∧ ∀ s, ∃ n, f s = { s with step := n } := by
  obtain ⟨w₀, w₁, h₀, h⟩ := of_bind_ok h
  cases h₀
  dsimp only at h
  split at h
  · split at h
    · obtain ⟨_, w₁, h₁, -⟩ := of_bind_ok h
      cases h₁
    · cases h
      exact ⟨_, rfl, fun s => ⟨step, rfl⟩⟩
  · cases h
    exact ⟨id, (updateItem_eq_self rfl).symm, fun s => ⟨s.step, rfl⟩⟩

theorem of_mergeFlags (h : mergeFlags i j k w = .ok () w') : ∃ f, w' = w.updateItem i f ∧ ∀ s, Took s (w.item j) (f s) := by
  obtain ⟨w₀, w₁, h₀, h⟩ := of_bind_ok h
  cases h₀
  obtain ⟨_, w₁, h₁, h⟩ := of_bind_ok h
  cases h₁
  obtain ⟨w₂, w₃, h₂, h⟩ := of_bind_ok h
  cases h₂
  dsimp only at h
  split at h
  · obtain ⟨_, w₁, h₁, -⟩ := of_bind_ok h
    cases h₁
  · split at h
    · obtain ⟨f, rfl, hf⟩ := of_setStep h
      rw [updateItem_updateItem]
      refine ⟨_, rfl, fun s => ?_⟩
      obtain ⟨n, e⟩ := hf _
      rw [Function.comp_apply, e]
      exact ⟨rfl, rfl, rfl, rfl, rfl, rfl⟩
    · cases h
      exact ⟨_, rfl, fun s => ⟨rfl, rfl, rfl, rfl, rfl, rfl⟩⟩

/-- What an item is when it has taken another one in, except for its annotation. -/
structure Absorbed (s o it : ListItem) : Prop where
  value : it.value = s.value
  holders : ∀ g, g ∈ it.holders ↔ g ∈ s.holders ∨ g ∈ o.holders
  reads : ∀ p, p ∈ it.reads ↔ p ∈ s.reads ∨ p ∈ o.reads
  mutated : it.mutated = (s.mutated || o.mutated)
  resized : it.resized = (s.resized || o.resized)
  immutable : it.immutable = (s.immutable && o.immutable)

theorem Absorbed.self (it : ListItem) : Absorbed it it it :=
  ⟨rfl, fun _ => or_self_iff.symm, fun _ => or_self_iff.symm, (Bool.or_self _).symm, (Bool.or_self _).symm, (Bool.and_self _).symm⟩

/-- The rest of a merger, when the union of what two items hold has been made. -/
def settleItem (self : ItemId) (o : ListItem) (value merged : Annot) : Ana Unit := do
  let changed := !(← get).equal merged value
  if changed && ((← get).item self).frozen then tooLate "list (item)"
  patchHolders self
  if changed then growItem self merged
  if !(← get).equal merged o.value then reflowAll o.reads

/-- One item takes another one in. -/
def absorbItem (union : Annot → Annot → Ana Annot) (self other : ItemId) : Ana Unit := do
  mergeFlags self other
  let o := (← get).item other
  setItem self fun s => { s with holders := o.holders ++ s.holders, reads := insertPositions s.reads o.reads }
  let value := ((← get).item self).value
  let merged ← union value o.value
  settleItem self o value merged

theorem of_mergeItems {u : Annot → Annot → Ana Annot} (h : mergeItems u i j k w = .ok () w') :
    (i = j ∧ w' = w) ∨ i ≠ j ∧ (absorbItem u i j k w = .ok () w' ∨ absorbItem u j i k w = .ok () w') := by
  unfold mergeItems at h
  split at h
  · rename_i hne
    obtain ⟨w₀, w₁, h₀, h⟩ := of_bind_ok h
    cases h₀
    refine .inr ⟨hne, ?_⟩
    dsimp only at h
    split at h
    · obtain ⟨_, w₁, h₁, -⟩ := of_bind_ok h
      cases h₁
    · by_cases hj : (w.item j).frozen = true
      · rw [if_pos hj] at h
        exact .inr h
      · rw [if_neg hj] at h
        exact .inl h
  · rename_i e
    cases h
    exact .inl ⟨Decidable.not_not.1 e, rfl⟩

/-- What becomes of the items when one takes another one in and the union of what they hold has been made. -/
structure Settled (i : ItemId) (o : ListItem) (u : World) (value r v : Annot) (u' w' : World) : Prop where
  patched : (((u.item i).holders.foldl (point i) u).updateItem i fun it => { it with value := v }).Roused u'
  rest : u'.Roused w'
  value : (v = r ∧ ∀ p ∈ (u.item i).reads, u'.Waits p) ∨ (v = (u.item i).value ∧ u.equal r value = true)
  told : u'.equal r o.value = true ∨ ∀ p ∈ o.reads, w'.Waits p

theorem of_settleItem {o : ListItem} {value r : Annot} (hi : i < w.items.size)
    (h : settleItem i o value r k w = .ok () w') : ∃ v u', Settled i o w value r v u' w' := by
  have last {u' : World} (h : (do
      if !(← get).equal r o.value then reflowAll o.reads : Ana Unit) k u' = .ok () w') :
      u'.Roused w' ∧ (u'.equal r o.value = true ∨ ∀ p ∈ o.reads, w'.Waits p) := by
    obtain ⟨w₀, w₁, h₀, h⟩ := of_bind_ok h
    cases h₀
    split at h
    · obtain ⟨w₁, h₁, r₁, hw⟩ := reflowAll_ok o.reads k u'
      rw [h₁] at h
      cases h
      exact ⟨r₁, .inr hw⟩
    · rename_i e
      cases h
      exact ⟨.refl _, .inl (by simpa using e)⟩
  obtain ⟨w₀, w₁, h₀, h⟩ := of_bind_ok h
  cases h₀
  obtain ⟨w₀, w₁, h₀, h⟩ := of_bind_ok h
  cases h₀
  dsimp only at h
  split at h
  · obtain ⟨_, w₁, h₁, -⟩ := of_bind_ok h
    cases h₁
  · obtain ⟨_, w₁, h₁, h⟩ := of_bind_ok h
    rw [patchHolders_eq] at h₁
    cases h₁
    have hsame : ((w.item i).holders.foldl (point i) w).item i = w.item i := by
      rw [item, item, (foldl_point_eq _ w i).2.1]
    split at h
    · obtain ⟨_, w₁, h₁, h⟩ := of_bind_ok h
      obtain ⟨w₂, h₂, r₂, hw⟩ := growItem_ok i r k ((w.item i).holders.foldl (point i) w)
      rw [h₂] at h₁
      cases h₁
      obtain ⟨rest, told⟩ := last h
      refine ⟨r, w₁, r₂, rest, .inl ⟨rfl, ?_⟩, told⟩
      rw [item_updateItem, hsame, if_pos ⟨rfl, (foldl_point_eq _ w i).2.1 ▸ hi⟩] at hw
      exact hw
    · rename_i e
      obtain ⟨rest, told⟩ := last h
      refine ⟨(w.item i).value, _, ?_, rest, .inr ⟨rfl, by simpa using e⟩, told⟩
      rw [updateItem_eq_self]
      · exact .refl _
      · rw [hsame]

theorem of_absorbItem {union : Annot → Annot → Ana Annot} (hne : i ≠ j) (hi : i < w.items.size)
    (h : absorbItem union i j k w = .ok () w') : ∃ f r u, (∀ s, Absorbed s (w.item j) (f s)) ∧
      union (w.item i).value (w.item j).value k (w.updateItem i f) = .ok r u ∧
      settleItem i (w.item j) (w.item i).value r k u = .ok () w' := by
  obtain ⟨_, w₁, h₁, h⟩ := of_bind_ok h
  obtain ⟨f, rfl, hf⟩ := of_mergeFlags h₁
  obtain ⟨w₀, w₁, h₀, h⟩ := of_bind_ok h
  cases h₀
  obtain ⟨_, w₁, h₂, h⟩ := of_bind_ok h
  cases h₂
  obtain ⟨w₀, w₁, h₀, h⟩ := of_bind_ok h
  cases h₀
  obtain ⟨r, u, hu, h⟩ := of_bind_ok h
  have ho : (w.updateItem i f).item j = w.item j := by rw [item_updateItem, if_neg fun e => hne e.1]
  have hs (F : ListItem → ListItem) : (w.updateItem i F).item i = F (w.item i) := by rw [item_updateItem, if_pos ⟨rfl, hi⟩]
  dsimp only at hu h
  rw [ho] at hu h
  rw [updateItem_updateItem, hs] at hu h
  simp only [Function.comp_apply, (hf (w.item i)).value] at hu h
  refine ⟨_, r, u, fun s => ?_, hu, h⟩
  obtain ⟨value, holders, reads, mutated, resized, immutable⟩ := hf s
  refine ⟨value, fun g => ?_, fun p => ?_, mutated, resized, immutable⟩
  · simp [holders, or_comm]
  · simp [mem_insertPositions, reads]

/-! ## Steps that change no slot -/

/-- A step that only has readers analysed again, if anything. -/
def Quiet {α : Type} (m : Ana α) : Prop := ∀ k w a w', m k w = .ok a w' → w.Roused w'

namespace Quiet

variable {α β : Type}

theorem pure (a : α) : Quiet (.pure a : Ana α) := by
  intro k w b w' h
  cases h
  exact .refl w

theorem modifyGet {f : World → α × World} (hf : ∀ w : World, w.Roused (f w).2) : Quiet (MonadState.modifyGet f : Ana α) := by
  intro k w b w' h
  cases h
  exact hf w

theorem bind {m : Ana α} {f : α → Ana β} (hm : Quiet m) (hf : ∀ a, Quiet (f a)) : Quiet (m >>= f) := by
  intro k w b w' h
  obtain ⟨a, w₁, h₁, h₂⟩ := of_bind_ok h
  exact (hm k w a w₁ h₁).trans (hf a k w₁ b w' h₂)

theorem mapM {xs : List α} {f : α → Ana β} (h : ∀ x ∈ xs, Quiet (f x)) : Quiet (xs.mapM f) := by
  induction xs with
  | nil => exact pure _
  | cons x xs ih =>
    rw [mapM_cons]
    exact bind (h x (by simp)) fun _ => bind (ih fun y hy => h y (by simp [hy])) fun _ => pure _

theorem get : Quiet (MonadState.get : Ana World) := by
  intro k w b w' h
  cases h
  exact .refl w

theorem addObject (o : HostObject) : Quiet (.addObject o) := modifyGet fun _ => .of_eq ⟨rfl, rfl, prefix_refl _, Nat.le_refl _⟩ rfl rfl rfl rfl

theorem constOf (a : Annot) : Quiet (.constOf a) := by
  have value (d : DescId) : Quiet (valueOfDesc d) := by
    refine bind get fun w => ?_
    split
    case h_5 =>
      split
      · exact bind (addObject _) fun _ => pure _
      · exact pure _
    all_goals exact pure _
  unfold Ana.constOf
  split
  all_goals first | exact value _ | exact pure _

theorem newTuple (xs : List Annot) : Quiet (.newTuple xs) := by
  refine bind (modifyGet fun _ => .of_eq ⟨rfl, rfl, prefix_refl _, Nat.le_succ _⟩ rfl rfl rfl rfl) fun t => ?_
  split
  · exact bind (mapM fun a _ => constOf a) fun _ => bind (addObject _) fun _ => pure _
  · exact pure _

end Quiet
end Ana
end FlowCompiler
