import FlowCompiler.Proofs.Items.Slots
import FlowCompiler.Proofs.Union.Absorb

/-!
# What annotations share

A join says which of two lists that meet is kept, and nothing of their items.  Two annotations have been merged when the
slots that they have at the same place share an item; an annotation covers another one when it is above it and has been
merged with it.  What covers stays above while more and more slots are merged, and is above in the eyes of the analysis:
testing for it has no side effects.
-/

namespace FlowCompiler.Annot

open Ana List Nat

variable {S : Scope} {w w' : World} {a b c : Annot} {g h : Holder}
variable {i : Nat} {k : Knot} {v : String} {x : String} {xs ys : List Annot}

/-! ## Places -/

/-- One step into an annotation.  Annotations that differ in what is said here have only the top in common. -/
inductive Part where
  | element
  | key
  | value
  | item (length index : Nat)
  | within (variant : String)
  | receiver (name : String)

/-- The slot at a place of an annotation. -/
inductive At : Annot → List Part → Holder → Prop
  | list (d : ListDefId) : At (list d) [.element] (.list d)
  | key (d : DictDefId) : At (dict d) [.key] (.key d)
  | value (d : DictDefId) : At (dict d) [.value] (.value d)
  | tuple {t : Nat} {o : Option ObjId} {xs : List Annot} {i : Nat} {x : Annot} {p : List Part} {h : Holder} (hx : xs[i]? = some x)
    (hp : At x p h) : At (tuple t o xs) (.item xs.length i :: p) h
  | iter {c : Annot} {v : String} {p : List Part} {h : Holder} (hp : At c p h) : At (iter c v) (.within v :: p) h
  | method {x : String} {s : Annot} {p : List Part} {h : Holder} (hp : At s p h) : At (method x s) (.receiver x :: p) h

variable {p : List Part}

theorem At.unique (hg : At a p g) (hh : At a p h) : g = h := by
  induction hg with
  | list d => cases hh; rfl
  | key d => cases hh; rfl
  | value d => cases hh; rfl
  | tuple hx _ ih =>
    cases hh with
    | tuple hy hp =>
      obtain rfl := Option.some.inj (hx.symm.trans hy)
      exact ih hp
  | iter _ ih =>
    cases hh with
    | iter hp => exact ih hp
  | method _ ih =>
    cases hh with
    | method hp => exact ih hp

theorem at_item {n i : Nat} (h : At a (.item n i :: p) g) : ∃ t o xs x, a = tuple t o xs ∧ n = xs.length ∧ xs[i]? = some x ∧ At x p g := by
  cases h with
  | tuple hx hp => exact ⟨_, _, _, _, rfl, rfl, hx, hp⟩

theorem at_within (h : At a (.within v :: p) g) : ∃ c, a = iter c v ∧ At c p g := by
  cases h with
  | iter hp => exact ⟨_, rfl, hp⟩

theorem at_receiver (h : At a (.receiver x :: p) g) : ∃ s, a = method x s ∧ At s p g := by
  cases h with
  | method hp => exact ⟨_, rfl, hp⟩

theorem getElem?_plains (xs : List Annot) (i : Nat) : (plains xs)[i]? = xs[i]?.map plain := by
  induction xs generalizing i with
  | nil => rfl
  | cons x xs ih =>
    cases i with
    | zero => rfl
    | succ i => exact ih i

theorem At.plain (h : At a p g) : At a.plain p g := by
  induction h with
  | list d => exact .list d
  | key d => exact .key d
  | value d => exact .value d
  | @tuple t o xs i x p h hx _ ih =>
    rw [← length_plains xs]
    exact .tuple (by rw [getElem?_plains, hx]; rfl) ih
  | iter _ ih => exact .iter ih
  | method _ ih => exact .method ih

theorem At.of_plain (h : At a.plain p g) : At a p g := by
  generalize e : a.plain = b at h
  induction h generalizing a with
  | list d => cases a <;> cases e; exact .list d
  | key d => cases a <;> cases e; exact .key d
  | value d => cases a <;> cases e; exact .value d
  | tuple hx _ ih =>
    cases a <;> cases e
    rename_i t o ys
    rw [getElem?_plains] at hx
    obtain ⟨y, hy, rfl⟩ := Option.map_eq_some_iff.1 hx
    rw [length_plains]
    exact .tuple hy (ih rfl)
  | iter _ ih =>
    cases a <;> cases e
    exact .iter (ih rfl)
  | method _ ih =>
    cases a <;> cases e
    exact .method (ih rfl)

theorem At.of_plain_eq (e : a.plain = b.plain) (h : At a p g) : At b p g := (e ▸ h.plain).of_plain

theorem not_at_of_simple {k : Group} (hk : a.group? = some k) (hs : k.simple = true) : ¬ At a p g := by
  intro h
  cases h <;> cases hk <;> cases hs

theorem At.of_orNone (h : At a.orNone p g) : At a p g := by
  cases a
  case str c m z => cases m <;> cases h
  case unicode c m z => cases m <;> cases h
  case list => exact h
  case dict => exact h
  all_goals cases h

/-! ## Places of a join -/

theorem of_getElem?_joins {z : Annot} (h : (joins w xs ys)[i]? = some z) : ∃ x y, xs[i]? = some x ∧ ys[i]? = some y ∧ z = join w x y := by
  induction xs generalizing ys i with
  | nil => cases ys <;> cases h
  | cons x xs ih =>
    cases ys with
    | nil => cases h
    | cons y ys =>
      cases i with
      | zero =>
        cases h
        exact ⟨x, y, rfl, rfl, rfl⟩
      | succ i => exact ih h

/-- It is enough to look at annotations of the same group that may have slots. -/
theorem At.of_join_of_group (h : At (join w a b) p g) (same : ∀ k, a.group? = some k → b.group? = some k → k.simple ≠ true → At a p g ∨ At b p g) :
    At a p g ∨ At b p g := by
  rcases group_cases a with rfl | rfl | rfl | ⟨k, hk⟩
  · rw [join_object_left] at h
    exact .inl h
  · exact .inr h
  · rcases group_cases b with rfl | rfl | rfl | ⟨k, hk⟩
    · exact .inr h
    · exact .inl h
    · exact .inl h
    · rw [join_none_left hk] at h
      exact .inr h.of_orNone
  · rcases group_cases b with rfl | rfl | rfl | ⟨k', hk'⟩
    · rw [join_object_right] at h
      exact .inr h
    · rw [join_impossible_right] at h
      exact .inl h
    · rw [join_none_right hk] at h
      exact .inl h.of_orNone
    · by_cases e : k = k'
      · subst e
        refine same k hk hk' fun hs => ?_
        rcases join_group (w := w) hk hk' with e | e
        · rw [e] at h
          cases h
        · exact not_at_of_simple e hs h
      · rw [join_of_ne hk hk' e] at h
        cases h

theorem At.of_join (h : At (join w a b) p g) : At a p g ∨ At b p g := by
  induction p generalizing a b with
  | nil =>
    generalize join w a b = c at h
    cases h
  | cons part p ih =>
    refine h.of_join_of_group fun k hk hk' hs => ?_
    cases a <;> cases hk <;> first | exact absurd rfl hs | skip
    all_goals cases b <;> cases hk'
    case tuple.refl.tuple.refl t o xs t' o' ys =>
      rw [join_tuple] at h
      split at h
      · rename_i hl
        cases h with
        | tuple hz hp =>
          obtain ⟨x, y, hx, hy, rfl⟩ := of_getElem?_joins hz
          rw [length_joins hl]
          rcases ih hp with hp | hp
          · exact .inl (.tuple hx hp)
          · rw [hl]
            exact .inr (.tuple hy hp)
      · cases h
    case list.refl.list.refl => exact .inl h
    case dict.refl.dict.refl => exact .inl h
    case iter.refl.iter.refl =>
      rw [join_iter] at h
      split at h
      · rename_i e
        subst e
        cases h with
        | iter hp => exact (ih hp).imp .iter .iter
      · cases h
    case method.refl.method.refl =>
      rw [join_method] at h
      split at h
      · rename_i e
        subst e
        cases h with
        | method hp => exact (ih hp).imp .method .method
      · cases h

theorem join_eq_of_getElem? {x y : Annot} (h : joins w xs ys = xs) (hx : xs[i]? = some x) (hy : ys[i]? = some y) : join w x y = x := by
  induction xs generalizing ys i with
  | nil => cases hx
  | cons x' xs ih =>
    cases ys with
    | nil => cases hy
    | cons y' ys =>
      obtain ⟨e, es⟩ := List.cons.inj h
      cases i with
      | zero =>
        cases hx
        cases hy
        exact e
      | succ i => exact ih es hx hy

/-- **What is between two annotations** that have slots at one place has one there as well. -/
theorem at_between (hab : join S.world a b = a) (hbc : join S.world b c = b) (ha : At a p g) (hc : At c p h) : ∃ k, At b p k := by
  induction ha generalizing b c with
  | list d =>
    cases hc
    have hb := group_between rfl rfl hab hbc
    cases b <;> cases hb
    exact ⟨_, .list _⟩
  | key d =>
    cases hc
    have hb := group_between rfl rfl hab hbc
    cases b <;> cases hb
    exact ⟨_, .key _⟩
  | value d =>
    cases hc
    have hb := group_between rfl rfl hab hbc
    cases b <;> cases hb
    exact ⟨_, .value _⟩
  | @tuple t o xs i x p g hx hp ih =>
    obtain ⟨t', o', zs, z, rfl, hl, hz, hq⟩ := at_item hc
    have hb := group_between rfl rfl hab hbc
    cases b <;> cases hb
    rename_i t'' o'' ys
    rw [join_tuple] at hab hbc
    split at hab
    · rename_i hxy
      split at hbc
      · injection hab with _ _ hab
        injection hbc with _ _ hbc
        obtain ⟨y, hy⟩ : ∃ y, ys[i]? = some y := ⟨_, List.getElem?_eq_getElem (hxy ▸ (List.getElem?_eq_some_iff.1 hx).1)⟩
        obtain ⟨k, hk⟩ := ih (join_eq_of_getElem? hab hx hy) (join_eq_of_getElem? hbc hy hz) hq
        exact ⟨k, hxy ▸ .tuple hy hk⟩
      · cases hbc
    · cases hab
  | @iter x v p g hp ih =>
    obtain ⟨z, rfl, hq⟩ := at_within hc
    have hb := group_between rfl rfl hab hbc
    cases b <;> cases hb
    rename_i y v'
    rw [join_iter] at hab hbc
    split at hab
    · rename_i e
      subst e
      rw [if_pos rfl] at hbc
      injection hab with hab
      injection hbc with hbc
      obtain ⟨k, hk⟩ := ih hab hbc hq
      exact ⟨k, .iter hk⟩
    · cases hab
  | @method n x p g hp ih =>
    obtain ⟨z, rfl, hq⟩ := at_receiver hc
    have hb := group_between rfl rfl hab hbc
    cases b <;> cases hb
    rename_i n' y
    rw [join_method] at hab hbc
    split at hab
    · rename_i e
      subst e
      rw [if_pos rfl] at hbc
      injection hab with _ hab
      injection hbc with _ hbc
      obtain ⟨k, hk⟩ := ih hab hbc hq
      exact ⟨k, .method hk⟩
    · cases hab

/-! ## Covering -/

/-- The slots that two annotations have at the same place share an item. -/
def United (w : World) (a b : Annot) : Prop := ∀ p g h, At a p g → At b p h → w.Joined g h

/-- All definitions in an annotation have been made. -/
def Placed (w : World) (a : Annot) : Prop := ∀ p g, At a p g → w.HasSlot g

theorem United.symm (u : United w a b) : United w b a := fun p g h hg hh => (u p h g hh hg).symm

theorem United.mono (u : United w a b) (hj : ∀ g h, w.Joined g h → w'.Joined g h) : United w' a b := fun p g h hg hh => hj g h (u p g h hg hh)

theorem Placed.united (h : Placed w a) : United w a a := fun p g _ hg hh => hg.unique hh ▸ .refl (h p g hg)

theorem United.of_join {r : Annot} (e : r.plain = join S.world a.plain b.plain) (ha : United w a c) (hb : United w b c) : United w r c := by
  intro p g h hg hh
  rcases At.of_join (e ▸ hg.plain) with hg | hg
  · exact ha p g h hg.of_plain hh
  · exact hb p g h hg.of_plain hh

/-- One annotation is above another one and has been merged with it. -/
structure Covers (S : Scope) (w : World) (a b : Annot) : Prop where
  join : join S.world a.plain b.plain = a.plain
  united : United w a b

namespace Covers

theorem refl (hf : Fits S a.plain) (hp : Placed w a) : Covers S w a a := ⟨join_self hf, hp.united⟩

theorem trans (ha : Fits S a.plain) (hb : Fits S b.plain) (hc : Fits S c.plain) (h : Covers S w a b) (h' : Covers S w b c) : Covers S w a c := by
  refine ⟨?_, fun p g k hg hk => ?_⟩
  · calc Annot.join S.world a.plain c.plain
        = .join S.world (Annot.join S.world a.plain b.plain) c.plain := by rw [h.join]
      _ = .join S.world a.plain (Annot.join S.world b.plain c.plain) := join_assoc ha hb hc
      _ = a.plain := by rw [h'.join, h.join]
  · obtain ⟨m, hm⟩ := at_between h.join h'.join hg.plain hk.plain
    exact (h.united p g m hg hm.of_plain).trans (h'.united p m k hm.of_plain hk)

theorem mono (h : Covers S w a b) (hj : ∀ g h, w.Joined g h → w'.Joined g h) : Covers S w' a b := ⟨h.join, h.united.mono hj⟩

theorem of_plain_eq (e : c.plain = a.plain) (h : Covers S w a b) : Covers S w c b :=
  ⟨e ▸ h.join, fun p g k hg hk => h.united p g k (hg.of_plain_eq e) hk⟩

theorem of_union {r : Annot} (e : r.plain = Annot.join S.world a.plain b.plain) (ha : Fits S a.plain) (hb : Fits S b.plain)
    (pa : Placed w a) (pb : Placed w b) (u : United w a b) : Covers S w r a ∧ Covers S w r b :=
  ⟨⟨by rw [e, join_absorb ha hb], .of_join e pa.united u.symm⟩, ⟨by rw [e, join_absorb_right ha hb], .of_join e u pb.united⟩⟩

end Covers

/-! ## Equality and containment -/

theorem itemsEqual_mono (h : w.itemsEqual xs ys = true)
    (each : ∀ (i : Nat) x y, xs[i]? = some x → ys[i]? = some y → w.equal x y = true → w'.equal x y = true) : w'.itemsEqual xs ys = true := by
  induction xs generalizing ys with
  | nil =>
    cases ys with
    | nil => rfl
    | cons y ys => cases h
  | cons x xs ih =>
    cases ys with
    | nil => cases h
    | cons y ys =>
      simp only [World.itemsEqual, Bool.and_eq_true] at h ⊢
      exact ⟨each 0 x y rfl rfl h.1, ih h.2 fun i u v hu hv => each (i + 1) u v hu hv⟩

variable {o o' : Option ObjId}

theorem Placed.item {t : Nat} {xs : List Annot} {x : Annot} (h : Placed w (tuple t o xs))
    (hx : xs[i]? = some x) : Placed w x := fun _ g hp => h _ g (.tuple hx hp)

theorem Placed.within (h : Placed w (iter a v)) : Placed w a := fun _ g hp => h _ g (.iter hp)

theorem Placed.receiver (h : Placed w (method x a)) : Placed w a := fun _ g hp => h _ g (.method hp)

theorem equal_mono (ha : Fits S a.plain) (hb : Fits S b.plain) (pa : Placed w a) (pb : Placed w b)
    (hj : ∀ g h, w.Joined g h → w'.Joined g h) (h : w.equal a b = true) : w'.equal a b = true := by
  have plain {a b : Annot} (ha : Fits S a) (hb : Fits S b) (pa : Placed w a) (pb : Placed w b) (h : w.equal a b = true) : w'.equal a b = true := by
    have hg := group_of_equal h
    induction ha generalizing b with
    | tuple hxs ih =>
      cases hb <;> cases hg
      rename_i hys
      exact itemsEqual_mono h fun i x y hx hy e => ih x (mem_of_getElem? hx) (hys y (mem_of_getElem? hy)) (pa.item hx)
        (pb.item hy) e (group_of_equal e)
    | list d =>
      cases hb <;> cases hg
      simp only [World.equal, beq_iff_eq] at h ⊢
      exact (hj _ _ ⟨pa _ _ (.list d), pb _ _ (.list _), h⟩).slot
    | dict d =>
      cases hb <;> cases hg
      simp only [World.equal, Bool.and_eq_true, beq_iff_eq] at h ⊢
      exact ⟨(hj _ _ ⟨pa _ _ (.key d), pb _ _ (.key _), h.1⟩).slot, (hj _ _ ⟨pa _ _ (.value d), pb _ _ (.value _), h.2⟩).slot⟩
    | iter v hc ih =>
      cases hb <;> cases hg
      rename_i hc'
      simp only [World.equal, Bool.and_eq_true] at h ⊢
      exact ⟨h.1, ih hc' pa.within pb.within h.2 (group_of_equal h.2)⟩
    | method x hs ih =>
      cases hb <;> cases hg
      rename_i hs'
      simp only [World.equal, Bool.and_eq_true] at h ⊢
      exact ⟨h.1, ih hs' pa.receiver pb.receiver h.2 (group_of_equal h.2)⟩
    | @float c hc =>
      cases c <;> cases hb <;> cases hg
      case none.float.refl c' _ => cases c' <;> exact h
      case some.float.refl c' _ => cases c' <;> exact h
      all_goals cases h
    | _ => cases hb <;> exact h
  rw [← equal_plain w', plain ha hb (fun p g hp => pa p g hp.of_plain) (fun p g hp => pb p g hp.of_plain)]
  rwa [equal_plain]

theorem United.item {t t' : Nat} {x y : Annot} (u : United w (tuple t o xs) (tuple t' o' ys)) (hl : xs.length = ys.length) (hx : xs[i]? = some x)
    (hy : ys[i]? = some y) : United w x y := fun _ g h hg hh => u _ g h (.tuple hx hg) (hl ▸ .tuple hy hh)

theorem United.within (u : United w (iter a v) (iter b v)) : United w a b := fun _ g h hg hh => u _ g h (.iter hg) (.iter hh)

theorem United.receiver (u : United w (method x a) (method x b)) : United w a b := fun _ g h hg hh => u _ g h (.method hg) (.method hh)

theorem united_tuple {t t' : Nat} (h : xs.length = ys.length → ∀ (i : Nat) x y, xs[i]? = some x → ys[i]? = some y → United w x y) :
    United w (tuple t o xs) (tuple t' o' ys) := by
  intro p g g' hg hh
  cases hg with
  | tuple hx hp =>
    obtain ⟨_, _, _, y, e, hl, hy, hq⟩ := at_item hh
    cases e
    exact h hl _ _ y hx hy _ g g' hp hq

theorem united_list {d e : ListDefId} (j : w.Joined (.list d) (.list e)) : United w (list d) (list e) := by
  intro p g h hg hh
  cases hg
  cases hh
  exact j

theorem united_dict {d e : DictDefId} (j : w.Joined (.key d) (.key e)) (j' : w.Joined (.value d) (.value e)) : United w (dict d) (dict e) := by
  intro p g h hg hh
  cases hg <;> cases hh
  · exact j
  · exact j'

theorem united_iter {v v' : String} (u : v = v' → United w a b) : United w (iter a v) (iter b v') := by
  intro p g h hg hh
  cases hg with
  | iter hp =>
    obtain ⟨_, e, hq⟩ := at_within hh
    cases e
    exact u rfl _ g h hp hq

theorem united_method {x y : String} (u : x = y → United w a b) : United w (method x a) (method y b) := by
  intro p g h hg hh
  cases hg with
  | method hp =>
    obtain ⟨_, e, hq⟩ := at_receiver hh
    cases e
    exact u rfl _ g h hp hq

/-- Annotations of different kinds have no place in common. -/
theorem united_of_unlike (tuples : ∀ t o xs t' o' ys, a = tuple t o xs → b = tuple t' o' ys → False) (lists : ∀ d e, a = list d → b = list e → False)
    (dicts : ∀ d e, a = dict d → b = dict e → False) (iters : ∀ c v c' v', a = iter c v → b = iter c' v' → False)
    (methods : ∀ x s y s', a = method x s → b = method y s' → False) : United w a b := by
  intro p g h hg hh
  cases hg with
  | list =>
    cases hh
    exact (lists _ _ rfl rfl).elim
  | key | value =>
    cases hh
    exact (dicts _ _ rfl rfl).elim
  | tuple =>
    obtain ⟨_, _, _, _, e, -⟩ := at_item hh
    exact (tuples _ _ _ _ _ _ rfl e).elim
  | iter =>
    obtain ⟨_, e, -⟩ := at_within hh
    exact (iters _ _ _ _ rfl e).elim
  | method =>
    obtain ⟨_, e, -⟩ := at_receiver hh
    exact (methods _ _ _ _ rfl e).elim

theorem mapM_ok {α β : Type} {f : α → Ana β} {I : World → Prop} {xs : List α}
    (h : ∀ x ∈ xs, ∀ w, I w → ∃ y w', f x k w = .ok y w' ∧ I w') (hw : I w) : ∃ ys w', xs.mapM f k w = .ok ys w' ∧ I w' := by
  induction xs generalizing w with
  | nil => exact ⟨_, _, rfl, hw⟩
  | cons x xs ih =>
    obtain ⟨y, w₁, h₁, i₁⟩ := h x (by simp) w hw
    obtain ⟨ys, w₂, h₂, i₂⟩ := ih (fun x hx => h x (by simp [hx])) i₁
    refine ⟨y :: ys, w₂, ?_, i₂⟩
    rw [mapM_cons, bind_of_ok h₁, bind_of_ok h₂]
    rfl

/-- A test for containment merges nothing where the lists and dictionaries that meet have been merged. -/
theorem unionAux_united {fuel : Nat} (hw : S.world.Later w) (ha : Fits S a.plain) (hb : Fits S b.plain) (u : United w a b)
    (hd : a.depth < fuel ∨ b.depth < fuel) : ∃ r w', unionAux fuel false a b k w = .ok r w' ∧ w.Roused w' := by
  induction fuel generalizing a b w with
  | zero => omega
  | succ n ih =>
    unfold unionAux
    split
    · exact ⟨_, _, rfl, .refl w⟩
    · exact ⟨_, _, rfl, .refl w⟩
    · cases ha
      exact ⟨_, _, rfl, .refl w⟩
    · rename_i t o xs t' o' ys
      split
      · exact ⟨_, _, rfl, .refl w⟩
      · split
        · exact ⟨_, _, rfl, .refl w⟩
        · rename_i hl
          have hl : xs.length = ys.length := by simpa using hl
          have each (p : Annot × Annot) (hp : p ∈ xs.zip ys) (v : World) (hv : S.world.Later v ∧ w.Roused v) :
              ∃ r v', unionAux n false p.1 p.2 k v = .ok r v' ∧ S.world.Later v' ∧ w.Roused v' := by
            obtain ⟨i, hi⟩ := getElem?_of_mem hp
            obtain ⟨hx, hy⟩ := getElem?_zip_eq_some.1 hi
            obtain ⟨hx', hy'⟩ := of_mem_zip hp
            obtain ⟨r, v', h, q⟩ := ih hv.1 (fits_of_tuple ha _ (plain_mem_plains hx')) (fits_of_tuple hb _ (plain_mem_plains hy'))
              ((u.item hl hx hy).mono fun g h => (hv.2.joined g h).2) (hd.imp (fun h => lt_of_le_of_lt (depth_le_depths hx') (lt_of_succ_lt_succ h))
                fun h => lt_of_le_of_lt (depth_le_depths hy') (lt_of_succ_lt_succ h))
            exact ⟨r, v', h, hv.1.trans ((Keeps.unionAux ..).later h), hv.2.trans q⟩
          obtain ⟨rs, w₁, h₁, l₁, r₁⟩ := mapM_ok each ⟨hw, .refl w⟩
          obtain ⟨r, w₂, h₂⟩ := Total.newTuple rs k w₁
          exact ⟨r, w₂, (bind_of_ok h₁).trans h₂, r₁.trans (Quiet.newTuple rs k w₁ r w₂ h₂)⟩
    · rename_i d e
      refine ⟨list d, w, (bind_of_ok (m := get) rfl).trans ?_, .refl w⟩
      rw [if_pos]
      · rfl
      · exact beq_iff_eq.2 (u _ _ _ (.list d) (.list e)).slot
    · rename_i d e
      refine ⟨dict d, w, (bind_of_ok (m := get) rfl).trans ?_, .refl w⟩
      rw [if_pos]
      · rfl
      · simp only [World.equal, Bool.and_eq_true, beq_iff_eq]
        exact ⟨(u _ _ _ (.key d) (.key e)).slot, (u _ _ _ (.value d) (.value e)).slot⟩
    · rename_i ds m es m'
      have hd : ∀ d ∈ ds ++ es, S.world.IsPlainDesc d := by
        cases ha
        cases hb
        rename_i h₁ _ h₂
        exact fun d hd => (mem_append.1 hd).elim (h₁ d) (h₂ d)
      exact ⟨_, w, newPbc_eq (m || m') hd hw k, .refl w⟩
    · rename_i c v c' v'
      split
      · exact ⟨_, _, rfl, .refl w⟩
      · rename_i e
        obtain rfl : v = v' := by simpa using e
        obtain ⟨r, w₁, h₁, q⟩ := ih hw (fits_of_iter ha) (fits_of_iter hb) u.within (hd.imp lt_of_succ_lt_succ lt_of_succ_lt_succ)
        exact ⟨_, w₁, bind_of_ok h₁, q⟩
    · rename_i x s y s'
      split
      · exact ⟨_, _, rfl, .refl w⟩
      · rename_i e
        obtain rfl : x = y := by simpa using e
        obtain ⟨r, w₁, h₁, q⟩ := ih hw (fits_of_method ha) (fits_of_method hb) u.receiver (hd.imp lt_of_succ_lt_succ lt_of_succ_lt_succ)
        exact ⟨_, w₁, bind_of_ok h₁, q⟩
    · exact ⟨_, _, rfl, .refl w⟩

/-- **What covers an annotation contains it.** -/
theorem contains_of_covers {τ : Nat → Annot} (hw : S.world.Later w) (ha : Known S τ w a) (hb : Known S τ w b)
    (hd : b.depth < World.annotDepth) (h : Covers S w a b) : ∃ w', contains a b k w = .ok true w' := by
  obtain ⟨u, v, hu, -⟩ := unionAux_united hw ha.fits hb.fits h.united (.inr hd)
  have given := unionAux_spec World.annotDepth false a b τ k w u v hw ha.fits hb.fits ha.tagged hb.tagged hu
  exact contains_of_union hu (equal_of_plain ha.fits (given.plain.trans h.join) rfl)

end FlowCompiler.Annot
