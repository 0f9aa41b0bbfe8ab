import FlowCompiler.Proofs.Items.Merging

/-!
# Unions of typed annotations

A union of annotations that conform to one shape merges the lists and dictionaries that meet in them, on all levels
below.  The induction is on the nesting of annotations and definitions together, which is what the union counts down.
-/

namespace FlowCompiler.Annot

open Ana World

variable {S : Scope} {T : Typing} {τ τ' : Nat → Annot} {n : Nat} {w w' : World} {a b r : Annot} {k : Knot} {union : Annot → Annot → Ana Annot}

theorem mergeDicts_spec (hT : ∀ t, t ≠ 0 → (S.types t).2 ≠ []) (hu : MergeSpec S T union) (t : Typed S T τ n w)
    {depth : Nat} {d e : DictDefId} (hd : w.HasSlot (.key d)) (he : w.HasSlot (.key e)) (key : T.of (.key d) = T.of (.key e))
    (value : T.of (.value d) = T.of (.value e)) (hk : T.rank (.key d) < n) (hv : T.rank (.value d) < n)
    (h : mergeDicts depth union d e k w = .ok () w') :
    ∃ τ', Leads S T τ τ' n w w' ∧ w'.Joined (.key d) (.key e) ∧ w'.Joined (.value d) (.value e) := by
  obtain ⟨w₀, w₁, h₀, h⟩ := of_bind_ok h
  cases h₀
  dsimp only at h
  split at h
  · rename_i same
    cases h
    rw [Bool.and_eq_true, beq_iff_eq, beq_iff_eq] at same
    exact ⟨τ, .refl t, ⟨hd, he, same.1⟩, hd, he, same.2⟩
  · split at h
    · cases h
    · obtain ⟨_, w₁, h₁, h⟩ := of_bind_ok h
      obtain ⟨w₀, w₂, h₀, h₂⟩ := of_bind_ok h
      cases h₀
      obtain ⟨τ₁, l₁, j₁⟩ := mergeItems_spec hT hu t hd he key hk h₁
      obtain ⟨τ₂, l₂, j₂⟩ := mergeItems_spec hT hu l₁.typed ((l₁.evolves.slots (.value d)).2 hd) ((l₁.evolves.slots (.value e)).2 he) value hv h₂
      exact ⟨τ₂, l₁.trans t l₂, l₂.evolves.joined _ _ j₁, j₂⟩

theorem unites_of_roused (t : Typed S T τ n w) (ha : Fits S a.plain) (hb : Fits S b.plain) (given : Gives S τ w w' a b r)
    (q : w.Roused w') (u : United w a b) : ∃ τ', Unites S T τ τ' n w w' a b r := by
  obtain ⟨plain, τ', hτ, tagged⟩ := given
  exact ⟨τ', .roused t hτ q, ⟨plain ▸ ha.join hb, tagged⟩, plain, u.mono fun g h => (q.joined g h).2⟩

variable {o : Option ObjId} {xs ys rs : List Annot} {f : List Part → T.Shape}

theorem mapM_unites (hu : MergeSpec S T union) (t : Typed S T τ n w) (hl : xs.length = ys.length) (hx : ∀ x ∈ xs, Known S τ w x)
    (hy : ∀ y ∈ ys, Known S τ w y) (hf : ∀ (i : Nat) x y, xs[i]? = some x → ys[i]? = some y → ∃ f, Conforms T w n f x ∧ Conforms T w n f y)
    (h : ((xs.zip ys).mapM fun (x, y) => union x y) k w = .ok rs w') : ∃ τ', Leads S T τ τ' n w w' ∧ (∀ r ∈ rs, Known S τ' w' r) ∧
    plains rs = joins S.world (plains xs) (plains ys) ∧
      ∀ (i : Nat) x y, xs[i]? = some x → ys[i]? = some y → United w' x y := by
  induction xs generalizing ys rs τ w with
  | nil =>
    cases h
    exact ⟨τ, .refl t, by simp, rfl, by simp⟩
  | cons x xs ih =>
    cases ys with
    | nil => cases hl
    | cons y ys =>
      rw [List.zip_cons_cons, List.mapM_cons] at h
      obtain ⟨r, w₁, h₁, h⟩ := of_bind_ok h
      obtain ⟨rs', w₂, h₂, h⟩ := of_bind_ok h
      cases h
      obtain ⟨f, cx, cy⟩ := hf 0 x y rfl rfl
      obtain ⟨τ₁, u₁⟩ := hu t (hx x (by simp)) (hy y (by simp)) cx cy h₁
      obtain ⟨τ₂, l₂, known, plain, united⟩ := ih u₁.typed (Nat.succ.inj hl) (fun z hz => u₁.toLeads.known (hx z (by simp [hz])))
        (fun z hz => u₁.toLeads.known (hy z (by simp [hz])))
        (fun i x' y' h h' => by
          obtain ⟨f, cx, cy⟩ := hf (i + 1) x' y' h h'
          exact ⟨f, u₁.toLeads.conforms cx, u₁.toLeads.conforms cy⟩) h₂
      refine ⟨τ₂, u₁.toLeads.trans t l₂, ?_, ?_, ?_⟩
      · intro z hz
        rcases List.mem_cons.1 hz with rfl | hz
        · exact l₂.known u₁.known
        · exact known z hz
      · simp only [plains, joins, u₁.plain, plain]
      · intro i x' y' h h'
        cases i with
        | zero =>
          cases h
          cases h'
          exact u₁.united.mono l₂.evolves.joined
        | succ i => exact united i x' y' h h'

theorem taggedAll_iff {m : Nat} : TaggedAll τ m xs ↔ ∀ x ∈ xs, Tagged τ m x := by
  induction xs with
  | nil => simp [TaggedAll]
  | cons x xs ih => simp [TaggedAll, ih]

theorem Known.item {t : Nat} {x : Annot} (h : Known S τ w (tuple t o xs)) (hx : x ∈ xs) : Known S τ w x :=
  ⟨fits_of_tuple h.fits _ (plain_mem_plains hx), taggedAll_iff.1 h.tagged.2.2 x hx⟩

theorem Conforms.item {t : Nat} {i : Nat} {x : Annot}
    (h : Conforms T w n f (tuple t o xs)) (hx : xs[i]? = some x) : Conforms T w n (fun p => f (.item xs.length i :: p)) x :=
  fun _ g hg => h _ g (.tuple hx hg)

/-- The tuple of what was made of the items.  The next tag is free, so it may stand for it. -/
theorem unites_tuple (hu : MergeSpec S T union) {t₁ t₂ : Nat} {o o' : Option ObjId} {w₁ : World} (t : Typed S T τ n w)
    (ka : Known S τ w (tuple t₁ o xs)) (kb : Known S τ w (tuple t₂ o' ys)) (ca : Conforms T w n f (tuple t₁ o xs))
    (cb : Conforms T w n f (tuple t₂ o' ys)) (hl : xs.length = ys.length) (h₁ : ((xs.zip ys).mapM fun (x, y) => union x y) k w = .ok rs w₁)
    (h₂ : newTuple rs k w₁ = .ok r w') : ∃ τ', Unites S T τ τ' n w w' (tuple t₁ o xs) (tuple t₂ o' ys) r := by
  obtain ⟨τ₁, l₁, known, plain, united⟩ := mapM_unites (@hu) t hl (fun x hx => ka.item hx) (fun y hy => kb.item hy)
    (fun i x y hx hy => ⟨_, ca.item hx, hl ▸ cb.item hy⟩) h₁
  obtain ⟨c, rfl, hlt⟩ := of_newTuple h₂
  have l₂ := Leads.roused l₁.typed (.update w₁.nextTag τ₁ (tuple 0 .none (plains rs))) (Quiet.newTuple rs k w₁ _ w' h₂)
  have joined : (tuple w₁.nextTag c rs).plain = join S.world (tuple t₁ o xs).plain (tuple t₂ o' ys).plain := by
    rw [join_tuple_plain, if_pos hl, ← plain]
    rfl
  refine ⟨_, l₁.trans t l₂, ⟨joined ▸ ka.fits.join kb.fits, hlt, Function.update_self .., ?_⟩, joined, ?_⟩
  · exact taggedAll_iff.2 fun x hx => (l₂.known (known x hx)).tagged
  · exact united_tuple fun _ i x y hx hy => (united i x y hx hy).mono l₂.evolves.joined

theorem Unites.iter {v : String} (u : Unites S T τ τ' n w w' a b r) (ka : Known S τ w (iter a v)) (kb : Known S τ w (iter b v)) :
    Unites S T τ τ' n w w' (iter a v) (iter b v) (iter r v) := by
  have joined : (Annot.iter r v).plain = join S.world (Annot.iter a v).plain (Annot.iter b v).plain := by
    rw [join_iter_plain, if_pos rfl, ← u.plain]
    rfl
  exact ⟨u.toLeads, ⟨joined ▸ ka.fits.join kb.fits, u.known.tagged⟩, joined, united_iter fun _ => u.united⟩

theorem Unites.method {x : String} (u : Unites S T τ τ' n w w' a b r) (ka : Known S τ w (method x a)) (kb : Known S τ w (method x b)) :
    Unites S T τ τ' n w w' (method x a) (method x b) (method x r) := by
  have joined : (Annot.method x r).plain = join S.world (Annot.method x a).plain (Annot.method x b).plain := by
    rw [join_method_plain, if_pos rfl, ← u.plain]
    rfl
  exact ⟨u.toLeads, ⟨joined ▸ ka.fits.join kb.fits, u.known.tagged⟩, joined, united_method fun _ => u.united⟩

/-- **Unions merge what meets in them.** -/
theorem unionAux_unites (hT : ∀ t, t ≠ 0 → (S.types t).2 ≠ []) (fuel : Nat) : MergeSpec S T (unionAux fuel true) := by
  induction fuel with
  | zero =>
    intro n f a b τ k w r w' t ka kb ca cb h
    cases h
  | succ m ih =>
    intro n f a b τ k w r w' t ka kb ca cb h
    have given := unionAux_spec (m + 1) true a b τ k w r w' t.later ka.fits kb.fits ka.tagged kb.tagged h
    -- where no lists and dictionaries meet, nothing is merged
    have apart (e : w' = w) (u : United w a b) : ∃ τ', Unites S T τ τ' n w w' a b r := unites_of_roused t ka.fits kb.fits given (e ▸ .refl w) u
    unfold unionAux at h
    split at h
    · cases h
      exact apart rfl fun p g h hg => by cases hg
    · cases h
      exact apart rfl fun p g h _ hh => by cases hh
    · cases ka.fits
      cases kb.fits
      cases h
      exact apart rfl fun p g h hg => by cases hg
    · rename_i t₁ o xs t₂ o' ys
      split at h
      · rename_i e
        cases h
        obtain rfl : t₁ = t₂ := by simpa using e
        exact apart rfl fun p g h hg hh => hg.unique (hh.of_plain_eq (plain_eq_of_tag kb.tagged ka.tagged)) ▸ .refl (ca.placed p g hg)
      · split at h
        · rename_i e
          cases h
          exact apart rfl (united_tuple fun hl => absurd hl e)
        · rename_i e
          obtain ⟨rs, w₁, h₁, h₂⟩ := of_bind_ok h
          exact unites_tuple (@ih) t ka kb ca cb (by simpa using e) h₁ h₂
    · rename_i d e
      obtain ⟨w₀, w₁, h₀, h⟩ := of_bind_ok h
      cases h₀
      obtain ⟨hd, ed, rd⟩ := ca _ _ (.list d)
      obtain ⟨he, ee, -⟩ := cb _ _ (.list e)
      split at h
      · rename_i same
        cases h
        exact apart rfl (united_list ⟨hd, he, beq_iff_eq.1 same⟩)
      · obtain ⟨_, w₁, h₁, h⟩ := of_bind_ok h
        cases h
        obtain ⟨τ₁, l, j⟩ := mergeItems_spec hT ih t hd he (ed.trans ee.symm) rd h₁
        exact ⟨τ₁, l, ⟨ka.fits, trivial⟩, rfl, united_list j⟩
    · rename_i d e
      obtain ⟨w₀, w₁, h₀, h⟩ := of_bind_ok h
      cases h₀
      obtain ⟨hd, ed, rd⟩ := ca _ _ (.key d)
      obtain ⟨he, ee, -⟩ := cb _ _ (.key e)
      obtain ⟨hd', ed', rd'⟩ := ca _ _ (.value d)
      obtain ⟨he', ee', -⟩ := cb _ _ (.value e)
      split at h
      · rename_i same
        cases h
        simp only [World.equal, Bool.and_eq_true, beq_iff_eq] at same
        exact apart rfl (united_dict ⟨hd, he, same.1⟩ ⟨hd', he', same.2⟩)
      · obtain ⟨_, w₁, h₁, h⟩ := of_bind_ok h
        cases h
        obtain ⟨τ₁, l, j, j'⟩ := mergeDicts_spec hT ih t hd he (ed.trans ee.symm) (ed'.trans ee'.symm) rd rd' h₁
        exact ⟨τ₁, l, ⟨ka.fits, trivial⟩, rfl, united_dict j j'⟩
    · rename_i ds m es m'
      have hd : ∀ d ∈ ds ++ es, S.world.IsPlainDesc d := by
        cases ka.fits
        cases kb.fits
        rename_i h₁ _ h₂
        exact fun d hd => (List.mem_append.1 hd).elim (h₁ d) (h₂ d)
      rw [newPbc_eq (m || m') hd t.later] at h
      cases h
      exact apart rfl fun p g h hg => by cases hg
    · rename_i c v c' v'
      split at h
      · rename_i e
        cases h
        exact apart rfl (united_iter fun e' => absurd e' e)
      · rename_i e
        obtain rfl : v = v' := by simpa using e
        obtain ⟨r', w₁, h₁, h⟩ := of_bind_ok h
        cases h
        obtain ⟨τ₁, u⟩ := ih (f := fun p => f (.within v :: p)) t ⟨fits_of_iter ka.fits, ka.tagged⟩ ⟨fits_of_iter kb.fits, kb.tagged⟩
          (fun p g hg => ca _ g (.iter hg)) (fun p g hg => cb _ g (.iter hg)) h₁
        exact ⟨τ₁, u.iter ka kb⟩
    · rename_i x s y s'
      split at h
      · rename_i e
        cases h
        exact apart rfl (united_method fun e' => absurd e' e)
      · rename_i e
        obtain rfl : x = y := by simpa using e
        obtain ⟨r', w₁, h₁, h⟩ := of_bind_ok h
        cases h
        obtain ⟨τ₁, u⟩ := ih (f := fun p => f (.receiver x :: p)) t ⟨fits_of_method ka.fits, ka.tagged⟩
          ⟨fits_of_method kb.fits, kb.tagged⟩ (fun p g hg => ca _ g (.method hg)) (fun p g hg => cb _ g (.method hg)) h₁
        exact ⟨τ₁, u.method ka kb⟩
    · rename_i tuples lists dicts pbcs iters methods
      cases h
      exact apart rfl (united_of_unlike tuples lists dicts iters methods)

theorem union_unites (hT : ∀ t, t ≠ 0 → (S.types t).2 ≠ []) : MergeSpec S T .union := by
  intro n f a b τ k w r w' t ka kb ca cb h
  exact unionAux_unites hT World.annotDepth t ka kb ca cb h

/-! ## Generalizing -/

theorem Halfway.fused_self {u : World} {s : Holder} {f : ListItem → ListItem} {v : Annot} (m : Halfway S T τ τ' n w u s s f b r)
    (q : (u.updateItem (w.slot s) fun it => { it with value := v }).Roused w') :
    Fused (Merged w s s) (w.slot s) { f (w.held s) with value := v } u w' := by
  have slots := sameSlots_updateItem u (w.slot s) fun it => { it with value := v }
  have hitem (j : ItemId) : w'.item j = if w.slot s = j then { f (w.held s) with value := v } else u.item j := by
    rw [q.item, item_updateItem, m.item_self]
    simp only [m.made, and_true]
  have hslot (h : Holder) : w'.slot h = u.slot h := (q.slot h).trans (slots.slot h)
  refine ⟨(later_updateItem ..).trans q.later, ?_, fun h => ?_, fun h hm => ?_, fun h hh hm => ?_, fun p hp => q.waits p hp⟩
  · rw [q.items, size_updateItem]
  · rw [q.hasSlot, slots.hasSlot]
  · have e : w'.slot h = w.slot s := by
      rw [hslot, (m.still hm.hasSlot (Nat.le_of_eq (m.rank_merged hm).symm)).1]
      exact hm.elim (fun j => j.slot) fun j => j.slot
    exact ⟨e, by rw [held, e, hitem, if_pos rfl]⟩
  · exact ⟨hslot h, m.slot_ne hh hm, by rw [held, hslot, hitem, if_neg (m.slot_ne hh hm).symm, held]⟩

/-- **An item takes an annotation in.** -/
theorem generalizeItem_spec (hT : ∀ t, t ≠ 0 → (S.types t).2 ≠ []) (t : Typed S T τ n w) {h : Holder} (hh : w.HasSlot h) (hr : T.rank h < n)
    (ka : Known S τ w a) (ca : Conforms T w (T.rank h) (T.inside (T.of h)) a) (e : generalizeItem (w.slot h) a k w = .ok () w') : ∃ τ',
    Leads S T τ τ' n w w' ∧ Covers S w' (w'.held h).value a := by
  obtain ⟨w₀, w₁, h₀, e⟩ := of_bind_ok e
  cases h₀
  obtain ⟨r, u, hu, e⟩ := of_bind_ok e
  obtain ⟨w₀, w₁, h₀, e⟩ := of_bind_ok e
  cases h₀
  obtain ⟨τ₁, unites⟩ := union_unites hT (t.below (Nat.le_of_lt hr)) (t.known h hh) ka (t.conforms h hh) ca hu
  have m : Halfway S T τ τ₁ n w u h h id a r := ⟨t, hh, hh, rfl, hr, .self _, ka, ca, by rw [updateItem_eq_self rfl]; exact unites⟩
  have settled : ∃ v, (u.updateItem (w.slot h) fun it => { it with value := v }).Roused w' ∧
        ((v = r ∧ ∀ p ∈ (u.item (w.slot h)).reads, w'.Waits p) ∨ (v = (u.item (w.slot h)).value ∧ u.equal r (w.held h).value = true)) := by
    dsimp only at e
    split at e
    · split at e
      · obtain ⟨_, w₁, h₁, -⟩ := of_bind_ok e
        cases h₁
      · obtain ⟨w₁, h₁, q, hw⟩ := growItem_ok (w.slot h) r k u
        rw [h₁] at e
        cases e
        rw [item_updateItem, if_pos ⟨rfl, m.made⟩] at hw
        exact ⟨r, q, .inl ⟨rfl, hw⟩⟩
    · rename_i same
      cases e
      refine ⟨_, ?_, .inr ⟨rfl, ?_⟩⟩
      · rw [updateItem_eq_self rfl]
        exact .refl _
      · rw [m.item_self] at same
        simpa using same
  obtain ⟨v, q, hv⟩ := settled
  obtain ⟨ev, known, told⟩ := m.value_settled hT hv
  have y := m.fused_self q
  have grown := m.grown_after y rfl ev told
  refine ⟨τ₁, m.leads_after y rfl known ev grown grown, ?_⟩
  · rw [(y.inside h (.inl (.refl hh))).2]
    exact (m.covers_after y ev).2

end FlowCompiler.Annot
