import Mathlib.Data.List.Dedup
import FlowCompiler.Proofs.Resume.Reading
import FlowCompiler.Trace.Optimize.Chain

/-!
# Stores that were put off, and rebuilding

After the saved values are read, the stores that were put off are performed on objects that were in the heap before.
One such store changes the store that the reader started with; the invariant holds over the changed one.
-/

namespace FlowCompiler.Trace

open List Array

variable {q : Pending Tagged}

/-! ## Stores that were put off -/

/-- An object after a store. -/
def Object.stored (descr : Descr) (index : Option Int) (v : Value) : Object → Object
  | .struct d c fields => match descr with
    | .field f => .struct d c (Store.setField fields f v)
    | _ => .struct d c fields
  | .array d items => .array d (items.setIfInBounds (index.getD 0).toNat v)
  | o => o

/-- An object that can be stored into. -/
inductive Object.Storable (descr : Descr) : Object → Prop
  | field {d : Option SizeId} {c : Option Ref} {fields : List (FieldId × Value)} {f : FieldId} (h : descr = .field f) :
      Storable descr (.struct d c fields)
  | item {d : ArrayId} {items : Array Value} : Storable descr (.array d items)

namespace Object.Storable

variable {descr : Descr} {o : Object}

theorem ne_str (h : o.Storable descr) : ∀ cs u, o ≠ .str cs u := by
  cases h <;> simp

theorem stored (h : o.Storable descr) (descr' : Descr) (index : Option Int) (v : Value) : (o.stored descr' index v).Storable descr := by
  cases h with
  | field h =>
    cases descr' <;> exact .field h
  | item => exact .item

end Object.Storable

/-- A store that was put off is performed; `val` are the values of its target and of what is stored. -/
def Pending.perform {α : Type} (val : α → Option Value) (s : Store) (q : Pending α) : Store :=
  match (val q.target).bind s.refOf with
  | some r => s.updateObject r (Object.stored q.descr q.index ((val q.value).getD .null))
  | none => s

namespace Setting

variable {c : Setting} {p : Progress} {rank : Nat → Nat}

/-- The same resume data over another store. -/
def onStore (c : Setting) (s : Store) : Setting := { c with store := s }

/-- The target of a store that was put off is an object of the heap, which can be stored into. -/
def Storable (c : Setting) (q : Pending Tagged) : Prop :=
  q.target.tag ≠ .virtual ∧ ∃ r o, (c.value [] q.target).bind c.store.refOf = some r ∧ c.store.objects[r]? = some o ∧ o.Storable q.descr

/-- A number of a store that was put off has a virtual object. -/
def InRange (c : Setting) (x : Tagged) : Prop := x.tag = .virtual → x.value.toNat < c.data.virtuals.size

section Update

variable {r : Ref} {o : Object} {f : Object → Object}

theorem text_updateObject (ho : c.store.objects[r]? = some o) (hstr : ∀ cs u, o ≠ .str cs u) (k : Ref) (cs : List Int) (u : Bool)
    (hk : c.store.objects[k]? = some (.str cs u)) : (c.store.updateObject r f).objects[k]? = some (.str cs u) := by
  have hne : r ≠ k := by
    rintro rfl
    exact hstr cs u (Option.some.inj (ho.symm.trans hk))
  change (c.store.objects.modify r f)[k]? = _
  rw [Array.getElem?_modify, if_neg hne, hk]

theorem Sound.update (hc : c.Sound rank) (ho : c.store.objects[r]? = some o) (hstr : ∀ cs u, o ≠ .str cs u) :
    (c.onStore (c.store.updateObject r f)).Sound rank := by
  have htext : ∀ k x, c.Text rank k x → (c.onStore (c.store.updateObject r f)).Text rank k x := fun k x h =>
    ⟨h.1, fun hv => (h.2 hv).imp fun cs hcs => Store.chars?_mono (s := c.store) (c.store.updateObject r f) hcs rfl (text_updateObject ho hstr)⟩
  refine ⟨hc.bound, fun i shape hshape => ?_⟩
  exact (hc.shape i shape hshape).transfer (R := Eq) (by simp) (fun a b e h => e ▸ htext _ a h) fun a b e h => e ▸ h

theorem Good.onStore (hp : c.Good [] [] p) (ho : c.store.objects[r]? = some o) (hstr : ∀ cs u, o ≠ .str cs u) :
    (c.onStore (c.store.updateObject r f)).Good [] [] ⟨p.allocated, p.objects.modify r f⟩ := by
  have hr : r < c.store.objects.size := (Array.getElem?_eq_some_iff.1 ho).1
  have hsize : (c.store.updateObject r f).objects.size = c.store.objects.size := by simp [Store.updateObject]
  have hold : p.objects[r]? = some o := (hp.old.2 r hr).trans ho
  have hg : p.Grows 0 ⟨p.allocated, p.objects.modify r f⟩ := by
    refine ⟨suffix_refl _, by simp, fun k hk => absurd hk (Nat.not_lt_zero k), fun k cs u hk => ?_⟩
    have hne : r ≠ k := by
      rintro rfl
      exact hstr cs u (Option.some.inj (hold.symm.trans hk))
    rw [Array.getElem?_modify, if_neg hne, hk]
  refine ⟨hp.indices, hp.busy_lt, hp.refs, fun e he => ?_, ⟨?_, fun k hk => ?_⟩, fun i r' hi => ?_⟩
  · simpa [Setting.onStore, hsize] using hp.fresh e he
  · simpa [Setting.onStore, hsize] using hp.old.1
  · have hk' : k < c.store.objects.size := hsize ▸ hk
    change (p.objects.modify r f)[k]? = (c.store.objects.modify r f)[k]?
    rw [Array.getElem?_modify, Array.getElem?_modify, hp.old.2 k hk']
  · obtain ⟨shape, hshape, hdone⟩ := hp.entry i r' hi
    refine ⟨shape, hshape, hdone.imp_right fun hdone => ?_⟩
    have hne : r ≠ r' := Nat.ne_of_lt (Nat.lt_of_lt_of_le hr (hp.fresh _ hi).1)
    have := hdone.mono hg hp.nodup (by rw [Array.getElem?_modify, if_neg hne])
    exact ⟨this.known, this.realizes⟩

end Update

theorem store_ok : Reader.store (c.reader p) (c.storeAt p) = .ok (c.storeAt p, c.reader p) (c.storeAt p) := rfl

theorem modify_congr {α : Type} {xs : Array α} {i : Nat} {a : α} {f g : α → α} (h : xs[i]? = some a) (hfg : f a = g a) :
    xs.modify i f = xs.modify i g := by
  apply Array.ext_getElem?
  intro j
  rw [Array.getElem?_modify, Array.getElem?_modify]
  by_cases hj : i = j
  · rw [if_pos hj, if_pos hj, ← hj, h, Option.map_some, Option.map_some, hfg]
  · rw [if_neg hj, if_neg hj]

/-- **One store that was put off.** -/
theorem applyPending_spec (hc : c.Sound rank) (hp : c.Good [] [] p) (hq : c.Storable q) (hv : c.InRange q.value) :
    ∃ p', Reader.applyPending q (c.reader p) (c.storeAt p) = .ok ((), c.reader p') (c.storeAt p') ∧
      p.allocated <:+ p'.allocated ∧ Known p'.allocated q.value ∧
      (c.onStore (q.perform (c.value p'.allocated) c.store)).Good [] [] p' := by
  obtain ⟨hground, r, o, href, ho, hstorable⟩ := hq
  obtain ⟨p₁, target, he₁, hg₁, hp₁, htarget, -⟩ := read_spec hc (fun h => absurd h hground) hp
  obtain ⟨p₂, value, he₂, hg₂, hp₂, hvalue, hknown⟩ := read_spec hc hv hp₁
  have hr : r < c.store.objects.size := (Array.getElem?_eq_some_iff.1 ho).1
  have hbind : ∀ allocated, (c.value allocated q.target).bind c.store.refOf = some r := fun allocated => by
    rw [value_eq_of_ground hground allocated [], href]
  have hperform : q.perform (c.value p₂.allocated) c.store =
      c.store.updateObject r (.stored q.descr q.index ((c.value p₂.allocated q.value).getD .null)) := by
    rw [Pending.perform, hbind]
  let p' : Progress := ⟨p₂.allocated, p₂.objects.modify r (.stored q.descr q.index (value.getD .null))⟩
  refine ⟨p', ?_, (hg₁.trans_size hg₂).allocated, hknown, ?_⟩
  · have hbind₂ : target.bind (c.storeAt p₂).refOf = some r := htarget ▸ hbind p₁.allocated
    have hget : p₂.objects[r]? = some o := (hp₂.old.2 r hr).trans ho
    have hobj : (c.storeAt p₂).object r = o := by simp [Store.object, storeAt, hget]
    refine (ReadM.bind_ok he₁).trans ((ReadM.bind_ok he₂).trans ((ReadM.bind_ok store_ok).trans ?_))
    rw [hbind₂]
    dsimp only
    rw [hobj]
    have hmodify : ∀ {o' : Object}, .stored q.descr q.index (value.getD .null) o = o' →
        c.storeAt ⟨p₂.allocated, p₂.objects.modify r fun _ => o'⟩ = c.storeAt p' := fun h =>
      congrArg (fun objects => c.storeAt ⟨p₂.allocated, objects⟩) (modify_congr hget h.symm)
    cases hstorable with
    | field h =>
      rw [h] at hmodify ⊢
      exact congrArg (EStateM.Result.ok ((), c.reader p₂)) (hmodify rfl)
    | item => exact congrArg (EStateM.Result.ok ((), c.reader p₂)) (hmodify rfl)
  · rw [hperform, ← hvalue]
    exact hp₂.onStore ho hstorable.ne_str

theorem Storable.perform {q q' : Pending Tagged} (h : c.Storable q) {val : Tagged → Option Value} :
    (c.onStore (q'.perform val c.store)).Storable q := by
  obtain ⟨hground, r, o, href, ho, hs⟩ := h
  unfold Pending.perform
  split
  · rename_i r' _
    by_cases hr : r' = r
    · refine ⟨hground, r, _, href, ?_, hs.stored q'.descr q'.index ((val q'.value).getD .null)⟩
      change (c.store.objects.modify r' _)[r]? = _
      rw [Array.getElem?_modify, if_pos hr, ho]
      rfl
    · refine ⟨hground, r, o, href, ?_, hs⟩
      change (c.store.objects.modify r' _)[r]? = _
      rw [Array.getElem?_modify, if_neg hr, ho]
  · exact ⟨hground, r, o, href, ho, hs⟩

theorem Sound.perform (hc : c.Sound rank) (hq : c.Storable q) {allocated : List (Nat × Ref)} :
    (c.onStore (q.perform (c.value allocated) c.store)).Sound rank := by
  obtain ⟨hground, r, o, href, ho, hs⟩ := hq
  have hbind : (c.value allocated q.target).bind c.store.refOf = some r := by
    rw [value_eq_of_ground hground allocated [], href]
  unfold Pending.perform
  rw [hbind]
  exact hc.update ho hs.ne_str

theorem storeAt_perform (q : Pending Tagged) (val : Tagged → Option Value) : (c.onStore (q.perform val c.store)).storeAt p = c.storeAt p := by
  unfold Pending.perform
  split <;> rfl

theorem perform_mono (hq : c.Storable q) {allocated allocated' : List (Nat × Ref)} (hv : Known allocated q.value) (hs : allocated <:+ allocated')
    (hd : (allocated'.map Prod.fst).Nodup) : q.perform (c.value allocated') c.store = q.perform (c.value allocated) c.store := by
  unfold Pending.perform
  rw [value_eq_of_ground hq.1 allocated' allocated, value_mono hv hs hd]

/-- **All stores that were put off**, in their order. -/
theorem forM_applyPending (hc : c.Sound rank) (hp : c.Good [] [] p) {pending : List (Pending Tagged)}
    (hq : ∀ q ∈ pending, c.Storable q ∧ c.InRange q.value) :
    ∃ p', pending.forM Reader.applyPending (c.reader p) (c.storeAt p) = .ok ((), c.reader p') (c.storeAt p') ∧
      p.allocated <:+ p'.allocated ∧ (∀ q ∈ pending, Known p'.allocated q.value) ∧
      (c.onStore (pending.foldl (Pending.perform (c.value p'.allocated)) c.store)).Good [] [] p' := by
  induction pending generalizing c p with
  | nil => exact ⟨p, rfl, suffix_refl _, fun _ h => absurd h not_mem_nil, hp⟩
  | cons q rest ih =>
    obtain ⟨⟨hq, hv⟩, hrest⟩ := forall_mem_cons.1 hq
    obtain ⟨p₁, he₁, hs₁, hknown, hp₁⟩ := applyPending_spec hc hp hq hv
    obtain ⟨p₂, he₂, hs₂, hknowns, hp₂⟩ := ih (hc.perform hq) hp₁ fun q' hq' => ⟨(hrest q' hq').1.perform, (hrest q' hq').2⟩
    have hlast := perform_mono hq hknown hs₂ hp₂.nodup
    refine ⟨p₂, (ReadM.bind_ok he₁).trans ?_, hs₁.trans hs₂, forall_mem_cons.2 ⟨hknown.mono hs₂, hknowns⟩, ?_⟩
    · rw [storeAt_perform, storeAt_perform] at he₂
      exact he₂
    · rw [foldl_cons, hlast]
      exact hp₂

/-- **Rebuilding from resume data.** -/
theorem rebuild_spec (hc : c.Sound rank) (hlive : c.live.size = c.data.live.size) (hnumbering : ∀ x ∈ c.data.numbering, c.InRange x)
    (hpending : ∀ q ∈ c.data.pending, c.Storable q ∧ c.InRange q.value) :
    ∃ p, c.data.rebuild c.live.toList c.store = .ok (c.data.numbering.map (c.value p.allocated)) (c.storeAt p) ∧
      (∀ x ∈ c.data.numbering, Known p.allocated x) ∧ (∀ q ∈ c.data.pending, Known p.allocated q.value) ∧
      (c.onStore (c.data.pending.foldl (Pending.perform (c.value p.allocated)) c.store)).Good [] [] p := by
  have hread : c.Runs [] [] (c.data.numbering.mapM Reader.read) ⟨[], c.store.objects⟩ fun p out =>
      List.Forall₂ (fun x v => Known p.allocated x ∧ c.value p.allocated x = v) c.data.numbering out := by
    refine .mapM (R := fun p x v => Known p.allocated x ∧ c.value p.allocated x = v) ?_ (k := 0) ?_ (good_start c) (Nat.le_refl _)
    · rintro p p' x v hg hp' ⟨hx, rfl⟩
      exact ⟨hx.mono hg.allocated, value_mono hx hg.allocated hp'.nodup⟩
    · intro x hx p hp _
      obtain ⟨p', v, he, hg, hp', hv, hknown⟩ := read_spec hc (hnumbering x hx) hp
      exact ⟨p', v, he, hg, hp', hknown, hv.symm⟩
  obtain ⟨p₁, out, he₁, -, hp₁, hout⟩ := hread
  obtain ⟨hknown, hout⟩ := (List.forall₂_and_left ..).1 hout
  obtain ⟨p₂, he₂, hs, hknowns, hp₂⟩ := forM_applyPending hc hp₁ hpending
  have hout₂ : out = c.data.numbering.map (c.value p₂.allocated) := by
    rw [← List.forall₂_map_left_iff, List.forall₂_eq_eq_eq] at hout
    rw [← hout]
    exact map_congr_left fun x hx => (value_mono (hknown x hx) hs hp₂.nodup).symm
  refine ⟨p₂, ?_, fun x hx => (hknown x hx).mono hs, hknowns, hp₂⟩
  have hrun : Reader.rebuild (c.reader ⟨[], c.store.objects⟩) c.store = .ok (out, c.reader p₂) (c.storeAt p₂) :=
    (ReadM.bind_ok (m := get) rfl).trans ((ReadM.bind_ok he₁).trans ((ReadM.bind_ok (m := get) rfl).trans (ReadM.bind_ok he₂)))
  unfold ResumeData.rebuild
  rw [make_live hlive]
  change EStateM.bind (Reader.rebuild (c.reader ⟨[], c.store.objects⟩)) (fun r => pure r.1) c.store = _
  rw [EStateM.bind, hrun, hout₂]
  rfl

end Setting

end FlowCompiler.Trace

/-!
## Resume data there and back

What a guard saves is what a failure of the guard gets back.  The values that the machine saved for the live boxes
give every saved value its meaning, once every virtual object has its place in the heap; `meaning` says so of values,
as `Setting.value` does of numbers.

Numbers are given to values, not to objects: two values that stand for one virtual object become two objects.  So
that an object stays one object, one value only may name it.
-/

namespace FlowCompiler.Trace

variable {v : Value} {x : Tagged} {u : Option Value}

/-! ### What a guard saves -/

/-- The value of what is saved: live boxes have the values `val`, virtual objects are at their places. -/
def meaning (resolve : Value → Resolved) (val : Box → Value) (place : Value → Ref) (u : Option Value) : Option Value :=
  u.bind fun v => match resolve v with
    | .value none => none
    | .value (some (.const c)) => some (.const c)
    | .value (some (.box b)) => some (val b)
    | .virtual _ => some (.ofRef (place v))

/-- What a guard saves, itself or inside virtual objects. -/
inductive Reaches (resolve : Value → Resolved) (fail : List (Option Value)) (pending : List (Pending (Option Value))) : Value → Prop
  | fail {v : Value} (h : some v ∈ fail) : Reaches resolve fail pending v
  | pending {p : Pending (Option Value)} {v : Value} (hp : p ∈ pending) (h : p.value = some v) : Reaches resolve fail pending v
  | inside {u v : Value} {s : Shape (Option Value)} (hu : Reaches resolve fail pending u) (hs : resolve u = .virtual s)
      (hv : some v ∈ s.items) : Reaches resolve fail pending v

section Saved

variable (resolve : Value → Resolved) (val : Box → Value) (s : Store)

/-- A part of a string is a string: a virtual one, of a rank below `k`, or one of the heap. -/
def TextPart (rank : Value → Nat) (k : Nat) (u : Option Value) : Prop :=
  ∃ v, u = some v ∧ ((∃ t, resolve v = .virtual t ∧ t.kind.isString = true ∧ rank v < k) ∨
    (resolve v).isVirtual = false ∧ ∃ cs, s.chars? (meaning resolve val (fun _ => 0) u) = some cs)

/-- Virtual objects have the shapes of objects, and no string is inside itself. -/
def WellShaped (values : List Value) : Prop :=
  ∃ rank : Value → Nat, ∀ v ∈ values, ∀ t, resolve v = .virtual t → t.Sound (TextPart resolve val s rank (rank v)) (Grounded resolve)

/-- The target of a store that was put off is an object of the heap, which has what is stored into. -/
def StoresInto (p : Pending (Option Value)) : Prop :=
  ∃ r o, (meaning resolve val (fun _ => 0) p.target).bind s.refOf = some r ∧ s.objects[r]? = some o ∧ o.Storable p.descr

/-- A rebuilt state: `out` are the saved values, in the store `s'`. -/
structure Rebuilt {ι : Type} (object : Value → ι) (fail : List (Option Value)) (pending : List (Pending (Option Value)))
    (out : List (Option Value)) (s' : Store) (place : Value → Ref) : Prop where
  out : out = fail.map (meaning resolve val place)
  /-- Every virtual object is a new object with the right contents. -/
  realizes : ∀ v t, Reaches resolve fail pending v → resolve v = .virtual t →
    s.objects.size ≤ place v ∧ ∃ o, s'.objects[place v]? = some o ∧ Realizes s' (t.map (meaning resolve val place)) o
  /-- One object stays one object, and two stay two. -/
  identity : ∀ u v, Reaches resolve fail pending u → Reaches resolve fail pending v → (resolve u).isVirtual = true →
    (resolve v).isVirtual = true → (place u = place v ↔ object u = object v)
  /-- The objects of the heap are as the stores that were put off leave them. -/
  old : ∀ r < s.objects.size, s'.objects[r]? = (pending.foldl (Pending.perform (meaning resolve val place)) s).objects[r]?
  rest : s' = { s with objects := s'.objects }

end Saved

/-! ### From numbers to values -/

/-- Where the virtual objects are, by the values that name them. -/
def placeOf (keys : List (Value × Nat)) (allocated : List (Nat × Ref)) (v : Value) : Ref := ((keys.lookup v).bind (allocated.lookup ·)).getD 0

/-- What a reader gets, with the values of the live boxes. -/
def settingOf (data : ResumeData) (val : Box → Value) (s : Store) : Setting := ⟨data, data.live.map val, s⟩

variable {t : Shape (Option Value)}

section Encoded

variable {resolve : Value → Resolved} {values : List Value} {fail : List (Option Value)} {pending : List (Pending (Option Value))}
  {data : ResumeData} {keys : List (Value × Nat)} {val : Box → Value} {s : Store} {allocated : List (Nat × Ref)}

theorem map_eq_of_forall₂ {α β γ : Type} {R : α → β → Prop} {f : α → γ} {g : β → γ} {as : List α} {bs : List β}
    (h : List.Forall₂ R as bs) (hfg : ∀ b ∈ bs, ∀ a, R a b → g b = f a) : bs.map g = as.map f := by
  induction h with
  | nil => rfl
  | cons hab _ ih =>
    obtain ⟨hb, hbs⟩ := List.forall_mem_cons.1 hfg
    rw [List.map_cons, List.map_cons, hb _ hab, ih hbs]

theorem meaning_of_ground (hu : Grounded resolve u) (place place' : Value → Ref) : meaning resolve val place u = meaning resolve val place' u := by
  cases u with
  | none => rfl
  | some v =>
    have hv := hu v rfl
    rcases h : resolve v with (_ | b | c) | t
    · simp [meaning, h]
    · simp [meaning, h]
    · simp [meaning, h]
    · simp [h, Resolved.isVirtual] at hv

variable (he : Encodes resolve values fail pending data keys)

include he

theorem Encodes.entry_of_lt {i : Nat} (hi : i < data.virtuals.size) :
    ∃ v t nums, (v, i) ∈ keys ∧ resolve v = .virtual t ∧ data.virtuals[i]? = some (t.withItems nums) ∧
      List.Forall₂ (Stands resolve data.consts data.live keys) t.items nums := by
  have hmem : i ∈ keys.map Prod.snd := by
    rw [he.indices]
    simpa using hi
  obtain ⟨⟨v, i⟩, hv, rfl⟩ := List.mem_map.1 hmem
  obtain ⟨t, nums, ht, hget, hnums⟩ := he.entry v i hv
  exact ⟨v, t, nums, hv, ht, hget, hnums⟩

theorem Encodes.index_lt {i : Nat} (hi : (v, i) ∈ keys) : i < data.virtuals.size := by
  obtain ⟨t, nums, -, hget, -⟩ := he.entry v i hi
  exact (getElem?_eq_some_iff.1 hget).1

variable (hfits : data.Fits)

include hfits

section

variable (hx : Stands resolve data.consts data.live keys u x)
include hx

theorem Encodes.of_tag_virtual (ht : x.tag = .virtual) : ∃ v, u = some v ∧ (v, x.value.toNat) ∈ keys := by
  cases hx with
  | hole => simp [Tagged.unassigned, Tagged.tag_make] at ht
  | lost => simp [Tagged.unassigned, Tagged.tag_make] at ht
  | small => simp [Tagged.tag_make] at ht
  | const => simp [Tagged.tag_make] at ht
  | box => simp [Tagged.tag_make] at ht
  | @virtual v t i hv hi =>
    have hlt := he.index_lt hi
    have hle := hfits.2.2
    rw [Tagged.value_make (Tagged.fits_of_lt (by omega))]
    exact ⟨v, rfl, hi⟩

theorem Encodes.inRange (ht : x.tag = .virtual) : x.value.toNat < data.virtuals.size := by
  obtain ⟨v, -, hi⟩ := he.of_tag_virtual hfits hx ht
  exact he.index_lt hi

theorem Encodes.value_eq (hknown : Known allocated x) (hd : (allocated.map Prod.fst).Nodup) :
    (settingOf data val s).value allocated x = meaning resolve val (placeOf keys allocated) u := by
  obtain ⟨hconsts, hlive, hvirtuals⟩ := hfits
  have hfits {i n : Nat} (hi : i < n) (hn : n ≤ 536870912) : Tagged.Fits (i : Int) := Tagged.fits_of_lt (by omega)
  cases hx with
  | hole => rfl
  | lost h => simp [meaning, h, Setting.value]
  | @small v k h hk =>
    have hfits := Tagged.fits_of_isSmall hk
    rw [Setting.value, if_neg (Tagged.make_ne_unassigned hfits (by rintro ⟨⟩)), Tagged.tag_make, Tagged.value_make hfits]
    simp [meaning, h, Value.ofInt]
  | @const v c i h _ hi =>
    have hfits := hfits (getElem?_eq_some_iff.1 hi).1 hconsts
    rw [Setting.value, if_neg (Tagged.make_ne_unassigned hfits (by rintro ⟨⟩)), Tagged.tag_make, Tagged.value_make hfits]
    simp [meaning, h, settingOf, hi]
  | @box v b i h hi =>
    have hfits := hfits (getElem?_eq_some_iff.1 hi).1 hlive
    rw [Setting.value, if_neg (Tagged.make_ne_unassigned hfits fun _ => by omega), Tagged.tag_make, Tagged.value_make hfits]
    simp [meaning, h, settingOf, hi]
  | @virtual v t i h hi =>
    have hfits := hfits (he.index_lt hi) hvirtuals
    have hmem := hknown (Tagged.tag_make ..)
    rw [Tagged.value_make hfits] at hmem
    obtain ⟨⟨j, r⟩, hr, hj : j = ((i : Int)).toNat⟩ := List.mem_map.1 hmem
    obtain rfl : j = i := by omega
    rw [Setting.value, if_neg (Tagged.make_ne_unassigned hfits (by rintro ⟨⟩)), Tagged.tag_make, Tagged.value_make hfits]
    simp [meaning, h, placeOf, lookup_of_mem he.nodup hi, lookup_of_mem hd hr]

theorem Encodes.value_of_ground (hu : Grounded resolve u) : (settingOf data val s).value [] x = meaning resolve val (fun _ => 0) u := by
  refine (he.value_eq hfits hx (fun hv => absurd hv (hx.tag_ne_virtual hu)) (by simp)).trans (meaning_of_ground hu _ _)

end

theorem Encodes.sound (hshape : WellShaped resolve val s values) : ∃ rank, (settingOf data val s).Sound rank := by
  obtain ⟨rank, hshape⟩ := hshape
  let rankOf (i : Nat) : Nat := (((keys.map Prod.swap).lookup i).map rank).getD 0
  have hrank : ∀ v i, (v, i) ∈ keys → rankOf i = rank v := by
    intro v i hi
    have hd : ((keys.map Prod.swap).map Prod.fst).Nodup := by
      rw [List.map_map]
      change (keys.map Prod.snd).Nodup
      rw [he.indices]
      exact List.nodup_reverse.2 List.nodup_range
    have := lookup_of_mem hd (List.mem_map.2 ⟨(v, i), hi, rfl⟩)
    simp [rankOf, this]
  refine ⟨rankOf, fun i t hi n hn hv => ?_, fun i t hi => ?_⟩
  · obtain ⟨v, t', nums, -, -, hget, hnums⟩ := he.entry_of_lt (getElem?_eq_some_iff.1 hi).1
    cases hi.symm.trans hget
    obtain ⟨u, -, hu⟩ := exists_of_forall₂' hnums hn
    exact he.inRange hfits hu hv
  · obtain ⟨v, t', nums, hkey, ht, hget, hnums⟩ := he.entry_of_lt (getElem?_eq_some_iff.1 hi).1
    cases hi.symm.trans hget
    refine (hshape v (he.mem _ hkey) t' ht).transfer hnums ?_ fun u x hx hu => hx.tag_ne_virtual hu
    rintro u x hx ⟨w, rfl, ⟨t, hw, hk, hlt⟩ | ⟨hw, cs, hcs⟩⟩
    · refine ⟨fun hv => ?_, fun hv => ?_⟩
      · obtain ⟨w', e, hi'⟩ := he.of_tag_virtual hfits hx hv
        cases e
        obtain ⟨t'', nums', ht'', hget', -⟩ := he.entry w _ hi'
        cases hw.symm.trans ht''
        refine ⟨⟨_, hget', hk⟩, ?_⟩
        rw [hrank _ _ hi', hrank _ _ hkey]
        exact hlt
      · cases hx <;> simp_all [Tagged.tag_make]
    · have hground : Grounded resolve (some w) := by rintro _ ⟨⟩; exact hw
      refine ⟨fun hv => absurd hv (hx.tag_ne_virtual hground), fun _ => ⟨cs, ?_⟩⟩
      rw [he.value_of_ground hfits hx hground]
      exact hcs

theorem Encodes.storable {p : Pending (Option Value)} {q : Pending Tagged} (hq : StandsFor resolve data keys p q)
    (hground : Grounded resolve p.target) (hp : StoresInto resolve val s p) : (settingOf data val s).Storable q := by
  obtain ⟨r, o, href, ho, hs⟩ := hp
  exact ⟨hq.target.tag_ne_virtual hground, r, o, by rw [he.value_of_ground hfits hq.target hground]; exact href, ho, by
    rw [hq.descr]
    exact hs⟩

theorem Encodes.foldl_perform (hd : (allocated.map Prod.fst).Nodup) {ps : List (Pending (Option Value))} {qs : List (Pending Tagged)}
    (hq : List.Forall₂ (StandsFor resolve data keys) ps qs) (hground : ∀ p ∈ ps, Grounded resolve p.target)
    (hknown : ∀ q ∈ qs, Known allocated q.value) (s' : Store) : qs.foldl (Pending.perform ((settingOf data val s).value allocated)) s' =
      ps.foldl (Pending.perform (meaning resolve val (placeOf keys allocated))) s' := by
  induction hq generalizing s' with
  | nil => rfl
  | @cons p q ps qs hpq _ ih =>
    obtain ⟨hg, hground⟩ := List.forall_mem_cons.1 hground
    obtain ⟨hk, hknown⟩ := List.forall_mem_cons.1 hknown
    have htarget : (settingOf data val s).value allocated q.target = meaning resolve val (placeOf keys allocated) p.target :=
      he.value_eq hfits hpq.target (fun hv => absurd hv (hpq.target.tag_ne_virtual hg)) hd
    have hvalue : (settingOf data val s).value allocated q.value = meaning resolve val (placeOf keys allocated) p.value :=
      he.value_eq hfits hpq.value hk hd
    have hone : q.perform ((settingOf data val s).value allocated) s' = p.perform (meaning resolve val (placeOf keys allocated)) s' := by
      unfold Pending.perform
      rw [htarget, hvalue, hpq.descr, hpq.index]
    rw [List.foldl_cons, List.foldl_cons, hone, ih hground hknown]

theorem Encodes.known_of_reaches {p : Progress} {s' : Store} (hgood : ((settingOf data val s).onStore s').Good [] [] p)
    (hfail : ∀ x ∈ data.numbering, Known p.allocated x) (hpending : ∀ q ∈ data.pending, Known p.allocated q.value)
    (hv : Reaches resolve fail pending v) : ∃ x, Stands resolve data.consts data.live keys (some v) x ∧ Known p.allocated x := by
  induction hv with
  | fail h =>
    obtain ⟨x, hx, hvx⟩ := exists_of_forall₂ he.numbering h
    exact ⟨x, hvx, hfail x hx⟩
  | pending hp h =>
    obtain ⟨q, hq, hpq⟩ := exists_of_forall₂ he.pending hp
    exact ⟨q.value, h ▸ hpq.value, hpending q hq⟩
  | @inside u v t hu hs hv ih =>
    obtain ⟨x, hx, hknown⟩ := ih
    have htag : x.tag = .virtual := by
      cases hx <;> simp_all [Tagged.tag_make]
    obtain ⟨u', e, hkey⟩ := he.of_tag_virtual hfits hx htag
    cases e
    obtain ⟨⟨i, r⟩, hr, hi : i = x.value.toNat⟩ := List.mem_map.1 (hknown htag)
    subst hi
    obtain ⟨t', nums, ht', hget, hnums⟩ := he.entry u _ hkey
    cases hs.symm.trans ht'
    obtain ⟨shape, hshape, hdone⟩ := hgood.entry _ r hr
    cases hget.symm.trans hshape
    have hdone := hdone.resolve_left fun h => List.not_mem_nil h.1
    obtain ⟨y, hy, hvy⟩ := exists_of_forall₂ hnums hv
    exact ⟨y, hvy, hdone.known y hy⟩

section Places

variable {p : Progress} {s' : Store} (hgood : ((settingOf data val s).onStore s').Good [] [] p) (hfail : ∀ x ∈ data.numbering, Known p.allocated x)
  (hpending : ∀ q ∈ data.pending, Known p.allocated q.value)

include hgood hfail hpending

theorem Encodes.place_of_reaches (hv : Reaches resolve fail pending v)
    (ht : resolve v = .virtual t) : ∃ i, (v, i) ∈ keys ∧ (i, placeOf keys p.allocated v) ∈ p.allocated := by
  obtain ⟨x, hx, hknown⟩ := he.known_of_reaches hfits hgood hfail hpending hv
  have htag : x.tag = .virtual := by cases hx <;> simp_all [Tagged.tag_make]
  obtain ⟨_, e, hkey⟩ := he.of_tag_virtual hfits hx htag
  cases e
  obtain ⟨⟨i, r⟩, hr, hi : i = x.value.toNat⟩ := List.mem_map.1 (hknown htag)
  subst hi
  have hplace : placeOf keys p.allocated v = r := by
    simp [placeOf, lookup_of_mem he.nodup hkey, lookup_of_mem hgood.nodup hr]
  exact ⟨_, hkey, hplace ▸ hr⟩

theorem Encodes.realizes (hobjects : s' = { s with objects := s'.objects }) (hv : Reaches resolve fail pending v) (ht : resolve v = .virtual t) :
    ∃ o, p.objects[placeOf keys p.allocated v]? = some o ∧
      Realizes ((settingOf data val s).storeAt p) (t.map (meaning resolve val (placeOf keys p.allocated))) o := by
  obtain ⟨i, hkey, hr⟩ := he.place_of_reaches hfits hgood hfail hpending hv ht
  obtain ⟨t', nums, ht', hget, hnums⟩ := he.entry v i hkey
  cases ht.symm.trans ht'
  obtain ⟨shape, hshape, hdone⟩ := hgood.entry i _ hr
  cases hget.symm.trans hshape
  have hdone := hdone.resolve_left fun h => List.not_mem_nil h.1
  obtain ⟨o, ho, hreal⟩ := hdone.realizes
  refine ⟨o, ho, ?_⟩
  have hitems := map_eq_of_forall₂ hnums (g := (settingOf data val s).value p.allocated)
    (f := meaning resolve val (placeOf keys p.allocated)) fun x hx u hu => he.value_eq hfits hu (hdone.known x hx) hgood.nodup
  have hstore : ((settingOf data val s).onStore s').storeAt p = (settingOf data val s).storeAt p := by
    rw [hobjects]
    rfl
  have hmap : (t.withItems nums).map ((settingOf data val s).value p.allocated) =
      t.map (meaning resolve val (placeOf keys p.allocated)) := congrArg t.withItems hitems
  rw [hstore] at hreal
  exact hmap ▸ hreal

/-- Different places are places of different values. -/
theorem Encodes.place_injective {u v : Value} {t t' : Shape (Option Value)} (hu : Reaches resolve fail pending u)
    (hv : Reaches resolve fail pending v) (hut : resolve u = .virtual t) (hvt : resolve v = .virtual t')
    (h : placeOf keys p.allocated u = placeOf keys p.allocated v) : u = v := by
  obtain ⟨i, hi, hr⟩ := he.place_of_reaches hfits hgood hfail hpending hu hut
  obtain ⟨j, hj, hr'⟩ := he.place_of_reaches hfits hgood hfail hpending hv hvt
  have hij : i = j := congrArg Prod.fst (List.inj_on_of_nodup_map hgood.refs hr hr' h)
  have hsnd : (keys.map Prod.snd).Nodup := he.indices ▸ List.nodup_reverse.2 List.nodup_range
  exact congrArg Prod.fst (List.inj_on_of_nodup_map hsnd hi hj hij)

end Places

end Encoded

/-! ### The round trip -/

theorem foldl_perform_objects {α : Type} (val : α → Option Value) (qs : List (Pending α)) (s : Store) :
    qs.foldl (Pending.perform val) s = { s with objects := (qs.foldl (Pending.perform val) s).objects } ∧
      (qs.foldl (Pending.perform val) s).objects.size = s.objects.size := by
  induction qs generalizing s with
  | nil => exact ⟨rfl, rfl⟩
  | cons q qs ih =>
    have hone : q.perform val s = { s with objects := (q.perform val s).objects } ∧ (q.perform val s).objects.size = s.objects.size := by
      unfold Pending.perform
      split
      · exact ⟨rfl, by simp [Store.updateObject]⟩
      · exact ⟨rfl, rfl⟩
    obtain ⟨hrest, hsize⟩ := ih (q.perform val s)
    rw [List.foldl_cons]
    refine ⟨?_, hsize.trans hone.2⟩
    rw [hone.1] at hrest
    exact hone.1 ▸ hrest

theorem Mentions.mem_of_reaches {resolve : Value → Resolved} {values : List Value} {fail : List (Option Value)}
    {pending : List (Pending (Option Value))} (hm : Mentions resolve values fail pending) (hv : Reaches resolve fail pending v) : v ∈ values := by
  induction hv with
  | fail h => exact hm.fail _ h
  | pending hp h => exact hm.value _ hp _ h
  | inside _ hs hv ih => exact hm.closed _ ih _ hs _ hv

/-- **Resume data there and back.**  Whatever a guard saves, building the resume data and rebuilding from them with the
values of the live boxes gives the saved values back, with every virtual object in a place of its own, as long as no
two values of the guard stand for one virtual object. -/
theorem rebuild_build {resolve : Value → Resolved} {values : List Value} {fail : List (Option Value)}
    {pending : List (Pending (Option Value))} {fuel : Nat} {describe : Descr → String} {val : Box → Value} {s : Store}
    {ι : Type} {object : Value → ι} (hm : Mentions resolve values fail pending) (hfuel : (virtualsOf resolve values).length < fuel)
    (hsize : values.length ≤ 536870912) (hshape : WellShaped resolve val s values) (hstores : ∀ p ∈ pending, StoresInto resolve val s p)
    (hobject : ∀ u ∈ values, ∀ v ∈ values, (resolve u).isVirtual = true → (resolve v).isVirtual = true → object u = object v → u = v) :
    ∃ data out s' place, ResumeData.build resolve fuel describe fail pending = .ok data ∧
      data.rebuild (data.live.toList.map val) s = .ok out s' ∧ Rebuilt resolve val s object fail pending out s' place := by
  obtain ⟨data, keys, hbuild, he⟩ := build_spec describe hm hfuel
  have hfits : data.Fits := ⟨Nat.le_trans he.consts_le hsize, Nat.le_trans he.live_le hsize, Nat.le_trans he.virtuals_le hsize⟩
  obtain ⟨rank, hc⟩ := he.sound hfits hshape
  obtain ⟨p, hrun, hfail, hpending, hgood⟩ := Setting.rebuild_spec hc (by simp [settingOf])
    (fun x hx => by
      obtain ⟨u, -, hu⟩ := exists_of_forall₂' he.numbering hx
      exact he.inRange hfits hu)
    (fun q hq => by
      obtain ⟨p, hp, hpq⟩ := exists_of_forall₂' he.pending hq
      exact ⟨he.storable hfits hpq (hm.grounded p hp) (hstores p hp), he.inRange hfits hpq.value⟩)
  have hfold : data.pending.foldl (Pending.perform ((settingOf data val s).value p.allocated)) s =
      pending.foldl (Pending.perform (meaning resolve val (placeOf keys p.allocated))) s :=
    he.foldl_perform hfits hgood.nodup he.pending hm.grounded hpending s
  refine ⟨data, data.numbering.map ((settingOf data val s).value p.allocated), (settingOf data val s).storeAt p,
    placeOf keys p.allocated, hbuild, by simpa [settingOf] using hrun, ?_, ?_, ?_, ?_, rfl⟩
  · exact map_eq_of_forall₂ he.numbering fun x hx u hu => he.value_eq hfits hu (hfail x hx) hgood.nodup
  · intro v t hv ht
    obtain ⟨i, -, hr⟩ := he.place_of_reaches hfits hgood hfail hpending hv ht
    have hsame := (foldl_perform_objects ((settingOf data val s).value p.allocated) data.pending s).2
    exact ⟨hsame ▸ (hgood.fresh _ hr).1, he.realizes hfits hgood hfail hpending (foldl_perform_objects ..).1 hv ht⟩
  · intro u v hu hv hut hvt
    obtain ⟨t, ht⟩ : ∃ t, resolve u = .virtual t := by cases h : resolve u <;> simp_all [Resolved.isVirtual]
    obtain ⟨t', ht'⟩ : ∃ t, resolve v = .virtual t := by cases h : resolve v <;> simp_all [Resolved.isVirtual]
    constructor
    · intro h
      rw [he.place_injective hfits hgood hfail hpending hu hv ht ht' h]
    · intro h
      rw [hobject u (hm.mem_of_reaches hu) v (hm.mem_of_reaches hv) hut hvt h]
  · intro r hr
    have hold := hgood.old.2 r (by rw [← (foldl_perform_objects ((settingOf data val s).value p.allocated) data.pending s).2] at hr; exact hr)
    exact hold.trans (congrArg (fun s' : Store => s'.objects[r]?) hfold)

/-! ### Values as the optimizer knows them -/

namespace OptimizeM

variable {s : OptimizeState}

theorem id?_of_isVirtual (h : (resolve s v).isVirtual = true) : ∃ i, s.id? v = some i ∧ i < s.infos.size := by
  unfold resolve at h
  cases hi : s.id? v with
  | none => rw [hi] at h; cases h
  | some i =>
    rw [hi] at h
    refine ⟨i, rfl, Nat.lt_of_not_le fun hle => ?_⟩
    have hdefault : s.info i = default := by rw [OptimizeState.info, Array.getElem?_eq_none hle]; rfl
    dsimp only at h
    rw [hdefault] at h
    cases h

/-- There are not more virtual objects than entries, when each one has one name. -/
theorem virtualsOf_length_le {values : List Value} (hd : values.Nodup)
    (hid : ∀ u ∈ values, ∀ v ∈ values, (resolve s u).isVirtual = true → (resolve s v).isVirtual = true → s.id? u = s.id? v → u = v) :
    (virtualsOf (resolve s) values).length ≤ s.infos.size := by
  have hnodup : ((virtualsOf (resolve s) values).map s.id?).Nodup := by
    refine (hd.filter _).map_on fun u hu v hv h => ?_
    obtain ⟨hu, hu'⟩ := List.mem_filter.1 hu
    obtain ⟨hv, hv'⟩ := List.mem_filter.1 hv
    exact hid u hu v hv hu' hv' h
  have hsub : (virtualsOf (resolve s) values).map s.id? ⊆ (List.range s.infos.size).map some := by
    intro i hi
    obtain ⟨v, hv, rfl⟩ := List.mem_map.1 hi
    obtain ⟨j, hj, hlt⟩ := id?_of_isVirtual (List.mem_filter.1 hv).2
    exact hj ▸ List.mem_map_of_mem (List.mem_range.2 hlt)
  simpa using (List.subperm_of_subset hnodup hsub).length_le

/-- **The resume data of a guard there and back.**  The data that the optimizer makes for a guard rebuild what the guard
saves, when each virtual object that it mentions is named by one value. -/
theorem rebuild_guard {values : List Value} {fail : List (Option Value)} {val : Box → Value} {heap : Store}
    (hm : Mentions (resolve s) values fail s.pending) (hsize : values.length ≤ 536870912)
    (hshape : WellShaped (resolve s) val heap values) (hstores : ∀ p ∈ s.pending, StoresInto (resolve s) val heap p)
    (hid : ∀ u ∈ values, ∀ v ∈ values, (resolve s u).isVirtual = true → (resolve s v).isVirtual = true → s.id? u = s.id? v → u = v) :
    ∃ data out heap' place, ResumeData.build (resolve s) (s.infos.size + 2) s.store.descrText fail s.pending = .ok data ∧
      data.rebuild (data.live.toList.map val) heap = .ok out heap' ∧
      Rebuilt (resolve s) val heap s.id? fail s.pending out heap' place := by
  have hdedup : ∀ {v}, v ∈ values.dedup ↔ v ∈ values := List.mem_dedup
  have hm' : Mentions (resolve s) values.dedup fail s.pending := by
    refine ⟨?_, ?_, ?_, ?_, hm.grounded⟩
    · exact fun v hv t ht u hu => hdedup.2 (hm.closed v (hdedup.1 hv) t ht u hu)
    · exact fun v hv => hdedup.2 (hm.fail v hv)
    · exact fun p hp v hv => hdedup.2 (hm.target p hp v hv)
    · exact fun p hp v hv => hdedup.2 (hm.value p hp v hv)
  have hid' : ∀ u ∈ values.dedup, ∀ v ∈ values.dedup, (resolve s u).isVirtual = true → (resolve s v).isVirtual = true →
      s.id? u = s.id? v → u = v := fun u hu v hv => hid u (hdedup.1 hu) v (hdedup.1 hv)
  obtain ⟨rank, hrank⟩ := hshape
  have hfuel := virtualsOf_length_le (List.nodup_dedup values) hid'
  exact rebuild_build hm' (by omega) (Nat.le_trans (List.dedup_sublist values).length_le hsize)
    ⟨rank, fun v hv => hrank v (hdedup.1 hv)⟩ hstores hid'

/-- Two virtual structures that refer to each other; the second one also holds a live box. -/
def linked : OptimizeState :=
  let r0 : Value := .box ⟨0, .ref⟩
  let r1 : Value := .box ⟨1, .ref⟩
  let i2 : Value := .box ⟨2, .int⟩
  { ids := ((({} : Std.HashMap Value InfoId).insert r0 0).insert r1 1).insert i2 2
    infos := #[{ box := none, key := r0, virt := some (.struct (some 0) none [(0, 1)]) },
      { box := none, key := r1, virt := some (.struct none none [(0, 0), (1, 2)]) }, { box := some i2, key := i2 }]
    pending := [{ descr := .field 3, target := some (.const (.ptr (some 0))), value := some r1, index := none }] }

theorem id?_linked : linked.id? (.box ⟨0, .ref⟩) = some 0 ∧ linked.id? (.box ⟨1, .ref⟩) = some 1 ∧
    linked.id? (.box ⟨2, .int⟩) = some 2 ∧ linked.id? (.const (.ptr (some 0))) = none := by
  simp [linked, OptimizeState.id?, Value.key?, Std.HashMap.getElem?_insert]

theorem resolve_linked :
      (resolve linked (.box ⟨0, .ref⟩) = .virtual { kind := .struct, size := some 0, fields := [0], items := [some (.box ⟨1, .ref⟩)] } ∧
    resolve linked (.box ⟨1, .ref⟩) = .virtual { kind := .struct, fields := [0, 1], items := [some (.box ⟨0, .ref⟩), some (.box ⟨2, .int⟩)] }) ∧
    resolve linked (.box ⟨2, .int⟩) = .value (some (.box ⟨2, .int⟩)) ∧
    resolve linked (.const (.ptr (some 0))) = .value (some (.const (.ptr (some 0)))) := by
  obtain ⟨h0, h1, h2, hc⟩ := id?_linked
  refine ⟨⟨?_, ?_⟩, ?_, ?_⟩ <;> unfold resolve
  · rw [h0]; rfl
  · rw [h1]; rfl
  · rw [h2]; rfl
  · rw [hc]

/-- The two objects are rebuilt, refer to each other, and the heap has the store that was put off. -/
theorem rebuild_linked : ∃ data out heap' place,
    ResumeData.build (resolve linked) 5 linked.store.descrText [some (.box ⟨0, .ref⟩), none, some (.box ⟨1, .ref⟩)] linked.pending = .ok data ∧
      data.rebuild (data.live.toList.map fun _ => .ofInt 7) { objects := #[.struct none none []] } = .ok out heap' ∧
      Rebuilt (resolve linked) (fun _ => .ofInt 7) { objects := #[.struct none none []] } linked.id?
        [some (.box ⟨0, .ref⟩), none, some (.box ⟨1, .ref⟩)] linked.pending out heap' place := by
  obtain ⟨⟨h0, h1⟩, h2, hc⟩ := resolve_linked
  obtain ⟨i0, i1, i2, ic⟩ := id?_linked
  have hp : linked.pending = [{ descr := .field 3, target := some (.const (.ptr (some 0))), value := some (.box ⟨1, .ref⟩), index := none }] := rfl
  refine @rebuild_guard linked [.box ⟨0, .ref⟩, .box ⟨1, .ref⟩, .box ⟨2, .int⟩, .const (.ptr (some 0))] _ _ _ ?_ (by decide) ?_ ?_ ?_
  · constructor <;> simp [Closed, Grounded, hp, h0, h1, h2, hc, Resolved.isVirtual]
  · refine ⟨fun _ => 0, ?_⟩
    simp [h0, h1, h2, hc, Shape.Sound]
  · simp [hp, StoresInto, meaning, hc, Store.refOf, Store.constOf, Const.ref?, Object.Storable.field]
  · simp [h0, h1, h2, hc, i0, i1, Resolved.isVirtual]

/-- A virtual structure that two boxes stand for. -/
def aliased : OptimizeState :=
  { ids := ((({} : Std.HashMap Value InfoId).insert (.box ⟨0, .ref⟩) 0).insert (.box ⟨2, .ref⟩) 0).insert (.box ⟨1, .int⟩) 1
    infos := #[{ box := none, key := .box ⟨0, .ref⟩, virt := some (.struct none none [(0, 1)]) },
      { box := some (.box ⟨1, .int⟩), key := .box ⟨1, .int⟩ }] }

theorem id?_aliased : aliased.id? (.box ⟨0, .ref⟩) = some 0 ∧ aliased.id? (.box ⟨2, .ref⟩) = some 0 ∧ aliased.id? (.box ⟨1, .int⟩) = some 1 := by
  simp [aliased, OptimizeState.id?, Value.key?, Std.HashMap.getElem?_insert]

/-- The guard saves one object under two names, and gets two objects back. -/
theorem rebuild_aliased : aliased.id? (.box ⟨0, .ref⟩) = aliased.id? (.box ⟨2, .ref⟩) ∧
    ∃ data heap' r r', ResumeData.build (resolve aliased) 4 aliased.store.descrText [some (.box ⟨0, .ref⟩), some (.box ⟨2, .ref⟩)] [] = .ok data ∧
      data.rebuild (data.live.toList.map fun _ => .ofInt 7) {} = .ok [some (.ofRef r), some (.ofRef r')] heap' ∧ r ≠ r' := by
  obtain ⟨i0, i2, i1⟩ := id?_aliased
  have h0 : resolve aliased (.box ⟨0, .ref⟩) = .virtual { kind := .struct, fields := [0], items := [some (.box ⟨1, .int⟩)] } := by
    unfold resolve; rw [i0]; rfl
  have h2 : resolve aliased (.box ⟨2, .ref⟩) = .virtual { kind := .struct, fields := [0], items := [some (.box ⟨1, .int⟩)] } := by
    unfold resolve; rw [i2]; rfl
  have h1 : resolve aliased (.box ⟨1, .int⟩) = .value (some (.box ⟨1, .int⟩)) := by
    unfold resolve; rw [i1]; rfl
  obtain ⟨data, out, heap', place, hbuild, hrun, hrebuilt⟩ :=
    @rebuild_build (resolve aliased) [.box ⟨0, .ref⟩, .box ⟨2, .ref⟩, .box ⟨1, .int⟩] [some (.box ⟨0, .ref⟩), some (.box ⟨2, .ref⟩)] [] 4
      aliased.store.descrText (fun _ => .ofInt 7) {} Value id (by constructor <;> simp [Closed, h0, h1, h2])
      (by simp [virtualsOf, h0, h1, h2, Resolved.isVirtual]) (by decide) ⟨fun _ => 0, by simp [h0, h1, h2, Shape.Sound]⟩ (by simp)
      (fun _ _ _ _ _ _ h => h)
  refine ⟨i0.trans i2.symm, data, heap', place (.box ⟨0, .ref⟩), place (.box ⟨2, .ref⟩), hbuild, ?_, fun h => ?_⟩
  · rw [hrun, hrebuilt.out]
    simp [meaning, h0, h2]
  · have := (hrebuilt.identity (.box ⟨0, .ref⟩) (.box ⟨2, .ref⟩) (.fail (by simp)) (.fail (by simp)) (h0 ▸ rfl) (h2 ▸ rfl)).1 h
    simp at this

end OptimizeM

end FlowCompiler.Trace
