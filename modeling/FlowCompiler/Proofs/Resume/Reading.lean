import FlowCompiler.Proofs.Resume.Numbers
import FlowCompiler.Trace.Rebuild

/-!
# Reading resume data

Every number is read as its value: `Setting.Runs` is a run that keeps the invariant, and `decode_spec` the main result.

A reader goes only as deep as its fuel.  On the way down every virtual object is met at most once: structures and
arrays because they are entered before their contents are read, strings because no part of a string leads back to
it.  So the strings that are being read have ranks that grow outwards, and none of them is met again.
-/

/-! ## Progress of a reader

A reader of resume data allocates a virtual object when it meets its number for the first time.  `Setting.value` is the
value of a number once the virtual objects are allocated, and `Realizes` says which object a virtual object becomes.

`Setting.Good` is the invariant of a reader.  A structure or an array is entered into the table of allocated objects
before its contents are read, so it is *opened* for a while; a string is entered after its parts, and is *busy* until
then. -/

namespace FlowCompiler.Trace

open List

variable {x : Tagged} {o : Object} {v : Option Value}

/-! ### Contents of objects -/

namespace Store

/-- The characters of a string value. -/
def chars? (s : Store) (v : Option Value) : Option (List Int) := (v.bind fun v => (s.refOf v).bind s.str?).map Prod.fst

/-- The character that a number stands for; a hole is the character zero. -/
def charOf (s : Store) (v : Option Value) : Int := (v.map fun v => Reader.toChar (s.intOf v)).getD 0

def numberOf (s : Store) (v : Option Value) : Int64 := (v.map s.intOf).getD 0

end Store

def ShapeKind.isString : ShapeKind → Bool
  | .plain | .concat | .slice => true
  | .struct | .array | .other _ => false

def Shape.map {α β : Type} (f : α → β) (s : Shape α) : Shape β := s.withItems (s.items.map f)

/-- What the contents of a shape have to be: `text` holds of strings, `ground` of what is no virtual object. -/
def Shape.Sound {α : Type} (text ground : α → Prop) (s : Shape α) : Prop :=
  match s.kind with
  | .struct => s.fields.Nodup ∧ s.fields.length = s.items.length
  | .array => True
  | .plain => ∀ a ∈ s.items, ground a
  | .concat => ∀ a ∈ s.items, text a
  | .slice => ∃ a b c, s.items = [a, b, c] ∧ text a ∧ ground b ∧ ground c
  | .other _ => False

theorem Shape.Sound.transfer {α β : Type} {text ground : α → Prop} {text' ground' : β → Prop} {R : α → β → Prop} {s : Shape α}
    {items : List β} (h : s.Sound text ground) (hR : List.Forall₂ R s.items items) (htext : ∀ a b, R a b → text a → text' b)
    (hground : ∀ a b, R a b → ground a → ground' b) : (s.withItems items).Sound text' ground' := by
  unfold Shape.Sound at h ⊢
  change match s.kind with
    | .struct => s.fields.Nodup ∧ s.fields.length = items.length
    | .array => True
    | .plain => ∀ b ∈ items, ground' b
    | .concat => ∀ b ∈ items, text' b
    | .slice => ∃ a b c, items = [a, b, c] ∧ text' a ∧ ground' b ∧ ground' c
    | .other _ => False
  cases hk : s.kind with
  | struct =>
    rw [hk] at h
    exact ⟨h.1, h.2.trans hR.length_eq⟩
  | array => trivial
  | plain =>
    rw [hk] at h
    intro b hb
    obtain ⟨a, ha, hab⟩ := exists_of_forall₂' hR hb
    exact hground a b hab (h a ha)
  | concat =>
    rw [hk] at h
    intro b hb
    obtain ⟨a, ha, hab⟩ := exists_of_forall₂' hR hb
    exact htext a b hab (h a ha)
  | slice =>
    rw [hk] at h
    obtain ⟨a, b, c, hitems, ha, hb, hc⟩ := h
    rw [hitems] at hR
    obtain _ | ⟨haa, _ | ⟨hbb, _ | ⟨hcc, _ | _⟩⟩⟩ := hR
    exact ⟨_, _, _, rfl, htext _ _ haa ha, hground _ _ hbb hb, hground _ _ hcc hc⟩
  | other n =>
    rw [hk] at h
    exact h

/-- The object that a virtual object becomes. -/
inductive Realizes (s : Store) (shape : Shape (Option Value)) : Object → Prop
  | struct (h : shape.kind = .struct) :
      Realizes s shape (.struct shape.size (shape.cls <|> shape.size.bind fun d => (s.size d).cls)
        ((shape.fields.zip shape.items).filterMap fun e => e.2.map (e.1, ·)))
  | array (h : shape.kind = .array) :
      Realizes s shape (.array (shape.array.getD 0) (shape.items.map (·.getD (.const (.zero (s.array (shape.array.getD 0)).item)))).toArray)
  | plain (h : shape.kind = .plain) : Realizes s shape (.str (shape.items.map s.charOf) shape.unicode)
  | concat (h : shape.kind = .concat) {parts : List (List Int)}
      (hparts : List.Forall₂ (fun v cs => s.chars? v = some cs) shape.items parts) :
      Realizes s shape (.str parts.flatten shape.unicode)
  | slice (h : shape.kind = .slice) {text start length : Option Value} {cs : List Int}
      (hitems : shape.items = [text, start, length]) (hcs : s.chars? text = some cs) :
      Realizes s shape (.str ((cs.drop (s.numberOf start).toInt.toNat).take (s.numberOf length).toInt.toNat) shape.unicode)

variable {allocated : List (Nat × Ref)} {s : Store} {cs : List Int} {allocated' : List (Nat × Ref)} {s' : Store}

theorem Realizes.str {shape : Shape (Option Value)} (h : Realizes s shape o) (hs : shape.kind.isString = true) : ∃ cs, o = .str cs shape.unicode := by
  cases h with
  | struct hk => simp [hk, ShapeKind.isString] at hs
  | array hk => simp [hk, ShapeKind.isString] at hs
  | plain => exact ⟨_, rfl⟩
  | concat => exact ⟨_, rfl⟩
  | slice => exact ⟨_, rfl⟩

/-! ### Progress of a reader -/

/-- How far a reader has come: the virtual objects that are allocated, and the objects of the heap. -/
structure Progress where
  allocated : List (Nat × Ref)
  objects : Array Object

/-- More is allocated.  The objects below a bound, and all strings, are as they were. -/
structure Progress.Grows (m : Nat) (p p' : Progress) : Prop where
  allocated : p.allocated <:+ p'.allocated
  size : p.objects.size ≤ p'.objects.size
  same : ∀ k < m, p'.objects[k]? = p.objects[k]?
  text : ∀ (r : Ref) cs u, p.objects[r]? = some (.str cs u) → p'.objects[r]? = some (.str cs u)

namespace Progress.Grows

variable {m : Nat} {p p' p'' : Progress}

theorem refl (m : Nat) (p : Progress) : p.Grows m p := ⟨suffix_refl _, Nat.le_refl _, fun _ _ => rfl, fun _ _ _ h => h⟩

theorem trans (h : p.Grows m p') (h' : p'.Grows m p'') : p.Grows m p'' :=
  ⟨h.allocated.trans h'.allocated, Nat.le_trans h.size h'.size, fun k hk => (h'.same k hk).trans (h.same k hk),
    fun r cs u hr => h'.text r cs u (h.text r cs u hr)⟩

theorem mono {m' : Nat} (h : p.Grows m p') (hm : m' ≤ m) : p.Grows m' p' := { h with same := fun k hk => h.same k (Nat.lt_of_lt_of_le hk hm) }

theorem trans_size (h : p.Grows p.objects.size p') (h' : p'.Grows p'.objects.size p'') : p.Grows p.objects.size p'' := h.trans (h'.mono h.size)

theorem enter (p : Progress) (i : Nat) (o : Object) : p.Grows p.objects.size ⟨(i, p.objects.size) :: p.allocated, p.objects.push o⟩ := by
  refine ⟨suffix_cons _ _, by simp, fun k hk => by simp [Array.getElem?_push, Nat.ne_of_lt hk], fun r cs u hr => ?_⟩
  simpa [Array.getElem?_push, Nat.ne_of_lt (Array.getElem?_eq_some_iff.1 hr).1] using hr

end Progress.Grows

/-- Resume data, the live values, and the store that the reader starts with. -/
structure Setting where
  data : ResumeData
  live : Array Value
  store : Store

namespace Setting

variable (c : Setting)

def reader (p : Progress) : Reader := ⟨c.data, c.live, p.allocated⟩

def storeAt (p : Progress) : Store := { c.store with objects := p.objects }

/-- The value of a number. -/
def value (allocated : List (Nat × Ref)) (x : Tagged) : Option Value :=
  if x = .unassigned then none
  else match x.tag with
    | .int => some (.ofInt x.value)
    | .const => (c.data.consts[x.value.toNat]?).map .const
    | .box => c.live[x.value.toNat]?
    | .virtual => (allocated.lookup x.value.toNat).map .ofRef

end Setting

/-- The virtual object that a number stands for is allocated. -/
def Known (allocated : List (Nat × Ref)) (x : Tagged) : Prop := x.tag = .virtual → x.value.toNat ∈ allocated.map Prod.fst

theorem Known.mono (h : Known allocated x) (hs : allocated <:+ allocated') : Known allocated' x := fun hx => (hs.map _).mem (h hx)

namespace Setting

variable {c : Setting}

theorem value_eq_of_ground (h : x.tag ≠ .virtual) (allocated allocated' : List (Nat × Ref)) : c.value allocated x = c.value allocated' x := by
  unfold value
  split
  · rfl
  · split <;> first | rfl | exact absurd ‹_› h

theorem value_mono (h : Known allocated x)
    (hs : allocated <:+ allocated') (hd : (allocated'.map Prod.fst).Nodup) : c.value allocated' x = c.value allocated x := by
  by_cases hx : x.tag = .virtual
  · obtain ⟨⟨i, r⟩, hr, rfl⟩ := mem_map.1 (h hx)
    unfold value
    rw [hx]
    rw [lookup_of_mem hd (hs.mem hr), lookup_of_mem ((hs.map _).sublist.nodup hd) hr]
  · exact value_eq_of_ground hx _ _

/-- An allocated virtual object has its contents. -/
structure Done (c : Setting) (p : Progress) (shape : Shape Tagged) (r : Ref) : Prop where
  known : ∀ n ∈ shape.items, Known p.allocated n
  realizes : ∃ o, p.objects[r]? = some o ∧ Realizes (c.storeAt p) (shape.map (c.value p.allocated)) o

/-- The invariant of a reader. -/
structure Good (c : Setting) (busy opened : List Nat) (p : Progress) : Prop where
  indices : (busy ++ p.allocated.map Prod.fst).Nodup
  busy_lt : ∀ i ∈ busy, i < c.data.virtuals.size
  refs : (p.allocated.map Prod.snd).Nodup
  fresh : ∀ e ∈ p.allocated, c.store.objects.size ≤ e.2 ∧ e.2 < p.objects.size
  old : c.store.objects.size ≤ p.objects.size ∧ ∀ k < c.store.objects.size, p.objects[k]? = c.store.objects[k]?
  entry : ∀ i r, (i, r) ∈ p.allocated → ∃ shape, c.data.virtuals[i]? = some shape ∧ (i ∈ opened ∧ shape.kind.isString = false ∨ c.Done p shape r)

end Setting

/-! ### What the invariant gives -/

theorem Store.chars?_mono (s' : Store) (h : s.chars? v = some cs) (hrec : s'.recorded = s.recorded)
    (htext : ∀ (r : Ref) cs u, s.objects[r]? = some (.str cs u) → s'.objects[r]? = some (.str cs u)) : s'.chars? v = some cs := by
  obtain ⟨⟨cs, u⟩, hv, rfl⟩ := Option.map_eq_some_iff.1 h
  obtain ⟨v, rfl, hvr⟩ := Option.bind_eq_some_iff.1 hv
  obtain ⟨r, hr, ht⟩ := Option.bind_eq_some_iff.1 hvr
  have hr' : s'.refOf v = some r := by
    rw [← hr]
    cases v <;> simp [refOf, constOf, recordedOf, hrec]
  have hobj : s.objects[r]? = some (.str cs u) := by
    unfold str? object at ht
    cases ho : s.objects[r]? with
    | none => rw [ho] at ht; cases ht
    | some o =>
      rw [ho] at ht
      cases o <;> simp_all
  have ht' : s'.str? r = some (cs, u) := by simp [str?, object, htext r cs u hobj]
  simp [chars?, hr', ht']

theorem Realizes.mono {shape : Shape (Option Value)} (h : Realizes s shape o) (hs : s' = { s with objects := s'.objects })
    (htext : ∀ (r : Ref) cs u, s.objects[r]? = some (.str cs u) → s'.objects[r]? = some (.str cs u)) : Realizes s' shape o := by
  have hchars : ∀ v cs, s.chars? v = some cs → s'.chars? v = some cs := fun v cs hv => Store.chars?_mono s' hv (by rw [hs]) htext
  cases h with
  | struct hk => rw [hs]; exact .struct hk
  | array hk => rw [hs]; exact .array hk
  | plain hk =>
    rw [hs]
    exact .plain hk
  | concat hk hparts => exact .concat hk (hparts.imp hchars)
  | slice hk hitems hcs =>
    have := Realizes.slice hk hitems (hchars _ _ hcs)
    rw [hs] at this ⊢
    exact this

namespace Setting

variable {c : Setting} {busy opened : List Nat} {p p' : Progress} {shape : Shape Tagged} {i : Nat} {r : Ref} {m : Nat}

theorem good_start (c : Setting) : c.Good [] [] ⟨[], c.store.objects⟩ :=
  ⟨nodup_nil, fun _ h => absurd h not_mem_nil, nodup_nil, fun _ h => absurd h not_mem_nil,
    ⟨Nat.le_refl _, fun _ _ => rfl⟩, fun _ _ h => absurd h not_mem_nil⟩

theorem make_live (h : c.live.size = c.data.live.size) : Reader.make c.data c.live.toList = .ok (c.reader ⟨[], c.store.objects⟩) := by
  unfold Reader.make
  rw [if_pos (by simpa using h)]
  rfl

theorem Good.nodup (h : c.Good busy opened p) : (p.allocated.map Prod.fst).Nodup := (nodup_append.1 h.indices).2.1

theorem Good.index_lt (h : c.Good busy opened p) {i : Nat} (hi : i ∈ p.allocated.map Prod.fst) : i < c.data.virtuals.size := by
  obtain ⟨⟨i, r⟩, hr, rfl⟩ := mem_map.1 hi
  obtain ⟨shape, hshape, -⟩ := h.entry i r hr
  exact (Array.getElem?_eq_some_iff.1 hshape).1

theorem Good.length_le (h : c.Good busy opened p) : busy.length + p.allocated.length ≤ c.data.virtuals.size := by
  have hsub : busy ++ p.allocated.map Prod.fst ⊆ List.range c.data.virtuals.size := by
    intro i hi
    rw [mem_range]
    rcases mem_append.1 hi with hi | hi
    · exact h.busy_lt i hi
    · exact h.index_lt hi
  simpa using (subperm_of_subset h.indices hsub).length_le

theorem Done.mono (h : c.Done p shape r) (hg : p.Grows m p') (hd : (p'.allocated.map Prod.fst).Nodup)
    (hr : p'.objects[r]? = p.objects[r]?) : c.Done p' shape r := by
  obtain ⟨o, ho, hreal⟩ := h.realizes
  refine ⟨fun n hn => (h.known n hn).mono hg.allocated, o, hr.trans ho, ?_⟩
  have hmap : shape.map (c.value p'.allocated) = shape.map (c.value p.allocated) := by
    unfold Shape.map
    rw [map_congr_left fun n hn => value_mono (h.known n hn) hg.allocated hd]
  rw [hmap]
  exact hreal.mono rfl hg.text

theorem Good.enter (h : c.Good busy opened p) (opened' : List Nat) (hsub : opened ⊆ opened') (o : Object) (hshape : c.data.virtuals[i]? = some shape)
    (hi : i ∉ busy) (hi' : i ∉ p.allocated.map Prod.fst)
    (hnew : i ∈ opened' ∧ shape.kind.isString = false ∨ c.Done ⟨(i, p.objects.size) :: p.allocated, p.objects.push o⟩ shape p.objects.size) :
    p.Grows p.objects.size ⟨(i, p.objects.size) :: p.allocated, p.objects.push o⟩ ∧
      c.Good busy opened' ⟨(i, p.objects.size) :: p.allocated, p.objects.push o⟩ := by
  have hg := Progress.Grows.enter p i o
  have hindices : (busy ++ i :: p.allocated.map Prod.fst).Nodup :=
    nodup_middle.2 (nodup_cons.2 ⟨by simp only [mem_append, not_or]; exact ⟨hi, hi'⟩, h.indices⟩)
  refine ⟨hg, hindices, h.busy_lt, ?_, ?_, ?_, ?_⟩
  · refine nodup_cons.2 ⟨fun hmem => ?_, h.refs⟩
    obtain ⟨e, he, hr⟩ := mem_map.1 hmem
    exact Nat.lt_irrefl _ (hr ▸ (h.fresh e he).2)
  · intro e he
    rcases mem_cons.1 he with rfl | he
    · exact ⟨h.old.1, by simp⟩
    · exact ⟨(h.fresh e he).1, Nat.lt_of_lt_of_le (h.fresh e he).2 hg.size⟩
  · exact ⟨Nat.le_trans h.old.1 hg.size, fun k hk => (hg.same k (Nat.lt_of_lt_of_le hk h.old.1)).trans (h.old.2 k hk)⟩
  · intro j r hj
    rcases mem_cons.1 hj with e | hj
    · cases e
      exact ⟨shape, hshape, hnew⟩
    · obtain ⟨t, ht, hdone⟩ := h.entry j r hj
      refine ⟨t, ht, hdone.imp (fun ⟨ho, hk⟩ => ⟨hsub ho, hk⟩) fun hdone => ?_⟩
      exact hdone.mono hg (nodup_append.1 hindices).2.1 (hg.same r (h.fresh _ hj).2)

theorem Good.update (h : c.Good busy opened p) (hi : i ∈ opened) (hir : (i, r) ∈ p.allocated) {f : Object → Object} (ho : p.objects[r]? = some o)
    (hstr : ∀ cs u, o ≠ .str cs u) (hshape : c.data.virtuals[i]? = some shape) (hkind : shape.kind.isString = false) :
    p.Grows r ⟨p.allocated, p.objects.modify r f⟩ ∧ c.Good busy opened ⟨p.allocated, p.objects.modify r f⟩ := by
  have hother : ∀ k, k ≠ r → (p.objects.modify r f)[k]? = p.objects[k]? := by
    intro k hk
    rw [Array.getElem?_modify, if_neg (Ne.symm hk)]
  have hg : p.Grows r ⟨p.allocated, p.objects.modify r f⟩ := by
    refine ⟨suffix_refl _, by simp, fun k hk => hother k (Nat.ne_of_lt hk), fun k cs u hk => ?_⟩
    have hne : k ≠ r := by
      rintro rfl
      exact hstr cs u (Option.some.inj (ho.symm.trans hk))
    exact (hother k hne).trans hk
  refine ⟨hg, h.indices, h.busy_lt, h.refs, fun e he => by simpa using h.fresh e he, ?_, ?_⟩
  · refine ⟨by simpa using h.old.1, fun k hk => ?_⟩
    exact (hother k (Nat.ne_of_lt (Nat.lt_of_lt_of_le hk (h.fresh _ hir).1))).trans (h.old.2 k hk)
  · intro j r' hj
    by_cases hjr : r' = r
    · subst hjr
      -- a reference belongs to one virtual object
      have : j = i := congrArg Prod.fst (inj_on_of_nodup_map h.refs hj hir rfl)
      subst this
      exact ⟨shape, hshape, .inl ⟨hi, hkind⟩⟩
    · obtain ⟨t, ht, hdone⟩ := h.entry j r' hj
      exact ⟨t, ht, hdone.imp_right fun hdone => hdone.mono hg h.nodup (hother r' hjr)⟩

theorem Good.close (h : c.Good busy (i :: opened) p) (hir : (i, r) ∈ p.allocated) (hshape : c.data.virtuals[i]? = some shape)
    (hdone : c.Done p shape r) : c.Good busy opened p := by
  refine { h with entry := fun j r' hj => ?_ }
  obtain ⟨t, ht, hd⟩ := h.entry j r' hj
  rcases hd with ⟨ho, hk⟩ | hd
  · rcases mem_cons.1 ho with rfl | ho
    · cases inj_on_of_nodup_map h.nodup hj hir rfl
      exact ⟨shape, hshape, .inr hdone⟩
    · exact ⟨t, ht, .inl ⟨ho, hk⟩⟩
  · exact ⟨t, ht, .inr hd⟩

theorem Good.begin (h : c.Good busy opened p) (hshape : c.data.virtuals[i]? = some shape) (hi : i ∉ busy)
    (hi' : i ∉ p.allocated.map Prod.fst) : c.Good (i :: busy) opened p :=
  { h with
    indices := nodup_cons.2 ⟨fun hm => (mem_append.1 hm).elim hi hi', h.indices⟩
    busy_lt := forall_mem_cons.2 ⟨(Array.getElem?_eq_some_iff.1 hshape).1, h.busy_lt⟩ }

theorem Good.leave (h : c.Good (i :: busy) opened p) : c.Good busy opened p :=
  { h with indices := (nodup_cons.1 h.indices).2, busy_lt := fun j hj => h.busy_lt j (mem_cons_of_mem _ hj) }

end Setting

/-! ## Runs -/

theorem ReadM.bind_ok {α β : Type} {m : ReadM α} {f : α → ReadM β} {rd rd' : Reader} {a : α}
    (h : m rd s = .ok (a, rd') s') : (m >>= f) rd s = f a rd' s' := by
  change EStateM.bind (m rd) (fun x => f x.1 x.2) s = _
  rw [EStateM.bind, h]

namespace Setting

/-- From some progress on, a reader succeeds; what it finds is there afterwards. -/
def Runs {α : Type} (c : Setting) (busy opened : List Nat) (m : ReadM α) (p : Progress) (Q : Progress → α → Prop) : Prop :=
  ∃ p' a, m (c.reader p) (c.storeAt p) = .ok (a, c.reader p') (c.storeAt p') ∧ p.Grows p.objects.size p' ∧ c.Good busy opened p' ∧ Q p' a

section Runs

variable {α β : Type} {c : Setting} {busy opened : List Nat} {p : Progress} {Q : Progress → α → Prop} {Q' : Progress → β → Prop}

theorem Runs.pure (h : c.Good busy opened p) {a : α} (ha : Q p a) : c.Runs busy opened (Pure.pure a) p Q := ⟨p, a, rfl, .refl _ _, h, ha⟩

theorem Runs.bind {m : ReadM α} {f : α → ReadM β} (h : c.Runs busy opened m p Q)
    (hf : ∀ p' a, p.Grows p.objects.size p' → c.Good busy opened p' → Q p' a → c.Runs busy opened (f a) p' Q') :
    c.Runs busy opened (m >>= f) p Q' := by
  obtain ⟨p', a, he, hg, hp', ha⟩ := h
  obtain ⟨p'', b, he', hg', hp'', hb⟩ := hf p' a hg hp' ha
  exact ⟨p'', b, (ReadM.bind_ok he).trans he', hg.trans_size hg', hp'', hb⟩

theorem Runs.mapM {f : α → ReadM β} {R : Progress → α → β → Prop}
    (hR : ∀ p p' a b, p.Grows p.objects.size p' → c.Good busy opened p' → R p a b → R p' a b) {k : Nat} {as : List α}
    (hf : ∀ a ∈ as, ∀ p, c.Good busy opened p → k ≤ p.allocated.length → c.Runs busy opened (f a) p fun p' b => R p' a b) {p : Progress}
    (hp : c.Good busy opened p) (hk : k ≤ p.allocated.length) : c.Runs busy opened (as.mapM f) p fun p' bs => List.Forall₂ (R p') as bs := by
  induction as generalizing p with
  | nil => exact .pure hp .nil
  | cons a as ih =>
    rw [mapM_cons]
    refine .bind (hf a (mem_cons_self ..) p hp hk) fun p₁ b hg₁ hp₁ hb => ?_
    have hrest := ih (fun a' ha' => hf a' (mem_cons_of_mem _ ha')) hp₁ (Nat.le_trans hk hg₁.allocated.length_le)
    obtain ⟨p₂, bs, he, hg₂, hp₂, hbs⟩ := hrest
    exact ⟨p₂, b :: bs, ReadM.bind_ok he, hg₂, hp₂, .cons (hR _ _ _ _ hg₂ hp₂ hb) hbs⟩

end Runs

variable {c : Setting} {busy opened : List Nat} {p : Progress}

/-- A number is read as its value. -/
def Reads (c : Setting) (busy opened : List Nat) (dec : Tagged → ReadM (Option Value)) (x : Tagged) (p : Progress) : Prop :=
  c.Runs busy opened (dec x) p fun p' v => v = c.value p'.allocated x ∧ Known p'.allocated x

theorem forM_spec {α : Type} (dec : Tagged → ReadM (Option Value)) (num : α → Tagged) (upd : α → Value → Object → Object) (as : List α) {i : Nat}
    {r : Ref} {k : Nat} {shape : Shape Tagged} (hshape : c.data.virtuals[i]? = some shape) (hkind : shape.kind.isString = false)
    (hupd : ∀ a v o, (∀ cs u, o ≠ .str cs u) → ∀ cs u, upd a v o ≠ .str cs u) (hdec : ∀ a ∈ as, ∀ p, c.Good [] (i :: opened) p →
    k ≤ p.allocated.length → c.Reads [] (i :: opened) dec (num a) p) {p : Progress} (hp : c.Good [] (i :: opened) p) (hk : k ≤ p.allocated.length)
    (hir : (i, r) ∈ p.allocated) (ho : p.objects[r]? = some o) (hstr : ∀ cs u, o ≠ .str cs u) : ∃ p', (as.forM fun a => do
        match ← dec (num a) with
        | none => pure ()
        | some v => modifyThe Store fun s => s.updateObject r (upd a v)) (c.reader p) (c.storeAt p) =
          .ok ((), c.reader p') (c.storeAt p') ∧
      p.Grows r p' ∧ c.Good [] (i :: opened) p' ∧ (∀ a ∈ as, Known p'.allocated (num a)) ∧
      p'.objects[r]? = some (as.foldl (fun o a => match c.value p'.allocated (num a) with
        | none => o
        | some v => upd a v o) o) := by
  induction as generalizing p o with
  | nil => exact ⟨p, rfl, .refl _ _, hp, fun _ h => absurd h not_mem_nil, ho⟩
  | cons a as ih =>
    obtain ⟨p₁, v, he₁, hg₁, hp₁, hv, hknown⟩ := hdec a (mem_cons_self ..) p hp hk
    have hr : r < p.objects.size := (Array.getElem?_eq_some_iff.1 ho).1
    have ho₁ : p₁.objects[r]? = some o := (hg₁.same r hr).trans ho
    have hir₁ := hg₁.allocated.mem hir
    have hk₁ := Nat.le_trans hk hg₁.allocated.length_le
    have hdec' := fun b hb => hdec b (mem_cons_of_mem a hb)
    cases v with
    | none =>
      obtain ⟨p₂, he₂, hg₂, hp₂, hknowns, ho₂⟩ := ih hdec' hp₁ hk₁ hir₁ ho₁ hstr
      have hval := value_mono (c := c) hknown hg₂.allocated hp₂.nodup
      refine ⟨p₂, ?_, (hg₁.mono (Nat.le_of_lt hr)).trans hg₂, hp₂, ?_, ?_⟩
      · exact Eq.trans (ReadM.bind_ok (m := _ >>= _) (ReadM.bind_ok he₁)) he₂
      · exact forall_mem_cons.2 ⟨hknown.mono hg₂.allocated, hknowns⟩
      · rw [ho₂, foldl_cons, hval, ← hv]
    | some v =>
      obtain ⟨hg₁', hp₁'⟩ := hp₁.update (f := upd a v) (mem_cons_self ..) hir₁ ho₁ hstr hshape hkind
      have ho₁' : (p₁.objects.modify r (upd a v))[r]? = some (upd a v o) := by
        rw [Array.getElem?_modify, if_pos rfl, ho₁]
        rfl
      obtain ⟨p₂, he₂, hg₂, hp₂, hknowns, ho₂⟩ := ih hdec' hp₁' hk₁ hir₁ ho₁' (hupd a v o hstr)
      have hval := value_mono (c := c) hknown hg₂.allocated hp₂.nodup
      refine ⟨p₂, ?_, ((hg₁.mono (Nat.le_of_lt hr)).trans hg₁').trans hg₂, hp₂, ?_, ?_⟩
      · exact Eq.trans (ReadM.bind_ok (m := _ >>= _) (ReadM.bind_ok he₁)) he₂
      · exact forall_mem_cons.2 ⟨hknown.mono hg₂.allocated, hknowns⟩
      · rw [ho₂, foldl_cons, hval, ← hv]

/-! ## Structures and arrays -/

/-- A structure with one of its fields written. -/
def withField (e : FieldId × Tagged) (v : Value) : Object → Object
  | .struct d c fields => .struct d c (Store.setField fields e.1 v)
  | o => o

/-- An array with one of its items written. -/
def withItem (e : Tagged × Nat) (v : Value) : Object → Object
  | .array d items => .array d (items.setIfInBounds e.2 v)
  | o => o

theorem withField_ne_str (e : FieldId × Tagged) (v : Value) (o : Object) (h : ∀ cs u, o ≠ .str cs u) : ∀ cs u, withField e v o ≠ .str cs u := by
  cases o <;> simp_all [withField]

theorem withItem_ne_str (e : Tagged × Nat) (v : Value) (o : Object) (h : ∀ cs u, o ≠ .str cs u) : ∀ cs u, withItem e v o ≠ .str cs u := by
  cases o <;> simp_all [withItem]

theorem setField_of_not_mem {fields : List (FieldId × Value)} {f : FieldId} (h : f ∉ fields.map Prod.fst) (v : Value) :
    Store.setField fields f v = fields ++ [(f, v)] := by
  have : fields.any (·.1 == f) = false := by
    rw [any_eq_false]
    rintro e he hf
    exact h (eq_of_beq hf ▸ mem_map_of_mem he)
  simp [Store.setField, this]

theorem foldl_withField (val : Tagged → Option Value) (d : Option SizeId) (cls : Option Ref) {fs : List FieldId} (hd : fs.Nodup) (items : List Tagged)
    {done : List (FieldId × Value)} (hnew : ∀ f ∈ fs, f ∉ done.map Prod.fst) : ((fs.zip items).foldl (fun o e => match val e.2 with
      | none => o
      | some v => withField e v o) (.struct d cls done)) =
      .struct d cls (done ++ (fs.zip (items.map val)).filterMap fun e => e.2.map (e.1, ·)) := by
  induction fs generalizing items done with
  | nil => simp
  | cons f fs ih =>
    obtain ⟨hf, hd⟩ := nodup_cons.1 hd
    obtain ⟨hf', hnew⟩ := forall_mem_cons.1 hnew
    cases items with
    | nil => simp
    | cons n items =>
      rw [zip_cons_cons, foldl_cons, map_cons, zip_cons_cons]
      cases hv : val n with
      | none => simp [ih hd items hnew]
      | some v =>
        have hwrite : withField (f, n) v (.struct d cls done) = .struct d cls (done ++ [(f, v)]) :=
          congrArg (Object.struct d cls) (setField_of_not_mem hf' v)
        dsimp only
        rw [hwrite, ih hd items]
        · simp
        · intro g hg
          rw [map_append, mem_append, not_or]
          exact ⟨hnew g hg, by rintro (_ | ⟨_, h⟩); exacts [hf hg, by cases h]⟩

theorem foldl_withItem (val : Tagged → Option Value) (d : ArrayId) (zero : Value) (items : List Tagged) (done : List Value) :
    ((items.zipIdx done.length).foldl (fun o e => match val e.1 with
      | none => o
      | some v => withItem e v o) (.array d (done ++ List.replicate items.length zero).toArray)) =
      .array d (done ++ items.map fun n => (val n).getD zero).toArray := by
  induction items generalizing done with
  | nil => simp
  | cons n items ih =>
    rw [zipIdx_cons, foldl_cons, length_cons, replicate_succ]
    have hnext : (match val n with
        | none => .array d (done ++ zero :: List.replicate items.length zero).toArray
        | some v => withItem (n, done.length) v (.array d (done ++ zero :: List.replicate items.length zero).toArray)) =
        Object.array d (done ++ [(val n).getD zero] ++ List.replicate items.length zero).toArray := by
      cases val n with
      | none => simp
      | some v => simp [withItem, setIfInBounds_toArray, set_append_right]
    have := ih (done ++ [(val n).getD zero])
    rw [length_append, length_singleton] at this
    rw [hnext, this]
    simp

theorem foldl_withItem_new (val : Tagged → Option Value) (d : ArrayId) (zero : Value) (items : List Tagged) :
    (items.zipIdx.foldl (fun o e => match val e.1 with
      | none => o
      | some v => withItem e v o) (.array d (Array.replicate items.length zero))) =
      .array d (items.map fun n => (val n).getD zero).toArray := by
  simpa using foldl_withItem val d zero items []

/-! ## Strings -/

/-- The virtual object of a number is a string of a rank below `k`. -/
def StringBelow (c : Setting) (rank : Nat → Nat) (k : Nat) (x : Tagged) : Prop :=
  (∃ shape, c.data.virtuals[x.value.toNat]? = some shape ∧ shape.kind.isString = true) ∧ rank x.value.toNat < k

/-- A number that stands for a string: a virtual one of a rank below `k`, or a string of the heap. -/
def Text (c : Setting) (rank : Nat → Nat) (k : Nat) (x : Tagged) : Prop :=
  (x.tag = .virtual → c.StringBelow rank k x) ∧ (x.tag ≠ .virtual → ∃ cs, c.store.chars? (c.value [] x) = some cs)

/-- A number that is no virtual object. -/
def Ground (x : Tagged) : Prop := x.tag ≠ .virtual

/-- Resume data that can be read. -/
structure Sound (c : Setting) (rank : Nat → Nat) : Prop where
  bound : ∀ (i : Nat) (shape : Shape Tagged), c.data.virtuals[i]? = some shape → ∀ n ∈ shape.items, n.tag = .virtual →
    n.value.toNat < c.data.virtuals.size
  shape : ∀ (i : Nat) (shape : Shape Tagged), c.data.virtuals[i]? = some shape → shape.Sound (c.Text rank (rank i)) Ground

/-- While strings are busy, only strings of smaller ranks are met. -/
def Fits (c : Setting) (rank : Nat → Nat) (busy : List Nat) (x : Tagged) : Prop :=
  x.tag = .virtual → x.value.toNat < c.data.virtuals.size ∧ (busy = [] ∨ ∀ b ∈ busy, c.StringBelow rank (rank b) x)

section Strings

variable {rank : Nat → Nat} {k : Nat} {shape : Shape Tagged}

theorem Good.chars?_of_text (h : c.Good busy opened p) (ht : c.Text rank k x) (hx : Known p.allocated x) :
    ∃ cs, (c.storeAt p).chars? (c.value p.allocated x) = some cs := by
  by_cases hv : x.tag = .virtual
  · obtain ⟨⟨t, ht, hk⟩, -⟩ := ht.1 hv
    obtain ⟨⟨i, r⟩, hr, hi⟩ := mem_map.1 (hx hv)
    obtain ⟨t', ht', hdone⟩ := h.entry i r hr
    rw [show i = x.value.toNat from hi, ht] at ht'
    cases ht'
    have hd := hdone.resolve_left fun ho => by simp [hk] at ho
    obtain ⟨o, ho, hreal⟩ := hd.realizes
    obtain ⟨cs, rfl⟩ := hreal.str hk
    have hval : c.value p.allocated x = some (.ofRef r) := by
      have hne : x ≠ .unassigned := by
        rintro rfl
        simp [Tagged.unassigned, Tagged.tag_make] at hv
      unfold value
      rw [if_neg hne, hv]
      rw [← hi, lookup_of_mem h.nodup hr]
      rfl
    refine ⟨cs, ?_⟩
    rw [hval]
    simp [Store.chars?, Value.ofRef, Store.refOf, Store.constOf, Const.ref?, Store.str?, Store.object, storeAt, ho]
  · obtain ⟨cs, hcs⟩ := ht.2 hv
    refine ⟨cs, ?_⟩
    rw [value_eq_of_ground hv p.allocated []]
    refine Store.chars?_mono _ hcs rfl fun r cs' u hr => ?_
    exact (h.old.2 r (Array.getElem?_eq_some_iff.1 hr).1).trans hr

theorem charsOf_ok (h : (c.storeAt p).chars? v = some cs) : Reader.charsOf v (c.reader p) (c.storeAt p) = .ok (cs, c.reader p) (c.storeAt p) := by
  obtain ⟨⟨cs', u⟩, ht, rfl⟩ := Option.map_eq_some_iff.1 h
  refine (ReadM.bind_ok rfl).trans ?_
  rw [ht]
  rfl

theorem numberOf_ok (v : Option Value) :
    Reader.numberOf v (c.reader p) (c.storeAt p) = .ok ((c.storeAt p).numberOf v, c.reader p) (c.storeAt p) := rfl

theorem Good.charsOf (h : c.Good busy opened p) (ht : c.Text rank k x) (hv : v = c.value p.allocated x) (hx : Known p.allocated x) :
    c.Runs busy opened (Reader.charsOf v) p fun p' cs => Known p'.allocated x ∧ (c.storeAt p').chars? (c.value p'.allocated x) = some cs := by
  subst hv
  obtain ⟨cs, hcs⟩ := h.chars?_of_text ht hx
  exact ⟨p, cs, charsOf_ok hcs, .refl _ _, h, hx, hcs⟩

theorem readChars_spec (dec : Tagged → ReadM (Option Value)) {items : List Tagged} (hs : ∀ n ∈ items, Ground n) {l : Nat}
    (hdec : ∀ n ∈ items, (Ground n ∨ c.Text rank k n) → ∀ p, c.Good busy opened p → l ≤ p.allocated.length →
      c.Reads busy opened dec n p) (hp : c.Good busy opened p) (hl : l ≤ p.allocated.length) :
    c.Runs busy opened (items.mapM fun n => do
      match ← dec n with
      | some v => return Reader.toChar ((← Reader.store).intOf v)
      | none => pure 0) p fun p' cs =>
        List.Forall₂ (fun n ch => Known p'.allocated n ∧ (c.storeAt p').charOf (c.value p'.allocated n) = ch) items cs := by
  refine .mapM (R := fun p n ch => Known p.allocated n ∧ (c.storeAt p).charOf (c.value p.allocated n) = ch) ?_ (k := l) ?_ hp hl
  · rintro p p' n ch hg hp' ⟨hn, rfl⟩
    exact ⟨hn.mono hg.allocated, by rw [value_mono hn hg.allocated hp'.nodup]; rfl⟩
  · intro n hn p hp hl
    refine .bind (hdec n hn (.inl (hs n hn)) p hp hl) fun p' v _ hp' h => ?_
    obtain ⟨rfl, hn⟩ := h
    cases hv : c.value p'.allocated n with
    | none => exact .pure hp' ⟨hn, by rw [hv]; rfl⟩
    | some v => exact ⟨p', _, rfl, .refl _ _, hp', hn, by rw [hv]; rfl⟩

theorem readString_spec (dec : Tagged → ReadM (Option Value)) (hs : shape.Sound (c.Text rank k) Ground) (hk : shape.kind.isString = true) {l : Nat}
    (hdec : ∀ n ∈ shape.items, (Ground n ∨ c.Text rank k n) → ∀ p, c.Good busy opened p → l ≤ p.allocated.length →
      c.Reads busy opened dec n p) (hp : c.Good busy opened p) (hl : l ≤ p.allocated.length) :
    c.Runs busy opened (Reader.readString dec shape) p fun p' cs => (∀ n ∈ shape.items, Known p'.allocated n) ∧
      Realizes (c.storeAt p') (shape.map (c.value p'.allocated)) (.str cs shape.unicode) := by
  unfold Reader.readString
  unfold Shape.Sound at hs
  split at hs
  · rename_i e; simp [e, ShapeKind.isString] at hk
  · rename_i e; simp [e, ShapeKind.isString] at hk
  · rename_i e
    rw [e]
    obtain ⟨p', cs, he, hg, hp', hcs⟩ := readChars_spec dec hs hdec hp hl
    obtain ⟨hknown, hcs⟩ := (List.forall₂_and_left ..).1 hcs
    have hcs' : (shape.items.map fun n => (c.storeAt p').charOf (c.value p'.allocated n)) = cs := by
      rw [← List.forall₂_eq_eq_eq, List.forall₂_map_left_iff]
      exact hcs
    have hreal : Realizes (c.storeAt p') (shape.map (c.value p'.allocated)) _ := .plain e
    refine ⟨p', cs, he, hg, hp', hknown, ?_⟩
    rw [← hcs']
    simpa [Shape.map, Shape.withItems, Function.comp_def] using hreal
  · rename_i e
    rw [e]
    have hread : c.Runs busy opened (shape.items.mapM fun n => do Reader.charsOf (← dec n)) p fun p' parts =>
        List.Forall₂ (fun n cs => Known p'.allocated n ∧ (c.storeAt p').chars? (c.value p'.allocated n) = some cs) shape.items parts := by
      refine .mapM (R := fun p n cs => Known p.allocated n ∧ (c.storeAt p).chars? (c.value p.allocated n) = some cs) ?_ (k := l) ?_ hp hl
      · rintro p p' n cs hg hp' ⟨hn, hcs⟩
        exact ⟨hn.mono hg.allocated, by rw [value_mono hn hg.allocated hp'.nodup]; exact Store.chars?_mono _ hcs rfl hg.text⟩
      · intro n hn p hp hl
        exact .bind (hdec n hn (.inr (hs n hn)) p hp hl) fun p' v _ hp' h => hp'.charsOf (hs n hn) h.1 h.2
    obtain ⟨p', parts, he, hg, hp', hparts⟩ := hread
    obtain ⟨hknown, hparts⟩ := (List.forall₂_and_left ..).1 hparts
    exact ⟨p', parts.flatten, ReadM.bind_ok he, hg, hp', hknown, .concat e (List.forall₂_map_left_iff.2 hparts)⟩
  · rename_i e
    rw [e]
    obtain ⟨a, b, d, hitems, ha, hb, hd⟩ := hs
    obtain ⟨p₁, v₁, he₁, hg₁, hp₁, rfl, hka⟩ := hdec a (by simp [hitems]) (.inr ha) p hp hl
    obtain ⟨cs, hcs⟩ := hp₁.chars?_of_text ha hka
    obtain ⟨p₂, v₂, he₂, hg₂, hp₂, rfl, hkb⟩ := hdec b (by simp [hitems]) (.inl hb) p₁ hp₁
      (Nat.le_trans hl hg₁.allocated.length_le)
    obtain ⟨p₃, v₃, he₃, hg₃, hp₃, rfl, hkd⟩ := hdec d (by simp [hitems]) (.inl hd) p₂ hp₂
      (Nat.le_trans hl (hg₁.trans_size hg₂).allocated.length_le)
    have hg₁₃ := hg₂.trans_size hg₃
    have hva := value_mono (c := c) hka hg₁₃.allocated hp₃.nodup
    have hvb := value_mono (c := c) hkb hg₃.allocated hp₃.nodup
    refine ⟨p₃, (cs.drop ((c.storeAt p₂).numberOf (c.value p₂.allocated b)).toInt.toNat).take
      ((c.storeAt p₃).numberOf (c.value p₃.allocated d)).toInt.toNat, ?_, hg₁.trans_size hg₁₃, hp₃, ?_, ?_⟩
    · rw [hitems]
      refine (ReadM.bind_ok he₁).trans ((ReadM.bind_ok (charsOf_ok hcs)).trans ((ReadM.bind_ok he₂).trans ?_))
      refine (ReadM.bind_ok (numberOf_ok _)).trans ((ReadM.bind_ok he₃).trans ((ReadM.bind_ok (numberOf_ok _)).trans ?_))
      rfl
    · rw [hitems]
      simpa using ⟨hka.mono hg₁₃.allocated, hkb.mono hg₃.allocated, hkd⟩
    · have hcs₃ := Store.chars?_mono (c.storeAt p₃) hcs rfl hg₁₃.text
      rw [← hva] at hcs₃
      rw [← hvb]
      exact .slice e (by simp [Shape.map, Shape.withItems, hitems]) hcs₃
  · exact hs.elim

end Strings

/-! ## Virtual objects -/

section Virtual

variable {rank : Nat → Nat} {dec : Tagged → ReadM (Option Value)} {i : Nat} {shape : Shape Tagged}

/-- The reader of the contents of a virtual object, with the depth that is left. -/
structure Decoder (c : Setting) (rank : Nat → Nat) (depth : Nat) (dec : Tagged → ReadM (Option Value)) : Prop where
  reads : ∀ {busy opened : List Nat} {p : Progress} {x : Tagged}, c.Good busy opened p → c.Fits rank busy x →
    c.data.virtuals.size + 2 ≤ depth + p.allocated.length + busy.length → c.Reads busy opened dec x p

variable {depth : Nat} (hdec : c.Decoder rank depth dec) (hc : c.Sound rank)

include hdec hc

theorem fill_spec {α : Type} (num : α → Tagged) (upd : α → Value → Object → Object) (as : List α) (hshape : c.data.virtuals[i]? = some shape)
    (hkind : shape.kind.isString = false) (hupd : ∀ a v o, (∀ cs u, o ≠ .str cs u) → ∀ cs u, upd a v o ≠ .str cs u) (hnum : as.map num = shape.items)
    (hstr : ∀ cs u, o ≠ .str cs u) (hreal : ∀ p', Realizes (c.storeAt p') (shape.map (c.value p'.allocated)) (as.foldl (fun o a =>
      match c.value p'.allocated (num a) with
      | none => o
      | some v => upd a v o) o))
    (hp : c.Good [] opened p) (hi : i ∉ p.allocated.map Prod.fst) (hd : c.data.virtuals.size + 1 ≤ depth + p.allocated.length) :
    let p₁ : Progress := ⟨(i, p.objects.size) :: p.allocated, p.objects.push o⟩
    ∃ p', (as.forM fun a => do
        match ← dec (num a) with
        | none => pure ()
        | some v => modifyThe Store fun s => s.updateObject p.objects.size (upd a v)) (c.reader p₁) (c.storeAt p₁) =
          .ok ((), c.reader p') (c.storeAt p') ∧
      p.Grows p.objects.size p' ∧ c.Good [] opened p' ∧ (i, p.objects.size) ∈ p'.allocated := by
  intro p₁
  obtain ⟨hg₁, hp₁⟩ := hp.enter (i :: opened) (subset_cons_self ..) o hshape not_mem_nil hi (.inl ⟨mem_cons_self .., hkind⟩)
  have hir : (i, p.objects.size) ∈ p₁.allocated := mem_cons_self ..
  have hmem : ∀ a ∈ as, num a ∈ shape.items := fun a ha => hnum ▸ mem_map_of_mem ha
  obtain ⟨p₂, he, hg₂, hp₂, hknown, ho⟩ := forM_spec dec num upd as (k := p.allocated.length + 1) hshape hkind hupd
    (fun a ha q hq hl => hdec.reads hq (fun hv => ⟨hc.bound i shape hshape _ (hmem a ha) hv, .inl rfl⟩) (by simp only [length_nil]; omega))
    hp₁ (Nat.le_refl _) hir (o := o) (by simp) hstr
  have hdone : c.Done p₂ shape p.objects.size := by
    refine ⟨fun n hn => ?_, _, ho, hreal p₂⟩
    obtain ⟨a, ha, rfl⟩ := mem_map.1 (hnum ▸ hn)
    exact hknown a ha
  exact ⟨p₂, he, hg₁.trans hg₂, hp₂.close (hg₂.allocated.mem hir) hshape hdone, hg₂.allocated.mem hir⟩

omit hdec hc in
theorem allocate_eq (dec : Tagged → ReadM (Option Value)) (hshape : c.data.virtuals[i]? = some shape) :
    Reader.allocate dec i (c.reader p) (c.storeAt p) = (match shape.kind with
      | .struct => do
        let r ← Store.newStruct shape.size shape.cls
        Reader.remember i r
        Reader.readFields dec r (shape.fields.zip shape.items)
        pure r
      | .array => do
        let r ← Store.newArray (shape.array.getD 0) shape.items.length
        Reader.remember i r
        Reader.readItems dec r shape.items.zipIdx
        pure r
      | _ => do
        let cs ← Reader.readString dec shape
        let r ← Store.newObject (.str cs shape.unicode)
        Reader.remember i r
        pure r : ReadM Ref) (c.reader p) (c.storeAt p) := by
  have hget : ((c.reader p).data.virtuals[i]?).getD default = shape := by
    change (c.data.virtuals[i]?).getD default = shape
    rw [hshape]
    rfl
  refine (ReadM.bind_ok rfl).trans ?_
  exact hget ▸ rfl

omit hdec hc in
theorem newStruct_ok (size : Option SizeId) (cls : Option Ref) :
    let p' : Progress := { p with objects := p.objects.push (.struct size (cls <|> size.bind fun d => (c.store.size d).cls) []) }
    (liftM (Store.newStruct size cls) : ReadM Ref) (c.reader p) (c.storeAt p) = .ok (p.objects.size, c.reader p') (c.storeAt p') := rfl

omit hdec hc in
theorem newArray_ok (d : ArrayId) (n : Nat) :
    let p' : Progress := { p with objects := p.objects.push (.array d (Array.replicate n (.const (.zero (c.store.array d).item)))) }
    (liftM (Store.newArray d n) : ReadM Ref) (c.reader p) (c.storeAt p) = .ok (p.objects.size, c.reader p') (c.storeAt p') := rfl

omit hdec hc in
theorem newObject_ok (o : Object) : let p' : Progress := { p with objects := p.objects.push o }
    (liftM (Store.newObject o) : ReadM Ref) (c.reader p) (c.storeAt p) = .ok (p.objects.size, c.reader p') (c.storeAt p') := rfl

omit hdec hc in
theorem remember_ok (i : Nat) (r : Ref) : Reader.remember i r (c.reader p) (c.storeAt p) =
    .ok ((), c.reader { p with allocated := (i, r) :: p.allocated }) (c.storeAt { p with allocated := (i, r) :: p.allocated }) := rfl

theorem allocate_spec (hshape : c.data.virtuals[i]? = some shape) (hi : i ∉ p.allocated.map Prod.fst)
    (hb : busy = [] ∨ shape.kind.isString = true ∧ ∀ b ∈ busy, rank i < rank b) (hp : c.Good busy opened p)
    (hd : c.data.virtuals.size + 1 ≤ depth + p.allocated.length + busy.length) :
    c.Runs busy opened (Reader.allocate dec i) p fun p' r => (i, r) ∈ p'.allocated := by
  have hsound := hc.shape i shape hshape
  by_cases hkind : shape.kind.isString = true
  · have hbusy : i ∉ busy := by
      intro hmem
      rcases hb with rfl | ⟨-, hb⟩
      · exact not_mem_nil hmem
      · exact Nat.lt_irrefl _ (hb i hmem)
    have hp₁ : c.Good (i :: busy) opened p := hp.begin hshape hbusy hi
    have hpart : ∀ n, Ground n ∨ c.Text rank (rank i) n → n.tag = .virtual → ∀ b ∈ i :: busy, c.StringBelow rank (rank b) n := by
      intro n hn hv
      obtain ⟨hstr, hlt⟩ := (hn.resolve_left fun hg => hg hv).1 hv
      refine forall_mem_cons.2 ⟨⟨hstr, hlt⟩, fun b hb' => ⟨hstr, ?_⟩⟩
      have hb := hb.resolve_left fun e => not_mem_nil (e ▸ hb')
      exact Nat.lt_trans hlt (hb.2 b hb')
    obtain ⟨p₂, cs, he, hg₂, hp₂, hknown, hreal⟩ := readString_spec dec (l := p.allocated.length) hsound hkind
      (fun n hn hn' q hq hl => hdec.reads hq (fun hv => ⟨hc.bound i shape hshape n hn hv, .inr (hpart n hn' hv)⟩)
        (by simp only [length_cons]; omega)) (hp.begin hshape hbusy hi) (Nat.le_refl _)
    have hi₂ : i ∉ p₂.allocated.map Prod.fst := fun hm => (nodup_cons.1 hp₂.indices).1 (mem_append_right _ hm)
    let p₃ : Progress := ⟨(i, p₂.objects.size) :: p₂.allocated, p₂.objects.push (.str cs shape.unicode)⟩
    have hdone : c.Done p₃ shape p₂.objects.size := by
      have hg₃ : p₂.Grows p₂.objects.size p₃ := .enter p₂ i _
      refine ⟨fun n hn => (hknown n hn).mono hg₃.allocated, .str cs shape.unicode, by simp [p₃], ?_⟩
      have hmap : shape.map (c.value p₃.allocated) = shape.map (c.value p₂.allocated) := by
        unfold Shape.map
        rw [map_congr_left fun n hn => value_mono (hknown n hn) hg₃.allocated (nodup_cons.2 ⟨hi₂, hp₂.nodup⟩)]
      rw [hmap]
      exact hreal.mono rfl hg₃.text
    obtain ⟨hg₃, hp₃⟩ := hp₂.leave.enter opened (List.Subset.refl _) _ hshape hbusy hi₂ (.inr hdone)
    refine ⟨p₃, p₂.objects.size, ?_, hg₂.trans_size hg₃, hp₃, mem_cons_self ..⟩
    rw [allocate_eq dec hshape]
    have hrest : (do
        let cs ← Reader.readString dec shape
        let r ← Store.newObject (.str cs shape.unicode)
        Reader.remember i r
        pure r : ReadM Ref) (c.reader p) (c.storeAt p) = .ok (p₂.objects.size, c.reader p₃) (c.storeAt p₃) :=
      (ReadM.bind_ok he).trans ((ReadM.bind_ok (newObject_ok ..)).trans (ReadM.bind_ok (remember_ok ..)))
    cases hk : shape.kind with
    | plain => exact hrest
    | concat => exact hrest
    | slice => exact hrest
    | struct => simp [hk, ShapeKind.isString] at hkind
    | array => simp [hk, ShapeKind.isString] at hkind
    | other => simp [hk, ShapeKind.isString] at hkind
  · obtain rfl : busy = [] := hb.resolve_right fun h => hkind h.1
    rw [Bool.not_eq_true] at hkind
    cases hk : shape.kind with
    | struct =>
      rw [Shape.Sound, hk] at hsound
      obtain ⟨p', he, hg, hp', hir⟩ := fill_spec hdec hc Prod.snd withField (shape.fields.zip shape.items)
        (o := .struct shape.size (shape.cls <|> shape.size.bind fun d => (c.store.size d).cls) []) hshape hkind withField_ne_str
        (map_snd_zip (Nat.le_of_eq hsound.2.symm)) (by simp) (fun p' => by
          rw [foldl_withField _ _ _ hsound.1 _ (by simp)]
          exact .struct hk) hp hi (by simpa using hd)
      refine ⟨p', p.objects.size, ?_, hg, hp', hir⟩
      rw [allocate_eq dec hshape, hk]
      exact (ReadM.bind_ok (newStruct_ok ..)).trans ((ReadM.bind_ok (remember_ok ..)).trans (ReadM.bind_ok he))
    | array =>
      let zero : Value := .const (.zero (c.store.array (shape.array.getD 0)).item)
      obtain ⟨p', he, hg, hp', hir⟩ := fill_spec hdec hc Prod.fst withItem shape.items.zipIdx (o := .array (shape.array.getD 0)
        (Array.replicate shape.items.length zero)) hshape hkind withItem_ne_str (zipIdx_map_fst ..) (by simp) (fun p' => by
          have hitems : (shape.map (c.value p'.allocated)).items.map (·.getD zero) =
            shape.items.map fun n => (c.value p'.allocated n).getD zero := map_map ..
          rw [foldl_withItem_new, ← hitems]
          exact .array hk) hp hi (by simpa using hd)
      refine ⟨p', p.objects.size, ?_, hg, hp', hir⟩
      rw [allocate_eq dec hshape, hk]
      exact (ReadM.bind_ok (newArray_ok ..)).trans ((ReadM.bind_ok (remember_ok ..)).trans (ReadM.bind_ok he))
    | plain => simp [hk, ShapeKind.isString] at hkind
    | concat => simp [hk, ShapeKind.isString] at hkind
    | slice => simp [hk, ShapeKind.isString] at hkind
    | other => exact absurd hsound (by simp [Shape.Sound, hk])

theorem virtual_spec (hshape : c.data.virtuals[i]? = some shape) (hb : busy = [] ∨ shape.kind.isString = true ∧ ∀ b ∈ busy, rank i < rank b)
    (hp : c.Good busy opened p) (hd : c.data.virtuals.size + 1 ≤ depth + p.allocated.length + busy.length) :
    c.Runs busy opened (Reader.virtual dec i) p fun p' r => (i, r) ∈ p'.allocated := by
  have reading (f : Reader → ReadM Ref) : (get >>= f) (c.reader p) (c.storeAt p) = f (c.reader p) (c.reader p) (c.storeAt p) := rfl
  have hstart : (c.reader p).allocated.lookup i = p.allocated.lookup i := rfl
  unfold Runs Reader.virtual
  rw [reading, hstart]
  cases hl : p.allocated.lookup i with
  | some r => exact ⟨p, r, rfl, .refl _ _, hp, Entries.mem_of_lookup hl⟩
  | none => exact allocate_spec hdec hc hshape (Entries.not_mem_of_lookup hl) hb hp hd

end Virtual

/-- **Reading a number.**  The depth need not exceed the number of virtual objects that are left by more than two. -/
theorem decode_spec {rank : Nat → Nat} (hc : c.Sound rank) (depth : Nat) : c.Decoder rank depth (Reader.decode depth) := by
  induction depth with
  | zero =>
    refine ⟨fun {busy opened p x} hp _ hd => ?_⟩
    have := hp.length_le
    omega
  | succ depth ih =>
    refine ⟨fun {busy opened p x} hp hx hd => ?_⟩
    unfold Reads Reader.decode
    by_cases hu : x = .unassigned
    · rw [if_pos hu]
      have hx : x.tag ≠ .virtual := by simp [hu, Tagged.unassigned, Tagged.tag_make]
      exact .pure hp ⟨by rw [value, if_pos hu], fun hv => absurd hv hx⟩
    · rw [if_neg hu]
      have hval (allocated : List (Nat × Ref)) : c.value allocated x = _ := if_neg hu
      cases ht : x.tag with
      | int => exact .pure hp ⟨by rw [hval, ht], fun hv => by rw [ht] at hv; cases hv⟩
      | const => exact ⟨p, _, rfl, .refl _ _, hp, by rw [hval, ht]; rfl, fun hv => by rw [ht] at hv; cases hv⟩
      | box => exact ⟨p, _, rfl, .refl _ _, hp, by rw [hval, ht]; rfl, fun hv => by rw [ht] at hv; cases hv⟩
      | virtual =>
        obtain ⟨hlt, hb⟩ := hx ht
        obtain ⟨shape, hshape⟩ : ∃ shape, c.data.virtuals[x.value.toNat]? = some shape := ⟨_, Array.getElem?_eq_getElem hlt⟩
        have hb' : busy = [] ∨ shape.kind.isString = true ∧ ∀ b ∈ busy, rank x.value.toNat < rank b := by
          rcases busy with _ | ⟨b, rest⟩
          · exact .inl rfl
          · have hb := hb.resolve_left (cons_ne_nil b rest)
            obtain ⟨⟨t, ht, hk⟩, -⟩ := hb b (mem_cons_self ..)
            cases hshape.symm.trans ht
            exact .inr ⟨hk, fun b' hb' => (hb b' hb').2⟩
        refine .bind (virtual_spec ih hc hshape hb' hp (by omega)) fun p' r _ hp' hr => ?_
        refine .pure hp' ⟨?_, fun _ => mem_map_of_mem hr⟩
        rw [hval, ht]
        rw [lookup_of_mem hp'.nodup hr]
        rfl

theorem read_spec {rank : Nat → Nat} (hc : c.Sound rank) (hx : x.tag = .virtual → x.value.toNat < c.data.virtuals.size)
    (hp : c.Good [] opened p) : c.Reads [] opened Reader.read x p := by
  obtain ⟨p', v, he, h⟩ := (decode_spec hc (c.data.virtuals.size + 2)).reads hp (fun hv => ⟨hx hv, .inl rfl⟩) (by omega)
  have hdepth : Reader.depth (c.reader p) (c.storeAt p) = .ok (c.data.virtuals.size + 2, c.reader p) (c.storeAt p) := rfl
  exact ⟨p', v, (ReadM.bind_ok hdepth).trans he, h⟩

end Setting

end FlowCompiler.Trace
