import FlowCompiler.Proofs.Items.Sharing

/-!
# How items evolve and merge

Definitions are typed when every slot has a shape that says which shapes the slots inside its annotation have, on lower
levels: so no list has itself among its elements, and two lists that meet have elements of the same shape.  In such a
state the items on a level can be merged without those above being touched.

A state evolves into another one when slots that shared an item still do, and every item is the merger of those that
its slots had before: it has their flags, their readers and what they hold.
-/

namespace FlowCompiler
namespace Annot

open Ana Nat

/-- Shapes of slots.  Every slot has a shape, and a shape says which ones the slots inside its annotation have. -/
structure Typing where
  Shape : Type
  of : Holder → Shape
  inside : Shape → List Part → Shape
  level : Shape → Nat

variable {S : Scope} {T : Typing} {τ τ' : Nat → Annot} {n : Nat} {w w' w'' : World} {a b c : Annot} {g h : Holder}

/-- The level of a slot. -/
def Typing.rank (T : Typing) (h : Holder) : Nat := T.level (T.of h)

/-- The slots of an annotation have been made, have the shapes that are asked for and are below a level. -/
def Conforms (T : Typing) (w : World) (n : Nat) (f : List Part → T.Shape) (a : Annot) : Prop :=
  ∀ p h, At a p h → w.HasSlot h ∧ T.of h = f p ∧ T.rank h < n

theorem Conforms.placed {f : List Part → T.Shape} (h : Conforms T w n f a) : Placed w a := fun p g hg => (h p g hg).1

theorem Conforms.mono {f : List Part → T.Shape} (h : Conforms T w n f a) (hs : ∀ g, w.HasSlot g → w'.HasSlot g) :
    Conforms T w' n f a := fun p g hg => ⟨hs g (h p g hg).1, (h p g hg).2⟩

theorem Conforms.of_join {f : List Part → T.Shape} {r : Annot} (e : r.plain = join S.world a.plain b.plain) (ha : Conforms T w n f a)
    (hb : Conforms T w n f b) : Conforms T w n f r := by
  intro p g hg
  rcases At.of_join (e ▸ hg.plain) with hg | hg
  · exact ha p g hg.of_plain
  · exact hb p g hg.of_plain

/-! ## Typed states -/

/-- The definitions of a state are typed, and items below a level know the slots that hold them. -/
structure Typed (S : Scope) (T : Typing) (τ : Nat → Annot) (n : Nat) (w : World) : Prop where
  later : S.world.Later w
  made : ∀ h, w.HasSlot h → w.slot h < w.items.size
  shape : ∀ g h, w.Joined g h → T.of g = T.of h
  known : ∀ h, w.HasSlot h → Known S τ w (w.held h).value
  conforms : ∀ h, w.HasSlot h → Conforms T w (T.rank h) (T.inside (T.of h)) (w.held h).value
  holders : ∀ h, w.HasSlot h → T.rank h < n → ∀ g, g ∈ (w.held h).holders ↔ w.Joined g h

namespace Typed

theorem rank (t : Typed S T τ n w) (j : w.Joined g h) : T.rank g = T.rank h := congrArg T.level (t.shape g h j)

theorem placed (t : Typed S T τ n w) (hh : w.HasSlot h) : Placed w (w.held h).value := (t.conforms h hh).placed

theorem below {m : Nat} (t : Typed S T τ n w) (hm : m ≤ n) : Typed S T τ m w :=
  ⟨t.later, t.made, t.shape, t.known, t.conforms, fun h hh hr => t.holders h hh (lt_of_lt_of_le hr hm)⟩

theorem roused (t : Typed S T τ n w) (hτ : Agree w.nextTag τ τ') (r : w.Roused w') : Typed S T τ' n w' where
  later := t.later.trans r.later
  made h hh := by
    rw [r.slot, r.items]
    exact t.made h ((r.hasSlot h).1 hh)
  shape g h j := t.shape g h ((r.joined g h).1 j)
  known h hh := by
    rw [r.held]
    exact (t.known h ((r.hasSlot h).1 hh)).later hτ r.later
  conforms h hh := by
    rw [r.held]
    exact (t.conforms h ((r.hasSlot h).1 hh)).mono fun g => (r.hasSlot g).2
  holders h hh hr g := by
    rw [r.held, r.joined]
    exact t.holders h ((r.hasSlot h).1 hh) hr g

end Typed

/-! ## Growing items -/

/-- One item has taken in another one: it has its readers and what it held, and readers wait unless that is still all it
holds. -/
structure Grown (S : Scope) (w : World) (old new : ListItem) : Prop where
  reads : ∀ p ∈ old.reads, p ∈ new.reads
  covers : Covers S w new.value old.value
  told : ∀ p ∈ old.reads, w.Waits p ∨ w.equal new.value old.value = true

theorem Grown.refl {it : ListItem} (hf : Fits S it.value.plain) (hp : Placed w it.value) : Grown S w it it :=
  ⟨fun _ => id, .refl hf hp, fun _ _ => .inr (equal_of_plain hf rfl rfl)⟩

theorem Grown.mono {o s : ListItem} (hg : Grown S w o s) (fo : Fits S o.value.plain) (fs : Fits S s.value.plain) (po : Placed w o.value)
    (ps : Placed w s.value) (hj : ∀ g h, w.Joined g h → w'.Joined g h) (hw : ∀ p, w.Waits p → w'.Waits p) : Grown S w' o s :=
  ⟨hg.reads, hg.covers.mono hj, fun p hp => (hg.told p hp).imp (hw p) (equal_mono fs fo ps po hj)⟩

theorem equal_trans_plain (ha : Fits S a.plain) (hb : Fits S b.plain) (hc : Fits S c.plain) (h : w.equal a b = true)
    (h' : w.equal b c = true) : w.equal a c = true := by
  rw [← equal_plain] at h h' ⊢
  exact equal_trans ha hb hc h h'

theorem Grown.trans {o s t : ListItem} (h : Grown S w o s) (h' : Grown S w s t) (fo : Fits S o.value.plain) (fs : Fits S s.value.plain)
    (ft : Fits S t.value.plain) : Grown S w o t := by
  refine ⟨fun p hp => h'.reads p (h.reads p hp), h'.covers.trans ft fs fo h.covers, fun p hp => ?_⟩
  rcases h.told p hp with hw | e
  · exact .inl hw
  · rcases h'.told p (h.reads p hp) with hw | e'
    · exact .inl hw
    · exact .inr (equal_trans_plain ft fs fo e' e)

/-- The flags that an item has when one of those that it was merged from has them. -/
inductive Flag where
  | mutated
  | resized
  | changeable

/-- Whether an item has a flag; what is not immutable is changeable. -/
def Flag.of : Flag → ListItem → Bool
  | .mutated, it => it.mutated
  | .resized, it => it.resized
  | .changeable, it => !it.immutable

theorem flag_of_absorbed {s o it : ListItem} (h : Absorbed s o it) (f : Flag) : f.of it = (f.of s || f.of o) := by
  cases f
  · exact h.mutated
  · exact h.resized
  · simp [Flag.of, h.immutable]

/-! ## Evolution -/

/-- Items below a level have been merged. -/
structure Evolves (S : Scope) (T : Typing) (n : Nat) (w w' : World) : Prop where
  later : w.Later w'
  slots : ∀ h, w'.HasSlot h ↔ w.HasSlot h
  joined : ∀ g h, w.Joined g h → w'.Joined g h
  above : ∀ h, w.HasSlot h → n ≤ T.rank h → w'.slot h = w.slot h ∧ w'.held h = w.held h
  flags : ∀ f h, w.HasSlot h → (Flag.of f (w'.held h) = true ↔ ∃ g, w'.Joined g h ∧ Flag.of f (w.held g) = true)
  grown : ∀ g h, w'.Joined g h → Grown S w' (w.held g) (w'.held h)
  waits : ∀ p, w.Waits p → w'.Waits p

namespace Evolves

theorem roused (t : Typed S T τ n w) (r : w.Roused w') (m : Nat) : Evolves S T m w w' where
  later := r.later
  slots := r.hasSlot
  joined g h := (r.joined g h).2
  above h _ _ := ⟨r.slot h, r.held h⟩
  flags f h hh := by
    rw [r.held]
    refine ⟨fun e => ⟨h, .refl ((r.hasSlot h).2 hh), e⟩, ?_⟩
    rintro ⟨g, j, e⟩
    rwa [← ((r.joined g h).1 j).held]
  grown g h j := by
    have j := (r.joined g h).1 j
    have fits := (t.known h j.right).fits
    have placed := t.placed j.right
    rw [r.held, j.held]
    exact (Grown.refl fits placed).mono fits fits placed placed (fun g h => (r.joined g h).2) r.waits
  waits := r.waits

theorem trans (e : Evolves S T n w w') (t : Typed S T τ n w) (t' : Typed S T τ' n w') {τ'' : Nat → Annot}
    (t'' : Typed S T τ'' n w'') (e' : Evolves S T n w' w'') : Evolves S T n w w'' where
  later := e.later.trans e'.later
  slots h := (e'.slots h).trans (e.slots h)
  joined g h j := e'.joined g h (e.joined g h j)
  above h hh hn := by
    obtain ⟨s, hs⟩ := e.above h hh hn
    obtain ⟨s', hs'⟩ := e'.above h ((e.slots h).2 hh) hn
    exact ⟨s'.trans s, hs'.trans hs⟩
  flags f h hh := by
    rw [e'.flags f h ((e.slots h).2 hh)]
    constructor
    · rintro ⟨g', j', hf⟩
      obtain ⟨g, j, hf⟩ := (e.flags f g' ((e.slots g').1 ((e'.slots g').1 j'.left))).1 hf
      exact ⟨g, (e'.joined g g' j).trans j', hf⟩
    · rintro ⟨g, j, hf⟩
      have hg : w'.HasSlot g := (e'.slots g).1 j.left
      exact ⟨g, j, (e.flags f g ((e.slots g).1 hg)).2 ⟨g, .refl hg, hf⟩⟩
  grown g h j := by
    have hg' : w'.HasSlot g := (e'.slots g).1 j.left
    have hg : w.HasSlot g := (e.slots g).1 hg'
    have f := (t.known g hg).fits
    have f' := (t'.known g hg').fits
    have p : Placed w' (w.held g).value := ((t.conforms g hg).mono fun g => (e.slots g).2).placed
    exact ((e.grown g g (.refl hg')).mono f f' p (t'.placed hg') e'.joined e'.waits).trans (e'.grown g h j) f f' (t''.known h j.right).fits
  waits p hp := e'.waits p (e.waits p hp)

end Evolves

/-- A typed state has evolved into a typed state. -/
structure Leads (S : Scope) (T : Typing) (τ τ' : Nat → Annot) (n : Nat) (w w' : World) : Prop where
  agree : Agree w.nextTag τ τ'
  typed : Typed S T τ' n w'
  evolves : Evolves S T n w w'

namespace Leads

theorem roused (t : Typed S T τ n w) (hτ : Agree w.nextTag τ τ') (r : w.Roused w') : Leads S T τ τ' n w w' := ⟨hτ, t.roused hτ r, .roused t r n⟩

theorem refl (t : Typed S T τ n w) : Leads S T τ τ n w w := roused t (.refl _ _) (.refl w)

theorem trans {τ'' : Nat → Annot} (t : Typed S T τ n w) (l : Leads S T τ τ' n w w') (l' : Leads S T τ' τ'' n w' w'') : Leads S T τ τ'' n w w'' :=
  ⟨l.agree.trans l'.agree l.evolves.later.nextTag, l'.typed, l.evolves.trans t l.typed l'.typed l'.evolves⟩

theorem known (l : Leads S T τ τ' n w w') (h : Known S τ w a) : Known S τ' w' a := h.later l.agree l.evolves.later

theorem conforms (l : Leads S T τ τ' n w w') {f : List Part → T.Shape} (h : Conforms T w n f a) : Conforms T w' n f a :=
  h.mono fun g => (l.evolves.slots g).2

end Leads

end Annot

/-! ## Merging items

To merge two items, one of them takes over the flags and the readers of the other one, then the union of what they hold
is made, and only then the slots of the other one are pointed at it.  The union may merge items in turn, which is why
it has to be on lower levels: the slots that are to be patched are the ones that held the two items at the start.
-/

namespace Annot

open Ana World

variable {S : Scope} {T : Typing} {τ τ' : Nat → Annot} {n : Nat} {w w' u u' : World} {a b r v : Annot} {g h s o : Holder}
  {f : ListItem → ListItem} {it : ListItem} {k : Knot}

/-- What a union of annotations leads to whose slots are below a level. -/
structure Unites (S : Scope) (T : Typing) (τ τ' : Nat → Annot) (n : Nat) (w w' : World) (a b r : Annot) : Prop extends Leads S T τ τ' n w w' where
  known : Known S τ' w' r
  plain : r.plain = join S.world a.plain b.plain
  united : United w' a b

/-- The specification of a union in typed states. -/
def MergeSpec (S : Scope) (T : Typing) (union : Annot → Annot → Ana Annot) : Prop :=
  ∀ {n f a b τ k w r w'}, Typed S T τ n w → Known S τ w a → Known S τ w b → Conforms T w n f a → Conforms T w n f b →
    union a b k w = .ok r w' → ∃ τ', Unites S T τ τ' n w w' a b r

/-! ### Patching slots -/

/-- The slots of a class have come to share an item, and all others are as they were. -/
structure Fused (K : Holder → Prop) (i : ItemId) (it : ListItem) (u w' : World) : Prop where
  later : u.Later w'
  size : w'.items.size = u.items.size
  slots : ∀ h, w'.HasSlot h ↔ u.HasSlot h
  inside : ∀ h, K h → w'.slot h = i ∧ w'.held h = it
  outside : ∀ h, u.HasSlot h → ¬ K h → w'.slot h = u.slot h ∧ u.slot h ≠ i ∧ w'.held h = u.held h
  waits : ∀ p, u.Waits p → w'.Waits p

namespace Fused

variable {K : Holder → Prop} {i : ItemId}

theorem joined_of_mem (x : Fused K i it u w') (hK : ∀ h, K h → u.HasSlot h) (hg : K g) (hh : K h) : w'.Joined g h :=
  ⟨(x.slots g).2 (hK g hg), (x.slots h).2 (hK h hh), (x.inside g hg).1.trans (x.inside h hh).1.symm⟩

theorem joined_of_not_mem (x : Fused K i it u w') (hg : ¬ K g) (hh : ¬ K h) : w'.Joined g h ↔ u.Joined g h := by
  constructor
  · intro j
    have hg' := (x.slots g).1 j.left
    have hh' := (x.slots h).1 j.right
    exact ⟨hg', hh', (x.outside g hg' hg).1.symm.trans (j.slot.trans (x.outside h hh' hh).1)⟩
  · intro j
    exact ⟨(x.slots g).2 j.left, (x.slots h).2 j.right, (x.outside g j.left hg).1.trans (j.slot.trans (x.outside h j.right hh).1.symm)⟩

theorem mem_iff (x : Fused K i it u w') (j : w'.Joined g h) : K g ↔ K h := by
  have half {g h : Holder} (j : w'.Joined g h) (hg : K g) : K h := by
    by_contra hh
    obtain ⟨e, hne, -⟩ := x.outside h ((x.slots h).1 j.right) hh
    exact hne (e.symm.trans (j.slot.symm.trans (x.inside g hg).1))
  exact ⟨half j, half j.symm⟩

end Fused

/-- The slots that stand for one of two items. -/
def Merged (w : World) (s o g : Holder) : Prop := w.Joined g s ∨ w.Joined g o

theorem Merged.hasSlot (h : Merged w s o g) : w.HasSlot g := h.elim Joined.left Joined.left

/-- An item has taken over flags and readers of another one, or of none but itself, and the union of what it holds with an
annotation has been made, but no slot has been patched. -/
structure Halfway (S : Scope) (T : Typing) (τ τ' : Nat → Annot) (n : Nat) (w u : World) (s o : Holder)
    (f : ListItem → ListItem) (b r : Annot) : Prop where
  typed : Typed S T τ n w
  self : w.HasSlot s
  other : w.HasSlot o
  shape : T.of s = T.of o
  below : T.rank s < n
  takes : Absorbed (w.held s) (w.held o) (f (w.held s))
  known : Known S τ w b
  conforms : Conforms T w (T.rank s) (T.inside (T.of s)) b
  unites : Unites S T τ τ' (T.rank s) (w.updateItem (w.slot s) f) u (w.held s).value b r

namespace Halfway

variable (m : Halfway S T τ τ' n w u s o f b r)

include m

theorem shape_merged (hg : Merged w s o g) : T.of g = T.of s := hg.elim (m.typed.shape g s) fun j => (m.typed.shape g o j).trans m.shape.symm

theorem rank_merged (hg : Merged w s o g) : T.rank g = T.rank s := congrArg T.level (m.shape_merged hg)

theorem hasSlot (h : Holder) : u.HasSlot h ↔ w.HasSlot h := (m.unites.evolves.slots h).trans ((sameSlots_updateItem w _ f).hasSlot h)

theorem held_updateItem (h : Holder) : (w.updateItem (w.slot s) f).held h = if w.slot s = w.slot h then f (w.held s) else w.held h := by
  rw [held, (sameSlots_updateItem w _ f).slot, item_updateItem]
  simp only [m.typed.made s m.self, and_true]
  rfl

/-- The items that are not below the two are as they were when the union began. -/
theorem still (hh : w.HasSlot h) (hr : T.rank s ≤ T.rank h) :
    u.slot h = w.slot h ∧ u.held h = if w.slot s = w.slot h then f (w.held s) else w.held h := by
  obtain ⟨e, e'⟩ := m.unites.evolves.above h hh hr
  exact ⟨e, e'.trans (m.held_updateItem h)⟩

theorem held_of_not_merged (hh : w.HasSlot h) (hm : ¬ Merged w s o h) : (w.updateItem (w.slot s) f).held h = w.held h := by
  rw [m.held_updateItem, if_neg fun e => hm (.inl ⟨hh, m.self, e.symm⟩)]

theorem item_self : u.item (w.slot s) = f (w.held s) := by
  obtain ⟨e, e'⟩ := m.still m.self (le_refl _)
  rwa [if_pos rfl, held, e] at e'

theorem merged_of_joined (j : u.Joined g h) (hg : Merged w s o g) : Merged w s o h := by
  have hw : w.HasSlot h := (m.hasSlot h).1 j.right
  have hr : T.rank h = T.rank s := (m.unites.typed.rank j).symm.trans (m.rank_merged hg)
  have eg := (m.still (hg.hasSlot) (le_of_eq (m.rank_merged hg).symm)).1
  have eh := (m.still hw (le_of_eq hr.symm)).1
  have j' : w.Joined h g := ⟨hw, hg.hasSlot, eh.symm.trans (j.slot.symm.trans eg)⟩
  exact hg.imp j'.trans j'.trans

theorem present (h : Holder) (hh : Merged w s o h) : u.HasSlot h := (m.hasSlot h).2 hh.hasSlot

theorem slot_ne (hh : u.HasSlot h) (hm : ¬ Merged w s o h) : u.slot h ≠ w.slot s := by
  intro e
  have es := (m.still m.self (le_refl _)).1
  exact hm (m.merged_of_joined ⟨(m.hasSlot s).2 m.self, hh, es.trans e.symm⟩ (.inl (.refl m.self)))

theorem mem_holders (g : Holder) : g ∈ (u.item (w.slot s)).holders ↔ Merged w s o g := by
  have hr : T.rank o < n := lt_of_eq_of_lt (congrArg T.level m.shape).symm m.below
  rw [m.item_self, m.takes.holders, m.typed.holders s m.self m.below, m.typed.holders o m.other hr]
  rfl

variable (x : Fused (Merged w s o) (w.slot s) it u w')

include x

theorem joined (j : u.Joined g h) : w'.Joined g h := by
  by_cases hg : Merged w s o g
  · exact x.joined_of_mem m.present hg (m.merged_of_joined j hg)
  · exact (x.joined_of_not_mem hg fun hh => hg (m.merged_of_joined j.symm hh)).2 j

theorem joined_first (j : w.Joined g h) : w'.Joined g h := m.joined x (m.unites.evolves.joined g h (((sameSlots_updateItem w _ f).joined g h).2 j))

theorem holders_after (hh : w.HasSlot h) (hr : T.rank h < n) (hm : ¬ Merged w s o h) (g : Holder) : g ∈ (w'.held h).holders ↔ w'.Joined g h := by
  have hu := (m.hasSlot h).2 hh
  have apart (j : w'.Joined g h) : u.Joined g h := (x.joined_of_not_mem (fun hg => hm ((x.mem_iff j).1 hg)) hm).1 j
  rw [(x.outside h hu hm).2.2]
  by_cases hlt : T.rank h < T.rank s
  · rw [m.unites.typed.holders h hu hlt g]
    exact ⟨m.joined x, apart⟩
  · obtain ⟨es, eh⟩ := m.still hh (Nat.le_of_not_lt hlt)
    rw [eh, if_neg fun e => hm (.inl ⟨hh, m.self, e.symm⟩), m.typed.holders h hh hr g]
    refine ⟨m.joined_first x, fun j => ?_⟩
    have j' := apart j
    have hg := (m.hasSlot g).1 j'.left
    have eg := (m.still hg ((m.unites.typed.rank j') ▸ Nat.le_of_not_lt hlt)).1
    exact ⟨hg, hh, eg.symm.trans (j'.slot.trans es)⟩

/-- **The state after a merger is typed.** -/
theorem typed_after (hv : Known S τ' u it.value) (e : it.value.plain = r.plain) (hh : it.holders = (f (w.held s)).holders) : Typed S T τ' n w' where
  later := m.unites.typed.later.trans x.later
  made h hw := by
    have hu := (x.slots h).1 hw
    rw [x.size]
    by_cases hm : Merged w s o h
    · rw [(x.inside h hm).1, ← (m.still m.self (le_refl _)).1]
      exact m.unites.typed.made s ((m.hasSlot s).2 m.self)
    · rw [(x.outside h hu hm).1]
      exact m.unites.typed.made h hu
  shape g h j := by
    by_cases hg : Merged w s o g
    · exact (m.shape_merged hg).trans (m.shape_merged ((x.mem_iff j).1 hg)).symm
    · exact m.unites.typed.shape g h ((x.joined_of_not_mem hg fun hh => hg ((x.mem_iff j).2 hh)).1 j)
  known h hw := by
    have hu := (x.slots h).1 hw
    by_cases hm : Merged w s o h
    · rw [(x.inside h hm).2]
      exact hv.later (.refl _ _) x.later
    · rw [(x.outside h hu hm).2.2]
      exact (m.unites.typed.known h hu).later (.refl _ _) x.later
  conforms h hw := by
    have hu := (x.slots h).1 hw
    by_cases hm : Merged w s o h
    · rw [(x.inside h hm).2, Typing.rank, m.shape_merged hm]
      have hr : Conforms T w (T.rank s) (T.inside (T.of s)) r := .of_join m.unites.plain (m.typed.conforms s m.self) m.conforms
      intro p g hg
      obtain ⟨hw, hf⟩ := hr p g (hg.of_plain_eq e)
      exact ⟨(x.slots g).2 ((m.hasSlot g).2 hw), hf⟩
    · rw [(x.outside h hu hm).2.2]
      exact (m.unites.typed.conforms h hu).mono fun g => (x.slots g).2
  holders h hw hr g := by
    by_cases hm : Merged w s o h
    · rw [(x.inside h hm).2, hh, ← m.item_self, m.mem_holders]
      exact ⟨fun hg => x.joined_of_mem m.present hg hm, fun j => (x.mem_iff j).2 hm⟩
    · exact m.holders_after x ((m.hasSlot h).1 ((x.slots h).1 hw)) hr hm g

/-- The flags of two items that are merged are put together, those of others are what the union has made of them. -/
theorem flags_after (hf : ∀ F : Flag, F.of it = F.of (f (w.held s))) (F : Flag) (hh : w.HasSlot h) :
    F.of (w'.held h) = true ↔ ∃ g, w'.Joined g h ∧ F.of (w.held g) = true := by
  by_cases hm : Merged w s o h
  · rw [(x.inside h hm).2, hf, flag_of_absorbed m.takes F, Bool.or_eq_true]
    constructor
    · rintro (e | e)
      · exact ⟨s, x.joined_of_mem m.present (.inl (.refl m.self)) hm, e⟩
      · exact ⟨o, x.joined_of_mem m.present (.inr (.refl m.other)) hm, e⟩
    · rintro ⟨g, j, e⟩
      rcases (x.mem_iff j).2 hm with j | j
      · exact .inl (j.held ▸ e)
      · exact .inr (j.held ▸ e)
  · rw [(x.outside h ((m.hasSlot h).2 hh) hm).2.2, m.unites.evolves.flags F h (((sameSlots_updateItem w _ f).hasSlot h).2 hh)]
    have same {g : Holder} (j : u.Joined g h) (hg : ¬ Merged w s o g) : (w.updateItem (w.slot s) f).held g = w.held g :=
      m.held_of_not_merged ((m.hasSlot g).1 j.left) hg
    constructor
    · rintro ⟨g, j, e⟩
      exact ⟨g, m.joined x j, same j (fun hg => hm (m.merged_of_joined j hg)) ▸ e⟩
    · rintro ⟨g, j, e⟩
      have hg : ¬ Merged w s o g := fun hg => hm ((x.mem_iff j).1 hg)
      have j' := (x.joined_of_not_mem hg hm).1 j
      exact ⟨g, j', (same j' hg).symm ▸ e⟩

/-- **A merger evolves the state**, when the item that is left has taken in both. -/
theorem evolves_after (hf : ∀ F : Flag, F.of it = F.of (f (w.held s))) (hs : Grown S w' (w.held s) it) (ho : Grown S w' (w.held o) it) :
    Evolves S T n w w' where
  later := (later_updateItem w _ f).trans (m.unites.evolves.later.trans x.later)
  slots h := (x.slots h).trans (m.hasSlot h)
  joined g h := m.joined_first x
  above h hh hr := by
    have hlt := lt_of_lt_of_le m.below hr
    have hm : ¬ Merged w s o h := fun hm => ne_of_gt hlt (m.rank_merged hm)
    obtain ⟨es, -, eh⟩ := x.outside h ((m.hasSlot h).2 hh) hm
    obtain ⟨es', eh'⟩ := m.still hh (le_of_lt hlt)
    refine ⟨es.trans es', eh.trans (eh'.trans (if_neg fun e => hm (.inl ⟨hh, m.self, e.symm⟩)))⟩
  flags F h hh := m.flags_after x hf F hh
  grown g h j := by
    by_cases hg : Merged w s o g
    · rw [(x.inside h ((x.mem_iff j).1 hg)).2]
      rcases hg with j | j
      · rwa [j.held]
      · rwa [j.held]
    · have hh : ¬ Merged w s o h := fun hh => hg ((x.mem_iff j).2 hh)
      have j' := (x.joined_of_not_mem hg hh).1 j
      have hw := (m.hasSlot g).1 j'.left
      have grown := m.unites.evolves.grown g h j'
      rw [m.held_of_not_merged hw hg] at grown
      rw [(x.outside h j'.right hh).2.2]
      exact grown.mono (m.typed.known g hw).fits (m.unites.typed.known h j'.right).fits
        ((m.typed.conforms g hw).mono fun g => (m.hasSlot g).2).placed (m.unites.typed.placed j'.right) (fun g h => m.joined x) x.waits
  waits p hp := x.waits p (m.unites.evolves.waits p hp)

theorem covers_after (e : it.value.plain = r.plain) : Covers S w' it.value (w.held s).value ∧ Covers S w' it.value b := by
  have placed {a : Annot} (h : Placed w a) : Placed u a := fun p g hg => (m.hasSlot g).2 (h p g hg)
  obtain ⟨h, h'⟩ := Covers.of_union m.unites.plain (m.typed.known s m.self).fits m.known.fits (placed (m.typed.placed m.self))
    (placed m.conforms.placed) m.unites.united
  exact ⟨(h.mono fun g h => m.joined x).of_plain_eq e, (h'.mono fun g h => m.joined x).of_plain_eq e⟩

theorem grown_after (hit : it = { f (w.held s) with value := it.value }) (e : it.value.plain = r.plain)
    (told : ∀ p ∈ (w.held s).reads, w'.Waits p ∨ it.value = (w.held s).value) : Grown S w' (w.held s) it := by
  refine ⟨fun p hp => ?_, (m.covers_after x e).1, fun p hp => ?_⟩
  · rw [hit]
    exact (m.takes.reads p).2 (.inl hp)
  · exact (told p hp).imp id fun e => equal_of_plain (m.typed.known s m.self).fits (congrArg plain e) rfl

/-- **A merger leads to a typed state.** -/
theorem leads_after (hit : it = { f (w.held s) with value := it.value }) (hv : Known S τ' u it.value) (e : it.value.plain = r.plain)
    (hs : Grown S w' (w.held s) it) (ho : Grown S w' (w.held o) it) : Leads S T τ τ' n w w' := by
  refine ⟨m.unites.agree, m.typed_after x hv e ?_, m.evolves_after x (fun F => ?_) hs ho⟩
  · rw [hit]
  · rw [hit]
    cases F <;> rfl

end Halfway

namespace Halfway

variable (m : Halfway S T τ τ' n w u s o f b r)

include m

theorem value_settled (hT : ∀ t, t ≠ 0 → (S.types t).2 ≠ [])
    (hv : (v = r ∧ ∀ p ∈ (u.item (w.slot s)).reads, u'.Waits p) ∨ (v = (u.item (w.slot s)).value ∧ u.equal r (w.held s).value = true)) :
    v.plain = r.plain ∧ Known S τ' u v ∧ ∀ p ∈ (w.held s).reads, u'.Waits p ∨ v = (w.held s).value := by
  rw [m.item_self, m.takes.value] at hv
  rcases hv with ⟨rfl, hw⟩ | ⟨rfl, e⟩
  · exact ⟨rfl, m.unites.known, fun p hp => .inl (hw p ((m.takes.reads p).2 (.inl hp)))⟩
  · refine ⟨?_, ?_, fun p hp => .inr rfl⟩
    · rw [← equal_plain, m.unites.plain] at e
      rw [m.unites.plain, join_eq_self_of_equal hT (m.typed.known s m.self).fits m.known.fits e]
    · have known := m.unites.typed.known s ((m.hasSlot s).2 m.self)
      rwa [(m.still m.self (le_refl _)).2, if_pos rfl, m.takes.value] at known

theorem made : w.slot s < u.items.size := by
  have h := m.unites.typed.made s ((m.hasSlot s).2 m.self)
  rwa [(m.still m.self (le_refl _)).1] at h

theorem fused (x : Settled (w.slot s) (w.held o) u (w.held s).value r v u' w') :
    Fused (Merged w s o) (w.slot s) { f (w.held s) with value := v } u w' := by
  obtain ⟨later, items, progress⟩ := foldl_point_eq (u.item (w.slot s)).holders u (w.slot s)
  have slots := hasSlot_foldl_point (u.item (w.slot s)).holders u (w.slot s)
  have slot {h : Holder} (hh : u.HasSlot h) := slot_foldl_point (u.item (w.slot s)).holders (w.slot s) hh
  have q := x.patched.trans x.rest
  generalize (u.item (w.slot s)).holders.foldl (point (w.slot s)) u = u₁ at later items progress slots slot q
  have hsize := m.made
  have hslot (h : Holder) : w'.slot h = u₁.slot h := (q.slot h).trans ((sameSlots_updateItem _ _ _).slot h)
  have hitem (j : ItemId) : w'.item j = if w.slot s = j then { f (w.held s) with value := v } else u.item j := by
    have same (j : ItemId) : u₁.item j = u.item j := by rw [item, item, items]
    rw [q.item, item_updateItem, same, same, m.item_self, items]
    simp only [hsize, and_true]
  refine ⟨later.trans ((later_updateItem _ _ _).trans q.later), ?_, fun h => ?_, fun h hh => ?_, fun h hh hm => ?_, fun p hp => ?_⟩
  · rw [q.items, size_updateItem, items]
  · rw [q.hasSlot, (sameSlots_updateItem _ _ _).hasSlot, slots]
  · have e : w'.slot h = w.slot s := by rw [hslot, slot ((m.hasSlot h).2 hh.hasSlot), if_pos ((m.mem_holders h).2 hh)]
    exact ⟨e, by rw [held, e, hitem, if_pos rfl]⟩
  · have e : w'.slot h = u.slot h := by rw [hslot, slot hh, if_neg fun h' => hm ((m.mem_holders h).1 h')]
    exact ⟨e, m.slot_ne hh hm, by rw [held, e, hitem, if_neg (m.slot_ne hh hm).symm, held]⟩
  · exact q.waits p (by rwa [Waits, updateItem, progress])

end Halfway

/-- **What has been settled is typed, and the state has evolved.** -/
theorem Halfway.settled (m : Halfway S T τ τ' n w u s o f (w.held o).value r) (hT : ∀ t, t ≠ 0 → (S.types t).2 ≠ [])
    (x : Settled (w.slot s) (w.held o) u (w.held s).value r v u' w') : Leads S T τ τ' n w w' ∧ w'.Joined s o := by
  obtain ⟨e, known, told⟩ := m.value_settled hT x.value
  have y := m.fused x
  have grown : Grown S w' (w.held o) { f (w.held s) with value := v } := by
    refine ⟨fun p hp => (m.takes.reads p).2 (.inr hp), (m.covers_after y e).2, fun p hp => ?_⟩
    rcases x.told with h | hw
    · right
      have placed {a : Annot} (h : Placed u a) : Placed u' a := fun p g hg => (x.rest.hasSlot g).1 ((y.slots g).2 (h p g hg))
      have hr : Conforms T w (T.rank s) (T.inside (T.of s)) r := .of_join m.unites.plain (m.typed.conforms s m.self) m.conforms
      have h' : w'.equal r (w.held o).value = true := equal_mono m.unites.known.fits m.known.fits (placed (hr.mono fun g => (m.hasSlot g).2).placed)
        (placed (m.conforms.mono fun g => (m.hasSlot g).2).placed) (fun g h => (x.rest.joined g h).2) h
      rw [← equal_plain] at h' ⊢
      rwa [e]
    · exact .inl (hw p hp)
  have grown' := m.grown_after y rfl e fun p hp => (told p hp).imp (x.rest.waits p) id
  exact ⟨m.leads_after y rfl known e grown' grown,
    y.joined_of_mem (fun h hh => (m.hasSlot h).2 hh.hasSlot) (.inl (.refl m.self)) (.inr (.refl m.other))⟩

/-- The state in which the union of what two items hold is made is typed below them. -/
theorem Typed.updateItem (t : Typed S T τ n w) (hs : w.HasSlot s) (hr : T.rank s < n) (hf : ∀ it, (f it).value = it.value) :
    Typed S T τ (T.rank s) (w.updateItem (w.slot s) f) := by
  have slots := sameSlots_updateItem w (w.slot s) f
  have value (h : Holder) : ((w.updateItem (w.slot s) f).held h).value = (w.held h).value := by
    rw [held, slots.slot, item_updateItem]
    split
    · rename_i e
      rw [hf, e.1, held]
    · rfl
  refine ⟨t.later.trans (later_updateItem ..), fun h hh => ?_, fun g h j => ?_, fun h hh => ?_, fun h hh => ?_, fun h hh hlt g => ?_⟩
  · rw [slots.slot, size_updateItem]
    exact t.made h ((slots.hasSlot h).1 hh)
  · exact t.shape g h ((slots.joined g h).1 j)
  · rw [value]
    exact (t.known h ((slots.hasSlot h).1 hh)).later (.refl _ _) (later_updateItem ..)
  · rw [value]
    exact (t.conforms h ((slots.hasSlot h).1 hh)).mono fun g => (slots.hasSlot g).2
  · have hw := (slots.hasSlot h).1 hh
    have apart : w.slot s ≠ w.slot h := fun e => ne_of_lt hlt (t.rank ⟨hw, hs, e.symm⟩)
    have e : (w.updateItem (w.slot s) f).held h = w.held h := by
      rw [held, slots.slot, item_updateItem, if_neg fun e => apart e.1, held]
    rw [e, slots.joined]
    exact t.holders h hw (lt_trans hlt hr) g

section

variable {union : Annot → Annot → Ana Annot} (hT : ∀ t, t ≠ 0 → (S.types t).2 ≠ []) (hu : MergeSpec S T union) (t : Typed S T τ n w)
include hT hu t

/-- **One item takes another one in.** -/
theorem absorbItem_spec (hs : w.HasSlot s) (ho : w.HasSlot o) (shape : T.of s = T.of o) (hr : T.rank s < n) (hne : w.slot s ≠ w.slot o)
    (h : absorbItem union (w.slot s) (w.slot o) k w = .ok () w') : ∃ τ', Leads S T τ τ' n w w' ∧ w'.Joined s o := by
  obtain ⟨f, r, u, takes, hunion, hrest⟩ := of_absorbItem hne (t.made s hs) h
  have t₁ := t.updateItem (f := f) hs hr fun it => (takes it).value
  have known {h : Holder} (hh : w.HasSlot h) := (t.known h hh).later (.refl _ _) (later_updateItem w (w.slot s) f)
  have same (g : Holder) := ((sameSlots_updateItem w (w.slot s) f).hasSlot g).2
  have conforms' : Conforms T w (T.rank s) (T.inside (T.of s)) (w.held o).value := by
    have h := t.conforms o ho
    rwa [Typing.rank, ← shape] at h
  obtain ⟨τ', unites⟩ := hu t₁ (known hs) (known ho) ((t.conforms s hs).mono same) (conforms'.mono same) hunion
  have m : Halfway S T τ τ' n w u s o f (w.held o).value r := ⟨t, hs, ho, shape, hr, takes _, t.known o ho, conforms', unites⟩
  obtain ⟨v, u', x⟩ := of_settleItem m.made hrest
  exact ⟨τ', m.settled hT x⟩

/-- **Two items are merged.** -/
theorem mergeItems_spec (hg : w.HasSlot g) (hh : w.HasSlot h) (shape : T.of g = T.of h) (hr : T.rank g < n)
    (e : mergeItems union (w.slot g) (w.slot h) k w = .ok () w') : ∃ τ', Leads S T τ τ' n w w' ∧ w'.Joined g h := by
  rcases of_mergeItems e with ⟨e, rfl⟩ | ⟨hne, e | e⟩
  · exact ⟨τ, .refl t, hg, hh, e⟩
  · exact absorbItem_spec hT hu t hg hh shape hr hne e
  · obtain ⟨τ', l, j⟩ := absorbItem_spec hT hu t hh hg shape.symm (lt_of_eq_of_lt (congrArg T.level shape).symm hr) hne.symm e
    exact ⟨τ', l, j.symm⟩

end

end Annot
end FlowCompiler
