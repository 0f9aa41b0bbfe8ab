import FlowCompiler.Proofs.Items.Unions

/-!
# Runs of definitions

Lists and dictionaries are defined, read, generalized and united in any order.  A history records what has been asked
for, and the state is faithful to it: slots that were united share an item, the item has the flags and the readers of
all that it was merged from and contains every annotation that was put into one of them, and a reader waits to be
analysed again unless it would read the same now.

This is so while definitions are typed.  Where a list has itself among its elements after a union, the slots that are to
be patched change while the union of the elements is made, and the definitions of the elements are left behind.
-/

namespace FlowCompiler.Annot

open Ana World List

variable {S : Scope} {T : Typing} {τ τ' : Nat → Annot} {n : Nat} {w w' : World} {a b r : Annot} {g h : Holder} {k : Knot} {p : PosKey}

/-! ## Reading -/

/-- The state in which a position has read a slot. -/
def readAt (w : World) (h : Holder) (p : PosKey) : World := w.updateItem (w.slot h) fun it => { it with reads := insertPos it.reads p }

theorem held_readAt (hh : w.slot h < w.items.size) (p : PosKey) (g : Holder) :
    (readAt w h p).held g = if w.slot h = w.slot g then { w.held g with reads := insertPos (w.held g).reads p } else w.held g := by
  rw [readAt, held, (sameSlots_updateItem ..).slot, item_updateItem]
  simp only [hh, and_true]
  split
  · rename_i e
    rw [e]
    rfl
  · rfl

theorem value_readAt (hh : w.slot h < w.items.size) (p : PosKey) (g : Holder) : ((readAt w h p).held g).value = (w.held g).value := by
  rw [held_readAt hh]
  split <;> rfl

theorem holders_readAt (hh : w.slot h < w.items.size) (p : PosKey) (g : Holder) : ((readAt w h p).held g).holders = (w.held g).holders := by
  rw [held_readAt hh]
  split <;> rfl

theorem flags_readAt (hh : w.slot h < w.items.size) (p : PosKey) (F : Flag) (g : Holder) : F.of ((readAt w h p).held g) = F.of (w.held g) := by
  rw [held_readAt hh]
  split
  · cases F <;> rfl
  · rfl

theorem reads_readAt (hh : w.slot h < w.items.size) (p : PosKey) (g : Holder) {q : PosKey} (hq : q ∈ (w.held g).reads) :
    q ∈ ((readAt w h p).held g).reads := by
  rw [held_readAt hh]
  split
  · exact mem_insertPos.2 (.inl hq)
  · exact hq

theorem sameSlots_readAt (w : World) (h : Holder) (p : PosKey) : w.SameSlots (readAt w h p) := sameSlots_updateItem ..

section

variable (t : Typed S T τ n w) (hh : w.HasSlot h)
include t hh

theorem typed_readAt (p : PosKey) : Typed S T τ n (readAt w h p) where
  later := t.later.trans (later_updateItem ..)
  made g hg := by
    rw [(sameSlots_readAt w h p).slot, readAt, size_updateItem]
    exact t.made g (((sameSlots_readAt w h p).hasSlot g).1 hg)
  shape g g' j := t.shape g g' (((sameSlots_readAt w h p).joined g g').1 j)
  known g hg := by
    rw [value_readAt (t.made h hh)]
    exact (t.known g (((sameSlots_readAt w h p).hasSlot g).1 hg)).later (.refl _ _) (later_updateItem ..)
  conforms g hg := by
    rw [value_readAt (t.made h hh)]
    exact (t.conforms g (((sameSlots_readAt w h p).hasSlot g).1 hg)).mono fun g => ((sameSlots_readAt w h p).hasSlot g).2
  holders g hg hlt g' := by
    rw [holders_readAt (t.made h hh), (sameSlots_readAt w h p).joined]
    exact t.holders g (((sameSlots_readAt w h p).hasSlot g).1 hg) hlt g'

theorem evolves_readAt (hr : T.rank h < n) (p : PosKey) : Evolves S T n w (readAt w h p) where
  later := later_updateItem ..
  slots := (sameSlots_readAt w h p).hasSlot
  joined g g' := ((sameSlots_readAt w h p).joined g g').2
  above g hg hle := by
    refine ⟨(sameSlots_readAt w h p).slot g, ?_⟩
    rw [held_readAt (t.made h hh), if_neg fun e => ?_]
    exact Nat.ne_of_lt (Nat.lt_of_lt_of_le hr hle) (t.rank ⟨hh, hg, e⟩)
  flags F g hg := by
    rw [flags_readAt (t.made h hh)]
    refine ⟨fun e => ⟨g, .refl (((sameSlots_readAt w h p).hasSlot g).2 hg), e⟩, ?_⟩
    rintro ⟨g', j, e⟩
    rwa [← (((sameSlots_readAt w h p).joined g' g).1 j).held]
  grown g g' j := by
    have j' := ((sameSlots_readAt w h p).joined g g').1 j
    have known := t.known g' j'.right
    rw [j'.held]
    refine ⟨fun q => reads_readAt (t.made h hh) p g', ?_, fun q hq => .inr ?_⟩
    · rw [value_readAt (t.made h hh)]
      exact .refl known.fits ((t.conforms g' j'.right).mono fun g => ((sameSlots_readAt w h p).hasSlot g).2).placed
    · rw [value_readAt (t.made h hh)]
      exact equal_of_plain known.fits rfl rfl
  waits q := id

theorem leads_readAt (hr : T.rank h < n) (p : PosKey) : Leads S T τ τ n w (readAt w h p) := ⟨.refl _ _, typed_readAt t hh p, evolves_readAt t hh hr p⟩

end

/-! ## Defining -/

/-- An annotation that a slot may be given: it fits in, and its slots have the shapes that are asked for. -/
structure Suits (S : Scope) (T : Typing) (τ : Nat → Annot) (w : World) (h : Holder) (a : Annot) : Prop where
  known : Known S τ w a
  conforms : Conforms T w (T.rank h) (T.inside (T.of h)) a

/-- A state in which slots have been made, each with an item of its own. -/
structure Adds (new : List (Holder × ListItem)) (w w' : World) : Prop where
  later : w.Later w'
  slots : ∀ g, w'.HasSlot g ↔ w.HasSlot g ∨ ∃ it, (g, it) ∈ new
  fresh : ∀ g it, (g, it) ∈ new → ¬ w.HasSlot g
  old : ∀ g, w.HasSlot g → w'.slot g = w.slot g ∧ w'.held g = w.held g
  made : ∀ g, w'.HasSlot g → w'.slot g < w'.items.size
  own : ∀ g it, (g, it) ∈ new → w'.held g = { it with holders := [g] } ∧ ∀ h, w'.HasSlot h → w'.slot h = w'.slot g → h = g
  waits : ∀ p, w.Waits p → w'.Waits p

namespace Adds

variable {new : List (Holder × ListItem)}

theorem joined (x : Adds new w w') (g h : Holder) : w'.Joined g h ↔ w.Joined g h ∨ (g = h ∧ ∃ it, (g, it) ∈ new) := by
  constructor
  · intro j
    rcases (x.slots g).1 j.left with hg | ⟨it, hg⟩
    · rcases (x.slots h).1 j.right with hh | ⟨it, hh⟩
      · exact .inl ⟨hg, hh, (x.old g hg).1.symm.trans (j.slot.trans (x.old h hh).1)⟩
      · exact absurd ((x.own h it hh).2 g j.left j.slot ▸ hg) (x.fresh h it hh)
    · exact .inr ⟨((x.own g it hg).2 h j.right j.slot.symm).symm, it, hg⟩
  · rintro (j | ⟨rfl, hg⟩)
    · exact ⟨(x.slots g).2 (.inl j.left), (x.slots h).2 (.inl j.right), (x.old g j.left).1.trans (j.slot.trans (x.old h j.right).1.symm)⟩
    · exact .refl ((x.slots g).2 (.inr hg))

theorem typed (x : Adds new w w') (t : Typed S T τ n w) (hn : ∀ g it, (g, it) ∈ new → Suits S T τ w g it.value) : Typed S T τ n w' where
  later := t.later.trans x.later
  made := x.made
  shape g h j := by
    rcases (x.joined g h).1 j with j | ⟨rfl, -⟩
    · exact t.shape g h j
    · rfl
  known g hg := by
    rcases (x.slots g).1 hg with hg | ⟨it, hg⟩
    · rw [(x.old g hg).2]
      exact (t.known g hg).later (.refl _ _) x.later
    · rw [(x.own g it hg).1]
      exact (hn g it hg).known.later (.refl _ _) x.later
  conforms g hg := by
    rcases (x.slots g).1 hg with hg | ⟨it, hg⟩
    · rw [(x.old g hg).2]
      exact (t.conforms g hg).mono fun h hh => (x.slots h).2 (.inl hh)
    · rw [(x.own g it hg).1]
      exact (hn g it hg).conforms.mono fun h hh => (x.slots h).2 (.inl hh)
  holders g hg hlt h := by
    rw [x.joined]
    rcases (x.slots g).1 hg with hw | ⟨it, hg⟩
    · rw [(x.old g hw).2, t.holders g hw hlt h]
      refine ⟨.inl, ?_⟩
      rintro (j | ⟨rfl, it, hh⟩)
      · exact j
      · exact absurd hw (x.fresh _ it hh)
    · rw [(x.own g it hg).1, mem_singleton]
      constructor
      · rintro rfl
        exact .inr ⟨rfl, it, hg⟩
      · rintro (j | ⟨e, -⟩)
        · exact absurd j.right (x.fresh g it hg)
        · exact e

end Adds

theorem Adds.of_items {new : List (Holder × ListItem)} (later : w.Later w') (waits : ∀ p, w.Waits p → w'.Waits p)
    (hm : ∀ g, w.HasSlot g → w.slot g < w.items.size) (size : w.items.size ≤ w'.items.size) (item : ∀ i < w.items.size, w'.item i = w.item i)
    (slots : ∀ g, w'.HasSlot g ↔ w.HasSlot g ∨ ∃ it, (g, it) ∈ new) (fresh : ∀ g it, (g, it) ∈ new → ¬ w.HasSlot g)
    (slot : ∀ g, w.HasSlot g → w'.slot g = w.slot g)
    (own : ∀ g it, (g, it) ∈ new → w.items.size ≤ w'.slot g ∧ w'.slot g < w'.items.size ∧ w'.held g = { it with holders := [g] })
    (apart : ∀ g it h it', (g, it) ∈ new → (h, it') ∈ new → w'.slot h = w'.slot g → h = g) : Adds new w w' where
  later := later
  slots := slots
  fresh := fresh
  old g hg := ⟨slot g hg, by rw [held, slot g hg, item _ (hm g hg), held]⟩
  made g hg := by
    rcases (slots g).1 hg with hg | ⟨it, hg⟩
    · rw [slot g hg]
      exact Nat.lt_of_lt_of_le (hm g hg) size
    · exact (own g it hg).2.1
  own g it hg := by
    refine ⟨(own g it hg).2.2, fun h hh e => ?_⟩
    rcases (slots h).1 hh with hh | ⟨it', hh⟩
    · rw [slot h hh] at e
      exact absurd (hm h hh) (Nat.not_lt_of_le (e ▸ (own g it hg).1))
    · exact apart g it h it' hg hh e
  waits := waits

variable {d e : ListDefId}

theorem adds_newListDef (hm : ∀ g, w.HasSlot g → w.slot g < w.items.size) {m l : Bool} (e : newListDef a m l k w = .ok d w') :
    d = w.listDefs.size ∧ Adds [(.list d, { value := a, mutated := m || l, resized := l })] w w' := by
  cases e
  have mem {g : Holder} {it it' : ListItem} (h : (g, it) ∈ [(.list w.listDefs.size, it')]) : g = .list w.listDefs.size ∧ it = it' :=
    Prod.mk.inj (mem_singleton.1 h)
  refine ⟨rfl, .of_items ⟨rfl, rfl, prefix_refl _, Nat.le_refl _⟩ (fun p => id) hm (by simp) (fun i hi => ?_) (fun g => ?_)
    (fun g it hg => ?_) (fun g hg => ?_) (fun g it hg => ?_) fun g it h it' hg hh _ => (mem hh).1.trans (mem hg).1.symm⟩
  · simp [item, Array.getElem?_push, Nat.ne_of_lt hi]
  · cases g <;> simp only [HasSlot, Array.size_push, Nat.lt_succ_iff_lt_or_eq] <;> simp
  · rw [(mem hg).1]
    exact Nat.lt_irrefl _
  · cases g with
    | list e => simp [slot, listItemId, Array.getElem?_push, Nat.ne_of_lt (show e < w.listDefs.size from hg)]
    | key e => rfl
    | value e => rfl
  · obtain ⟨rfl, rfl⟩ := mem hg
    simp [slot, listItemId, held, item]

theorem adds_newDictDef (hm : ∀ g, w.HasSlot g → w.slot g < w.items.size) {d : DictDefId} (e : newDictDef a b k w = .ok d w') :
    d = w.dictDefs.size ∧ Adds [(.key d, { value := a }), (.value d, { value := b })] w w' := by
  cases e
  have mem {g : Holder} {it i j : ListItem} (h : (g, it) ∈ [(.key w.dictDefs.size, i), (.value w.dictDefs.size, j)]) :
      (g = .key w.dictDefs.size ∧ it = i) ∨ (g = .value w.dictDefs.size ∧ it = j) := by
    simpa using h
  refine ⟨rfl, .of_items ⟨rfl, rfl, prefix_refl _, Nat.le_refl _⟩ (fun p => id) hm ?_ (fun i hi => ?_) (fun g => ?_)
    (fun g it hg => ?_) (fun g hg => ?_) (fun g it hg => ?_) fun g it h it' hg hh => ?_⟩
  · simp only [Array.size_push]
    omega
  · simp [item, Array.getElem?_push, Nat.ne_of_lt hi, Nat.ne_of_lt (Nat.lt_succ_of_lt hi)]
  · cases g <;> simp only [HasSlot, Array.size_push, Nat.lt_succ_iff_lt_or_eq] <;> simp
  · rcases mem hg with ⟨rfl, -⟩ | ⟨rfl, -⟩ <;> exact Nat.lt_irrefl _
  · cases g with
    | list e => rfl
    | key e => simp [slot, dictDef, Array.getElem?_push, Nat.ne_of_lt (show e < w.dictDefs.size from hg)]
    | value e => simp [slot, dictDef, Array.getElem?_push, Nat.ne_of_lt (show e < w.dictDefs.size from hg)]
  · rcases mem hg with ⟨rfl, rfl⟩ | ⟨rfl, rfl⟩
    · refine ⟨?_, ?_, ?_⟩
      · simp [slot, dictDef]
      · simp only [slot, dictDef, Array.getElem?_push, if_true, Option.getD_some, Array.size_push]
        exact Nat.lt_succ_of_lt (Nat.lt_succ_self _)
      · simp only [held, slot, dictDef, item, Array.getElem?_push, Array.size_push, Option.getD_some, if_true,
          if_neg (Nat.ne_of_lt (Nat.lt_succ_self _))]
    · refine ⟨?_, ?_, ?_⟩
      · simp [slot, dictDef]
      · simp [slot, dictDef]
      · simp only [held, slot, dictDef, item, Array.getElem?_push, Array.size_push, Option.getD_some, if_true]
  · rcases mem hg with ⟨rfl, -⟩ | ⟨rfl, -⟩ <;> rcases mem hh with ⟨rfl, -⟩ | ⟨rfl, -⟩ <;> simp [slot, dictDef]

/-! ## Histories -/

/-- What has been asked for: the items that slots were made with, the annotations that were put into slots, what was read
from them, and which ones were united. -/
structure History where
  made : Holder → ListItem → Prop
  put : Holder → Annot → Prop
  read : Holder → PosKey → Annot → Prop
  united : Holder → Holder → Prop

namespace History

/-- The history of a state of which nothing else is known. -/
def of (w : World) : History where
  made h it := w.HasSlot h ∧ it = w.held h
  put h a := w.HasSlot h ∧ a = (w.held h).value
  read h p a := w.HasSlot h ∧ p ∈ (w.held h).reads ∧ a = (w.held h).value
  united := w.Joined

def make (H : History) (new : List (Holder × ListItem)) : History :=
  { H with made := fun h it => H.made h it ∨ (h, it) ∈ new, put := fun h a => H.put h a ∨ ∃ it, (h, it) ∈ new ∧ a = it.value }

def grow (H : History) (h : Holder) (a : Annot) : History := { H with put := fun g b => H.put g b ∨ (g = h ∧ b = a) }

def reading (H : History) (h : Holder) (p : PosKey) (a : Annot) : History := { H with read := fun g q b => H.read g q b ∨ (g = h ∧ q = p ∧ b = a) }

def unite (H : History) (g h : Holder) : History := { H with united := fun x y => H.united x y ∨ (x = g ∧ y = h) }

/-- Whether an annotation has been put into a slot or read from one. -/
def said (H : History) (a : Annot) : Prop := (∃ h, H.put h a) ∨ ∃ h p, H.read h p a

end History

/-- A state bears out a history. -/
structure Faithful (S : Scope) (T : Typing) (τ : Nat → Annot) (w : World) (H : History) : Prop where
  typed : ∀ n, Typed S T τ n w
  said : ∀ a, H.said a → Known S τ w a ∧ Placed w a
  slots : ∀ h it, H.made h it → w.HasSlot h
  flags : ∀ F h, w.HasSlot h → (Flag.of F (w.held h) = true ↔ ∃ g it, H.made g it ∧ w.Joined g h ∧ F.of it = true)
  put : ∀ h a, H.put h a → w.HasSlot h ∧ a.depth < World.annotDepth ∧ Covers S w (w.held h).value a
  read : ∀ h p a, H.read h p a → w.HasSlot h ∧ p ∈ (w.held h).reads ∧ (w.Waits p ∨ w.equal (w.held h).value a = true)
  united : ∀ g h, H.united g h → w.Joined g h

theorem Leads.typed_all (l : Leads S T τ τ' n w w') (t : ∀ m, Typed S T τ m w) (m : Nat) : Typed S T τ' m w' := by
  refine ⟨l.typed.later, l.typed.made, l.typed.shape, l.typed.known, l.typed.conforms, fun h hh hlt g => ?_⟩
  by_cases hn : T.rank h < n
  · exact l.typed.holders h hh hn g
  · have hn := Nat.le_of_not_lt hn
    have hw := (l.evolves.slots h).1 hh
    obtain ⟨es, eh⟩ := l.evolves.above h hw hn
    rw [eh, (t m).holders h hw hlt g]
    refine ⟨l.evolves.joined g h, fun j => ?_⟩
    have hg := (l.evolves.slots g).1 j.left
    have eg := (l.evolves.above g hg (l.typed.rank j ▸ hn)).1
    exact ⟨hg, hw, eg.symm.trans (j.slot.trans es)⟩

namespace Faithful

variable {H : History}

/-- **What evolves stays faithful.** -/
theorem leads (x : Faithful S T τ w H) (l : Leads S T τ τ' n w w') : Faithful S T τ' w' H where
  typed := l.typed_all x.typed
  said a ha := ⟨l.known (x.said a ha).1, fun p g hg => (l.evolves.slots g).2 ((x.said a ha).2 p g hg)⟩
  slots h it hi := (l.evolves.slots h).2 (x.slots h it hi)
  flags F h hh := by
    rw [l.evolves.flags F h ((l.evolves.slots h).1 hh)]
    constructor
    · rintro ⟨g, j, e⟩
      obtain ⟨g', it, hi, j', e'⟩ := (x.flags F g ((l.evolves.slots g).1 j.left)).1 e
      exact ⟨g', it, hi, (l.evolves.joined g' g j').trans j, e'⟩
    · rintro ⟨g, it, hi, j, e⟩
      have hg := x.slots g it hi
      exact ⟨g, j, (x.flags F g hg).2 ⟨g, it, hi, .refl hg, e⟩⟩
  put h a ha := by
    obtain ⟨hh, hd, hc⟩ := x.put h a ha
    have hh' := (l.evolves.slots h).2 hh
    have hs := (x.said a (.inl ⟨h, ha⟩)).1
    refine ⟨hh', hd, ?_⟩
    exact (l.evolves.grown h h (.refl hh')).covers.trans (l.typed.known h hh').fits ((x.typed n).known h hh).fits hs.fits (hc.mono l.evolves.joined)
  read h p a ha := by
    obtain ⟨hh, hp, hw⟩ := x.read h p a ha
    have hh' := (l.evolves.slots h).2 hh
    obtain ⟨hs, placed⟩ := x.said a (.inr ⟨h, p, ha⟩)
    have grown := l.evolves.grown h h (.refl hh')
    refine ⟨hh', grown.reads p hp, ?_⟩
    rcases hw with hw | e
    · exact .inl (l.evolves.waits p hw)
    · rcases grown.told p hp with hw | e'
      · exact .inl hw
      · refine .inr (equal_trans_plain (l.typed.known h hh').fits ((x.typed n).known h hh).fits hs.fits e' ?_)
        exact equal_mono ((x.typed n).known h hh).fits hs.fits ((x.typed n).placed hh) placed l.evolves.joined e
  united g h hu := l.evolves.joined g h (x.united g h hu)

/-- **New slots are faithful to what they were made with.** -/
theorem adds {new : List (Holder × ListItem)} (x : Faithful S T τ w H) (y : Adds new w w')
    (hn : ∀ g it, (g, it) ∈ new → Suits S T τ w g it.value ∧ it.value.depth < World.annotDepth) : Faithful S T τ w' (H.make new) := by
  have grows (g : Holder) (hg : w.HasSlot g) : w'.HasSlot g := (y.slots g).2 (.inl hg)
  have joined (g h : Holder) (j : w.Joined g h) : w'.Joined g h := (y.joined g h).2 (.inl j)
  have said (a : Annot) (ha : (H.make new).said a) : Known S τ w a ∧ Placed w a := by
    rcases ha with ⟨h, ha | ⟨it, hi, rfl⟩⟩ | ⟨h, p, ha⟩
    · exact x.said a (.inl ⟨h, ha⟩)
    · exact ⟨(hn h it hi).1.known, (hn h it hi).1.conforms.placed⟩
    · exact x.said a (.inr ⟨h, p, ha⟩)
  refine ⟨fun n => y.typed (x.typed n) fun g it hi => (hn g it hi).1, fun a ha => ?_, ?_, fun F h hh => ?_, ?_, ?_, fun g h hu => ?_⟩
  · exact ⟨(said a ha).1.later (.refl _ _) y.later, fun p g hg => grows g ((said a ha).2 p g hg)⟩
  · rintro h it (hi | hi)
    · exact grows h (x.slots h it hi)
    · exact (y.slots h).2 (.inr ⟨it, hi⟩)
  · rcases (y.slots h).1 hh with hw | ⟨it, hi⟩
    · rw [(y.old h hw).2, x.flags F h hw]
      constructor
      · rintro ⟨g, it, hi, j, e⟩
        exact ⟨g, it, .inl hi, joined g h j, e⟩
      · rintro ⟨g, it, hi, j, e⟩
        rcases (y.joined g h).1 j with j | ⟨rfl, it', hi'⟩
        · exact ⟨g, it, hi.resolve_right fun hi => y.fresh g it hi j.left, j, e⟩
        · exact absurd hw (y.fresh g it' hi')
    · have flag {it : ListItem} (hi : (h, it) ∈ new) : F.of (w'.held h) = F.of it := by
        rw [(y.own h it hi).1]
        cases F <;> rfl
      constructor
      · intro e
        exact ⟨h, it, .inr hi, .refl hh, flag hi ▸ e⟩
      · rintro ⟨g, it', hi', j, e⟩
        rcases (y.joined g h).1 j with j | ⟨rfl, -⟩
        · exact absurd j.right (y.fresh h it hi)
        · rw [flag (hi'.resolve_left fun hm => y.fresh g it hi (x.slots g it' hm))]
          exact e
  · rintro h a (ha | ⟨it, hi, rfl⟩)
    · obtain ⟨hh, hd, hc⟩ := x.put h a ha
      rw [(y.old h hh).2]
      exact ⟨grows h hh, hd, hc.mono joined⟩
    · have hs := hn h it hi
      rw [(y.own h it hi).1]
      exact ⟨(y.slots h).2 (.inr ⟨it, hi⟩), hs.2, .refl hs.1.known.fits fun p g hg => grows g (hs.1.conforms.placed p g hg)⟩
  · intro h p a ha
    obtain ⟨hh, hp, hw⟩ := x.read h p a ha
    obtain ⟨known, placed⟩ := x.said a (.inr ⟨h, p, ha⟩)
    rw [(y.old h hh).2]
    exact ⟨grows h hh, hp, hw.imp (y.waits p) (equal_mono ((x.typed 0).known h hh).fits known.fits ((x.typed 0).placed hh) placed joined)⟩
  · exact joined g h (x.united g h hu)

theorem start (t : ∀ n, Typed S T τ n w) (hd : ∀ h, w.HasSlot h → (w.held h).value.depth < World.annotDepth) : Faithful S T τ w (.of w) := by
  have said (a : Annot) (ha : (History.of w).said a) : Known S τ w a ∧ Placed w a := by
    rcases ha with ⟨h, hh, rfl⟩ | ⟨h, p, hh, -, rfl⟩
    · exact ⟨(t 0).known h hh, (t 0).placed hh⟩
    · exact ⟨(t 0).known h hh, (t 0).placed hh⟩
  refine ⟨t, said, fun h it hi => hi.1, fun F h hh => ⟨fun e => ⟨h, _, ⟨hh, rfl⟩, .refl hh, e⟩, ?_⟩, ?_, ?_, fun g h => id⟩
  · rintro ⟨g, it, ⟨-, rfl⟩, j, e⟩
    exact j.held ▸ e
  · rintro h a ⟨hh, rfl⟩
    exact ⟨hh, hd h hh, .refl ((t 0).known h hh).fits ((t 0).placed hh)⟩
  · rintro h p a ⟨hh, hp, rfl⟩
    exact ⟨hh, hp, .inr (equal_of_plain ((t 0).known h hh).fits rfl rfl)⟩

section

variable (x : Faithful S T τ w H)
include x

theorem retag (hw : ∀ h, w.HasSlot h → Known S τ' w (w.held h).value) (hs : ∀ a, H.said a → Known S τ' w a) : Faithful S T τ' w H :=
  { x with
    typed := fun n => { x.typed n with known := hw }
    said := fun a ha => ⟨hs a ha, (x.said a ha).2⟩ }

theorem grow (hh : w.HasSlot h) (known : Known S τ w a) (placed : Placed w a)
    (hd : a.depth < World.annotDepth) (covers : Covers S w (w.held h).value a) : Faithful S T τ w (H.grow h a) := by
  refine { x with said := ?_, put := ?_ }
  · rintro b (⟨g, hb | ⟨-, rfl⟩⟩ | hb)
    · exact x.said b (.inl ⟨g, hb⟩)
    · exact ⟨known, placed⟩
    · exact x.said b (.inr hb)
  · rintro g b (hb | ⟨rfl, rfl⟩)
    · exact x.put g b hb
    · exact ⟨hh, hd, covers⟩

theorem reading (hh : w.HasSlot h) (hp : p ∈ (w.held h).reads) : Faithful S T τ w (H.reading h p (w.held h).value) := by
  have known := (x.typed 0).known h hh
  refine { x with said := ?_, read := ?_ }
  · rintro b (hb | ⟨g, q, hb | ⟨-, -, rfl⟩⟩)
    · exact x.said b (.inl hb)
    · exact x.said b (.inr ⟨g, q, hb⟩)
    · exact ⟨known, (x.typed 0).placed hh⟩
  · rintro g q b (hb | ⟨rfl, rfl, rfl⟩)
    · exact x.read g q b hb
    · exact ⟨hh, hp, .inr (equal_of_plain known.fits rfl rfl)⟩

theorem unite (j : w.Joined g h) : Faithful S T τ w (H.unite g h) := by
  refine { x with united := ?_ }
  rintro x' y (hu | ⟨rfl, rfl⟩)
  · exact x.united x' y hu
  · exact j

end

end Faithful

/-! ## Runs -/

/-- Reads a slot at a position. -/
def readSlot : Holder → PosKey → Ana Annot
  | .list d => readList d
  | .key d => readKey d
  | .value d => readValue d

/-- Widens a slot to hold an annotation. -/
def growSlot : Holder → Annot → Ana Unit
  | .list d => generalizeList d
  | .key d => generalizeKey d
  | .value d => generalizeValue d

theorem of_readSlot (e : readSlot h p k w = .ok a w') : w' = readAt w h p ∧ a = (w'.held h).value := by
  cases h <;> cases e <;> exact ⟨rfl, rfl⟩

theorem of_growSlot (e : growSlot h a k w = .ok () w') : generalizeItem (w.slot h) a k w = .ok () w' := by
  cases h <;> exact e

theorem of_unionLists (h : unionLists d e k w = .ok () w') : mergeItems union (w.slot (.list d)) (w.slot (.list e)) k w = .ok () w' := by
  obtain ⟨w₀, w₁, h₀, h⟩ := of_bind_ok h
  cases h₀
  exact h

/-- Annotations that slots may be given: with all that has been said they fit in, and tuples with one tag say the same. -/
def Admits (S : Scope) (T : Typing) (w : World) (H : History) (l : List (Holder × Annot)) : Prop :=
  ∃ τ, (∀ h, w.HasSlot h → Known S τ w (w.held h).value) ∧ (∀ a, H.said a → Known S τ w a) ∧
    ∀ x ∈ l, Suits S T τ w x.1 x.2 ∧ x.2.depth < World.annotDepth

/-- The states and histories of runs.  A run begins in a typed state, new slots and generalized ones are given annotations of
their shape, and slots that are united have the same shape. -/
inductive Run (S : Scope) (T : Typing) (k : Knot) : World → History → Prop
  | start {w : World} (ht : ∃ τ, ∀ n, Typed S T τ n w) (hd : ∀ h, w.HasSlot h → (w.held h).value.depth < World.annotDepth) :
    Run S T k w (.of w)
  | newList {w w' : World} {H : History} {a : Annot} {m r : Bool} {d : ListDefId} (run : Run S T k w H)
    (ha : Admits S T w H [(.list w.listDefs.size, a)]) (e : newListDef a m r k w = .ok d w') :
    Run S T k w' (H.make [(.list d, { value := a, mutated := m || r, resized := r })])
  | newDict {w w' : World} {H : History} {a b : Annot} {d : DictDefId} (run : Run S T k w H)
    (ha : Admits S T w H [(.key w.dictDefs.size, a), (.value w.dictDefs.size, b)]) (e : newDictDef a b k w = .ok d w') :
    Run S T k w' (H.make [(.key d, { value := a }), (.value d, { value := b })])
  | read {w w' : World} {H : History} {h : Holder} {p : PosKey} {a : Annot} (run : Run S T k w H) (hh : w.HasSlot h)
    (e : readSlot h p k w = .ok a w') : Run S T k w' (H.reading h p a)
  | grow {w w' : World} {H : History} {h : Holder} {a : Annot} (run : Run S T k w H) (hh : w.HasSlot h)
    (ha : Admits S T w H [(h, a)]) (e : growSlot h a k w = .ok () w') : Run S T k w' (H.grow h a)
  | uniteLists {w w' : World} {H : History} {d e : ListDefId} (run : Run S T k w H) (hd : w.HasSlot (.list d)) (he : w.HasSlot (.list e))
    (shape : T.of (.list d) = T.of (.list e)) (ok : unionLists d e k w = .ok () w') : Run S T k w' (H.unite (.list d) (.list e))
  | uniteDicts {w w' : World} {H : History} {d e : DictDefId} (run : Run S T k w H) (hd : w.HasSlot (.key d)) (he : w.HasSlot (.key e))
    (key : T.of (.key d) = T.of (.key e)) (value : T.of (.value d) = T.of (.value e)) (ok : unionDicts d e k w = .ok () w') :
    Run S T k w' ((H.unite (.key d) (.key e)).unite (.value d) (.value e))

/-- **Runs are faithful to their history.** -/
theorem faithful_run (hT : ∀ t, t ≠ 0 → (S.types t).2 ≠ []) {H : History} (run : Run S T k w H) : ∃ τ, Faithful S T τ w H := by
  induction run with
  | start ht hd =>
    obtain ⟨τ, t⟩ := ht
    exact ⟨τ, .start t hd⟩
  | newList run ha e ih =>
    obtain ⟨τ₀, x⟩ := ih
    obtain ⟨τ, hw, hs, ha⟩ := ha
    obtain ⟨rfl, y⟩ := adds_newListDef (x.typed 0).made e
    refine ⟨τ, (x.retag hw hs).adds y fun g it hi => ?_⟩
    obtain ⟨rfl, rfl⟩ := Prod.mk.inj (mem_singleton.1 hi)
    exact ha _ mem_cons_self
  | newDict run ha e ih =>
    obtain ⟨τ₀, x⟩ := ih
    obtain ⟨τ, hw, hs, ha⟩ := ha
    obtain ⟨rfl, y⟩ := adds_newDictDef (x.typed 0).made e
    refine ⟨τ, (x.retag hw hs).adds y fun g it hi => ?_⟩
    rcases mem_cons.1 hi with hi | hi
    · obtain ⟨rfl, rfl⟩ := Prod.mk.inj hi
      exact ha _ mem_cons_self
    · obtain ⟨rfl, rfl⟩ := Prod.mk.inj (mem_singleton.1 hi)
      exact ha _ (mem_cons_of_mem _ mem_cons_self)
  | @read w w' H h p a run hh e ih =>
    obtain ⟨τ, x⟩ := ih
    obtain ⟨rfl, rfl⟩ := of_readSlot e
    refine ⟨τ, (x.leads (leads_readAt (x.typed (T.rank h + 1)) hh (Nat.lt_succ_self _) p)).reading hh ?_⟩
    rw [held_readAt ((x.typed 0).made h hh), if_pos rfl]
    exact mem_insertPos.2 (.inr rfl)
  | @grow w w' H h a run hh ha e ih =>
    obtain ⟨τ₀, x⟩ := ih
    obtain ⟨τ, hw, hs, ha⟩ := ha
    obtain ⟨hs', hd⟩ := ha (h, a) mem_cons_self
    have x := x.retag hw hs
    obtain ⟨τ', l, covers⟩ := generalizeItem_spec hT (x.typed (T.rank h + 1)) hh (Nat.lt_succ_self _) hs'.known hs'.conforms (of_growSlot e)
    exact ⟨τ', (x.leads l).grow ((l.evolves.slots h).2 hh) (l.known hs'.known)
      (fun p g hg => (l.evolves.slots g).2 (hs'.conforms.placed p g hg)) hd covers⟩
  | @uniteLists w w' H d e run hd he shape ok ih =>
    obtain ⟨τ, x⟩ := ih
    obtain ⟨τ', l, j⟩ := mergeItems_spec hT (union_unites hT) (x.typed (T.rank (.list d) + 1)) hd he shape (Nat.lt_succ_self _) (of_unionLists ok)
    exact ⟨τ', (x.leads l).unite j⟩
  | @uniteDicts w w' H d e run hd he key value ok ih =>
    obtain ⟨τ, x⟩ := ih
    obtain ⟨τ', l, j, j'⟩ := mergeDicts_spec hT (union_unites hT) (x.typed (max (T.rank (.key d)) (T.rank (.value d)) + 1)) hd he
      key value (by omega) (by omega) ok
    exact ⟨τ', ((x.leads l).unite j).unite j'⟩

theorem joined_of_eqvGen {R : Holder → Holder → Prop} (hR : ∀ g h, R g h → w.Joined g h) (hg : w.HasSlot g)
    (e : Relation.EqvGen R g h) : w.Joined g h := by
  have both : g = h ∨ w.Joined g h := by
    clear hg
    induction e with
    | rel g h j => exact .inr (hR g h j)
    | refl g => exact .inl rfl
    | symm g h _ ih => exact ih.imp Eq.symm fun j => j.symm
    | trans g h i _ _ ih ih' =>
      rcases ih with rfl | j
      · exact ih'
      · rcases ih' with rfl | j'
        · exact .inr j
        · exact .inr (j.trans j')
  rcases both with rfl | j
  · exact .refl hg
  · exact j

/-- **Merged lists and dictionaries.**  After a run the slots that are connected by unions share an item.  It is mutated or
resized if one of the items was that it was merged from, and immutable if all were; it contains every annotation that has
been put into a slot that it stands for, has all positions that read one as readers, and every reader waits to be analysed
again unless what it has read is what it would read now. -/
theorem merged_run (S : Scope) (hT : ∀ t, t ≠ 0 → (S.types t).2 ≠ []) (T : Typing) (k : Knot) {w : World} {H : History} (run : Run S T k w H) :
    (∀ g h, w.HasSlot g → Relation.EqvGen H.united g h → w.Joined g h) ∧
    (∀ h, w.HasSlot h → ((w.held h).mutated = true ↔ ∃ g it, H.made g it ∧ w.Joined g h ∧ it.mutated = true) ∧
      ((w.held h).resized = true ↔ ∃ g it, H.made g it ∧ w.Joined g h ∧ it.resized = true) ∧
      ((w.held h).immutable = true ↔ ∀ g it, H.made g it → w.Joined g h → it.immutable = true)) ∧
    (∀ h a, H.put h a → ∃ w', contains (w.held h).value a k w = .ok true w') ∧
    ∀ h p a, H.read h p a → p ∈ (w.held h).reads ∧ (w.Waits p ∨ w.equal (w.held h).value a = true) := by
  obtain ⟨τ, x⟩ := faithful_run hT run
  refine ⟨fun g h hg e => joined_of_eqvGen x.united hg e, fun h hh => ⟨x.flags .mutated h hh, x.flags .resized h hh, ?_⟩,
    fun h a ha => ?_, fun h p a ha => (x.read h p a ha).2⟩
  · have e := not_congr (x.flags .changeable h hh)
    simpa [Flag.of] using e
  · obtain ⟨hh, hd, hc⟩ := x.put h a ha
    exact contains_of_covers (x.typed 0).later ((x.typed 0).known h hh) (x.said a (.inl ⟨h, ha⟩)).1 hd hc

/-- Annotations without tuples may be put into slots at any time. -/
theorem admits_of_leaf (hT : ∀ t, t ≠ 0 → (S.types t).2 ≠ []) {H : History} (run : Run S T k w H) {l : List (Holder × Annot)}
    (hl : ∀ x ∈ l, x.2.isLeaf = true ∧ Fits S x.2 ∧ Conforms T w (T.rank x.1) (T.inside (T.of x.1)) x.2) : Admits S T w H l := by
  obtain ⟨τ, y⟩ := faithful_run hT run
  refine ⟨τ, (y.typed 0).known, fun a ha => (y.said a ha).1, fun x hx => ?_⟩
  obtain ⟨leaf, fits, conforms⟩ := hl x hx
  refine ⟨⟨⟨(plain_eq_self leaf).symm ▸ fits, tagged_of_leaf leaf⟩, conforms⟩, ?_⟩
  have depth (a : Annot) (h : a.isLeaf = true) : a.depth = 0 := by
    cases a <;> first | rfl | cases h
  rw [depth x.2 leaf]
  decide

theorem newList_of_leaf (hT : ∀ t, t ≠ 0 → (S.types t).2 ≠ []) {H : History} (run : Run S T k w H) (m r : Bool) (hd : w.listDefs.size = d)
    (leaf : a.isLeaf = true) (fits : Fits S a) (conforms : Conforms T w (T.rank (.list d)) (T.inside (T.of (.list d))) a) :
    Run S T k ((newListDef a m r).after k w) (H.make [(.list d, { value := a, mutated := m || r, resized := r })]) := by
  subst hd
  exact run.newList (admits_of_leaf hT run fun x hx => mem_singleton.1 hx ▸ ⟨leaf, fits, conforms⟩) rfl

theorem start_of_empty (hl : S.world.Later w) (h₁ : w.listDefs = #[]) (h₂ : w.dictDefs = #[]) : Run S T k w (.of w) := by
  have empty (h : Holder) : ¬ w.HasSlot h := by
    cases h <;> simp [HasSlot, h₁, h₂]
  exact .start ⟨fun _ => object, fun n => ⟨hl, fun h hh => absurd hh (empty h), fun g h j => absurd j.left (empty g),
    fun h hh => absurd hh (empty h), fun h hh => absurd hh (empty h), fun h hh => absurd hh (empty h)⟩⟩ fun h hh => absurd hh (empty h)

/-- Two classes with a common base, and lists. -/
def listScope : Scope := { siblingScope with types := fun _ => (Option.none, [default]), containers := True }

/-- Lists with even numbers hold no lists, those with odd numbers hold such lists. -/
def nestedLists : Typing where
  Shape := Nat
  of
    | .list d => d % 2
    | _ => 0
  inside s _ := s - 1
  level := id

theorem conforms_nested (hd : d < w.listDefs.size) (he : d % 2 = e % 2 - 1) (hl : d % 2 < e % 2) :
    Conforms nestedLists w (nestedLists.rank (.list e)) (nestedLists.inside (nestedLists.of (.list e))) (list d) := by
  rintro p g hg
  cases hg
  exact ⟨hd, he, hl⟩

/-- Two lists of lists are united, and with them the lists that are their elements. -/
theorem merged_run_nested : (∀ t, t ≠ 0 → (listScope.types t).2 ≠ []) ∧ ∃ w H, Run listScope nestedLists idle w H ∧ w.Joined (.list 1) (.list 3) ∧
    (w.held (.list 3)).resized = true ∧ (∃ w', contains (w.held (.list 0)).value (instOf 2) idle w = .ok true w') ∧
    { graph := some 0, block := some 0 } ∈ (w.held (.list 3)).reads := by
  have hT : ∀ t, t ≠ 0 → (listScope.types t).2 ≠ [] := fun t _ => cons_ne_nil _ _
  have inst (w : World) (c : ClassDefId) (d : ListDefId) :
      Conforms nestedLists w (nestedLists.rank (.list d)) (nestedLists.inside (nestedLists.of (.list d))) (instOf c) := by
    rintro p g hg
    cases hg
  have run : Run listScope nestedLists idle siblings (.of siblings) := start_of_empty (.refl _) rfl rfl
  -- the lists 0 and 2 of instances are the elements of the lists 1 and 3
  have run := newList_of_leaf (d := 0) hT run false false (by decide +kernel) rfl (.inst (some 2) false .nil) (inst _ 2 0)
  have run := newList_of_leaf (d := 1) hT run false true (by decide +kernel) rfl (.list 0 trivial)
    (conforms_nested (by decide +kernel) rfl (by decide))
  have run := newList_of_leaf (d := 2) hT run true false (by decide +kernel) rfl (.inst (some 3) false .nil) (inst _ 3 2)
  have run := newList_of_leaf (d := 3) hT run false false (by decide +kernel) rfl (.list 2 trivial)
    (conforms_nested (by decide +kernel) rfl (by decide))
  have run := run.read (h := .list 1) (p := { graph := some 0, block := some 0 }) (show 1 < _ by decide +kernel) rfl
  have run := run.uniteLists (d := 1) (e := 3) (show 1 < _ by decide +kernel) (show 3 < _ by decide +kernel) rfl
    (ok_of_result (by decide +kernel))
  obtain ⟨joined, flags, put, reads⟩ := merged_run listScope hT nestedLists idle run
  have j := joined (.list 1) (.list 3) (show 1 < _ by decide +kernel) (.rel _ _ (.inr ⟨rfl, rfl⟩))
  refine ⟨hT, _, _, run, j, (flags (.list 3) j.right).2.1.2 ⟨.list 1, _, .inl (.inl (.inr mem_cons_self)), j, rfl⟩, put (.list 0) (instOf 2) ?_, ?_⟩
  · exact .inl (.inl (.inl (.inr ⟨_, mem_cons_self, rfl⟩)))
  · exact j.held ▸ (reads (.list 1) _ _ (.inr ⟨rfl, rfl, rfl⟩)).1

/-- Without types it need not be so: a list of integers is the element of a second list, and this one of a third.  When the
second and the third are united, the elements of the first are united with those of the second while the second is being
patched, and the first keeps the item that both have left. -/
theorem element_left_behind : ∃ w w',
    (do discard (newListDef (someInt false) false false)
        discard (newListDef (list 0) false false)
        discard (newListDef (list 1) false false)
        unionLists 1 2 : Ana Unit) idle {} = .ok () w ∧
    w.Joined (.list 1) (.list 2) ∧ contains (w.held (.list 2)).value (list 1) idle w = .ok false w' :=
  ⟨_, _, ok_of_result (by decide +kernel), ⟨show 1 < _ by decide +kernel, show 2 < _ by decide +kernel, by decide +kernel⟩,
    ok_of_result (by decide +kernel)⟩

end FlowCompiler.Annot
