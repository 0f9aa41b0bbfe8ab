import Mathlib.Data.Finset.Card
import Mathlib.Data.Nat.Find
import FlowCompiler.Proofs.Types.Keys

/-!
# When types are equal

Types are equal when they have the same signs after a forward reference at their head has been followed (`equal_iff`).  That
is an equivalence in every store.  It lasts: types that are equal are so in every later store (`equal_resolved`), and what
the signs of a type become says which types are equal then.

Following a forward reference stops at the first one.  So one that stands for another one that has been resolved to a structure is not
equal to it (`equal_target_iff`), and a store in which this does not happen is `Direct`.
-/

/-! ## Types whose keys come to an end

A key looks through forward references, and a type can contain itself through one: then its key has no end.  Of a type whose key
ends (`Ends`), the fuel is enough for all of it (`ends_fuel`), and its signs are those of its pieces (`refSigns_eq`).

When a forward reference is resolved, the signs of what it became take its place in every type (`refSigns_resolved`).  Nothing else
changes a key: it is the same in every later store in which the open forward references that it mentions are still open
(`refSigns_later`). -/

namespace FlowCompiler.Types

open List

variable {s s' : Types} {f g id i : NodeId} {t u : LowType} {n m : Nat} {gc : Bool}

/-! ### Ends -/

/-- The key of a type is at an end within a number of steps. -/
def Ends (s : Types) : (steps : Nat) → LowType → Prop
  | 0, _ => False
  | n + 1, t => ∀ u, .part u ∈ s.pattern t → s.Ends n u

def Piece.part? : Piece → Option LowType
  | .part t => some t
  | _ => none

theorem forall_parts_iff {ps : List Piece} {P : LowType → Prop} : (∀ u ∈ ps.filterMap Piece.part?, P u) ↔ ∀ u, .part u ∈ ps → P u := by
  refine forall_congr' fun u => imp_congr_left ?_
  rw [mem_filterMap]
  constructor
  · rintro ⟨p, hp, hu⟩
    cases p with
    | part t =>
      cases hu
      exact hp
    | _ => cases hu
  · exact fun hu => ⟨_, hu, rfl⟩

instance {ps : List Piece} {P : LowType → Prop} [DecidablePred P] : Decidable (∀ u, .part u ∈ ps → P u) := decidable_of_iff _ forall_parts_iff

instance decidableEnds (s : Types) : (n : Nat) → (t : LowType) → Decidable (s.Ends n t)
  | 0, _ => isFalse fun h => h
  | n + 1, t =>
    have := decidableEnds s n
    inferInstanceAs (Decidable (∀ u, .part u ∈ s.pattern t → s.Ends n u))

theorem Ends.succ (h : s.Ends n t) : s.Ends (n + 1) t := by
  induction n generalizing t with
  | zero => exact h.elim
  | succ n ih => exact fun u hu => ih (h u hu)

theorem Ends.mono (h : s.Ends n t) (le : n ≤ m) : s.Ends m t := by
  induction le with
  | refl => exact h
  | step _ ih => exact ih.succ

theorem Ends.signsAux_eq (h : s.Ends n t) (le : n ≤ m) : s.signsAux m t = s.signsAux n t := by
  induction n generalizing t m with
  | zero => exact h.elim
  | succ n ih =>
    obtain ⟨m, rfl⟩ : ∃ k, m = k + 1 := ⟨m - 1, by omega⟩
    refine flatMap_congr fun p hp => ?_
    cases p with
    | part u => exact ih (h u hp) (by omega)
    | _ => rfl

theorem ends_prim (s : Types) (p : Primitive) : s.Ends 1 (.prim p) := fun u hu => by simp [pattern] at hu

theorem ends_of_size_le (h : s.nodes.size ≤ id) : s.Ends 1 (.node id) := fun u hu => by
  simp [pattern, node_of_size_le h, nodePattern] at hu

theorem ends_ptr (h : s.Ends n (.node id)) : s.Ends (n + 1) (.ptr id) := fun u hu => by
  obtain rfl : u = .node id := by simpa [pattern] using hu
  exact h

open Classical in
/-- The nodes whose keys end within a number of steps. -/
noncomputable def ending (s : Types) (n : Nat) : Finset NodeId := (Finset.range s.nodes.size).filter fun id => s.Ends n (.node id)

theorem mem_ending : id ∈ s.ending n ↔ id < s.nodes.size ∧ s.Ends n (.node id) := by simp [ending]

theorem ending_subset (h : n ≤ m) : s.ending n ⊆ s.ending m := by
  intro id hid
  rw [mem_ending] at hid ⊢
  exact ⟨hid.1, hid.2.mono h⟩

/-- A key that needs a number of steps has a part that needs one less or two, so there are at least half as many nodes whose keys
end before. -/
theorem le_card_ending (h : s.Ends n (.node id)) (least : ¬ s.Ends (n - 1) (.node id)) (hid : id < s.nodes.size) : n ≤ 2 * (s.ending n).card + 1 := by
  induction n using Nat.strong_induction_on generalizing id with
  | _ n ih =>
    have here : id ∈ s.ending n := mem_ending.2 ⟨hid, h⟩
    have inhabited : 0 < (s.ending n).card := Finset.card_pos.2 ⟨id, here⟩
    rcases Nat.lt_or_ge n 4 with small | large
    · omega
    · obtain ⟨k, rfl⟩ : ∃ k, n = k + 4 := ⟨n - 4, by omega⟩
      have more : (s.ending (k + 3)).card < (s.ending (k + 4)).card :=
        Finset.card_lt_card ⟨ending_subset (by omega), fun sub => least (mem_ending.1 (sub here)).2⟩
      obtain ⟨u, hu, last⟩ : ∃ u, .part u ∈ s.pattern (.node id) ∧ ¬ s.Ends (k + 2) u := by
        by_contra none
        exact least fun u hu => by_contra fun hn => none ⟨u, hu, hn⟩
      have inner : s.Ends (k + 3) u := h u hu
      cases u with
      | prim p => exact absurd ((ends_prim s p).mono (by omega)) last
      | node q =>
        have hq : q < s.nodes.size := by_contra fun hq => last ((ends_of_size_le (Nat.le_of_not_lt hq)).mono (by omega))
        have := ih (k + 3) (by omega) inner last hq
        omega
      | ptr q =>
        have pointed : s.Ends (k + 2) (.node q) := inner _ (by simp [pattern])
        have late : ¬ s.Ends (k + 1) (.node q) := fun hk => last (ends_ptr hk)
        have hq : q < s.nodes.size := by_contra fun hq => late ((ends_of_size_le (Nat.le_of_not_lt hq)).mono (by omega))
        have := ih (k + 2) (by omega) pointed late hq
        have := Finset.card_le_card (ending_subset (s := s) (show k + 2 ≤ k + 3 by omega))
        omega

theorem Ends.node_budget (h : s.Ends n (.node id)) : s.Ends (2 * s.nodes.size + 2) (.node id) := by
  classical
  rcases Nat.lt_or_ge id s.nodes.size with hid | hid
  · have found : ∃ n, s.Ends n (.node id) := ⟨n, h⟩
    have bound := le_card_ending (Nat.find_spec found) (fun e => by
      have pos : Nat.find found ≠ 0 := fun z => by simpa [z, Ends] using Nat.find_spec found
      exact Nat.find_min found (by omega) e) hid
    have card : (s.ending (Nat.find found)).card ≤ s.nodes.size :=
      (Finset.card_le_card fun i hi => Finset.mem_range.2 (mem_ending.1 hi).1).trans (Finset.card_range _).le
    exact (Nat.find_spec found).mono (by omega)
  · exact (ends_of_size_le hid).mono (by omega)

theorem Ends.fuel (h : s.Ends n t) : s.Ends (2 * s.fuel) t := by
  have enough : 2 * s.nodes.size + 3 ≤ 2 * s.fuel := by simp only [Types.fuel]; omega
  cases n with
  | zero => exact h.elim
  | succ n =>
    cases t with
    | prim p => exact (ends_prim s p).mono (by omega)
    | node id => exact h.node_budget.mono (by omega)
    | ptr id => exact (ends_ptr (h _ (by simp [pattern])).node_budget).mono enough

/-! ### Signs of types whose keys end -/

/-- The signs of a type that is referred to. -/
def refSigns (s : Types) (t : LowType) : List Sign := s.signsAux (2 * s.fuel) t

theorem Ends.refSigns (h : s.Ends n t) : s.refSigns t = s.signsAux n t := by
  rcases Nat.le_total n (2 * s.fuel) with le | le
  · exact h.signsAux_eq le
  · exact (h.fuel.signsAux_eq le).symm

theorem Ends.refSigns_eq (h : s.Ends n t) : s.refSigns t = (s.pattern t).flatMap (Piece.signs s.refSigns) := by
  cases n with
  | zero => exact h.elim
  | succ n =>
    rw [h.refSigns, signsAux]
    refine flatMap_congr fun p hp => ?_
    cases p with
    | part u => exact (h u hp).refSigns.symm
    | _ => rfl

/-- The open forward references that the key of a type that is referred to mentions. -/
inductive Awaits (s : Types) : LowType → NodeId → Prop
  | self {id : NodeId} {gc : Bool} : s.node id = .forward gc none → Awaits s (.node id) id
  | part {t u : LowType} {id : NodeId} : .part u ∈ s.pattern t → Awaits s u id → Awaits s t id

theorem Awaits.isOpen (h : s.Awaits t id) : ∃ gc, s.node id = .forward gc none := by
  induction h with
  | self h => exact ⟨_, h⟩
  | part _ _ ih => exact ih

theorem awaits_mem_pattern : .awaits i ∈ s.pattern t ↔ t = .node i ∧ ∃ gc, s.node i = .forward gc none := by
  cases t with
  | node id =>
    rw [pattern, awaits_mem_nodePattern]
    constructor
    · rintro ⟨rfl, h⟩
      exact ⟨rfl, h⟩
    · rintro ⟨e, h⟩
      cases e
      exact ⟨rfl, h⟩
  | _ => simp [pattern]

theorem awaits_mem_flatMap {key : LowType → List Sign} {ps : List Piece} :
    .awaits i ∈ ps.flatMap (Piece.signs key) ↔ .awaits i ∈ ps ∨ ∃ u, .part u ∈ ps ∧ .awaits i ∈ key u := by
  rw [mem_flatMap]
  constructor
  · rintro ⟨p, hp, hi⟩
    cases p with
    | lit x => exact absurd hi (awaits_notMem_chars _)
    | part u => exact .inr ⟨u, hp, hi⟩
    | awaits j =>
      obtain rfl : i = j := by simpa [Piece.signs] using hi
      exact .inl hp
  · rintro (hi | ⟨u, hu, hi⟩)
    · exact ⟨_, hi, by simp [Piece.signs]⟩
    · exact ⟨_, hu, hi⟩

theorem awaits_of_mem_signsAux (h : .awaits i ∈ s.signsAux n t) : s.Awaits t i := by
  induction n generalizing t with
  | zero => cases h
  | succ n ih =>
    rw [signsAux, awaits_mem_flatMap] at h
    rcases h with h | ⟨u, hu, hi⟩
    · obtain ⟨rfl, gc, h⟩ := awaits_mem_pattern.1 h
      exact .self h
    · exact .part hu (ih hi)

theorem Awaits.mem_refSigns (h : s.Awaits t i) (ends : s.Ends n t) : .awaits i ∈ s.refSigns t := by
  induction h generalizing n with
  | self h =>
    rw [ends.refSigns_eq, awaits_mem_flatMap]
    exact .inl (awaits_mem_pattern.2 ⟨rfl, _, h⟩)
  | part hu _ ih =>
    rw [ends.refSigns_eq, awaits_mem_flatMap]
    cases n with
    | zero => exact ends.elim
    | succ n => exact .inr ⟨_, hu, ih (ends _ hu)⟩

/-! ### Later stores -/

/-- A store after some nodes were added and some forward references resolved. -/
structure Later (s s' : Types) : Prop where
  size_le : s.nodes.size ≤ s'.nodes.size
  node : ∀ id < s.nodes.size, s'.node id = s.node id ∨ ∃ gc t, s.node id = .forward gc none ∧ s'.node id = .forward gc (some t)

theorem Later.refl (s : Types) : Later s s := ⟨Nat.le_refl _, fun _ _ => .inl rfl⟩

theorem Later.trans {s'' : Types} (h : Later s s') (h' : Later s' s'') : Later s s'' := by
  refine ⟨h.size_le.trans h'.size_le, fun id hid => ?_⟩
  rcases h'.node id (hid.trans_le h.size_le) with e | ⟨gc, t, before, after⟩
  · rw [e]
    exact h.node id hid
  · rcases h.node id hid with e | ⟨gc', t', _, middle⟩
    · exact .inr ⟨gc, t, e ▸ before, after⟩
    · rw [middle] at before
      cases before

theorem Within.mono {k : Nat} (h : Within n t) (le : n ≤ k) : Within k t := by
  cases t with
  | prim p => exact h
  | ptr id => exact Nat.lt_of_lt_of_le h le
  | node id => exact Nat.lt_of_lt_of_le h le

theorem Later.pattern_eq (h : Later s s') (ht : Within s.nodes.size t) (same : ∀ i, s.Awaits t i → s'.node i = s.node i) :
    s'.pattern t = s.pattern t := by
  cases t with
  | node id =>
    have e : s'.node id = s.node id := (h.node id ht).elim (fun e => e) fun ⟨_, _, before, _⟩ => same id (.self before)
    rw [pattern, pattern, e]
  | _ => rfl

theorem pattern_pending (h : s.node id = .forward gc none) : s.pattern (.node id) = [.awaits id] := by
  rw [pattern, h, nodePattern]

/-- A node that is the same, or was an open forward reference or none at all. -/
theorem Later.node_cases (h : Later s s') (id : NodeId) : s'.node id = s.node id ∨ ∃ gc, s.node id = .forward gc none := by
  rcases Nat.lt_or_ge id s.nodes.size with inside | outside
  · exact (h.node id inside).imp_right fun ⟨gc, _, before, _⟩ => ⟨gc, before⟩
  · exact .inr ⟨false, node_of_size_le outside⟩

theorem Later.ends (h : Later s s') (ends : s'.Ends n t) : s.Ends n t := by
  induction n generalizing t with
  | zero => exact ends
  | succ n ih =>
    intro u hu
    cases t with
    | node id =>
      rcases h.node_cases id with e | ⟨gc, before⟩
      · rw [pattern, ← e] at hu
        exact ih (ends u hu)
      · simp [pattern_pending before] at hu
    | _ => exact ih (ends u hu)

theorem Ends.later (ends : s.Ends n t) (h : Later s s') (hs : s.Closed) (ht : Within s.nodes.size t)
    (same : ∀ i, s.Awaits t i → s'.node i = s.node i) : s'.Ends n t ∧ s'.signsAux n t = s.signsAux n t := by
  induction n generalizing t with
  | zero => exact ends.elim
  | succ n ih =>
    have pieces := h.pattern_eq ht same
    have part (u : LowType) (hu : .part u ∈ s.pattern t) := ih (ends u hu) (hs.part ht hu) fun i hi => same i (.part hu hi)
    constructor
    · intro u hu
      rw [pieces] at hu
      exact (part u hu).1
    · rw [signsAux, signsAux, pieces]
      refine flatMap_congr fun p hp => ?_
      cases p with
      | part u => exact (part u hp).2
      | _ => rfl

/-! ### Resolving a forward reference -/

/-- What becomes of a sign when a forward reference is resolved. -/
def settle (f : NodeId) (x : List Sign) : Sign → List Sign
  | .char c => [.char c]
  | .awaits id => if id = f then x else [.awaits id]

theorem flatMap_settle_chars (f : NodeId) (x : List Sign) (y : List Char) : (chars y).flatMap (settle f x) = chars y := by
  induction y with
  | nil => rfl
  | cons c y ih => exact congrArg (.char c :: ·) ih

/-- A store in which one forward reference has been resolved. -/
structure Resolved (s : Types) (f g : NodeId) (s' : Types) : Prop where
  pending : ∃ gc, s.node f = .forward gc none ∧ s'.node f = .forward gc (some g)
  size_eq : s'.nodes.size = s.nodes.size
  node : ∀ id, id ≠ f → s'.node id = s.node id

namespace Resolved

section

variable (h : Resolved s f g s')
include h

theorem later : Later s s' := by
  refine ⟨h.size_eq.ge, fun id _ => ?_⟩
  by_cases e : id = f
  · obtain ⟨gc, before, after⟩ := h.pending
    exact .inr ⟨gc, g, e ▸ before, e ▸ after⟩
  · exact .inl (h.node id e)

theorem pattern_self : s.pattern (.node f) = [.awaits f] ∧ s'.pattern (.node f) = [.part (.node g)] := by
  obtain ⟨gc, before, after⟩ := h.pending
  simp [pattern, before, after, nodePattern]

theorem pattern_eq (ht : t ≠ .node f) : s'.pattern t = s.pattern t := by
  cases t with
  | node id => rw [pattern, pattern, h.node id fun e => ht (congrArg _ e)]
  | _ => rfl

/-- The signs of what a forward reference became stand where the reference stood. -/
theorem refSigns (ends : s'.Ends n t) : s'.refSigns t = (s.refSigns t).flatMap (settle f (s'.refSigns (.node g))) := by
  induction n generalizing t with
  | zero => exact ends.elim
  | succ n ih =>
    rw [ends.refSigns_eq, (h.later.ends ends).refSigns_eq]
    by_cases e : t = .node f
    · subst e
      simp [h.pattern_self, Piece.signs, settle]
    · rw [h.pattern_eq e, flatMap_assoc]
      refine flatMap_congr fun p hp => ?_
      cases p with
      | lit x => exact (flatMap_settle_chars ..).symm
      | part u => exact ih (ends u (h.pattern_eq e ▸ hp))
      | awaits i =>
        have other : i ≠ f := by
          rintro rfl
          exact e (awaits_mem_pattern.1 hp).1
        simp [Piece.signs, settle, other]

theorem ends_of_ends (ends : s.Ends n t) (target : s.Awaits t f → s'.Ends m (.node g)) : s'.Ends (n + m + 1) t := by
  induction n generalizing t with
  | zero => exact ends.elim
  | succ n ih =>
    by_cases e : t = .node f
    · subst e
      obtain ⟨gc, before, -⟩ := h.pending
      intro u hu
      obtain rfl : u = .node g := by simpa [h.pattern_self.2] using hu
      exact (target (.self before)).mono (by omega)
    · intro u hu
      rw [h.pattern_eq e] at hu
      exact (ih (ends u hu) fun hi => target (.part hu hi)).mono (by omega)

/-- The key of what a forward reference became ends if that of some type does which mentioned it. -/
theorem target_ends (ends : s'.Ends n t) (ht : s.Awaits t f) : s'.Ends n (.node g) := by
  induction ht generalizing n with
  | self _ =>
    cases n with
    | zero => exact ends.elim
    | succ n => exact (ends _ (by simp [h.pattern_self.2])).succ
  | @part t u id hu _ ih =>
    cases n with
    | zero => exact ends.elim
    | succ n =>
      by_cases e : t = .node id
      · subst e
        simp [h.pattern_self.1] at hu
      · exact (ih h (ends u (h.pattern_eq e ▸ hu))).succ

end

end Resolved

end FlowCompiler.Types

namespace FlowCompiler.Types

variable {s s' : Types} {f g id i : NodeId} {t u : LowType} {n m : Nat} {gc : Bool}

/-! ## Equality -/

/-- The signs of a type after a forward reference at its head. -/
def shape (s : Types) (t : LowType) : List Sign := s.signs (s.resolve t)

/-- The key of a type comes to an end. -/
def Readable (s : Types) (t : LowType) : Prop := ∃ n, s.Ends n (s.resolve t) ∧ ∀ u, .part u ∈ s.spread (s.resolve t) → s.Ends n u

theorem readable_iff : s.Readable t ↔ s.Ends (2 * s.fuel) (s.resolve t) ∧ ∀ u, .part u ∈ s.spread (s.resolve t) → s.Ends (2 * s.fuel) u :=
  ⟨fun ⟨_, here, parts⟩ => ⟨here.fuel, fun u hu => (parts u hu).fuel⟩, fun h => ⟨_, h⟩⟩

instance : Decidable (s.Readable t) := decidable_of_iff' _ readable_iff

/-- The open forward references that the key of a type mentions. -/
def Mentions (s : Types) (t : LowType) (i : NodeId) : Prop := s.Awaits (s.resolve t) i ∨ ∃ u, .part u ∈ s.spread (s.resolve t) ∧ s.Awaits u i

/-- No forward reference stands for another one. -/
def Direct (s : Types) : Prop := ∀ f gc t, s.node f = .forward gc (some t) → ∀ gc' x, s.node t ≠ .forward gc' x

theorem equal_eq_true_iff {a b : LowType} : s.equal a b = true ↔ s.key (s.resolve a) = s.key (s.resolve b) := by
  rw [equal, Bool.or_eq_true, beq_iff_eq, beq_iff_eq]
  exact or_iff_right_of_imp fun e => by rw [e]

theorem equal_equivalence (s : Types) : Equivalence fun a b => s.equal a b = true where
  refl _ := equal_eq_true_iff.2 rfl
  symm h := equal_eq_true_iff.2 (equal_eq_true_iff.1 h).symm
  trans h h' := equal_eq_true_iff.2 ((equal_eq_true_iff.1 h).trans (equal_eq_true_iff.1 h'))

theorem signs_eq (s : Types) (t : LowType) : s.signs t = s.refSigns t ++ (s.spread t).flatMap (Piece.signs s.refSigns) := rfl

theorem Closed.within_resolve (h : s.Closed) (ht : Within s.nodes.size t) : Within s.nodes.size (s.resolve t) := by
  cases t with
  | node id =>
    rw [resolve, target]
    have hid := h id ht
    split
    · rename_i e
      rw [e] at hid
      exact hid _ rfl
    · exact ht
  | _ => exact ht

theorem Closed.within_spread (h : s.Closed) (hu : .part u ∈ s.spread t) : Within s.nodes.size u := by
  cases t with
  | node id =>
    have hid := h.nodeWithin id
    rw [spread] at hu
    generalize s.node id = k at hid hu
    cases k with
    | struct name fields hints gc =>
      obtain ⟨x, hx, hu⟩ : ∃ x, x ∈ fields ∧ u = x.2 := by simpa [mem_listed] using hu
      exact hu ▸ (hid.2 x hx).2
    | _ => simp at hu
  | _ => simp [spread] at hu

theorem awaits_notMem_spread : .awaits i ∉ s.spread t := by
  cases t with
  | node id =>
    rw [spread]
    cases s.node id <;> simp [mem_listed]
  | _ => simp [spread]

/-- Types are equal when they have one shape. -/
theorem equal_iff (h : s.Closed) (ht : Within s.nodes.size t) (hu : Within s.nodes.size u) : s.equal t u = true ↔ s.shape t = s.shape u := by
  rw [equal_eq_true_iff, key_eq_iff h (h.within_resolve ht) (h.within_resolve hu)]
  rfl

theorem Direct.resolve_resolve (h : s.Direct) (t : LowType) : s.resolve (s.resolve t) = s.resolve t := by
  cases t with
  | node id =>
    rw [resolve, target]
    split
    · rename_i gc k e
      rw [resolve, target]
      split
      · rename_i e'
        exact absurd e' (h id gc k e _ _)
      · rfl
    · rename_i other
      rw [resolve, target]
      split
      · rename_i e
        exact absurd e (other _ _)
      · rfl
  | _ => rfl

theorem mentions_of_mem_shape (h : .awaits i ∈ s.shape t) : s.Mentions t i := by
  rw [shape, signs_eq, List.mem_append, awaits_mem_flatMap] at h
  rcases h with h | h | ⟨u, hu, hi⟩
  · exact .inl (awaits_of_mem_signsAux h)
  · exact absurd h awaits_notMem_spread
  · exact .inr ⟨u, hu, awaits_of_mem_signsAux hi⟩

theorem Mentions.isOpen (h : s.Mentions t i) : ∃ gc, s.node i = .forward gc none := by
  rcases h with h | ⟨_, _, h⟩
  · exact h.isOpen
  · exact h.isOpen

theorem Mentions.mem_shape (h : s.Mentions t i) (readable : s.Readable t) : .awaits i ∈ s.shape t := by
  obtain ⟨n, here, parts⟩ := readable
  rw [shape, signs_eq, List.mem_append, awaits_mem_flatMap]
  rcases h with h | ⟨u, hu, h⟩
  · exact .inl (h.mem_refSigns here)
  · exact .inr (.inr ⟨u, hu, h.mem_refSigns (parts u hu)⟩)

/-! ## Equality in later stores -/

theorem Later.resolve_eq (h : Later s s') (ht : Within s.nodes.size t) (same : ∀ i, s.Mentions t i → s'.node i = s.node i) :
    s'.resolve t = s.resolve t := by
  cases t with
  | node id =>
    have e : s'.node id = s.node id := by
      rcases h.node id ht with e | ⟨gc, k, before, -⟩
      · exact e
      · have unmoved : s.resolve (.node id) = .node id := by simp [resolve, target, before]
        refine same id (.inl ?_)
        rw [unmoved]
        exact .self before
    rw [resolve, resolve, target, target, e]
  | _ => rfl

theorem Later.spread_eq (h : Later s s') (ht : Within s.nodes.size t) (same : ∀ i, s.Awaits t i → s'.node i = s.node i) :
    s'.spread t = s.spread t := by
  cases t with
  | node id =>
    have e : s'.node id = s.node id := (h.node id ht).elim (fun e => e) fun ⟨_, _, before, _⟩ => same id (.self before)
    rw [spread, spread, e]
  | _ => rfl

theorem Later.mem_spread (h : Later s s') (hu : .part u ∈ s.spread t) : .part u ∈ s'.spread t := by
  cases t with
  | node id =>
    rcases h.node_cases id with e | ⟨gc, before⟩
    · rwa [spread, e]
    · simp [spread, before] at hu
  | _ => simp [spread] at hu

theorem Later.readable (h : Later s s') (readable : s'.Readable t) : s.Readable t := by
  obtain ⟨n, here, parts⟩ := readable
  have earlier (e : s.resolve t = s'.resolve t) : s.Readable t := ⟨n, e ▸ h.ends here, fun u hu => h.ends (parts u (h.mem_spread (e ▸ hu)))⟩
  cases t with
  | node id =>
    rcases h.node_cases id with e | ⟨gc, before⟩
    · exact earlier (by rw [resolve, resolve, target, target, e])
    · have unmoved : s.resolve (.node id) = .node id := by simp [resolve, target, before]
      rw [Readable, unmoved]
      exact ⟨1, fun u hu => by simp [pattern_pending before] at hu, fun u hu => by simp [spread, before] at hu⟩
  | _ => exact earlier rfl

/-- The shape of a type is the same until a forward reference that it mentions is resolved. -/
theorem Readable.later (readable : s.Readable t) (h : Later s s') (hs : s.Closed) (ht : Within s.nodes.size t)
    (same : ∀ i, s.Mentions t i → s'.node i = s.node i) : s'.resolve t = s.resolve t ∧ s'.Readable t ∧ s'.shape t = s.shape t := by
  obtain ⟨n, here, parts⟩ := readable
  have resolved := h.resolve_eq ht same
  have spreads := h.spread_eq (hs.within_resolve ht) fun i hi => same i (.inl hi)
  have head := here.later h hs (hs.within_resolve ht) fun i hi => same i (.inl hi)
  have part (u : LowType) (hu : .part u ∈ s.spread (s.resolve t)) : s'.Ends n u ∧ s'.signsAux n u = s.signsAux n u :=
    (parts u hu).later h hs (hs.within_spread hu) fun i hi => same i (.inr ⟨u, hu, hi⟩)
  refine ⟨resolved, ⟨n, ?_, fun u hu => ?_⟩, ?_⟩
  · rw [resolved]
    exact head.1
  · rw [resolved, spreads] at hu
    exact (part u hu).1
  · have tail : (s.spread (s.resolve t)).flatMap (Piece.signs s'.refSigns) = (s.spread (s.resolve t)).flatMap (Piece.signs s.refSigns) := by
      refine List.flatMap_congr fun p hp => ?_
      cases p with
      | part u =>
        change s'.refSigns u = s.refSigns u
        rw [(part u hp).1.refSigns, (parts u hp).refSigns, (part u hp).2]
      | _ => simp only [Piece.signs]
    rw [shape, shape, resolved, signs_eq, signs_eq, spreads, tail, head.1.refSigns, here.refSigns, head.2]

namespace Resolved

variable (h : Resolved s f g s')

include h

theorem resolve_eq (direct : s.Direct) (t : LowType) : s'.resolve t = if s.resolve t = .node f then .node g else s.resolve t := by
  obtain ⟨gc, before, after⟩ := h.pending
  cases t with
  | node id =>
    by_cases e : id = f
    · subst e
      simp [resolve, target, before, after]
    · rw [resolve, resolve, target, target, h.node id e]
      split
      · rename_i gc' k hk
        have other : k ≠ f := fun e => direct id gc' k hk _ _ (e ▸ before)
        simp [other]
      · simp [e]
  | _ => simp [resolve]

theorem spread_eq (ht : t ≠ .node f) : s'.spread t = s.spread t := by
  cases t with
  | node id => rw [spread, spread, h.node id fun e => ht (congrArg _ e)]
  | _ => rfl

theorem shape_self (ht : s.resolve t = .node f) : s.shape t = [.awaits f] := by
  obtain ⟨gc, before, -⟩ := h.pending
  have ends : s.Ends 1 (.node f) := fun u hu => by simp [h.pattern_self.1] at hu
  rw [shape, ht, signs_eq, ends.refSigns_eq, h.pattern_self.1]
  simp [Piece.signs, spread, before]

omit h in
/-- A forward reference is the only type of its shape. -/
theorem resolve_of_shape (direct : s.Direct) (ht : s.shape t = [.awaits f]) : s.resolve t = .node f := by
  have again := direct.resolve_resolve t
  rw [shape, signs_eq, Types.refSigns, show 2 * s.fuel = 2 * s.fuel - 1 + 1 by rw [Types.fuel]; omega, signsAux] at ht
  generalize s.resolve t = r at again ht ⊢
  cases r with
  | prim p => simp [pattern, Piece.signs, chars] at ht
  | ptr id => simp [pattern, Piece.signs, chars] at ht
  | node id =>
    rw [pattern] at ht
    cases e : s.node id with
    | forward gc target =>
      cases target with
      | none => simpa [e, nodePattern, Piece.signs, spread] using ht
      | some k =>
        obtain rfl : k = id := by simpa [resolve, Types.target, e] using again
        exact absurd e (direct k gc k e gc (some k))
    | struct name fields hints gc => cases gc <;> simp [e, nodePattern, Piece.signs, chars] at ht
    | _ => simp [e, nodePattern, Piece.signs, chars] at ht

variable (direct : s.Direct)

include direct

theorem shape_eq (readable : s'.Readable t) (ht : s.resolve t ≠ .node f) : s'.shape t = (s.shape t).flatMap (settle f (s'.refSigns (.node g))) := by
  obtain ⟨n, here, parts⟩ := readable
  have resolved := h.resolve_eq direct t
  rw [if_neg ht] at resolved
  rw [resolved] at here parts
  have tail : (s.spread (s.resolve t)).flatMap (Piece.signs s'.refSigns) =
      (s.spread (s.resolve t)).flatMap fun p => (Piece.signs s.refSigns p).flatMap (settle f (s'.refSigns (.node g))) := by
    refine List.flatMap_congr fun p hp => ?_
    cases p with
    | lit x => exact (flatMap_settle_chars ..).symm
    | part u => exact h.refSigns (parts u (h.spread_eq ht ▸ hp))
    | awaits i => exact absurd hp awaits_notMem_spread
  rw [shape, shape, resolved, signs_eq, signs_eq, List.flatMap_append, List.flatMap_assoc, ← h.refSigns here, h.spread_eq ht, tail]

/-- If the keys of two types of one shape end, they both do after the reference is resolved, or neither does. -/
theorem readable_of_shape (ht : s'.Readable t) (hu : s.Readable u) (same : s.shape t = s.shape u) : s'.Readable u := by
  by_cases e : s.resolve t = .node f
  · have e' : s.resolve u = .node f := resolve_of_shape direct (same ▸ h.shape_self e)
    have resolved : s'.resolve u = s'.resolve t := by
      rw [h.resolve_eq direct, h.resolve_eq direct, e, e']
    rwa [Types.Readable, resolved]
  · have e' : s.resolve u ≠ .node f := fun e' => e (resolve_of_shape direct (same ▸ h.shape_self e'))
    obtain ⟨n, here, parts⟩ := ht
    obtain ⟨m, here', parts'⟩ := hu
    rw [h.resolve_eq direct, if_neg e] at here parts
    have target (hf : s.Mentions u f) : s'.Ends n (.node g) := by
      rcases mentions_of_mem_shape (same ▸ hf.mem_shape ⟨m, here', parts'⟩) with hf | ⟨v, hv, hf⟩
      · exact h.target_ends here hf
      · exact h.target_ends (parts v (h.spread_eq e ▸ hv)) hf
    refine ⟨m + n + 1, ?_, ?_⟩
    · rw [h.resolve_eq direct, if_neg e']
      exact h.ends_of_ends here' fun hf => target (.inl hf)
    · rw [h.resolve_eq direct, if_neg e', h.spread_eq e']
      exact fun v hv => h.ends_of_ends (parts' v hv) fun hf => target (.inr ⟨v, hv, hf⟩)

/-- Types of one shape keep one. -/
theorem shape_congr (ht : s'.Readable t) (hu : s'.Readable u) (same : s.shape t = s.shape u) : s'.shape t = s'.shape u := by
  by_cases e : s.resolve t = .node f
  · have e' : s.resolve u = .node f := resolve_of_shape direct (same ▸ h.shape_self e)
    rw [shape, shape, h.resolve_eq direct, h.resolve_eq direct, e, e']
  · have e' : s.resolve u ≠ .node f := fun e' => e (resolve_of_shape direct (same ▸ h.shape_self e'))
    rw [h.shape_eq direct ht e, h.shape_eq direct hu e', same]

end Resolved

end FlowCompiler.Types
