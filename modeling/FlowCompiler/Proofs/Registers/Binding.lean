import Mathlib.Data.List.Nodup
import Mathlib.Data.List.Sort
import FlowCompiler.Proofs.Registers.Slots
import FlowCompiler.Settings

/-!
# Registers and their boxes, and what requests do to them

Which box is in which register is kept three times: as a list of free registers, as the owner of every register and as the
register of every box.  `Registers.Consistent` says that the three agree.  It is kept by `bind`, which takes a free register
for a box that has none, and by `unbind`, which gives a register back; and it is all that `check` asks for.
-/

namespace FlowCompiler.Trace

open List
namespace Registers

variable {m : Registers} {b x : Box} {r s : Nat}

/-! ## Free registers -/

theorem mem_insertFree {free : List Nat} : s ∈ insertFree r free ↔ s = r ∨ s ∈ free := by
  induction free with
  | nil => simp [insertFree]
  | cons t rest ih =>
    rw [insertFree]
    split
    · rw [mem_cons, ih, mem_cons, or_left_comm]
    · split
      · rename_i e
        rw [mem_cons, e, ← or_assoc, or_self]
      · rw [mem_cons]

theorem ascending_insertFree {free : List Nat} (h : free.Pairwise (· < ·)) : (insertFree r free).Pairwise (· < ·) := by
  induction free with
  | nil => exact pairwise_singleton _ _
  | cons t rest ih =>
    obtain ⟨ht, hrest⟩ := pairwise_cons.1 h
    rw [insertFree]
    split
    · rename_i hlt
      refine pairwise_cons.2 ⟨fun s hs => ?_, ih hrest⟩
      rcases mem_insertFree.1 hs with rfl | hs
      · exact hlt
      · exact ht s hs
    · split
      · exact h
      · refine pairwise_cons.2 ⟨fun s hs => ?_, h⟩
        rcases mem_cons.1 hs with rfl | hs
        · omega
        · have := ht s hs
          omega

/-! ## Reading a binding -/

@[simp] theorem regOf?_bind : (m.bind b r).regOf? x = if x = b then some r else m.regOf? x := by
  rw [regOf?, bind, Entries.lookup_cons, Entries.lookup_filter_ne]
  by_cases h : x = b <;> simp [h, regOf?]

theorem unbind_of_none (h : m.regOf? b = none) : m.unbind b = m := by rw [unbind, h]

theorem unbind_of_some (h : m.regOf? b = some r) : m.unbind b = { m with
    free := insertFree r m.free, bindings := m.bindings.filter (·.1 ≠ b), owner := m.owner.setIfInBounds r none } := by
  rw [unbind, h]

@[simp] theorem regOf?_unbind : (m.unbind b).regOf? x = if x = b then none else m.regOf? x := by
  unfold unbind
  split
  · rename_i h
    by_cases e : x = b
    · rw [if_pos e, e, h]
    · rw [if_neg e]
  · rw [regOf?, Entries.lookup_filter_ne, regOf?]

theorem mem_free_unbind : s ∈ (m.unbind b).free ↔ m.regOf? b = some s ∨ s ∈ m.free := by
  unfold unbind
  split
  · rename_i h
    simp [h]
  · rename_i r h
    rw [mem_insertFree, h, Option.some_inj, eq_comm]

theorem ownerOf_bind (hr : r < m.owner.size) : (m.bind b r).ownerOf s = if s = r then some b else m.ownerOf s := by
  rw [ownerOf, bind, Array.getElem?_setIfInBounds]
  by_cases h : r = s
  · subst h
    simp [hr]
  · rw [if_neg h, if_neg (Ne.symm h), ownerOf]

theorem ownerOf_unbind (h : m.regOf? b = some r) (hr : r < m.owner.size) : (m.unbind b).ownerOf s = if s = r then none else m.ownerOf s := by
  rw [unbind_of_some h, ownerOf]
  rw [Array.getElem?_setIfInBounds]
  by_cases h : r = s
  · subst h
    simp [hr]
  · rw [if_neg h, if_neg (Ne.symm h), ownerOf]

/-! ## Consistency -/

/-- The list of free registers, the owners of the registers and the registers of the boxes agree. -/
structure Consistent (m : Registers) : Prop where
  size : m.owner.size = m.count
  /-- Free registers are in order, each once. -/
  ascending : m.free.Pairwise (· < ·)
  /-- A register is free exactly if it has no owner. -/
  free_iff : ∀ {r : Nat}, r ∈ m.free ↔ r < m.count ∧ m.ownerOf r = none
  /-- The owner of a register is the box that is bound to it. -/
  owner_iff : ∀ {r : Nat} {b : Box}, m.ownerOf r = some b ↔ m.regOf? b = some r
  /-- No box is bound twice. -/
  nodup : (m.bindings.map Prod.fst).Nodup

namespace Consistent

section

variable (h : m.Consistent)
include h

theorem lt_of_owner (hb : m.ownerOf r = some b) : r < m.count := by
  rw [← h.size]
  rw [ownerOf, Option.join_eq_some_iff] at hb
  exact (Array.getElem?_eq_some_iff.1 hb).1

theorem lt_of_reg (hb : m.regOf? b = some r) : r < m.count := h.lt_of_owner (h.owner_iff.2 hb)

theorem not_free_of_reg (hb : m.regOf? b = some r) : r ∉ m.free := fun hr => by
  have := (h.free_iff.1 hr).2
  rw [h.owner_iff.2 hb] at this
  cases this

theorem eq_of_reg (hb : m.regOf? b = some r) (hx : m.regOf? x = some r) : b = x := by
  have := h.owner_iff.2 hb
  rw [h.owner_iff.2 hx] at this
  exact (Option.some.inj this).symm

theorem of_eq {n : Registers} (count : n.count = m.count) (free : n.free = m.free) (owner : n.owner = m.owner)
    (bindings : n.bindings = m.bindings) : n.Consistent := by
  obtain ⟨_, _, _, _⟩ := m
  obtain ⟨_, _, _, _⟩ := n
  cases count; cases free; cases owner; cases bindings
  exact ⟨h.size, h.ascending, h.free_iff, h.owner_iff, h.nodup⟩

theorem moved (source target : Loc) : (m.moved source target).Consistent := h.of_eq rfl rfl rfl rfl

theorem withFrame (f : FrameSlots) : ({ m with frame := f } : Registers).Consistent := h.of_eq rfl rfl rfl rfl

end

theorem make {count resultReg : Nat} {callerSaved : List Nat} {frame : FrameSlots} {lifetimes : Lifetimes} :
    (make count callerSaved resultReg frame lifetimes).Consistent where
  size := Array.size_replicate
  ascending := pairwise_lt_range
  free_iff := by
    intro r
    by_cases h : r < count <;> simp [Registers.make, ownerOf, h]
  owner_iff := by
    intro r b
    by_cases h : r < count <;> simp [Registers.make, ownerOf, regOf?, h]
  nodup := nodup_nil

theorem bind (h : m.Consistent) (hb : m.regOf? b = none) (hr : r ∈ m.free) : (m.bind b r).Consistent := by
  obtain ⟨hlt, hfree⟩ := h.free_iff.1 hr
  have hsize : r < m.owner.size := h.size ▸ hlt
  refine ⟨(Array.size_setIfInBounds ..).trans h.size, h.ascending.filter _, fun {s} => ?_, fun {s x} => ?_, ?_⟩
  · rw [ownerOf_bind hsize, show (m.bind b r).free = m.free.filter (· ≠ r) from rfl, mem_filter, h.free_iff]
    by_cases e : s = r <;> simp [e, Registers.bind]
  · rw [ownerOf_bind hsize, regOf?_bind]
    by_cases e : s = r
    · subst e
      by_cases e' : x = b
      · simp [e']
      · rw [if_neg e', ← h.owner_iff, hfree]
        simp [Ne.symm e']
    · rw [if_neg e, h.owner_iff]
      by_cases e' : x = b
      · subst e'
        simp [hb, Ne.symm e]
      · rw [if_neg e']
  · refine nodup_cons.2 ⟨fun hmem => ?_, h.nodup.sublist (filter_sublist.map _)⟩
    obtain ⟨e, he, rfl⟩ := mem_map.1 hmem
    simp at he

theorem unbind (h : m.Consistent) (b : Box) : (m.unbind b).Consistent := by
  cases hb : m.regOf? b with
  | none => rwa [unbind_of_none hb]
  | some r =>
    have hlt := h.lt_of_reg hb
    have hsize : r < m.owner.size := h.size ▸ hlt
    have e := unbind_of_some hb
    refine ⟨?_, ?_, fun {s} => ?_, fun {s x} => ?_, ?_⟩
    · rw [e]
      exact (Array.size_setIfInBounds ..).trans h.size
    · rw [e]
      exact ascending_insertFree h.ascending
    · rw [ownerOf_unbind hb hsize, e]
      rw [mem_insertFree, h.free_iff]
      by_cases es : s = r <;> simp [es, hlt]
    · rw [ownerOf_unbind hb hsize, regOf?_unbind]
      by_cases es : s = r
      · subst es
        rw [if_pos rfl]
        by_cases ex : x = b
        · simp [ex]
        · rw [if_neg ex]
          exact iff_of_false nofun fun hx => ex (h.eq_of_reg hx hb)
      · rw [if_neg es, h.owner_iff]
        by_cases ex : x = b
        · subst ex
          simp [hb, Ne.symm es]
        · rw [if_neg ex]
    · rw [e]
      exact h.nodup.sublist (filter_sublist.map _)

/-! ## Checking -/

theorem boundTo_eq (h : m.Consistent) : m.boundTo r = (m.ownerOf r).toList := by
  have hnodup : (m.boundTo r).Nodup := h.nodup.sublist (filter_sublist.map _)
  have hmem (b : Box) : b ∈ m.boundTo r ↔ m.ownerOf r = some b := by
    rw [h.owner_iff, regOf?, Entries.lookup_eq_some_iff h.nodup]
    simp [boundTo]
  cases ho : m.ownerOf r with
  | none => exact eq_nil_iff_forall_not_mem.2 fun b hb => nomatch ho.symm.trans ((hmem b).1 hb)
  | some b =>
    refine perm_singleton.1 ((perm_ext_iff_of_nodup hnodup (nodup_singleton b)).2 fun x => ?_)
    rw [hmem, ho, mem_singleton, Option.some_inj, eq_comm]

theorem check (h : m.Consistent) : m.check = .ok () := by
  have problem (r : Nat) : m.problemAt? r = none := by
    rw [problemAt?, h.boundTo_eq]
    cases ho : m.ownerOf r <;> simp
  have imbalance (r : Nat) (hr : r < m.count) : m.imbalanceAt? r = none := by
    have free : m.isFree r = (m.ownerOf r).isNone := by
      rw [Bool.eq_iff_iff, isFree, contains_iff_mem, h.free_iff, Option.isNone_iff_eq_none, and_iff_right hr]
    rw [imbalanceAt?, h.boundTo_eq, free]
    cases m.ownerOf r <;> rfl
  rw [Registers.check, findSome?_eq_none_iff.2 fun r _ => problem r, findSome?_eq_none_iff.2 fun r hr => imbalance r (mem_range.1 hr)]
  rfl

end Consistent

end Registers

/-! ## Where computations with registers end

A computation with registers ends in some state also when it fails, and what it leaves then is as good as any other state.
`Ends x m Q E` speaks about both ends of a computation.  There is a rule for each way to build a computation and, from these, one
for each operation, which says once what the operation can do: which box gets which register, which box goes to the frame for
that (`Registers.force_ends`), and which data are moved.
-/

namespace Registers

variable {m n : Registers} {b v x result : Box} {r s : Nat} {d : Demand} {forbidden : List Box}

/-! ### What requests do not change -/

/-- What stays as it is until the next operation. -/
structure Setting where
  count : Nat
  callerSaved : List Nat
  resultReg : Nat
  lifetimes : Lifetimes
  position : Int

def setting (m : Registers) : Setting := ⟨m.count, m.callerSaved, m.resultReg, m.lifetimes, m.position⟩

@[simp] theorem setting_bind : (m.bind b r).setting = m.setting := rfl

@[simp] theorem setting_unbind : (m.unbind b).setting = m.setting := by
  unfold unbind
  split <;> rfl

@[simp] theorem setting_sync : (m.sync b).setting = m.setting := by
  unfold sync
  split <;> rfl

@[simp] theorem setting_spill : (m.spill b).setting = m.setting := by rw [spill, setting_unbind, setting_sync]

theorem isAlive_congr (h : n.setting = m.setting) : n.isAlive b = m.isAlive b := by
  obtain ⟨-, -, -, hl, hp⟩ := Setting.mk.inj h
  rw [isAlive, isAlive, lastUse, lastUse, hl, hp]

@[simp] theorem frame_bind : (m.bind b r).frame = m.frame := rfl

@[simp] theorem frame_unbind : (m.unbind b).frame = m.frame := by
  unfold unbind
  split <;> rfl

@[simp] theorem frame_sync : (m.sync b).frame = (m.frame.slot b).2 := by
  unfold sync
  split
  · rw [FrameSlots.slot_of_some ‹_›]
  · rfl

@[simp] theorem frame_spill : (m.spill b).frame = (m.frame.slot b).2 := by rw [spill, frame_unbind, frame_sync]

/-! ### Elementary steps -/

@[simp] theorem regOf?_sync : (m.sync b).regOf? x = m.regOf? x := by
  unfold sync
  split <;> rfl

@[simp] theorem regOf?_spill : (m.spill b).regOf? x = if x = b then none else m.regOf? x := by
  rw [spill, regOf?_unbind, regOf?_sync]

theorem mem_free_spill : s ∈ (m.spill b).free ↔ m.regOf? b = some s ∨ s ∈ m.free := by
  rw [spill, mem_free_unbind, regOf?_sync]
  have : (m.sync b).free = m.free := by
    unfold sync
    split <;> rfl
  rw [this]

/-- A temporary box is noted as one that asked for a register. -/
def noted (m : Registers) (b : Box) : Registers := if m.temps.contains b then { m with usedTemps := m.usedTemps ++ [b] } else m

namespace Consistent

theorem noted (h : m.Consistent) (b : Box) : (m.noted b).Consistent := by
  rw [Registers.noted]
  split
  · exact h.of_eq rfl rfl rfl rfl
  · exact h

theorem sync (h : m.Consistent) (b : Box) : (m.sync b).Consistent := by
  unfold Registers.sync
  split
  · exact h
  · exact (h.withFrame _).moved _ _

theorem spill (h : m.Consistent) (b : Box) : (m.spill b).Consistent := (h.sync b).unbind b

theorem rebind (h : m.Consistent) (hr : r ∈ (m.unbind b).free) : ((m.unbind b).bind b r).Consistent := (h.unbind b).bind (by simp) hr

end Consistent

/-! ### The choice of a register -/

theorem take?_cases (h : m.take? b d = some (r, n)) : m.regOf? b = some r ∧ n = m ∨ r ∈ m.free ∧ n = (m.unbind b).bind b r := by
  unfold take? at h
  dsimp only at h
  split at h
  · split at h
    · cases h
      exact .inl ⟨‹_›, rfl⟩
    · split at h
      · rename_i hfree
        cases h
        exact .inr ⟨contains_iff_mem.1 hfree, rfl⟩
      · cases h
  · split at h
    · rename_i hcurrent
      cases h
      exact .inl ⟨(Option.filter_eq_some_iff.1 hcurrent).1, rfl⟩
    · obtain ⟨s, hs, e⟩ := Option.map_eq_some_iff.1 h
      cases e
      exact .inr ⟨mem_of_find?_eq_some hs, rfl⟩

theorem mem_of_latest {bs : List Box} (h : m.latest bs = some v) : v ∈ bs := by
  cases bs with
  | nil => cases h
  | cons b rest =>
    cases h
    induction rest generalizing b with
    | nil => exact mem_cons_self
    | cons c rest ih =>
      rw [foldl_cons]
      rcases mem_cons.1 (ih _) with h | h
      · rw [h]
        split <;> simp
      · exact mem_cons_of_mem _ (mem_cons_of_mem _ h)

/-- The box that makes room is in a register that will do. -/
theorem victim?_spec (hm : m.Consistent) (h : m.victim? forbidden d = some v) : ∃ r, m.regOf? v = some r ∧ ∀ s, d.reg = some s → r = s := by
  obtain ⟨r, -, hr⟩ := mem_filterMap.1 (mem_of_latest h)
  obtain ⟨howner, hwanted⟩ := Option.filter_eq_some_iff.1 hr
  refine ⟨r, hm.owner_iff.1 howner, fun s hs => ?_⟩
  rw [hs] at hwanted
  simpa using (Bool.and_eq_true_iff.1 hwanted).1

/-! ### Where a computation ends -/

/-- The computation ends with a value and in a state of which `Q` holds, or fails in a state of which `E` holds. -/
def Ends {α : Type} (x : RegisterM α) (m : Registers) (Q : α → Registers → Prop) (E : Registers → Prop) : Prop :=
  match x m with
  | .ok a n => Q a n
  | .error _ n => E n

/-- The state in which a computation ends, also by a failure. -/
def ended {α : Type} (x : RegisterM α) (m : Registers) : Registers :=
  match x m with
  | .ok _ n => n
  | .error _ n => n

namespace Ends

variable {α β : Type} {x : RegisterM α} {f : α → RegisterM β} {Q : α → Registers → Prop} {R : β → Registers → Prop} {E : Registers → Prop}

theorem pure {a : α} (h : Q a m) : Ends (.pure a) m Q E := h

theorem throw {e : Failure} (h : E m) : Ends (MonadExcept.throw e) m Q E := h

theorem bind (h : Ends x m (fun a n => Ends (f a) n R E) E) : Ends (x >>= f) m R E := by
  unfold Ends at h ⊢
  change match EStateM.bind x f m with | .ok a n => R a n | .error _ n => E n
  rw [EStateM.bind]
  cases e : x m with
  | ok a n => rwa [e] at h
  | error _ n => rwa [e] at h

theorem mono {Q' : α → Registers → Prop} {E' : Registers → Prop} (h : Ends x m Q E) (hQ : ∀ a n, Q a n → Q' a n)
    (hE : ∀ n, E n → E' n) : Ends x m Q' E' := by
  unfold Ends at h ⊢
  split at h
  · exact hQ _ _ h
  · exact hE _ h

theorem and {Q' : α → Registers → Prop} {E' : Registers → Prop} (h : Ends x m Q E) (h' : Ends x m Q' E') :
    Ends x m (fun a n => Q a n ∧ Q' a n) fun n => E n ∧ E' n := by
  unfold Ends at h h' ⊢
  cases e : x m with
  | ok a n =>
    rw [e] at h h'
    exact ⟨h, h'⟩
  | error _ n =>
    rw [e] at h h'
    exact ⟨h, h'⟩

theorem ended {P : Registers → Prop} (h : Ends x m (fun _ => P) P) : P (ended x m) := by
  unfold Ends at h
  unfold Registers.ended
  cases e : x m with
  | ok a n => rwa [e] at h
  | error _ n => rwa [e] at h

theorem get {f : Registers → RegisterM β} (h : Ends (f m) m R E) : Ends (MonadState.get >>= f) m R E := h

theorem modify {g : Registers → Registers} {f : PUnit → RegisterM β} (h : Ends (f ⟨⟩) (g m) R E) :
    Ends (modifyGet (fun m => (⟨⟩, g m)) >>= f) m R E := h

theorem set {f : PUnit → RegisterM β} (h : Ends (f ⟨⟩) n R E) : Ends (.set n >>= f) m R E := h

end Ends

section Operations

variable {Q : Nat → Registers → Prop} {L : Loc → Registers → Prop} {E : Registers → Prop}

theorem pickVictim_ends {Q : Box → Registers → Prop} (found : ∀ v, m.victim? forbidden d = some v → Q v m) (stuck : E m) :
    Ends (pickVictim forbidden d) m Q E := by
  refine .get ?_
  split
  · exact .pure (found _ ‹_›)
  · exact .throw stuck

/-- A box keeps its register, takes a free one, or takes that of a box which goes to the frame; or nothing happens. -/
theorem force_ends (hm : m.Consistent) (kept : ∀ r, (m.noted b).regOf? b = some r → Q r (m.noted b))
    (free : ∀ r, r ∈ (m.noted b).free → Q r (((m.noted b).unbind b).bind b r))
    (spilled : ∀ v r, (m.noted b).regOf? v = some r → Q r ((((m.noted b).spill v).unbind b).bind b r)) (stuck : E (m.noted b)) :
    Ends (force b forbidden d) m Q E := by
  refine .modify (.get ?_)
  split
  · rename_i r n ht
    refine .set (.pure ?_)
    rcases take?_cases ht with ⟨hr, rfl⟩ | ⟨hr, rfl⟩
    · exact kept r hr
    · exact free r hr
  · refine .bind (pickVictim_ends (fun v hv => ?_) stuck)
    obtain ⟨r, hr, -⟩ := victim?_spec (hm.noted b) hv
    have := spilled v r hr
    rw [show r = ((m.noted b).regOf? v).getD 0 by rw [hr, Option.getD_some]] at this
    exact this

theorem existing_ends (reg : ∀ r, m.regOf? b = some r → L (.reg r) m)
    (frame : ∀ s, m.regOf? b = none → m.frame.get? b = some s → L (.frame s) m) (lost : E m) : Ends (existing b) m L E := by
  refine .get ?_
  split
  · exact .pure (reg _ ‹_›)
  · exact .pure (frame _ ‹_› ‹_›)
  · exact .throw lost

theorem constant_ends {c : Value} {reg : Option Nat} (hm : m.Consistent) (imm : L (.imm c) m)
    (free : ∀ r, r ∈ m.free → L (.reg r) (m.moved (.imm c) (.reg r)))
    (spilled : ∀ v r, m.regOf? v = some r → L (.reg r) ((m.spill v).moved (.imm c) (.reg r))) (stuck : E m) :
    Ends (constant c forbidden reg) m L E := by
  cases reg with
  | none => exact .pure imm
  | some r =>
    refine .get ?_
    split
    · exact .modify (.pure (free r (contains_iff_mem.1 ‹_›)))
    · refine .bind (pickVictim_ends (fun v hv => .modify (.modify (.pure ?_))) stuck)
      obtain ⟨s, hs, hwanted⟩ := victim?_spec hm hv
      obtain rfl := hwanted r rfl
      exact spilled v s hs

theorem ensure_ends (h : Ends (existing b) m
      (fun source n => Ends (force b forbidden d) n (fun r k => (source = .reg r → L (.reg r) k) ∧ L (.reg r) (k.moved source (.reg r))) E) E) :
    Ends (ensure (.box b) forbidden d) m L E := by
  refine .bind (h.mono (fun source n h => .bind (h.mono (fun r k h => ?_) fun _ => id)) fun _ => id)
  split
  · exact .modify (.pure h.2)
  · exact .pure (h.1 (not_not.1 ‹_›))

/-- A box leaves its register; if it is needed and is not in the frame, it goes to another place. -/
def vacate (m : Registers) (b : Box) : Registers :=
  if (m.unbind b).isAlive b && ((m.unbind b).frame.get? b).isNone then (m.unbind b).moveAway b ((m.regOf? b).getD 0)
  else m.unbind b

theorem resultIn_const_ends {c : Const} (h : Ends (force result forbidden {}) m (fun r n => Q r (n.moved (.imm (.const c)) (.reg r))) E) :
    Ends (resultIn result (.const c) forbidden) m Q E :=
  .bind (h.mono (fun _ _ h => .modify (.pure h)) fun _ => id)

theorem resultIn_box_ends (bound : ∀ r, m.regOf? b = some r → Q r ((m.vacate b).bind result r))
    (loaded : m.regOf? b = none → Ends (existing b) m (fun source n => Ends (force b forbidden {}) n (fun r k =>
      Q (((k.moved source (.reg r)).regOf? b).getD 0) (((k.moved source (.reg r)).vacate b).bind result
        (((k.moved source (.reg r)).regOf? b).getD 0))) E) E) : Ends (resultIn result (.box b) forbidden) m Q E := by
  have last {k : Registers} (h : Q ((k.regOf? b).getD 0) ((k.vacate b).bind result ((k.regOf? b).getD 0))) : Ends (do
        let r := ((← MonadState.get).regOf? b).getD 0
        MonadState.modifyGet fun m => (⟨⟩, m.unbind b)
        MonadState.modifyGet fun m => (⟨⟩, if m.isAlive b && (m.frame.get? b).isNone then m.moveAway b r else m)
        MonadState.modifyGet fun m => (⟨⟩, m.bind result r)
        return r) k Q E := h
  refine .get ?_
  split
  · rename_i hnone
    exact .bind ((loaded (Option.isNone_iff_eq_none.1 hnone)).mono (fun source n h => .bind (h.mono (fun r k h =>
      .modify (last h)) fun _ => id)) fun _ => id)
  · rename_i hsome
    obtain ⟨r, hr⟩ := Option.ne_none_iff_exists'.1 fun h => hsome (Option.isNone_iff_eq_none.2 h)
    have := bound r hr
    exact last (by rwa [hr])

end Operations

/-! ### Room for a box -/

theorem vacate_cases (hr : m.regOf? b = some r) : (m.vacate b = m.unbind b ∧ (m.isAlive b = true → (m.frame.get? b).isSome)) ∨ m.frame.get? b = none ∧
        (∃ s ∈ (m.unbind b).free, s ≠ r ∧ m.vacate b = ((m.unbind b).bind b s).moved (.reg r) (.reg s)) ∨
      m.vacate b = m.spill b := by
  rw [vacate, isAlive_congr setting_unbind, frame_unbind, hr, Option.getD_some]
  split
  · rename_i h
    have hslot : m.frame.get? b = none := Option.isNone_iff_eq_none.1 (Bool.and_eq_true_iff.1 h).2
    right
    rw [moveAway]
    split
    · rename_i s hs
      exact .inl ⟨hslot, s, mem_of_find?_eq_some hs, by simpa using find?_some hs, rfl⟩
    · have hr' : ({ m with frame := (m.frame.slot b).2 }.moved (.reg r) (.frame (m.frame.slot b).1)).regOf? b = some r := hr
      rw [spill, sync, hslot, hr, unbind_of_some hr]
      exact .inr (unbind_of_some hr').symm
  · rename_i h
    exact .inl ⟨rfl, fun halive => by simpa [halive, Option.isSome_iff_ne_none] using h⟩

end Registers
end FlowCompiler.Trace

/-! ## Requests for registers

No request, whether it succeeds or not, makes free registers, owners and bindings disagree.  What a request leaves is again
consistent (`Serves`), with room for the box that it was about (`Room`); so are the registers after any requests
(`Registers.consistent_serveAll`). -/

namespace FlowCompiler.Trace.Registers

variable {m n : Registers} {b v x result : Box} {r s : Nat} {d : Demand} {forbidden : List Box}
variable {c : Value} {k : Registers}

/-! ### What a request leaves -/

/-- The registers are those of the same machine. -/
structure Fixed (m n : Registers) : Prop where
  count : n.count = m.count
  callerSaved : n.callerSaved = m.callerSaved
  resultReg : n.resultReg = m.resultReg

namespace Fixed

theorem refl (m : Registers) : Fixed m m := ⟨rfl, rfl, rfl⟩

theorem trans (h : Fixed m n) (h' : Fixed n k) : Fixed m k :=
  ⟨h'.count.trans h.count, h'.callerSaved.trans h.callerSaved, h'.resultReg.trans h.resultReg⟩

end Fixed

/-- What a request leaves. -/
structure Serves (m n : Registers) : Prop where
  consistent : n.Consistent
  setting : n.setting = m.setting

namespace Serves

theorem refl (h : m.Consistent) : Serves m m := ⟨h, rfl⟩

theorem trans (h : Serves m n) (h' : Serves n k) : Serves m k := ⟨h'.consistent, h'.setting.trans h.setting⟩

theorem fixed (h : Serves m n) : Fixed m n :=
  have e := Setting.mk.inj h.setting
  ⟨e.1, e.2.1, e.2.2.1⟩

end Serves

/-! ### Room for a box -/

/-- What making room for a box leaves. -/
structure Room (b : Box) (m n : Registers) : Prop extends Serves m n where
  /-- No other box gets a register. -/
  regs : ∀ {x : Box}, x ≠ b → m.regOf? x = none → n.regOf? x = none
  /-- No box loses its slot. -/
  slots : ∀ {x : Box}, (m.frame.get? x).isSome → (n.frame.get? x).isSome

namespace Room

theorem refl (h : m.Consistent) : Room b m m := ⟨.refl h, fun _ => id, id⟩

theorem trans (h : Room b m n) (h' : Room b n k) : Room b m k :=
  ⟨h.toServes.trans h'.toServes, fun hx hm => h'.regs hx (h.regs hx hm), fun hs => h'.slots (h.slots hs)⟩

theorem moved (h : Room b m n) (source target : Loc) : Room b m (n.moved source target) := ⟨⟨h.consistent.moved _ _, h.setting⟩, h.regs, h.slots⟩

theorem noted (h : m.Consistent) : Room b m (m.noted b) := by
  unfold Registers.noted
  split
  · exact ⟨⟨h.of_eq rfl rfl rfl rfl, rfl⟩, fun _ => id, id⟩
  · exact refl h

theorem unbind (h : m.Consistent) (v : Box) : Room b m (m.unbind v) where
  consistent := h.unbind v
  setting := setting_unbind
  regs {x} _ hm := by
    rw [regOf?_unbind, hm]
    split <;> rfl
  slots hs := by rwa [frame_unbind]

theorem spill (h : m.Consistent) (v : Box) : Room b m (m.spill v) where
  consistent := h.spill v
  setting := setting_spill
  regs {x} _ hm := by
    rw [regOf?_spill, hm]
    split <;> rfl
  slots hs := by
    rw [frame_spill, FrameSlots.get?_slot]
    split
    · rfl
    · exact hs

theorem rebind (h : m.Consistent) (hr : r ∈ (m.unbind b).free) : Room b m ((m.unbind b).bind b r) where
  consistent := h.rebind hr
  setting := setting_unbind
  regs hx hm := by rw [regOf?_bind, if_neg hx, regOf?_unbind, if_neg hx, hm]
  slots hs := by rwa [frame_bind, frame_unbind]

theorem vacate (h : m.Consistent) (hr : m.regOf? b = some r) :
    Room b m (m.vacate b) ∧ r ∈ (m.vacate b).free ∧ ((m.frame.get? b).isSome → (m.vacate b).regOf? b = none) := by
  rcases vacate_cases hr with ⟨e, -⟩ | ⟨hslot, s, hs, hsr, e⟩ | e
  · rw [e]
    exact ⟨.unbind h b, mem_free_unbind.2 (.inl hr), fun _ => by simp⟩
  · rw [e]
    have hfree : r ∈ (m.unbind b).free := mem_free_unbind.2 (.inl hr)
    refine ⟨(rebind h hs).moved _ _, List.mem_filter.2 ⟨hfree, by simpa using hsr.symm⟩, fun h => ?_⟩
    rw [hslot] at h
    cases h
  · rw [e]
    exact ⟨.spill h b, mem_free_spill.2 (.inl hr), fun _ => by simp⟩

end Room

/-! ### Requests -/

theorem force_room (h : m.Consistent) : Ends (force b forbidden d) m (fun r n => Room b m n ∧ n.regOf? b = some r) (Room b m) := by
  have hnoted : Room b m (m.noted b) := .noted h
  have bound {n : Registers} {r : Nat} (hn : Room b m n) (hr : r ∈ n.free) :
      Room b m ((n.unbind b).bind b r) ∧ ((n.unbind b).bind b r).regOf? b = some r :=
    ⟨hn.trans (.rebind hn.consistent (mem_free_unbind.2 (.inr hr))), by simp⟩
  exact force_ends h (fun r hr => ⟨hnoted, hr⟩) (fun r hr => bound hnoted hr)
    (fun v r hr => bound (hnoted.trans (.spill hnoted.consistent v)) (mem_free_spill.2 (.inl hr))) hnoted

theorem constant_serves {reg : Option Nat} (h : m.Consistent) : Ends (constant c forbidden reg) m (fun _ => Serves m) (Serves m) :=
  constant_ends h ⟨h, rfl⟩ (fun _ _ => ⟨h.moved _ _, rfl⟩) (fun v _ _ => ⟨(h.spill v).moved _ _, setting_spill⟩) ⟨h, rfl⟩

theorem ensure_serves (h : m.Consistent) : Ends (ensure c forbidden d) m (fun _ => Serves m) (Serves m) := by
  cases c with
  | const c => exact constant_serves h
  | box b =>
    have load (source : Loc) : Ends (force b forbidden d) m
        (fun r k => (source = .reg r → Serves m k) ∧ Serves m (k.moved source (.reg r))) (Serves m) :=
      (force_room h).mono (fun _ _ hk => ⟨fun _ => hk.1.toServes, (hk.1.moved _ _).toServes⟩) fun _ => Room.toServes
    exact ensure_ends (existing_ends (fun _ _ => load _) (fun _ _ _ => load _) ⟨h, rfl⟩)

theorem resultIn_serves (h : m.Consistent) (hresult : m.regOf? result = none) :
    Ends (resultIn result c forbidden) m (fun _ => Serves m) (Serves m) := by
  cases c with
  | const c =>
    exact resultIn_const_ends ((force_room h).mono (fun _ _ hk => (hk.1.moved _ _).toServes) fun _ => Room.toServes)
  | box b =>
    -- the result has no register when the box has left its own: if they are the same box, it is in the frame
    have last {k : Registers} {r : Nat} (hk : Room b m k) (hr : k.regOf? b = some r)
        (hsame : result = b → (k.frame.get? b).isSome) : Serves m ((k.vacate b).bind result r) := by
      obtain ⟨hroom, hfree, hnone⟩ := Room.vacate hk.consistent hr
      refine ⟨hroom.consistent.bind ?_ hfree, hroom.setting.trans hk.setting⟩
      by_cases e : result = b
      · rw [e]
        exact hnone (hsame e)
      · exact hroom.regs e (hk.regs e hresult)
    refine resultIn_box_ends (fun r hr => last (.refl h) hr fun e => ?_) fun hnone => existing_ends (fun r hr => ?_) (fun s _ hs => ?_) ⟨h, rfl⟩
    · rw [← e, hresult] at hr
      cases hr
    · rw [hnone] at hr
      cases hr
    · refine (force_room h).mono (fun r k hk => ?_) fun _ => Room.toServes
      have hreg : (k.moved (.frame s) (.reg r)).regOf? b = some r := hk.2
      rw [hreg]
      exact last (hk.1.moved _ _) hreg fun _ => hk.1.slots (by rw [hs]; rfl)

variable {stored : List Box} {mode : SaveMode}

namespace Serves

theorem foldl {α : Type} {f : Registers → α → Registers} (xs : List α) (h : m.Consistent)
    (hf : ∀ {m : Registers}, m.Consistent → ∀ a, Serves m (f m a)) : Serves m (xs.foldl f m) :=
  xs.foldlRecOn _ (refl h) fun _ hn a _ => hn.trans (hf hn.consistent a)

section

variable (h : m.Consistent)
include h

theorem release (c : Value) : Serves m (m.release c) := by
  cases c with
  | const _ => exact refl h
  | box b =>
    rw [Registers.release]
    split
    · exact refl h
    · exact ⟨(h.unbind b).withFrame _, setting_unbind⟩

theorem releaseAll (cs : List Value) : Serves m (m.releaseAll cs) := foldl cs h release

theorem releaseTemps : Serves m m.releaseTemps := by
  have one {m : Registers} (h : m.Consistent) (b : Box) : Serves m { m.release (.box b) with temps := m.temps.filter (· ≠ b) } :=
    have hb := release h (.box b)
    ⟨hb.consistent.of_eq rfl rfl rfl rfl, hb.setting⟩
  have all : Serves m (m.usedTemps.foldl (fun m b => { m.release (.box b) with temps := m.temps.filter (· ≠ b) }) m) := foldl m.usedTemps h one
  exact ⟨all.consistent.of_eq rfl rfl rfl rfl, all.setting⟩

theorem saveOne (r : Nat) : Serves m (saveOne stored mode m r) := by
  rw [Registers.saveOne]
  split
  · exact refl h
  · dsimp only
    split
    · exact ⟨h.unbind _, setting_unbind⟩
    · split
      · exact ⟨h.spill _, setting_spill⟩
      · exact refl h

theorem beforeCall : Serves m (m.beforeCall stored mode) := foldl _ h saveOne

/-- Whoever is in the register for results makes room for the result of a call. -/
theorem afterCall (hresult : m.regOf? result = none) (hreg : m.resultReg < m.count) : Serves m (m.afterCall result) := by
  rw [Registers.afterCall]
  cases howner : m.ownerOf m.resultReg with
  | none => exact ⟨h.bind hresult (h.free_iff.2 ⟨hreg, howner⟩), rfl⟩
  | some b =>
    have hb := h.owner_iff.1 howner
    have hne : b ≠ result := fun e => by
      rw [e, hresult] at hb
      cases hb
    dsimp only
    rw [if_pos hne, (Setting.mk.inj setting_spill).2.2.1]
    refine ⟨(h.spill b).bind ?_ (mem_free_spill.2 (.inl hb)), setting_spill⟩
    rw [regOf?_spill, hresult]
    split <;> rfl

end

end Serves

/-- A request to the registers. -/
inductive Request where
  /-- A register for a box, without moving another one. -/
  | take (b : Box) (d : Demand)
  | force (b : Box) (forbidden : List Box) (d : Demand)
  | constant (c : Value) (forbidden : List Box) (reg : Option Nat)
  | ensure (c : Value) (forbidden : List Box) (d : Demand)
  | resultIn (result : Box) (c : Value) (forbidden : List Box)
  | release (c : Value)
  | releaseAll (cs : List Value)
  | temp (b : Box)
  | releaseTemps
  | beforeCall (stored : List Box) (mode : SaveMode)
  /-- A call that is over, with or without a result. -/
  | afterCall (result : Option Box)
  /-- On to the next operation. -/
  | next

namespace Request

/-- What a request makes of the registers, whether it succeeds or not. -/
def serve (m : Registers) : Request → Registers
  | take b d => (m.take? b d).elim m Prod.snd
  | force b forbidden d => ended (Registers.force b forbidden d) m
  | constant c forbidden reg => ended (Registers.constant c forbidden reg) m
  | ensure c forbidden d => ended (Registers.ensure c forbidden d) m
  | resultIn result c forbidden => ended (Registers.resultIn result c forbidden) m
  | release c => m.release c
  | releaseAll cs => m.releaseAll cs
  | temp b => { m with temps := m.temps ++ [b] }
  | releaseTemps => m.releaseTemps
  | beforeCall stored mode => m.beforeCall stored mode
  | afterCall result => result.elim m m.afterCall
  | next => { m with position := m.position + 1 }

/-- A box that is to get a given register as a result has no register before. -/
def Allowed (m : Registers) : Request → Prop
  | resultIn result _ _ => m.regOf? result = none
  | afterCall (some result) => m.regOf? result = none
  | _ => True

theorem consistent_serve (h : m.Consistent) (hreg : m.resultReg < m.count) {q : Request} (hq : q.Allowed m) :
    (q.serve m).Consistent ∧ Fixed m (q.serve m) := by
  have done {n : Registers} (hn : Serves m n) : n.Consistent ∧ Fixed m n := ⟨hn.consistent, hn.fixed⟩
  cases q with
  | take b d =>
    rw [serve]
    cases ht : m.take? b d with
    | none => exact done (.refl h)
    | some t =>
      rcases take?_cases ht with ⟨-, e⟩ | ⟨hr, e⟩
      · rw [Option.elim_some, e]
        exact done (.refl h)
      · rw [Option.elim_some, e]
        exact done (Room.rebind (b := b) h (mem_free_unbind.2 (.inr hr))).toServes
  | force b forbidden d => exact done ((force_room h).mono (fun _ _ hn => hn.1.toServes) fun _ => Room.toServes).ended
  | constant c forbidden reg => exact done (constant_serves h).ended
  | ensure c forbidden d => exact done (ensure_serves h).ended
  | resultIn result c forbidden => exact done (resultIn_serves h hq).ended
  | release c => exact done (.release h c)
  | releaseAll cs => exact done (.releaseAll h cs)
  | temp b => exact done ⟨h.of_eq rfl rfl rfl rfl, rfl⟩
  | releaseTemps => exact done (.releaseTemps h)
  | beforeCall stored mode => exact done (.beforeCall h)
  | afterCall result =>
    cases result with
    | none => exact done (.refl h)
    | some result => exact done (.afterCall h hq hreg)
  | next => exact ⟨h.of_eq rfl rfl rfl rfl, rfl, rfl, rfl⟩

end Request

/-- What requests, one after another, make of the registers. -/
def serveAll (m : Registers) (qs : List Request) : Registers := qs.foldl Request.serve m

/-- Every request is allowed when its turn comes. -/
def AllAllowed (m : Registers) : List Request → Prop
  | [] => True
  | q :: qs => q.Allowed m ∧ AllAllowed (q.serve m) qs

theorem Consistent.serveAll {qs : List Request} (h : m.Consistent) (hreg : m.resultReg < m.count) (hqs : AllAllowed m qs) :
    (serveAll m qs).Consistent ∧ Fixed m (serveAll m qs) := by
  induction qs generalizing m with
  | nil => exact ⟨h, .refl m⟩
  | cons q qs ih =>
    obtain ⟨hq, hfixed⟩ := Request.consistent_serve h hreg hqs.1
    have hrest := ih hq (by rwa [hfixed.count, hfixed.resultReg]) hqs.2
    exact ⟨hrest.1, hfixed.trans hrest.2⟩

/-- The registers of a machine before the first request. -/
def start (settings : RegisterSettings) (frame : FrameSlots) (lifetimes : Lifetimes) (noLowByte : List Nat) : Registers :=
  { make settings.registers.toNat (settings.callerSaved.map Int.toNat) settings.resultReg.toNat frame lifetimes with noLowByte }

theorem Consistent.start {settings : RegisterSettings} {frame : FrameSlots} {lifetimes : Lifetimes} {noLowByte : List Nat} :
    (start settings frame lifetimes noLowByte).Consistent :=
  have h : (Registers.make settings.registers.toNat (settings.callerSaved.map Int.toNat) settings.resultReg.toNat frame lifetimes).Consistent := .make
  h.of_eq rfl rfl rfl rfl

/-- **Registers stay consistent.**  Whatever requests come, also those that fail, at any time a register is either in the list of
free registers, which is in order and has it once, or owned by the one box that is bound to it, and no box is bound twice.  So the
check never finds anything wrong.  Of the settings it only matters that there is a register for results. -/
theorem consistent_serveAll {settings : RegisterSettings} (hlow : 0 ≤ settings.resultReg) (hhigh : settings.resultReg < settings.registers)
    (frame : FrameSlots) (lifetimes : Lifetimes) (noLowByte : List Nat) {qs : List Request}
    (hqs : AllAllowed (start settings frame lifetimes noLowByte) qs) : (serveAll (start settings frame lifetimes noLowByte) qs).Consistent ∧
      (serveAll (start settings frame lifetimes noLowByte) qs).count = settings.registers.toNat ∧
      (serveAll (start settings frame lifetimes noLowByte) qs).check = .ok () := by
  have hreg : settings.resultReg.toNat < settings.registers.toNat := by omega
  obtain ⟨h, hfixed⟩ := Consistent.start.serveAll hreg hqs
  exact ⟨h, hfixed.count, h.check⟩

/-- With one register: a second box sends the first one to the frame, a third one is refused as nobody may make room, and the
result of a call takes the register over. -/
theorem consistent_serveAll_one_register :
    let a : Box := ⟨0, .int⟩
    let b : Box := ⟨1, .int⟩
    let c : Box := ⟨2, .ref⟩
    let m := serveAll (start { registers := 1, callerSaved := [0] } {} {} [])
      [.force a [] {}, .force b [] {}, .force c [b] {}, .afterCall (some c)]
    (m.Consistent ∧ m.count = 1 ∧ m.check = .ok ()) ∧ m.bindings = [(c, 0)] ∧ m.frame.depth = 2 :=
  ⟨consistent_serveAll (by decide) (by decide) {} {} [] ⟨trivial, trivial, trivial, by rfl, trivial⟩, by rfl, by rfl⟩

end FlowCompiler.Trace.Registers
