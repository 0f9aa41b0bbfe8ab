import FlowCompiler.Proofs.Registers.Binding

/-!
# Values stay where registers say they are

A machine has a cell for every register and for every place of the frame, and performs the moves that are noted.  `Keeps` says
that the boxes which were given a value have it in the cells where registers and slots say that they are, and that they are
somewhere as long as they are alive.  It holds between the elementary steps of every operation: a box that goes to the frame is
written there before it leaves its register (`Keeps.spill`), and one that gets a register is written there
(`Keeps.load_moved`).  What an operation keeps follows from that by the rules for where it ends.
-/

namespace FlowCompiler.Trace.Registers

open List Option

variable {ν : Type} {m n : Registers} {b x y : Box} {r q : Nat} {d : Demand} {forbidden given known : List Box}

/-! ## Cells -/

/-- What is in the registers and in the places of the frame. -/
structure Cells (ν : Type) where
  reg : Nat → ν
  place : Int → ν

namespace Cells

def read (imm : Value → ν) (c : Cells ν) : Loc → ν
  | .reg r => c.reg r
  | .frame s => c.place s.pos
  | .imm v => imm v

def write (c : Cells ν) (u : ν) : Loc → Cells ν
  | .reg r => { c with reg := fun q => if q = r then u else c.reg q }
  | .frame s => { c with place := fun p => if p ∈ s.places then u else c.place p }
  | .imm _ => c

/-- Performs a move. -/
def move (imm : Value → ν) (c : Cells ν) (t : Loc × Loc) : Cells ν := c.write (c.read imm t.1) t.2

/-- Performs moves one after another. -/
def replay (imm : Value → ν) (c : Cells ν) (moves : List (Loc × Loc)) : Cells ν := moves.foldl (move imm) c

end Cells

/-- The cells after the moves that were noted. -/
def cells (imm : Value → ν) (c : Cells ν) (m : Registers) : Cells ν := c.replay imm m.moves

section Cells

variable {imm : Value → ν} {c : Cells ν}

@[simp] theorem cells_moved {source target : Loc} :
    (m.moved source target).cells imm c = (m.cells imm c).write ((m.cells imm c).read imm source) target := by
  rw [cells, moved, Cells.replay, foldl_append]
  rfl

@[simp] theorem cells_bind : (m.bind b r).cells imm c = m.cells imm c := rfl

@[simp] theorem cells_unbind : (m.unbind b).cells imm c = m.cells imm c := by
  unfold unbind
  split <;> rfl

end Cells

/-! ## Keeping values -/

/-- Boxes are in their cells with their values: those that were given one.  Only `known` boxes are anywhere. -/
structure Keeps (value : Box → ν) (given known : List Box) (m : Registers) (c : Cells ν) : Prop where
  consistent : m.Consistent
  apart : m.frame.Apart
  reg : ∀ {b : Box} {r : Nat}, b ∈ given → m.regOf? b = some r → c.reg r = value b
  place : ∀ {b : Box} {s : FrameSlot} {p : Int}, b ∈ given → m.frame.get? b = some s → p ∈ s.places → c.place p = value b
  located : ∀ {b : Box}, b ∈ given → m.isAlive b = true → (m.regOf? b).isSome ∨ (m.frame.get? b).isSome
  known : ∀ {b : Box}, (m.regOf? b).isSome ∨ (m.frame.get? b).isSome → b ∈ known

namespace Keeps

variable {value : Box → ν} {imm : Value → ν} {c c₀ : Cells ν} {u : ν}

theorem noted (h : Keeps value given known m (m.cells imm c₀)) (b : Box) : Keeps value given known (m.noted b) ((m.noted b).cells imm c₀) := by
  unfold Registers.noted
  split
  · exact ⟨h.consistent.of_eq rfl rfl rfl rfl, h.apart, h.reg, h.place, h.located, h.known⟩
  · exact h

theorem unbind (h : Keeps value given known m c) (hb : b ∈ given → m.isAlive b = true → (m.frame.get? b).isSome) :
    Keeps value given known (m.unbind b) c where
  consistent := h.consistent.unbind b
  apart := by
    rw [frame_unbind]
    exact h.apart
  reg hx hr := by
    rw [regOf?_unbind] at hr
    split at hr
    · cases hr
    · exact h.reg hx hr
  place hx hs := by
    rw [frame_unbind] at hs
    exact h.place hx hs
  located {x} hx halive := by
    rw [isAlive_congr setting_unbind] at halive
    rw [regOf?_unbind, frame_unbind]
    by_cases e : x = b
    · subst e
      exact .inr (hb hx halive)
    · rw [if_neg e]
      exact h.located hx halive
  known {x} hx := by
    rw [regOf?_unbind, frame_unbind] at hx
    refine h.known (hx.imp_left fun hx => ?_)
    split at hx
    · cases hx
    · exact hx

theorem slot (h : Keeps value given known m c) (hb : b ∈ known) (hu : b ∈ given → u = value b) :
    Keeps value given known { m with frame := (m.frame.slot b).2 } (c.write u (.frame (m.frame.slot b).1)) := by
  have apart := h.apart.slot b
  have own : (m.frame.slot b).2.get? b = some (m.frame.slot b).1 := by rw [FrameSlots.get?_slot, if_pos rfl]
  refine ⟨h.consistent.withFrame _, apart, h.reg, fun {x s p} hx hs hp => ?_, fun {x} hx halive => ?_, fun {x} hx => ?_⟩
  · rw [Cells.write]
    dsimp only
    split
    · rename_i hin
      obtain rfl := apart.slots hs own hp hin
      exact hu hx
    · rename_i hout
      rw [FrameSlots.get?_slot] at hs
      split at hs
      · cases hs
        exact absurd hp hout
      · exact h.place hx hs hp
  · refine (h.located hx halive).imp_right fun hx => ?_
    rw [FrameSlots.get?_slot]
    split
    · rfl
    · exact hx
  · by_cases e : x = b
    · rwa [e]
    · dsimp only at hx
      rw [FrameSlots.get?_slot, if_neg e] at hx
      exact h.known hx

theorem moved (h : Keeps value given known m c) (source target : Loc) : Keeps value given known (m.moved source target) c :=
  ⟨h.consistent.moved _ _, h.apart, h.reg, h.place, h.located, h.known⟩

theorem sync (h : Keeps value given known m (m.cells imm c₀)) (hr : m.regOf? b = some r) :
    Keeps value given known (m.sync b) ((m.sync b).cells imm c₀) := by
  cases hs : m.frame.get? b with
  | some s =>
    rw [show m.sync b = m by rw [Registers.sync, hs]]
    exact h
  | none =>
    have e : m.sync b = { m with frame := (m.frame.slot b).2 }.moved (.reg r) (.frame (m.frame.slot b).1) := by
      rw [Registers.sync, hs, hr]
      rfl
    rw [e, cells_moved]
    exact (h.slot (h.known (.inl (isSome_of_mem hr))) fun hb => h.reg hb hr).moved _ _

theorem spill (h : Keeps value given known m (m.cells imm c₀)) (hr : m.regOf? b = some r) :
    Keeps value given known (m.spill b) ((m.spill b).cells imm c₀) := by
  have hslot : ((m.sync b).frame.get? b).isSome := by rw [frame_sync, FrameSlots.get?_slot, if_pos rfl]; rfl
  rw [Registers.spill, cells_unbind]
  exact (h.sync hr).unbind fun _ _ => hslot

theorem write (h : Keeps value given known m c) (hu : ∀ {x}, x ∈ given → m.regOf? x = some r → u = value x) :
    Keeps value given known m (c.write u (.reg r)) := by
  refine ⟨h.consistent, h.apart, fun {x q} hx hq => ?_, h.place, h.located, h.known⟩
  rw [Cells.write]
  dsimp only
  split
  · rename_i e
    rw [e] at hq
    exact hu hx hq
  · exact h.reg hx hq

theorem rebind (h : Keeps value given known m c) (hr : r ∈ (m.unbind b).free) (hb : b ∈ known)
    (hu : b ∈ given → c.reg r = value b) : Keeps value given known ((m.unbind b).bind b r) c where
  consistent := h.consistent.rebind hr
  apart := by
    rw [frame_bind, frame_unbind]
    exact h.apart
  reg {x q} hx hq := by
    rw [regOf?_bind] at hq
    split at hq
    · rename_i e
      subst e
      cases hq
      exact hu hx
    · rename_i e
      rw [regOf?_unbind, if_neg e] at hq
      exact h.reg hx hq
  place hx hs := by
    rw [frame_bind, frame_unbind] at hs
    exact h.place hx hs
  located {x} hx halive := by
    rw [isAlive_congr (setting_bind.trans setting_unbind)] at halive
    rw [regOf?_bind, frame_bind, frame_unbind]
    split
    · exact .inl rfl
    · rename_i e
      rw [regOf?_unbind, if_neg e]
      exact h.located hx halive
  known {x} hx := by
    rw [regOf?_bind, frame_bind, frame_unbind] at hx
    split at hx
    · rename_i e
      rwa [e]
    · rename_i e
      rw [regOf?_unbind, if_neg e] at hx
      exact h.known hx

/-- Only the box itself, if any, is in the register that it moves to. -/
theorem eq_of_free (h : m.Consistent) (hr : r ∈ (m.unbind b).free) (hx : m.regOf? x = some r) : x = b := by
  rcases mem_free_unbind.1 hr with hb | hfree
  · exact h.eq_of_reg hx hb
  · exact absurd hfree (h.not_free_of_reg hx)

section

variable (h : Keeps value given known m c)
include h

theorem load (hr : r ∈ (m.unbind b).free) (hb : b ∈ known) (hu : b ∈ given → u = value b) :
    Keeps value given known ((m.unbind b).bind b r) (c.write u (.reg r)) := by
  refine (h.write fun {x} hx hq => ?_).rebind hr hb fun hb => ?_
  · obtain rfl := eq_of_free h.consistent hr hq
    exact hu hx
  · rw [Cells.write]
    exact (if_pos rfl).trans (hu hb)

theorem give (hr : ∀ {r}, m.regOf? b = some r → c.reg r = value b) (hs : ∀ {s p}, m.frame.get? b = some s → p ∈ s.places → c.place p = value b)
    (hsome : (m.regOf? b).isSome ∨ (m.frame.get? b).isSome) : Keeps value (b :: given) known m c := by
  refine ⟨h.consistent, h.apart, fun {x q} hx hq => ?_, fun {x s p} hx hx' hp => ?_, fun {x} hx halive => ?_, h.known⟩
  · rcases mem_cons.1 hx with rfl | hx
    · exact hr hq
    · exact h.reg hx hq
  · rcases mem_cons.1 hx with rfl | hx
    · exact hs hx' hp
    · exact h.place hx hx' hp
  · rcases mem_cons.1 hx with rfl | hx
    · exact hsome
    · exact h.located hx halive

theorem nowhere (hb : b ∉ known) : m.regOf? b = none ∧ m.frame.get? b = none := by
  constructor
  · exact not_isSome_iff_eq_none.1 fun hs => hb (h.known (.inl hs))
  · exact not_isSome_iff_eq_none.1 fun hs => hb (h.known (.inr hs))

theorem mono : Keeps value given (b :: known) m c := ⟨h.consistent, h.apart, h.reg, h.place, h.located, fun hx => mem_cons_of_mem _ (h.known hx)⟩

end

theorem write_moved (h : Keeps value given known m (m.cells imm c₀)) {source : Loc}
    (hu : ∀ {x}, x ∈ given → m.regOf? x = some r → (m.cells imm c₀).read imm source = value x) :
    Keeps value given known (m.moved source (.reg r)) ((m.moved source (.reg r)).cells imm c₀) := by
  rw [cells_moved]
  exact (h.write hu).moved _ _

theorem load_moved (h : Keeps value given known m (m.cells imm c₀)) (hr : r ∈ (m.unbind b).free) (hb : b ∈ known) {source : Loc}
    (hu : b ∈ given → (m.cells imm c₀).read imm source = value b) :
    Keeps value given known (((m.unbind b).bind b r).moved source (.reg r)) ((((m.unbind b).bind b r).moved source (.reg r)).cells imm c₀) := by
  rw [cells_moved, cells_bind, cells_unbind]
  exact (h.load hr hb hu).moved _ _

end Keeps

/-! ## Operations -/

/-- A box is at a location. -/
def At (m : Registers) (b : Box) : Loc → Prop
  | .reg r => m.regOf? b = some r
  | .frame s => m.frame.get? b = some s
  | .imm _ => False

section Operations

variable {value : Box → ν} {imm : Value → ν} {c₀ : Cells ν} {source : Loc} {c : Value} {result : Box}

theorem Keeps.mem_known (h : Keeps value given known m (m.cells imm c₀)) (hs : m.At b source) : b ∈ known := by
  cases source with
  | reg r => exact h.known (.inl (isSome_of_mem hs))
  | frame s => exact h.known (.inr (isSome_of_mem hs))
  | imm _ => cases hs

theorem Keeps.read (h : Keeps value given known m (m.cells imm c₀)) (hb : b ∈ given) (hs : m.At b source) :
    (m.cells imm c₀).read imm source = value b := by
  cases source with
  | reg r => exact h.reg hb hs
  | frame s => exact h.place hb hs (h.apart.pos hs)
  | imm _ => cases hs

theorem reg_cells_spill : ((m.spill b).cells imm c₀).reg = (m.cells imm c₀).reg := by
  rw [spill, cells_unbind]
  unfold sync
  split
  · rfl
  · rw [cells_moved]
    rfl

section

variable (h : Keeps value given known m (m.cells imm c₀))
include h

theorem Keeps.read_spill (hb : b ∈ given) (hs : m.At b source) (hx : m.regOf? x = some r) : ((m.spill x).cells imm c₀).read imm source = value b := by
  cases source with
  | reg q =>
    rw [Cells.read, reg_cells_spill]
    exact h.reg hb hs
  | frame s =>
    refine (h.spill hx).read hb (show (m.spill x).frame.get? b = some s from ?_)
    rw [frame_spill, FrameSlots.get?_slot]
    split
    · rename_i e
      rw [← e, FrameSlots.slot_of_some hs]
    · exact hs
  | imm _ => cases hs

theorem force_loads (hs : m.At b source) : Ends (force b forbidden d) m (fun r n => (source = .reg r → Keeps value given known n (n.cells imm c₀)) ∧
        Keeps value given known (n.moved source (.reg r)) ((n.moved source (.reg r)).cells imm c₀))
      fun n => Keeps value given known n (n.cells imm c₀) := by
  have hb : b ∈ known := h.mem_known hs
  have hnoted := h.noted b
  have hs' : (m.noted b).At b source := by
    unfold noted
    split <;> exact hs
  -- the box moves to a free register, and its value can be read at its old location
  have loaded {n : Registers} {r : Nat} (hn : Keeps value given known n (n.cells imm c₀)) (hr : r ∈ n.free)
      (hu : b ∈ given → (n.cells imm c₀).read imm source = value b) :
      (source = .reg r → Keeps value given known ((n.unbind b).bind b r) (((n.unbind b).bind b r).cells imm c₀)) ∧
        Keeps value given known (((n.unbind b).bind b r).moved source (.reg r)) ((((n.unbind b).bind b r).moved source (.reg r)).cells imm c₀) := by
    have hr' : r ∈ (n.unbind b).free := mem_free_unbind.2 (.inr hr)
    refine ⟨fun e => ?_, hn.load_moved hr' hb hu⟩
    subst e
    rw [cells_bind, cells_unbind]
    exact hn.rebind hr' hb hu
  refine force_ends h.consistent (fun r hr => ⟨fun _ => hnoted, ?_⟩) (fun r hr => ?_) (fun v r hr => ?_) hnoted
  · refine hnoted.write_moved fun {x} hx hq => ?_
    obtain rfl := hnoted.consistent.eq_of_reg hr hq
    exact hnoted.read hx hs'
  · exact loaded hnoted hr fun hb => hnoted.read hb hs'
  · exact loaded (hnoted.spill hr) (mem_free_spill.2 (.inl hr)) fun hb => hnoted.read_spill hb hs' hr

theorem constant_keeps {reg : Option Nat} : Ends (constant c forbidden reg) m (fun _ n => Keeps value given known n (n.cells imm c₀))
      fun n => Keeps value given known n (n.cells imm c₀) := by
  have fill {n : Registers} {r : Nat} (hn : Keeps value given known n (n.cells imm c₀)) (hr : r ∈ n.free) :
      Keeps value given known (n.moved (.imm c) (.reg r)) ((n.moved (.imm c) (.reg r)).cells imm c₀) :=
    hn.write_moved fun _ hx => absurd hr (hn.consistent.not_free_of_reg hx)
  exact constant_ends h.consistent h (fun _ hr => fill h hr) (fun _ _ hr => fill (h.spill hr) (mem_free_spill.2 (.inl hr))) h

theorem ensure_keeps :
    Ends (ensure c forbidden d) m (fun _ n => Keeps value given known n (n.cells imm c₀)) fun n => Keeps value given known n (n.cells imm c₀) := by
  cases c with
  | const c => exact constant_keeps h
  | box b => exact ensure_ends (existing_ends (fun _ hr => force_loads h hr) (fun _ _ hs => force_loads h hs) h)

end

theorem force_binds (h : Keeps value given given m (m.cells imm c₀)) (hb : b ∉ given) : Ends (force b forbidden d) m (fun r n => Keeps value given
      (b :: given) n (n.cells imm c₀) ∧ n.regOf? b = some r ∧ n.frame.get? b = none) fun n => Keeps value given given n (n.cells imm c₀) := by
  have hnoted := h.noted b
  have bound {n : Registers} {r : Nat} (hn : Keeps value given given n (n.cells imm c₀)) (hr : r ∈ n.free) :
      Keeps value given (b :: given) ((n.unbind b).bind b r) (((n.unbind b).bind b r).cells imm c₀) ∧
        ((n.unbind b).bind b r).regOf? b = some r ∧ ((n.unbind b).bind b r).frame.get? b = none := by
    refine ⟨?_, by simp, by rw [frame_bind, frame_unbind, (hn.nowhere hb).2]⟩
    rw [cells_bind, cells_unbind]
    exact hn.mono.rebind (mem_free_unbind.2 (.inr hr)) mem_cons_self fun hb' => absurd hb' hb
  refine force_ends h.consistent (fun r hr' => ?_) (fun r hr' => bound hnoted hr')
    (fun v r hv => bound (hnoted.spill hv) (mem_free_spill.2 (.inl hv))) hnoted
  rw [(hnoted.nowhere hb).1] at hr'
  cases hr'

theorem Keeps.vacate (h : Keeps value given known m (m.cells imm c₀)) (hr : m.regOf? b = some r) :
    Keeps value given known (m.vacate b) ((m.vacate b).cells imm c₀) := by
  rcases vacate_cases hr with ⟨e, hslot⟩ | ⟨-, s, hs, -, e⟩ | e
  · rw [e, cells_unbind]
    exact h.unbind fun _ => hslot
  · rw [e]
    exact h.load_moved hs (h.known (.inl (isSome_of_mem hr))) fun hb => h.reg hb hr
  · rw [e]
    exact h.spill hr

theorem resultIn_binds (h : Keeps value given given m (m.cells imm c₀)) (hb : result ∉ given) : Ends (resultIn result c forbidden) m
      (fun r n => Keeps value given (result :: given) n (n.cells imm c₀) ∧ n.regOf? result = some r ∧ n.frame.get? result = none)
      fun n => Keeps value given given n (n.cells imm c₀) := by
  cases c with
  | const c =>
    refine resultIn_const_ends ((force_binds h hb).mono (fun r n hn => ?_) fun _ => id)
    refine ⟨hn.1.write_moved fun {x} hx hq => ?_, hn.2⟩
    exact absurd (hn.1.consistent.eq_of_reg hn.2.1 hq ▸ hx) hb
  | box b =>
    have last {n : Registers} {r : Nat} (hn : Keeps value given given n (n.cells imm c₀)) (hr' : n.regOf? b = some r) :
        Keeps value given (result :: given) ((n.vacate b).bind result r) (((n.vacate b).bind result r).cells imm c₀) ∧
          ((n.vacate b).bind result r).regOf? result = some r ∧ ((n.vacate b).bind result r).frame.get? result = none := by
      have hvacate := hn.vacate hr'
      have hfree := (Room.vacate hn.consistent hr').2.1
      have hnone := hvacate.nowhere hb
      have hbound := hvacate.mono.rebind (mem_free_unbind.2 (.inr hfree)) mem_cons_self fun hb' => absurd hb' hb
      rw [unbind_of_none hnone.1] at hbound
      exact ⟨hbound, by simp, hnone.2⟩
    refine resultIn_box_ends (fun r hr' => last h hr') fun hnone => existing_ends (fun r hr' => ?_) (fun s _ hs' => ?_) h
    · rw [hnone] at hr'
      cases hr'
    · have hat : m.At b (.frame s) := hs'
      refine ((force_loads h hat).and (force_room h.consistent)).mono (fun r n hn => ?_) fun _ hn => hn.1
      have hreg : (n.moved (.frame s) (.reg r)).regOf? b = some r := hn.2.2
      rw [hreg]
      exact last hn.1.2 hreg

/-! ## Giving back and calls -/

theorem Keeps.release (h : Keeps value given known m (m.cells imm c₀)) (c : Value) :
    Keeps value given known (m.release c) ((m.release c).cells imm c₀) := by
  cases c with
  | const _ => exact h
  | box b =>
    rw [Registers.release]
    split
    · exact h
    · rename_i hdead
      have hn : Keeps value given known (m.unbind b) ((m.unbind b).cells imm c₀) := by
        rw [cells_unbind]
        exact h.unbind fun _ halive => absurd halive hdead
      have get? {x : Box} {s : FrameSlot} (hs : (m.frame.release b).get? x = some s) : (m.unbind b).frame.get? x = some s := by
        rw [FrameSlots.get?_release] at hs
        rw [frame_unbind]
        split at hs
        · cases hs
        · exact hs
      refine ⟨hn.consistent.withFrame _, h.apart.release b, hn.reg, fun hx hs => hn.place hx (get? hs), fun {x} hx halive => ?_, fun {x} hx => ?_⟩
      · have halive' : (m.unbind b).isAlive x = true := halive
        rw [isAlive_congr setting_unbind] at halive'
        have hne : x ≠ b := by
          rintro rfl
          exact hdead halive'
        rw [FrameSlots.get?_release, if_neg hne, ← frame_unbind]
        exact hn.located hx halive
      · refine hn.known (hx.imp_right fun hx => ?_)
        obtain ⟨s, hs⟩ := isSome_iff_exists.1 hx
        exact isSome_of_mem (get? hs)

theorem Keeps.releaseAll (h : Keeps value given known m (m.cells imm c₀)) (cs : List Value) :
    Keeps value given known (m.releaseAll cs) ((m.releaseAll cs).cells imm c₀) :=
  List.foldlRecOn (motive := fun n => Keeps value given known n (n.cells imm c₀)) cs _ h fun _ hm c _ => hm.release c

variable {stored : List Box} {mode : SaveMode}

theorem Keeps.saveOne (h : Keeps value given known m (m.cells imm c₀)) (r : Nat) :
    Keeps value given known (saveOne stored mode m r) ((saveOne stored mode m r).cells imm c₀) := by
  rw [Registers.saveOne]
  split
  · exact h
  · rename_i b howner
    dsimp only
    split
    · rename_i hdead
      rw [cells_unbind]
      exact h.unbind fun _ halive => by simp [halive] at hdead
    · split
      · exact h.spill (h.consistent.owner_iff.1 howner)
      · exact h

theorem Keeps.beforeCall (h : Keeps value given known m (m.cells imm c₀)) :
    Keeps value given known (m.beforeCall stored mode) ((m.beforeCall stored mode).cells imm c₀) :=
  List.foldlRecOn (motive := fun n => Keeps value given known n (n.cells imm c₀)) _ _ h fun _ hm r _ => hm.saveOne r

theorem Keeps.afterCall (h : Keeps value given given m (m.cells imm c₀)) (hb : result ∉ given)
    (howner : m.ownerOf m.resultReg = none) (hreg : m.resultReg < m.count) (hu : (m.cells imm c₀).reg m.resultReg = value result) :
    Keeps value (result :: given) (result :: given) (m.afterCall result) ((m.afterCall result).cells imm c₀) := by
  obtain ⟨hnone, hslot⟩ := h.nowhere hb
  have hfree : m.resultReg ∈ m.free := h.consistent.free_iff.2 ⟨hreg, howner⟩
  have e : m.afterCall result = (m.unbind result).bind result m.resultReg := by
    rw [Registers.afterCall, howner, unbind_of_none hnone]
  rw [e, cells_bind, cells_unbind]
  refine (h.mono.rebind (mem_free_unbind.2 (.inr hfree)) mem_cons_self fun hb' => absurd hb' hb).give (fun hr => ?_) (fun hs _ => ?_) (.inl (by simp))
  · rw [regOf?_bind, if_pos rfl] at hr
    cases hr
    exact hu
  · rw [frame_bind, frame_unbind, hslot] at hs
    cases hs

/-- A box that is alive after an operation was alive before it. -/
theorem Keeps.next (h : Keeps value given known m c₀) : Keeps value given known { m with position := m.position + 1 } c₀ := by
  refine ⟨h.consistent.of_eq rfl rfl rfl rfl, h.apart, h.reg, h.place, fun {x} hx halive => h.located hx ?_, h.known⟩
  rw [isAlive, decide_eq_true_eq, lastUse] at halive ⊢
  cases hspan : m.lifetimes.get? x with
  | none => simp [hspan] at halive
  | some t =>
    rw [hspan] at halive
    simp only [map_some, getD_some] at halive ⊢
    omega

end Operations

/-! ## What a callee finds -/

theorem regOf?_saveOne {stored : List Box} {mode : SaveMode} (h : (saveOne stored mode m q).regOf? x = some r) : m.regOf? x = some r := by
  rw [saveOne] at h
  split at h
  · exact h
  · dsimp only at h
    have gone {b : Box} (h : (if x = b then none else m.regOf? x) = some r) : m.regOf? x = some r := by
      split at h
      · cases h
      · exact h
    split at h
    · exact gone (regOf?_unbind ▸ h)
    · split at h
      · exact gone (regOf?_spill ▸ h)
      · exact h

section

variable {mode : SaveMode} (h : m.Consistent) (hsaved : mode = .all ∨ r ∈ m.callerSaved)
include h hsaved

theorem regOf?_saveOne_ne {stored : List Box} : (saveOne stored mode m r).regOf? x ≠ some r := by
  intro hx
  have howner := h.owner_iff.2 (regOf?_saveOne hx)
  rw [saveOne, howner] at hx
  dsimp only at hx
  split at hx
  · simp at hx
  · rw [if_pos] at hx
    · simp at hx
    · simp only [Bool.or_eq_true, decide_eq_true_eq, contains_iff_mem]
      tauto

theorem regOf?_foldl_saveOne_ne {stored : List Box} {qs : List Nat} (hr : m.regOf? x = some r → r ∈ qs) :
    (qs.foldl (saveOne stored mode) m).regOf? x ≠ some r := by
  induction qs generalizing m with
  | nil => exact fun hx => absurd (hr hx) not_mem_nil
  | cons q qs ih =>
    have hserves : Serves m (saveOne stored mode m q) := .saveOne h q
    refine ih hserves.consistent (hsaved.imp_right fun hs => ?_) fun hx => ?_
    · rwa [hserves.fixed.callerSaved]
    · rcases mem_cons.1 (hr (regOf?_saveOne hx)) with rfl | hmem
      · exact absurd hx (regOf?_saveOne_ne h hsaved)
      · exact hmem

theorem regOf?_beforeCall_ne {stored : List Box} : (m.beforeCall stored mode).regOf? x ≠ some r :=
  regOf?_foldl_saveOne_ne h hsaved fun hx => mem_range.2 (h.lt_of_reg hx)

end

end FlowCompiler.Trace.Registers
