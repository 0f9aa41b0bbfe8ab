import FlowCompiler.Proofs.Lookup
import FlowCompiler.Trace.Registers

/-!
# Slots of a frame do not overlap

A place in the frame that is given to a box is taken from the free ones or lies beyond the frame, so that no two boxes have a
place in common (`FrameSlots.Apart`).  A place that is given back is free for others.
-/

namespace FlowCompiler.Trace

open List

namespace FreeSlots

variable {free free' : FreeSlots} {p s pos : Int} {width : Nat} {ps : List Int}

theorem mem_insert : p ∈ insert s free ↔ p = s ∨ p ∈ free := by
  induction free with
  | nil => simp [insert]
  | cons t rest ih =>
    rw [insert]
    split
    · rw [mem_cons, ih, mem_cons, or_left_comm]
    · split
      · rename_i e
        rw [mem_cons, e, ← or_assoc, or_self]
      · rw [mem_cons]

theorem mem_remove : p ∈ remove free s ↔ p ∈ free ∧ p ≠ s := by simp [remove]

theorem mem_foldl_insert : p ∈ ps.foldl (fun free p => insert p free) free ↔ p ∈ ps ∨ p ∈ free := by
  induction ps generalizing free with
  | nil => simp
  | cons t ps ih => rw [foldl_cons, ih, mem_insert, mem_cons, or_left_comm, or_assoc]

theorem mem_foldl_remove : p ∈ ps.foldl remove free ↔ p ∈ free ∧ p ∉ ps := by
  induction ps generalizing free with
  | nil => simp
  | cons t ps ih => rw [foldl_cons, ih, mem_remove, mem_cons, not_or, and_assoc]

theorem mem_span : p ∈ span pos width ↔ pos ≤ p ∧ p < pos + width := by
  rw [span, mem_map]
  refine ⟨?_, fun h => ⟨(p - pos).toNat, mem_range.2 (by omega), by omega⟩⟩
  rintro ⟨i, hi, rfl⟩
  have := mem_range.1 hi
  omega

theorem take?_spec (h : take? free pos width = some free') : (∀ p ∈ span pos width, p ∈ free) ∧ ∀ p, p ∈ free' ↔ p ∈ free ∧ p ∉ span pos width := by
  unfold take? at h
  split at h
  · cases h
  · split at h
    · rename_i hall
      cases h
      exact ⟨fun p hp => contains_iff_mem.1 (all_eq_true.1 hall p hp), fun p => mem_foldl_remove⟩
    · cases h

theorem take?_of_find? (hw : width = 1 ∨ width = 2) (hsub : ∀ p ∈ free', p ∈ free) (h : find? width free' = some s) :
    ∃ rest, take? free s width = some rest := by
  have taken (heven : width = 2 → isEven s = true) (hall : ∀ p ∈ span s width, p ∈ free) : ∃ rest, take? free s width = some rest := by
    refine ⟨(span s width).foldl remove free, ?_⟩
    rw [take?, if_neg, if_pos]
    · exact all_eq_true.2 fun p hp => contains_iff_mem.2 (hall p hp)
    · intro h
      simp only [Bool.and_eq_true, decide_eq_true_eq, Bool.not_eq_true'] at h
      rw [heven h.1] at h
      cases h.2
  induction free' with
  | nil => cases h
  | cons t rest ih =>
    rw [find?] at h
    split at h
    · rename_i ht
      cases h
      have hs : s ∈ free := hsub s mem_cons_self
      rcases hw with rfl | rfl
      · exact taken nofun fun p hp => by
          have := mem_span.1 hp
          rwa [show p = s by omega]
      · have hs' : isEven s = true ∧ rest.head? = some (s + 1) := by simpa using ht
        obtain ⟨tail, rfl⟩ := List.head?_eq_some_iff.1 hs'.2
        refine taken (fun _ => hs'.1) fun p hp => ?_
        have := mem_span.1 hp
        rcases (show p = s ∨ p = s + 1 by omega) with rfl | rfl
        · exact hs
        · exact hsub _ (by simp)
    · exact ih (fun p hp => hsub p (mem_cons_of_mem _ hp)) h

theorem pop?_spec {hint : Option Int} (hw : width = 1 ∨ width = 2) (h : pop? free width hint = some (pos, free')) :
    (∀ p ∈ span pos width, p ∈ free) ∧ ∀ p, p ∈ free' ↔ p ∈ free ∧ p ∉ span pos width := by
  unfold pop? at h
  split at h
  · rename_i r hr
    obtain ⟨n, -, hn⟩ := Option.bind_eq_some_iff.1 hr
    split at hn
    · obtain ⟨rest, hrest, e⟩ := Option.map_eq_some_iff.1 hn
      cases e
      cases h
      exact take?_spec hrest
    · cases hn
  · obtain ⟨s, hs, e⟩ := Option.map_eq_some_iff.1 h
    obtain ⟨rest, hrest⟩ := take?_of_find? hw (fun _ => id) hs
    rw [hrest] at e
    cases e
    exact take?_spec hrest

end FreeSlots

/-- The numbers of the places that a slot takes. -/
def FrameSlot.places (s : FrameSlot) : List Int := FreeSlots.span s.pos s.width

theorem FrameSlot.mem_places {pos p : Int} {width : Nat} : p ∈ (⟨pos, width⟩ : FrameSlot).places ↔ pos ≤ p ∧ p < pos + width := FreeSlots.mem_span

namespace FrameSlots

variable {f : FrameSlots} {b x : Box} {s t : FrameSlot}

theorem width_cases (f : FrameSlots) (k : Kind) : f.width k = 1 ∨ f.width k = 2 := by
  unfold width
  split
  · exact .inr rfl
  · exact .inl rfl

theorem get?_assign : (f.assign b s).get? x = if x = b then some s else f.get? x := by
  rw [get?, assign, Entries.lookup_cons, Entries.lookup_filter_ne, get?]
  by_cases h : x = b <;> simp [h]

theorem slot_of_some (h : f.get? b = some s) : f.slot b = (s, f) := by rw [slot, h]

theorem get?_slot : (f.slot b).2.get? x = if x = b then some (f.slot b).1 else f.get? x := by
  cases h : f.get? b with
  | some s =>
    rw [slot_of_some h]
    by_cases e : x = b
    · rw [if_pos e, e, h]
    · rw [if_neg e]
  | none =>
    rw [slot, h]
    dsimp only
    split
    · exact get?_assign
    · split <;> exact get?_assign

theorem get?_release : (f.release b).get? x = if x = b then none else f.get? x := by
  rw [release]
  split
  · rename_i h
    by_cases e : x = b
    · rw [if_pos e, e, h]
    · rw [if_neg e]
  · rw [get?, Entries.lookup_filter_ne, get?]

/-- A slot has places, the slots of boxes do not overlap, and neither free places nor those beyond the frame belong to one. -/
structure Apart (f : FrameSlots) : Prop where
  free_lt : ∀ {p : Int}, p ∈ f.free → p < f.depth
  slot_lt : ∀ {b : Box} {s : FrameSlot} {p : Int}, f.get? b = some s → p ∈ s.places → p < f.depth
  free : ∀ {b : Box} {s : FrameSlot} {p : Int}, f.get? b = some s → p ∈ s.places → p ∉ f.free
  slots : ∀ {b x : Box} {s t : FrameSlot} {p : Int}, f.get? b = some s → f.get? x = some t → p ∈ s.places → p ∈ t.places → b = x
  pos : ∀ {b : Box} {s : FrameSlot}, f.get? b = some s → s.pos ∈ s.places

namespace Apart

theorem empty {hints : List (Box × Int)} {depth : Int} {wideFloats : Bool} : Apart { hints, depth, wideFloats } where
  free_lt := nofun
  slot_lt := nofun
  free := nofun
  slots := nofun
  pos := nofun

theorem assign (h : f.Apart) {free : FreeSlots} {depth : Int} (hdepth : f.depth ≤ depth) (pos : s.pos ∈ s.places) (lt : ∀ p ∈ s.places, p < depth)
    (apart : ∀ {x t p}, f.get? x = some t → p ∈ t.places → p ∉ s.places)
    (mem : ∀ p ∈ free, p < depth ∧ p ∉ s.places ∧ ∀ {x t}, f.get? x = some t → p ∉ t.places) :
    (({ f with free, depth } : FrameSlots).assign b s).Apart := by
  have get? {x : Box} : (({ f with free, depth } : FrameSlots).assign b s).get? x = if x = b then some s else f.get? x :=
    get?_assign
  refine ⟨fun hp => (mem _ hp).1, fun {x t p} hx hp => ?_, fun {x t p} hx hp hfree => ?_, fun {x y t u p} hx hy hp hq => ?_, fun {x t} hx => ?_⟩
  · rw [get?] at hx
    split at hx
    · cases hx
      exact lt p hp
    · exact Int.lt_of_lt_of_le (h.slot_lt hx hp) hdepth
  · rw [get?] at hx
    split at hx
    · cases hx
      exact (mem p hfree).2.1 hp
    · exact (mem p hfree).2.2 hx hp
  · rw [get?] at hx hy
    split at hx <;> split at hy
    · simp_all
    · cases hx
      exact absurd hp (apart hy hq)
    · cases hy
      exact absurd hq (apart hx hp)
    · exact h.slots hx hy hp hq
  · rw [get?] at hx
    split at hx
    · cases hx
      exact pos
    · exact h.pos hx

theorem slot (h : f.Apart) (b : Box) : (f.slot b).2.Apart := by
  cases hb : f.get? b with
  | some s => rwa [slot_of_some hb]
  | none =>
    have first (pos : Int) : pos ∈ (⟨pos, f.width b.kind⟩ : FrameSlot).places := by
      have := f.width_cases b.kind
      exact FrameSlot.mem_places.2 ⟨Int.le_refl _, by omega⟩
    rw [FrameSlots.slot, hb]
    dsimp only
    split
    · rename_i pos free hpop
      obtain ⟨sub, mem⟩ := FreeSlots.pop?_spec (f.width_cases b.kind) hpop
      refine h.assign (Int.le_refl _) (first _) (fun p hp => h.free_lt (sub p hp)) (fun hx hp hp' => h.free hx hp (sub _ hp')) fun p hp => ?_
      obtain ⟨hfree, hnot⟩ := (mem p).1 hp
      exact ⟨h.free_lt hfree, hnot, fun hx hp => h.free hx hp hfree⟩
    · split
      · refine h.assign (by omega) (first _) (fun p hp => ?_) (fun hx hp hp' => ?_) fun p hp => ?_
        · have := FrameSlot.mem_places.1 hp
          omega
        · have := FrameSlot.mem_places.1 hp'
          have := h.slot_lt hx hp
          omega
        · have lt {x t} (hx : f.get? x = some t) (hp : p ∈ t.places) : p < f.depth := h.slot_lt hx hp
          rcases FreeSlots.mem_insert.1 hp with rfl | hp
          · refine ⟨by omega, fun hp => ?_, fun hx hp => ?_⟩
            · have := FrameSlot.mem_places.1 hp
              omega
            · have := lt hx hp
              omega
          · have := h.free_lt hp
            refine ⟨by omega, fun hp => ?_, fun hx hp' => h.free hx hp' hp⟩
            have := FrameSlot.mem_places.1 hp
            omega
      · refine h.assign (by omega) (first _) (fun p hp => (FrameSlot.mem_places.1 hp).2) (fun hx hp hp' => ?_) fun p hp => ?_
        · have := FrameSlot.mem_places.1 hp'
          have := h.slot_lt hx hp
          omega
        · have := h.free_lt hp
          refine ⟨by omega, fun hp => ?_, fun hx hp' => h.free hx hp' hp⟩
          have := FrameSlot.mem_places.1 hp
          omega

theorem release (h : f.Apart) (b : Box) : (f.release b).Apart := by
  have get? {x : Box} {t : FrameSlot} (hx : (f.release b).get? x = some t) : x ≠ b ∧ f.get? x = some t := by
    rw [get?_release] at hx
    split at hx
    · cases hx
    · exact ⟨‹_›, hx⟩
  have depth : (f.release b).depth = f.depth := by
    rw [FrameSlots.release]
    split <;> rfl
  have mem {p : Int} : p ∈ (f.release b).free ↔ p ∈ f.free ∨ ∃ s, f.get? b = some s ∧ p ∈ s.places := by
    rw [FrameSlots.release]
    split
    · rename_i hb
      simp [hb]
    · rename_i s hb
      rw [FreeSlots.mem_foldl_insert, or_comm]
      simp [hb, FrameSlot.places]
  refine ⟨fun hp => ?_, fun hx hp => ?_, fun hx hp hfree => ?_, fun hx hy => h.slots (get? hx).2 (get? hy).2, fun hx => h.pos (get? hx).2⟩
  · rw [depth]
    rcases mem.1 hp with hp | ⟨s, hs, hp⟩
    · exact h.free_lt hp
    · exact h.slot_lt hs hp
  · rw [depth]
    exact h.slot_lt (get? hx).2 hp
  · rcases mem.1 hfree with hfree | ⟨s, hs, hp'⟩
    · exact h.free (get? hx).2 hp hfree
    · exact (get? hx).1 (h.slots (get? hx).2 hs hp hp')

end Apart

end FrameSlots
end FlowCompiler.Trace

/-!
## The slots of a frame are tiled

Below its depth a frame has no hole and no overlap: every place is a base place, a free one or one of exactly one box
(`FrameSlots.Tiled`).  A box gets its slot out of the free places or beyond the depth (`FrameSlots.Carves`), and so whatever is
asked for and given back, in whatever order and with whatever proposals, the frame stays tiled (`FrameSlots.tiled_run`).
-/

namespace FlowCompiler.Trace

namespace FreeSlots

variable {free free' : FreeSlots} {p s pos : Int} {width : Nat} {ps : List Int}

theorem isEven_iff {n : Int} : isEven n = true ↔ 2 ∣ n := by
  rw [isEven, beq_iff_eq, Int.dvd_iff_tmod_eq_zero]

/-! ### The free places stay in order -/

theorem ascending_insert (h : free.Pairwise (· < ·)) : (insert s free).Pairwise (· < ·) := by
  induction free with
  | nil => exact List.pairwise_singleton _ _
  | cons t rest ih =>
    obtain ⟨ht, hrest⟩ := List.pairwise_cons.1 h
    rw [insert]
    split
    · rename_i hlt
      refine List.pairwise_cons.2 ⟨fun p hp => ?_, ih hrest⟩
      rcases mem_insert.1 hp with rfl | hp
      · exact hlt
      · exact ht p hp
    · split
      · exact h
      · refine List.pairwise_cons.2 ⟨fun p hp => ?_, h⟩
        rcases List.mem_cons.1 hp with rfl | hp
        · omega
        · have := ht p hp
          omega

theorem ascending_foldl_insert (h : free.Pairwise (· < ·)) : (ps.foldl (fun free p => insert p free) free).Pairwise (· < ·) := by
  induction ps generalizing free with
  | nil => exact h
  | cons p ps ih => exact ih (ascending_insert h)

theorem foldl_remove_sublist : List.Sublist (ps.foldl remove free) free := by
  induction ps generalizing free with
  | nil => exact .refl _
  | cons p ps ih => exact ih.trans List.filter_sublist

theorem take?_sublist (h : take? free pos width = some free') : List.Sublist free' free := by
  unfold take? at h
  split at h
  · cases h
  · split at h
    · cases h
      exact foldl_remove_sublist
    · cases h

theorem even_of_take? (h : take? free pos 2 = some free') : 2 ∣ pos := by
  unfold take? at h
  split at h
  · cases h
  · rename_i heven
    exact isEven_iff.1 (by simpa using heven)

theorem take?_of_pop? {hint : Option Int} (hw : width = 1 ∨ width = 2) (h : pop? free width hint = some (pos, free')) :
    take? free pos width = some free' := by
  unfold pop? at h
  split at h
  · rename_i r hr
    obtain ⟨n, -, hn⟩ := Option.bind_eq_some_iff.1 hr
    split at hn
    · obtain ⟨rest, hrest, e⟩ := Option.map_eq_some_iff.1 hn
      cases e
      cases h
      exact hrest
    · cases hn
  · obtain ⟨s, hs, e⟩ := Option.map_eq_some_iff.1 h
    obtain ⟨rest, hrest⟩ := take?_of_find? hw (fun _ => id) hs
    rw [hrest] at e
    cases e
    exact hrest

end FreeSlots

namespace FrameSlots

variable {base : Nat} {f : FrameSlots} {b : Box} {s : FrameSlot}

/-! ### Frames without holes -/

/-- The places below the depth are the base places, the free ones and those of boxes, each of them once. -/
structure Tiled (base : Nat) (f : FrameSlots) : Prop where
  base_le : (base : Int) ≤ f.depth
  cover : ∀ p : Int, 0 ≤ p ∧ p < f.depth ↔ (0 ≤ p ∧ p < base) ∨ p ∈ f.free ∨ ∃ b s, f.get? b = some s ∧ p ∈ s.places
  base_free : ∀ p ∈ f.free, (base : Int) ≤ p
  base_slot : ∀ {b : Box} {s : FrameSlot} {p : Int}, f.get? b = some s → p ∈ s.places → (base : Int) ≤ p
  free_slot : ∀ {b : Box} {s : FrameSlot} {p : Int}, f.get? b = some s → p ∈ s.places → p ∉ f.free
  slot_slot : ∀ {b x : Box} {s t : FrameSlot} {p : Int}, f.get? b = some s → f.get? x = some t → p ∈ s.places → p ∈ t.places → b = x
  ascending : f.free.Pairwise (· < ·)
  width : ∀ {b : Box} {s : FrameSlot}, f.get? b = some s → s.width = f.width b.kind
  even : ∀ {b : Box} {s : FrameSlot}, f.get? b = some s → s.width = 2 → 2 ∣ s.pos

/-- A slot for a value is cut out of the free places and of those from the depth on; what is left over of them is free. -/
structure Carves (f : FrameSlots) (k : Kind) (s : FrameSlot) (free : FreeSlots) (depth : Int) : Prop where
  width : s.width = f.width k
  even : s.width = 2 → 2 ∣ s.pos
  le : f.depth ≤ depth
  cover : ∀ p, p ∈ s.places ∨ p ∈ free ↔ p ∈ f.free ∨ f.depth ≤ p ∧ p < depth
  apart : ∀ p ∈ free, p ∉ s.places
  ascending : free.Pairwise (· < ·)

variable {width : Nat} {free : FreeSlots} {k : Kind}

theorem carves_of_take? {pos : Int} (hf : f.free.Pairwise (· < ·))
    (hwidth : width = f.width k) (h : f.free.take? pos width = some free) : f.Carves k ⟨pos, width⟩ free f.depth := by
  obtain ⟨sub, mem⟩ := FreeSlots.take?_spec h
  refine ⟨hwidth, ?_, Int.le_refl _, fun p => ?_, fun p hp => ((mem p).1 hp).2, hf.sublist (FreeSlots.take?_sublist h)⟩
  · rintro rfl
    exact FreeSlots.even_of_take? h
  · have hsub := sub p
    have hbeyond : ¬(f.depth ≤ p ∧ p < f.depth) := by omega
    rw [mem p, or_iff_left hbeyond, FrameSlot.places]
    by_cases hp : p ∈ FreeSlots.span pos width
    · exact iff_of_true (.inl hp) (hsub hp)
    · rw [or_iff_right hp, and_iff_left hp]

section

variable (hlt : ∀ p ∈ f.free, p < f.depth) (hf : f.free.Pairwise (· < ·)) (hwidth : width = f.width k)
include hlt hf hwidth

theorem carves_beyond (heven : width = 2 → 2 ∣ f.depth) : f.Carves k ⟨f.depth, width⟩ f.free (f.depth + width) := by
  refine ⟨hwidth, heven, by omega, fun p => ?_, fun p hp => ?_, hf⟩
  · rw [FrameSlot.mem_places, or_comm]
  · have := hlt p hp
    rw [FrameSlot.mem_places]
    omega

/-- A slot one place beyond an odd depth; the place before it is left free. -/
theorem carves_padded (hodd : ¬2 ∣ f.depth) : f.Carves k ⟨f.depth + 1, width⟩ (.insert f.depth f.free) (f.depth + 1 + width) := by
  refine ⟨hwidth, fun _ => ?_, by omega, fun p => ?_, fun p hp => ?_, FreeSlots.ascending_insert hf⟩
  · change 2 ∣ f.depth + 1
    omega
  · rw [FrameSlot.mem_places, FreeSlots.mem_insert]
    refine ⟨?_, ?_⟩
    · rintro (hp | rfl | hp)
      · exact .inr (by omega)
      · exact .inr (by omega)
      · exact .inl hp
    · rintro (hp | hp)
      · exact .inr (.inr hp)
      · omega
  · rw [FrameSlot.mem_places]
    rcases FreeSlots.mem_insert.1 hp with rfl | hp
    · omega
    · have := hlt p hp
      omega

end

namespace Tiled

theorem free_lt (h : f.Tiled base) {p : Int} (hp : p ∈ f.free) : p < f.depth := ((h.cover p).2 (.inr (.inl hp))).2

theorem slot_lt (h : f.Tiled base) {p : Int} (hs : f.get? b = some s) (hp : p ∈ s.places) : p < f.depth :=
  ((h.cover p).2 (.inr (.inr ⟨b, s, hs, hp⟩))).2

theorem start {hints : List (Box × Int)} {wideFloats : Bool} : Tiled base { hints, depth := base, wideFloats } where
  base_le := Int.le_refl _
  cover p := by simp [get?]
  base_free := nofun
  base_slot := nofun
  free_slot := nofun
  slot_slot := nofun
  ascending := .nil
  width := nofun
  even := nofun

theorem assign (h : f.Tiled base) (hb : f.get? b = none) {depth : Int} (hc : f.Carves b.kind s free depth) :
    (({ f with free, depth } : FrameSlots).assign b s).Tiled base := by
  have get? {x : Box} : (({ f with free, depth } : FrameSlots).assign b s).get? x = if x = b then some s else f.get? x :=
    get?_assign
  have found {x : Box} {t : FrameSlot} (hx : (({ f with free, depth } : FrameSlots).assign b s).get? x = some t) :
      (x = b ∧ t = s) ∨ f.get? x = some t := by
    rw [get?] at hx
    split at hx
    · exact .inl ⟨‹_›, (Option.some.inj hx).symm⟩
    · exact .inr hx
  have fresh {p : Int} (hp : p ∈ s.places ∨ p ∈ free) : p ∈ f.free ∨ f.depth ≤ p ∧ p < depth := (hc.cover p).1 hp
  have hbase := h.base_le
  have hle := hc.le
  have bounds {p : Int} (hp : p ∈ s.places ∨ p ∈ free) : (base : Int) ≤ p ∧ p < depth := by
    rcases fresh hp with hp | hp
    · have := h.base_free p hp
      have := h.free_lt hp
      omega
    · omega
  have old {x : Box} {t : FrameSlot} {p : Int} (hx : f.get? x = some t) (hp : p ∈ t.places) : ¬(p ∈ s.places ∨ p ∈ free) := by
    intro hp'
    have hlt := h.slot_lt hx hp
    rcases fresh hp' with hp' | hp'
    · exact h.free_slot hx hp hp'
    · omega
  have self : (({ f with free, depth } : FrameSlots).assign b s).get? b = some s := by rw [get?, if_pos rfl]
  have kept {x : Box} {t : FrameSlot} (hx : f.get? x = some t) : (({ f with free, depth } : FrameSlots).assign b s).get? x = some t := by
    rw [get?, if_neg]
    · exact hx
    · rintro rfl
      cases hb.symm.trans hx
  refine ⟨Int.le_trans hbase hle, fun p => ⟨fun hp => ?_, ?_⟩, fun p hp => (bounds (.inr hp)).1, fun {x t p} hx hp => ?_,
    fun {x t p} hx hp hfree => ?_, fun {x y t u p} hx hy hp hq => ?_, hc.ascending, fun {x t} hx => ?_, fun {x t} hx hw => ?_⟩
  · have carved (hp : p ∈ f.free ∨ f.depth ≤ p ∧ p < depth) :
        p ∈ free ∨ ∃ x t, (({ f with free, depth } : FrameSlots).assign b s).get? x = some t ∧ p ∈ t.places := by
      rcases (hc.cover p).2 hp with hp | hp
      · exact .inr ⟨b, s, self, hp⟩
      · exact .inl hp
    by_cases hlt : p < f.depth
    · rcases (h.cover p).1 ⟨hp.1, hlt⟩ with hp | hp | ⟨x, t, hx, hp⟩
      · exact .inl hp
      · exact .inr (carved (.inl hp))
      · exact .inr (.inr ⟨x, t, kept hx, hp⟩)
    · exact .inr (carved (.inr ⟨Int.not_lt.1 hlt, hp.2⟩))
  · have within (hp : p ∈ s.places ∨ p ∈ free) : 0 ≤ p ∧ p < depth := by
      have := bounds hp
      omega
    rintro (hp | hp | ⟨x, t, hx, hp⟩)
    · change 0 ≤ p ∧ p < depth
      omega
    · exact within (.inr hp)
    · rcases found hx with ⟨-, rfl⟩ | hx
      · exact within (.inl hp)
      · have := h.slot_lt hx hp
        have := h.base_slot hx hp
        change 0 ≤ p ∧ p < depth
        omega
  · rcases found hx with ⟨-, rfl⟩ | hx
    · exact (bounds (.inl hp)).1
    · exact h.base_slot hx hp
  · rcases found hx with ⟨-, rfl⟩ | hx
    · exact hc.apart p hfree hp
    · exact old hx hp (.inr hfree)
  · rcases found hx with ⟨ex, rfl⟩ | hx'
    · rcases found hy with ⟨ey, -⟩ | hy'
      · rw [ex, ey]
      · exact absurd (.inl hp) (old hy' hq)
    · rcases found hy with ⟨-, rfl⟩ | hy'
      · exact absurd (.inl hq) (old hx' hp)
      · exact h.slot_slot hx' hy' hp hq
  · rcases found hx with ⟨rfl, rfl⟩ | hx
    · exact hc.width
    · exact h.width hx
  · rcases found hx with ⟨-, rfl⟩ | hx
    · exact hc.even hw
    · exact h.even hx hw

/-! ### Steps -/

theorem slot (h : f.Tiled base) (b : Box) : (f.slot b).2.Tiled base := by
  cases hb : f.get? b with
  | some s => rwa [slot_of_some hb]
  | none =>
    rw [FrameSlots.slot, hb]
    dsimp only
    split
    · rename_i pos free hpop
      exact h.assign hb (carves_of_take? h.ascending rfl (FreeSlots.take?_of_pop? (f.width_cases b.kind) hpop))
    · split <;> rename_i e <;> simp only [Bool.and_eq_true, decide_eq_true_eq, Bool.not_eq_true', not_and, Bool.not_eq_false] at e
      · refine h.assign hb (carves_padded (fun p => h.free_lt) h.ascending rfl fun heven => ?_)
        cases e.2.symm.trans (FreeSlots.isEven_iff.2 heven)
      · exact h.assign hb (carves_beyond (fun p => h.free_lt) h.ascending rfl fun hw => FreeSlots.isEven_iff.1 (e hw))

theorem reuse (h : f.Tiled base) (b : Box) (s : FrameSlot) : (f.reuse b s).2.Tiled base := by
  rw [FrameSlots.reuse]
  split
  · exact h
  · rename_i hok
    simp only [Bool.or_eq_true, decide_eq_true_eq, not_or, Option.not_isSome_iff_eq_none, ne_eq, Decidable.not_not] at hok
    split
    · rename_i free htake
      exact h.assign hok.1 (carves_of_take? h.ascending hok.2 htake)
    · exact h

theorem hint (h : f.Tiled base) (b : Box) (pos : Int) : (f.hint b pos).Tiled base :=
  ⟨h.base_le, h.cover, h.base_free, h.base_slot, h.free_slot, h.slot_slot, h.ascending, h.width, h.even⟩

theorem release (h : f.Tiled base) (b : Box) : (f.release b).Tiled base := by
  cases hb : f.get? b with
  | none =>
    rw [FrameSlots.release, hb]
    exact h
  | some s =>
    have free : (f.release b).free = s.places.foldl (fun free p => .insert p free) f.free := by
      rw [FrameSlots.release, hb]
      rfl
    have depth : (f.release b).depth = f.depth := by rw [FrameSlots.release, hb]
    have width : (f.release b).width = f.width := by
      rw [FrameSlots.release, hb]
      rfl
    have mem {p : Int} : p ∈ (f.release b).free ↔ p ∈ s.places ∨ p ∈ f.free := by rw [free, FreeSlots.mem_foldl_insert]
    have get? {x : Box} {t : FrameSlot} : (f.release b).get? x = some t ↔ x ≠ b ∧ f.get? x = some t := by
      rw [get?_release]
      by_cases e : x = b <;> simp [e]
    refine ⟨depth ▸ h.base_le, fun p => ?_, fun p hp => ?_, fun hx hp => h.base_slot (get?.1 hx).2 hp, fun {x t p} hx hp hfree => ?_,
      fun hx hy => h.slot_slot (get?.1 hx).2 (get?.1 hy).2, ?_, fun hx => ?_, fun hx => h.even (get?.1 hx).2⟩
    · rw [depth, h.cover p, mem]
      refine or_congr_right ⟨?_, ?_⟩
      · rintro (hp | ⟨x, t, hx, hp⟩)
        · exact .inl (.inr hp)
        · by_cases e : x = b
          · subst e
            cases hb.symm.trans hx
            exact .inl (.inl hp)
          · exact .inr ⟨x, t, get?.2 ⟨e, hx⟩, hp⟩
      · rintro ((hp | hp) | ⟨x, t, hx, hp⟩)
        · exact .inr ⟨b, s, hb, hp⟩
        · exact .inl hp
        · exact .inr ⟨x, t, (get?.1 hx).2, hp⟩
    · rcases mem.1 hp with hp | hp
      · exact h.base_slot hb hp
      · exact h.base_free p hp
    · obtain ⟨hne, hx⟩ := get?.1 hx
      rcases mem.1 hfree with hfree | hfree
      · exact hne (h.slot_slot hx hb hp hfree)
      · exact h.free_slot hx hp hfree
    · rw [free]
      exact FreeSlots.ascending_foldl_insert h.ascending
    · rw [width]
      exact h.width (get?.1 hx).2

end Tiled

/-! ### Runs -/

/-- What is done with the slots of a frame. -/
inductive Use where
  | slot (b : Box)
  | release (b : Box)
  | hint (b : Box) (pos : Int)
  | reuse (b : Box) (s : FrameSlot)

def use (f : FrameSlots) : Use → FrameSlots
  | .slot b => (f.slot b).2
  | .release b => f.release b
  | .hint b pos => f.hint b pos
  | .reuse b s => (f.reuse b s).2

theorem Tiled.use (h : f.Tiled base) (u : Use) : (f.use u).Tiled base := by
  cases u with
  | slot b => exact h.slot b
  | release b => exact h.release b
  | hint b pos => exact h.hint b pos
  | reuse b s => exact h.reuse b s

theorem Tiled.run (h : f.Tiled base) (us : List Use) : (us.foldl .use f).Tiled base := by
  induction us generalizing f with
  | nil => exact h
  | cons u us ih => exact ih (h.use u)

/-- A frame with any number of base places stays tiled, whatever is done with its slots. -/
theorem tiled_run (base : Nat) (wideFloats : Bool) (us : List Use) : (us.foldl FrameSlots.use { depth := base, wideFloats }).Tiled base :=
  Tiled.start.run us

end FrameSlots
end FlowCompiler.Trace
